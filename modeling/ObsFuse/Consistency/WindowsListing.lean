import ObsFuse.Consistency.DirectChildren
import ObsFuse.Fs.Events
import ObsFuse.Fs.WinFsp

/-! # A directory as the Windows host reads it

The host reads a directory in pages. It names the last entry that it has, and the adapter reads
the whole directory again and goes on after the first entry of that name. -/

namespace ObsFuse
open Lib

namespace WinFspFs

theorem addDirInfos_names (clock : ℕ → Now) (fits : ℕ) (entries : List DirEntry)
    (core : ObsFsCore) :
    (addDirInfos clock fits entries core).1.map (·.fileName) =
      (entries.map (·.name)).take fits := by
  induction entries generalizing clock fits core with
  | nil =>
    rw [List.map_nil, List.take_nil, addDirInfos]
    rfl
  | cons entry entries ih =>
    cases fits with
    | zero => rfl
    | succ fits =>
      have htail := ih (fun n => clock (n + 1)) fits (core.doGetattr (clock 0) entry.inode).2
      rw [addDirInfos, List.map_cons, List.map_cons, List.take_succ_cons, htail]

/-- The names of a directory with the listed objects, in the order of its entries. -/
def entryNames (infos : List ObjectMeta) : List Str :=
  ['.'] :: ['.', '.'] :: (infos.filter (·.shown)).map (·.name)

theorem doReaddir_names {s : ObsFsCore} {inode : ℕ} {path : Str} {infos : List ObjectMeta}
    (h : s.Lists inode path infos) (now : Now) :
    ∃ entries, (s.doReaddir now inode 0).1 = .ok entries ∧
      entries.map (·.name) = entryNames infos := by
  obtain ⟨hentries, -, -, -⟩ := ObsFsCore.doReaddir_lists h now 0
  have hzero : ((0 : ℤ) - 2).toNat = 0 := rfl
  rw [hzero, List.drop_zero] at hentries
  refine ⟨_, hentries, ?_⟩
  rw [List.map_append, names_numbered]
  rfl

theorem nodup_entryNames {infos : List ObjectMeta} :
    (entryNames infos).Nodup ↔ ((infos.filter (·.shown)).map (·.name)).Nodup := by
  have hdots : ∀ name ∈ (infos.filter (·.shown)).map (·.name),
      name ≠ ['.'] ∧ name ≠ ['.', '.'] := by
    intro name hname
    obtain ⟨info, hinfo, rfl⟩ := List.mem_map.mp hname
    have hshown := (List.mem_filter.mp hinfo).2
    unfold ObjectMeta.shown at hshown
    rw [Bool.not_eq_true', decide_eq_false_iff_not, not_or, not_or] at hshown
    exact hshown.2
  unfold entryNames
  rw [List.nodup_cons, List.nodup_cons, List.mem_cons, not_or]
  constructor
  · exact fun h => h.2.2
  · intro h
    exact ⟨⟨by decide, fun hmem => (hdots _ hmem).1 rfl⟩, fun hmem => (hdots _ hmem).2 rfl, h⟩

/-- What happens while a host reads a directory: a page for which its buffer has room for some
entries, or anything else at the core. -/
inductive HostStep where
  | page (now : Now) (clock : ℕ → Now) (fits : ℕ)
  | other (ev : CoreEvent)

def HostStep.fits : HostStep → ℕ
  | .page _ _ fits => fits
  | .other _ => 0

/-- The core, the marker of the next page, and the names that the host has got. -/
structure HostView where
  core : ObsFsCore
  marker : Option Str
  names : List Str

namespace HostView

def start (core : ObsFsCore) : HostView := ⟨core, none, []⟩

def step (context : FileContext) (view : HostView) : HostStep → HostView
  | .page now clock fits =>
    match readDirectory view.core now clock context view.marker fits with
    | (.ok infos, core) =>
      let page := infos.map (·.fileName)
      ⟨core, nextMarker id view.marker page, view.names ++ page⟩
    | (_, core) => { view with core := core }
  | .other ev => { view with core := view.core.event ev }

/-- Each page finds the directory with the same objects. -/
def FindsListing (context : FileContext) (path : Str) (infos : List ObjectMeta)
    (view : HostView) : HostStep → Prop
  | .page .. => view.core.Lists context.inode path infos
  | .other _ => True

instance decidableFindsListing (context : FileContext) (path : Str) (infos : List ObjectMeta)
    (view : HostView) : (step : HostStep) → Decidable (view.FindsListing context path infos step)
  | .page .. => inferInstanceAs (Decidable (ObsFsCore.Lists ..))
  | .other _ => isTrue trivial

theorem step_page {context : FileContext} {path : Str} {infos : List ObjectMeta} {view : HostView}
    (h : view.core.Lists context.inode path infos) (now : Now) (clock : ℕ → Now) (fits : ℕ) :
    let page := (afterMarker id (entryNames infos) view.marker).take fits
    (view.step context (.page now clock fits)).names = view.names ++ page ∧
      (view.step context (.page now clock fits)).marker = nextMarker id view.marker page := by
  intro page
  obtain ⟨entries, hentries, hnames⟩ := doReaddir_names h now
  have hpage : ∀ core, (addDirInfos clock fits
      (afterMarker DirEntry.name entries view.marker) core).1.map (·.fileName) = page := by
    intro core
    rw [addDirInfos_names, map_afterMarker, hnames]
  simp only [step, readDirectory]
  generalize view.core.doReaddir now context.inode 0 = r at hentries
  obtain ⟨result, core⟩ := r
  cases hentries
  dsimp only
  rw [hpage core]
  exact ⟨rfl, rfl⟩

/-- The host gets what a scan of the names with its markers gets. -/
theorem run_names {context : FileContext} {path : Str} {infos : List ObjectMeta} (view : HostView)
    {steps : List HostStep}
    (h : Along (step context) (FindsListing context path infos) view steps) :
    (run (step context) view steps).names =
      view.names ++ Lib.scan id (entryNames infos) view.marker (steps.map (·.fits)) := by
  induction steps generalizing view with
  | nil => exact (List.append_nil _).symm
  | cons s steps ih =>
    rw [along_cons] at h
    rw [run_cons, ih _ h.2]
    cases s with
    | page now clock fits =>
      obtain ⟨hnames, hmarker⟩ := view.step_page h.1 now clock fits
      rw [hnames, hmarker, List.append_assoc]
      rfl
    | other ev =>
      have hnone :
          (afterMarker id (entryNames infos) view.marker).take (HostStep.other ev).fits = [] :=
        List.take_zero
      rw [List.map_cons, Lib.scan, hnone, nextMarker_nil, List.nil_append]
      rfl

end HostView

end WinFspFs

/-- While the directory keeps its objects, whatever else happens, a host that reads it in pages
of any sizes gets its names in order, each once, if no two entries have the same name. If two do,
a host whose buffer takes one entry a time gets names for ever: as many as it asks for. -/
theorem windows_listing_complete (context : FileContext) {path : Str} {infos : List ObjectMeta}
    (core : ObsFsCore) {steps : List WinFspFs.HostStep}
    (h : Along (WinFspFs.HostView.step context) (WinFspFs.HostView.FindsListing context path infos)
      (.start core) steps) :
    let names := (run (WinFspFs.HostView.step context) (.start core) steps).names
    let asked := (steps.map (·.fits)).sum
    (((infos.filter (·.shown)).map (·.name)).Nodup →
        names = (WinFspFs.entryNames infos).take asked) ∧
      (¬((infos.filter (·.shown)).map (·.name)).Nodup →
        (∀ step ∈ steps, step.fits ≤ 1) → names.length = asked) := by
  intro names asked
  have hscan : names = Lib.scan id (WinFspFs.entryNames infos) none (steps.map (·.fits)) :=
    WinFspFs.HostView.run_names (.start core) h
  rw [← WinFspFs.nodup_entryNames, hscan]
  constructor
  · intro hnodup
    exact scan_eq_take (by rwa [List.map_id]) none List.drop_zero.symm _
  · intro hrepeat hsingle
    refine length_scan_of_repeat (by rwa [List.map_id]) ?_
    intro n hn
    obtain ⟨step, hstep, rfl⟩ := List.mem_map.mp hn
    exact hsingle step hstep

/-- Two files in two pages with a request in between; a file and a directory of one name in
pages of one entry. -/
theorem repeated_name_read_for_ever :
    let page (fits : ℕ) : WinFspFs.HostStep := .page ⟨0, 0⟩ (fun _ => ⟨0, 0⟩) fits
    let read (keys : List String) (steps : List WinFspFs.HostStep) :=
      (run (WinFspFs.HostView.step ⟨rootInode, 1, true⟩)
        (.start (.emptyObjects (keys.map String.toList))) steps).names
    read ["a", "b"] [page 3, .other (.op (.getattr ⟨1, 1⟩ 2)), page 9] =
        ["."].map String.toList ++ ["..", "a", "b"].map String.toList ∧
      (read ["a", "a/"] (List.replicate 7 (page 1))).length = 7 := by
  intro page read
  have hsame := @windows_listing_complete ⟨rootInode, 1, true⟩ []
    [⟨['a'], 0, none, false⟩, ⟨['b'], 0, none, false⟩]
    (.emptyObjects (["a", "b"].map String.toList))
    [page 3, .other (.op (.getattr ⟨1, 1⟩ 2)), page 9] (by decide +kernel)
  have hsame' := @windows_listing_complete ⟨rootInode, 1, true⟩ []
    [⟨['a'], 0, none, false⟩, ⟨['a', '/'], 0, none, true⟩]
    (.emptyObjects (["a", "a/"].map String.toList)) (List.replicate 7 (page 1)) (by decide +kernel)
  exact ⟨hsame.1 (by decide), hsame'.2 (by decide) (by simp [page, WinFspFs.HostStep.fits])⟩

end ObsFuse

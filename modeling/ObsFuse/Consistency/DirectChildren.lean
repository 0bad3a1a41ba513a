import ObsFuse.Fs.Mount
import ObsFuse.Fs.ReaddirPath
import ObsFuse.Storage.Requests
import Mathlib.Data.List.Dedup

/-! # The children of a directory

A directory is listed by the prefix of its keys. The entries are named after the last
component of each listed path. Here is when these names are the first components of the keys
below the prefix. -/

namespace ObsFuse
open Lib

/-! ### The keys below a prefix -/

section
variable (objects : Bucket) (key : Str)

/-- The first path component of an object strictly below the prefix. -/
def IsChild (name : Str) : Prop :=
  ∃ rest, rest ≠ [] ∧ key ++ rest ∈ objects ∧ firstComponent rest = name

def IsObject (name : Str) : Prop := name ≠ [] ∧ '/' ∉ name ∧ key ++ name ∈ objects

def IsSubdirectory (name : Str) : Prop :=
  '/' ∉ name ∧ ∃ rest, key ++ (name ++ '/' :: rest) ∈ objects

/-- What the storage lists under a prefix: its marker, the objects directly below it, and
each subdirectory with a slash at its end. -/
def IsListed (path : Str) : Prop :=
  (path = key ∧ key ≠ [] ∧ key ∈ objects) ∨
    (∃ name, path = key ++ name ∧ IsObject objects key name) ∨
    ∃ name, path = key ++ (name ++ ['/']) ∧ IsSubdirectory objects key name

/-- The names that `do_readdir` leaves out. -/
def Hidden (name : Str) : Prop := name = [] ∨ name = ['.'] ∨ name = ['.', '.']

instance (name : Str) : Decidable (Hidden name) := inferInstanceAs (Decidable (_ ∨ _ ∨ _))

/-- A bucket whose listing under the prefix gives one name for each child: no child has a
hidden name or is both an object and a subdirectory, and there is no marker whose own name
would be shown. -/
structure PlainBelow : Prop where
  shown : ∀ name, IsChild objects key name → ¬Hidden name
  either : ∀ name, ¬(IsObject objects key name ∧ IsSubdirectory objects key name)
  marker : key ∈ objects → key = [] ∨ Hidden (fileName key)

end

section
variable {objects : Bucket} {key : Str}

theorem isChild_iff (name : Str) : IsChild objects key name ↔
    IsObject objects key name ∨ IsSubdirectory objects key name := by
  constructor
  · intro h
    obtain ⟨rest, hne, hmem, hname⟩ := h
    rcases noSlash_or_first rest with hno | ⟨tail, htail⟩
    · left
      rw [firstComponent_eq_self hno] at hname
      rw [← hname]
      exact ⟨hne, hno, hmem⟩
    · right
      rw [hname] at htail
      rw [htail] at hmem
      rw [← hname] at hmem ⊢
      exact ⟨firstComponent_noSlash rest, tail, hmem⟩
  · intro h
    rcases h with ⟨hne, hslash, hmem⟩ | ⟨hslash, rest, hmem⟩
    · exact ⟨name, hne, hmem, firstComponent_eq_self hslash⟩
    · exact ⟨name ++ '/' :: rest, by simp, hmem, firstComponent_append hslash rest⟩

end

/-! ### The names of listed paths -/

section
variable {objects : Bucket} {key : Str} (hkey : key = [] ∨ ∃ a, key = a ++ ['/'])

include hkey

theorem fileName_below {name : Str} (hne : name ≠ []) (hslash : '/' ∉ name) :
    fileName (key ++ name) = name := by
  rcases hkey with hroot | ⟨a, ha⟩
  · have hself : trimEnd name = name := trimEnd_eq_self hslash
    rw [hroot, List.nil_append, fileName_of_noSlash (by rw [hself]; exact hslash), hself]
  · rw [ha, List.append_assoc, List.singleton_append]
    have htrim := trimEnd_append_normal (normalizePath_eq_self hslash) hne a
    exact fileName_of_trimEnd htrim hslash

theorem fileName_subdirectory {name : Str} (hne : name ≠ []) (hslash : '/' ∉ name) :
    fileName (key ++ (name ++ ['/'])) = name := by
  rw [← List.append_assoc, fileName_concat_slash]
  exact fileName_below hkey hne hslash

theorem child_listed {name : Str} (h : IsChild objects key name) (hshown : ¬Hidden name) :
    ∃ rest, rest ≠ [] ∧ IsListed objects key (key ++ rest) ∧ fileName (key ++ rest) = name := by
  have hne : name ≠ [] := fun hnil => hshown (.inl hnil)
  rcases (isChild_iff name).mp h with hobject | hsub
  · exact ⟨name, hne, .inr (.inl ⟨name, rfl, hobject⟩), fileName_below hkey hne hobject.2.1⟩
  · exact ⟨name ++ ['/'], by simp, .inr (.inr ⟨name, rfl, hsub⟩),
      fileName_subdirectory hkey hne hsub.1⟩

/-- If each child is shown and no two listed paths are shown under one name, then the bucket is
plain below the prefix. -/
theorem PlainBelow.of_shown (hshown : ∀ name, IsChild objects key name → ¬Hidden name)
    (hinj : ∀ p q, IsListed objects key p → IsListed objects key q →
      fileName p = fileName q → ¬Hidden (fileName p) → p = q)
    (hmarker : IsListed objects key key → ¬Hidden (fileName key) →
      IsChild objects key (fileName key)) : PlainBelow objects key := by
  refine ⟨hshown, ?_, ?_⟩
  · intro name hboth
    obtain ⟨hobject, hsub⟩ := hboth
    have hname := fileName_below hkey hobject.1 hobject.2.1
    have hname' := fileName_subdirectory hkey hobject.1 hsub.1
    have hs : ¬Hidden (fileName (key ++ name)) := by
      rw [hname]
      exact hshown name ((isChild_iff name).mpr (.inl hobject))
    have heq := hinj (key ++ name) (key ++ (name ++ ['/'])) (.inr (.inl ⟨name, rfl, hobject⟩))
      (.inr (.inr ⟨name, rfl, hsub⟩)) (by rw [hname, hname']) hs
    have hlen := congrArg List.length heq
    simp at hlen
  · intro hmem
    by_cases hroot : key = []
    · exact .inl hroot
    · right
      by_contra hs
      have hlisted : IsListed objects key key := .inl ⟨rfl, hroot, hmem⟩
      obtain ⟨rest, hne, hl, hname⟩ := child_listed hkey (hmarker hlisted hs) hs
      have heq := hinj key (key ++ rest) hlisted hl hname.symm hs
      rw [List.self_eq_append_right] at heq
      exact hne heq

/-- In a bucket that is plain below the prefix, the name of a listed path that is shown says
which path it is, and that it is a child. -/
theorem PlainBelow.listed (h : PlainBelow objects key) {path : Str}
    (hp : IsListed objects key path) (hs : ¬Hidden (fileName path)) :
    (path = key ++ fileName path ∧ IsObject objects key (fileName path)) ∨
      (path = key ++ (fileName path ++ ['/']) ∧ IsSubdirectory objects key (fileName path)) := by
  rcases hp with ⟨hpath, hroot, hmem⟩ | ⟨name, hpath, hobject⟩ | ⟨name, hpath, hsub⟩
  · rw [hpath] at hs
    rcases h.marker hmem with hnil | hhidden
    · exact absurd hnil hroot
    · exact absurd hhidden hs
  · have hname : fileName path = name := by
      rw [hpath]
      exact fileName_below hkey hobject.1 hobject.2.1
    rw [hname]
    exact .inl ⟨hpath, hobject⟩
  · have hne : name ≠ [] :=
      fun hnil => h.shown name ((isChild_iff name).mpr (.inr hsub)) (.inl hnil)
    have hname : fileName path = name := by
      rw [hpath]
      exact fileName_subdirectory hkey hne hsub.1
    rw [hname]
    exact .inr ⟨hpath, hsub⟩

theorem PlainBelow.eq_of_fileName (h : PlainBelow objects key) {p q : Str}
    (hp : IsListed objects key p) (hq : IsListed objects key q)
    (hs : ¬Hidden (fileName p)) (heq : fileName p = fileName q) : p = q := by
  have hs' : ¬Hidden (fileName q) := by
    rw [← heq]
    exact hs
  rcases h.listed hkey hp hs with ⟨hpath, hobject⟩ | ⟨hpath, hsub⟩
  · rcases h.listed hkey hq hs' with ⟨hpath', -⟩ | ⟨-, hsub'⟩
    · rw [hpath, hpath', heq]
    · rw [heq] at hobject
      exact absurd ⟨hobject, hsub'⟩ (h.either _)
  · rcases h.listed hkey hq hs' with ⟨-, hobject'⟩ | ⟨hpath', -⟩
    · rw [heq] at hsub
      exact absurd ⟨hobject', hsub⟩ (h.either _)
    · rw [hpath, hpath', heq]

/-- The names shown of a listing are those of the children, each once, exactly when the
bucket is plain below the prefix. -/
theorem shown_names_iff {listing : List Str} (hnodup : listing.Nodup)
    (hmem : ∀ path, path ∈ listing ↔ IsListed objects key path) :
    (((listing.filter fun path => !decide (Hidden (fileName path))).map fileName).Nodup ∧
        ∀ name, name ∈ (listing.filter fun path => !decide (Hidden (fileName path))).map fileName ↔
          IsChild objects key name) ↔
      PlainBelow objects key := by
  have hnames : ∀ name,
      name ∈ (listing.filter fun path => !decide (Hidden (fileName path))).map fileName ↔
        ∃ path, IsListed objects key path ∧ ¬Hidden (fileName path) ∧ fileName path = name := by
    intro name
    simp only [List.mem_map, List.mem_filter, hmem, and_assoc, Bool.not_eq_true',
      decide_eq_false_iff_not]
  constructor
  · intro h
    obtain ⟨hdistinct, hchild⟩ := h
    apply PlainBelow.of_shown hkey
    · intro name hc
      obtain ⟨path, -, hs, hname⟩ := (hnames name).mp ((hchild name).mpr hc)
      rw [← hname]
      exact hs
    · -- two listed paths of one name would make it appear twice
      intro p q hp hq heq hs
      apply List.inj_on_of_nodup_map hdistinct _ _ heq
      · simp [List.mem_filter, (hmem p).mpr hp, hs]
      · simp [List.mem_filter, (hmem q).mpr hq, ← heq, hs]
    · intro hlisted hs
      exact (hchild _).mp ((hnames _).mpr ⟨key, hlisted, hs, rfl⟩)
  · intro h
    constructor
    · apply List.Nodup.map_on _ (hnodup.filter _)
      intro p hp q hq heq
      rw [List.mem_filter, hmem, Bool.not_eq_true', decide_eq_false_iff_not] at hp hq
      exact h.eq_of_fileName hkey hp.1 hq.1 hp.2 heq
    · intro name
      rw [hnames]
      constructor
      · intro hex
        obtain ⟨path, hp, hs, hname⟩ := hex
        rw [← hname, isChild_iff]
        exact (h.listed hkey hp hs).imp And.right And.right
      · intro hc
        have hs : ¬Hidden name := h.shown name hc
        obtain ⟨rest, -, hl, hname⟩ := child_listed hkey hc hs
        exact ⟨key ++ rest, hl, by rw [hname]; exact hs, hname⟩

end

/-! ### The answers of the storage -/

/-- The listing of a directory, each of whose paths the storage has a `stat` answer for. -/
structure Backend.ListsDirectory (b : Backend) (objects : Bucket) (key : Str)
    (listing : List Str) : Prop where
  answer : b.list objects key = .ok listing
  nodup : listing.Nodup
  mem : ∀ path, path ∈ listing ↔ IsListed objects key path
  stat : ∀ path ∈ listing, ∃ info, b.stat objects path = .ok info

namespace ObsClient

theorem listDir_ok {cl : ObsClient} (hr : cl.Reliable) {key : Str} {listing : List Str}
    (hkey : key = [] ∨ ∃ a, key = a ++ ['/'])
    (hlist : cl.backend.ListsDirectory cl.objects key listing) :
    ∃ infos, (cl.listDir key).1 = .ok infos ∧ infos.map (·.path) = listing := by
  have hdir : key = [] ∨ key.getLast? = some '/' := by
    rcases hkey with hroot | ⟨a, ha⟩
    · exact .inl hroot
    · right
      rw [ha, List.getLast?_concat]
  unfold listDir
  dsimp only
  rw [if_pos hdir]
  exact list_ok hr hlist.answer hlist.stat

end ObsClient

theorem shown_names (infos : List ObjectMeta) :
    (infos.filter (·.shown)).map (·.name) =
      ((infos.map (·.path)).filter fun path => !decide (Hidden (fileName path))).map fileName := by
  rw [List.filter_map, List.map_map]
  rfl

namespace ObsFsCore

theorem listingKey_shape (s : ObsFsCore) (path : Str) :
    s.listingKey path = [] ∨ ∃ a, s.listingKey path = a ++ ['/'] := by
  unfold listingKey
  split
  · exact .inl rfl
  · exact .inr ⟨_, rfl⟩

/-- Reading the directory from the start gives the dot entries, then one entry for each child
of its path, all under different names. -/
def ReadsChildren (s : ObsFsCore) (now : Now) (inode : ℕ) (path : Str) : Prop :=
  ∃ entries names, (s.doReaddir now inode 0).1 = .ok entries ∧
    entries.map (·.name) = ['.'] :: ['.', '.'] :: names ∧ (entries.map (·.name)).Nodup ∧
    ∀ name, name ∈ names ↔ IsChild s.obsClient.objects (s.listingKey path) name

end ObsFsCore

/-- A directory is read as its children exactly when the bucket is plain below its prefix. -/
theorem readdir_children_iff {s : ObsFsCore} {inode : ℕ} {path : Str} {listing : List Str}
    (hpath : s.inodeMgr.getPath inode = some path) (hr : s.obsClient.Reliable)
    (hlist : s.obsClient.backend.ListsDirectory s.obsClient.objects (s.listingKey path) listing)
    (now : Now) :
    s.ReadsChildren now inode path ↔ PlainBelow s.obsClient.objects (s.listingKey path) := by
  have hkey := s.listingKey_shape path
  obtain ⟨infos, hok, hpaths⟩ := ObsClient.listDir_ok hr hkey hlist
  obtain ⟨hentries, -, -, -⟩ := ObsFsCore.doReaddir_lists ⟨hpath, hok⟩ now 0
  have hzero : ((0 : ℤ) - 2).toNat = 0 := by omega
  rw [hzero, List.drop_zero] at hentries
  generalize (s.doReaddir now inode 0).2.childInode path = inodeOf at hentries
  have hdots : (s.dotEntries inode path 0).map (·.name) = [['.'], ['.', '.']] := rfl
  have hall : ((s.dotEntries inode path 0) ++
      numbered inodeOf (infos.filter (·.shown)) (max 3 (0 + 1))).map (·.name) =
        ['.'] :: ['.', '.'] ::
          (listing.filter fun p => !decide (Hidden (fileName p))).map fileName := by
    rw [List.map_append, names_numbered, hdots, shown_names, hpaths]
    rfl
  rw [← shown_names_iff hkey hlist.nodup hlist.mem]
  unfold ObsFsCore.ReadsChildren
  rw [hentries]
  have hshown : ∀ name ∈ (listing.filter fun p => !decide (Hidden (fileName p))).map fileName,
      ¬Hidden name := by
    intro name hn
    obtain ⟨p, hp, hname⟩ := List.mem_map.mp hn
    rw [List.mem_filter, Bool.not_eq_true', decide_eq_false_iff_not] at hp
    rw [← hname]
    exact hp.2
  generalize (listing.filter fun p => !decide (Hidden (fileName p))).map fileName = shownNames
    at hall hshown
  constructor
  · intro h
    obtain ⟨entries, names, heq, hnames, hnodup, hchild⟩ := h
    cases heq
    rw [hall] at hnames hnodup
    cases hnames
    exact ⟨(List.nodup_cons.mp (List.nodup_cons.mp hnodup).2).2, hchild⟩
  · intro h
    obtain ⟨hnodup, hchild⟩ := h
    refine ⟨_, shownNames, rfl, hall, ?_, hchild⟩
    rw [hall]
    refine List.nodup_cons.mpr ⟨?_, List.nodup_cons.mpr ⟨?_, hnodup⟩⟩
    · intro hin
      rcases List.mem_cons.mp hin with hdot | hdot
      · cases hdot
      · exact hshown _ hdot (.inr (.inl rfl))
    · intro hdot
      exact hshown _ hdot (.inr (.inr rfl))

/-- The path under which the object `k` appears in the listing of a prefix. -/
def listedAs (key k : Str) : Option Str :=
  if key.isPrefixOf k then
    let rest := k.drop key.length
    if rest = [] then if key = [] then none else some key
    else if '/' ∈ rest then some (key ++ (firstComponent rest ++ ['/']))
    else some k
  else none

/-- A storage library that lists a directory at a time and knows of each subdirectory. -/
def Backend.delimited : Backend where
  stat objects path :=
    match objects.lookup path with
    | some data => .ok ⟨data.length, none, path.getLast? = some '/'⟩
    | none =>
      if path.getLast? = some '/' ∧ objects.keys.any (path.isPrefixOf ·) then .ok ⟨0, none, true⟩
      else .error .notFound
  list objects path := .ok (objects.keys.filterMap (listedAs path)).dedup
  refusesRead := Backend.plain.refusesRead
  refusesCopy := Backend.plain.refusesCopy

theorem listedAs_iff {objects : Bucket} (key path : Str) :
    (∃ k ∈ objects.keys, listedAs key k = some path) ↔ IsListed objects key path := by
  have hbelow : ∀ rest, rest ≠ [] → listedAs key (key ++ rest) =
      if '/' ∈ rest then some (key ++ (firstComponent rest ++ ['/'])) else some (key ++ rest) := by
    intro rest hne
    unfold listedAs
    rw [if_pos (by simp), List.drop_left]
    dsimp only
    rw [if_neg hne]
  have hself : listedAs key key = if key = [] then none else some key := by
    unfold listedAs
    rw [if_pos (by simp), List.drop_length]
    rfl
  constructor
  · intro h
    obtain ⟨k, hk, heq⟩ := h
    by_cases hpre : key.isPrefixOf k
    · obtain ⟨rest, hrest⟩ := List.isPrefixOf_iff_prefix.mp hpre
      rw [← hrest] at hk heq
      by_cases hne : rest = []
      · rw [hne, List.append_nil] at hk heq
        rw [hself] at heq
        split at heq
        · cases heq
        · next hroot => exact .inl ⟨(Option.some.inj heq).symm, hroot, hk⟩
      · rw [hbelow rest hne] at heq
        rcases noSlash_or_first rest with hno | ⟨tail, htail⟩
        · rw [if_neg hno] at heq
          exact .inr (.inl ⟨rest, (Option.some.inj heq).symm, hne, hno, hk⟩)
        · rw [if_pos (by rw [htail]; simp)] at heq
          rw [htail] at hk
          exact .inr (.inr ⟨firstComponent rest, (Option.some.inj heq).symm,
            firstComponent_noSlash rest, tail, hk⟩)
    · unfold listedAs at heq
      rw [if_neg hpre] at heq
      cases heq
  · intro h
    rcases h with ⟨hpath, hroot, hmem⟩ | ⟨name, hpath, hne, hno, hmem⟩ |
      ⟨name, hpath, hno, rest, hmem⟩
    · refine ⟨key, hmem, ?_⟩
      rw [hself, if_neg hroot, hpath]
    · refine ⟨_, hmem, ?_⟩
      rw [hbelow name hne, if_neg hno, hpath]
    · refine ⟨_, hmem, ?_⟩
      rw [hbelow _ (by simp), if_pos (by simp), firstComponent_append hno, hpath]

theorem delimited_lists (objects : Bucket) (key : Str) :
    Backend.delimited.ListsDirectory objects key
      (objects.keys.filterMap (listedAs key)).dedup where
  answer := rfl
  nodup := List.nodup_dedup _
  mem path := by
    rw [List.mem_dedup, List.mem_filterMap]
    exact listedAs_iff key path
  stat path hpath := by
    rw [List.mem_dedup, List.mem_filterMap, listedAs_iff] at hpath
    simp only [Backend.delimited]
    cases hlookup : AList.lookup path objects with
    | some data => exact ⟨_, rfl⟩
    | none =>
      have hout : path ∉ objects := AList.lookup_eq_none.mp hlookup
      rcases hpath with ⟨heq, -, hmem⟩ | ⟨name, heq, -, -, hmem⟩ | ⟨name, heq, -, rest, hmem⟩
      · exact absurd (heq ▸ hmem) hout
      · exact absurd (heq ▸ hmem) hout
      · have hlast : path.getLast? = some '/' := by
          rw [heq, ← List.append_assoc, List.getLast?_concat]
        have hany : objects.keys.any (path.isPrefixOf ·) = true := by
          rw [List.any_eq_true]
          refine ⟨_, hmem, ?_⟩
          rw [List.isPrefixOf_iff_prefix, heq]
          exact ⟨rest, by simp⟩
        dsimp only
        rw [if_pos ⟨hlast, hany⟩]
        exact ⟨_, rfl⟩

/-- A bucket of a file and an object in a subdirectory, read from its root. -/
theorem root_reads_children :
    (ObsFsCore.new .basic Config.basic_valid
      (.still (.holding .delimited [['a'], ['d', '/', 'x']]))).ReadsChildren ⟨0, 0⟩ 1 [] := by
  have hkeys : ∀ k, k ∈ (ObsClient.holding .delimited [['a'], ['d', '/', 'x']]).objects →
      k = ['a'] ∨ k = ['d', '/', 'x'] := by
    intro k hk
    have hlist : k ∈ [['a'], ['d', '/', 'x']] := hk
    simpa using hlist
  refine (readdir_children_iff rfl (fun _ => rfl) (delimited_lists _ _) ⟨0, 0⟩).mpr ⟨?_, ?_, ?_⟩
  · intro name h
    obtain ⟨rest, -, hmem, hname⟩ := h
    rw [← hname]
    rcases hkeys _ hmem with hrest | hrest
    · rw [show rest = ['a'] from hrest]
      decide
    · rw [show rest = ['d', '/', 'x'] from hrest]
      decide
  · intro name h
    obtain ⟨⟨-, hno, hobject⟩, ⟨-, rest, hsub⟩⟩ := h
    rcases hkeys _ hobject with hname | hname
    · have hboth : ['a', '/'] ++ rest = ['a'] ∨ ['a', '/'] ++ rest = ['d', '/', 'x'] := by
        rw [show name = ['a'] from hname] at hsub
        exact hkeys _ hsub
      simp at hboth
    · rw [show name = ['d', '/', 'x'] from hname] at hno
      exact hno (by decide)
  · intro _
    exact .inl rfl

/-- A directory that was made with its marker lists the marker as an entry of its own. -/
theorem marker_listed_in_itself :
    let s := ((ObsFsCore.new .basic Config.basic_valid
      (.still (.holding .delimited [['d', '/'], ['d', '/', 'x']]))).doLookup ⟨0, 0⟩ 1
        ['d'.toUInt8]).2
    s.inodeMgr.getPath 2 = some ['d'] ∧
      (s.doReaddir ⟨0, 0⟩ 2 0).1 = .ok [.dot 2, .dotdot 1, ⟨3, ['d'], .directory, 3⟩,
        ⟨4, ['x'], .regularFile, 4⟩] ∧
      ¬s.ReadsChildren ⟨0, 0⟩ 2 ['d'] := by
  intro s
  refine ⟨by decide, by decide, ?_⟩
  intro h
  have hplain := (readdir_children_iff (by decide) (fun _ => rfl) (delimited_lists _ _) ⟨0, 0⟩).mp h
  exact absurd (hplain.marker (by decide)) (by decide)

end ObsFuse

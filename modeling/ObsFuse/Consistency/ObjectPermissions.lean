import ObsFuse.Fs.Permission

/-! # Permissions in an object's metadata

What is written is read back, and what is read is of the form that is written, but for a sign
and leading zeros. -/

namespace ObsFuse
open Lib

namespace PermissionManager

/-- Texts that are read as the value: its numerals, also after a plus sign. -/
def Writes (text : Str) (value : ℕ) : Prop :=
  Numeral 10 (2 ^ 32) text value ∨ ∃ digits, text = '+' :: digits ∧
    Numeral 10 (2 ^ 32) digits value

theorem parseU32_eq_some_iff (text : Str) (value : ℕ) :
    parseU32 text = some value ↔ Writes text value := by
  have hread := fromStrRadix_eq_ok_iff (by decide : 0 < 10) (by decide : 0 < 2 ^ 32) text value
  unfold parseU32 Writes
  rw [← hread]
  cases fromStrRadix 10 (2 ^ 32) text with
  | error e => simp [Except.toOption]
  | ok v => simp [Except.toOption]

theorem bind_parseU32_iff (info : Table Str Str) (key : Str) (value : ℕ) :
    (AList.lookup key info).bind parseU32 = some value ↔
      ∃ text ∈ AList.lookup key info, Writes text value := by
  rw [Option.bind_eq_some_iff]
  constructor
  · rintro ⟨text, htext, hvalue⟩
    exact ⟨text, htext, (parseU32_eq_some_iff _ _).mp hvalue⟩
  · rintro ⟨text, htext, hvalue⟩
    exact ⟨text, htext, (parseU32_eq_some_iff _ _).mpr hvalue⟩

/-- The three texts of an object's permissions. -/
structure Describes (info : Table Str Str) (uid gid mode : ℕ) : Prop where
  uid : ∃ text ∈ AList.lookup uidKey info, Writes text uid
  gid : ∃ text ∈ AList.lookup gidKey info, Writes text gid
  mode : ∃ text ∈ AList.lookup modeKey info, Writes text mode

theorem parseMetadata_eq_some_iff (m : PermissionManager) (info : Table Str Str)
    (uid gid mode : ℕ) :
    m.parseMetadata info = some (uid, gid, mode) ↔
      m.isPreservedMode = true ∧ Describes info uid gid mode := by
  unfold parseMetadata
  cases hmode : m.isPreservedMode with
  | false => simp
  | true =>
    constructor
    · intro h
      obtain ⟨u, hu, h⟩ := Option.bind_eq_some_iff.mp h
      obtain ⟨g, hg, h⟩ := Option.bind_eq_some_iff.mp h
      obtain ⟨o, ho, h⟩ := Option.bind_eq_some_iff.mp h
      cases h
      exact ⟨rfl, (bind_parseU32_iff ..).mp hu, (bind_parseU32_iff ..).mp hg,
        (bind_parseU32_iff ..).mp ho⟩
    · rintro ⟨-, h⟩
      have hu := (bind_parseU32_iff ..).mpr h.uid
      have hg := (bind_parseU32_iff ..).mpr h.gid
      have ho := (bind_parseU32_iff ..).mpr h.mode
      rw [hu, hg, ho]
      rfl

theorem buildMetadata_describes {m : PermissionManager} (hm : m.isPreservedMode = true)
    {uid gid mode : ℕ} (hu : uid < 2 ^ 32) (hg : gid < 2 ^ 32) (ho : mode < 2 ^ 32) :
    Describes (m.buildMetadata uid gid mode) uid gid mode := by
  have hkeys : uidKey ≠ gidKey ∧ uidKey ≠ modeKey ∧ gidKey ≠ modeKey := by decide
  obtain ⟨hug, huo, hgo⟩ := hkeys
  unfold buildMetadata
  rw [if_pos hm]
  refine ⟨⟨_, ?_, .inl (numeral_toDigits hu)⟩, ⟨_, ?_, .inl (numeral_toDigits hg)⟩,
    ⟨_, ?_, .inl (numeral_toDigits ho)⟩⟩
  · rw [AList.lookup_insert_ne huo, AList.lookup_insert_ne hug, AList.lookup_insert]
    rfl
  · rw [AList.lookup_insert_ne hgo, AList.lookup_insert]
    rfl
  · rw [AList.lookup_insert]
    rfl

end PermissionManager

/-- In the preserved mode the permissions that metadata were built from are read back, and what is
read of any metadata are exactly the values of its three numerals. In the fixed mode nothing is
read. -/
theorem permission_metadata_round_trips (m : PermissionManager) (info : Table Str Str)
    (uid gid mode : ℕ) (hu : uid < 2 ^ 32) (hg : gid < 2 ^ 32) (ho : mode < 2 ^ 32) :
    (m.parseMetadata (m.buildMetadata uid gid mode) =
        if m.config.mode = .preserved then some (uid, gid, mode) else none) ∧
      (m.parseMetadata info = some (uid, gid, mode) ↔
        m.config.mode = .preserved ∧ PermissionManager.Describes info uid gid mode) := by
  constructor
  · split
    · next hmode =>
      have hpreserved : m.isPreservedMode = true := decide_eq_true hmode
      exact (m.parseMetadata_eq_some_iff _ uid gid mode).mpr
        ⟨hpreserved, PermissionManager.buildMetadata_describes hpreserved hu hg ho⟩
    · next hmode =>
      have hfixed : m.isPreservedMode = false := decide_eq_false hmode
      unfold PermissionManager.parseMetadata
      rw [hfixed]
      rfl
  · rw [m.parseMetadata_eq_some_iff]
    unfold PermissionManager.isPreservedMode
    rw [decide_eq_true_iff]

/-- The permissions of a new file, and metadata that another tool wrote. -/
theorem file_permissions_read_back :
    let m : PermissionManager := ⟨.preserved, ⟨0, 0, 0o644, 0o755⟩⟩
    let info : Table Str Str :=
      AList.insert PermissionManager.uidKey ['+', '7'] (AList.insert PermissionManager.gidKey
        ['0', '7'] (AList.insert PermissionManager.modeKey ['9'] ∅))
    m.parseMetadata (m.buildMetadata 1000 1000 0o755) = some (1000, 1000, 0o755) ∧
      PermissionManager.Describes info 7 7 9 := by
  intro m info
  have hbuilt := permission_metadata_round_trips m info 1000 1000 0o755 (by decide) (by decide)
    (by decide)
  have hread := permission_metadata_round_trips m info 7 7 9 (by decide) (by decide) (by decide)
  exact ⟨hbuilt.1, (hread.2.mp (by decide)).2⟩

end ObsFuse

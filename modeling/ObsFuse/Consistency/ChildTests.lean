import ObsFuse.Consistency.PathSpellings
import ObsFuse.Fs.Dir

/-! # Children of a directory by their components

The tests take the directory off a key as text. What is left is not below the directory where
the text ends within a component, and is not found where the key spells the directory with
other slashes. -/

namespace ObsFuse

/-- The key is classified by its components: a direct child has one more than the directory,
and the name of a key further down is the first one more. -/
structure ClassifiedByComponents (key dir : Str) : Prop where
  child : isDirectChild key dir = true ↔ ∃ name, components key = components dir ++ [name]
  name : ∀ name, extractDirName key dir = some name ↔
    ∃ rest, components key = components dir ++ name :: rest

/-- The text of the directory ends with a component, or its rest starts with a slash. -/
def EndsComponent (dir rest : Str) : Prop :=
  dir = [] ∨ dir.getLast? = some '/' ∨ rest = [] ∨ rest.head? = some '/'

/-- Where the key starts with the text of the directory, that text ends with a component; and
where the components of the key go on from those of the directory, it starts with that text. -/
structure SpelledAlike (key dir : Str) : Prop where
  boundary : ∀ rest, key = dir ++ rest → EndsComponent dir rest
  spelling : ∀ name rest, components key = components dir ++ name :: rest → dir <+: key

/-! ### Components of a text -/

theorem components_nil : components [] = [] := by
  unfold components
  simp

theorem components_noSlash {s : Str} (h : '/' ∉ s) (hne : s ≠ []) : components s = [s] := by
  unfold components
  rw [List.splitOn_eq_singleton h]
  simp [hne]

theorem components_first {s : Str} (h : '/' ∉ s) (hne : s ≠ []) (rest : Str) :
    components (s ++ '/' :: rest) = s :: components rest := by
  rw [components_append_slash, components_noSlash h hne]
  rfl

theorem components_trimStart (s : Str) : components (trimStart s) = components s := by
  obtain ⟨n, hn⟩ := exists_trimStart s
  have hsame := components_slashes_append n (trimStart s)
  rw [← hn] at hsame
  exact hsame.symm

theorem components_trimEnd (s : Str) : components (trimEnd s) = components s := by
  obtain ⟨n, hn⟩ := exists_trimEnd s
  have hsame := components_append_slashes (trimEnd s) n
  rw [← hn] at hsame
  exact hsame.symm

theorem head?_trimStart (s : Str) : (trimStart s).head? ≠ some '/' := by
  intro h
  have hnot := List.head?_dropWhile_not (fun c : Char => decide (c = '/')) s
  unfold trimStart at h
  rw [h] at hnot
  exact absurd hnot (by decide)

/-- A text that does not start with a slash is empty, or its first component leads. -/
theorem components_of_head? {s : Str} (h : s.head? ≠ some '/') (hne : s ≠ []) :
    ∃ rest, components s = firstComponent s :: rest ∧ firstComponent s ≠ [] := by
  have hfirst : firstComponent s ≠ [] := by
    cases s with
    | nil => exact absurd rfl hne
    | cons c s =>
      have hc : c ≠ '/' := fun heq => h (by rw [heq]; rfl)
      unfold firstComponent
      rw [List.takeWhile_cons_of_pos (by simpa using hc)]
      exact List.cons_ne_nil _ _
  rcases noSlash_or_first s with hno | ⟨rest, hrest⟩
  · have hself := firstComponent_eq_self hno
    refine ⟨[], ?_, hfirst⟩
    rw [hself, components_noSlash hno hne]
  · refine ⟨components rest, ?_, hfirst⟩
    have hcomponents := components_first (firstComponent_noSlash s) hfirst rest
    rw [← hrest] at hcomponents
    exact hcomponents

theorem head?_splitOn (s : Str) : (s.splitOn '/').head? = some (firstComponent s) := by
  rcases noSlash_or_first s with hno | ⟨rest, hrest⟩
  · rw [List.splitOn_eq_singleton hno, firstComponent_eq_self hno]
    rfl
  · have hsplit : (firstComponent s ++ '/' :: rest).splitOn '/' =
        [firstComponent s] ++ rest.splitOn '/' := by
      rw [List.splitOn_append_cons_self, List.splitOn_eq_singleton (firstComponent_noSlash s)]
    rw [← hrest] at hsplit
    rw [hsplit]
    rfl

theorem components_eq_nil_iff {s : Str} : components s = [] ↔ trimStart s = [] := by
  rw [← components_trimStart]
  constructor
  · intro h
    by_contra hne
    obtain ⟨rest, hcomponents, -⟩ := components_of_head? (head?_trimStart s) hne
    rw [hcomponents] at h
    cases h
  · intro h
    rw [h, components_nil]

/-! ### What the tests find after the directory -/

theorem extractDirName_append (dir rest : Str) :
    extractDirName (dir ++ rest) dir = (components rest).head? := by
  unfold extractDirName
  rw [stripPrefix_append]
  dsimp only
  rw [head?_splitOn, ← components_trimStart]
  by_cases hnil : trimStart rest = []
  · rw [hnil, components_nil]
    rfl
  · obtain ⟨more, hcomponents, hfirst⟩ := components_of_head? (head?_trimStart rest) hnil
    rw [hcomponents]
    dsimp only
    rw [if_neg hfirst]
    rfl

theorem components_two {s : Str} (hhead : s.head? ≠ some '/') (hlast : s.getLast? ≠ some '/')
    (hslash : '/' ∈ s) : ∃ first second rest, components s = first :: second :: rest := by
  have hne : s ≠ [] := List.ne_nil_of_mem hslash
  obtain ⟨rest, hrest⟩ := (noSlash_or_first s).resolve_left fun hno => hno hslash
  obtain ⟨-, -, hfirst⟩ := components_of_head? hhead hne
  have hcomponents := components_first (firstComponent_noSlash s) hfirst rest
  rw [← hrest] at hcomponents
  have hmore : components rest ≠ [] := by
    intro hnil
    rw [components_eq_nil_iff] at hnil
    have hall : ∀ c ∈ '/' :: rest, c = '/' := by
      intro c hc
      rcases List.mem_cons.mp hc with rfl | hc
      · rfl
      · exact of_decide_eq_true (List.dropWhile_eq_nil_iff.mp hnil c hc)
    have hend : s.getLast? = ('/' :: rest).getLast? := by
      rw [hrest]
      exact List.getLast?_append_of_ne_nil _ (List.cons_ne_nil _ _)
    apply hlast
    rw [hend, List.getLast?_eq_some_getLast (List.cons_ne_nil _ _)]
    exact congrArg some (hall _ (List.getLast_mem _))
  obtain ⟨second, more, hsecond⟩ := List.exists_cons_of_ne_nil hmore
  exact ⟨_, second, more, by rw [hcomponents, hsecond]⟩

theorem getLast?_trimEnd (s : Str) : (trimEnd s).getLast? ≠ some '/' := by
  intro h
  have hne : trimEnd s ≠ [] := by
    intro hnil
    rw [hnil] at h
    cases h
  rw [List.getLast?_eq_some_getLast hne] at h
  have hnot := List.rdropWhile_last_not (fun c : Char => decide (c = '/')) s hne
  exact hnot (decide_eq_true (Option.some.inj h))

theorem isDirectChild_append (dir rest : Str) :
    isDirectChild (dir ++ rest) dir = true ↔ ∃ name, components rest = [name] := by
  unfold isDirectChild
  rw [stripPrefix_append]
  dsimp only
  rw [Bool.and_eq_true, decide_eq_true_eq, decide_eq_true_eq, List.count_eq_zero,
    ← components_trimStart]
  by_cases hnil : trimStart rest = []
  · rw [hnil, components_nil]
    simp
  · rw [and_iff_left hnil, ← components_trimEnd]
    have hhead : (trimEnd (trimStart rest)).head? ≠ some '/' := by
      intro h
      have hpre : trimEnd (trimStart rest) <+: trimStart rest := List.rdropWhile_prefix _ _
      obtain ⟨tail, htail⟩ := hpre
      apply head?_trimStart rest
      rw [← htail, List.head?_append, h]
      rfl
    constructor
    · intro hno
      refine ⟨_, components_noSlash hno ?_⟩
      intro hend
      have hcomponents := components_trimEnd (trimStart rest)
      rw [hend, components_nil, components_trimStart] at hcomponents
      exact hnil (components_eq_nil_iff.mp hcomponents.symm)
    · rintro ⟨name, hname⟩ hslash
      obtain ⟨first, second, more, htwo⟩ := components_two hhead (getLast?_trimEnd _) hslash
      rw [htwo] at hname
      cases hname

theorem extractDirName_eq_none {key dir : Str} (h : ¬dir <+: key) :
    extractDirName key dir = none := by
  unfold extractDirName
  rw [stripPrefix_eq_none h]

theorem isDirectChild_eq_false {key dir : Str} (h : ¬dir <+: key) :
    isDirectChild key dir = false := by
  unfold isDirectChild
  rw [stripPrefix_eq_none h]

/-! ### Where the directory ends -/

variable {key dir rest : Str}

theorem components_append (h : EndsComponent dir rest) :
    components (dir ++ rest) = components dir ++ components rest := by
  rcases h with rfl | hlast | rfl | hhead
  · rw [components_nil]
    rfl
  · obtain ⟨front, rfl⟩ := List.getLast?_eq_some_iff.mp hlast
    rw [List.append_assoc, List.singleton_append, components_append_slash,
      components_append_slash, components_nil, List.append_nil]
  · rw [components_nil, List.append_nil, List.append_nil]
  · obtain ⟨tail, rfl⟩ := List.head?_eq_some_iff.mp hhead
    have htail : components ('/' :: tail) = components tail := components_append_slash [] tail
    rw [components_append_slash, htail]

/-- Within a component, the text of the directory has another last component than the key. -/
theorem not_extends (h : ¬EndsComponent dir rest) (name : Str) (more : List Str) :
    components (dir ++ rest) ≠ components dir ++ name :: more := by
  unfold EndsComponent at h
  push Not at h
  obtain ⟨hdir, hlast, hrest, hhead⟩ := h
  obtain ⟨tail, htail, hfirst⟩ := components_of_head? hhead hrest
  -- the last component `x` of the directory goes on in the key
  have hlonger : ∀ x, '/' ∉ x → x ≠ [] → ∃ tail, components (x ++ rest) =
      (x ++ firstComponent rest) :: tail := by
    intro x hx hne
    have hnoslash : '/' ∉ x ++ firstComponent rest := by
      rw [List.mem_append, not_or]
      exact ⟨hx, firstComponent_noSlash rest⟩
    have hnonempty : x ++ firstComponent rest ≠ [] := List.append_ne_nil_of_left_ne_nil hne _
    rcases noSlash_or_first rest with hno | ⟨after, hafter⟩
    · refine ⟨[], ?_⟩
      rw [firstComponent_eq_self hno] at hnoslash hnonempty ⊢
      exact components_noSlash hnoslash hnonempty
    · refine ⟨components after, ?_⟩
      have hcomponents := components_first hnoslash hnonempty after
      rw [List.append_assoc, ← hafter] at hcomponents
      exact hcomponents
  intro heq
  rcases noSlash_or_last dir with hno | ⟨front, x, rfl, hx⟩
  · obtain ⟨tail, htail⟩ := hlonger dir hno hdir
    rw [htail, components_noSlash hno hdir] at heq
    have hsame := (List.cons.inj heq).1
    exact hfirst (List.append_right_eq_self.mp hsame)
  · have hne : x ≠ [] := by
      rintro rfl
      rw [List.getLast?_concat] at hlast
      exact hlast rfl
    obtain ⟨tail, htail⟩ := hlonger x hx hne
    rw [List.append_assoc, List.cons_append, components_append_slash, components_append_slash,
      htail, components_noSlash hx hne, List.append_assoc] at heq
    have hsame := (List.cons.inj (List.append_cancel_left heq)).1
    exact hfirst (List.append_right_eq_self.mp hsame)

theorem classified_of_boundary (h : EndsComponent dir rest) :
    ClassifiedByComponents (dir ++ rest) dir := by
  constructor
  · rw [isDirectChild_append, components_append h]
    constructor
    · rintro ⟨name, hname⟩
      exact ⟨name, by rw [hname]⟩
    · rintro ⟨name, hname⟩
      exact ⟨name, List.append_cancel_left hname⟩
  · intro name
    rw [extractDirName_append, components_append h, List.head?_eq_some_iff]
    constructor
    · rintro ⟨more, hmore⟩
      exact ⟨more, by rw [hmore]⟩
    · rintro ⟨more, hmore⟩
      exact ⟨more, List.append_cancel_left hmore⟩

theorem ClassifiedByComponents.boundary (h : ClassifiedByComponents (dir ++ rest) dir) :
    EndsComponent dir rest := by
  by_contra hwithin
  have hrest : rest ≠ [] := fun hnil => hwithin (.inr (.inr (.inl hnil)))
  have hhead : rest.head? ≠ some '/' := fun hslash => hwithin (.inr (.inr (.inr hslash)))
  obtain ⟨tail, htail, -⟩ := components_of_head? hhead hrest
  have hfound : extractDirName (dir ++ rest) dir = some (firstComponent rest) := by
    rw [extractDirName_append, htail]
    rfl
  obtain ⟨more, hmore⟩ := (h.name _).mp hfound
  exact not_extends hwithin _ more hmore

/-- The tests classify a key by its components exactly where it spells the directory alike. -/
theorem child_tests_iff (key dir : Str) :
    ClassifiedByComponents key dir ↔ SpelledAlike key dir := by
  constructor
  · intro h
    constructor
    · rintro rest rfl
      exact h.boundary
    · intro name rest hextends
      by_contra hpre
      have hfound := (h.name name).mpr ⟨rest, hextends⟩
      rw [extractDirName_eq_none hpre] at hfound
      cases hfound
  · intro h
    by_cases hpre : dir <+: key
    · obtain ⟨rest, rfl⟩ := hpre
      exact classified_of_boundary (h.boundary rest rfl)
    · constructor
      · rw [isDirectChild_eq_false hpre]
        constructor
        · intro hfalse
          cases hfalse
        · rintro ⟨name, hextends⟩
          exact absurd (h.spelling name [] hextends) hpre
      · intro name
        rw [extractDirName_eq_none hpre]
        constructor
        · intro hfalse
          cases hfalse
        · rintro ⟨rest, hextends⟩
          exact absurd (h.spelling name rest hextends) hpre

/-- A sibling that shares the text of the directory is taken for its child, under a name that
is no component of its key. -/
theorem sibling_taken_for_child :
    isDirectChild "prefixfile".toList "prefix".toList = true ∧
      extractDirName "prefixfile".toList "prefix".toList = some "file".toList ∧
      components "prefixfile".toList = ["prefixfile".toList] ∧
      ¬ClassifiedByComponents "prefixfile".toList "prefix".toList := by
  refine ⟨by decide, by decide, by decide, ?_⟩
  intro h
  have hchild : isDirectChild "prefixfile".toList "prefix".toList = true := by decide
  obtain ⟨name, hname⟩ := h.child.mp hchild
  have hlen := congrArg List.length hname
  rw [List.length_append, List.length_singleton] at hlen
  exact absurd hlen (by decide)

end ObsFuse

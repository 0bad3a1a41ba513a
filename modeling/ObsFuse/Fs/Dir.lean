import ObsFuse.Fs.Path

/-! # Keys below a directory (src/fs/dir.rs)

The two tests on the keys of a listing. Neither is called by the core. -/

namespace ObsFuse

/-- `str::strip_prefix`. -/
def stripPrefix (path dirPrefix : Str) : Option Str :=
  if dirPrefix.isPrefixOf path then some (path.drop dirPrefix.length) else none

def extractDirName (path dirPrefix : Str) : Option Str :=
  match stripPrefix path dirPrefix with
  | none => none
  | some rest =>
    let relative := trimStart rest
    match (relative.splitOn '/').head? with
    | none => none
    | some name => if name = [] then none else some name

def isDirectChild (path dirPrefix : Str) : Bool :=
  match stripPrefix path dirPrefix with
  | none => false
  | some rest =>
    let relative := trimStart rest
    let slashCount := (trimEnd relative).count '/'
    slashCount = 0 && relative ≠ []

theorem stripPrefix_append (dirPrefix rest : Str) :
    stripPrefix (dirPrefix ++ rest) dirPrefix = some rest := by
  unfold stripPrefix
  rw [if_pos (List.isPrefixOf_iff_prefix.mpr (List.prefix_append _ _)), List.drop_left]

theorem stripPrefix_eq_none {path dirPrefix : Str} (h : ¬dirPrefix <+: path) :
    stripPrefix path dirPrefix = none :=
  if_neg fun hpre => h (List.isPrefixOf_iff_prefix.mp hpre)

end ObsFuse

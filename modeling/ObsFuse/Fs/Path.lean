import ObsFuse.Basic
import Mathlib.Data.List.DropRight

/-! # Names and paths

File names arrive as byte strings (`OsStr`) and are decoded with `to_string_lossy`.
The path functions are those of `InodeManager` (src/fs/inode.rs) on Unix. -/

namespace ObsFuse

/-- A file name as the kernel sends it. -/
abbrev OsStr := List UInt8

/-- `U+FFFD`, which stands for undecodable bytes. -/
def replacementChar : Char := Char.ofNat 0xFFFD

def isContinuation (b : UInt8) : Bool := 0x80 ≤ b && b ≤ 0xBF

def secondOfThree (b0 b1 : UInt8) : Bool :=
  if b0 = 0xE0 then 0xA0 ≤ b1 && b1 ≤ 0xBF
  else if b0 = 0xED then 0x80 ≤ b1 && b1 ≤ 0x9F
  else isContinuation b1

def secondOfFour (b0 b1 : UInt8) : Bool :=
  if b0 = 0xF0 then 0x90 ≤ b1 && b1 ≤ 0xBF
  else if b0 = 0xF4 then 0x80 ≤ b1 && b1 ≤ 0x8F
  else isContinuation b1

def charOf (lead : ℕ) (rest : List UInt8) : Char :=
  Char.ofNat (rest.foldl (fun n b => n * 64 + b.toNat % 64) lead)

/-- `OsStr::to_string_lossy`: valid UTF-8 is decoded, each maximal ill-formed part
becomes one `U+FFFD`. -/
def toStringLossy : OsStr → Str
  | [] => []
  | b0 :: rest =>
    if b0 < 0x80 then Char.ofNat b0.toNat :: toStringLossy rest
    else if 0xC2 ≤ b0 ∧ b0 ≤ 0xDF then
      match rest with
      | b1 :: rest1 =>
        if isContinuation b1 then charOf (b0.toNat % 32) [b1] :: toStringLossy rest1
        else replacementChar :: toStringLossy (b1 :: rest1)
      | [] => [replacementChar]
    else if 0xE0 ≤ b0 ∧ b0 ≤ 0xEF then
      match rest with
      | b1 :: rest1 =>
        if secondOfThree b0 b1 then
          match rest1 with
          | b2 :: rest2 =>
            if isContinuation b2 then charOf (b0.toNat % 16) [b1, b2] :: toStringLossy rest2
            else replacementChar :: toStringLossy (b2 :: rest2)
          | [] => [replacementChar]
        else replacementChar :: toStringLossy (b1 :: rest1)
      | [] => [replacementChar]
    else if 0xF0 ≤ b0 ∧ b0 ≤ 0xF4 then
      match rest with
      | b1 :: rest1 =>
        if secondOfFour b0 b1 then
          match rest1 with
          | b2 :: rest2 =>
            if isContinuation b2 then
              match rest2 with
              | b3 :: rest3 =>
                if isContinuation b3 then
                  charOf (b0.toNat % 8) [b1, b2, b3] :: toStringLossy rest3
                else replacementChar :: toStringLossy (b3 :: rest3)
              | [] => [replacementChar]
            else replacementChar :: toStringLossy (b2 :: rest2)
          | [] => [replacementChar]
        else replacementChar :: toStringLossy (b1 :: rest1)
      | [] => [replacementChar]
    else replacementChar :: toStringLossy rest

def trimStart (s : Str) : Str := s.dropWhile (· = '/')

def trimEnd (s : Str) : Str := s.rdropWhile (· = '/')

def normalizePath (path : Str) : Str := trimEnd (trimStart path)

def joinPath (parent name : Str) : Str :=
  if parent = [] then name else trimEnd parent ++ '/' :: name

def parentPath (path : Str) : Option Str :=
  let normalized := normalizePath path
  if normalized = [] then none
  else
    let parts := normalized.splitOn '/'
    if parts.length ≤ 1 then some []
    else some (['/'].intercalate (parts.take (parts.length - 1)))

def fileName (path : Str) : Str :=
  let path := trimEnd path
  (path.splitOn '/').getLast?.getD path

/-- The path with exactly one slash at its end, as listing keys are built. -/
def dirKey (path : Str) : Str := trimEnd path ++ ['/']

end ObsFuse

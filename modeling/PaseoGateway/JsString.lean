/-
  PaseoGateway/JsString.lean
  ==========================
  **What the code asks of JavaScript strings.**

  A string is the list of its code points.  `trim` strips what ECMAScript calls
  white space and line terminators from both ends; `segments` splits at slashes;
  `length` counts UTF-16 code units.
-/
import Mathlib

namespace PaseoGateway.Js

/-- ECMAScript `WhiteSpace` and `LineTerminator` -/
def isSpace (c : Char) : Bool :=
  [0x9, 0xA, 0xB, 0xC, 0xD, 0x20, 0xA0, 0x1680, 0x2028, 0x2029, 0x202F, 0x205F, 0x3000,
    0xFEFF].contains c.toNat || (0x2000 ≤ c.toNat && c.toNat ≤ 0x200A)

def trim (s : String) : String :=
  String.ofList ((s.toList.dropWhile isSpace).rdropWhile isSpace)

/-- `s.split("/")` -/
def segments (s : String) : List String := (s.toList.splitOn '/').map String.ofList

def length (s : String) : Nat := (s.toList.map fun c => if c.val < 0x10000 then 1 else 2).sum

theorem length_le (s : String) : length s ≤ 2 * s.toList.length := by
  rw [length]
  induction s.toList with
  | nil => rfl
  | cons c rest ih =>
    rw [List.map_cons, List.sum_cons, List.length_cons]
    split
    · omega
    · omega

private theorem dropWhile_rdropWhile {α : Type} (p : α → Bool) (l : List α) :
    ((l.dropWhile p).rdropWhile p).dropWhile p = (l.dropWhile p).rdropWhile p := by
  generalize hr : (l.dropWhile p).rdropWhile p = r
  cases r with
  | nil => rfl
  | cons a rest =>
    -- what is left begins with the first element that was not dropped
    obtain ⟨tail, htail⟩ := List.rdropWhile_prefix p (l := l.dropWhile p)
    have hhead : l.dropWhile p = a :: (rest ++ tail) := by
      rw [← htail, hr]
      rfl
    have hkeep : p a = false := by
      have hne : l.dropWhile p ≠ [] := by rw [hhead]; simp
      have hnot := List.head_dropWhile_not p hne
      simpa [hhead] using hnot
    simp [hkeep]

@[simp] theorem trim_trim (s : String) : trim (trim s) = trim s := by
  simp only [trim, String.toList_ofList, dropWhile_rdropWhile, List.rdropWhile_idempotent]

end PaseoGateway.Js

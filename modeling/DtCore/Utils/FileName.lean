import Mathlib.Tactic
import Mathlib.Data.List.TakeWhile

/-!
# File names

The parts of `dtFileHelper` that build the names of rotated files.  Names are
`std::string`s, which may hold null characters; the file system sees them up to
the first one.

Main results:

- Theorem `splitByExtension_append`: the two parts make up the name.
- Theorem `cStr_annotateFilenameIndex_inj`: different indices give different files.
-/

namespace DtCore
namespace Utils

/-- A `std::string`. -/
abbrev Name := List Char

/-- The null character. -/
def nul : Char := Char.ofNat 0

/-- `c_str` as a C function reads it. -/
def cStr (name : Name) : Name :=
  name.takeWhile (fun c => c ≠ nul)

/-- `std::string::rfind` of a character. -/
def rfind (c : Char) (name : Name) : Option Nat :=
  (name.reverse.findIdx? (fun d => d = c)).map (fun k => name.length - 1 - k)

/-- `split_by_extension`. -/
def splitByExtension (fname : Name) : Name × Name :=
  match rfind '.' fname with
  | none => (fname, [])
  | some extIndex =>
      if extIndex = 0 ∨ extIndex = fname.length - 1 then (fname, [])
      else
        match rfind '/' fname with
        | none => (fname.take extIndex, fname.drop extIndex)
        | some folderIndex =>
            if folderIndex ≥ extIndex - 1 then (fname, [])
            else (fname.take extIndex, fname.drop extIndex)

/-- The `int` that `printf` reads for `%d` when it is passed a `std::size_t`. -/
def intArgument (index : Nat) : Int :=
  if index % 2 ^ 32 < 2 ^ 31 then (index % 2 ^ 32 : Nat)
  else (index % 2 ^ 32 : Nat) - (2 ^ 32 : Int)

/-- `%d`. -/
def formatInt : Int → Name
  | .ofNat n => Nat.toDigits 10 n
  | .negSucc n => '-' :: Nat.toDigits 10 (n + 1)

/-- `annotate_filename_index`. -/
def annotateFilenameIndex (fileBasename : Name) (index : Nat) : Name :=
  if index = 0 then fileBasename
  else
    let parts := splitByExtension fileBasename
    cStr parts.1 ++ '.' :: (formatInt (intArgument index) ++ cStr parts.2)

/-! ## Names and parts -/

/-- The two parts make up the name. -/
theorem splitByExtension_append (fname : Name) :
    (splitByExtension fname).1 ++ (splitByExtension fname).2 = fname := by
  unfold splitByExtension
  split
  · exact List.append_nil _
  · split
    · exact List.append_nil _
    · split
      · exact List.take_append_drop _ _
      · split
        · exact List.append_nil _
        · exact List.take_append_drop _ _

theorem length_cStr_append_le (a b : Name) :
    (cStr (a ++ b)).length ≤ (cStr a).length + (cStr b).length := by
  unfold cStr
  rw [List.takeWhile_append]
  split
  · rename_i hall
    rw [List.length_append, hall]
  · exact Nat.le_add_right _ _

theorem cStr_of_forall_ne {name : Name} (h : ∀ c ∈ name, c ≠ nul) : cStr name = name := by
  apply List.takeWhile_eq_self_iff.mpr
  intro c hc
  simpa using h c hc

theorem ne_null_of_mem_cStr {name : Name} {c : Char} (h : c ∈ cStr name) : c ≠ nul := by
  simpa using List.mem_takeWhile_imp h

/-! ## Indices -/

theorem intArgument_inj {i j : Nat} (hi : i < 2 ^ 32) (hj : j < 2 ^ 32)
    (h : intArgument i = intArgument j) : i = j := by
  unfold intArgument at h
  rw [Nat.mod_eq_of_lt hi, Nat.mod_eq_of_lt hj] at h
  split at h <;> split at h <;> omega

theorem toDigits_inj {m n : Nat} (h : Nat.toDigits 10 m = Nat.toDigits 10 n) : m = n := by
  have hm := Nat.ofDigitChars_ten_toDigits (n := m)
  rw [h, Nat.ofDigitChars_ten_toDigits] at hm
  exact hm.symm

theorem isDigit_of_mem_toDigits {n : Nat} {c : Char} (h : c ∈ Nat.toDigits 10 n) :
    c.isDigit = true :=
  Nat.isDigit_of_mem_toDigits (by decide) (by decide) h

theorem formatInt_inj {a b : Int} (h : formatInt a = formatInt b) : a = b := by
  have hminus : ∀ m n : Nat, '-' :: Nat.toDigits 10 m ≠ Nat.toDigits 10 n := by
    intro m n heq
    have hdigit : Char.isDigit '-' = true := by
      apply isDigit_of_mem_toDigits (n := n)
      rw [← heq]
      exact List.mem_cons_self
    exact absurd hdigit (by decide)
  cases a with
  | ofNat m =>
      cases b with
      | ofNat n => exact congrArg Int.ofNat (toDigits_inj h)
      | negSucc n => exact absurd h.symm (hminus _ _)
  | negSucc m =>
      cases b with
      | ofNat n => exact absurd h (hminus _ _)
      | negSucc n =>
          have hdigits := toDigits_inj (List.cons.inj h).2
          exact congrArg Int.negSucc (Nat.succ.inj hdigits)

theorem ne_null_of_mem_formatInt {a : Int} {c : Char} (h : c ∈ formatInt a) : c ≠ nul := by
  have hdigit : ∀ n : Nat, c ∈ Nat.toDigits 10 n → c ≠ nul := by
    intro n hmem heq
    have hd := isDigit_of_mem_toDigits hmem
    rw [heq] at hd
    exact absurd hd (by decide)
  cases a with
  | ofNat n => exact hdigit _ h
  | negSucc n =>
      rcases List.mem_cons.mp h with rfl | hmem
      · decide
      · exact hdigit _ hmem

/-- An annotated name has no null character. -/
theorem cStr_annotateFilenameIndex {fileBasename : Name} {index : Nat} (h : index ≠ 0) :
    cStr (annotateFilenameIndex fileBasename index) =
      annotateFilenameIndex fileBasename index := by
  apply cStr_of_forall_ne
  intro c hc
  rw [annotateFilenameIndex, if_neg h] at hc
  simp only [List.mem_append, List.mem_cons] at hc
  rcases hc with hc | rfl | hc | hc
  · exact ne_null_of_mem_cStr hc
  · decide
  · exact ne_null_of_mem_formatInt hc
  · exact ne_null_of_mem_cStr hc

/-- An annotated name is longer than the name it comes from. -/
theorem cStr_annotateFilenameIndex_ne_base {fileBasename : Name} {index : Nat}
    (h : index ≠ 0) : cStr (annotateFilenameIndex fileBasename index) ≠ cStr fileBasename := by
  intro heq
  have hlen := congrArg List.length heq
  have hparts := length_cStr_append_le (splitByExtension fileBasename).1
    (splitByExtension fileBasename).2
  rw [splitByExtension_append] at hparts
  rw [cStr_annotateFilenameIndex h, annotateFilenameIndex, if_neg h, List.length_append,
    List.length_cons, List.length_append] at hlen
  omega

/-- Different indices of 32 bits give different files. -/
theorem cStr_annotateFilenameIndex_inj {fileBasename : Name} {i j : Nat} (hi : i < 2 ^ 32)
    (hj : j < 2 ^ 32)
    (h : cStr (annotateFilenameIndex fileBasename i) =
      cStr (annotateFilenameIndex fileBasename j)) : i = j := by
  by_cases hi0 : i = 0
  · by_cases hj0 : j = 0
    · rw [hi0, hj0]
    · subst hi0
      exact absurd h.symm (cStr_annotateFilenameIndex_ne_base hj0)
  · by_cases hj0 : j = 0
    · subst hj0
      exact absurd h (cStr_annotateFilenameIndex_ne_base hi0)
    · rw [cStr_annotateFilenameIndex hi0, cStr_annotateFilenameIndex hj0, annotateFilenameIndex,
        annotateFilenameIndex, if_neg hi0, if_neg hj0] at h
      have hrest := List.append_cancel_left h
      have hdigits := List.append_cancel_right (List.cons.inj hrest).2
      exact intArgument_inj hi hj (formatInt_inj hdigits)

end Utils
end DtCore

import DtCore.Utils.FileName

/-!
# Joining and splitting paths

`split_by_directory` and `join_path` of `dtFileHelper`, as they are compiled for POSIX.

Main results:

- Theorem `splitByDirectory_append`: a name is split behind its last slash.
- Theorem `join_split_inverse`: the two functions undo each other, but for directories
  whose name ends in a backslash.
-/

namespace DtCore
namespace Utils

/-- `split_by_directory`. -/
def splitByDirectory (fname : Name) : Name × Name :=
  match rfind '/' fname with
  | none => ([], fname)
  | some dirIndex =>
      if dirIndex = fname.length - 1 then (fname, [])
      else (fname.take (dirIndex + 1), fname.drop (dirIndex + 1))

/-- `join_path`. -/
def joinPath (pathname filename : Name) : Name :=
  if pathname = [] then filename
  else if filename = [] then pathname
  else if pathname.getLast? = some '/' ∨ pathname.getLast? = some '\\' then pathname ++ filename
  else pathname ++ '/' :: filename

/-- A directory with one slash appended if it does not end in one. -/
def withSlash (pathname : Name) : Name :=
  if pathname.getLast? = some '/' then pathname else pathname ++ ['/']

/-! ## Splitting -/

theorem rfind_of_notMem {c : Char} {name : Name} (h : c ∉ name) : rfind c name = none := by
  unfold rfind
  rw [Option.map_eq_none_iff, List.findIdx?_eq_none_iff]
  intro d hd
  rw [decide_eq_false_iff_not]
  rintro rfl
  exact h (List.mem_reverse.mp hd)

/-- `rfind` finds the last one. -/
theorem rfind_append {c : Char} (front : Name) {rest : Name} (h : c ∉ rest) :
    rfind c (front ++ c :: rest) = some front.length := by
  have hrev : (front ++ c :: rest).reverse = rest.reverse ++ c :: front.reverse := by simp
  have hnone : rest.reverse.findIdx? (fun d => decide (d = c)) = none := by
    rw [List.findIdx?_eq_none_iff]
    intro d hd
    rw [decide_eq_false_iff_not]
    rintro rfl
    exact h (List.mem_reverse.mp hd)
  have hfind : (front ++ c :: rest).reverse.findIdx? (fun d => decide (d = c)) =
      some rest.length := by
    rw [hrev, List.findIdx?_append, hnone, List.findIdx?_cons]
    simp
  unfold rfind
  rw [hfind, Option.map_some, List.length_append, List.length_cons]
  congr 1
  omega

theorem splitByDirectory_of_notMem {fname : Name} (h : '/' ∉ fname) :
    splitByDirectory fname = ([], fname) := by
  unfold splitByDirectory
  rw [rfind_of_notMem h]

/-- A name is split behind its last slash. -/
theorem splitByDirectory_append (front : Name) {rest : Name} (h : '/' ∉ rest) :
    splitByDirectory (front ++ '/' :: rest) = (front ++ ['/'], rest) := by
  have hlen : (front ++ '/' :: rest).length = front.length + 1 + rest.length := by
    rw [List.length_append, List.length_cons]
    omega
  have hsplit : front ++ '/' :: rest = (front ++ ['/']) ++ rest := by simp
  unfold splitByDirectory
  rw [rfind_append front h]
  dsimp only
  rw [hlen]
  cases rest with
  | nil => rw [if_pos (by rw [List.length_nil]; omega)]
  | cons c rest =>
      have hfront : (front ++ ['/']).length = front.length + 1 := by simp
      rw [if_neg (by rw [List.length_cons]; omega), hsplit, ← hfront, List.take_left,
        List.drop_left]

/-- A name without a character, or one that has a last one. -/
theorem exists_last (c : Char) (fname : Name) :
    c ∉ fname ∨ ∃ front rest, c ∉ rest ∧ fname = front ++ c :: rest := by
  by_cases h : c ∈ fname
  · right
    rcases List.eq_append_cons_of_mem (List.mem_reverse.mpr h) with ⟨rest, front, hfname, hrest⟩
    refine ⟨front.reverse, rest.reverse, fun hmem => hrest (List.mem_reverse.mp hmem), ?_⟩
    have hrev := congrArg List.reverse hfname
    simpa using hrev
  · exact Or.inl h

/-! ## Joining -/

theorem joinPath_nil_left (filename : Name) : joinPath [] filename = filename := rfl

/-- A directory that ends in a slash. -/
theorem joinPath_slash (front filename : Name) :
    joinPath (front ++ ['/']) filename = front ++ '/' :: filename := by
  unfold joinPath
  rw [if_neg (by simp)]
  by_cases h : filename = []
  · rw [if_pos h, h]
  · rw [if_neg h, if_pos (Or.inl List.getLast?_concat), List.append_assoc]
    rfl

/-- Joining the two parts of a name. -/
theorem joinPath_splitByDirectory (fname : Name) :
    joinPath (splitByDirectory fname).1 (splitByDirectory fname).2 = fname := by
  rcases exists_last '/' fname with h | ⟨front, rest, hrest, rfl⟩
  · rw [splitByDirectory_of_notMem h, joinPath_nil_left]
  · rw [splitByDirectory_append front hrest, joinPath_slash]

/-- A directory is put in front of a file with one slash, unless it ends in a backslash. -/
theorem joinPath_eq_withSlash {p f : Name} (hp : p ≠ []) (hf : f ≠ [])
    (hlast : p.getLast? ≠ some '\\') : joinPath p f = withSlash p ++ f := by
  unfold joinPath withSlash
  rw [if_neg hp, if_neg hf]
  by_cases hslash : p.getLast? = some '/'
  · rw [if_pos (Or.inl hslash), if_pos hslash]
  · rw [if_neg (not_or.mpr ⟨hslash, hlast⟩), if_neg hslash, List.append_assoc]
    rfl

theorem exists_withSlash (p : Name) : ∃ front, withSlash p = front ++ ['/'] := by
  unfold withSlash
  by_cases hslash : p.getLast? = some '/'
  · rw [if_pos hslash]
    rcases List.getLast?_eq_some_iff.mp hslash with ⟨front, hfront⟩
    exact ⟨front, hfront⟩
  · rw [if_neg hslash]
    exact ⟨p, rfl⟩

/-- Splitting a joined name, but for a directory whose name ends in a backslash. -/
theorem splitByDirectory_joinPath_iff {p f : Name} (hp : p ≠ []) (hf : f ≠ []) (hfile : '/' ∉ f) :
    splitByDirectory (joinPath p f) = (withSlash p, f) ↔ p.getLast? ≠ some '\\' := by
  constructor
  · intro hsplit hlast
    -- the name is joined without a slash, and its parts would be longer
    have hjoin : joinPath p f = p ++ f := by
      unfold joinPath
      rw [if_neg hp, if_neg hf, if_pos (Or.inr hlast)]
    have hback := joinPath_splitByDirectory (joinPath p f)
    have hslash : p.getLast? ≠ some '/' := by
      rw [hlast]
      decide
    rcases exists_withSlash p with ⟨front, hfront⟩
    have hlong : (withSlash p).length = p.length + 1 := by
      unfold withSlash
      rw [if_neg hslash, List.length_append]
      rfl
    rw [hsplit, hfront] at hback
    dsimp only at hback
    rw [joinPath_slash, hjoin] at hback
    have hlen := congrArg List.length hback
    rw [hfront] at hlong
    simp only [List.length_append, List.length_cons, List.length_nil] at hlong hlen
    omega
  · intro hlast
    rcases exists_withSlash p with ⟨front, hfront⟩
    have hjoin : joinPath p f = front ++ '/' :: f := by
      rw [joinPath_eq_withSlash hp hf hlast, hfront, List.append_assoc]
      rfl
    rw [hjoin, splitByDirectory_append front hfile, hfront]

/-- Joining undoes splitting, and splitting undoes joining exactly when the directory does
not end in a backslash, which `join_path` takes for a separator. -/
theorem join_split_inverse :
    (∀ x, joinPath (splitByDirectory x).1 (splitByDirectory x).2 = x) ∧
      ∀ p f : Name, p ≠ [] → f ≠ [] → '/' ∉ f →
        (splitByDirectory (joinPath p f) = (withSlash p, f) ↔ p.getLast? ≠ some '\\') :=
  ⟨joinPath_splitByDirectory, fun _ _ hp hf hfile => splitByDirectory_joinPath_iff hp hf hfile⟩

theorem join_split_inverse_log :
    joinPath (splitByDirectory ['l', '/', 'a']).1 (splitByDirectory ['l', '/', 'a']).2 =
        ['l', '/', 'a'] ∧
      splitByDirectory (joinPath ['l'] ['a']) = (withSlash ['l'], ['a']) :=
  ⟨join_split_inverse.1 ['l', '/', 'a'],
    (join_split_inverse.2 ['l'] ['a'] (by decide) (by decide) (by decide)).mpr (by decide)⟩

/-- A directory that ends in a backslash is not found again. -/
theorem backslash_not_split :
    joinPath ['d', '\\'] ['f'] = ['d', '\\', 'f'] ∧
      splitByDirectory (joinPath ['d', '\\'] ['f']) ≠ (withSlash ['d', '\\'], ['f']) := by
  decide

end Utils
end DtCore

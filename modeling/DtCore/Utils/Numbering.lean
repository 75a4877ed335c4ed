import Mathlib.Data.List.DropRight
import DtCore.Utils.Paths

/-!
# Extensions and numbered names

What `split_by_extension` takes for an extension, and the names that
`annotate_filename_index` puts an index in.  `string_format` throws an exception, or
overflows an `int`, when a text is longer than an `int` can count with its terminator.

Main definitions:

- `IsLast`: the last position of a character.
- `filePart`: the part of a name behind its last slash.
- `tryAnnotateFilenameIndex`: `annotate_filename_index`, which may throw.

Main results:

- Theorem `rfind_eq_some_iff`: `rfind` finds the last position.
- Theorem `extension_ne_nil_iff`: which names have an extension.
- Theorem `parts_kept_iff`: when a numbered name keeps the two parts of the name.
- Theorem `split_and_numbered`: the two functions together.
-/

namespace DtCore
namespace Utils

/-! ## Last positions -/

/-- The last position of a character. -/
structure IsLast (c : Char) (name : Name) (k : Nat) : Prop where
  here : name[k]? = some c
  later : ∀ m, k < m → name[m]? ≠ some c

variable {c : Char} {name : Name} {k : Nat}

theorem isLast_append (front : Name) {rest : Name} (h : c ∉ rest) :
    IsLast c (front ++ c :: rest) front.length where
  here := by rw [List.getElem?_append_right (Nat.le_refl _), Nat.sub_self, List.getElem?_cons_zero]
  later := by
    intro m hm hc
    rw [List.getElem?_append_right (Nat.le_of_lt hm)] at hc
    rcases Nat.exists_eq_succ_of_ne_zero (Nat.sub_ne_zero_of_lt hm) with ⟨n, hn⟩
    rw [hn, List.getElem?_cons_succ] at hc
    exact h (List.mem_of_getElem? hc)

theorem IsLast.mem (h : IsLast c name k) : c ∈ name :=
  List.mem_of_getElem? h.here

theorem IsLast.lt (h : IsLast c name k) : k < name.length :=
  (List.getElem?_eq_some_iff.mp h.here).choose

/-- There is one last position. -/
theorem IsLast.eq {k' : Nat} (h : IsLast c name k) (h' : IsLast c name k') : k = k' := by
  rcases Nat.lt_trichotomy k k' with hlt | heq | hlt
  · exact absurd h'.here (h.later k' hlt)
  · exact heq
  · exact absurd h.here (h'.later k hlt)

/-- `rfind` finds the last position. -/
theorem rfind_eq_some_iff : rfind c name = some k ↔ IsLast c name k := by
  rcases exists_last c name with h | ⟨front, rest, hrest, rfl⟩
  · rw [rfind_of_notMem h]
    constructor
    · intro hk
      contradiction
    · intro hk
      exact absurd hk.mem h
  · rw [rfind_append front hrest, Option.some.injEq]
    have hlast := isLast_append front hrest
    constructor
    · rintro rfl
      exact hlast
    · exact hlast.eq

/-- The characters from some position on hold the last one exactly when it is not in front
of them. -/
theorem IsLast.mem_drop_iff (h : IsLast c name k) (start : Nat) :
    c ∈ name.drop start ↔ start ≤ k := by
  constructor
  · intro hmem
    rcases List.mem_iff_getElem?.mp hmem with ⟨m, hm⟩
    rw [List.getElem?_drop] at hm
    by_contra hlt
    exact h.later (start + m) (by omega) hm
  · intro hle
    apply List.mem_of_getElem? (i := k - start)
    rw [List.getElem?_drop, Nat.add_sub_cancel' hle]
    exact h.here

/-! ## The file part -/

/-- The part of a name behind its last slash. -/
def filePart (name : Name) : Name :=
  name.rtakeWhile (fun c => c ≠ '/')

/-- The position where this part begins. -/
def fileStart (name : Name) : Nat :=
  name.length - (filePart name).length

theorem filePart_of_notMem (h : '/' ∉ name) : filePart name = name := by
  unfold filePart
  rw [List.rtakeWhile_eq_self_iff]
  intro c hc
  rw [decide_eq_true_eq]
  rintro rfl
  exact h hc

theorem filePart_append (front : Name) {rest : Name} (h : '/' ∉ rest) :
    filePart (front ++ '/' :: rest) = rest := by
  have hstop : (front ++ '/' :: rest).reverse = rest.reverse ++ '/' :: front.reverse := by simp
  have hrest : ∀ c ∈ rest.reverse, decide (c ≠ '/') = true := by
    intro c hc
    rw [decide_eq_true_eq]
    rintro rfl
    exact h (List.mem_reverse.mp hc)
  unfold filePart List.rtakeWhile
  rw [hstop, List.takeWhile_append_of_pos hrest, List.takeWhile_cons_of_neg (by decide),
    List.append_nil, List.reverse_reverse]

/-- `split_by_directory` returns it, too. -/
theorem filePart_eq (name : Name) : filePart name = (splitByDirectory name).2 := by
  rcases exists_last '/' name with h | ⟨front, rest, hrest, rfl⟩
  · rw [filePart_of_notMem h, splitByDirectory_of_notMem h]
  · rw [filePart_append front hrest, splitByDirectory_append front hrest]

theorem drop_fileStart (name : Name) : name.drop (fileStart name) = filePart name := by
  have hsuffix : filePart name <:+ name := List.rtakeWhile_suffix _ _
  exact (List.suffix_iff_eq_drop.mp hsuffix).symm

theorem fileStart_of_notMem (h : '/' ∉ name) : fileStart name = 0 := by
  unfold fileStart
  rw [filePart_of_notMem h, Nat.sub_self]

/-- The file part begins behind the last slash. -/
theorem fileStart_of_isLast (h : IsLast '/' name k) : fileStart name = k + 1 := by
  rcases exists_last '/' name with hnone | ⟨front, rest, hrest, rfl⟩
  · exact absurd h.mem hnone
  · unfold fileStart
    rw [h.eq (isLast_append front hrest), filePart_append front hrest, List.length_append,
      List.length_cons, ← Nat.add_assoc, Nat.add_right_comm, Nat.add_sub_cancel]

/-! ## Extensions -/

theorem splitByExtension_of_notMem (h : '.' ∉ name) : splitByExtension name = (name, []) := by
  unfold splitByExtension
  rw [rfind_of_notMem h]

/-- A name is split at its last dot, if this is behind the first character of the file part
and is not the last character. -/
theorem splitByExtension_of_isLast (h : IsLast '.' name k) :
    splitByExtension name =
      if fileStart name < k ∧ k ≠ name.length - 1 then (name.take k, name.drop k)
      else (name, []) := by
  unfold splitByExtension
  rw [rfind_eq_some_iff.mpr h]
  dsimp only
  by_cases hend : k = 0 ∨ k = name.length - 1
  · rw [if_pos hend, if_neg (by omega)]
  · rw [if_neg hend]
    rcases exists_last '/' name with hnone | ⟨front, rest, hrest, heq⟩
    · have hstart := fileStart_of_notMem hnone
      rw [rfind_of_notMem hnone, if_pos (by omega)]
    · have hslash : IsLast '/' name front.length := heq ▸ isLast_append front hrest
      have hstart := fileStart_of_isLast hslash
      rw [rfind_eq_some_iff.mpr hslash]
      dsimp only
      by_cases hfolder : front.length ≥ k - 1
      · rw [if_pos hfolder, if_neg (by omega)]
      · rw [if_neg hfolder, if_pos (by omega)]

/-- The names with an extension. -/
theorem extension_ne_nil_iff (name : Name) :
    (splitByExtension name).2 ≠ [] ↔
      '.' ∈ filePart name ∧
        ∃ k, IsLast '.' name k ∧ k ≠ fileStart name ∧ k ≠ name.length - 1 := by
  rcases exists_last '.' name with hnone | ⟨front, rest, hrest, heq⟩
  · rw [splitByExtension_of_notMem hnone]
    constructor
    · intro hne
      exact absurd rfl hne
    · rintro ⟨-, k, hk, -⟩
      exact absurd hk.mem hnone
  · have hlast : IsLast '.' name front.length := heq ▸ isLast_append front hrest
    have hlt := hlast.lt
    have hmem := hlast.mem_drop_iff (fileStart name)
    rw [drop_fileStart] at hmem
    rw [splitByExtension_of_isLast hlast, hmem]
    constructor
    · intro hne
      by_cases hsplit : fileStart name < front.length ∧ front.length ≠ name.length - 1
      · exact ⟨Nat.le_of_lt hsplit.1, front.length, hlast, Nat.ne_of_gt hsplit.1, hsplit.2⟩
      · rw [if_neg hsplit] at hne
        exact absurd rfl hne
    · rintro ⟨hle, k, hk, hfirst, hend⟩
      rw [hk.eq hlast] at hfirst hend
      rw [if_pos ⟨by omega, hend⟩]
      intro hnil
      have hlen := congrArg List.length hnil
      rw [List.length_drop, List.length_nil] at hlen
      omega

/-- The extension begins at the last dot. -/
theorem extension_eq_drop (h : IsLast '.' name k) (hne : (splitByExtension name).2 ≠ []) :
    (splitByExtension name).2 = name.drop k := by
  rw [splitByExtension_of_isLast h] at hne ⊢
  by_cases hsplit : fileStart name < k ∧ k ≠ name.length - 1
  · rw [if_pos hsplit]
  · rw [if_neg hsplit] at hne
    exact absurd rfl hne

/-! ## Numbered names -/

/-- `string_format`, where `text` is what the format stands for: the length and one more have
to be an `int`. -/
def stringFormat (text : Name) : Option Name :=
  if text.length + 1 < 2 ^ 31 then some text else none

/-- `annotate_filename_index`, which may throw. -/
def tryAnnotateFilenameIndex (fileBasename : Name) (index : Nat) : Option Name :=
  if index = 0 then some fileBasename
  else stringFormat (annotateFilenameIndex fileBasename index)

/-- A file name has no null characters. -/
structure FileName where
  name : Name
  noNul : nul ∉ name

theorem annotateFilenameIndex_zero (name : Name) : annotateFilenameIndex name 0 = name :=
  rfl

theorem eq_of_tryAnnotateFilenameIndex {index : Nat} {x : Name}
    (h : tryAnnotateFilenameIndex name index = some x) :
    x = annotateFilenameIndex name index := by
  unfold tryAnnotateFilenameIndex at h
  by_cases hindex : index = 0
  · rw [if_pos hindex] at h
    rw [hindex, annotateFilenameIndex_zero]
    exact (Option.some.inj h).symm
  · rw [if_neg hindex, stringFormat] at h
    split at h
    · exact (Option.some.inj h).symm
    · contradiction

theorem mem_of_mem_parts {c : Char}
    (h : c ∈ (splitByExtension name).1 ∨ c ∈ (splitByExtension name).2) : c ∈ name := by
  rw [← splitByExtension_append name]
  exact List.mem_append.mpr h

theorem cStr_of_notMem (h : nul ∉ name) : cStr name = name := by
  refine cStr_of_forall_ne (fun c hc => ?_)
  rintro rfl
  exact h hc

/-- Without null characters the index goes between the two parts. -/
theorem annotateFilenameIndex_eq (h : nul ∉ name) {index : Nat} (hindex : index ≠ 0) :
    annotateFilenameIndex name index =
      (splitByExtension name).1 ++ '.' :: (formatInt (intArgument index) ++
        (splitByExtension name).2) := by
  have hbase : nul ∉ (splitByExtension name).1 := fun hmem => h (mem_of_mem_parts (Or.inl hmem))
  have hext : nul ∉ (splitByExtension name).2 := fun hmem => h (mem_of_mem_parts (Or.inr hmem))
  rw [annotateFilenameIndex, if_neg hindex]
  dsimp only
  rw [cStr_of_notMem hbase, cStr_of_notMem hext]

/-- A name with an index begins and ends with the two parts exactly when there are no null
characters, at which `string_format` would cut them. -/
theorem parts_kept_iff (name : Name) {index : Nat} (hindex : index ≠ 0) :
    ((splitByExtension name).1 <+: annotateFilenameIndex name index ∧
      (splitByExtension name).2 <:+ annotateFilenameIndex name index) ↔ nul ∉ name := by
  constructor
  · rintro ⟨hbase, hext⟩ hmem
    have hclean : nul ∉ annotateFilenameIndex name index := by
      rw [← cStr_annotateFilenameIndex hindex]
      exact fun h => ne_null_of_mem_cStr h rfl
    rw [← splitByExtension_append name, List.mem_append] at hmem
    rcases hmem with hmem | hmem
    · exact hclean (hbase.subset hmem)
    · exact hclean (hext.subset hmem)
  · intro h
    rw [annotateFilenameIndex_eq h hindex]
    refine ⟨List.prefix_append _ _, ?_⟩
    rw [← List.cons_append, ← List.append_assoc]
    exact List.suffix_append _ _

/-- Every index keeps the two parts of a file name. -/
theorem parts_kept (h : nul ∉ name) (index : Nat) :
    (splitByExtension name).1 <+: annotateFilenameIndex name index ∧
      (splitByExtension name).2 <:+ annotateFilenameIndex name index := by
  by_cases hindex : index = 0
  · have happend := splitByExtension_append name
    rw [hindex, annotateFilenameIndex_zero]
    exact ⟨⟨_, happend⟩, ⟨_, happend⟩⟩
  · exact (parts_kept_iff name hindex).mpr h

/-- Different indices of 32 bits give different names. -/
theorem annotateFilenameIndex_inj {i j : Nat} (hi : i < 2 ^ 32) (hj : j < 2 ^ 32)
    (h : annotateFilenameIndex name i = annotateFilenameIndex name j) : i = j :=
  cStr_annotateFilenameIndex_inj hi hj (congrArg cStr h)

theorem length_cStr_le (name : Name) : (cStr name).length ≤ name.length :=
  (List.takeWhile_prefix _).length_le

/-- An index adds a dot and at most ten digits. -/
theorem length_annotateFilenameIndex_le (name : Name) {index : Nat} (h : index < 2 ^ 31) :
    (annotateFilenameIndex name index).length ≤ name.length + 11 := by
  by_cases hindex : index = 0
  · rw [hindex, annotateFilenameIndex_zero]
    exact Nat.le_add_right _ _
  · have hargument : intArgument index = (index : Int) := by
      unfold intArgument
      rw [Nat.mod_eq_of_lt (by omega), if_pos h]
    have hdigits : (formatInt (index : Int)).length ≤ 10 :=
      (Nat.length_toDigits_le_iff (by decide) (by decide)).mpr (Nat.lt_trans h (by decide))
    have hbase := length_cStr_le (splitByExtension name).1
    have hext := length_cStr_le (splitByExtension name).2
    have hparts := congrArg List.length (splitByExtension_append name)
    rw [List.length_append] at hparts
    rw [annotateFilenameIndex, if_neg hindex, hargument, List.length_append, List.length_cons,
      List.length_append]
    omega

/-- `string_format` does not throw for names that are eleven characters and a terminator
shorter than the largest `int`. -/
theorem tryAnnotateFilenameIndex_isSome {index : Nat} (h : index < 2 ^ 31)
    (hlen : name.length + 12 < 2 ^ 31) : ∃ x, tryAnnotateFilenameIndex name index = some x := by
  unfold tryAnnotateFilenameIndex
  by_cases hindex : index = 0
  · rw [if_pos hindex]
    exact ⟨name, rfl⟩
  · have hle := length_annotateFilenameIndex_le name h
    rw [if_neg hindex, stringFormat, if_pos (by omega)]
    exact ⟨_, rfl⟩

/-- File names are split at the last dot of their file part, and numbered in front of it. -/
theorem split_and_numbered (s : FileName) :
    (splitByExtension s.name).1 ++ (splitByExtension s.name).2 = s.name ∧
      ((splitByExtension s.name).2 ≠ [] ↔
        '.' ∈ filePart s.name ∧
          ∃ k, IsLast '.' s.name k ∧ k ≠ fileStart s.name ∧ k ≠ s.name.length - 1) ∧
      (∀ k, IsLast '.' s.name k → (splitByExtension s.name).2 ≠ [] →
        (splitByExtension s.name).2 = s.name.drop k) ∧
      tryAnnotateFilenameIndex s.name 0 = some s.name ∧
      (s.name.length + 12 < 2 ^ 31 →
        ∀ i < 2 ^ 31, ∃ x, tryAnnotateFilenameIndex s.name i = some x) ∧
      ∀ i < 2 ^ 31, ∀ j < 2 ^ 31, i ≠ j → ∀ x y,
        tryAnnotateFilenameIndex s.name i = some x → tryAnnotateFilenameIndex s.name j = some y →
        x ≠ y ∧ ((splitByExtension s.name).1 <+: x ∧ (splitByExtension s.name).1 <+: y) ∧
          ((splitByExtension s.name).2 <:+ x ∧ (splitByExtension s.name).2 <:+ y) := by
  refine ⟨splitByExtension_append s.name, extension_ne_nil_iff s.name,
    fun k hk hne => extension_eq_drop hk hne, rfl,
    fun hlen i hi => tryAnnotateFilenameIndex_isSome hi hlen, ?_⟩
  intro i hi j hj hne x y hx hy
  have hkeptx := parts_kept s.noNul i
  have hkepty := parts_kept s.noNul j
  rw [← eq_of_tryAnnotateFilenameIndex hx] at hkeptx
  rw [← eq_of_tryAnnotateFilenameIndex hy] at hkepty
  refine ⟨?_, ⟨hkeptx.1, hkepty.1⟩, ⟨hkeptx.2, hkepty.2⟩⟩
  intro heq
  rw [eq_of_tryAnnotateFilenameIndex hx, eq_of_tryAnnotateFilenameIndex hy] at heq
  exact hne (annotateFilenameIndex_inj (by omega) (by omega) heq)

/-- The file name `a.b`. -/
def dotted : FileName where
  name := ['a', '.', 'b']
  noNul := by decide

theorem split_and_numbered_dotted :
    (splitByExtension dotted.name).2 = ['.', 'b'] ∧
      (['a', '.', '1', '.', 'b'] : Name) ≠ ['a', '.', '2', '.', 'b'] ∧
      ∃ x, tryAnnotateFilenameIndex dotted.name 3 = some x := by
  have hdot : IsLast '.' dotted.name 1 := isLast_append ['a'] (by decide)
  have hne : (splitByExtension dotted.name).2 ≠ [] := by decide
  rcases split_and_numbered dotted with ⟨-, -, hdrop, -, hsome, hdiffer⟩
  refine ⟨hdrop 1 hdot hne, ?_, hsome (by decide) 3 (by decide)⟩
  exact (hdiffer 1 (by decide) 2 (by decide) (by decide) _ _ rfl rfl).1

end Utils
end DtCore

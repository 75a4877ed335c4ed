import Mathlib.Data.List.Basic
import Mathlib.Data.List.Nodup

/-!
# Configuration documents

A document without anchors and aliases is a tree.  Merging an override document
into a base document is described on trees first: it says what the base document
has become, also when the merge was left by an exception, and which of the two
documents the merge returns.

Main definitions:

- `mergeDoc`: the merge of two trees with its effect on the base.
- `layerDocs`: the documents that a list of documents builds up.
- `Doc.Blocks`: the override decides about a path.
-/

namespace DtCore
namespace Utils
namespace Conf

/-! ## Trees -/

/-- A key of a map; `complex` stands for a sequence or a map. -/
inductive Key where
  | scalar (text : String)
  | null
  | complex
deriving DecidableEq

/-- A document; `undefined` is an entry that was created but never assigned. -/
inductive Doc where
  | undefined
  | null
  | scalar (text : String)
  | sequence (items : List Doc)
  | map (entries : List (Key × Doc))

/-- A string only matches a scalar key. -/
def Key.matches : Key → String → Bool
  | .scalar text, key => text = key
  | _, _ => false

/-- The value of the first entry that matches a string. -/
def findKey {α : Type} (key : String) : List (Key × α) → Option α
  | [] => none
  | (k, a) :: es => if k.matches key then some a else findKey key es

/-- Replace the value of the first entry that matches, or append an entry. -/
def setKey {α : Type} (key : String) (a : α) : List (Key × α) → List (Key × α)
  | [] => [(.scalar key, a)]
  | (k, b) :: es => if k.matches key then (k, a) :: es else (k, b) :: setKey key a es

theorem Key.matches_iff {k : Key} {key : String} : k.matches key = true ↔ k = .scalar key := by
  cases k <;> simp [Key.matches]

/-- The entry that is found is the first one that matches. -/
theorem findKey_split {α : Type} {key : String} {a : α} {es : List (Key × α)}
    (h : findKey key es = some a) :
    ∃ pre post, es = pre ++ (.scalar key, a) :: post ∧ findKey key pre = none := by
  induction es with
  | nil => simp [findKey] at h
  | cons e es ih =>
      rcases e with ⟨k, b⟩
      by_cases hk : k.matches key = true
      · rw [findKey, if_pos hk, Option.some.injEq] at h
        rw [Key.matches_iff] at hk
        exact ⟨[], es, by rw [hk, h]; rfl, rfl⟩
      · rw [findKey, if_neg hk] at h
        rcases ih h with ⟨pre, post, hes, hpre⟩
        exact ⟨(k, b) :: pre, post, by rw [hes]; rfl, by rw [findKey, if_neg hk, hpre]⟩

theorem findKey_of_split {α : Type} {key : String} {a : α} {pre post : List (Key × α)}
    (h : findKey key pre = none) :
    findKey key (pre ++ (.scalar key, a) :: post) = some a := by
  induction pre with
  | nil => simp [findKey, Key.matches]
  | cons e pre ih =>
      rcases e with ⟨k, b⟩
      by_cases hk : k.matches key = true
      · simp [findKey, hk] at h
      · rw [findKey, if_neg hk] at h
        rw [List.cons_append, findKey, if_neg hk, ih h]

theorem setKey_of_split {α : Type} {key : String} {a b : α} {pre post : List (Key × α)}
    (h : findKey key pre = none) :
    setKey key b (pre ++ (.scalar key, a) :: post) = pre ++ (.scalar key, b) :: post := by
  induction pre with
  | nil => simp [setKey, Key.matches]
  | cons e pre ih =>
      rcases e with ⟨k, c⟩
      by_cases hk : k.matches key = true
      · simp [findKey, hk] at h
      · rw [findKey, if_neg hk] at h
        rw [List.cons_append, setKey, if_neg hk, ih h, List.cons_append]

theorem setKey_of_findKey_none {α : Type} {key : String} {a : α} {es : List (Key × α)}
    (h : findKey key es = none) : setKey key a es = es ++ [(.scalar key, a)] := by
  induction es with
  | nil => rfl
  | cons e es ih =>
      rcases e with ⟨k, b⟩
      by_cases hk : k.matches key = true
      · simp [findKey, hk] at h
      · rw [findKey, if_neg hk] at h
        rw [setKey, if_neg hk, ih h, List.cons_append]

theorem findKey_setKey {α : Type} (key key' : String) (a : α) (es : List (Key × α)) :
    findKey key' (setKey key a es) = if key' = key then some a else findKey key' es := by
  induction es with
  | nil =>
      by_cases h : key' = key
      · simp [setKey, findKey, Key.matches, h]
      · simp [setKey, findKey, Key.matches, h, Ne.symm h]
  | cons e es ih =>
      rcases e with ⟨k, b⟩
      by_cases hk : k.matches key = true
      · rw [Key.matches_iff] at hk
        subst hk
        by_cases h : key' = key
        · simp [setKey, findKey, Key.matches, h]
        · simp [setKey, findKey, Key.matches, h, Ne.symm h]
      · rw [setKey, if_neg hk, findKey, findKey, ih]
        by_cases hk' : k.matches key' = true
        · have hne : key' ≠ key := by
            intro heq
            rw [heq] at hk'
            exact hk hk'
          rw [if_pos hk', if_pos hk', if_neg hne]
        · rw [if_neg hk', if_neg hk']

theorem findKey_eq_none {α : Type} {key : String} {es : List (Key × α)} :
    findKey key es = none ↔ Key.scalar key ∉ es.map Prod.fst := by
  induction es with
  | nil => simp [findKey]
  | cons e es ih =>
      rcases e with ⟨k, b⟩
      by_cases hk : k.matches key = true
      · rw [findKey, if_pos hk]
        rw [Key.matches_iff] at hk
        simp [hk]
      · rw [findKey, if_neg hk, ih]
        rw [Key.matches_iff] at hk
        simp [Ne.symm hk]

/-- The document at a path of keys. -/
def Doc.at : Doc → List String → Option Doc
  | d, [] => some d
  | .map entries, key :: path => (findKey key entries).bind (fun d => d.at path)
  | _, _ :: _ => none

/-- What a lookup can give: a scalar or a sequence. -/
def Doc.IsLeaf : Doc → Prop
  | .scalar _ => True
  | .sequence _ => True
  | _ => False

/-- The document is there and is not a null. -/
def Doc.HasContent : Doc → Prop
  | .undefined => False
  | .null => False
  | _ => True

instance decidableHasContent : (d : Doc) → Decidable d.HasContent
  | .undefined => inferInstanceAs (Decidable False)
  | .null => inferInstanceAs (Decidable False)
  | .scalar _ => inferInstanceAs (Decidable True)
  | .sequence _ => inferInstanceAs (Decidable True)
  | .map _ => inferInstanceAs (Decidable True)

/-- `IsMap`. -/
def Doc.IsMap : Doc → Prop
  | .map _ => True
  | _ => False

/-! ## Merging -/

/-- Which node a merge returns, if any. -/
inductive Takes where
  | base
  | override
  | threw
deriving DecidableEq

/-- How a merge ends: what the base is now and which node is returned. -/
structure DocEnd where
  base : Option Doc
  takes : Takes

/-- The document that is returned. -/
def DocEnd.result (e : DocEnd) (o : Doc) : Option Doc :=
  match e.takes with
  | .base => e.base
  | .override => some o
  | .threw => none

/-- A child that was merged in place. -/
def putBack (key : String) : Option Doc → List (Key × Doc) → List (Key × Doc)
  | none, bs => bs
  | some d, bs => setKey key d bs

section Merge

variable (keyString : Key → Option String) (concat : Bool)

/-- The loop over the entries of an override map; `false` means that it was left
by an exception: a key was no string, a child merge threw, or a child merge
returned the handle of a missing base entry. -/
def mergeEntriesDoc (merge : Option Doc → Doc → Option DocEnd) :
    List (Key × Doc) → List (Key × Doc) → Option (List (Key × Doc) × Bool)
  | bs, [] => some (bs, true)
  | bs, (_, .undefined) :: os => mergeEntriesDoc merge bs os
  | bs, (k, v) :: os =>
      match keyString k with
      | none => some (bs, false)
      | some key =>
          match merge (findKey key bs) v with
          | none => none
          | some ⟨base, .threw⟩ => some (putBack key base bs, false)
          | some ⟨none, .base⟩ => some (setKey key .undefined bs, false)
          | some ⟨some d, .base⟩ => mergeEntriesDoc merge (setKey key d bs) os
          | some ⟨_, .override⟩ => mergeEntriesDoc merge (setKey key v bs) os

/-- `mergeNodes` on trees, to a depth of at most the first argument. -/
def mergeDoc : Nat → Option Doc → Doc → Option DocEnd
  | 0, _, _ => none
  | _ + 1, base, .undefined => some { base := base, takes := .base }
  | _ + 1, base, .null => some { base := base, takes := .base }
  | n + 1, some (.map bs), .map os =>
      (mergeEntriesDoc keyString (mergeDoc n) bs os).map
        (fun (bs', ok) => { base := some (.map bs'), takes := if ok then .base else .threw })
  | _ + 1, some (.sequence xs), .sequence ys =>
      if concat then some { base := some (.sequence (xs ++ ys)), takes := .base }
      else some { base := some (.sequence xs), takes := .override }
  | _ + 1, base, _ => some { base := base, takes := .override }

/-- `Append` on trees: a root that is not defined is replaced. -/
def appendDoc (n : Nat) (root o : Doc) : Option DocEnd :=
  match root with
  | .undefined => some { base := some root, takes := .override }
  | _ => mergeDoc keyString concat n (some root) o

/-- Append a list of documents; `none` when one of the merges is
left by an exception or goes too deep. -/
def layerDocs (n : Nat) : Doc → List Doc → Option Doc
  | root, [] => some root
  | root, o :: os =>
      ((appendDoc keyString concat n root o).bind (fun e => e.result o)).bind
        (fun r => layerDocs n r os)

end Merge

/-- One round of the loop. -/
theorem mergeEntriesDoc_cons {keyString : Key → Option String}
    {merge : Option Doc → Doc → Option DocEnd}
    {bs os : List (Key × Doc)} {k : Key} {v : Doc} (hv : v ≠ .undefined) :
    mergeEntriesDoc keyString merge bs ((k, v) :: os) =
      match keyString k with
      | none => some (bs, false)
      | some key =>
          match merge (findKey key bs) v with
          | none => none
          | some ⟨base, .threw⟩ => some (putBack key base bs, false)
          | some ⟨none, .base⟩ => some (setKey key .undefined bs, false)
          | some ⟨some d, .base⟩ => mergeEntriesDoc keyString merge (setKey key d bs) os
          | some ⟨_, .override⟩ => mergeEntriesDoc keyString merge (setKey key v bs) os := by
  cases v <;> first | contradiction | rfl

/-- What one round of the loop can do: stop at a key that is no string, in the merge of
the child or at the handle of a missing key, or go on with the result at the key. -/
theorem mergeEntriesDoc_cons_cases {keyString : Key → Option String}
    {merge : Option Doc → Doc → Option DocEnd} {bs os bs' : List (Key × Doc)} {k : Key}
    {v : Doc} {ok : Bool} (hv : v ≠ .undefined)
    (h : mergeEntriesDoc keyString merge bs ((k, v) :: os) = some (bs', ok)) :
    (keyString k = none ∧ bs' = bs ∧ ok = false) ∨
      ∃ key e, keyString k = some key ∧ merge (findKey key bs) v = some e ∧
        ((e.takes = .threw ∧ bs' = putBack key e.base bs ∧ ok = false) ∨
          (e.takes = .base ∧ e.base = none ∧ bs' = setKey key .undefined bs ∧ ok = false) ∨
          ∃ d, e.takes ≠ .threw ∧ e.result v = some d ∧
            mergeEntriesDoc keyString merge (setKey key d bs) os = some (bs', ok)) := by
  rw [mergeEntriesDoc_cons hv] at h
  cases hk : keyString k with
  | none =>
      rw [hk] at h
      simp only [Option.some.injEq, Prod.mk.injEq] at h
      exact Or.inl ⟨rfl, h.1.symm, h.2.symm⟩
  | some key =>
      rw [hk] at h
      simp only at h
      right
      apply Exists.intro key
      split at h
      · contradiction
      · rename_i hm
        simp only [Option.some.injEq, Prod.mk.injEq] at h
        exact ⟨_, rfl, hm, Or.inl ⟨rfl, h.1.symm, h.2.symm⟩⟩
      · rename_i hm
        simp only [Option.some.injEq, Prod.mk.injEq] at h
        exact ⟨_, rfl, hm, Or.inr (Or.inl ⟨rfl, rfl, h.1.symm, h.2.symm⟩)⟩
      · rename_i d hm
        exact ⟨_, rfl, hm, Or.inr (Or.inr ⟨d, by simp, rfl, h⟩)⟩
      · rename_i hm
        exact ⟨_, rfl, hm, Or.inr (Or.inr ⟨v, by simp, rfl, h⟩)⟩

/-! ## Path by path -/

/-- The override decides about a path: it has content there, or something other
than a map before its end. -/
def Doc.Blocks (o : Doc) (path : List String) : Prop :=
  (∃ d, o.at path = some d ∧ d.HasContent) ∨
    ∃ p q, path = p ++ q ∧ q ≠ [] ∧ ∃ d, o.at p = some d ∧ d.HasContent ∧ ¬ d.IsMap

/-- Every map at a path of keys has unique scalar keys. -/
def Doc.UniqueKeys (d : Doc) : Prop :=
  ∀ path es, d.at path = some (.map es) →
    (∀ e ∈ es, ∃ text, e.1 = .scalar text) ∧ (es.map Prod.fst).Nodup

end Conf
end Utils
end DtCore

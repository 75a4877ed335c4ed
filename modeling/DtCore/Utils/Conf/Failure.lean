import DtCore.Utils.Conf.Overlay

/-!
# When a failing merge leaves the base alone

The merge of two trees writes into the base entry by entry, so that an exception
keeps what was written before.  Whether a merge throws, and whether it has changed
the base by then, is decided by the two documents.

Main definitions:

- `Fails`: the merge throws.
- `Keeps`: the merge returns what the base was.
- `FailsClean`: the merge throws before it has changed anything.

Main results:

- Theorem `mergeDoc_keeps`, `mergeDoc_failsClean`: these conditions are enough.
- Theorem `mergeDoc_fails_iff`, `keeps_of_mergeDoc`, `failsClean_of_mergeDoc`: without
  repeated keys they are necessary.
-/

namespace DtCore
namespace Utils
namespace Conf

/-! ## Conditions on two documents -/

/-- The merge of an override entry into a map throws. -/
def EntryFails (keyString : Key → Option String) (fails : Doc → Doc → Prop)
    (bs : List (Key × Doc)) (e : Key × Doc) : Prop :=
  e.2 ≠ .undefined ∧
    match keyString e.1 with
    | none => True
    | some key =>
        match findKey key bs with
        | none => ¬ e.2.HasContent
        | some d => fails d e.2

/-- The merge throws: at some depth an entry has a key that is no string, or a null for
a key that the base does not have. -/
def Fails (keyString : Key → Option String) : Nat → Doc → Doc → Prop
  | n + 1, .map bs, .map os => ∃ e ∈ os, EntryFails keyString (Fails keyString n) bs e
  | _, _, _ => False

/-- The merge of an override entry leaves a map as it is. -/
def EntryKeeps (keyString : Key → Option String) (keeps : Doc → Doc → Prop)
    (bs : List (Key × Doc)) (e : Key × Doc) : Prop :=
  e.2 = .undefined ∨
    ∃ key d, keyString e.1 = some key ∧ findKey key bs = some d ∧ keeps d e.2

/-- The merge returns and changes nothing: the override is null, is equal to the base,
appends no items, or is a map whose entries all change nothing. -/
def Keeps (keyString : Key → Option String) (concat : Bool) : Nat → Doc → Doc → Prop
  | 0, _, _ => False
  | n + 1, d, o =>
      ¬ o.HasContent ∨
        match d, o with
        | .map bs, .map os => ∀ e ∈ os, EntryKeeps keyString (Keeps keyString concat n) bs e
        | .sequence xs, .sequence ys => if concat then ys = [] else ys = xs
        | .scalar text, .scalar text' => text' = text
        | _, _ => False

/-- The first entry that does not leave a map as it is throws at a key that is no string,
its own or one below it. -/
def EntriesFailClean (keyString : Key → Option String) (keeps clean : Doc → Doc → Prop)
    (bs os : List (Key × Doc)) : Prop :=
  ∃ pre e post, os = pre ++ e :: post ∧ (∀ p ∈ pre, EntryKeeps keyString keeps bs p) ∧
    e.2 ≠ .undefined ∧
      (keyString e.1 = none ∨
        ∃ key d, keyString e.1 = some key ∧ findKey key bs = some d ∧ clean d e.2)

/-- The merge throws at a key that is no string, before it has changed anything. -/
def FailsClean (keyString : Key → Option String) (concat : Bool) : Nat → Doc → Doc → Prop
  | n + 1, .map bs, .map os =>
      EntriesFailClean keyString (Keeps keyString concat n) (FailsClean keyString concat n) bs os
  | _, _, _ => False

/-- The keys of a map that are strings. -/
def keyStrings (keyString : Key → Option String) (es : List (Key × Doc)) : List String :=
  es.filterMap (fun e => keyString e.1)

/-- No map has two keys with the same string. -/
def UniqueStrings (keyString : Key → Option String) : Nat → Doc → Prop
  | n + 1, .map es =>
      (keyStrings keyString es).Nodup ∧ ∀ e ∈ es, UniqueStrings keyString n e.2
  | _, _ => True

variable {keyString : Key → Option String} {concat : Bool}

/-! ## The conditions are enough -/

theorem setKey_self {α : Type} {key : String} {a : α} {es : List (Key × α)}
    (h : findKey key es = some a) : setKey key a es = es := by
  rcases findKey_split h with ⟨pre, post, rfl, hpre⟩
  exact setKey_of_split hpre

/-- The loop passes over entries that change nothing. -/
theorem mergeEntriesDoc_keeps {merge : Option Doc → Doc → Option DocEnd}
    {keeps : Doc → Doc → Prop} {bs os : List (Key × Doc)}
    (hmerge : ∀ d o, keeps d o → ∃ takes, merge (some d) o = some ⟨some d, takes⟩ ∧
      (takes = .base ∨ takes = .override ∧ o = d))
    (hos : ∀ e ∈ os, EntryKeeps keyString keeps bs e) (rest : List (Key × Doc)) :
    mergeEntriesDoc keyString merge bs (os ++ rest) = mergeEntriesDoc keyString merge bs rest := by
  induction os with
  | nil => rfl
  | cons e os ih =>
      rcases e with ⟨k, v⟩
      rw [List.forall_mem_cons] at hos
      rw [List.cons_append]
      by_cases hv : v = .undefined
      · subst hv
        exact ih hos.2
      · rcases hos.1 with hundef | ⟨key, d, hk, hd, hkeeps⟩
        · exact absurd hundef hv
        · simp only at hk hkeeps
          rcases hmerge d v hkeeps with ⟨takes, hm, htakes⟩
          rw [mergeEntriesDoc_cons hv, hk]
          simp only [hd, hm]
          rcases htakes with rfl | ⟨rfl, rfl⟩
          · simp only [setKey_self hd]
            exact ih hos.2
          · simp only [setKey_self hd]
            exact ih hos.2

theorem mergeDoc_keeps {n : Nat} {d o : Doc} (h : Keeps keyString concat n d o) :
    ∃ takes, mergeDoc keyString concat n (some d) o = some ⟨some d, takes⟩ ∧
      (takes = .base ∨ takes = .override ∧ o = d) := by
  induction n generalizing d o with
  | zero => exact h.elim
  | succ n ih =>
      rcases h with hcontent | h
      · apply Exists.intro .base
        constructor
        · cases o <;> simp_all [mergeDoc, Doc.HasContent]
        · exact Or.inl rfl
      · split at h
        · rename_i bs os
          have hloop := mergeEntriesDoc_keeps (fun d o => ih) h []
          rw [List.append_nil] at hloop
          apply Exists.intro .base
          simp [mergeDoc, hloop, mergeEntriesDoc]
        · rename_i xs ys
          cases concat with
          | true =>
              simp only [if_true] at h
              subst h
              exact ⟨.base, by simp [mergeDoc], Or.inl rfl⟩
          | false =>
              simp only [Bool.false_eq_true, if_false] at h
              subst h
              exact ⟨.override, by simp [mergeDoc], Or.inr ⟨rfl, rfl⟩⟩
        · rename_i text text'
          subst h
          exact ⟨.override, by simp [mergeDoc], Or.inr ⟨rfl, rfl⟩⟩
        · exact h.elim

theorem mergeDoc_failsClean {n : Nat} {d o : Doc} (h : FailsClean keyString concat n d o) :
    mergeDoc keyString concat n (some d) o = some ⟨some d, .threw⟩ := by
  induction n generalizing d o with
  | zero => exact h.elim
  | succ n ih =>
      unfold FailsClean at h
      split at h
      · rename_i heq
        cases heq
        rename_i bs os
        rcases h with ⟨pre, ⟨k, v⟩, post, rfl, hpre, hv, hfail⟩
        have hloop := mergeEntriesDoc_keeps (fun d o => mergeDoc_keeps) hpre ((k, v) :: post)
        have hthrew : mergeEntriesDoc keyString (mergeDoc keyString concat n) bs
            ((k, v) :: post) = some (bs, false) := by
          rw [mergeEntriesDoc_cons hv]
          rcases hfail with hk | ⟨key, d, hk, hd, hclean⟩
          · simp only at hk
            rw [hk]
          · simp only at hk hclean
            rw [hk]
            simp only [hd, ih hclean, putBack, setKey_self hd]
        simp [mergeDoc, hloop, hthrew]
      · exact h.elim

/-! ## Without repeated keys they are necessary -/

/-- A key that no entry of the override has keeps its value. -/
theorem mergeEntriesDoc_frame {merge : Option Doc → Doc → Option DocEnd}
    {bs os bs' : List (Key × Doc)} {ok : Bool} {key : String}
    (hkey : key ∉ keyStrings keyString os)
    (h : mergeEntriesDoc keyString merge bs os = some (bs', ok)) :
    findKey key bs' = findKey key bs := by
  induction os generalizing bs with
  | nil =>
      simp only [mergeEntriesDoc, Option.some.injEq, Prod.mk.injEq] at h
      rw [h.1]
  | cons e os ih =>
      rcases e with ⟨k, v⟩
      have hrest : key ∉ keyStrings keyString os := by
        intro hmem
        apply hkey
        rw [keyStrings, List.filterMap_cons]
        cases keyString k with
        | none => exact hmem
        | some text => exact List.mem_cons_of_mem _ hmem
      by_cases hv : v = .undefined
      · subst hv
        exact ih hrest h
      · have hset : ∀ text, keyString k = some text → ∀ d : Doc,
            findKey key (setKey text d bs) = findKey key bs := by
          intro text hk d
          have hne : key ≠ text := by
            rintro rfl
            apply hkey
            simp [keyStrings, hk]
          rw [findKey_setKey, if_neg hne]
        rcases mergeEntriesDoc_cons_cases hv h with
          ⟨_, rfl, _⟩ | ⟨text, e, hk, _, ⟨_, rfl, _⟩ | ⟨_, _, rfl, _⟩ | ⟨d, _, _, hgo⟩⟩
        · rfl
        · cases e.base with
          | none => rfl
          | some d => exact hset text hk d
        · exact hset text hk _
        · rw [ih hrest hgo, hset text hk]

/-- The merge into a missing key. -/
theorem mergeDoc_none {n : Nat} {v : Doc} {e : DocEnd}
    (h : mergeDoc keyString concat n none v = some e) :
    e.base = none ∧ (e.takes = .base ↔ ¬ v.HasContent) ∧ e.takes ≠ .threw := by
  cases n with
  | zero => simp [mergeDoc] at h
  | succ n => cases v <;> simp [mergeDoc] at h <;> simp [← h, Doc.HasContent]

/-- A merge into something leaves something. -/
theorem mergeDoc_base {n : Nat} {d v : Doc} {e : DocEnd}
    (h : mergeDoc keyString concat n (some d) v = some e) : ∃ d', e.base = some d' := by
  cases n with
  | zero => simp [mergeDoc] at h
  | succ n =>
      unfold mergeDoc at h
      split at h
      · contradiction
      · exact ⟨d, by simp_all [← Option.some.inj h]⟩
      · exact ⟨d, by simp_all [← Option.some.inj h]⟩
      · rcases Option.map_eq_some_iff.mp h with ⟨⟨bs', ok⟩, _, rfl⟩
        exact ⟨_, rfl⟩
      · split at h
        · exact ⟨_, by rw [← Option.some.inj h]⟩
        · exact ⟨_, by rw [← Option.some.inj h]⟩
      · exact ⟨d, by rw [← Option.some.inj h]⟩

/-- A merge into something that returns has a result. -/
theorem exists_result {n : Nat} {d v : Doc} {e : DocEnd}
    (h : mergeDoc keyString concat n (some d) v = some e) (htakes : e.takes ≠ .threw) :
    ∃ r, e.result v = some r := by
  rcases mergeDoc_base h with ⟨d', hbase⟩
  rcases e with ⟨base, takes⟩
  cases takes with
  | base => exact ⟨d', hbase⟩
  | override => exact ⟨v, rfl⟩
  | threw => exact absurd rfl htakes

/-- The string of the first entry is not repeated after it. -/
theorem keyStrings_cons {k : Key} {v : Doc} {os : List (Key × Doc)}
    (h : (keyStrings keyString ((k, v) :: os)).Nodup) :
    (keyStrings keyString os).Nodup ∧
      ∀ key, keyString k = some key → key ∉ keyStrings keyString os := by
  rw [keyStrings, List.filterMap_cons] at h
  cases hk : keyString k with
  | none =>
      simp only [hk] at h
      exact ⟨h, fun key hkey => by contradiction⟩
  | some text =>
      simp only [hk, List.nodup_cons] at h
      constructor
      · exact h.2
      · intro key hkey
        rw [← Option.some.inj hkey]
        exact h.1

/-- What another entry does not set decides whether an entry fails. -/
theorem entryFails_setKey {fails : Doc → Doc → Prop} {bs os : List (Key × Doc)} {key : String}
    (hkey : key ∉ keyStrings keyString os) (d : Doc) {e : Key × Doc} (he : e ∈ os) :
    EntryFails keyString fails (setKey key d bs) e ↔ EntryFails keyString fails bs e := by
  unfold EntryFails
  cases hk : keyString e.1 with
  | none => rfl
  | some text =>
      have hne : text ≠ key := by
        rintro rfl
        apply hkey
        exact List.mem_filterMap.mpr ⟨e, he, hk⟩
      simp only [findKey_setKey, if_neg hne]

section Loop

variable {n : Nat} {bs os bs' : List (Key × Doc)} {ok : Bool}

/-- One merge of children throws, or returns the handle of a missing key, exactly when
the entry fails. -/
theorem entryFails_iff {k : Key} {v : Doc} {key : String} {e : DocEnd} (hv : v ≠ .undefined)
    (hk : keyString k = some key)
    (hm : mergeDoc keyString concat n (findKey key bs) v = some e)
    (ih : ∀ d e, mergeDoc keyString concat n (some d) v = some e →
      (e.takes = .threw ↔ Fails keyString n d v)) :
    EntryFails keyString (Fails keyString n) bs (k, v) ↔
      e.takes = .threw ∨ (e.takes = .base ∧ e.base = none) := by
  simp only [EntryFails, hk]
  cases hd : findKey key bs with
  | none =>
      rw [hd] at hm
      rcases mergeDoc_none hm with ⟨hbase, htakes, hthrew⟩
      simp only
      constructor
      · rintro ⟨_, hcontent⟩
        exact Or.inr ⟨htakes.mpr hcontent, hbase⟩
      · rintro (h | ⟨h, _⟩)
        · exact absurd h hthrew
        · exact ⟨hv, htakes.mp h⟩
  | some d =>
      rw [hd] at hm
      rcases mergeDoc_base hm with ⟨d', hbase⟩
      simp only
      rw [← ih d e hm]
      constructor
      · rintro ⟨_, h⟩
        exact Or.inl h
      · rintro (h | ⟨_, h⟩)
        · exact ⟨hv, h⟩
        · rw [hbase] at h
          contradiction

theorem mergeEntriesDoc_fails_iff
    (ih : ∀ v ∈ os, ∀ d e, mergeDoc keyString concat n (some d) v.2 = some e →
      (e.takes = .threw ↔ Fails keyString n d v.2))
    (hnodup : (keyStrings keyString os).Nodup)
    (h : mergeEntriesDoc keyString (mergeDoc keyString concat n) bs os = some (bs', ok)) :
    ok = false ↔ ∃ e ∈ os, EntryFails keyString (Fails keyString n) bs e := by
  induction os generalizing bs with
  | nil =>
      simp only [mergeEntriesDoc, Option.some.injEq, Prod.mk.injEq] at h
      simp [← h.2]
  | cons entry os ihos =>
      rcases entry with ⟨k, v⟩
      rw [List.forall_mem_cons] at ih
      rcases keyStrings_cons hnodup with ⟨hnodup', hfresh⟩
      by_cases hv : v = .undefined
      · subst hv
        rw [ihos ih.2 hnodup' h, List.exists_mem_cons_iff]
        constructor
        · exact Or.inr
        · rintro (⟨hundef, _⟩ | hrest)
          · exact absurd rfl hundef
          · exact hrest
      · rw [List.exists_mem_cons_iff]
        rcases mergeEntriesDoc_cons_cases hv h with
          ⟨hk, _, hok⟩ | ⟨key, e, hk, hm, hend⟩
        · have hfails : EntryFails keyString (Fails keyString n) bs (k, v) := by
            simp [EntryFails, hk, hv]
          simp [hok, hfails]
        · have hiff := entryFails_iff hv hk hm ih.1
          rcases hend with ⟨hthrew, _, hok⟩ | ⟨hbase, hnone, _, hok⟩ | ⟨d, hthrew, hd, hrest⟩
          · simp [hok, hiff.mpr (Or.inl hthrew)]
          · simp [hok, hiff.mpr (Or.inr ⟨hbase, hnone⟩)]
          · have hnot : ¬ EntryFails keyString (Fails keyString n) bs (k, v) := by
              rw [hiff]
              rintro (h | ⟨hbase, hnone⟩)
              · exact hthrew h
              · rw [DocEnd.result, hbase, hnone] at hd
                contradiction
            rw [ihos ih.2 hnodup' hrest]
            constructor
            · rintro ⟨e', he', hfails⟩
              exact Or.inr ⟨e', he', (entryFails_setKey (hfresh key hk) d he').mp hfails⟩
            · rintro (hfails | ⟨e', he', hfails⟩)
              · exact absurd hfails hnot
              · exact ⟨e', he', (entryFails_setKey (hfresh key hk) d he').mpr hfails⟩

/-- A loop after which every key has its old value merged nothing but entries that keep
the map as it is, up to the one at which it threw. -/
theorem keeps_of_mergeEntriesDoc
    (ih : ∀ v ∈ os, ∀ d e, mergeDoc keyString concat n (some d) v.2 = some e →
      (e.takes ≠ .threw → e.result v.2 = some d → Keeps keyString concat n d v.2) ∧
        (e.takes = .threw → e.base = some d → FailsClean keyString concat n d v.2))
    (hnodup : (keyStrings keyString os).Nodup)
    (h : mergeEntriesDoc keyString (mergeDoc keyString concat n) bs os = some (bs', ok))
    (hsame : ∀ key, findKey key bs' = findKey key bs) :
    (ok = true → ∀ e ∈ os, EntryKeeps keyString (Keeps keyString concat n) bs e) ∧
      (ok = false → EntriesFailClean keyString (Keeps keyString concat n)
        (FailsClean keyString concat n) bs os) := by
  induction os with
  | nil =>
      simp only [mergeEntriesDoc, Option.some.injEq, Prod.mk.injEq] at h
      simp [← h.2]
  | cons entry os ihos =>
      rcases entry with ⟨k, v⟩
      rw [List.forall_mem_cons] at ih
      rcases keyStrings_cons hnodup with ⟨hnodup', hfresh⟩
      -- an entry that keeps the map goes in front
      have hcons : EntryKeeps keyString (Keeps keyString concat n) bs (k, v) →
          mergeEntriesDoc keyString (mergeDoc keyString concat n) bs os = some (bs', ok) →
          (ok = true → ∀ e ∈ (k, v) :: os,
            EntryKeeps keyString (Keeps keyString concat n) bs e) ∧
          (ok = false → EntriesFailClean keyString (Keeps keyString concat n)
            (FailsClean keyString concat n) bs ((k, v) :: os)) := by
        intro hkeeps hrest
        rcases ihos ih.2 hnodup' hrest with ⟨hall, hclean⟩
        constructor
        · intro hok
          rw [List.forall_mem_cons]
          exact ⟨hkeeps, hall hok⟩
        · intro hok
          rcases hclean hok with ⟨pre, e, post, rfl, hpre, he⟩
          exact ⟨(k, v) :: pre, e, post, rfl, List.forall_mem_cons.mpr ⟨hkeeps, hpre⟩, he⟩
      by_cases hv : v = .undefined
      · subst hv
        exact hcons (Or.inl rfl) h
      · rcases mergeEntriesDoc_cons_cases hv h with
          ⟨hk, _, rfl⟩ | ⟨key, e, hk, hm, hend⟩
        · constructor
          · intro hok
            contradiction
          · intro _
            exact ⟨[], (k, v), os, rfl, by simp, hv, Or.inl hk⟩
        · have hkey := hsame key
          rcases hend with
            ⟨hthrew, rfl, rfl⟩ | ⟨_, hnone, rfl, rfl⟩ | ⟨d, hthrew, hd, hrest⟩
          · constructor
            · intro hok
              contradiction
            · intro _
              cases hfound : findKey key bs with
              | none =>
                  rw [hfound] at hm
                  exact absurd hthrew (mergeDoc_none hm).2.2
              | some d =>
                  rw [hfound] at hm hkey
                  rcases mergeDoc_base hm with ⟨d', hbase⟩
                  rw [hbase, putBack, findKey_setKey, if_pos rfl] at hkey
                  rw [hkey] at hbase
                  exact ⟨[], (k, v), os, rfl, by simp, hv,
                    Or.inr ⟨key, d, hk, hfound, (ih.1 d e hm).2 hthrew hbase⟩⟩
          · rw [findKey_setKey, if_pos rfl] at hkey
            rw [← hkey] at hm
            rcases mergeDoc_base hm with ⟨d', hbase⟩
            rw [hnone] at hbase
            contradiction
          · rw [mergeEntriesDoc_frame (hfresh key hk) hrest, findKey_setKey, if_pos rfl] at hkey
            rw [setKey_self hkey.symm] at hrest
            rw [← hkey] at hm
            exact hcons (Or.inr ⟨key, d, hk, hkey.symm, (ih.1 d e hm).1 hthrew hd⟩) hrest

end Loop

/-- A merge throws exactly when an entry fails. -/
theorem mergeDoc_fails_iff {n : Nat} {d o : Doc} {e : DocEnd}
    (hunique : UniqueStrings keyString n o)
    (h : mergeDoc keyString concat n (some d) o = some e) :
    e.takes = .threw ↔ Fails keyString n d o := by
  induction n generalizing d o e with
  | zero => simp [mergeDoc] at h
  | succ n ih =>
      by_cases hmaps : ∃ bs os, d = .map bs ∧ o = .map os
      · rcases hmaps with ⟨bs, os, rfl, rfl⟩
        rw [mergeDoc, Option.map_eq_some_iff] at h
        rcases h with ⟨⟨bs', ok⟩, hloop, rfl⟩
        have hiff := mergeEntriesDoc_fails_iff
          (fun v hv d e hm => ih (hunique.2 v hv) hm) hunique.1 hloop
        rw [Fails, ← hiff]
        cases ok <;> simp
      · have hthrew : e.takes ≠ .threw := by
          intro hthrew
          unfold mergeDoc at h
          split at h <;> simp_all
          · simp [← h] at hthrew
          · simp [← h] at hthrew
          · split at h <;> simp [← Option.some.inj h] at hthrew
          · simp [← h] at hthrew
        have hfails : ¬ Fails keyString (n + 1) d o := by
          intro hfails
          unfold Fails at hfails
          split at hfails <;> simp_all
        simp [hthrew, hfails]

/-- A merge that leaves the base as it was meets the conditions. -/
theorem keeps_of_mergeDoc {n : Nat} {d o : Doc} {e : DocEnd}
    (hunique : UniqueStrings keyString n o)
    (h : mergeDoc keyString concat n (some d) o = some e) :
    (e.takes ≠ .threw → e.result o = some d → Keeps keyString concat n d o) ∧
      (e.takes = .threw → e.base = some d → FailsClean keyString concat n d o) := by
  induction n generalizing d o e with
  | zero => simp [mergeDoc] at h
  | succ n ih =>
      by_cases hcontent : o.HasContent
      · by_cases hmaps : ∃ bs os, d = .map bs ∧ o = .map os
        · rcases hmaps with ⟨bs, os, rfl, rfl⟩
          rw [mergeDoc, Option.map_eq_some_iff] at h
          rcases h with ⟨⟨bs', ok⟩, hloop, rfl⟩
          have hkeeps : bs' = bs →
              (ok = true → ∀ e ∈ os, EntryKeeps keyString (Keeps keyString concat n) bs e) ∧
                (ok = false → EntriesFailClean keyString (Keeps keyString concat n)
                  (FailsClean keyString concat n) bs os) := by
            intro hbs
            apply keeps_of_mergeEntriesDoc (fun v hv d e hm => ih (hunique.2 v hv) hm) hunique.1
              hloop
            intro key
            rw [hbs]
          cases ok with
          | true =>
              constructor
              · intro _ hresult
                simp only [DocEnd.result, if_true, Option.some.injEq, Doc.map.injEq] at hresult
                exact Or.inr ((hkeeps hresult).1 rfl)
              · intro hthrew
                simp at hthrew
          | false =>
              constructor
              · intro hthrew
                simp at hthrew
              · intro _ hbase
                simp only [Option.some.injEq, Doc.map.injEq] at hbase
                exact (hkeeps hbase).2 rfl
        · have hend : (concat = true ∧ ∃ xs ys, d = .sequence xs ∧ o = .sequence ys ∧
              e = { base := some (.sequence (xs ++ ys)), takes := .base }) ∨
              (¬ (concat = true ∧ ∃ xs ys, d = .sequence xs ∧ o = .sequence ys) ∧
                e = { base := some d, takes := .override }) := by
            unfold mergeDoc at h
            split at h <;> simp_all [Doc.HasContent]
            split at h <;> simp_all
          rcases hend with ⟨hconcat, xs, ys, rfl, rfl, rfl⟩ | ⟨hnot, rfl⟩
          · constructor
            · intro _ hresult
              simp only [DocEnd.result, Option.some.injEq, Doc.sequence.injEq] at hresult
              exact Or.inr (by simpa [hconcat] using hresult)
            · intro hthrew
              simp at hthrew
          · constructor
            · intro _ hresult
              simp only [DocEnd.result, Option.some.injEq] at hresult
              subst hresult
              right
              cases o <;> simp_all [Doc.HasContent]
            · intro hthrew
              simp at hthrew
      · have hbase : e.takes = .base := by
          cases o <;> simp_all [mergeDoc, Doc.HasContent] <;> simp [← h]
        constructor
        · intro _ _
          exact Or.inl hcontent
        · intro hthrew
          rw [hbase] at hthrew
          contradiction

end Conf
end Utils
end DtCore

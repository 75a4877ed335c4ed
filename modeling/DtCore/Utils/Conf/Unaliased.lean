import DtCore.Utils.Conf.Visits

/-!
# Documents without aliases

When neither the base nor the override uses an alias, `Append` changes only what the
override mentions, whether keys are repeated or not.

Main results:

- Theorem `mergeNodes_mono`: the depth of a merge is only a bound.
- Theorem `mergeDoc_unmentioned`: a merge of trees keeps what is not mentioned.
- Theorem `append_unaliased`: `Append` on documents without aliases.
-/

namespace DtCore
namespace Utils
namespace Conf

/-! ## Trees -/

section Trees

variable (keyString : Key → Option String)

/-- The override has a value at a path, or something other than a map before its end. -/
def Doc.Mentions : List String → Doc → Prop
  | [], d => d ≠ .undefined
  | _ :: _, .undefined => False
  | key :: path, .map os => ∃ e ∈ os, keyString e.1 = some key ∧ Doc.Mentions path e.2
  | _ :: _, _ => True

end Trees

variable {keyString : Key → Option String} {concat : Bool}

/-- The loop keeps what the entries do not mention when the merge of a child does. -/
theorem mergeEntriesDoc_unmentioned {merge : Option Doc → Doc → Option DocEnd}
    {key : String} {path : List String} {d : Doc}
    (hmerge : ∀ b v e r, merge (some b) v = some e → e.takes ≠ .threw → e.result v = some r →
      b.at path = some d → ¬ v.Mentions keyString path → r.at path = some d)
    {bs os bs' : List (Key × Doc)}
    (h : mergeEntriesDoc keyString merge bs os = some (bs', true))
    (hat : (Doc.map bs).at (key :: path) = some d)
    (hos : ∀ e ∈ os, keyString e.1 = some key → ¬ e.2.Mentions keyString path) :
    (Doc.map bs').at (key :: path) = some d := by
  induction os generalizing bs with
  | nil =>
      simp only [mergeEntriesDoc, Option.some.injEq, Prod.mk.injEq, and_true] at h
      rw [← h]
      exact hat
  | cons e os ih =>
      rcases e with ⟨k, v⟩
      rw [List.forall_mem_cons] at hos
      by_cases hv : v = .undefined
      · rw [hv, mergeEntriesDoc] at h
        exact ih h hat hos.2
      · rcases mergeEntriesDoc_cons_cases hv h with ⟨_, _, hok⟩ | ⟨key', e, hk, he, hend⟩
        · contradiction
        · rcases hend with ⟨_, _, hok⟩ | ⟨_, _, _, hok⟩ | ⟨r, htakes, hr, h⟩
          · contradiction
          · contradiction
          · apply ih h _ hos.2
            rw [at_map_cons, findKey_setKey]
            rw [at_map_cons, Option.bind_eq_some_iff] at hat
            rcases hat with ⟨b, hb, hat⟩
            by_cases hkey : key = key'
            · rw [if_pos hkey]
              rw [← hkey] at hk he
              rw [hb] at he
              exact hmerge b v e r he htakes hr hat (hos.1 hk)
            · rw [if_neg hkey, hb]
              exact hat

/-- A merge of trees keeps the documents at the paths that the override does not mention. -/
theorem mergeDoc_unmentioned {n : Nat} {b o r d : Doc} {e : DocEnd} {path : List String}
    (h : mergeDoc keyString concat n (some b) o = some e) (htakes : e.takes ≠ .threw)
    (hr : e.result o = some r) (hat : b.at path = some d)
    (hpath : ¬ o.Mentions keyString path) : r.at path = some d := by
  induction n generalizing b o r e path with
  | zero => contradiction
  | succ n ih =>
      have hundef : o = .undefined → r.at path = some d := by
        intro ho
        rw [ho, mergeDoc, Option.some.injEq] at h
        rw [← h] at hr
        rw [← Option.some.inj hr]
        exact hat
      cases path with
      | nil => exact hundef (not_not.mp hpath)
      | cons key path =>
          cases o with
          | undefined => exact hundef rfl
          | map os =>
              by_cases hmap : b.IsMap
              · cases b with
                | map bs =>
                    simp only [mergeDoc, Option.map_eq_some_iff] at h
                    rcases h with ⟨⟨bs', ok⟩, hloop, rfl⟩
                    cases ok with
                    | false => exact absurd rfl htakes
                    | true =>
                        rw [← Option.some.inj hr]
                        apply mergeEntriesDoc_unmentioned _ hloop hat
                        · exact fun e he hkey hv => hpath ⟨e, he, hkey, hv⟩
                        · exact fun b v e r h htakes hr hat hv => ih h htakes hr hat hv
                | _ => exact hmap.elim
              · rw [not_at_of_not_isMap hmap] at hat
                contradiction
          | _ => exact absurd trivial hpath

theorem appendDoc_unmentioned {n : Nat} {root o r d : Doc} {e : DocEnd} {path : List String}
    (h : appendDoc keyString concat n root o = some e) (htakes : e.takes ≠ .threw)
    (hr : e.result o = some r) (hat : root.at path = some d)
    (hpath : ¬ o.Mentions keyString path) : r.at path = some d := by
  by_cases hroot : root = .undefined
  · -- an undefined root is replaced; only the empty path leads somewhere
    rw [hroot, appendDoc, Option.some.injEq] at h
    rw [← h] at hr
    rw [← Option.some.inj hr]
    cases path with
    | nil =>
        rw [not_not.mp hpath, ← hroot]
        exact hat
    | cons key path =>
        rw [hroot] at hat
        contradiction
  · have hmerge : appendDoc keyString concat n root o =
        mergeDoc keyString concat n (some root) o := by
      cases root <;> first | contradiction | rfl
    rw [hmerge] at h
    exact mergeDoc_unmentioned h htakes hr hat hpath

/-! ## Nodes -/

variable {Y : YamlCpp} {s : Y.Heap}

/-- The override on its nodes mentions what it mentions as a document. -/
theorem mentions_iff {k : Nat} {o : Y.Node} {d : Doc} (h : (Y.graph s).Denotes k o d)
    (path : List String) : Mentions Y s path o ↔ d.Mentions Y.keyString path := by
  induction path generalizing k o d with
  | nil => exact isDefined_iff h
  | cons key path ih =>
      cases d with
      | map bs =>
          rcases h.map_view with ⟨es, l, _, hview, hes⟩
          have hview' : Y.view s o = .map es := hview
          rw [Mentions, hview', Doc.Mentions]
          constructor
          · rintro ⟨e, he, hkey, hpath⟩
            rcases Graph.forall₂_exists_right hes e he with ⟨b, hb, heq, hd⟩
            rw [heq] at hkey
            exact ⟨b, hb, hkey, (ih hd).mp hpath⟩
          · rintro ⟨b, hb, hkey, hpath⟩
            rcases Graph.forall₂_exists_left hes b hb with ⟨e, he, heq, hd⟩
            rw [← heq] at hkey
            exact ⟨e, he, hkey, (ih hd).mpr hpath⟩
      | undefined =>
          have hview : Y.view s o = .undefined := h.undefined_iff.mpr rfl
          rw [Mentions, hview, Doc.Mentions]
      | _ =>
          have hmentions : Mentions Y s (key :: path) o := by
            cases k with
            | zero => exact h.elim
            | succ k =>
                unfold Graph.Denotes at h
                have hview : Y.view s o = (Y.graph s).view o := rfl
                rw [Mentions, hview]
                cases hv : (Y.graph s).view o with
                | undefined =>
                    rw [hv] at h
                    exact h.elim
                | map es =>
                    rw [hv] at h
                    exact h.elim
                | _ => trivial
          exact ⟨fun _ => trivial, fun _ => hmentions⟩

/-- A merge to a larger depth that ends. -/
theorem mergeEntries_mono {merge merge' : Y.Heap → Option Y.Node → Y.Node → Outcome Y}
    (hmerge : ∀ u b v, merge u b v ≠ .tooDeep → merge' u b v = merge u b v) {n : Y.Node}
    {os : List (Key × Y.Node)} (hend : mergeEntries Y merge n s os ≠ .tooDeep) :
    mergeEntries Y merge' n s os = mergeEntries Y merge n s os := by
  induction os generalizing s with
  | nil => rfl
  | cons e os ih =>
      rcases e with ⟨k, v⟩
      rw [mergeEntries] at hend ⊢
      rw [mergeEntries]
      by_cases hdef : isDefined Y s v = true
      · rw [if_pos hdef] at hend
        rw [if_pos hdef, if_pos hdef]
        cases hk : Y.keyString k with
        | none => rfl
        | some key =>
            rw [hk] at hend
            dsimp only at hend ⊢
            have hsame : merge' s (Y.get s n key) v = merge s (Y.get s n key) v := by
              apply hmerge
              intro hdeep
              rw [hdeep] at hend
              exact hend rfl
            rw [hsame]
            cases hrun : merge s (Y.get s n key) v with
            | returned u rhs =>
                rw [hrun] at hend
                dsimp only at hend ⊢
                rcases hput : assignKey Y u n key rhs with ⟨u', ok⟩
                rw [hput] at hend
                cases ok with
                | true => exact ih hend
                | false => rfl
            | threw u => rfl
            | tooDeep => rfl
      · rw [if_neg hdef] at hend
        rw [if_neg hdef, if_neg hdef]
        exact ih hend

/-- The depth of a merge is only a bound. -/
theorem mergeNodes_mono {k j : Nat} (hjk : k ≤ j) {b : Option Y.Node} {v : Y.Node}
    (hend : mergeNodes Y concat k s b v ≠ .tooDeep) :
    mergeNodes Y concat j s b v = mergeNodes Y concat k s b v := by
  induction k generalizing j s b v with
  | zero => exact absurd rfl hend
  | succ k ih =>
      cases j with
      | zero => omega
      | succ j =>
          unfold mergeNodes at hend ⊢
          split at hend
          · rename_i hv
            rw [if_pos hv, if_pos hv]
            cases b with
            | none => rfl
            | some b =>
                dsimp only at hend ⊢
                split at hend
                · rename_i hb
                  rw [if_pos hb, if_pos hb]
                  split at hend
                  · apply mergeEntries_mono _ hend
                    exact fun u b v h => ih (Nat.le_of_succ_le_succ hjk) h
                  · rfl
                  · rfl
                · rename_i hb
                  rw [if_neg hb, if_neg hb]
          · rename_i hv
            rw [if_neg hv, if_neg hv]

/-- An `Append` to a larger depth that ends. -/
theorem appendNode_mono {st st' : State Y} {heap : Y.Heap} {o : Y.Node} {k j : Nat}
    {override : Bool} (hjk : k ≤ j) (h : appendNode Y k st heap o override = .returned st') :
    appendNode Y j st heap o override = .returned st' := by
  unfold appendNode at h ⊢
  by_cases hdef : isDefined Y st.heap st.rootNode = true
  · by_cases hodef : isDefined Y heap o = true
    · rw [if_pos hdef, if_pos hodef] at h ⊢
      have hend : mergeNodes Y (!override) k heap (some st.rootNode) o ≠ .tooDeep := by
        intro hdeep
        rw [hdeep] at h
        contradiction
      rw [mergeNodes_mono hjk hend]
      exact h
    · rw [if_pos hdef, if_neg hodef] at h ⊢
      exact h
  · rw [if_neg hdef] at h ⊢
    exact h

/-! ## `Append` -/

/-- Neither the root nor the node that is appended has an alias below it. -/
def Unaliased (Y : YamlCpp) (s : Y.Heap) (b o : Y.Node) : Prop :=
  ∃ k d dov, Tree Y s k b d ∧ Tree Y s k o dov

/-- Without aliases, `Append` keeps every document at a path that is not mentioned. -/
theorem append_unaliased (hY : Y.Documented) {st st' : State Y} {heap : Y.Heap} {o : Y.Node}
    {k : Nat} {override : Bool} (hroot : Y.alive st.heap st.rootNode)
    (hread : ReadsNew Y st.heap heap o)
    (hrun : appendNode Y k st heap o override = .returned st')
    (htrees : Unaliased Y heap st.rootNode o) {path : List String} {d : Doc}
    (hpath : ¬ Mentions Y heap path o) (hd : Gives Y st path d) : Gives Y st' path d := by
  rcases htrees with ⟨j, root, dov, htree, hover⟩
  have hle := Nat.le_max_left j k
  have htree := htree.mono hle
  have hover := hover.mono hle
  have hrun := appendNode_mono (Nat.le_max_right j k) hrun
  have hdisj : ((Y.graph heap).refs (max j k) st.rootNode ++
      (Y.graph heap).refs (max j k) o).Nodup := by
    rw [List.nodup_append']
    constructor
    · exact htree.unshared
    · constructor
      · exact hover.unshared
      · intro r hr hr'
        rcases List.mem_map.mp hr with ⟨c, hc, rfl⟩
        rcases List.mem_map.mp hr' with ⟨c', hc', heq⟩
        apply hread.fresh _ c' hc'
        rw [heq]
        exact hread.used hY (hread.cells_alive hY hroot _ c hc)
  have hdef : isDefined Y st.heap st.rootNode = true ↔ root ≠ .undefined := by
    rw [isDefined, ← hread.view_eq hY hroot]
    exact isDefined_iff htree.denotes
  rcases appendNode_refines hY hdef htree hover hdisj override with ⟨e, he, hend⟩
  rcases hend with ⟨st'', r, hrun', htakes, hr, htree'⟩ | ⟨st'', r, hrun', _⟩
  · rw [hrun, Ended.returned.injEq] at hrun'
    subst hrun'
    rw [mentions_iff hover.denotes] at hpath
    rw [← hread.toReads.gives_iff hY hroot] at hd
    have hat := (gives_iff hY (s := { st with heap := heap }) htree.denotes path d).mp hd
    exact (gives_iff hY htree'.denotes path d).mpr (appendDoc_unmentioned he htakes hr hat hpath)
  · rw [hrun] at hrun'
    contradiction

end Conf
end Utils
end DtCore

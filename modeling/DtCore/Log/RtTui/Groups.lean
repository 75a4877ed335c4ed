import DtCore.Log.RtTui.Rows

/-!
# Group headers

`SetGroup` writes the label and the columns of a header, `SetGroupNoHeader` clears them
and hides the header.  `RenderArea1` and `CalcArea1Height` skip the groups that are not
active and draw a header only where it is not hidden.

Main definitions:

- `HeaderUse`, `TuiGroupHeader.use`: what the two functions take from a header.
- `Op.groupCall`: the definition of a group that a call makes.

Main results:

- Theorem `groupHeaders_ops`: a header is what the calls for its group made of it.
- Theorem `last_group_wins_iff`: when the last of these calls alone decides.
-/

namespace DtCore
namespace Log
namespace RtTui

/-! ## What is used of a header -/

/-- What `RenderArea1` and `CalcArea1Height` take from the header of a group: nothing
unless the group is active, and its label and its columns unless it is hidden. -/
inductive HeaderUse where
  | inactive
  | hidden
  | drawn (label : Bytes) (cols : List Bytes)
deriving DecidableEq

def TuiGroupHeader.use (gh : TuiGroupHeader) : HeaderUse :=
  if gh.active then
    if gh.hideHeader then .hidden else .drawn gh.label ((List.range gh.ncols).map gh.cols)
  else .inactive

/-! ## The calls for one group -/

/-- A definition of a group. -/
inductive GroupCall where
  | setGroup (labelHdr : Bytes) (colHdrs : List (Option Bytes))
  | setGroupNoHeader
deriving DecidableEq

/-- What `SetGroup` and `SetGroupNoHeader` do to the header of their group. -/
def TuiGroupHeader.define (gh : TuiGroupHeader) : GroupCall → TuiGroupHeader
  | .setGroup labelHdr colHdrs =>
      let ncols := min colHdrs.length tuiMaxCols
      { gh with
        label := truncateTo tuiDataColLen labelHdr
        cols := fun i =>
          if i < ncols then truncateTo tuiDataColLen ((colHdrs.getD i none).getD [])
          else gh.cols i
        ncols := ncols
        active := true }
  | .setGroupNoHeader => { gh with label := [], ncols := 0, hideHeader := true, active := true }

/-- Do the indices of a call name group `g` of layout `l`? -/
def isGroup (l g : Nat) (layoutIdx groupIdx : Int) : Bool :=
  validIndex layoutIdx maxLayouts && validIndex groupIdx tuiMaxGroups &&
    (layoutIdx.toNat == l && groupIdx.toNat == g)

/-- The definition of group `g` of layout `l` that a call makes. -/
def Op.groupCall (l g : Nat) : Op → Option GroupCall
  | .setGroup layoutIdx groupIdx labelHdr colHdrs =>
      if isGroup l g layoutIdx groupIdx then some (.setGroup labelHdr colHdrs) else none
  | .setGroupNoHeader layoutIdx groupIdx =>
      if isGroup l g layoutIdx groupIdx then some .setGroupNoHeader else none
  | _ => none

/-- The definitions of a group in a run. -/
def groupCalls (l g : Nat) (os : List Op) : List GroupCall :=
  os.filterMap (Op.groupCall l g)

/-- A header after some definitions of its group. -/
def headerAfter (calls : List GroupCall) : TuiGroupHeader :=
  calls.foldl TuiGroupHeader.define TuiGroupHeader.initial

/-! ## A header in a run -/

theorem groupHeaders_updateLayout (i l : Nat) (f : TuiLayoutData → TuiLayoutData) (s : State)
    (hf : ∀ layout, (f layout).groupHeaders = layout.groupHeaders) :
    ((s.updateLayout i f).layouts l).groupHeaders = (s.layouts l).groupHeaders := by
  rw [layouts_updateLayout]
  split
  · exact hf _
  · rfl

/-- Both calls change the header of their own group only. -/
theorem groupHeaders_updateHeader (layoutIdx groupIdx : Int) (l g : Nat) (c : GroupCall)
    (s : State) :
    ((if validIndex layoutIdx maxLayouts && validIndex groupIdx tuiMaxGroups then
        s.updateLayout layoutIdx.toNat
          (TuiLayoutData.updateHeader groupIdx.toNat (fun gh => gh.define c))
      else s).layouts l).groupHeaders g =
      ((if isGroup l g layoutIdx groupIdx then some c else none).toList).foldl
        TuiGroupHeader.define ((s.layouts l).groupHeaders g) := by
  unfold isGroup
  generalize (validIndex layoutIdx maxLayouts && validIndex groupIdx tuiMaxGroups) = valid
  cases valid with
  | false => rfl
  | true =>
      rw [if_pos rfl, layouts_updateLayout]
      by_cases hl : l = layoutIdx.toNat
      · by_cases hg : g = groupIdx.toNat
        · simp [hl, hg, TuiLayoutData.updateHeader]
        · simp [hl, hg, Ne.symm hg, TuiLayoutData.updateHeader]
      · simp [hl, Ne.symm hl]

/-- A call does to a header what its definition of the group says. -/
theorem groupHeaders_op (l g : Nat) (s : State) (o : Op) :
    ((s.op o).layouts l).groupHeaders g =
      (o.groupCall l g).toList.foldl TuiGroupHeader.define ((s.layouts l).groupHeaders g) := by
  cases o with
  | setLayoutName layoutIdx name =>
      show ((s.setLayoutName layoutIdx name).layouts l).groupHeaders g = _
      unfold State.setLayoutName
      split
      · rfl
      · split
        · rw [groupHeaders_updateLayout]
          · rfl
          · exact fun _ => rfl
        · rfl
  | setGroup layoutIdx groupIdx labelHdr colHdrs =>
      exact groupHeaders_updateHeader layoutIdx groupIdx l g (.setGroup labelHdr colHdrs) s
  | setGroupNoHeader layoutIdx groupIdx =>
      exact groupHeaders_updateHeader layoutIdx groupIdx l g .setGroupNoHeader s
  | setRowCols layoutIdx groupIdx rowIdx label values =>
      show ((s.updateRow layoutIdx groupIdx rowIdx _).layouts l).groupHeaders g = _
      unfold State.updateRow
      split
      · rw [groupHeaders_updateLayout]
        · rfl
        · exact fun _ => rfl
      · rfl
  | setTextRow layoutIdx groupIdx rowIdx label text =>
      show ((s.updateRow layoutIdx groupIdx rowIdx _).layouts l).groupHeaders g = _
      unfold State.updateRow
      split
      · rw [groupHeaders_updateLayout]
        · rfl
        · exact fun _ => rfl
      · rfl
  | logV level text =>
      show ((s.logV level text).layouts l).groupHeaders g = _
      unfold State.logV State.tryPush
      split
      · rfl
      · rfl
  | popPendingKey => rfl
  | tick i =>
      show ((s.tick i).layouts l).groupHeaders g = _
      unfold State.tick
      split
      · have hswap : ∀ layout : TuiLayoutData,
            layout.swapArea1.groupHeaders = layout.groupHeaders :=
          fun layout => (swapArea1_seen layout).2.1
        rw [State.swapArea1, groupHeaders_updateLayout _ l _ _ hswap, layouts_beforeRender]
        rfl
      · rfl
  | stop => rfl

/-- A header is what the definitions of its group made of it. -/
theorem groupHeaders_ops (l g : Nat) (os : List Op) :
    ((State.init.ops os).layouts l).groupHeaders g = headerAfter (groupCalls l g os) := by
  induction os using List.reverseRecOn with
  | nil => rfl
  | append_singleton os o ih =>
      have hstate : State.init.ops (os ++ [o]) = (State.init.ops os).op o := List.foldl_concat ..
      have hcalls : groupCalls l g (os ++ [o]) = groupCalls l g os ++ (o.groupCall l g).toList := by
        unfold groupCalls
        rw [List.filterMap_append]
        cases hcall : o.groupCall l g <;> simp [hcall]
      rw [hstate, groupHeaders_op, ih, hcalls, headerAfter, headerAfter, List.foldl_append]

/-! ## The last definition -/

theorem headerAfter_concat (calls : List GroupCall) (c : GroupCall) :
    headerAfter (calls ++ [c]) = (headerAfter calls).define c :=
  List.foldl_concat ..

/-- A header stays hidden once it was. -/
theorem hideHeader_headerAfter (calls : List GroupCall) :
    (headerAfter calls).hideHeader = true ↔ GroupCall.setGroupNoHeader ∈ calls := by
  induction calls using List.reverseRecOn with
  | nil => simp [headerAfter, TuiGroupHeader.initial]
  | append_singleton calls c ih =>
      rw [headerAfter_concat]
      cases c with
      | setGroup labelHdr colHdrs =>
          show (headerAfter calls).hideHeader = true ↔ _
          rw [ih]
          simp
      | setGroupNoHeader => simp [TuiGroupHeader.define]

/-- What `SetGroup` leaves for the renderers; the columns are all its own. -/
theorem use_setGroup (gh : TuiGroupHeader) (labelHdr : Bytes) (colHdrs : List (Option Bytes)) :
    (gh.define (.setGroup labelHdr colHdrs)).use =
      if gh.hideHeader then .hidden
      else .drawn (truncateTo tuiDataColLen labelHdr)
        ((List.range (min colHdrs.length tuiMaxCols)).map
          (fun i => truncateTo tuiDataColLen ((colHdrs.getD i none).getD []))) := by
  have hcols : ∀ i ∈ List.range (min colHdrs.length tuiMaxCols),
      (gh.define (.setGroup labelHdr colHdrs)).cols i =
        truncateTo tuiDataColLen ((colHdrs.getD i none).getD []) := by
    intro i hi
    exact if_pos (List.mem_range.mp hi)
  unfold TuiGroupHeader.use
  rw [← List.map_congr_left hcols]
  rfl

/-- For every run and every group: what `RenderArea1` and `CalcArea1Height` use of the
header is what the last definition of the group alone would leave, exactly when that
definition is no `SetGroup` behind a `SetGroupNoHeader`. -/
theorem last_group_wins_iff (os : List Op) (l g : Nat) :
    (((State.init.ops os).layouts l).groupHeaders g).use =
        (headerAfter (groupCalls l g os).getLast?.toList).use ↔
      ∀ labelHdr colHdrs, (groupCalls l g os).getLast? = some (.setGroup labelHdr colHdrs) →
        GroupCall.setGroupNoHeader ∉ groupCalls l g os := by
  rw [groupHeaders_ops]
  generalize groupCalls l g os = calls
  induction calls using List.reverseRecOn with
  | nil => simp
  | append_singleton calls c _ =>
      have hhidden := hideHeader_headerAfter calls
      have hlast : headerAfter (some c).toList = TuiGroupHeader.initial.define c := rfl
      rw [List.getLast?_concat, headerAfter_concat, hlast]
      cases c with
      | setGroup labelHdr colHdrs =>
          rw [use_setGroup, use_setGroup]
          by_cases hmem : GroupCall.setGroupNoHeader ∈ calls
          · simp [hhidden.mpr hmem, hmem, TuiGroupHeader.initial]
          · have hshown : (headerAfter calls).hideHeader = false := by
              rw [← Bool.not_eq_true, hhidden]
              exact hmem
            simp [hshown, hmem, TuiGroupHeader.initial]
      | setGroupNoHeader => simp [TuiGroupHeader.use, TuiGroupHeader.define]

/-- A group that is given a header after it had none. -/
def headerLater : List Op :=
  [.setGroupNoHeader 0 0, .setGroup 0 0 [74] [some [112]]]

/-- The header given later is never drawn. -/
theorem later_header_hidden :
    ¬ ∀ (os : List Op) (l g : Nat),
      (((State.init.ops os).layouts l).groupHeaders g).use =
        (headerAfter (groupCalls l g os).getLast?.toList).use := by
  intro h
  have hlast := h headerLater 0 0
  have hhidden : (((State.init.ops headerLater).layouts 0).groupHeaders 0).use = .hidden := by
    decide
  have hdrawn : (headerAfter (groupCalls 0 0 headerLater).getLast?.toList).use =
      .drawn [74] [[112]] := by
    decide
  rw [hhidden, hdrawn] at hlast
  contradiction

end RtTui
end Log
end DtCore

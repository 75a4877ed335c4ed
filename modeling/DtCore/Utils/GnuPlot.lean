import DtCore.Foundation.CString
import DtCore.Foundation.Formatting

/-!
# The plot command of GnuPlot

The members `Point`, `Line`, `LinePoint` and `Dash` put the plot command together in an array
of 4096 bytes, one `snprintf` behind the other, and `Draw` sends it.  The members that take
data or columns only call the members with a file name, which are the ones here; those for
three dimensions have a `3` in their names.

The array and the position in it hold anything before the first plot.  The position is an
integer: a sum that an `int` does not hold is outside of the array in any case.  The field
`positions` records the position in front of every `snprintf`, and nothing reads it; the
first one of a command is called without it, at the start of the array.

Main definitions:

- `State.print`: `snprintf` at the position.
- `Call.run`, `run`: a call, and the calls on an object.
- `InsideOn`: the position is inside the array in front of every `snprintf`.
- `Call.texts`, `Fits`: the texts of a call, and the bound on their lengths.

Main results:

- Theorem `run_positions`: the positions of a run are sums of lengths.
- Theorem `inside_iff`: the calls that stay inside the array.
- Theorem `fits_iff_length`: the bound in terms of lengths.
-/

namespace DtCore
namespace Utils
namespace GnuPlot

open Foundation

abbrev Text := List UInt8

/-- The text of a string literal. -/
def ascii (text : String) : Text :=
  text.toList.map (fun c => c.toNat.toUInt8)

/-- `%d`. -/
def decimal (i : Int) : Text :=
  (if i < 0 then ['-'.toUInt8] else []) ++ numeral 10 i.natAbs

/-! ## The object -/

/-- `sizeof(m_strCmd)`. -/
def strCmdLen : Nat := 4096

/-- The members that the plots and `Draw` use, and what has been sent to gnuplot. -/
structure State where
  firstPlot : Bool
  strCmd : Block UInt8 strCmdLen
  strCmdPos : Int
  pipe : List Text
  positions : List Int

/-- An `int` as an argument of type `size_t`. -/
def sizeT (i : Int) : Nat :=
  (i % 2 ^ 64).toNat

/-- `m_strCmdPos += snprintf(m_strCmd + m_strCmdPos, 4096 - m_strCmdPos, …)`. -/
def State.print (text : Text) (s : State) : Option State :=
  if s.strCmdPos < 0 then none
  else
    (s.strCmd.printIn s.strCmdPos.toNat (sizeT (4096 - s.strCmdPos)) text).map
      (fun strCmd =>
        { s with
          strCmd := strCmd
          strCmdPos := s.strCmdPos + Block.printed text
          positions := s.positions ++ [s.strCmdPos] })

/-- Some texts, one after the other. -/
def State.printAll : List Text → State → Option State
  | [], s => some s
  | text :: texts, s => (s.print text).bind (State.printAll texts)

/-- The start of a command when this is the first plot, and a separator otherwise. -/
def State.start (verb data : Text) (s : State) : Option State :=
  if !s.firstPlot then
    ((Block.fill 0 : Block UInt8 strCmdLen).printIn 0 strCmdLen (verb ++ data)).map
      (fun strCmd =>
        { s with
          firstPlot := true
          strCmd := strCmd
          strCmdPos := Block.printed (verb ++ data)
          positions := s.positions ++ [0] })
  else s.print (ascii ", " ++ data)

/-! ## The texts of the options -/

/-- `'%s' using %d:%d with …`, with a further column in three dimensions. -/
def dataText (filePath : Text) (columns : List Int) (style : String) : Text :=
  ascii "'" ++ filePath ++ ascii "' using " ++
    (ascii ":").intercalate (columns.map decimal) ++ ascii " with " ++ ascii style

/-- An option with a string, unless it is null. -/
def stringOption (name : String) (arg : Option Text) : List Text :=
  match arg with
  | some arg => [ascii name ++ ascii " \"" ++ arg ++ ascii "\""]
  | none => []

/-- An option with a number, when it is given. -/
def numberOption (name : String) (given : Bool) (arg : Int) : List Text :=
  if given then [ascii name ++ ascii " " ++ decimal arg] else []

def colorOption (colorName : Option Text) : List Text :=
  stringOption " lc rgb" colorName

def titleOption (title : Option Text) : List Text :=
  stringOption " title" title

def lineWidthOption (lineWidth : Int) : List Text :=
  numberOption " lw" (0 < lineWidth) lineWidth

def pointSzOption (pointSz : Int) : List Text :=
  numberOption " ps" (0 < pointSz) pointSz

def pointIntervalOption (pointInterval : Int) : List Text :=
  numberOption " pi" (pointInterval ≠ 0) pointInterval

def patternOption (pattern : Option Text) : List Text :=
  stringOption " dt" pattern

/-- A point type by its number, from some number on, or by a character. -/
def pointTypeOption (least : Int) (pointType : Int8) : List Text :=
  if least ≤ pointType.toInt ∧ pointType.toInt < 16 then
    [ascii " pt " ++ decimal pointType.toInt]
  else [ascii " pt \"" ++ [pointType.toUInt8] ++ ascii "\""]

/-! ## The members -/

/-- What a member prints: the first text without and with a command in front of it, and the
options. -/
structure Command where
  verb : Text
  data : Text
  options : List Text

section Members

variable (filePath : Text) (idxX idxY idxZ : Int) (title colorName : Option Text)

/-- `Point`; here the point type may be zero. -/
def point (pointType : Int8) (pointSz : Int) : Command where
  verb := ascii "plot "
  data := dataText filePath [idxX, idxY] "points"
  options := colorOption colorName ++ pointTypeOption 0 pointType ++ pointSzOption pointSz ++
    titleOption title

/-- `Line`. -/
def line (lineWidth : Int) : Command where
  verb := ascii "plot "
  data := dataText filePath [idxX, idxY] "lines"
  options := colorOption colorName ++ lineWidthOption lineWidth ++ titleOption title

/-- `LinePoint`. -/
def linePoint (lineWidth : Int) (pointType : Int8) (pointSz pointInterval : Int) : Command where
  verb := ascii "plot "
  data := dataText filePath [idxX, idxY] "linespoints"
  options := colorOption colorName ++ lineWidthOption lineWidth ++ pointTypeOption 1 pointType ++
    pointSzOption pointSz ++ pointIntervalOption pointInterval ++ titleOption title

/-- `Dash`. -/
def dash (pattern : Option Text) (lineWidth : Int) : Command where
  verb := ascii "plot "
  data := dataText filePath [idxX, idxY] "lines"
  options := colorOption colorName ++ lineWidthOption lineWidth ++ patternOption pattern ++
    titleOption title

/-- `Point` in three dimensions. -/
def point3 (pointType : Int8) (pointSz : Int) : Command where
  verb := ascii "splot "
  data := dataText filePath [idxX, idxY, idxZ] "points"
  options := colorOption colorName ++ pointTypeOption 1 pointType ++ pointSzOption pointSz ++
    titleOption title

/-- `Line` in three dimensions. -/
def line3 (lineWidth : Int) : Command where
  verb := ascii "splot "
  data := dataText filePath [idxX, idxY, idxZ] "lines"
  options := colorOption colorName ++ lineWidthOption lineWidth ++ titleOption title

/-- `LinePoint` in three dimensions. -/
def linePoint3 (lineWidth : Int) (pointType : Int8) (pointSz pointInterval : Int) :
    Command where
  verb := ascii "splot "
  data := dataText filePath [idxX, idxY, idxZ] "linespoints"
  options := colorOption colorName ++ lineWidthOption lineWidth ++ pointTypeOption 1 pointType ++
    pointSzOption pointSz ++ pointIntervalOption pointInterval ++ titleOption title

/-- `Dash` in three dimensions. -/
def dash3 (lineWidth : Int) (pattern : Option Text) : Command where
  verb := ascii "splot "
  data := dataText filePath [idxX, idxY, idxZ] "lines"
  options := colorOption colorName ++ lineWidthOption lineWidth ++ patternOption pattern ++
    titleOption title

end Members

/-- A call of one of the members with a file name, or of `Draw`. -/
inductive Call
  | point (filePath : Text) (idxX idxY : Int) (title colorName : Option Text)
      (pointType : Int8) (pointSz : Int)
  | line (filePath : Text) (idxX idxY : Int) (title colorName : Option Text) (lineWidth : Int)
  | linePoint (filePath : Text) (idxX idxY : Int) (title colorName : Option Text)
      (lineWidth : Int) (pointType : Int8) (pointSz pointInterval : Int)
  | dash (filePath : Text) (idxX idxY : Int) (title pattern colorName : Option Text)
      (lineWidth : Int)
  | point3 (filePath : Text) (idxX idxY idxZ : Int) (title colorName : Option Text)
      (pointType : Int8) (pointSz : Int)
  | line3 (filePath : Text) (idxX idxY idxZ : Int) (title colorName : Option Text)
      (lineWidth : Int)
  | linePoint3 (filePath : Text) (idxX idxY idxZ : Int) (title colorName : Option Text)
      (lineWidth : Int) (pointType : Int8) (pointSz pointInterval : Int)
  | dash3 (filePath : Text) (idxX idxY idxZ : Int) (title colorName : Option Text)
      (lineWidth : Int) (pattern : Option Text)
  | draw

/-- What a call prints into the command. -/
def Call.command : Call → Option Command
  | .point f x y t c pt ps => some (GnuPlot.point f x y t c pt ps)
  | .line f x y t c lw => some (GnuPlot.line f x y t c lw)
  | .linePoint f x y t c lw pt ps pi => some (GnuPlot.linePoint f x y t c lw pt ps pi)
  | .dash f x y t dt c lw => some (GnuPlot.dash f x y t c dt lw)
  | .point3 f x y z t c pt ps => some (GnuPlot.point3 f x y z t c pt ps)
  | .line3 f x y z t c lw => some (GnuPlot.line3 f x y z t c lw)
  | .linePoint3 f x y z t c lw pt ps pi => some (GnuPlot.linePoint3 f x y z t c lw pt ps pi)
  | .dash3 f x y z t c lw dt => some (GnuPlot.dash3 f x y z t c lw dt)
  | .draw => none

/-- A member with a file name. -/
def State.plot (c : Command) (s : State) : Option State :=
  (s.start c.verb c.data).bind (State.printAll c.options)

/-- `Draw`. -/
def State.draw (s : State) : State :=
  let script := if s.strCmd.cells.head? ≠ some 0 then
      [s.strCmd.cells.takeWhile (fun b => b ≠ 0), ascii "\n"]
    else []
  { s with pipe := s.pipe ++ [ascii "clear\n"] ++ script }

def State.call (c : Call) (s : State) : Option State :=
  match c.command with
  | some command => s.plot command
  | none => some s.draw

/-- Some calls, one after the other. -/
def run : List Call → State → Option State
  | [], s => some s
  | c :: cs, s => (s.call c).bind (run cs)

/-- An object of which nothing has been plotted. -/
structure State.Fresh (s : State) : Prop where
  firstPlot : s.firstPlot = false
  positions : s.positions = []

/-- A position at which the size argument is positive. -/
def InArray (pos : Int) : Prop :=
  0 ≤ pos ∧ pos ≤ 4095

/-- Every `snprintf` stays inside the array, and is called at a position inside of it. -/
def Inside (cs : List Call) (s : State) : Prop :=
  ∃ s', run cs s = some s' ∧ ∀ pos ∈ s'.positions, InArray pos

/-! ## What is printed -/

def Command.texts (firstPlot : Bool) (c : Command) : List Text :=
  (if firstPlot then ascii ", " ++ c.data else c.verb ++ c.data) :: c.options

/-- The texts of some calls; the flag says whether something has been plotted before. -/
def texts : Bool → List Call → List Text
  | _, [] => []
  | firstPlot, c :: cs =>
      match c.command with
      | some command => command.texts firstPlot ++ texts true cs
      | none => texts firstPlot cs

/-- The results of `snprintf` for some texts, added up. -/
def total (ts : List Text) : Int :=
  (ts.map Block.printed).sum

/-- The texts in front of each text leave room in the array. -/
def Fits (ts : List Text) : Prop :=
  ∀ front text rest, ts = front ++ text :: rest → InArray (total front)

/-! ## The positions of a run -/

/-- The positions at which some texts are printed. -/
def offsets : Int → List Text → List Int
  | _, [] => []
  | pos, t :: ts => pos :: offsets (pos + Block.printed t) ts

theorem mem_offsets {pos q : Int} {ts : List Text} :
    q ∈ offsets pos ts ↔ ∃ front text rest, ts = front ++ text :: rest ∧ q = pos + total front := by
  induction ts generalizing pos with
  | nil => simp [offsets]
  | cons t ts ih =>
      unfold offsets
      rw [List.mem_cons, ih]
      constructor
      · rintro (rfl | ⟨front, text, rest, rfl, rfl⟩)
        · exact ⟨[], t, ts, rfl, (Int.add_zero _).symm⟩
        · refine ⟨t :: front, text, rest, rfl, ?_⟩
          simp [total, Int.add_assoc]
      · rintro ⟨front, text, rest, heq, rfl⟩
        cases front with
        | nil => exact .inl (Int.add_zero _)
        | cons t' front =>
            cases heq
            refine .inr ⟨front, text, rest, rfl, ?_⟩
            simp [total, Int.add_assoc]

theorem total_append (ts us : List Text) : total (ts ++ us) = total ts + total us := by
  unfold total
  rw [List.map_append, List.sum_append]

theorem offsets_append (pos : Int) (ts us : List Text) :
    offsets pos (ts ++ us) = offsets pos ts ++ offsets (pos + total ts) us := by
  induction ts generalizing pos with
  | nil => simp [offsets, total]
  | cons t ts ih =>
      have hsum : pos + Block.printed t + total ts = pos + total (t :: ts) := by
        simp [total, Int.add_assoc]
      show pos :: offsets (pos + Block.printed t) (ts ++ us) =
        pos :: (offsets (pos + Block.printed t) ts ++ offsets (pos + total (t :: ts)) us)
      rw [ih, hsum]

/-- What printing some texts from a position on does to the object. -/
structure Advances (pos : Int) (ts : List Text) (s s' : State) : Prop where
  strCmdPos : s'.strCmdPos = pos + total ts
  positions : s'.positions = s.positions ++ offsets pos ts

theorem Advances.trans {pos : Int} {ts us : List Text} {s s' s'' : State}
    (h : Advances pos ts s s') (h' : Advances s'.strCmdPos us s' s'') :
    Advances pos (ts ++ us) s s'' where
  strCmdPos := by rw [h'.strCmdPos, h.strCmdPos, total_append, Int.add_assoc]
  positions := by
    rw [h'.positions, h.positions, h.strCmdPos, offsets_append, List.append_assoc]

variable {s s' : State}

/-- One `snprintf`. -/
theorem print_advances {t : Text} (h : s.print t = some s') :
    Advances s.strCmdPos [t] s s' ∧ s'.firstPlot = s.firstPlot := by
  unfold State.print at h
  split at h
  · cases h
  · rw [Option.map_eq_some_iff] at h
    rcases h with ⟨strCmd, -, rfl⟩
    refine ⟨⟨?_, rfl⟩, rfl⟩
    simp [total]

theorem print_isSome (h : InArray s.strCmdPos) (t : Text) : ∃ s', s.print t = some s' := by
  have hpos : ¬ s.strCmdPos < 0 := Int.not_lt.mpr h.1
  have hsize : s.strCmdPos.toNat + sizeT (4096 - s.strCmdPos) ≤ strCmdLen := by
    have hlow := h.1
    have hhigh := h.2
    unfold sizeT strCmdLen
    omega
  rcases Block.printIn_isSome s.strCmd hsize t with ⟨strCmd, hprint⟩
  unfold State.print
  rw [if_neg hpos, hprint]
  exact ⟨_, rfl⟩

theorem printAll_advances {ts : List Text} (h : s.printAll ts = some s') :
    Advances s.strCmdPos ts s s' ∧ s'.firstPlot = s.firstPlot := by
  induction ts generalizing s with
  | nil =>
      cases h
      exact ⟨⟨(Int.add_zero _).symm, (List.append_nil _).symm⟩, rfl⟩
  | cons t ts ih =>
      unfold State.printAll at h
      rw [Option.bind_eq_some_iff] at h
      rcases h with ⟨s₁, hfirst, hrest⟩
      rcases print_advances hfirst with ⟨hone, hflag⟩
      rcases ih hrest with ⟨hall, hflags⟩
      exact ⟨hone.trans hall, hflags.trans hflag⟩

theorem printAll_isSome {ts : List Text} (h : ∀ q ∈ offsets s.strCmdPos ts, InArray q) :
    ∃ s', s.printAll ts = some s' := by
  induction ts generalizing s with
  | nil => exact ⟨s, rfl⟩
  | cons t ts ih =>
      unfold offsets at h
      rcases print_isSome (h s.strCmdPos List.mem_cons_self) t with ⟨s₁, hfirst⟩
      have hpos : s₁.strCmdPos = s.strCmdPos + Block.printed t := by
        rw [(print_advances hfirst).1.strCmdPos]
        simp [total]
      rcases ih (s := s₁) (fun q hq => h q (List.mem_cons_of_mem _ (hpos ▸ hq))) with ⟨s₂, hrest⟩
      refine ⟨s₂, ?_⟩
      unfold State.printAll
      rw [hfirst]
      exact hrest

/-- Where the next text goes. -/
def State.position (s : State) : Int :=
  if s.firstPlot then s.strCmdPos else 0

theorem plot_advances {c : Command} (h : s.plot c = some s') :
    Advances s.position (c.texts s.firstPlot) s s' ∧ s'.firstPlot = true := by
  unfold State.plot at h
  rw [Option.bind_eq_some_iff] at h
  rcases h with ⟨s₁, hstart, hoptions⟩
  rcases printAll_advances hoptions with ⟨hall, hflags⟩
  have hfirst : ∃ t, c.texts s.firstPlot = t :: c.options ∧
      Advances s.position [t] s s₁ ∧ s₁.firstPlot = true := by
    unfold State.start at hstart
    unfold State.position
    cases hflag : s.firstPlot with
    | false =>
        rw [hflag, Bool.not_false, if_pos rfl, Option.map_eq_some_iff] at hstart
        rcases hstart with ⟨strCmd, -, rfl⟩
        refine ⟨c.verb ++ c.data, rfl, ⟨?_, rfl⟩, rfl⟩
        simp [total]
    | true =>
        rw [hflag, Bool.not_true, if_neg Bool.false_ne_true] at hstart
        rcases print_advances hstart with ⟨hone, hsame⟩
        exact ⟨ascii ", " ++ c.data, rfl, hone, hsame.trans hflag⟩
  rcases hfirst with ⟨t, htexts, hone, hflag⟩
  rw [htexts]
  exact ⟨hone.trans hall, hflags.trans hflag⟩

theorem plot_isSome {c : Command}
    (h : ∀ q ∈ offsets s.position (c.texts s.firstPlot), InArray q) :
    ∃ s', s.plot c = some s' := by
  have hstart : ∃ s₁, s.start c.verb c.data = some s₁ ∧
      ∀ q ∈ offsets s₁.strCmdPos c.options, InArray q := by
    unfold State.start
    unfold State.position at h
    cases hflag : s.firstPlot with
    | false =>
        rw [hflag, if_neg Bool.false_ne_true] at h
        rcases Block.printIn_isSome (Block.fill 0 : Block UInt8 strCmdLen)
          (Nat.le_of_eq (Nat.zero_add strCmdLen)) (c.verb ++ c.data) with ⟨strCmd, hprint⟩
        rw [Bool.not_false, if_pos rfl, hprint]
        refine ⟨_, rfl, ?_⟩
        intro q hq
        refine h q ?_
        unfold Command.texts offsets
        rw [if_neg Bool.false_ne_true, Int.zero_add]
        exact List.mem_cons_of_mem _ hq
    | true =>
        rw [hflag, if_pos rfl] at h
        unfold Command.texts offsets at h
        rw [if_pos rfl] at h
        rcases print_isSome (h s.strCmdPos List.mem_cons_self) (ascii ", " ++ c.data) with
          ⟨s₁, hfirst⟩
        have hpos : s₁.strCmdPos = s.strCmdPos + Block.printed (ascii ", " ++ c.data) := by
          rw [(print_advances hfirst).1.strCmdPos]
          simp [total]
        rw [Bool.not_true, if_neg Bool.false_ne_true]
        exact ⟨s₁, hfirst, fun q hq => h q (List.mem_cons_of_mem _ (hpos ▸ hq))⟩
  rcases hstart with ⟨s₁, hfirst, hroom⟩
  rcases printAll_isSome hroom with ⟨s₂, hrest⟩
  refine ⟨s₂, ?_⟩
  unfold State.plot
  rw [hfirst]
  exact hrest

/-- The positions of a run are the sums of what was printed before. -/
theorem run_positions {cs : List Call} (h : run cs s = some s') :
    s'.positions = s.positions ++ offsets s.position (texts s.firstPlot cs) := by
  induction cs generalizing s with
  | nil =>
      cases h
      exact (List.append_nil _).symm
  | cons c cs ih =>
      unfold run at h
      rw [Option.bind_eq_some_iff] at h
      rcases h with ⟨s₁, hcall, hrest⟩
      have hmore := ih hrest
      unfold State.call at hcall
      unfold texts
      cases hcommand : c.command with
      | none =>
          rw [hcommand] at hcall
          cases hcall
          exact hmore
      | some command =>
          rw [hcommand] at hcall
          rcases plot_advances hcall with ⟨hplot, hflag⟩
          have hpos : s₁.position = s.position + total (command.texts s.firstPlot) := by
            rw [State.position, if_pos hflag, hplot.strCmdPos]
          rw [hmore, hplot.positions, hpos, hflag, List.append_assoc, ← offsets_append]

/-- A run whose texts fit has a result. -/
theorem run_isSome {cs : List Call}
    (h : ∀ q ∈ offsets s.position (texts s.firstPlot cs), InArray q) :
    ∃ s', run cs s = some s' := by
  induction cs generalizing s with
  | nil => exact ⟨s, rfl⟩
  | cons c cs ih =>
      unfold texts at h
      unfold run State.call
      cases hcommand : c.command with
      | none =>
          rw [hcommand] at h
          exact ih h
      | some command =>
          rw [hcommand] at h
          dsimp only at h
          rw [offsets_append] at h
          rcases plot_isSome (fun q hq => h q (List.mem_append_left _ hq)) with ⟨s₁, hplot⟩
          rcases plot_advances hplot with ⟨hadvances, hflag⟩
          have hpos : s₁.position = s.position + total (command.texts s.firstPlot) := by
            rw [State.position, if_pos hflag, hadvances.strCmdPos]
          have hroom : ∀ q ∈ offsets s₁.position (texts s₁.firstPlot cs), InArray q := by
            rw [hpos, hflag]
            exact fun q hq => h q (List.mem_append_right _ hq)
          rcases ih hroom with ⟨s₂, hrest⟩
          refine ⟨s₂, ?_⟩
          dsimp only
          rw [hplot]
          exact hrest

/-! ## The bound -/

theorem forall_offsets_iff {ts : List Text} :
    (∀ q ∈ offsets 0 ts, InArray q) ↔ Fits ts := by
  constructor
  · intro h front text rest heq
    have hin := h (0 + total front) (mem_offsets.mpr ⟨front, text, rest, heq, rfl⟩)
    rwa [Int.zero_add] at hin
  · intro h q hq
    rcases mem_offsets.mp hq with ⟨front, text, rest, heq, rfl⟩
    rw [Int.zero_add]
    exact h front text rest heq

theorem total_of_short {ts : List Text} (h : ∀ t ∈ ts, t.length < 2 ^ 31) :
    total ts = (ts.map List.length).sum := by
  induction ts with
  | nil => rfl
  | cons t ts ih =>
      have hrest := ih (fun u hu => h u (List.mem_cons_of_mem _ hu))
      have hprinted : Block.printed t = t.length := if_pos (h t List.mem_cons_self)
      show Block.printed t + total ts = _
      rw [hrest, hprinted, List.map_cons, List.sum_cons, Nat.cast_add]

/-- Texts whose lengths an `int` holds fit when all of them but the last do. -/
theorem fits_iff_length {ts : List Text} (h : ∀ t ∈ ts, t.length < 2 ^ 31) :
    Fits ts ↔ (ts.dropLast.map List.length).sum ≤ 4095 := by
  have hfront : ∀ front text rest, ts = front ++ text :: rest →
      total front = (front.map List.length).sum := by
    rintro front text rest rfl
    exact total_of_short (fun t ht => h t (List.mem_append_left _ ht))
  constructor
  · intro hfits
    rcases List.eq_nil_or_concat' ts with rfl | ⟨front, text, rfl⟩
    · exact Nat.zero_le _
    · have hlast := (hfits front text [] rfl).2
      rw [hfront front text [] rfl] at hlast
      rw [List.dropLast_concat]
      exact Int.ofNat_le.mp hlast
  · intro hsum front text rest heq
    rw [hfront front text rest heq]
    refine ⟨Int.natCast_nonneg _, Int.ofNat_le.mpr (Nat.le_trans ?_ hsum)⟩
    rw [heq, List.dropLast_append_of_ne_nil (List.cons_ne_nil _ _), List.map_append,
      List.sum_append]
    exact Nat.le_add_right _ _

/-- On a new object the calls stay inside the array exactly when the texts in front of the
last one fit into it. -/
theorem inside_iff (s : State) (hs : s.Fresh) (cs : List Call) :
    Inside cs s ↔ Fits (texts false cs) := by
  have hoffsets : offsets s.position (texts s.firstPlot cs) = offsets 0 (texts false cs) := by
    rw [State.position, hs.firstPlot, if_neg Bool.false_ne_true]
  rw [← forall_offsets_iff, ← hoffsets]
  constructor
  · rintro ⟨s', hrun, hin⟩ q hq
    refine hin q ?_
    rw [run_positions hrun, hs.positions, List.nil_append]
    exact hq
  · intro hin
    rcases run_isSome hin with ⟨s', hrun⟩
    refine ⟨s', hrun, ?_⟩
    rw [run_positions hrun, hs.positions, List.nil_append]
    exact hin

/-- An object of which nothing has been plotted, with zeros in the array. -/
def State.empty : State where
  firstPlot := false
  strCmd := Block.fill 0
  strCmdPos := 0
  pipe := []
  positions := []

/-- A line and a point with titles. -/
def twoPlots : List Call :=
  [.line (ascii "d.txt") 1 2 (some (ascii "v")) (some (ascii "red")) 2, .draw,
    .point (ascii "d.txt") 1 3 (some (ascii "w")) none (-1) 3, .draw]

theorem inside_iff_twoPlots : State.empty.Fresh ∧ Inside twoPlots State.empty := by
  have hfresh : State.empty.Fresh := ⟨rfl, rfl⟩
  refine ⟨hfresh, (inside_iff State.empty hfresh twoPlots).mpr ?_⟩
  rw [← forall_offsets_iff]
  unfold InArray
  decide

/-- A title of 5000 bytes, and a further plot. -/
def longTitle : List Call :=
  [.line (ascii "d.txt") 1 2 (some (List.replicate 5000 'a'.toUInt8)) none 0,
    .line (ascii "d.txt") 1 3 none none 0]

/-- Behind a long title the position is outside of the array. -/
theorem longTitle_not_inside : State.empty.Fresh ∧ ¬ Inside longTitle State.empty := by
  refine ⟨⟨rfl, rfl⟩, ?_⟩
  rintro ⟨s', hrun, hin⟩
  rw [run_positions hrun] at hin
  let head := ascii "plot " ++ dataText (ascii "d.txt") [1, 2] "lines"
  let title := ascii " title" ++ ascii " \"" ++ List.replicate 5000 'a'.toUInt8 ++ ascii "\""
  have htexts : texts false longTitle =
      [head, title] ++ (ascii ", " ++ dataText (ascii "d.txt") [1, 3] "lines") :: [] :=
    rfl
  have hthird := hin (0 + total [head, title])
    (mem_offsets.mpr ⟨_, _, _, htexts, rfl⟩)
  have hhead : -1 ≤ Block.printed head := by
    unfold Block.printed
    split <;> omega
  have hlength : title.length = 5009 := by
    simp only [title, List.length_append, List.length_replicate]
    rfl
  have htitle : Block.printed title = 5009 := by
    unfold Block.printed
    rw [hlength, if_pos (by norm_num)]
    rfl
  have htotal : total [head, title] = Block.printed head + Block.printed title := by
    simp [total]
  have hhigh := hthird.2
  rw [htotal, htitle] at hhigh
  omega

end GnuPlot
end Utils
end DtCore

import Mathlib.Data.List.Forall2
import Mathlib.Data.List.ReduceOption
import DtCore.Log.RtTui.Layouts
import DtCore.Log.RtTui.Sink

/-!
# The keyboard as a stream

What is typed is a stream of bytes and of control sequences, `ESC [`, parameter bytes
and a final byte.  A `Tick` reads at most 64 bytes of it, wherever that cuts it, and its
key loop takes the third byte of a sequence for its end unless a tilde follows.

A byte of the stream is marked when it belongs to a sequence.  The key loop calls
`HandleKey` at some bytes of a read; where such a call is not for a sequence, it stores
the byte or switches the layout.

Main definitions:

- `KeyItem`: plain bytes and control sequences.
- `keyCalls`: the calls of `HandleKey` in a read, byte by byte.
- `Parsed`: the calls of a read are those for its bytes.
- `Readable`: what the key loop can read in one piece.
- `KeyState`: what `HandleKey` reads and writes.
- `ReadAsStream`: a cut stream is handled as the stream is.

Main results:

- Theorem `handleKeys_eq`: the key loop makes these calls.
- Theorem `whole_or_cut`: a read that is parsed is made of readable items, or ends
  inside a sequence.
- Theorem `keyState_readKeys`: readable reads lead to what the stream leads to.
- Theorem `read_as_stream_iff`: which ways of cutting which streams are handled well.
-/

namespace DtCore
namespace Log
namespace RtTui

/-! ## The stream -/

/-- A byte other than `ESC`, or a complete control sequence. -/
inductive KeyItem where
  | plain (b : UInt8) (hb : b ≠ esc)
  | csi (params : Bytes) (final : UInt8) (hparams : ∀ b ∈ params, 0x20 ≤ b ∧ b ≤ 0x3f)
      (hfinal : 0x40 ≤ final ∧ final ≤ 0x7e)

def KeyItem.bytes : KeyItem → Bytes
  | .plain b _ => [b]
  | .csi params final _ _ => esc :: key '[' :: (params ++ [final])

/-- A byte and whether it belongs to a control sequence. -/
abbrev MarkedByte := UInt8 × Bool

def KeyItem.marked : KeyItem → List MarkedByte
  | .plain b _ => [(b, false)]
  | .csi params final _ _ =>
      (esc, true) :: (key '[', true) :: (params ++ [final]).map (fun b => (b, true))

/-- The marked bytes of some items. -/
def markedBytes (items : List KeyItem) : List MarkedByte :=
  items.flatMap KeyItem.marked

/-- The bytes of a read. -/
def bytesOf (r : List MarkedByte) : Bytes :=
  r.map Prod.fst

/-! ## The calls of `HandleKey` -/

/-- Does `HandleKey` take its argument for a control sequence? -/
def isSequence : Bytes → Bool
  | c :: d :: _ :: _ => c == esc && d == key '['
  | _ => false

/-- The argument of the call of `HandleKey` at each byte of a read, where there is one;
the first bytes may belong to the sequence before. -/
def keyCalls : Nat → Bytes → List (Option Bytes)
  | _, [] => []
  | skip + 1, _ :: rest => none :: keyCalls skip rest
  | 0, c :: rest =>
      if c = esc ∧ rest.length + 1 ≥ 3 ∧ rest.headD 0 = key '[' then
        let seqLen := if rest.length + 1 ≥ 4 ∧ rest.getD 2 0 = key '~' then 4 else 3
        some ((c :: rest).take seqLen) :: keyCalls (seqLen - 1) rest
      else if c = esc then some (c :: rest) :: List.replicate rest.length none
      else some [c] :: keyCalls 0 rest

theorem reduceOption_replicate_none (n : Nat) :
    (List.replicate n (none : Option Bytes)).reduceOption = [] := by
  induction n with
  | zero => rfl
  | succ n ih => exact ih

/-- The key loop makes these calls. -/
theorem handleKeys_eq (skip : Nat) (buf : Bytes) (s : State) :
    s.handleKeys skip buf =
      (keyCalls skip buf).reduceOption.foldl (fun s b => s.handleKey b) s := by
  induction buf generalizing skip s with
  | nil => cases skip <;> rfl
  | cons c rest ih =>
      cases skip with
      | succ skip =>
          rw [State.handleKeys, keyCalls, List.reduceOption_cons_of_none]
          exact ih skip s
      | zero =>
          rw [State.handleKeys, keyCalls]
          split
          · rw [List.reduceOption_cons_of_some]
            exact ih _ _
          · split
            · rw [List.reduceOption_cons_of_some, reduceOption_replicate_none]
              rfl
            · rw [List.reduceOption_cons_of_some]
              exact ih 0 _

/-- A call of `HandleKey` neither stores a key nor switches the layout. -/
def Silent (buf : Bytes) : Prop :=
  ∀ s : State, (s.handleKey buf).lastKey = s.lastKey ∧
    (s.handleKey buf).currentLayout = s.currentLayout

/-- A call of `HandleKey` stores a key. -/
def Stores (buf : Bytes) (b : UInt8) : Prop :=
  ∀ s : State, (s.handleKey buf).lastKey = b

/-- A call for a sequence only scrolls. -/
theorem silent_of_isSequence {buf : Bytes} (h : isSequence buf = true) : Silent buf := by
  intro s
  match buf, h with
  | c :: d :: b2 :: rest, h =>
      simp only [isSequence, Bool.and_eq_true, beq_iff_eq] at h
      have hseq : c = esc ∧ (c :: d :: b2 :: rest).length ≥ 3 ∧
          (d :: b2 :: rest).headD 0 = key '[' :=
        ⟨h.1, by simp, h.2⟩
      unfold State.handleKey
      dsimp only
      rw [if_pos hseq]
      rcases scroll_eq ((d :: b2 :: rest).getD 1 0) (c :: d :: b2 :: rest).length
        ((d :: b2 :: rest).getD 2 0) s with ⟨_, _, hscroll⟩
      rw [hscroll]
      exact ⟨rfl, rfl⟩

/-- Any other call switches the layout by its first byte or stores it. -/
theorem handleKey_of_not_isSequence {c : UInt8} {rest : Bytes}
    (h : isSequence (c :: rest) = false) (s : State) :
    s.handleKey (c :: rest) =
      if c = key '[' then s.showLayout s.previousLayout
      else if c = key ']' then s.showLayout s.nextLayout
      else { s with lastKey := c } := by
  have hseq : ¬ (c = esc ∧ (c :: rest).length ≥ 3 ∧ rest.headD 0 = key '[') := by
    rintro ⟨hc, hlen, hd⟩
    match rest, hlen, hd with
    | d :: b2 :: more, _, hd =>
        have hd' : d = key '[' := hd
        rw [hc, hd'] at h
        contradiction
  unfold State.handleKey
  dsimp only
  rw [if_neg hseq]

/-- So it is not silent: there are states in which it shows. -/
theorem not_silent {c : UInt8} {rest : Bytes} (h : isSequence (c :: rest) = false) :
    ¬ Silent (c :: rest) := by
  intro hsilent
  by_cases hprevious : c = key '['
  · have hlayout := (hsilent { State.init with currentLayout := 1 }).2
    rw [handleKey_of_not_isSequence h, if_pos hprevious] at hlayout
    contradiction
  · by_cases hnext : c = key ']'
    · have hlayout := (hsilent { State.init with currentLayout := 1 }).2
      rw [handleKey_of_not_isSequence h, if_neg hprevious, if_pos hnext] at hlayout
      contradiction
    · have hkey := (hsilent { State.init with lastKey := c + 1 }).1
      rw [handleKey_of_not_isSequence h, if_neg hprevious, if_neg hnext] at hkey
      have hself : c = c + 1 := hkey
      simp at hself

theorem stores_plain {b : UInt8} (hprevious : b ≠ key '[') (hnext : b ≠ key ']') :
    Stores [b] b := by
  intro s
  rw [handleKey_of_not_isSequence rfl, if_neg hprevious, if_neg hnext]

theorem keyCalls_plain {c : UInt8} (h : c ≠ esc) (rest : Bytes) :
    keyCalls 0 (c :: rest) = some [c] :: keyCalls 0 rest := by
  rw [keyCalls, if_neg (fun hseq => h hseq.1), if_neg h]

/-- A sequence of four bytes. -/
theorem keyCalls_tilde (x : UInt8) (rest : Bytes) :
    keyCalls 0 (esc :: key '[' :: x :: key '~' :: rest) =
      some [esc, key '[', x, key '~'] :: none :: none :: none :: keyCalls 0 rest := by
  simp [keyCalls]

/-- A sequence of three bytes. -/
theorem keyCalls_three (x : UInt8) {rest : Bytes} (h : rest.head? ≠ some (key '~')) :
    keyCalls 0 (esc :: key '[' :: x :: rest) =
      some [esc, key '[', x] :: none :: none :: keyCalls 0 rest := by
  cases rest with
  | nil => rfl
  | cons y rest =>
      have hy : y ≠ key '~' := by
        intro heq
        rw [heq] at h
        exact h rfl
      simp [keyCalls, hy]

/-! ## What a read should do -/

/-- No byte of a sequence is stored or switches the layout, and every other byte is
stored; what the keys of the layouts do is left open. -/
def ByteParsed (p : MarkedByte) (call : Option Bytes) : Prop :=
  if p.2 then ∀ buf, call = some buf → Silent buf
  else p.1 ≠ key '[' → p.1 ≠ key ']' → ∃ buf, call = some buf ∧ Stores buf p.1

/-- The calls of a read are those for its bytes. -/
def Parsed (r : List MarkedByte) : Prop :=
  List.Forall₂ ByteParsed r (keyCalls 0 (bytesOf r))

theorem byteParsed_none (c : UInt8) : ByteParsed (c, true) none := by
  intro buf hbuf
  contradiction

theorem byteParsed_sequence {c : UInt8} {buf : Bytes} (h : isSequence buf = true) :
    ByteParsed (c, true) (some buf) := by
  intro buf' hbuf'
  rw [← Option.some.inj hbuf']
  exact silent_of_isSequence h

theorem not_byteParsed {c b : UInt8} {rest : Bytes} (h : isSequence (b :: rest) = false) :
    ¬ ByteParsed (c, true) (some (b :: rest)) :=
  fun hparsed => not_silent h (hparsed _ rfl)

/-- A byte of a sequence that begins a read is handled on its own, unless it is `ESC`. -/
theorem not_parsed_of_cut {p : MarkedByte} {r : List MarkedByte} (hmark : p.2 = true)
    (hesc : p.1 ≠ esc) : ¬ Parsed (p :: r) := by
  intro h
  have hcalls : keyCalls 0 (bytesOf (p :: r)) = some [p.1] :: keyCalls 0 (bytesOf r) :=
    keyCalls_plain hesc _
  unfold Parsed at h
  rw [hcalls, List.forall₂_cons] at h
  rcases p with ⟨c, mark⟩
  subst hmark
  exact not_byteParsed rfl h.1

theorem parsed_plain {b : UInt8} (hb : b ≠ esc) (r : List MarkedByte) :
    Parsed ((b, false) :: r) ↔ Parsed r := by
  have hcalls : keyCalls 0 (bytesOf ((b, false) :: r)) = some [b] :: keyCalls 0 (bytesOf r) :=
    keyCalls_plain hb _
  unfold Parsed
  rw [hcalls, List.forall₂_cons]
  exact and_iff_right (fun hprevious hnext => ⟨[b], rfl, stores_plain hprevious hnext⟩)

/-- Behind a sequence of three bytes. -/
theorem parsed_three (x : UInt8) {r : List MarkedByte}
    (h : (bytesOf r).head? ≠ some (key '~')) :
    Parsed ((esc, true) :: (key '[', true) :: (x, true) :: r) ↔ Parsed r := by
  have hcalls : keyCalls 0 (bytesOf ((esc, true) :: (key '[', true) :: (x, true) :: r)) =
      some [esc, key '[', x] :: none :: none :: keyCalls 0 (bytesOf r) :=
    keyCalls_three x h
  unfold Parsed
  rw [hcalls, List.forall₂_cons, List.forall₂_cons, List.forall₂_cons]
  constructor
  · exact fun hall => hall.2.2.2
  · exact fun hr => ⟨byteParsed_sequence rfl, byteParsed_none _, byteParsed_none _, hr⟩

/-- Behind a sequence of three bytes and a tilde, which is swallowed. -/
theorem parsed_tilde (x : UInt8) (mark : Bool) (r : List MarkedByte) :
    Parsed ((esc, true) :: (key '[', true) :: (x, true) :: (key '~', mark) :: r) ↔
      mark = true ∧ Parsed r := by
  have hcalls : keyCalls 0 (bytesOf ((esc, true) :: (key '[', true) :: (x, true) ::
      (key '~', mark) :: r)) =
      some [esc, key '[', x, key '~'] :: none :: none :: none :: keyCalls 0 (bytesOf r) :=
    keyCalls_tilde x _
  unfold Parsed
  rw [hcalls, List.forall₂_cons, List.forall₂_cons, List.forall₂_cons, List.forall₂_cons]
  constructor
  · rintro ⟨_, _, _, htilde, hr⟩
    cases mark with
    | true => exact ⟨rfl, hr⟩
    | false =>
        rcases htilde (by decide) (by decide) with ⟨buf, hbuf, _⟩
        contradiction
  · rintro ⟨rfl, hr⟩
    exact ⟨byteParsed_sequence rfl, byteParsed_none _, byteParsed_none _, byteParsed_none _, hr⟩

/-! ## Readable items -/

/-- The key loop reads plain bytes, the sequences of three bytes without a tilde behind
them, and those of four bytes that end in a tilde. -/
def Readable : List KeyItem → Prop
  | [] => True
  | .plain _ _ :: items => Readable items
  | .csi params final _ _ :: items =>
      ((params = [] ∧ (bytesOf (markedBytes items)).head? ≠ some (key '~')) ∨
        (params.length = 1 ∧ final = key '~')) ∧ Readable items

theorem bytesOf_marked (item : KeyItem) : bytesOf item.marked = item.bytes := by
  cases item with
  | plain b hb => rfl
  | csi params final hparams hfinal =>
      simp [bytesOf, KeyItem.marked, KeyItem.bytes, Function.comp_def]

theorem markedBytes_cons (item : KeyItem) (items : List KeyItem) :
    markedBytes (item :: items) = item.marked ++ markedBytes items :=
  List.flatMap_cons

theorem parsed_of_readable {items : List KeyItem} (h : Readable items) :
    Parsed (markedBytes items) := by
  induction items with
  | nil => exact List.Forall₂.nil
  | cons item items ih =>
      rw [markedBytes_cons]
      cases item with
      | plain b hb => exact (parsed_plain hb _).mpr (ih h)
      | csi params final hparams hfinal =>
          rcases h with ⟨⟨hnil, htilde⟩ | ⟨hone, hfinal'⟩, hrest⟩
          · subst hnil
            exact (parsed_three final htilde).mpr (ih hrest)
          · rcases List.length_eq_one_iff.mp hone with ⟨x, hx⟩
            subst hx
            subst hfinal'
            exact (parsed_tilde x true _).mpr ⟨rfl, ih hrest⟩

/-- The key loop hands readable items over one by one. -/
theorem handleKeys_of_readable {items : List KeyItem} (h : Readable items) (s : State) :
    s.handleKeys 0 (bytesOf (markedBytes items)) =
      items.foldl (fun s item => s.handleKey item.bytes) s := by
  have hcalls : (keyCalls 0 (bytesOf (markedBytes items))).reduceOption =
      items.map KeyItem.bytes := by
    induction items with
    | nil => rfl
    | cons item items ih =>
        rw [markedBytes_cons]
        cases item with
        | plain b hb =>
            have hplain := keyCalls_plain hb (bytesOf (markedBytes items))
            show (keyCalls 0 (b :: bytesOf (markedBytes items))).reduceOption = _
            rw [hplain, List.reduceOption_cons_of_some, ih h]
            rfl
        | csi params final hparams hfinal =>
            rcases h with ⟨⟨hnil, htilde⟩ | ⟨hone, hfinal'⟩, hrest⟩
            · subst hnil
              have hthree := keyCalls_three final htilde
              show (keyCalls 0 (esc :: key '[' :: final ::
                bytesOf (markedBytes items))).reduceOption = _
              rw [hthree, List.reduceOption_cons_of_some, List.reduceOption_cons_of_none,
                List.reduceOption_cons_of_none, ih hrest]
              rfl
            · rcases List.length_eq_one_iff.mp hone with ⟨x, hx⟩
              subst hx
              subst hfinal'
              have hfour := keyCalls_tilde x (bytesOf (markedBytes items))
              show (keyCalls 0 (esc :: key '[' :: x :: key '~' ::
                bytesOf (markedBytes items))).reduceOption = _
              rw [hfour, List.reduceOption_cons_of_some, List.reduceOption_cons_of_none,
                List.reduceOption_cons_of_none, List.reduceOption_cons_of_none, ih hrest]
              rfl
  rw [handleKeys_eq, hcalls, List.foldl_map]

/-! ## Which reads are parsed -/

theorem ne_esc_of_le {b : UInt8} (h : 0x20 ≤ b) : b ≠ esc := by
  rintro rfl
  contradiction

theorem ne_tilde_of_le {b : UInt8} (h : b ≤ 0x3f) : b ≠ key '~' := by
  rintro rfl
  contradiction

/-- A sequence begins with `ESC`. -/
theorem esc_of_marked {items : List KeyItem} {p : MarkedByte} {r : List MarkedByte}
    (h : p :: r = markedBytes items) (hmark : p.2 = true) : p.1 = esc := by
  cases items with
  | nil => contradiction
  | cons item items =>
      rw [markedBytes_cons] at h
      cases item with
      | plain b hb =>
          have hp : p = (b, false) := (List.cons.inj h).1
          rw [hp] at hmark
          contradiction
      | csi params final hparams hfinal =>
          have hp : p = (esc, true) := (List.cons.inj h).1
          rw [hp]

/-- The bytes of a stream are taken apart between two items, the first of which can be
read in one piece. -/
def WholeItems (items : List KeyItem) (r tail : List MarkedByte) : Prop :=
  ∃ front back, items = front ++ back ∧ r = markedBytes front ∧ tail = markedBytes back ∧
    Readable front

theorem wholeItems_nil (items : List KeyItem) : WholeItems items [] (markedBytes items) :=
  ⟨[], items, rfl, rfl, rfl, trivial⟩

theorem WholeItems.cons {items : List KeyItem} {r tail : List MarkedByte}
    (h : WholeItems items r tail) {item : KeyItem}
    (hitem : ∀ front, r = markedBytes front → Readable front → Readable (item :: front)) :
    WholeItems (item :: items) (item.marked ++ r) tail := by
  rcases h with ⟨front, back, hitems, hr, htail, hfront⟩
  refine ⟨item :: front, back, ?_, ?_, htail, hitem front hr hfront⟩
  · rw [hitems, List.cons_append]
  · rw [markedBytes_cons, hr]

/-- What follows begins inside a sequence. -/
def CutBefore (tail : List MarkedByte) : Prop :=
  ∃ p more, tail = p :: more ∧ p.2 = true ∧ p.1 ≠ esc

/-- A read that ends behind `ESC` or `ESC [` stores the `ESC`. -/
theorem not_parsed_of_short {r : List MarkedByte} (h : r.length < 2) :
    ¬ Parsed ((esc, true) :: r) := by
  intro hparsed
  have hcalls : ∃ rest more,
      keyCalls 0 (bytesOf ((esc, true) :: r)) = some (esc :: rest) :: more ∧
        isSequence (esc :: rest) = false := by
    match r, h with
    | [], _ => exact ⟨[], [], rfl, rfl⟩
    | [p], _ => exact ⟨[p.1], [none], by simp [bytesOf, keyCalls], rfl⟩
  rcases hcalls with ⟨rest, more, hcalls, hseq⟩
  unfold Parsed at hparsed
  rw [hcalls, List.forall₂_cons] at hparsed
  exact not_byteParsed hseq hparsed.1

/-- Behind the first parameter byte a read ends, or the sequence ends with a tilde. -/
theorem cut_or_tilde {param : UInt8} {params : Bytes} {final : UInt8}
    (hparams : ∀ b ∈ params, 0x20 ≤ b ∧ b ≤ 0x3f) (hfinal : 0x40 ≤ final)
    {items : List KeyItem} {r tail : List MarkedByte}
    (hstream : r ++ tail = (params ++ [final]).map (fun b => (b, true)) ++ markedBytes items)
    (h : Parsed ((esc, true) :: (key '[', true) :: (param, true) :: r)) :
    CutBefore tail ∨ params = [] ∧ final = key '~' ∧
      ∃ r', r = (key '~', true) :: r' ∧ r' ++ tail = markedBytes items ∧ Parsed r' := by
  have hnext : ∃ y ys, params ++ [final] = y :: ys ∧ y ≠ esc ∧
      (y = key '~' → params = [] ∧ final = key '~' ∧ ys = []) := by
    cases params with
    | nil =>
        have hle : (0x20 : UInt8) ≤ final := UInt8.le_trans (by decide) hfinal
        exact ⟨final, [], rfl, ne_esc_of_le hle, fun hy => ⟨rfl, hy, rfl⟩⟩
    | cons b params =>
        have hb := hparams b List.mem_cons_self
        exact ⟨b, params ++ [final], rfl, ne_esc_of_le hb.1,
          fun hy => absurd hy (ne_tilde_of_le hb.2)⟩
  rcases hnext with ⟨y, ys, hbytes, hesc, hend⟩
  rw [hbytes] at hstream
  cases r with
  | nil => exact Or.inl ⟨(y, true), _, hstream, rfl, hesc⟩
  | cons p r =>
      rcases List.cons.inj hstream with ⟨hp, hrest⟩
      have hp' : p = (y, true) := hp
      rw [hp'] at h ⊢
      by_cases htilde : y = key '~'
      · rcases hend htilde with ⟨hparams', hfinal', hys⟩
        rw [hys] at hrest
        rw [htilde] at h ⊢
        exact Or.inr ⟨hparams', hfinal', r, rfl, hrest, ((parsed_tilde param true r).mp h).2⟩
      · have hhead : (bytesOf ((y, true) :: r)).head? ≠ some (key '~') :=
          fun hy => htilde (Option.some.inj hy)
        exact absurd ((parsed_three param hhead).mp h) (not_parsed_of_cut rfl hesc)

/-- The tilde behind a sequence of three bytes would be swallowed. -/
theorem not_tilde_behind {final : UInt8} {items : List KeyItem} {r tail : List MarkedByte}
    (hstream : r ++ tail = markedBytes items)
    (h : Parsed ((esc, true) :: (key '[', true) :: (final, true) :: r)) :
    (bytesOf r).head? ≠ some (key '~') := by
  intro htilde
  match r, htilde, hstream with
  | (y, mark) :: r, htilde, hstream =>
      have hy : y = key '~' := Option.some.inj htilde
      rw [hy] at h hstream
      have hesc : key '~' = esc :=
        esc_of_marked hstream ((parsed_tilde final mark r).mp h).1
      contradiction

/-- A read that is parsed is made of readable items, or ends inside a sequence. -/
theorem whole_or_cut {items : List KeyItem} {r tail : List MarkedByte}
    (hstream : r ++ tail = markedBytes items) (h : Parsed r) :
    WholeItems items r tail ∨ CutBefore tail := by
  induction items generalizing r with
  | nil =>
      have hnil := List.append_eq_nil_iff.mp hstream
      rw [hnil.1, hnil.2]
      exact Or.inl (wholeItems_nil [])
  | cons item items ih =>
      rw [markedBytes_cons] at hstream
      cases item with
      | plain b hb =>
          cases r with
          | nil =>
              have htail : tail = markedBytes (.plain b hb :: items) := hstream
              rw [htail]
              exact Or.inl (wholeItems_nil _)
          | cons p r =>
              rcases List.cons.inj hstream with ⟨hp, hrest⟩
              rw [hp] at h ⊢
              rcases ih hrest ((parsed_plain hb r).mp h) with hwhole | hcut
              · exact Or.inl (hwhole.cons (fun _ _ hfront => hfront))
              · exact Or.inr hcut
      | csi params final hparams hfinal =>
          match r, hstream, h with
          | [], htail, _ =>
              have htail' : tail = markedBytes (.csi params final hparams hfinal :: items) := htail
              rw [htail']
              exact Or.inl (wholeItems_nil _)
          | [p], hstream, h =>
              rw [(List.cons.inj hstream).1] at h
              exact absurd h (not_parsed_of_short (by simp))
          | [p, q], hstream, h =>
              rw [(List.cons.inj hstream).1] at h
              exact absurd h (not_parsed_of_short (by simp))
          | p :: q :: x :: r, hstream, h =>
              rcases List.cons.inj hstream with ⟨hp, hstream⟩
              rcases List.cons.inj hstream with ⟨hq, hstream⟩
              rw [hp, hq] at h ⊢
              cases params with
              | nil =>
                  rcases List.cons.inj hstream with ⟨hx, hrest⟩
                  rw [hx] at h ⊢
                  have htilde := not_tilde_behind hrest h
                  rcases ih hrest ((parsed_three final htilde).mp h) with hwhole | hcut
                  · apply Or.inl
                    apply hwhole.cons
                    intro front hr hfront
                    rw [hr] at htilde
                    exact ⟨Or.inl ⟨rfl, htilde⟩, hfront⟩
                  · exact Or.inr hcut
              | cons param params =>
                  rcases List.cons.inj hstream with ⟨hx, hrest⟩
                  rw [hx] at h ⊢
                  have hparams' : ∀ b ∈ params, 0x20 ≤ b ∧ b ≤ 0x3f :=
                    fun b hb => hparams b (List.mem_cons_of_mem _ hb)
                  rcases cut_or_tilde hparams' hfinal.1 hrest h with
                    hcut | ⟨hnil, htilde, r', hr, hrest', hparsed⟩
                  · exact Or.inr hcut
                  · subst hnil
                    subst htilde
                    rw [hr]
                    rcases ih hrest' hparsed with hwhole | hcut
                    · apply Or.inl
                      exact hwhole.cons (fun _ _ hfront => ⟨Or.inr ⟨rfl, rfl⟩, hfront⟩)
                    · exact Or.inr hcut

/-- Some read begins inside a sequence. -/
theorem not_parsed_of_cutBefore {reads : List (List MarkedByte)} (h : CutBefore reads.flatten) :
    ∃ r ∈ reads, ¬ Parsed r := by
  induction reads with
  | nil =>
      rcases h with ⟨p, more, hnil, _⟩
      contradiction
  | cons r reads ih =>
      cases r with
      | nil =>
          rcases ih h with ⟨r, hr, hparsed⟩
          exact ⟨r, List.mem_cons_of_mem _ hr, hparsed⟩
      | cons q r =>
          rcases h with ⟨p, more, hp, hmark, hesc⟩
          rw [(List.cons.inj hp).1]
          exact ⟨p :: r, List.mem_cons_self, not_parsed_of_cut hmark hesc⟩

/-- Each read consists of readable items. -/
def WholeReads (items : List KeyItem) (reads : List (List MarkedByte)) : Prop :=
  ∃ parts : List (List KeyItem), parts.flatten = items ∧ reads = parts.map markedBytes ∧
    ∀ part ∈ parts, Readable part

theorem parsed_iff_wholeReads {items : List KeyItem} {reads : List (List MarkedByte)}
    (hstream : reads.flatten = markedBytes items) :
    (∀ r ∈ reads, Parsed r) ↔ WholeReads items reads := by
  constructor
  · intro hparsed
    induction reads generalizing items with
    | nil =>
        cases items with
        | nil => exact ⟨[], rfl, rfl, by simp⟩
        | cons item items =>
            rw [markedBytes_cons] at hstream
            cases item with
            | plain b hb => contradiction
            | csi params final hparams hfinal => contradiction
    | cons r reads ih =>
        rcases whole_or_cut hstream (hparsed r List.mem_cons_self) with hwhole | hcut
        · rcases hwhole with ⟨front, back, hitems, hr, hback, hfront⟩
          rcases ih hback (fun r hr => hparsed r (List.mem_cons_of_mem _ hr)) with
            ⟨parts, hparts, hreads, hreadable⟩
          refine ⟨front :: parts, ?_, ?_, ?_⟩
          · rw [List.flatten_cons, hparts, hitems]
          · rw [List.map_cons, hr, hreads]
          · exact List.forall_mem_cons.mpr ⟨hfront, hreadable⟩
        · rcases not_parsed_of_cutBefore hcut with ⟨r', hr', hnot⟩
          exact absurd (hparsed r' (List.mem_cons_of_mem _ hr')) hnot
  · rintro ⟨parts, _, hreads, hreadable⟩ r hr
    rw [hreads] at hr
    rcases List.mem_map.mp hr with ⟨part, hpart, hr'⟩
    rw [← hr']
    exact parsed_of_readable (hreadable part hpart)

/-! ## What the keys lead to -/

/-- The members that `HandleKey` reads and writes, with the size of the log. -/
structure KeyState where
  switcher : Switcher
  scrollOffset : Nat
  autoScroll : Bool
  lastKey : UInt8
  count : Nat
  termRows : Nat

def State.keyState (s : State) : KeyState where
  switcher := s.switcher
  scrollOffset := s.scrollOffset
  autoScroll := s.autoScroll
  lastKey := s.lastKey
  count := s.logHistory.count
  termRows := s.termRows

/-- Scrolling changes two members, by members of the `KeyState`. -/
theorem keyState_scrolled {s t : State} (h : s.keyState = t.keyState) (offset : Nat)
    (auto : Bool) :
    ({ s with scrollOffset := offset, autoScroll := auto } : State).keyState =
      ({ t with scrollOffset := offset, autoScroll := auto } : State).keyState := by
  show { s.keyState with scrollOffset := offset, autoScroll := auto } =
    { t.keyState with scrollOffset := offset, autoScroll := auto }
  rw [h]

theorem keyState_scroll {s t : State} (h : s.keyState = t.keyState) (b2 : UInt8) (len : Nat)
    (b3 : UInt8) : (s.scroll b2 len b3).keyState = (t.scroll b2 len b3).keyState := by
  have hoffset : s.scrollOffset = t.scrollOffset := congrArg KeyState.scrollOffset h
  have hauto : s.autoScroll = t.autoScroll := congrArg KeyState.autoScroll h
  have hpage : s.page = t.page :=
    congrArg (fun k : KeyState => max 1 (k.termRows * 6 / 10)) h
  have hcount : s.logHistory.count = t.logHistory.count := congrArg KeyState.count h
  unfold State.scroll
  dsimp only
  rw [hoffset, hauto, hpage, hcount]
  split_ifs
  all_goals first | exact keyState_scrolled h _ _ | exact h

theorem keyState_clampOffset {s t : State} (h : s.keyState = t.keyState) :
    s.clampOffset.keyState = t.clampOffset.keyState := by
  have hoffset : s.scrollOffset = t.scrollOffset := congrArg KeyState.scrollOffset h
  have hcount : s.logHistory.count = t.logHistory.count := congrArg KeyState.count h
  unfold State.clampOffset
  rw [hoffset, hcount]
  split
  · show { s.keyState with scrollOffset := t.logHistory.count } =
      { t.keyState with scrollOffset := t.logHistory.count }
    rw [h]
  · exact h

theorem keyState_showLayout {s t : State} (h : s.keyState = t.keyState) (i : Nat) :
    (s.showLayout i).keyState = (t.showLayout i).keyState := by
  show { s.keyState with switcher := { s.keyState.switcher with current := i } } =
    { t.keyState with switcher := { t.keyState.switcher with current := i } }
  rw [h]

/-- `HandleKey` reads no other member. -/
theorem keyState_handleKey {s t : State} (h : s.keyState = t.keyState) (buf : Bytes) :
    (s.handleKey buf).keyState = (t.handleKey buf).keyState := by
  have hprevious : s.previousLayout = t.previousLayout :=
    congrArg (fun k : KeyState => previousOf maxLayouts k.switcher.defined k.switcher.current) h
  have hnext : s.nextLayout = t.nextLayout :=
    congrArg (fun k : KeyState => nextOf maxLayouts k.switcher.defined k.switcher.current) h
  unfold State.handleKey
  rw [hprevious, hnext]
  split
  · exact h
  · split
    · exact keyState_clampOffset (keyState_scroll h _ _ _)
    · split
      · exact keyState_showLayout h _
      · split
        · exact keyState_showLayout h _
        · rename_i c _ _ _ _
          show { s.keyState with lastKey := c } = { t.keyState with lastKey := c }
          rw [h]

theorem termRows_handleKey (buf : Bytes) (s : State) : (s.handleKey buf).termRows = s.termRows := by
  rcases handleKey_cases buf s with ⟨_, _, h⟩ | ⟨_, h⟩ | ⟨_, h⟩
  · rw [h]
  · rw [h, State.showLayout]
  · rw [h]

theorem termRows_handleKeys (skip : Nat) (buf : Bytes) (s : State) :
    (s.handleKeys skip buf).termRows = s.termRows :=
  handleKeys_keeps (P := fun t => t.termRows = s.termRows)
    (fun t buf h => (termRows_handleKey buf t).trans h) skip buf rfl

/-- A running user interface with no new messages, on a terminal of a fixed size. -/
structure Quiet (winsize : Option (Nat × Nat)) (s : State) : Prop where
  running : s.running = true
  logQueue : s.logQueue = []
  termRows : (termGetSize winsize).1 = s.termRows

/-- A `Tick` that finds no messages only handles the keys. -/
theorem keyState_tick {winsize : Option (Nat × Nat)} {s : State} (h : Quiet winsize s)
    {keys : Bytes} (hkeys : keys.length ≤ keyBufLen) :
    (s.tick { keys := keys, winsize := winsize }).keyState = (s.handleKeys 0 keys).keyState := by
  have hdrain : s.drainLog = s := by
    unfold State.drainLog
    rw [h.logQueue]
    show { s with logQueue := [] } = s
    rw [← h.logQueue]
  have hrender : s.beforeRender { keys := keys, winsize := winsize } =
      (s.handleKeys 0 keys).resize (termGetSize winsize) := by
    unfold State.beforeRender
    rw [hdrain, List.take_of_length_le hkeys]
  have hrows : (termGetSize winsize).1 = (s.handleKeys 0 keys).termRows :=
    h.termRows.trans (termRows_handleKeys 0 keys s).symm
  unfold State.tick
  rw [if_pos h.running, hrender]
  show { (s.handleKeys 0 keys).keyState with
      switcher := ((s.handleKeys 0 keys).resize (termGetSize winsize)).swapArea1.switcher
      termRows := (termGetSize winsize).1 } = (s.handleKeys 0 keys).keyState
  rw [switcher_swapArea1, hrows]
  rfl

theorem Quiet.tick {winsize : Option (Nat × Nat)} {s : State} (h : Quiet winsize s)
    (keys : Bytes) : Quiet winsize (s.tick { keys := keys, winsize := winsize }) where
  running := (tick_queue h.running _).2.2
  logQueue := (tick_queue h.running _).1
  termRows := by
    unfold State.tick
    rw [if_pos h.running]
    rfl

/-- The `Tick`s that get some reads. -/
def State.readKeys (winsize : Option (Nat × Nat)) (reads : List (List MarkedByte)) (s : State) :
    State :=
  reads.foldl (fun s r => s.tick { keys := bytesOf r, winsize := winsize }) s

/-- The items of a stream one by one, however it is cut. -/
def State.handleItems (items : List KeyItem) (s : State) : State :=
  items.foldl (fun s item => s.handleKey item.bytes) s

theorem keyState_handleItems {s t : State} (h : s.keyState = t.keyState) (items : List KeyItem) :
    (s.handleItems items).keyState = (t.handleItems items).keyState := by
  unfold State.handleItems
  induction items generalizing s t with
  | nil => exact h
  | cons item items ih => exact ih (keyState_handleKey h item.bytes)

theorem keyState_readKeys {winsize : Option (Nat × Nat)} {s : State} (h : Quiet winsize s)
    {parts : List (List KeyItem)} (hreadable : ∀ part ∈ parts, Readable part)
    (hlen : ∀ part ∈ parts, (markedBytes part).length ≤ keyBufLen) :
    (s.readKeys winsize (parts.map markedBytes)).keyState =
      (s.handleItems parts.flatten).keyState := by
  induction parts generalizing s with
  | nil => rfl
  | cons part parts ih =>
      have hbytes : (bytesOf (markedBytes part)).length ≤ keyBufLen := by
        unfold bytesOf
        rw [List.length_map]
        exact hlen part List.mem_cons_self
      have htick := keyState_tick h hbytes
      rw [handleKeys_of_readable (hreadable part List.mem_cons_self) s] at htick
      have hrest := ih (h.tick (bytesOf (markedBytes part)))
        (fun p hp => hreadable p (List.mem_cons_of_mem _ hp))
        (fun p hp => hlen p (List.mem_cons_of_mem _ hp))
      calc (s.readKeys winsize ((part :: parts).map markedBytes)).keyState
          = ((s.tick { keys := bytesOf (markedBytes part), winsize := winsize }).handleItems
              parts.flatten).keyState := hrest
        _ = ((s.handleItems part).handleItems parts.flatten).keyState :=
            keyState_handleItems htick parts.flatten
        _ = (s.handleItems (part :: parts).flatten).keyState := by
            unfold State.handleItems
            rw [List.flatten_cons, List.foldl_append]

/-- The reads of a stream are parsed, and the layout, the scroll offset, the flag and the
last key are those of the stream, not of its cutting. -/
def ReadAsStream (winsize : Option (Nat × Nat)) (s : State) (items : List KeyItem)
    (reads : List (List MarkedByte)) : Prop :=
  let after := s.readKeys winsize reads
  let handled := s.handleItems items
  (∀ r ∈ reads, Parsed r) ∧ after.currentLayout = handled.currentLayout ∧
    after.scrollOffset = handled.scrollOffset ∧ after.autoScroll = handled.autoScroll ∧
    after.lastKey = handled.lastKey

/-- A typed stream is read as a stream exactly when every read consists of whole items:
plain bytes, `ESC [` and a final byte without a tilde behind it in the read, or `ESC [`,
one parameter byte and a tilde. -/
theorem read_as_stream_iff {winsize : Option (Nat × Nat)} {s : State} (h : Quiet winsize s)
    {items : List KeyItem} {reads : List (List MarkedByte)}
    (hstream : reads.flatten = markedBytes items) (hlen : ∀ r ∈ reads, r.length ≤ keyBufLen) :
    ReadAsStream winsize s items reads ↔ WholeReads items reads := by
  constructor
  · intro hread
    exact (parsed_iff_wholeReads hstream).mp hread.1
  · intro hwhole
    have hparsed := (parsed_iff_wholeReads hstream).mpr hwhole
    rcases hwhole with ⟨parts, hparts, hreads, hreadable⟩
    have hlen' : ∀ part ∈ parts, (markedBytes part).length ≤ keyBufLen := by
      intro part hpart
      apply hlen
      rw [hreads]
      exact List.mem_map_of_mem hpart
    have hstate := keyState_readKeys h hreadable hlen'
    rw [← hreads, hparts] at hstate
    exact ⟨hparsed, congrArg (fun k => k.switcher.current) hstate,
      congrArg KeyState.scrollOffset hstate, congrArg KeyState.autoScroll hstate,
      congrArg KeyState.lastKey hstate⟩

theorem quiet_init : Quiet none State.init where
  running := rfl
  logQueue := rfl
  termRows := rfl

/-- The up key. -/
def upKey : KeyItem := .csi [] (key 'A') (by simp) (by decide)

/-- A byte that is not `ESC`. -/
def letterKey : KeyItem := .plain (key 'x') (by decide)

/-- The up key and a letter in two reads. -/
theorem up_then_letter :
    ReadAsStream none State.init [upKey, letterKey]
      [markedBytes [upKey], markedBytes [letterKey]] := by
  apply (read_as_stream_iff quiet_init rfl (by decide)).mpr
  refine ⟨[[upKey], [letterKey]], rfl, rfl, ?_⟩
  have hup : Readable [upKey] := ⟨Or.inl ⟨rfl, by decide⟩, trivial⟩
  have hletter : Readable [letterKey] := trivial
  simp [hup, hletter]

theorem controlUp_params :
    ∀ b ∈ [key '1', key ';', key '5'], 0x20 ≤ b ∧ b ≤ 0x3f := by
  intro b hb
  rcases List.mem_cons.mp hb with h | hb
  · rw [h]
    decide
  · rcases List.mem_cons.mp hb with h | hb
    · rw [h]
      decide
    · rw [List.mem_singleton.mp hb]
      decide

/-- The up key with the control key, `ESC [ 1 ; 5 A`. -/
def controlUpKey : KeyItem :=
  .csi [key '1', key ';', key '5'] (key 'A') controlUp_params (by decide)

/-- The rest of a longer sequence is stored byte by byte, even when one read gets it all. -/
theorem control_up_stored :
    ¬ ∀ (winsize : Option (Nat × Nat)) (s : State) (items : List KeyItem)
      (reads : List (List MarkedByte)), Quiet winsize s → reads.flatten = markedBytes items →
      (∀ r ∈ reads, r.length ≤ keyBufLen) → ReadAsStream winsize s items reads := by
  intro h
  have hread := h none State.init [controlUpKey] [markedBytes [controlUpKey]] quiet_init rfl
    (by decide)
  have hparsed := hread.1 (markedBytes [controlUpKey]) List.mem_cons_self
  have hrest := (parsed_three (key '1')
    (r := [(key ';', true), (key '5', true), (key 'A', true)]) (by decide)).mp hparsed
  exact not_parsed_of_cut rfl (by decide) hrest

end RtTui
end Log
end DtCore

import Mathlib
import DtCore.Utils.Conf.Heap
import DtCore.Utils.Conf.Merge

/-!
# Integer accessors

Each accessor of a `Conf` lets yaml-cpp parse the scalar as one integer type and
returns the value as another one, which is the wider of the two for the narrow types
and the narrower one for 64 bits.  Parsing is a parameter of the model.

Main definitions:

- `IntType.convert`: the conversion to an integer type.
- `ParsesIntegers`: what `as<T>()` does on numerals.
- `toInt8`, ..., `toUInt64`: the accessors.

Main results:

- Theorem `convert_eq_self_iff`: a conversion keeps exactly the values of the type.
- Theorem `accessor_returns_iff`: which values an accessor returns as they are.
-/

namespace DtCore
namespace Utils
namespace Conf

/-! ## Integer types -/

/-- The fixed width integer types. -/
inductive IntType where
  | int8
  | int16
  | int32
  | int64
  | uint8
  | uint16
  | uint32
  | uint64
deriving DecidableEq

namespace IntType

def signed : IntType → Bool
  | .int8 | .int16 | .int32 | .int64 => true
  | .uint8 | .uint16 | .uint32 | .uint64 => false

def bits : IntType → Nat
  | .int8 | .uint8 => 8
  | .int16 | .uint16 => 16
  | .int32 | .uint32 => 32
  | .int64 | .uint64 => 64

/-- The smallest value. -/
def least (t : IntType) : Int :=
  if t.signed then -2 ^ (t.bits - 1) else 0

/-- A value is in the range of a type. -/
def Holds (t : IntType) (v : Int) : Prop :=
  t.least ≤ v ∧ v < t.least + 2 ^ t.bits

instance decidableHolds (t : IntType) (v : Int) : Decidable (t.Holds v) :=
  inferInstanceAs (Decidable (t.least ≤ v ∧ v < t.least + 2 ^ t.bits))

/-- Conversion to a type: modulo a power of two, to its range. -/
def convert (t : IntType) (v : Int) : Int :=
  if t.signed then v.bmod (2 ^ t.bits) else v % 2 ^ t.bits

/-- A conversion ends in the range of the type. -/
theorem holds_convert (t : IntType) (v : Int) : t.Holds (t.convert v) := by
  cases t <;> simp [Holds, convert, least, signed, bits, Int.bmod] <;> omega

/-- A conversion keeps the values in the range of the type. -/
theorem convert_of_holds {t : IntType} {v : Int} (h : t.Holds v) : t.convert v = v := by
  cases t <;> simp [Holds, convert, least, signed, bits, Int.bmod] at h ⊢ <;> omega

theorem convert_eq_self_iff (t : IntType) (v : Int) : t.convert v = v ↔ t.Holds v := by
  constructor
  · intro h
    rw [← h]
    exact holds_convert t v
  · exact convert_of_holds

end IntType

/-! ## Accessors -/

/-- `as<T>()` of a scalar; `none` when it throws.  It parses the numerals of the values
that the type has. -/
structure ParsesIntegers (as : IntType → String → Option Int) : Prop where
  inRange : ∀ t v, t.Holds v → as t v.repr = some v
  outOfRange : ∀ t v, ¬ t.Holds v → as t v.repr = none

section Accessors

variable (Y : YamlCpp) (as : IntType → String → Option Int)

/-- `_rootNode.as<T>()`. -/
def rootAs (t : IntType) (s : State Y) : Option Int :=
  match Y.view s.heap s.rootNode with
  | .scalar text => as t text
  | _ => none

/-- An accessor that parses one type and returns another. -/
def accessor (parsed result : IntType) (s : State Y) : Option Int :=
  (rootAs Y as parsed s).map result.convert

def toInt8 : State Y → Option Int := accessor Y as .int8 .int32

def toUInt8 : State Y → Option Int := accessor Y as .uint8 .uint32

def toInt16 : State Y → Option Int := accessor Y as .int16 .int32

def toUInt16 : State Y → Option Int := accessor Y as .uint16 .uint32

def toInt32 : State Y → Option Int := accessor Y as .int32 .int32

def toUInt32 : State Y → Option Int := accessor Y as .uint32 .uint32

def toInt64 : State Y → Option Int := accessor Y as .int64 .int32

def toUInt64 : State Y → Option Int := accessor Y as .uint64 .uint32

/-- The accessor that is named after a type. -/
def accessorOf : IntType → State Y → Option Int
  | .int8 => toInt8 Y as
  | .int16 => toInt16 Y as
  | .int32 => toInt32 Y as
  | .int64 => toInt64 Y as
  | .uint8 => toUInt8 Y as
  | .uint16 => toUInt16 Y as
  | .uint32 => toUInt32 Y as
  | .uint64 => toUInt64 Y as

end Accessors

variable {Y : YamlCpp} {as : IntType → String → Option Int}

/-- An accessor returns the values that both of its types have. -/
theorem accessor_eq_iff (has : ParsesIntegers as) {parsed : IntType} (result : IntType) {v : Int}
    (hv : parsed.Holds v) {s : State Y} (hs : Y.view s.heap s.rootNode = .scalar v.repr) :
    accessor Y as parsed result s = some v ↔ result.Holds v := by
  have hroot : rootAs Y as parsed s = some v := by
    rw [rootAs, hs]
    exact has.inRange parsed v hv
  rw [accessor, hroot, Option.map_some, Option.some.injEq, IntType.convert_eq_self_iff]

/-- The types of up to 32 bits are part of the one that their accessor returns. -/
theorem holds_of_narrow {t : IntType} (hbits : t.bits ≤ 32) {v : Int} (hv : t.Holds v) :
    (if t.signed then IntType.int32 else .uint32).Holds v := by
  cases t <;> simp [IntType.Holds, IntType.least, IntType.signed, IntType.bits] at hbits hv ⊢ <;>
    omega

/-- Which values an accessor returns as they are: all of its type, apart from the 64-bit
values that 32 bits do not hold. -/
theorem accessor_returns_iff (has : ParsesIntegers as) {t : IntType} {v : Int} (hv : t.Holds v)
    {s : State Y} (hs : Y.view s.heap s.rootNode = .scalar v.repr) :
    accessorOf Y as t s = some v ↔
      (t = .int64 → -2 ^ 31 ≤ v ∧ v < 2 ^ 31) ∧ (t = .uint64 → v < 2 ^ 32) := by
  have hreturns : ∀ result, accessor Y as t result s = some v ↔ result.Holds v :=
    fun result => accessor_eq_iff has result hv hs
  cases t with
  | int64 =>
      rw [accessorOf, toInt64, hreturns]
      simp [IntType.Holds, IntType.least, IntType.signed, IntType.bits]
  | uint64 =>
      have hnonneg : 0 ≤ v := hv.1
      rw [accessorOf, toUInt64, hreturns]
      simp [IntType.Holds, IntType.least, IntType.signed, IntType.bits, hnonneg]
  | _ =>
      have hnarrow := holds_of_narrow (by decide) hv
      apply iff_of_true ((hreturns _).2 hnarrow)
      simp

/-- `as<T>()` on the decimal numerals. -/
def parseDecimal (t : IntType) (text : String) : Option Int :=
  text.toInt?.filter (fun v => t.Holds v)

theorem parseDecimal_parsesIntegers : ParsesIntegers parseDecimal where
  inRange := by
    intro t v hv
    rw [parseDecimal, Int.toInt?_repr, Option.filter_some, if_pos (by simpa using hv)]
  outOfRange := by
    intro t v hv
    rw [parseDecimal, Int.toInt?_repr, Option.filter_some, if_neg (by simpa using hv)]

/-- The largest value that 32 bits hold is returned, the next one is not. -/
theorem accessor_returns_iff_example :
    accessorOf cellYaml parseDecimal .int64
        (construct cellYaml Heap.empty (.scalar (2147483647 : Int).repr)) = some 2147483647 ∧
      accessorOf cellYaml parseDecimal .int64
        (construct cellYaml Heap.empty (.scalar (2147483648 : Int).repr)) ≠ some 2147483648 := by
  constructor
  · apply (accessor_returns_iff parseDecimal_parsesIntegers (by decide) rfl).mpr
    decide
  · intro hreturns
    have hnarrow := (accessor_returns_iff parseDecimal_parsesIntegers (by decide) rfl).mp hreturns
    exact absurd (hnarrow.1 rfl).2 (by decide)

/-- `toInt64` of a value that needs 33 bits returns another one. -/
theorem toInt64_truncates :
    IntType.int64.Holds 2147483648 ∧
      toInt64 cellYaml parseDecimal
        (construct cellYaml Heap.empty (.scalar (2147483648 : Int).repr)) = some (-2147483648) := by
  have hroot : rootAs cellYaml parseDecimal .int64
      (construct cellYaml Heap.empty (.scalar (2147483648 : Int).repr)) = some 2147483648 :=
    parseDecimal_parsesIntegers.inRange .int64 2147483648 (by decide)
  rw [toInt64, accessor, hroot]
  decide

end Conf
end Utils
end DtCore

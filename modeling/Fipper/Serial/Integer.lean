import Mathlib.Algebra.Ring.Int.Defs
import Mathlib.Algebra.Ring.Nat
import Fipper.Lib.Numeral
import Fipper.Server.Response

/-!
# Integers as text

`fp::serialize<T>` and `fp::deserialize<T>` for the eight integer types.

* `IntegerType.Value` : the numbers of a type; `IntegerType.cast` : `static_cast`;
* `stol`, `stoll`, `stoul`, `stoull` : the parsers of the standard library, 64 bits wide;
* `deserialize_serialize` : the round trip;
* `Honest` : a value comes only of a text that denotes it; `honest_iff` : for which texts.
-/

namespace Fipper

open Lib

inductive IntegerType
  | uint8
  | int8
  | uint16
  | int16
  | uint32
  | int32
  | uint64
  | int64
  deriving DecidableEq, Repr

namespace IntegerType

def signed : IntegerType → Bool
  | uint8 | uint16 | uint32 | uint64 => false
  | int8 | int16 | int32 | int64 => true

def width : IntegerType → Nat
  | uint8 | int8 => 8
  | uint16 | int16 => 16
  | uint32 | int32 => 32
  | uint64 | int64 => 64

def min (t : IntegerType) : Int := if t.signed then -2 ^ (t.width - 1) else 0

def max (t : IntegerType) : Int := if t.signed then 2 ^ (t.width - 1) - 1 else 2 ^ t.width - 1

/-- A number that the type can hold. -/
def Value (t : IntegerType) := {z : Int // t.min ≤ z ∧ z ≤ t.max}

instance (t : IntegerType) : DecidableEq t.Value := inferInstanceAs (DecidableEq (Subtype _))

/-- The number of the type that is `z` modulo 2 to the width. -/
def wrapped (t : IntegerType) (z : Int) : Int :=
  if t.signed then z.bmod (2 ^ t.width) else z % 2 ^ t.width

theorem wrapped_bounds (t : IntegerType) (z : Int) : t.min ≤ t.wrapped z ∧ t.wrapped z ≤ t.max := by
  cases t <;> simp [min, max, wrapped, signed, width, Int.bmod] <;> omega

/-- A number that the type can hold stays as it is. -/
theorem wrapped_eq {t : IntegerType} {z : Int} (h : t.min ≤ z ∧ z ≤ t.max) : t.wrapped z = z := by
  cases t <;> simp [min, max, wrapped, signed, width, Int.bmod] at h ⊢ <;> omega

theorem wrapped_emod {t : IntegerType} (h : t.signed = false) (z : Int) :
    t.wrapped (z % 2 ^ 64) = t.wrapped z := by
  cases t <;> simp [wrapped, signed, width] at h ⊢

/-- `static_cast<T>`, and the implicit conversion to `T`. -/
def cast (t : IntegerType) (z : Int) : t.Value := ⟨t.wrapped z, t.wrapped_bounds z⟩

end IntegerType

/-! ## The parsers -/

/-- `std::stol`: the numeral at the front of the text; `none` for `std::invalid_argument` and
`std::out_of_range`. -/
def stol (str : Str) : Option Int :=
  (scan str).bind fun r => if -2 ^ 63 ≤ r.1 ∧ r.1 < 2 ^ 63 then some r.1 else none

/-- `std::stoul`. The number without its sign has to be in range; a minus is applied modulo 2^64. -/
def stoul (str : Str) : Option Int :=
  (scan str).bind fun r => if r.1.natAbs < 2 ^ 64 then some (r.1 % 2 ^ 64) else none

/-- `std::stoll`; `long long` is as wide as `long`. -/
def stoll (str : Str) : Option Int := stol str

/-- `std::stoull`. -/
def stoull (str : Str) : Option Int := stoul str

/-- `fp::deserialize<T>`. -/
def deserialize : (t : IntegerType) → Str → Option t.Value
  | .uint8, str => (stoul str).map (IntegerType.cast .uint8)
  | .int8, str => (stol str).map (IntegerType.cast .int8)
  | .uint16, str => (stoul str).map (IntegerType.cast .uint16)
  | .int16, str => (stol str).map (IntegerType.cast .int16)
  | .uint32, str => (stoul str).map (IntegerType.cast .uint32)
  | .int32, str => (stol str).map (IntegerType.cast .int32)
  | .uint64, str => (stoull str).map (IntegerType.cast .uint64)
  | .int64, str => (stoll str).map (IntegerType.cast .int64)

/-- `fp::serialize<std::string>`. -/
def serializeString (data : Str) : Option Serialized := some ⟨data, .ePlain⟩

/-- `fp::serialize<T>`, the same for all eight: the string of `std::to_string`. -/
def serialize (t : IntegerType) (data : t.Value) : Option Serialized := serializeString (numeral data.val)

/-- The numbers that the parser of the type accepts. -/
def IntegerType.parses (t : IntegerType) (z : Int) : Prop :=
  if t.signed then -2 ^ 63 ≤ z ∧ z < 2 ^ 63 else z.natAbs < 2 ^ 64

instance (t : IntegerType) (z : Int) : Decidable (t.parses z) := by
  unfold IntegerType.parses
  infer_instance

/-! ## One type -/

theorem IntegerType.parses_of_bounds {t : IntegerType} {z : Int} (h : t.min ≤ z ∧ z ≤ t.max) :
    t.parses z := by
  cases t <;> simp [min, max, parses, signed, width] at h ⊢ <;> omega

theorem stol_map {α : Type} (str : Str) (f : Int → α) :
    (stol str).map f =
      (scan str).bind fun r => if -2 ^ 63 ≤ r.1 ∧ r.1 < 2 ^ 63 then some (f r.1) else none := by
  unfold stol
  rw [Option.map_bind]
  congr 1
  funext r
  exact apply_ite _ _ _ _

theorem stoul_map {α : Type} (str : Str) (f : Int → α) (hf : ∀ z, f (z % 2 ^ 64) = f z) :
    (stoul str).map f = (scan str).bind fun r => if r.1.natAbs < 2 ^ 64 then some (f r.1) else none := by
  unfold stoul
  rw [Option.map_bind]
  congr 1
  funext r
  rw [← hf r.1]
  exact apply_ite _ _ _ _

theorem IntegerType.cast_emod {t : IntegerType} (h : t.signed = false) (z : Int) :
    t.cast (z % 2 ^ 64) = t.cast z :=
  Subtype.ext (wrapped_emod h z)

/-- All eight: the numeral at the front of the text, if the parser accepts it, is made a number of the
type. -/
theorem deserialize_eq (t : IntegerType) (str : Str) :
    deserialize t str = (scan str).bind fun r => if t.parses r.1 then some (t.cast r.1) else none := by
  cases t with
  | uint8 => exact stoul_map str _ (IntegerType.cast_emod rfl)
  | int8 => exact stol_map str _
  | uint16 => exact stoul_map str _ (IntegerType.cast_emod rfl)
  | int16 => exact stol_map str _
  | uint32 => exact stoul_map str _ (IntegerType.cast_emod rfl)
  | int32 => exact stol_map str _
  | uint64 => exact stoul_map str _ (IntegerType.cast_emod rfl)
  | int64 => exact stol_map str _

theorem deserialize_of_scan {t : IntegerType} {str rest : Str} {z : Int}
    (h : scan str = some (z, rest)) (hz : t.parses z) : deserialize t str = some (t.cast z) := by
  rw [deserialize_eq, h, Option.bind_some, if_pos hz]

theorem exists_of_deserialize {t : IntegerType} {str : Str} {v : t.Value}
    (h : deserialize t str = some v) :
    ∃ z rest, Begins str z rest ∧ t.parses z ∧ t.wrapped z = v.val := by
  rw [deserialize_eq, Option.bind_eq_some_iff] at h
  obtain ⟨⟨z, rest⟩, hscan, h⟩ := h
  rw [Option.ite_none_right_eq_some, Option.some.injEq] at h
  exact ⟨z, rest, scan_eq_some_iff.mp hscan, h.1, congrArg Subtype.val h.2⟩

/-- **The round trip.** Every value of the eight types comes back. -/
theorem deserialize_serialize (t : IntegerType) (v : t.Value) :
    ((serialize t v).bind fun serialized => deserialize t serialized.data) = some v := by
  have hparses : t.parses v.val := IntegerType.parses_of_bounds v.property
  have hcast : t.cast v.val = v := Subtype.ext (IntegerType.wrapped_eq v.property)
  rw [serialize, serializeString, Option.bind_some, deserialize_of_scan (scan_numeral v.val) hparses, hcast]

/-! ## Which texts give a value they denote -/

/-- A value comes only of a text that denotes it, and all other texts give none. -/
structure Honest (t : IntegerType) (str : Str) : Prop where
  denotes : ∀ v, deserialize t str = some v → Denotes str v.val
  refuses : (∀ v : t.Value, ¬ Denotes str v.val) → deserialize t str = none

/-- **When no value is invented.** Exactly if the text does not begin with a numeral, or with one that
the parser refuses, or is that numeral and the type can hold its number. -/
theorem honest_iff (t : IntegerType) (str : Str) :
    Honest t str ↔
      ∀ z rest, Begins str z rest → t.parses z → rest = [] ∧ t.min ≤ z ∧ z ≤ t.max := by
  constructor
  · intro h z rest hbegins hparses
    have hsome : deserialize t str = some (t.cast z) :=
      deserialize_of_scan (scan_eq_some_iff.mpr hbegins) hparses
    obtain ⟨hz, hrest⟩ := hbegins.unique (begins_nil_iff.mpr (h.denotes _ hsome))
    refine ⟨hrest, ?_⟩
    rw [hz]
    exact (t.cast z).property
  · intro h
    have hdenotes : ∀ v, deserialize t str = some v → Denotes str v.val := by
      intro v hv
      obtain ⟨z, rest, hbegins, hparses, hwrapped⟩ := exists_of_deserialize hv
      obtain ⟨rfl, hbounds⟩ := h z rest hbegins hparses
      rw [← hwrapped, IntegerType.wrapped_eq hbounds]
      exact begins_nil_iff.mp hbegins
    refine ⟨hdenotes, fun hnone => ?_⟩
    cases hsome : deserialize t str with
    | none => rfl
    | some v => exact absurd (hdenotes v hsome) (hnone v)

/-- Beyond the type, below zero, and with a rest of text. -/
theorem values_invented :
    (deserialize .uint8 "256".toList = some ⟨0, by decide⟩ ∧ ¬ Honest .uint8 "256".toList) ∧
      (deserialize .uint8 "-1".toList = some ⟨255, by decide⟩ ∧ ¬ Honest .uint8 "-1".toList) ∧
        deserialize .uint8 "12abc".toList = some ⟨12, by decide⟩ ∧ ¬ Honest .uint8 "12abc".toList := by
  have hnot : ∀ (str : Str) (v : IntegerType.uint8.Value) (z : Int) (rest : Str),
      deserialize .uint8 str = some v → scan str = some (z, rest) → (z, rest) ≠ (v.val, []) →
        ¬ Honest .uint8 str := by
    intro str v z rest hsome hscan hne h
    rw [scan_eq_some_iff.mpr (begins_nil_iff.mpr (h.denotes v hsome))] at hscan
    exact hne (Option.some.inj hscan).symm
  exact ⟨⟨rfl, hnot _ ⟨0, by decide⟩ 256 [] rfl rfl (by decide)⟩,
    ⟨rfl, hnot _ ⟨255, by decide⟩ (-1) [] rfl rfl (by decide)⟩,
    rfl, hnot _ ⟨12, by decide⟩ 12 "abc".toList rfl rfl (by decide)⟩

end Fipper

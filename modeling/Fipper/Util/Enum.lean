import Fipper.Job.Queue
import Fipper.Lib.Sequence
import Mathlib.Data.BitVec
import Mathlib.Data.Finset.Card
import Mathlib.Data.List.Nodup

/-!
# Scoped enums

The enumeration of the values of a scoped enum at compile time, and their names at run time.

* `value` : the value that an index stands for; `finder` : the values of the window of indices that
  have a name, in order; `valueCount` : how many;
* `window` : the indices from the first to the last, modulo 2^64;
* `Enumerates` : each declared value that the window addresses is listed once, and no other;
  `enumerates_iff` : for which enums;
* `ConstexprMap` : a map of a fixed capacity; `toString` : the name of a value, looked up in it;
  `toString_agrees` : the names at run time are those at compile time.
-/

namespace Fipper

open Lib

/-- Why an expression is no constant expression: a shift of the 32-bit `1` by 32 or more, a write behind
the end of an array, a dereferenced empty optional. -/
inductive IllFormed
  | shift
  | outOfBounds
  | emptyOptional
  deriving DecidableEq, Repr

/-- What the templates read of a scoped enum. `name` is `toString<Enum, value> ()`, which takes it from
the text the compiler makes of the value. -/
structure ScopedEnum where
  width : Nat
  width_mem : width ∈ [8, 16, 32, 64]
  flag : Bool
  startIndex : BitVec 64 := 0
  maxIndex : BitVec 64 := 15
  declared : BitVec width → Bool
  name : BitVec width → Option Str

namespace ScopedEnum

/-- The compile-time lookup has a name for the declared values. -/
def LookupCorrect (E : ScopedEnum) : Prop := ∀ v, (E.name v).isSome = E.declared v

/-- The enum with these enumerators: their values, and their names without the tag. -/
def ofEnumerators (width : Nat) (width_mem : width ∈ [8, 16, 32, 64]) (flag : Bool) (startIndex : BitVec 64)
    (enumerators : List (BitVec width × Str)) : ScopedEnum where
  width := width
  width_mem := width_mem
  flag := flag
  startIndex := startIndex
  declared v := enumerators.any fun e => e.1 = v
  name v := (enumerators.find? fun e => e.1 = v).map (·.2)

theorem lookupCorrect_ofEnumerators {width : Nat} (width_mem : width ∈ [8, 16, 32, 64]) (flag : Bool)
    (startIndex : BitVec 64) (enumerators : List (BitVec width × Str)) :
    (ofEnumerators width width_mem flag startIndex enumerators).LookupCorrect := by
  intro v
  show ((enumerators.find? _).map _).isSome = enumerators.any _
  rw [Option.isSome_map, List.isSome_find?]

/-! ## The enumeration -/

/-- `EnumIsValueValid_v`. -/
def isValueValid (E : ScopedEnum) (val : BitVec E.width) : Bool := (E.name val).isSome

/-- `EnumValue_v`, by the `EnumValueConstructor` of the enum. The shifted `1` is an `int`. -/
def value (E : ScopedEnum) (index : BitVec 64) : Except IllFormed (BitVec E.width) :=
  if E.flag then
    if index.toNat ≥ E.width then .ok 0
    else if index.toNat < 32 then .ok ((1#32 <<< index.toNat).signExtend E.width)
    else .error .shift
  else .ok (index.setWidth E.width)

/-- `EnumValueAsTuple_v`. -/
def valueAsTuple (E : ScopedEnum) (index : BitVec 64) : Except IllFormed (List (BitVec E.width)) := do
  let val ← E.value index
  return if E.isValueValid val then [val] else []

theorem toNat_sub_succ_lt {index maxIndex : BitVec 64} (h : index ≠ maxIndex) :
    (maxIndex - (index + 1)).toNat < (maxIndex - index).toNat := by
  bv_omega

/-- `EnumValueFinder`. -/
def finder (E : ScopedEnum) (index maxIndex : BitVec 64) : Except IllFormed (List (BitVec E.width)) :=
  if index = maxIndex then E.valueAsTuple maxIndex
  else do
    let first ← E.valueAsTuple index
    let rest ← finder E (index + 1) maxIndex
    return first ++ rest
termination_by (maxIndex - index).toNat
decreasing_by exact toNat_sub_succ_lt ‹_›

/-- `EnumValueFinder_v`. -/
def values (E : ScopedEnum) : Except IllFormed (List (BitVec E.width)) := E.finder E.startIndex E.maxIndex

/-- `EnumValueCount_v`. -/
def valueCount (E : ScopedEnum) : Except IllFormed Nat := E.values.map List.length

/-! ## The window -/

/-- The indices from `index` to `maxIndex`. -/
def window (index maxIndex : BitVec 64) : List (BitVec 64) :=
  (List.range ((maxIndex - index).toNat + 1)).map fun k => index + BitVec.ofNat 64 k

@[simp] theorem length_window (index maxIndex : BitVec 64) :
    (window index maxIndex).length = (maxIndex - index).toNat + 1 := by
  simp [window]

theorem window_self (index : BitVec 64) : window index index = [index] := by
  simp [window]

theorem window_of_ne {index maxIndex : BitVec 64} (h : index ≠ maxIndex) :
    window index maxIndex = index :: window (index + 1) maxIndex := by
  have hlen : (maxIndex - index).toNat = (maxIndex - (index + 1)).toNat + 1 := by bv_omega
  rw [window, hlen, List.range_succ_eq_map, List.map_cons, List.map_map, window]
  congr 1
  · simp
  · refine List.map_congr_left fun k _ => ?_
    show index + BitVec.ofNat 64 (k + 1) = index + 1 + BitVec.ofNat 64 k
    bv_omega

/-- The recursion is a walk over the window. -/
theorem finder_eq (E : ScopedEnum) (index maxIndex : BitVec 64) :
    E.finder index maxIndex =
      ((window index maxIndex).mapM E.value).map (List.filter E.isValueValid) := by
  have htuple : ∀ i (rest : Except IllFormed (List (BitVec E.width))),
      (do let first ← E.valueAsTuple i; let rest ← rest.map (List.filter E.isValueValid); return first ++ rest) =
        (do let val ← E.value i; let rest ← rest; return val :: rest).map (List.filter E.isValueValid) := by
    intro i rest
    unfold valueAsTuple
    cases E.value i with
    | error e => rfl
    | ok val =>
        cases rest with
        | error e => rfl
        | ok rest =>
            show Except.ok _ = Except.ok ((val :: rest).filter E.isValueValid)
            rw [List.filter_cons]
            split <;> rfl
  fun_induction finder E index maxIndex with
  | case1 =>
      rw [window_self, List.mapM_cons, List.mapM_nil]
      refine Eq.trans ?_ (htuple maxIndex (.ok []))
      cases E.valueAsTuple maxIndex with
      | error e => rfl
      | ok vals => exact congrArg Except.ok (List.append_nil vals).symm
  | case2 index hne ih =>
      rw [window_of_ne hne, List.mapM_cons, ih]
      exact htuple index _

theorem window_nodup (index maxIndex : BitVec 64) : (window index maxIndex).Nodup := by
  refine List.Nodup.map_on (fun k hk l hl heq => ?_) List.nodup_range
  have hk := List.mem_range.mp hk
  have hl := List.mem_range.mp hl
  have hle := (maxIndex - index).isLt
  have hnat := congrArg BitVec.toNat (add_left_cancel heq)
  rw [BitVec.toNat_ofNat, BitVec.toNat_ofNat, Nat.mod_eq_of_lt (by omega), Nat.mod_eq_of_lt (by omega)] at hnat
  exact hnat

/-- A window with no more indices than a type has values: they stay apart in the type. -/
theorem setWidth_inj_of_mem_window {index maxIndex i j : BitVec 64} {width : Nat} (hwidth : width ≤ 64)
    (hsize : (window index maxIndex).length ≤ 2 ^ width) (hi : i ∈ window index maxIndex)
    (hj : j ∈ window index maxIndex) (heq : i.setWidth width = j.setWidth width) : i = j := by
  rw [length_window] at hsize
  obtain ⟨k, hk, rfl⟩ := List.mem_map.mp hi
  obtain ⟨l, hl, rfl⟩ := List.mem_map.mp hj
  have hk := List.mem_range.mp hk
  have hl := List.mem_range.mp hl
  rw [BitVec.setWidth_add _ _ hwidth, BitVec.setWidth_add _ _ hwidth] at heq
  have hnat := congrArg BitVec.toNat (add_left_cancel heq)
  have hpow : 2 ^ width ∣ 2 ^ 64 := Nat.pow_dvd_pow 2 hwidth
  simp only [BitVec.toNat_setWidth, BitVec.toNat_ofNat, Nat.mod_mod_of_dvd _ hpow] at hnat
  rw [Nat.mod_eq_of_lt (by omega), Nat.mod_eq_of_lt (by omega)] at hnat
  rw [hnat]

theorem values_eq_ok_iff {E : ScopedEnum} {values : List (BitVec E.width)} :
    E.values = .ok values ↔ ∃ all, (window E.startIndex E.maxIndex).mapM E.value = .ok all ∧
      values = all.filter E.isValueValid := by
  rw [ScopedEnum.values, finder_eq]
  cases (window E.startIndex E.maxIndex).mapM E.value with
  | error e => exact iff_of_false nofun nofun
  | ok all => simp [Except.map, eq_comm]

/-! ## The values of a flag enum -/

theorem width_le (E : ScopedEnum) : E.width ≤ 64 := by
  have hmem := E.width_mem
  simp only [List.mem_cons, List.not_mem_nil, or_false] at hmem
  omega

theorem setWidth_twoPow {n : Nat} (h : n < 32) (width : Nat) :
    (BitVec.twoPow 32 n).setWidth width = BitVec.twoPow width n := by
  refine BitVec.eq_of_getLsbD_eq fun k hk => ?_
  rw [BitVec.getLsbD_setWidth, BitVec.getLsbD_twoPow, BitVec.getLsbD_twoPow]
  by_cases hkn : n = k
  · simp [← hkn, h]
  · simp [hkn]

/-- The `int` `1 << n` has the sign bit for n = 31 only, which counts in a wider type. -/
theorem signExtend_shift {n width : Nat} (h : n < 32) (hsign : n < 31 ∨ width ≤ 32) :
    (1#32 <<< n).signExtend width = BitVec.twoPow width n := by
  rw [← BitVec.twoPow_eq]
  rcases hsign with hlt | hwidth
  · have hmsb : (BitVec.twoPow 32 n).msb = false := by
      rw [BitVec.msb_eq_getLsbD_last, BitVec.getLsbD_twoPow]
      simp
      omega
    rw [BitVec.signExtend_eq_setWidth_of_msb_false hmsb, setWidth_twoPow h]
  · rw [BitVec.signExtend_eq_setWidth_of_le _ hwidth, setWidth_twoPow h]

theorem twoPow_inj {width i j : Nat} (hi : i < width) (hj : j < width)
    (heq : BitVec.twoPow width i = BitVec.twoPow width j) : i = j := by
  have hnat := congrArg BitVec.toNat heq
  rw [BitVec.toNat_twoPow_of_lt hi, BitVec.toNat_twoPow_of_lt hj] at hnat
  exact Nat.pow_right_injective le_rfl hnat

theorem twoPow_ne_zero {width i : Nat} (hi : i < width) : BitVec.twoPow width i ≠ 0 := by
  intro heq
  have hnat := congrArg BitVec.toNat heq
  rw [BitVec.toNat_twoPow_of_lt hi] at hnat
  exact absurd hnat (Nat.two_pow_pos i).ne'

/-- What 31 stands for in 64 bits is no power of two. -/
theorem twoPow_ne_sign {width i : Nat} (hwidth : width ∈ [8, 16, 32, 64]) (h32 : 32 < width) (hi : i < width) :
    BitVec.twoPow width i ≠ (1#32 <<< 31).signExtend width := by
  have h64 : width = 64 := by
    simp only [List.mem_cons, List.not_mem_nil, or_false] at hwidth
    omega
  subst h64
  revert i
  decide

/-! ## What is listed -/

/-- The window addresses a value. -/
def Addressed (E : ScopedEnum) (v : BitVec E.width) : Prop :=
  ∃ i ∈ window E.startIndex E.maxIndex,
    if E.flag then i.toNat < E.width ∧ v = BitVec.twoPow E.width i.toNat else v = i.setWidth E.width

/-- The finder lists each declared value that the window addresses once, and no other, so that
`EnumValueCount_v` is the number of distinct values. -/
def Enumerates (E : ScopedEnum) : Prop :=
  ∃ values, E.values = .ok values ∧ values.Nodup ∧
    (∀ v, v ∈ values ↔ E.declared v = true ∧ E.Addressed v) ∧ E.valueCount = .ok values.toFinset.card

/-- The indices of a flag enum stand for the powers of two: an index beyond the width, which gives 0, finds
no name for it; below the width `1 << index` is an `int` that holds the power, or a negative number where
neither it nor the power has a name. -/
structure Fits (E : ScopedEnum) : Prop where
  beyond : ∀ i ∈ window E.startIndex E.maxIndex, E.width ≤ i.toNat → E.declared 0 = false
  shift : ∀ i ∈ window E.startIndex E.maxIndex, i.toNat < E.width → i.toNat < 32
  sign : 31#64 ∈ window E.startIndex E.maxIndex → 32 < E.width →
    E.declared (BitVec.twoPow E.width 31) = false ∧
      E.declared ((1#32 <<< 31).signExtend E.width) = false

variable {E : ScopedEnum} {i : BitVec 64} {v : BitVec E.width}

theorem value_of_not_flag (h : E.flag = false) : E.value i = .ok (i.setWidth E.width) := by
  rw [value, h]
  rfl

theorem value_of_width_le (h : E.flag = true) (hi : E.width ≤ i.toNat) : E.value i = .ok 0 := by
  rw [value, if_pos h, if_pos hi]

theorem value_of_lt (h : E.flag = true) (hi : i.toNat < E.width) (h32 : i.toNat < 32) :
    E.value i = .ok ((1#32 <<< i.toNat).signExtend E.width) := by
  rw [value, if_pos h, if_neg (by omega), if_pos h32]

theorem value_shift (h : E.flag = true) (hi : i.toNat < E.width) (h32 : 32 ≤ i.toNat) :
    E.value i = .error .shift := by
  rw [value, if_pos h, if_neg (by omega), if_neg (by omega)]

/-- An index finds the declared value that it stands for, and no other. -/
theorem value_eq_ok_iff (h : E.flag = true) (hfits : E.Fits) (hi : i ∈ window E.startIndex E.maxIndex)
    (hv : E.declared v = true) :
    E.value i = .ok v ↔ i.toNat < E.width ∧ v = BitVec.twoPow E.width i.toNat := by
  by_cases hwidth : E.width ≤ i.toNat
  · rw [value_of_width_le h hwidth, Except.ok.injEq]
    refine iff_of_false (fun hzero => ?_) fun hpow => absurd hpow.1 (by omega)
    rw [← hzero, hfits.beyond i hi hwidth] at hv
    cases hv
  · have hlt : i.toNat < E.width := by omega
    have h32 := hfits.shift i hi hlt
    rw [value_of_lt h hlt h32, Except.ok.injEq]
    by_cases hsign : i.toNat < 31 ∨ E.width ≤ 32
    · rw [signExtend_shift h32 hsign]
      exact ⟨fun heq => ⟨hlt, heq.symm⟩, fun hpow => hpow.2.symm⟩
    · have h31 : i.toNat = 31 := by omega
      have hmem : 31#64 ∈ window E.startIndex E.maxIndex := by
        rwa [show (31#64 : BitVec 64) = i from BitVec.eq_of_toNat_eq h31.symm]
      have hundeclared := hfits.sign hmem (by omega)
      rw [h31]
      refine iff_of_false (fun heq => ?_) fun hpow => ?_
      · rw [← heq, hundeclared.2] at hv
        cases hv
      · rw [hpow.2, hundeclared.1] at hv
        cases hv

theorem mem_values_iff (hlookup : E.LookupCorrect) {values : List (BitVec E.width)} (h : E.values = .ok values) :
    v ∈ values ↔ E.declared v = true ∧ ∃ i ∈ window E.startIndex E.maxIndex, E.value i = .ok v := by
  obtain ⟨all, hall, rfl⟩ := values_eq_ok_iff.mp h
  rw [List.mem_filter, mem_of_mapM_eq_ok hall, and_comm, isValueValid, hlookup]

/-- If each index of the window stands for one declared value at most, which it finds, and no two for the
same, then the values are enumerated. -/
theorem enumerates_of (hlookup : E.LookupCorrect)
    (hok : ∀ i ∈ window E.startIndex E.maxIndex, ∃ v, E.value i = .ok v)
    (haddressed : ∀ v, E.declared v = true →
      ((∃ i ∈ window E.startIndex E.maxIndex, E.value i = .ok v) ↔ E.Addressed v))
    (hinj : ∀ i ∈ window E.startIndex E.maxIndex, ∀ j ∈ window E.startIndex E.maxIndex, ∀ v,
      E.declared v = true → E.value i = .ok v → E.value j = .ok v → i = j) : E.Enumerates := by
  obtain ⟨all, hall⟩ := exists_mapM_eq_ok hok
  have hvalues : E.values = .ok (all.filter E.isValueValid) := values_eq_ok_iff.mpr ⟨all, hall, rfl⟩
  have hnodup : (all.filter E.isValueValid).Nodup := by
    refine nodup_filter_of_mapM_eq_ok hall (window_nodup _ _) fun i hi j hj v hv => ?_
    exact hinj i hi j hj v ((hlookup v).symm.trans hv)
  refine ⟨_, hvalues, hnodup, fun v => ?_, ?_⟩
  · rw [mem_values_iff hlookup hvalues]
    exact and_congr_right (haddressed v)
  · rw [valueCount, hvalues, List.toFinset_card_of_nodup hnodup]
    rfl

theorem enumerates_of_not_flag (hlookup : E.LookupCorrect) (h : E.flag = false)
    (hsize : (window E.startIndex E.maxIndex).length ≤ 2 ^ E.width) : E.Enumerates := by
  refine enumerates_of hlookup (fun i _ => ⟨_, value_of_not_flag h⟩) (fun v _ => ?_) fun i hi j hj v _ hvi hvj => ?_
  · unfold Addressed
    simp only [value_of_not_flag h, h, Except.ok.injEq, Bool.false_eq_true, if_false, eq_comm]
  · rw [value_of_not_flag h] at hvi hvj
    exact setWidth_inj_of_mem_window E.width_le hsize hi hj (Except.ok.inj (hvi.trans hvj.symm))

theorem enumerates_of_fits (hlookup : E.LookupCorrect) (h : E.flag = true) (hfits : E.Fits) : E.Enumerates := by
  refine enumerates_of hlookup (fun i hi => ?_) (fun v hv => ?_) fun i hi j hj v hv hvi hvj => ?_
  · by_cases hwidth : E.width ≤ i.toNat
    · exact ⟨0, value_of_width_le h hwidth⟩
    · exact ⟨_, value_of_lt h (by omega) (hfits.shift i hi (by omega))⟩
  · unfold Addressed
    simp only [h, if_true]
    exact exists_congr fun i => and_congr_right fun hi => value_eq_ok_iff h hfits hi hv
  · obtain ⟨hilt, hiv⟩ := (value_eq_ok_iff h hfits hi hv).mp hvi
    obtain ⟨hjlt, hjv⟩ := (value_eq_ok_iff h hfits hj hv).mp hvj
    exact BitVec.eq_of_toNat_eq (twoPow_inj hilt hjlt (hiv.symm.trans hjv))

theorem fits_of_enumerates (hlookup : E.LookupCorrect) (h : E.flag = true) (henum : E.Enumerates) : E.Fits := by
  obtain ⟨values, hvalues, -, hmem, -⟩ := henum
  have hiff : ∀ v, E.declared v = true →
      ((∃ i ∈ window E.startIndex E.maxIndex, E.value i = .ok v) ↔
        ∃ i ∈ window E.startIndex E.maxIndex, i.toNat < E.width ∧ v = BitVec.twoPow E.width i.toNat) := by
    intro v hv
    have hboth := (mem_values_iff hlookup hvalues).symm.trans (hmem v)
    simp only [hv, true_and, Addressed, h, if_true] at hboth
    exact hboth
  obtain ⟨all, hall, -⟩ := values_eq_ok_iff.mp hvalues
  have hshift : ∀ i ∈ window E.startIndex E.maxIndex, i.toNat < E.width → i.toNat < 32 := by
    intro i hi hlt
    by_contra h32
    obtain ⟨v, hv⟩ := exists_of_mapM_eq_ok hall hi
    rw [value_shift h hlt (by omega)] at hv
    cases hv
  refine ⟨fun i hi hwidth => ?_, hshift, fun h31 hwidth => ⟨?_, ?_⟩⟩
  · refine Bool.eq_false_iff.mpr fun hzero => ?_
    obtain ⟨j, -, hj, heq⟩ := (hiff 0 hzero).mp ⟨i, hi, value_of_width_le h hwidth⟩
    exact twoPow_ne_zero hj heq.symm
  · -- only the index 31 could find the power
    refine Bool.eq_false_iff.mpr fun hpow => ?_
    obtain ⟨i, hi, hv⟩ := (hiff _ hpow).mpr ⟨31#64, h31, by simp; omega, rfl⟩
    by_cases hle : E.width ≤ i.toNat
    · rw [value_of_width_le h hle] at hv
      exact twoPow_ne_zero (by omega) (Except.ok.inj hv).symm
    · have h32 := hshift i hi (by omega)
      rw [value_of_lt h (by omega) h32] at hv
      have heq := Except.ok.inj hv
      by_cases hlt : i.toNat < 31
      · rw [signExtend_shift h32 (.inl hlt)] at heq
        exact absurd (twoPow_inj (by omega) (by omega) heq) hlt.ne
      · rw [show i.toNat = 31 by omega] at heq
        exact twoPow_ne_sign E.width_mem hwidth (by omega) heq.symm
  · refine Bool.eq_false_iff.mpr fun hneg => ?_
    have hvalue : E.value 31#64 = .ok ((1#32 <<< 31).signExtend E.width) :=
      value_of_lt h (by simp; omega) (by simp)
    obtain ⟨j, -, hj, heq⟩ := (hiff _ hneg).mp ⟨31#64, h31, hvalue⟩
    exact twoPow_ne_sign E.width_mem hwidth hj heq.symm

/-- **When the values are enumerated.** If the lookup of names is right and the window has no more indices
than the type has values, then each declared value that the window addresses is listed once, and no
other, exactly if the enum is no flag, or its indices stand for the powers of two. -/
theorem enumerates_iff (E : ScopedEnum) (hlookup : E.LookupCorrect)
    (hsize : (window E.startIndex E.maxIndex).length ≤ 2 ^ E.width) :
    E.Enumerates ↔ (E.flag = true → E.Fits) := by
  constructor
  · exact fun henum h => fits_of_enumerates hlookup h henum
  · intro hfits
    by_cases h : E.flag = true
    · exact enumerates_of_fits hlookup h (hfits h)
    · exact enumerates_of_not_flag hlookup (Bool.eq_false_iff.mpr h) hsize

end ScopedEnum

/-- `static_cast<std::int32_t>(result)`. -/
def Result.value : Result → BitVec 32
  | .eSuccess => 0
  | .eNothingToRecieve => 1
  | .eNothingToAccept => 2
  | .eFailure => -1
  | .eSaturated => -2

/-- `fp::Result` as the templates see it; the names are without the tag `e`. -/
def Result.scopedEnum : ScopedEnum :=
  .ofEnumerators 32 (by decide) false (-2)
    [(0, "Success".toList), (1, "NothingToRecieve".toList), (2, "NothingToAccept".toList),
      (-1, "Failure".toList), (-2, "Saturated".toList)]

theorem Result.values_scopedEnum : Result.scopedEnum.values = .ok [-2, -1, 0, 1, 2] := by
  rw [ScopedEnum.values, ScopedEnum.finder_eq]
  rfl

/-- A flag enum of eight bits: the indices from 8 on find the value 0, which has no name. -/
def rights : ScopedEnum :=
  .ofEnumerators 8 (by decide) true 0 [(1, "Read".toList), (2, "Write".toList), (4, "Run".toList)]

theorem ScopedEnum.enumerates_rights : Result.scopedEnum.Enumerates ∧ rights.flag = true ∧ rights.Enumerates := by
  have hresult : (ScopedEnum.window Result.scopedEnum.startIndex Result.scopedEnum.maxIndex).length ≤
      2 ^ Result.scopedEnum.width := by
    rw [ScopedEnum.length_window]
    decide
  have hrights : (ScopedEnum.window rights.startIndex rights.maxIndex).length ≤ 2 ^ rights.width := by
    rw [ScopedEnum.length_window]
    decide
  have hfits : rights.Fits :=
    ⟨fun _ _ _ => rfl, fun _ _ hi => Nat.lt_trans hi (by decide), fun _ h => absurd h (by decide)⟩
  have hlookup : Result.scopedEnum.LookupCorrect := ScopedEnum.lookupCorrect_ofEnumerators _ _ _ _
  have hlookup' : rights.LookupCorrect := ScopedEnum.lookupCorrect_ofEnumerators _ _ _ _
  exact ⟨(ScopedEnum.enumerates_iff _ hlookup hresult).mpr nofun, rfl,
    (ScopedEnum.enumerates_iff _ hlookup' hrights).mpr fun _ => hfits⟩

/-- A flag enum of eight bits with a name for no flag. -/
def permissions : ScopedEnum :=
  .ofEnumerators 8 (by decide) true 0 [(0, "None".toList), (1, "Read".toList), (2, "Write".toList)]

/-- The indices 8 to 15 all find the value 0. -/
theorem not_enumerates_permissions : permissions.values = .ok [1, 2, 0, 0, 0, 0, 0, 0, 0, 0] ∧
    permissions.valueCount = .ok 10 ∧ ¬ permissions.Enumerates := by
  have hvalues : permissions.values = .ok [1, 2, 0, 0, 0, 0, 0, 0, 0, 0] := by
    rw [ScopedEnum.values, ScopedEnum.finder_eq]
    rfl
  refine ⟨hvalues, by rw [ScopedEnum.valueCount, hvalues]; rfl, ?_⟩
  rintro ⟨values, heq, hnodup, -⟩
  obtain rfl := Except.ok.inj (hvalues.symm.trans heq)
  exact absurd hnodup (by decide)

/-- `fp::JobPriority` as the templates see it. -/
def JobPriority.scopedEnum : ScopedEnum :=
  .ofEnumerators 64 (by decide) false 0
    [(0, "_eLowest".toList), (1, "Low".toList), (2, "Medium".toList), (3, "High".toList),
      (4, "Critical".toList), (5, "_eResumingJob".toList)]

/-- The array `s_queues` has one ring for each priority. -/
theorem JobPriority.valueCount_scopedEnum :
    JobPriority.scopedEnum.valueCount = .ok (Fintype.card JobPriority) := by
  rw [ScopedEnum.valueCount, ScopedEnum.values, ScopedEnum.finder_eq]
  rfl

/-! ## The map -/

/-- `ConstexprMap`: the pairs of `m_values` that are in use, `m_keyCount` of them. -/
structure ConstexprMap (κ ν : Type) (capacity : Nat) where
  values : List (κ × ν)
  length_le : values.length ≤ capacity

namespace ConstexprMap

variable {κ ν : Type} [DecidableEq κ] {capacity : Nat}

def empty : ConstexprMap κ ν capacity := ⟨[], Nat.zero_le _⟩

def getValue (m : ConstexprMap κ ν capacity) (key : κ) : Option ν :=
  (m.values.find? fun value => value.1 = key).map (·.2)

/-- Nothing keeps `m_keyCount` below the capacity. -/
def insert (m : ConstexprMap κ ν capacity) (key : κ) (value : ν) : Except IllFormed (ConstexprMap κ ν capacity) :=
  if (m.getValue key).isSome then .ok m
  else if h : m.values.length < capacity then
    .ok ⟨m.values ++ [(key, value)], (List.length_append ..).trans_le h⟩
  else .error .outOfBounds

/-- A key keeps the first value it was given; no other key is touched, and one place at most is taken. -/
theorem insert_eq {m : ConstexprMap κ ν capacity} (h : m.values.length < capacity) (key : κ) (value : ν) :
    ∃ m', m.insert key value = .ok m' ∧ m'.values.length ≤ m.values.length + 1 ∧
      ∀ k, m'.getValue k = if k = key then some ((m.getValue key).getD value) else m.getValue k := by
  unfold insert
  cases hkey : m.getValue key with
  | some old =>
      refine ⟨m, if_pos rfl, Nat.le_succ _, fun k => ?_⟩
      split
      · next hk => rw [hk, hkey, Option.getD_some]
      · rfl
  | none =>
      refine ⟨⟨m.values ++ [(key, value)], _⟩, (if_neg nofun).trans (dif_pos h), ?_, fun k => ?_⟩
      · rw [List.length_append, List.length_singleton]
      · have hnone : m.values.find? (fun value => value.1 = key) = none := Option.map_eq_none_iff.mp hkey
        simp only [getValue, List.find?_append]
        split
        · next hk => simp [hk, hnone]
        · next hk => simp [Ne.symm hk]

end ConstexprMap

/-! ## The names at run time -/

namespace ScopedEnum

/-- `__foreachConstexprEnumValue`: the map of the listed values from `index` on, filled from the last. -/
def foreachConstexprEnumValue (E : ScopedEnum) (values : List (BitVec E.width)) (index : Nat) :
    Except IllFormed (ConstexprMap (BitVec E.width) Str values.length) :=
  if h : index < values.length then do
    let map ← foreachConstexprEnumValue E values (index + 1)
    match E.name values[index] with
    | none => .error .emptyOptional
    | some name => map.insert values[index] name
  else .ok .empty
termination_by values.length - index

/-- `toString` of a value at run time. -/
def toString (E : ScopedEnum) (val : BitVec E.width) : Except IllFormed Str := do
  let values ← E.values
  let map ← E.foreachConstexprEnumValue values 0
  return (map.getValue val).getD "<invalid>".toList

variable {E : ScopedEnum} {values : List (BitVec E.width)}

/-- The listed values have names. -/
theorem exists_name_of_mem (h : E.values = .ok values) {v : BitVec E.width} (hv : v ∈ values) :
    ∃ name, E.name v = some name := by
  obtain ⟨all, -, rfl⟩ := values_eq_ok_iff.mp h
  exact Option.isSome_iff_exists.mp (List.mem_filter.mp hv).2

/-- The values from `index` on take no more places than there are of them, so there is one left for the
value before. -/
theorem foreachConstexprEnumValue_eq (hnames : ∀ v ∈ values, ∃ name, E.name v = some name) (index : Nat) :
    ∃ map, E.foreachConstexprEnumValue values index = .ok map ∧ map.values.length ≤ values.length - index ∧
      ∀ v, map.getValue v = if v ∈ values.drop index then E.name v else none := by
  fun_induction foreachConstexprEnumValue E values index with
  | case1 index h ih =>
      obtain ⟨map, hmap, hlen, hget⟩ := ih
      obtain ⟨name, hname⟩ := hnames _ (List.getElem_mem h)
      have hroom : map.values.length < values.length := by omega
      obtain ⟨map', hinsert, hlen', hget'⟩ := ConstexprMap.insert_eq hroom values[index] name
      refine ⟨map', ?_, by omega, fun v => ?_⟩
      · rw [hmap]
        simp only [hname]
        exact hinsert
      · rw [hget', hget, hget, List.drop_eq_getElem_cons h]
        by_cases hv : v = values[index]
        · rw [if_pos hv, if_pos (List.mem_cons.mpr (.inl hv)), hv, hname]
          split <;> rfl
        · simp only [hv, if_false, List.mem_cons, false_or]
  | case2 index h =>
      refine ⟨.empty, rfl, Nat.zero_le _, fun v => ?_⟩
      rw [List.drop_eq_nil_of_le (by omega), if_neg List.not_mem_nil]
      rfl

theorem toString_eq (h : E.values = .ok values) (v : BitVec E.width) :
    E.toString v = .ok ((if v ∈ values then E.name v else none).getD "<invalid>".toList) := by
  obtain ⟨map, hmap, -, hget⟩ := foreachConstexprEnumValue_eq (fun v hv => exists_name_of_mem h hv) 0
  have hget := hget v
  rw [List.drop_zero] at hget
  rw [toString, h, ← hget]
  show (E.foreachConstexprEnumValue values 0).bind _ = _
  rw [hmap]
  rfl

/-- **The names at run time are those at compile time.** If the values can be listed, then the map of
that capacity can be filled, each listed value has its compile-time name, and every other value is
invalid. -/
theorem toString_agrees (h : E.values = .ok values) :
    (∃ map, E.foreachConstexprEnumValue values 0 = .ok map) ∧
      ∀ v, (v ∈ values → ∃ name, E.name v = some name ∧ E.toString v = .ok name) ∧
        (v ∉ values → E.toString v = .ok "<invalid>".toList) := by
  have hnames : ∀ v ∈ values, ∃ name, E.name v = some name := fun v hv => exists_name_of_mem h hv
  obtain ⟨map, hmap, -, -⟩ := foreachConstexprEnumValue_eq hnames 0
  refine ⟨⟨map, hmap⟩, fun v => ⟨fun hv => ?_, fun hv => ?_⟩⟩
  · obtain ⟨name, hname⟩ := hnames v hv
    refine ⟨name, hname, ?_⟩
    rw [toString_eq h, if_pos hv, hname, Option.getD_some]
  · rw [toString_eq h, if_neg hv, Option.getD_none]

end ScopedEnum

theorem Result.saturated_agrees : ¬ (3 : BitVec 32) ∈ [-2, -1, 0, 1, 2] ∧
    Result.scopedEnum.toString (-2) = .ok "Saturated".toList ∧
    Result.scopedEnum.toString 3 = .ok "<invalid>".toList := by
  have hnot : ¬ (3 : BitVec 32) ∈ [-2, -1, 0, 1, 2] := by decide
  have hagrees := (ScopedEnum.toString_agrees Result.values_scopedEnum).2
  obtain ⟨name, hname, htoString⟩ := (hagrees (-2)).1 (by decide)
  have hname : name = "Saturated".toList := (Option.some.inj hname).symm
  exact ⟨hnot, hname ▸ htoString, (hagrees 3).2 hnot⟩

/-- `utils::toString` of an `fp::Result`. -/
def Result.toString : Result → Str
  | .eSuccess => "Success".toList
  | .eNothingToRecieve => "NothingToRecieve".toList
  | .eNothingToAccept => "NothingToAccept".toList
  | .eFailure => "Failure".toList
  | .eSaturated => "Saturated".toList

theorem Result.toString_eq (result : Result) :
    Result.scopedEnum.toString result.value = .ok result.toString := by
  refine (ScopedEnum.toString_eq Result.values_scopedEnum result.value).trans ?_
  cases result <;> rfl

end Fipper

import Fipper.Basic
import Fipper.Lib.Storage

/-!
# `StackBasedRollingQueue<T, N>`

The ring buffer over raw bytes. A `T*` into `m_datas` is the index of the slot it points to.

`Holds q xs` : `q` holds the elements `xs`, oldest first, in consecutive slots from `start`, and no
other slot holds a live object; `Represents q xs` : besides, every access so far was in order. `push`
and `pop` keep both, with `xs` changed as in a bounded FIFO (`push_of_lt`, `push_full`, `pop_cons`,
`pop_nil`), from any start index.
-/

namespace Fipper

open Lib

/-- The members of a queue: `m_start` as a slot index, `m_size` and `m_datas`. -/
structure StackBasedRollingQueue (T : Type*) (N : Nat) where
  start : Nat
  size : Nat
  datas : Storage T

namespace StackBasedRollingQueue
variable {T : Type*} {N : Nat}

/-- The default constructor. -/
def init : StackBasedRollingQueue T N := ⟨0, 0, .empty⟩

def empty (q : StackBasedRollingQueue T N) : Bool := q.size == 0

/-- `m_end()`. -/
def mEnd (q : StackBasedRollingQueue T N) : Nat := wrap N (q.start + q.size)

def push (q : StackBasedRollingQueue T N) (value : T) : Result × StackBasedRollingQueue T N :=
  if q.size = N then (.eSaturated, q)
  else (.eSuccess, ⟨q.start, q.size + 1, q.datas.construct q.mEnd value⟩)

def pop (q : StackBasedRollingQueue T N) : Option T × StackBasedRollingQueue T N :=
  if q.size = 0 then (none, q)
  else
    let object := q.datas.slots q.start
    (object, ⟨wrap N (q.start + 1), q.size - 1, (q.datas.read q.start).destroy q.start⟩)

/-- `for (; m_size-- != 0; ++m_start)`: `m_start` and the slots when the loop ends. -/
def destructLoop (N : Nat) : Nat → Nat → Storage T → Nat × Storage T
  | 0, start, datas => (start, datas)
  | size + 1, start, datas =>
      let start := wrap N start
      destructLoop N size (start + 1) (datas.destroy start)

/-- `~StackBasedRollingQueue`. The last test of the loop takes `m_size` past zero. -/
def destruct (q : StackBasedRollingQueue T N) : StackBasedRollingQueue T N :=
  let (start, datas) := destructLoop N q.size q.start q.datas
  ⟨start, UInt64.size - 1, datas⟩

/-- `q` holds exactly `xs`, oldest first, in the slots that follow `start`, whatever was done to the
slots before. -/
structure Holds (q : StackBasedRollingQueue T N) (xs : List T) : Prop where
  start_lt : q.start < N
  size_eq : q.size = xs.length
  length_le : xs.length ≤ N
  window : ∀ i < N, q.datas.slots (wrap N (q.start + i)) = xs[i]?
  outside : ∀ i, N ≤ i → q.datas.slots i = none

/-- `q` holds exactly `xs`, and every access so far was in order. -/
structure Represents (q : StackBasedRollingQueue T N) (xs : List T) : Prop extends Holds q xs where
  clean : q.datas.Clean N

/-! ### One operation, whatever was done before -/

section Holds
variable {q : StackBasedRollingQueue T N} {xs : List T}

/-- Nothing is held where nothing lives. -/
theorem holds_nil (hN : 0 < N) {datas : Storage T} (hdead : ∀ i, datas.slots i = none) :
    Holds (⟨0, 0, datas⟩ : StackBasedRollingQueue T N) [] where
  start_lt := hN
  size_eq := rfl
  length_le := Nat.zero_le N
  window _ _ := hdead _
  outside i _ := hdead i

theorem holds_init (hN : 0 < N) : Holds (init : StackBasedRollingQueue T N) [] :=
  holds_nil hN fun _ => rfl

theorem Holds.slot_start {x : T} (h : Holds q (x :: xs)) : q.datas.slots q.start = some x := by
  have h0 := h.window 0 (by have := h.start_lt; omega)
  rwa [Nat.add_zero, wrap_of_lt h.start_lt] at h0

/-- The slot behind the last element is free, unless the queue is full. -/
theorem Holds.slot_mEnd (h : Holds q xs) (hlt : xs.length < N) :
    q.mEnd < N ∧ q.datas.slots q.mEnd = none := by
  rw [mEnd, h.size_eq, h.window _ hlt]
  exact ⟨wrap_lt (by have := h.start_lt; omega), List.getElem?_eq_none (Nat.le_refl _)⟩

/-- A full queue refuses and stays as it is. -/
theorem Holds.push_full (h : Holds q xs) (hfull : xs.length = N) (value : T) :
    q.push value = (.eSaturated, q) := by
  rw [push, if_pos (h.size_eq.trans hfull)]

theorem Holds.push_eq (h : Holds q xs) (hlt : xs.length < N) (value : T) :
    q.push value = (.eSuccess, ⟨q.start, q.size + 1, q.datas.construct q.mEnd value⟩) := by
  rw [push, if_neg (by rw [h.size_eq]; omega)]

/-- A queue with room appends. -/
theorem Holds.push (h : Holds q xs) (hlt : xs.length < N) (value : T) :
    (q.push value).1 = .eSuccess ∧ Holds (q.push value).2 (xs ++ [value]) := by
  rw [h.push_eq hlt]
  refine ⟨rfl, ?_⟩
  have hend : q.mEnd < N := (h.slot_mEnd hlt).1
  constructor
  · exact h.start_lt
  · simp [h.size_eq]
  · simp; omega
  · intro i hi
    have hslot : wrap N (q.start + i) = q.mEnd ↔ i = xs.length := by
      rw [mEnd, h.size_eq]
      exact wrap_add_inj hi hlt
    rw [Storage.slots_construct]
    by_cases heq : i = xs.length
    · rw [hslot.mpr heq, Function.update_self, heq, List.getElem?_concat_length]
    · rw [Function.update_of_ne (mt hslot.mp heq), h.window i hi]
      rcases Nat.lt_or_ge i xs.length with hlo | hhi
      · rw [List.getElem?_append_left hlo]
      · rw [List.getElem?_eq_none hhi, List.getElem?_eq_none (by simp; omega)]
  · intro i hi
    rw [Storage.slots_construct, Function.update_of_ne (by omega), h.outside i hi]

/-- An empty queue has nothing to give. -/
theorem Holds.pop_nil (h : Holds q []) : q.pop = (none, q) := by
  rw [pop, if_pos (show q.size = 0 from h.size_eq)]

theorem Holds.pop_eq {x : T} (h : Holds q (x :: xs)) :
    q.pop = (some x,
      ⟨wrap N (q.start + 1), xs.length, (q.datas.read q.start).destroy q.start⟩) := by
  have hsize : q.size = xs.length + 1 := h.size_eq
  rw [pop, if_neg (by omega), h.slot_start, hsize, Nat.add_sub_cancel]

/-- A queue gives its oldest element. -/
theorem Holds.pop {x : T} (h : Holds q (x :: xs)) : q.pop.1 = some x ∧ Holds q.pop.2 xs := by
  have hlen : xs.length + 1 ≤ N := h.length_le
  rw [h.pop_eq]
  refine ⟨rfl, ?_⟩
  constructor
  · exact wrap_lt (by have := h.start_lt; omega)
  · rfl
  · omega
  · intro i hi
    rw [Storage.slots_destroy, Storage.slots_read]
    by_cases hlast : i + 1 = N
    · -- the walk has come round to the slot just emptied
      have hback : wrap N (wrap N (q.start + 1) + i) = q.start := by
        have := h.start_lt
        unfold wrap
        split_ifs <;> omega
      rw [hback, Function.update_self, List.getElem?_eq_none (by omega)]
    · have hnext : wrap N (wrap N (q.start + 1) + i) = wrap N (q.start + (i + 1)) :=
        wrap_wrap_succ_add h.start_lt (by omega)
      have hne : wrap N (q.start + (i + 1)) ≠ q.start := by
        intro heq
        have := (wrap_add_inj (n := N) (s := q.start) (i := i + 1) (j := 0) (by omega) (by omega)).mp
          (by rw [heq, Nat.add_zero, wrap_of_lt h.start_lt])
        omega
      rw [hnext, Function.update_of_ne hne, h.window (i + 1) (by omega), List.getElem?_cons_succ]
  · intro i hi
    rw [Storage.slots_destroy, Storage.slots_read,
      Function.update_of_ne (by have := h.start_lt; omega), h.outside i hi]

end Holds

/-! ### One operation, with every access in order -/

theorem represents_init (hN : 0 < N) : Represents (init : StackBasedRollingQueue T N) [] :=
  ⟨holds_init hN, Storage.clean_empty N⟩

theorem Represents.empty_iff {q : StackBasedRollingQueue T N} {xs : List T} (h : Represents q xs) :
    q.empty = true ↔ xs = [] := by
  rw [StackBasedRollingQueue.empty, beq_iff_eq, h.size_eq, List.length_eq_zero_iff]

theorem push_full {q : StackBasedRollingQueue T N} {xs : List T} (h : Represents q xs)
    (hfull : xs.length = N) (value : T) : q.push value = (.eSaturated, q) :=
  h.toHolds.push_full hfull value

theorem push_of_lt {q : StackBasedRollingQueue T N} {xs : List T} (h : Represents q xs)
    (hlt : xs.length < N) (value : T) :
    (q.push value).1 = .eSuccess ∧ Represents (q.push value).2 (xs ++ [value]) := by
  obtain ⟨hresult, hholds⟩ := h.toHolds.push hlt value
  obtain ⟨hend, hfree⟩ := h.toHolds.slot_mEnd hlt
  refine ⟨hresult, ⟨hholds, ?_⟩⟩
  rw [h.toHolds.push_eq hlt]
  exact h.clean.construct hend hfree value

theorem pop_nil {q : StackBasedRollingQueue T N} (h : Represents q []) : q.pop = (none, q) :=
  h.toHolds.pop_nil

theorem pop_cons {q : StackBasedRollingQueue T N} {x : T} {xs : List T} (h : Represents q (x :: xs)) :
    q.pop.1 = some x ∧ Represents q.pop.2 xs := by
  obtain ⟨hobject, hholds⟩ := h.toHolds.pop
  refine ⟨hobject, ⟨hholds, ?_⟩⟩
  rw [h.toHolds.pop_eq]
  have hlive : (q.datas.slots q.start).isSome := by rw [h.toHolds.slot_start]; rfl
  exact (h.clean.read h.start_lt hlive).destroy h.start_lt (by rw [Storage.slots_read]; exact hlive)

/-- The live slots hold the elements and nothing else. -/
theorem Represents.mem_iff {q : StackBasedRollingQueue T N} {xs : List T} (h : Represents q xs)
    (x : T) : x ∈ xs ↔ ∃ i, q.datas.slots i = some x := by
  rw [List.mem_iff_getElem?]
  constructor
  · rintro ⟨k, hk⟩
    have hlt : k < xs.length := (List.getElem?_eq_some_iff.mp hk).1
    exact ⟨_, (h.window k (Nat.lt_of_lt_of_le hlt h.length_le)).trans hk⟩
  · rintro ⟨i, hi⟩
    have hlt : i < N := by
      by_contra hge
      rw [h.outside i (by omega)] at hi
      cases hi
    obtain ⟨k, hk, rfl⟩ := exists_wrap_add h.start_lt hlt
    exact ⟨k, (h.window k hk).symm.trans hi⟩

/-- Distinct elements sit in one slot each. -/
theorem Represents.slot_unique {q : StackBasedRollingQueue T N} {xs : List T} (h : Represents q xs)
    (hnodup : xs.Nodup) {x : T} {i j : Nat} (hi : q.datas.slots i = some x)
    (hj : q.datas.slots j = some x) : i = j := by
  have hbound : ∀ k, q.datas.slots k = some x → k < N := by
    intro k hk
    by_contra hge
    rw [h.outside k (by omega)] at hk
    cases hk
  obtain ⟨k, hk, rfl⟩ := exists_wrap_add h.start_lt (hbound i hi)
  obtain ⟨l, hl, rfl⟩ := exists_wrap_add h.start_lt (hbound j hj)
  rw [h.window k hk] at hi
  rw [h.window l hl] at hj
  have hlt : k < xs.length := (List.getElem?_eq_some_iff.mp hi).1
  rw [(List.getElem?_inj hlt hnodup).mp (hi.trans hj.symm)]

end StackBasedRollingQueue

end Fipper

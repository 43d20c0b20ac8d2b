import Fipper.Lib.Transition
import Fipper.Container.RollingQueue

/-!
# The ring buffer is a bounded FIFO

* `exec`, `fifo N` : one operation of the code, and of a list that takes at most `N` elements;
* `destroys N size start` : the `size` slots from `start`, modulo `N`, destroyed in order;
* `Owes` : what a queue that holds the elements `xs` owes to its user;
* `rollingQueue_refines` : every run of `push` and `pop`.
-/

namespace Fipper

open Lib

namespace StackBasedRollingQueue
variable {T : Type*} {N : Nat}

/-! ## The destructor -/

/-- The accesses of a loop that destroys `size` live slots from `start` on, modulo `N`. -/
def destroys (N size start : Nat) : List Event :=
  (List.range size).map fun k => ⟨.destroy, (start + k) % N, true⟩

theorem destroys_succ (N size start : Nat) :
    destroys N (size + 1) start =
      ⟨.destroy, start % N, true⟩ :: destroys N size (start % N + 1) := by
  unfold destroys
  rw [List.range_succ_eq_map, List.map_cons, List.map_map, Nat.add_zero]
  congr 1
  apply List.map_congr_left
  intro k _
  rw [Function.comp_apply, Nat.succ_eq_add_one, mod_succ_add_mod]

/-- The loop destroys the slots of the window one after the other, if they are live. -/
theorem destructLoop_log {size start : Nat} {datas : Storage T} (hN : 0 < N) (hstart : start ≤ N)
    (hsize : size ≤ N) (hlive : ∀ k < size, (datas.slots ((start + k) % N)).isSome) :
    (destructLoop N size start datas).2.log = (destroys N size start).reverse ++ datas.log := by
  induction size generalizing start datas with
  | zero => rfl
  | succ size ih =>
      have hwrap : wrap N start = start % N := wrap_eq_mod (by omega)
      have hlt : start % N < N := Nat.mod_lt start hN
      have hfirst : (datas.slots (start % N)).isSome := hlive 0 (Nat.succ_pos size)
      have hrest : ∀ k < size, ((datas.destroy (start % N)).slots ((start % N + 1 + k) % N)).isSome := by
        intro k hk
        have hne : (start + (k + 1)) % N ≠ start % N := by
          intro heq
          rw [← hwrap, ← wrap_eq_mod (by omega)] at heq
          have hback := (wrap_add_inj (j := 0) (show k + 1 < N by omega) hN).mp heq
          omega
        rw [mod_succ_add_mod, Storage.slots_destroy, Function.update_of_ne hne]
        exact hlive (k + 1) (by omega)
      rw [destructLoop, hwrap, ih hlt (by omega) hrest, destroys_succ, List.reverse_cons,
        List.append_assoc, Storage.destroy, hfirst, List.singleton_append]

/-- What is not live before the loop is not live after it, and neither is what it destroys. -/
theorem destructLoop_slots {size start : Nat} {datas : Storage T} (hN : 0 < N) (hstart : start ≤ N)
    {i : Nat} (hi : datas.slots i = none ∨ ∃ k < size, (start + k) % N = i) :
    (destructLoop N size start datas).2.slots i = none := by
  induction size generalizing start datas with
  | zero =>
      rcases hi with hi | ⟨k, hk, -⟩
      · exact hi
      · exact absurd hk (Nat.not_lt_zero k)
  | succ size ih =>
      have hwrap : wrap N start = start % N := wrap_eq_mod (by omega)
      have hlt : start % N < N := Nat.mod_lt start hN
      rw [destructLoop, hwrap]
      apply ih (show start % N + 1 ≤ N from hlt)
      by_cases heq : i = start % N
      · exact .inl (by rw [Storage.slots_destroy, heq, Function.update_self])
      · rcases hi with hi | ⟨k, hk, hki⟩
        · exact .inl (by rw [Storage.slots_destroy, Function.update_of_ne heq, hi])
        · obtain ⟨k, rfl⟩ : ∃ k', k = k' + 1 := by
            refine ⟨k - 1, (Nat.sub_add_cancel (Nat.one_le_iff_ne_zero.mpr ?_)).symm⟩
            rintro rfl
            exact heq hki.symm
          refine .inr ⟨k, by omega, ?_⟩
          rw [mod_succ_add_mod, hki]

/-! ## Runs -/

inductive Op (T : Type*)
  | push (value : T)
  | pop
  deriving DecidableEq

inductive Answer (T : Type*)
  | pushed (result : Result)
  | popped (object : Option T)
  deriving DecidableEq

/-- One operation of the code. -/
def exec (q : StackBasedRollingQueue T N) : Op T → Answer T × StackBasedRollingQueue T N
  | .push value => (.pushed (q.push value).1, (q.push value).2)
  | .pop => (.popped q.pop.1, q.pop.2)

/-- One operation of the specification: a list that takes at most `N` elements. -/
def fifo (N : Nat) (xs : List T) : Op T → Answer T × List T
  | .push value =>
      if xs.length = N then (.pushed .eSaturated, xs) else (.pushed .eSuccess, xs ++ [value])
  | .pop => (.popped xs.head?, xs.tail)

theorem Holds.exec_fifo {q : StackBasedRollingQueue T N} {xs : List T} (h : Holds q xs) (op : Op T) :
    (q.exec op).1 = (fifo N xs op).1 ∧ Holds (q.exec op).2 (fifo N xs op).2 := by
  cases op with
  | push value =>
      by_cases hfull : xs.length = N
      · simp only [StackBasedRollingQueue.exec, fifo, if_pos hfull, h.push_full hfull]
        exact ⟨trivial, h⟩
      · obtain ⟨hresult, hq⟩ := h.push (Nat.lt_of_le_of_ne h.length_le hfull) value
        simp only [StackBasedRollingQueue.exec, fifo, if_neg hfull, hresult]
        exact ⟨trivial, hq⟩
  | pop =>
      cases xs with
      | nil =>
          simp only [StackBasedRollingQueue.exec, fifo, h.pop_nil]
          exact ⟨rfl, h⟩
      | cons x xs =>
          obtain ⟨hobject, hq⟩ := h.pop
          exact ⟨congrArg Answer.popped hobject, hq⟩

theorem Represents.exec_fifo {q : StackBasedRollingQueue T N} {xs : List T} (h : Represents q xs)
    (op : Op T) : (q.exec op).1 = (fifo N xs op).1 ∧ Represents (q.exec op).2 (fifo N xs op).2 := by
  obtain ⟨hanswer, hholds⟩ := h.toHolds.exec_fifo op
  refine ⟨hanswer, ⟨hholds, ?_⟩⟩
  cases op with
  | push value =>
      by_cases hfull : xs.length = N
      · simp only [StackBasedRollingQueue.exec, push_full h hfull]
        exact h.clean
      · exact (push_of_lt h (Nat.lt_of_le_of_ne h.length_le hfull) value).2.clean
  | pop =>
      cases xs with
      | nil =>
          simp only [StackBasedRollingQueue.exec, pop_nil h]
          exact h.clean
      | cons x xs => exact (pop_cons h).2.clean

/-- What every run from the empty queue keeps: the queue represents the list of the specification. -/
theorem represents_trace (hN : 0 < N) (ops : List (Op T)) :
    (trace exec (init : StackBasedRollingQueue T N) ops).1 = (trace (fifo N) [] ops).1 ∧
      Represents (trace exec (init : StackBasedRollingQueue T N) ops).2 (trace (fifo N) [] ops).2 :=
  trace_refines (fun _ _ op h => h.exec_fifo op) ops (represents_init hN)

/-! ## The contract -/

/-- What a queue that holds `xs` owes to its user, whatever led to it. -/
structure Owes (q : StackBasedRollingQueue T N) (xs : List T) : Prop where
  saturated : ∀ value, (q.push value).1 = .eSaturated ↔ xs.length = N
  unchanged : ∀ value, xs.length = N → (q.push value).2 = q
  nothing : q.pop.1 = none ↔ xs = []
  size : q.size = xs.length ∧ q.size ≤ N
  start : q.start < N
  window : ∀ k < q.size, q.datas.slots ((q.start + k) % N) = xs[k]?
  live : ∀ i, (q.datas.slots i).isSome ↔ ∃ k < q.size, (q.start + k) % N = i
  /-- No access so far left the storage, met a dead slot or constructed over a live one. -/
  clean : q.datas.Clean N
  /-- The destructor adds the destruction of each held element to the log, oldest first, no more. -/
  destroyed : q.destruct.datas.log = (destroys N q.size q.start).reverse ++ q.datas.log
  emptied : ∀ i, q.destruct.datas.slots i = none

theorem Holds.window_mod {q : StackBasedRollingQueue T N} {xs : List T} (h : Holds q xs) {k : Nat} (hk : k < N) :
    q.datas.slots ((q.start + k) % N) = xs[k]? := by
  have hstart := h.start_lt
  rw [← wrap_eq_mod (by omega), h.window k hk]

/-- An object lives in the slots of the window, and in no other. -/
theorem Holds.live_iff {q : StackBasedRollingQueue T N} {xs : List T} (h : Holds q xs) (i : Nat) :
    (q.datas.slots i).isSome ↔ ∃ k < q.size, (q.start + k) % N = i := by
  have hstart := h.start_lt
  have hsize := h.size_eq
  have hle := h.length_le
  constructor
  · intro hi
    obtain ⟨x, hx⟩ := Option.isSome_iff_exists.mp hi
    have hlt : i < N := by
      by_contra hge
      rw [h.outside i (Nat.le_of_not_lt hge)] at hx
      cases hx
    obtain ⟨k, hk, rfl⟩ := exists_wrap_add hstart hlt
    rw [h.window k hk] at hx
    exact ⟨k, hsize ▸ (List.getElem?_eq_some_iff.mp hx).1, (wrap_eq_mod (by omega)).symm⟩
  · rintro ⟨k, hk, rfl⟩
    rw [h.window_mod (by omega), List.getElem?_eq_getElem (hsize ▸ hk)]
    rfl

/-- The destructor destroys what lives, and no more. -/
theorem Holds.destroyed {q : StackBasedRollingQueue T N} {xs : List T} (h : Holds q xs) :
    q.destruct.datas.log = (destroys N q.size q.start).reverse ++ q.datas.log := by
  have hstart := h.start_lt
  have hle : q.size ≤ N := h.size_eq.trans_le h.length_le
  exact destructLoop_log (by omega) (by omega) hle fun k hk => (h.live_iff _).mpr ⟨k, hk, rfl⟩

theorem Represents.owes {q : StackBasedRollingQueue T N} {xs : List T} (h : Represents q xs) :
    Owes q xs := by
  have hstart : q.start < N := h.start_lt
  have hsize : q.size = xs.length := h.size_eq
  have hle : q.size ≤ N := hsize.trans_le h.length_le
  constructor
  · intro value
    by_cases hfull : xs.length = N
    · rw [push_full h hfull]
      exact iff_of_true rfl hfull
    · rw [(push_of_lt h (Nat.lt_of_le_of_ne h.length_le hfull) value).1]
      exact iff_of_false (by decide) hfull
  · intro value hfull
    rw [push_full h hfull]
  · cases xs with
    | nil =>
        rw [pop_nil h]
        exact iff_of_true rfl rfl
    | cons x xs =>
        rw [(pop_cons h).1]
        exact iff_of_false (Option.some_ne_none x) (List.cons_ne_nil x xs)
  · exact ⟨hsize, hle⟩
  · exact hstart
  · exact fun k hk => h.window_mod (by omega)
  · exact h.live_iff
  · exact h.clean
  · exact h.destroyed
  · intro i
    apply destructLoop_slots (by omega) (by omega)
    by_cases hi : (q.datas.slots i).isSome
    · exact .inr ((h.live_iff i).mp hi)
    · exact .inl (Option.not_isSome_iff_eq_none.mp hi)

/-- **The ring buffer is a bounded FIFO.** Every run of `push` and `pop` from the empty queue gets
the answers of the list, and the queue it leads to owes what a queue with that list does. -/
theorem rollingQueue_refines (hN : 0 < N) (ops : List (Op T)) :
    let q := (trace exec (init : StackBasedRollingQueue T N) ops).2
    let xs := (trace (fifo N) [] ops).2
    (trace exec (init : StackBasedRollingQueue T N) ops).1 = (trace (fifo N) [] ops).1 ∧ Owes q xs := by
  obtain ⟨hanswers, hq⟩ := represents_trace hN ops
  exact ⟨hanswers, hq.owes⟩

/-- Two slots, filled, with the window wrapped. -/
theorem rollingQueue_refines_two :
    let q : StackBasedRollingQueue Nat 2 :=
      (trace exec init [.push 1, .push 2, .pop, .push 3, .push 4]).2
    q.start = 1 ∧ Owes q [2, 3] :=
  ⟨by decide, (rollingQueue_refines (by decide) [.push 1, .push 2, .pop, .push 3, .push 4]).2⟩

end StackBasedRollingQueue

end Fipper

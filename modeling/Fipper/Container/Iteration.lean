import Fipper.Container.Fifo

/-!
# Iterating the ring buffer

`for (auto &value : queue)`: from `begin()` to `end()` by `++`, which pops.

* `Iterator` : the flag of `StackBasedRollingQueueIterator`; its queue is the one at hand;
* `iterate` : the loop, with what it dereferenced;
* `VisitsAll` : what the loop owes;
* `iterate_once_more` : it reads one slot more than there are elements, and that one is dead.
-/

namespace Fipper

open Lib

namespace StackBasedRollingQueue
variable {T : Type*} {N : Nat}

/-- `StackBasedRollingQueueIterator<T, N>`. -/
structure Iterator where
  isEnd : Bool
  deriving DecidableEq, Repr

def getTopRef (q : StackBasedRollingQueue T N) : Nat := q.start

/-- `begin()`. -/
def beginIterator : Iterator := ⟨false⟩

/-- `end()`. -/
def endIterator : Iterator := ⟨true⟩

/-- `operator*`, read: the object behind the reference, `none` if there is none. -/
def deref (q : StackBasedRollingQueue T N) : Option T × StackBasedRollingQueue T N :=
  (q.datas.slots q.getTopRef, { q with datas := q.datas.read q.getTopRef })

/-- `operator++`. -/
def increment (q : StackBasedRollingQueue T N) : Iterator × StackBasedRollingQueue T N :=
  (⟨q.pop.1.isNone⟩, q.pop.2)

/-- The rounds that an iterator can still make at most. -/
def rounds (q : StackBasedRollingQueue T N) (it : Iterator) : Nat := if it.isEnd then 0 else q.size + 1

theorem rounds_increment_lt (q : StackBasedRollingQueue T N) {it : Iterator} (h : it ≠ endIterator) :
    rounds (increment (deref q).2).2 (increment (deref q).2).1 < rounds q it := by
  obtain ⟨isEnd⟩ := it
  cases isEnd with
  | true => exact absurd rfl h
  | false =>
      unfold rounds increment pop deref
      by_cases hsize : q.size = 0
      · simp [hsize]
      · simp only [hsize, if_false]
        split
        · exact Nat.succ_pos q.size
        · show q.size - 1 + 1 < q.size + 1
          omega

/-- The loop from `it` on: what it dereferences, one after the other, and the queue it leaves. -/
def iterate (q : StackBasedRollingQueue T N) (it : Iterator) :
    List (Option T) × StackBasedRollingQueue T N :=
  if it = endIterator then ([], q)
  else
    let next := increment (deref q).2
    let rest := iterate next.2 next.1
    ((deref q).1 :: rest.1, rest.2)
termination_by rounds q it
decreasing_by exact rounds_increment_lt q ‹_›

/-- What the loop owes on a queue that holds `xs`: the elements in order, each read where it lives, and
an empty queue after it. -/
structure VisitsAll (q : StackBasedRollingQueue T N) (xs : List T) : Prop where
  count : (iterate q beginIterator).1.length = xs.length
  objects : (iterate q beginIterator).1 = xs.map some
  live : ∀ e ∈ (iterate q beginIterator).2.datas.log, e.access = .read → e.live = true
  emptied : (iterate q beginIterator).2.size = 0

theorem iterate_begin (q : StackBasedRollingQueue T N) :
    iterate q beginIterator =
      ((deref q).1 :: (iterate (increment (deref q).2).2 (increment (deref q).2).1).1,
        (iterate (increment (deref q).2).2 (increment (deref q).2).1).2) := by
  rw [iterate, if_neg (show beginIterator ≠ endIterator by decide)]

theorem iterate_end (q : StackBasedRollingQueue T N) : iterate q endIterator = ([], q) := by
  rw [iterate, if_pos rfl]

theorem Holds.deref {q : StackBasedRollingQueue T N} {xs : List T} (h : Holds q xs) :
    Holds (deref q).2 xs :=
  ⟨h.start_lt, h.size_eq, h.length_le, h.window, h.outside⟩

/-- The elements are visited, and then the slot behind the last one. -/
theorem Holds.iterate {xs : List T} : ∀ {q : StackBasedRollingQueue T N}, Holds q xs →
    (iterate q beginIterator).1 = xs.map some ++ [none] ∧ Holds (iterate q beginIterator).2 [] ∧
      ∃ e ∈ (iterate q beginIterator).2.datas.log, e.access = .read ∧ e.live = false := by
  induction xs with
  | nil =>
      intro q h
      have hdead : q.datas.slots q.start = none := by
        have h0 := h.window 0 (Nat.zero_lt_of_lt h.start_lt)
        rwa [Nat.add_zero, wrap_of_lt h.start_lt] at h0
      have hpop : increment (StackBasedRollingQueue.deref q).2 =
          (endIterator, (StackBasedRollingQueue.deref q).2) := by
        rw [increment, h.deref.pop_nil]
        rfl
      rw [iterate_begin, hpop, iterate_end]
      refine ⟨congrArg ([·]) hdead, h.deref, ⟨.read, q.start, false⟩, ?_, rfl, rfl⟩
      simp [StackBasedRollingQueue.deref, Storage.read, getTopRef, hdead]
  | cons x xs ih =>
      intro q h
      have hobject : (StackBasedRollingQueue.deref q).1 = some x := h.slot_start
      obtain ⟨hpopped, hrest⟩ := h.deref.pop
      have hpop : increment (StackBasedRollingQueue.deref q).2 =
          (beginIterator, (StackBasedRollingQueue.deref q).2.pop.2) := by
        rw [increment, hpopped]
        rfl
      obtain ⟨hobjects, hend, hdead⟩ := ih hrest
      rw [iterate_begin, hpop, hobject, hobjects]
      exact ⟨rfl, hend, hdead⟩

/-- **The loop never visits exactly the elements.** After any run, it reads one slot more, in which
nothing lives. -/
theorem iterate_once_more (hN : 0 < N) (ops : List (Op T)) :
    let q := (trace exec (init : StackBasedRollingQueue T N) ops).2
    let xs := (trace (fifo N) [] ops).2
    ¬ VisitsAll q xs ∧ (iterate q beginIterator).1 = xs.map some ++ [none] ∧
      (iterate q beginIterator).2.size = 0 ∧
      ∃ e ∈ (iterate q beginIterator).2.datas.log, e.access = .read ∧ e.live = false := by
  obtain ⟨hobjects, hend, e, he, hread, hdead⟩ := (represents_trace hN ops).2.toHolds.iterate
  refine ⟨fun h => ?_, hobjects, hend.size_eq, e, he, hread, hdead⟩
  have hlive : e.live = true := h.live e he hread
  rw [hdead] at hlive
  cases hlive

/-- A full queue whose window is wrapped. -/
theorem iterate_once_more_wrapped :
    let q : StackBasedRollingQueue Nat 2 := (trace exec init [.push 1, .push 2, .pop, .push 3]).2
    ¬ VisitsAll q [2, 3] ∧ (iterate q beginIterator).1 = [some 2, some 3, none] := by
  obtain ⟨hnot, hobjects, -⟩ := iterate_once_more (N := 2) (by decide) [.push 1, .push 2, .pop, .push 3]
  exact ⟨hnot, hobjects⟩

/-- A queue that holds 7: its loop visits a second slot. -/
theorem not_visitsAll_single :
    ¬ VisitsAll (trace exec (init : StackBasedRollingQueue Nat 2) [.push 7]).2 [7] := by
  intro h
  have hcount := h.count
  revert hcount
  decide +kernel

end StackBasedRollingQueue

end Fipper

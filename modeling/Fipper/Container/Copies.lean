import Fipper.Container.Fifo

/-!
# Copies of the ring buffer

The copy and move constructors and the assignments. They name a second queue, which for an assignment
may be the queue itself, so they work on the queues of a program, each under a number.

* `copyRound` : the body of the loop; `copyFrom` : what both constructors do. `std::move` of a
  `const T` is copied, so the move constructor copies as well;
* `Later` : what has happened to the slots of some queues has happened;
* `Copied` : what the loop has done after some rounds, between two different queues;
* `Reachable` : the queues that a program makes whose behaviour is defined, without assigning one to itself;
* `copy_answers_iff` : when a copy is defined and answers as its source does.
-/

namespace Fipper

open Lib

namespace StackBasedRollingQueue
variable {T : Type*} {N : Nat}

/-- The queues of a program. -/
abbrev Queues (T : Type*) (N : Nat) := Nat → StackBasedRollingQueue T N

/-- Access to the slots of the queue `i`. -/
def Queues.modify (queues : Queues T N) (i : Nat) (f : Storage T → Storage T) : Queues T N :=
  Function.update queues i { queues i with datas := f (queues i).datas }

/-- One round of the loop in a constructor of `i` from `j`: `current->~T()`, on bytes without an object, then
`new (current) T(*queueCurrent)`. A copy of memory without an object is `junk`. -/
def copyRound (junk : T) (queues : Queues T N) (i j current queueCurrent : Nat) : Queues T N :=
  let queues := queues.modify i (·.destroy current)
  let object := ((queues j).datas.slots queueCurrent).getD junk
  let queues := queues.modify j (·.read queueCurrent)
  queues.modify i (·.construct current object)

/-- `for (std::size_t i {0}; i < m_size; ++i)`, with so many rounds to go. -/
def copyLoop (junk : T) (i j : Nat) : Nat → Nat → Nat → Queues T N → Queues T N
  | 0, _, _, queues => queues
  | rounds + 1, current, queueCurrent, queues =>
      copyLoop junk i j rounds (current + 1) (wrap N (queueCurrent + 1))
        (copyRound junk queues i j current queueCurrent)

/-- The initialisers of `m_start`, `m_size` and `m_datas`, in this order, and the loop. -/
def copyFrom (junk : T) (queues : Queues T N) (i j : Nat) : Queues T N :=
  let queues := Function.update queues i ⟨0, (queues j).size, (queues i).datas.raw⟩
  copyLoop junk i j (queues i).size (queues i).start (queues j).start queues

def copyConstruct (junk : T) (queues : Queues T N) (i j : Nat) : Queues T N :=
  copyFrom junk queues i j

def moveConstruct (junk : T) (queues : Queues T N) (i j : Nat) : Queues T N :=
  copyFrom junk queues i j

/-- `this->~StackBasedRollingQueue<T, N> (); new (this) StackBasedRollingQueue<T, N> (queue);` -/
def copyAssign (junk : T) (queues : Queues T N) (i j : Nat) : Queues T N :=
  copyConstruct junk (Function.update queues i (queues i).destruct) i j

def moveAssign (junk : T) (queues : Queues T N) (i j : Nat) : Queues T N :=
  moveConstruct junk (Function.update queues i (queues i).destruct) i j

/-- The four members that copy. -/
inductive Copying
  | copyConstruct
  | moveConstruct
  | copyAssign
  | moveAssign
  deriving DecidableEq, Repr

namespace Copying

def apply : Copying → T → Queues T N → Nat → Nat → Queues T N
  | copyConstruct => StackBasedRollingQueue.copyConstruct
  | moveConstruct => StackBasedRollingQueue.moveConstruct
  | copyAssign => StackBasedRollingQueue.copyAssign
  | moveAssign => StackBasedRollingQueue.moveAssign

/-- Whether the member is called on a queue that exists. -/
def assigns : Copying → Bool
  | copyConstruct | moveConstruct => false
  | copyAssign | moveAssign => true

end Copying

/-- An assignment is the destructor and the constructor. -/
theorem Copying.apply_eq (copying : Copying) (junk : T) (queues : Queues T N) (i j : Nat) :
    copying.apply junk queues i j =
      copyFrom junk
        (if copying.assigns then Function.update queues i (queues i).destruct else queues) i j := by
  cases copying <;> rfl

/-! ## The logs only grow -/

/-- What happened in `queues` has happened in `queues'`. -/
def Later (queues queues' : Queues T N) : Prop :=
  ∀ k, (queues k).datas.log <:+ (queues' k).datas.log

theorem Later.trans {a b c : Queues T N} (h : Later a b) (h' : Later b c) : Later a c :=
  fun k => (h k).trans (h' k)

theorem later_update {queues : Queues T N} {i : Nat} {q : StackBasedRollingQueue T N}
    (h : (queues i).datas.log <:+ q.datas.log) : Later queues (Function.update queues i q) := by
  intro k
  by_cases hk : k = i
  · subst hk
    rwa [Function.update_self]
  · have hother : Function.update queues i q k = queues k := Function.update_of_ne hk q queues
    exact hother ▸ List.suffix_rfl

theorem later_push (queues : Queues T N) (i : Nat) (value : T) :
    Later queues (Function.update queues i ((queues i).push value).2) := by
  apply later_update
  unfold push
  split
  · exact List.suffix_rfl
  · exact Storage.suffix_construct _ _ _

theorem later_pop (queues : Queues T N) (i : Nat) :
    Later queues (Function.update queues i (queues i).pop.2) := by
  apply later_update
  unfold pop
  split
  · exact List.suffix_rfl
  · exact (Storage.suffix_read _ _).trans (Storage.suffix_destroy _ _)

theorem suffix_destructLoop (size : Nat) : ∀ (start : Nat) (datas : Storage T),
    datas.log <:+ (destructLoop N size start datas).2.log := by
  induction size with
  | zero => exact fun _ _ => List.suffix_rfl
  | succ size ih => exact fun start datas => (datas.suffix_destroy (wrap N start)).trans (ih _ _)

theorem later_destruct (queues : Queues T N) (i : Nat) :
    Later queues (Function.update queues i (queues i).destruct) :=
  later_update (suffix_destructLoop _ _ _)

theorem later_copyRound (junk : T) (queues : Queues T N) (i j current queueCurrent : Nat) :
    Later queues (copyRound junk queues i j current queueCurrent) :=
  ((later_update (Storage.suffix_destroy _ _)).trans (later_update (Storage.suffix_read _ _))).trans
    (later_update (Storage.suffix_construct _ _ _))

theorem later_copyLoop (junk : T) (i j rounds : Nat) : ∀ (current queueCurrent : Nat)
    (queues : Queues T N), Later queues (copyLoop junk i j rounds current queueCurrent queues) := by
  induction rounds with
  | zero => exact fun _ _ _ _ => List.suffix_rfl
  | succ rounds ih => exact fun _ _ _ => (later_copyRound _ _ _ _ _ _).trans (ih _ _ _)

theorem later_apply (copying : Copying) (junk : T) (queues : Queues T N) (i j : Nat) :
    Later queues (copying.apply junk queues i j) := by
  have hcopy : ∀ queues : Queues T N, Later queues (copyFrom junk queues i j) := by
    intro queues
    have hraw : (queues i).datas.log <:+ (queues i).datas.raw.log := List.suffix_rfl
    exact (later_update (q := ⟨0, (queues j).size, (queues i).datas.raw⟩) hraw).trans
      (later_copyLoop _ _ _ _ _ _ _)
  rw [Copying.apply_eq]
  split
  · exact (later_destruct queues i).trans (hcopy _)
  · exact hcopy queues

/-- The first round destroys slot 0 of the new bytes. -/
theorem copyFrom_destroys {junk : T} {queues : Queues T N} {i j : Nat} (h : (queues j).size ≠ 0) :
    ⟨.destroy, 0, false⟩ ∈ (copyFrom junk queues i j i).datas.log := by
  obtain ⟨rounds, hrounds⟩ := Nat.exists_eq_succ_of_ne_zero h
  simp only [copyFrom, Function.update_self, hrounds]
  rw [copyLoop]
  apply (later_copyLoop junk i j rounds _ _ _ i).mem
  apply (((later_update (Storage.suffix_read _ _)).trans
    (later_update (Storage.suffix_construct _ _ _))) i).mem
  simp [Queues.modify, Storage.destroy, Storage.raw]

/-- So does each of the members, unless there is nothing to copy; an assignment of a queue to itself does so too. -/
theorem Copying.destroys {copying : Copying} {junk : T} {queues : Queues T N} {i j : Nat}
    (hassigns : i = j → copying.assigns = true) (h : i ≠ j → (queues j).size ≠ 0) :
    ⟨.destroy, 0, false⟩ ∈ (copying.apply junk queues i j i).datas.log := by
  rw [Copying.apply_eq]
  apply copyFrom_destroys
  by_cases hij : i = j
  · -- the destructor has counted the size down past zero
    rw [if_pos (hassigns hij), ← hij, Function.update_self]
    show UInt64.size - 1 ≠ 0
    decide
  · split
    · rw [Function.update_of_ne (Ne.symm hij)]
      exact h hij
    · exact h hij

/-- With nothing to copy the loop makes no round. -/
theorem copyFrom_of_size_eq_zero {junk : T} {queues : Queues T N} {i j : Nat}
    (h : (queues j).size = 0) :
    copyFrom junk queues i j = Function.update queues i ⟨0, 0, (queues i).datas.raw⟩ := by
  simp only [copyFrom, h, Function.update_self]
  rw [copyLoop]

/-! ## Between two queues -/

/-- After `k` rounds from a source that held `xs`: the first `k` elements are in the first `k` slots of
`i`, and the source still holds them all. -/
structure Copied (queues : Queues T N) (i j : Nat) (xs : List T) (k : Nat) : Prop where
  start : (queues i).start = 0
  size : (queues i).size = xs.length
  slots : ∀ m, (queues i).datas.slots m = if m < k then xs[m]? else none
  source : Holds (queues j) xs

theorem Copied.round {queues : Queues T N} {i j k : Nat} {xs : List T} (junk : T) (hij : i ≠ j)
    (h : Copied queues i j xs k) (hk : k < xs.length) :
    Copied (copyRound junk queues i j k (wrap N ((queues j).start + k))) i j xs (k + 1) := by
  have hlt : k < N := Nat.lt_of_lt_of_le hk h.source.length_le
  have hobject : (queues j).datas.slots (wrap N ((queues j).start + k)) = some xs[k] := by
    rw [h.source.window k hlt, List.getElem?_eq_getElem hk]
  constructor
  · simp [copyRound, Queues.modify, hij, hij.symm, h.start]
  · simp [copyRound, Queues.modify, hij, hij.symm, h.size]
  · intro m
    have hround : (copyRound junk queues i j k (wrap N ((queues j).start + k)) i).datas.slots =
        Function.update (Function.update (queues i).datas.slots k none) k (some xs[k]) := by
      simp [copyRound, Queues.modify, hij, hij.symm, hobject]
    rw [hround, Function.update_idem]
    by_cases hm : m = k
    · subst hm
      rw [Function.update_self, if_pos (Nat.lt_succ_self m), List.getElem?_eq_getElem hk]
    · rw [Function.update_of_ne hm, h.slots]
      split_ifs <;> first | rfl | omega
  · have hround : copyRound junk queues i j k (wrap N ((queues j).start + k)) j =
        { queues j with datas := (queues j).datas.read (wrap N ((queues j).start + k)) } := by
      simp [copyRound, Queues.modify, hij, hij.symm]
    rw [hround]
    exact ⟨h.source.start_lt, h.source.size_eq, h.source.length_le, h.source.window,
      h.source.outside⟩

/-- What each round keeps, the loop keeps. -/
theorem Copied.loop {i j : Nat} {xs : List T} {junk : T} (hij : i ≠ j) {P : Queues T N → Prop}
    (hkeep : ∀ {queues : Queues T N} {k : Nat}, Copied queues i j xs k → k < xs.length → P queues →
      P (copyRound junk queues i j k (wrap N ((queues j).start + k)))) (rounds : Nat) :
    ∀ {queues : Queues T N} {k : Nat}, Copied queues i j xs k → P queues → rounds + k = xs.length →
      Copied (copyLoop junk i j rounds k (wrap N ((queues j).start + k)) queues) i j xs xs.length ∧
        P (copyLoop junk i j rounds k (wrap N ((queues j).start + k)) queues) := by
  induction rounds with
  | zero =>
      intro queues k h hP hk
      rw [Nat.zero_add] at hk
      exact ⟨hk ▸ h, hP⟩
  | succ rounds ih =>
      intro queues k h hP hk
      have hlt : k < xs.length := by omega
      have hstart : (copyRound junk queues i j k (wrap N ((queues j).start + k)) j).start =
          (queues j).start := by
        simp [copyRound, Queues.modify, hij.symm]
      have hnext : wrap N (wrap N ((queues j).start + k) + 1) = wrap N ((queues j).start + (k + 1)) :=
        wrap_wrap_add_succ h.source.start_lt (by have := h.source.length_le; omega)
      have hend := ih (h.round junk hij hlt) (hkeep h hlt hP) (by omega)
      rw [hstart, ← hnext] at hend
      exact hend

/-- All rounds done, the new queue holds the elements from slot 0 on. -/
theorem Copied.holds {queues : Queues T N} {i j : Nat} {xs : List T}
    (h : Copied queues i j xs xs.length) : Holds (queues i) xs := by
  have hslots : ∀ m, (queues i).datas.slots m = xs[m]? := by
    intro m
    rw [h.slots]
    split
    · rfl
    · rw [List.getElem?_eq_none (by omega)]
  constructor
  · rw [h.start]
    exact Nat.zero_lt_of_lt h.source.start_lt
  · exact h.size
  · exact h.source.length_le
  · intro m hm
    rw [h.start, Nat.zero_add, wrap_of_lt hm, hslots]
  · intro m hm
    rw [hslots, List.getElem?_eq_none (Nat.le_trans h.source.length_le hm)]

/-- The new queue before the loop. -/
theorem copied_raw {queues : Queues T N} {i j : Nat} {xs : List T} (hij : i ≠ j) (h : Holds (queues j) xs) :
    Copied (Function.update queues i ⟨0, (queues j).size, (queues i).datas.raw⟩) i j xs 0 := by
  constructor
  · rw [Function.update_self]
  · rw [Function.update_self]
    exact h.size_eq
  · intro m
    rw [Function.update_self, if_neg (Nat.not_lt_zero m)]
    rfl
  · rw [Function.update_of_ne hij.symm]
    exact h

/-- The rule for what the constructors do: it holds of the new queue before the loop, and each round keeps it. -/
theorem copyFrom_rule {queues : Queues T N} {i j : Nat} {xs : List T} {junk : T} (hij : i ≠ j)
    (h : Holds (queues j) xs) {P : Queues T N → Prop}
    (hraw : P (Function.update queues i ⟨0, (queues j).size, (queues i).datas.raw⟩))
    (hkeep : ∀ {queues : Queues T N} {k : Nat}, Copied queues i j xs k → k < xs.length → P queues →
      P (copyRound junk queues i j k (wrap N ((queues j).start + k)))) :
    Copied (copyFrom junk queues i j) i j xs xs.length ∧ P (copyFrom junk queues i j) := by
  have hbegin := copied_raw hij h
  have hend := Copied.loop hij hkeep xs.length hbegin hraw rfl
  rw [Nat.add_zero, wrap_of_lt hbegin.source.start_lt] at hend
  simp only [copyFrom]
  rw [hbegin.size, hbegin.start]
  exact hend

/-- After each of the four members, both queues hold what the source held. -/
theorem Copying.copied (copying : Copying) {queues : Queues T N} {i j : Nat} {xs : List T} (junk : T)
    (hij : i ≠ j) (h : Holds (queues j) xs) :
    Copied (copying.apply junk queues i j) i j xs xs.length := by
  rw [apply_eq]
  refine (copyFrom_rule hij (P := fun _ => True) ?_ trivial fun _ _ _ => trivial).1
  split
  · rw [Function.update_of_ne hij.symm]
    exact h
  · exact h

/-! ## What is defined -/

section
variable {inert : Bool} {q : StackBasedRollingQueue T N} {xs : List T}

theorem Holds.defined_exec (h : Holds q xs) (hq : q.datas.Defined inert) (op : Op T) :
    (q.exec op).2.datas.Defined inert := by
  cases op with
  | push value =>
      simp only [StackBasedRollingQueue.exec, StackBasedRollingQueue.push]
      split
      · exact hq
      · exact hq.construct _ value
  | pop =>
      cases xs with
      | nil =>
          simp only [StackBasedRollingQueue.exec, h.pop_nil]
          exact hq
      | cons x xs =>
          have hlive : (q.datas.slots q.start).isSome := by
            rw [h.slot_start]
            rfl
          simp only [StackBasedRollingQueue.exec, h.pop_eq]
          exact (hq.read hlive).destroy (.inl hlive)

theorem Holds.defined_destruct (h : Holds q xs) (hq : q.datas.Defined inert) : q.destruct.datas.Defined inert := by
  intro e he
  rw [h.destroyed, List.mem_append, List.mem_reverse] at he
  rcases he with he | he
  · obtain ⟨k, -, rfl⟩ := List.mem_map.mp he
    exact .inl rfl
  · exact hq e he

theorem Holds.defined_trace (ops : List (Op T)) : ∀ {q : StackBasedRollingQueue T N} {xs : List T}, Holds q xs →
    q.datas.Defined inert → (trace exec q ops).2.datas.Defined inert := by
  induction ops with
  | nil => exact fun _ hq => hq
  | cons op ops ih => exact fun h hq => ih (h.exec_fifo op).2 (h.defined_exec hq op)

end

/-- The behaviour of what was done to the slots of both is defined. -/
def Defined (inert : Bool) (queues : Queues T N) (i j : Nat) : Prop :=
  (queues i).datas.Defined inert ∧ (queues j).datas.Defined inert

theorem Copied.defined_round {inert : Bool} {queues : Queues T N} {i j k : Nat} {xs : List T} {junk : T}
    (hij : i ≠ j) (h : Copied queues i j xs k) (hk : k < xs.length) (hinert : inert = true)
    (hdefined : Defined inert queues i j) :
    Defined inert (copyRound junk queues i j k (wrap N ((queues j).start + k))) i j := by
  have hlive : ((queues j).datas.slots (wrap N ((queues j).start + k))).isSome := by
    rw [h.source.window k (Nat.lt_of_lt_of_le hk h.source.length_le), List.getElem?_eq_getElem hk]
    rfl
  constructor
  · simp only [copyRound, Queues.modify, Function.update_self, Function.update_of_ne hij]
    exact (hdefined.1.destroy (.inr hinert)).construct _ _
  · simp only [copyRound, Queues.modify, Function.update_self, Function.update_of_ne hij.symm]
    exact hdefined.2.read hlive

theorem defined_copyFrom {inert : Bool} {queues : Queues T N} {i j : Nat} {xs : List T} (junk : T) (hij : i ≠ j)
    (h : Holds (queues j) xs) (hok : inert = true ∨ (queues j).empty = true) (hdefined : Defined inert queues i j) :
    Defined inert (copyFrom junk queues i j) i j := by
  rcases hok with hinert | hempty
  · refine (copyFrom_rule hij h ⟨?_, ?_⟩ fun hcopied hk => hcopied.defined_round hij hk hinert).2
    · rw [Function.update_self]
      exact hdefined.1
    · rw [Function.update_of_ne hij.symm]
      exact hdefined.2
  · have hsize : (queues j).size = 0 := beq_iff_eq.mp hempty
    rw [copyFrom_of_size_eq_zero hsize]
    refine ⟨?_, ?_⟩
    · rw [Function.update_self]
      exact hdefined.1
    · rw [Function.update_of_ne hij.symm]
      exact hdefined.2

/-! ## Copies answer alike -/

/-- The queues that a program makes without assigning one to itself, as long as its behaviour is defined. -/
inductive Reachable (inert : Bool) (junk : T) : StackBasedRollingQueue T N → Prop
  | init : Reachable inert junk init
  | exec {q : StackBasedRollingQueue T N} (op : Op T) : Reachable inert junk q → Reachable inert junk (q.exec op).2
  | copy (copying : Copying) (queues : Queues T N) {i j : Nat} : i ≠ j → Reachable inert junk (queues i) →
      Reachable inert junk (queues j) → Defined inert (copying.apply junk queues i j) i j →
        Reachable inert junk (copying.apply junk queues i j i)
  | source (copying : Copying) (queues : Queues T N) {i j : Nat} : i ≠ j → Reachable inert junk (queues i) →
      Reachable inert junk (queues j) → Defined inert (copying.apply junk queues i j) i j →
        Reachable inert junk (copying.apply junk queues i j j)

theorem Reachable.holds {inert : Bool} {junk : T} {q : StackBasedRollingQueue T N} (hN : 0 < N)
    (h : Reachable inert junk q) : (∃ xs, Holds q xs) ∧ q.datas.Defined inert := by
  induction h with
  | init => exact ⟨⟨[], holds_init hN⟩, Storage.defined_empty inert⟩
  | exec op _ ih =>
      obtain ⟨⟨xs, hq⟩, hdefined⟩ := ih
      exact ⟨⟨_, (hq.exec_fifo op).2⟩, hq.defined_exec hdefined op⟩
  | copy copying queues hij _ _ hdefined _ ih =>
      obtain ⟨⟨xs, hq⟩, -⟩ := ih
      exact ⟨⟨xs, (copying.copied junk hij hq).holds⟩, hdefined.1⟩
  | source copying queues hij _ _ hdefined _ ih =>
      obtain ⟨⟨xs, hq⟩, -⟩ := ih
      exact ⟨⟨xs, (copying.copied junk hij hq).source⟩, hdefined.2⟩

/-- Two queues that hold the same elements, wherever they start, answer alike for ever. -/
theorem Holds.trace_eq {q q' : StackBasedRollingQueue T N} {xs : List T} (h : Holds q xs)
    (h' : Holds q' xs) (ops : List (Op T)) : (trace exec q ops).1 = (trace exec q' ops).1 := by
  rw [(trace_refines (fun _ _ op h => h.exec_fifo op) ops h).1,
    (trace_refines (fun _ _ op h => h.exec_fifo op) ops h').1]

/-- `q'` behaves as `q` : whatever is done to it is defined, and answered as `q` would have done. -/
structure BehavesAs (inert : Bool) (q' q : StackBasedRollingQueue T N) : Prop where
  defined : ∀ ops, (trace exec q' ops).2.datas.Defined inert
  answers : ∀ ops, (trace exec q' ops).1 = (trace exec q ops).1

theorem Holds.behavesAs {inert : Bool} {q q' : StackBasedRollingQueue T N} {xs : List T} (h : Holds q xs)
    (h' : Holds q' xs) (hdefined : q'.datas.Defined inert) : BehavesAs inert q' q :=
  ⟨fun ops => h'.defined_trace ops hdefined, h'.trace_eq h⟩

theorem Copying.defined (copying : Copying) {inert : Bool} {queues : Queues T N} {i j : Nat} {xs ys : List T}
    (junk : T) (hij : i ≠ j) (h : Holds (queues j) xs) (htarget : Holds (queues i) ys)
    (hok : inert = true ∨ (queues j).empty = true) (hdefined : Defined inert queues i j) :
    Defined inert (copying.apply junk queues i j) i j := by
  rw [apply_eq]
  split
  · have hsame : Function.update queues i (queues i).destruct j = queues j := Function.update_of_ne hij.symm _ _
    refine defined_copyFrom junk hij (hsame ▸ h) (hsame ▸ hok) ⟨?_, hsame ▸ hdefined.2⟩
    rw [Function.update_self]
    exact htarget.defined_destruct hdefined.1
  · exact defined_copyFrom junk hij h hok hdefined

/-- **When a copy behaves as its source.** Whatever was in the target before, and whichever of the four members
copies: the elements of the copy start at slot 0, and to every sequence of operations it gives the answers that the
source would have given, as the source still does; all that is defined exactly if the source is empty, or the
destructor of an element does nothing on bytes without an object. -/
theorem copy_answers_iff (hN : 0 < N) (inert : Bool) (junk : T) (copying : Copying) (queues : Queues T N)
    {i j : Nat} (hij : i ≠ j) (htarget : Reachable inert junk (queues i)) (hsource : Reachable inert junk (queues j)) :
    let after := copying.apply junk queues i j
    ((after i).start = 0 ∧ BehavesAs inert (after i) (queues j) ∧ BehavesAs inert (after j) (queues j)) ↔
      inert = true ∨ (queues j).empty = true := by
  obtain ⟨⟨xs, hq⟩, hdefined⟩ := hsource.holds hN
  obtain ⟨⟨ys, hi⟩, hdefined'⟩ := htarget.holds hN
  have hcopied : Copied (copying.apply junk queues i j) i j xs xs.length := copying.copied junk hij hq
  constructor
  · rintro ⟨-, hbehaves, -⟩
    by_contra hnot
    obtain ⟨hinert, hempty⟩ := not_or.mp hnot
    have hsize : (queues j).size ≠ 0 := fun h => hempty (beq_iff_eq.mpr h)
    have hevent := hbehaves.defined [] _ (Copying.destroys (fun heq => absurd heq hij) fun _ => hsize)
    rcases hevent with hlive | haccess | ⟨-, hinert'⟩
    · cases hlive
    · cases haccess
    · exact hinert hinert'
  · intro hok
    have hafter := copying.defined junk hij hq hi hok ⟨hdefined', hdefined⟩
    exact ⟨hcopied.start, hq.behavesAs hcopied.holds hafter.1, hq.behavesAs hcopied.source hafter.2⟩

/-- A source whose window is wrapped: 2 in slot 1, 3 in slot 0. -/
def wrapped : StackBasedRollingQueue Nat 2 := (trace exec init [.push 1, .push 2, .pop, .push 3]).2

theorem copy_answers_iff_wrapped :
    wrapped.start = 1 ∧
      (trace exec (Copying.copyAssign.apply 0 (fun _ => wrapped) 5 7 5) [.pop, .push 4, .pop, .pop]).1 =
        (trace exec wrapped [.pop, .push 4, .pop, .pop]).1 := by
  have hwrapped : Reachable true 0 wrapped := .exec (.push 3) (.exec .pop (.exec (.push 2) (.exec (.push 1) .init)))
  have hne : (5 : Nat) ≠ 7 := by decide
  have hcopy := (copy_answers_iff (by decide) true 0 .copyAssign (fun _ => wrapped) hne hwrapped hwrapped).mpr
    (.inl rfl)
  exact ⟨by decide, hcopy.2.1.answers [.pop, .push 4, .pop, .pop]⟩

/-- A queue with one list in it, whose destructor frees what it finds. -/
def single : StackBasedRollingQueue (List Nat) 1 := (init.exec (.push [7])).2

theorem not_copy_answers :
    Reachable false [] single ∧
      ¬ BehavesAs false (Copying.copyConstruct.apply [] (fun k => if k = 0 then single else init) 1 0 1) single := by
  refine ⟨.exec _ .init, fun h => ?_⟩
  rcases h.defined [] ⟨.destroy, 0, false⟩ (by decide) with hlive | haccess | ⟨-, hinert⟩
  · cases hlive
  · cases haccess
  · cases hinert

end StackBasedRollingQueue

end Fipper

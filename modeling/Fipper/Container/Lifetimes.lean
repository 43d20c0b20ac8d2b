import Fipper.Container.Copies

/-!
# The lifetimes of elements under copies

Programs that make, copy, assign, use and destroy queues of one type.

* `Program`, `step` : the queues, under a number each, and which of them exist;
* `Lifetimes` : what the lifetime rules ask of every construction and destruction so far;
* `Keeps` : a queue assigned to itself keeps its contents;
* `harmless` : no queue is copied from while it holds an element, and none is assigned to itself;
* `lifetimes_iff` : the runs that keep the rules.

The constructors run `current->~T()` on slots that hold no object.
-/

namespace Fipper

open Lib

namespace StackBasedRollingQueue
variable {T : Type*} {N : Nat}

/-- The queues, also those that do not exist yet or any more, and whether each exists. -/
structure Program (T : Type*) (N : Nat) where
  queues : Queues T N
  alive : Nat → Bool

namespace Program

inductive Action (T : Type*)
  | construct (i : Nat)
  /-- `j` is copied into `i`. -/
  | copy (copying : Copying) (i j : Nat)
  | push (i : Nat) (value : T)
  | pop (i : Nat)
  | destruct (i : Nat)
  deriving DecidableEq, Repr

def start : Program T N := ⟨fun _ => init, fun _ => false⟩

/-- A constructor is run where no queue is, everything else on queues that exist. -/
def step (junk : T) (s : Program T N) : Action T → Option (Program T N)
  | .construct i =>
      if s.alive i then none
      else some ⟨Function.update s.queues i ⟨0, 0, (s.queues i).datas.raw⟩, Function.update s.alive i true⟩
  | .copy copying i j =>
      if s.alive i = copying.assigns ∧ s.alive j = true then
        some ⟨copying.apply junk s.queues i j, Function.update s.alive i true⟩
      else none
  | .push i value =>
      if s.alive i then some { s with queues := Function.update s.queues i ((s.queues i).push value).2 }
      else none
  | .pop i =>
      if s.alive i then some { s with queues := Function.update s.queues i (s.queues i).pop.2 } else none
  | .destruct i =>
      if s.alive i then
        some ⟨Function.update s.queues i (s.queues i).destruct, Function.update s.alive i false⟩
      else none

/-- What one step can do: the cases of `step`, with their guards. -/
inductive Step (junk : T) (s : Program T N) : Action T → Program T N → Prop
  | construct {i : Nat} (hi : s.alive i = false) :
      Step junk s (.construct i)
        ⟨Function.update s.queues i ⟨0, 0, (s.queues i).datas.raw⟩, Function.update s.alive i true⟩
  | copy {copying : Copying} {i j : Nat} (hi : s.alive i = copying.assigns) (hj : s.alive j = true) :
      Step junk s (.copy copying i j)
        ⟨copying.apply junk s.queues i j, Function.update s.alive i true⟩
  | push {i : Nat} {value : T} (hi : s.alive i = true) :
      Step junk s (.push i value)
        { s with queues := Function.update s.queues i ((s.queues i).push value).2 }
  | pop {i : Nat} (hi : s.alive i = true) :
      Step junk s (.pop i) { s with queues := Function.update s.queues i (s.queues i).pop.2 }
  | destruct {i : Nat} (hi : s.alive i = true) :
      Step junk s (.destruct i)
        ⟨Function.update s.queues i (s.queues i).destruct, Function.update s.alive i false⟩

theorem step_cases {junk : T} {s t : Program T N} {action : Action T}
    (h : s.step junk action = some t) : Step junk s action t := by
  cases action with
  | construct i =>
      obtain ⟨hi, heq⟩ := Option.ite_none_left_eq_some.mp h
      obtain rfl := Option.some.inj heq
      exact .construct (Bool.eq_false_iff.mpr hi)
  | copy copying i j =>
      obtain ⟨⟨hi, hj⟩, heq⟩ := Option.ite_none_right_eq_some.mp h
      obtain rfl := Option.some.inj heq
      exact .copy hi hj
  | push i value =>
      obtain ⟨hi, heq⟩ := Option.ite_none_right_eq_some.mp h
      obtain rfl := Option.some.inj heq
      exact .push hi
  | pop i =>
      obtain ⟨hi, heq⟩ := Option.ite_none_right_eq_some.mp h
      obtain rfl := Option.some.inj heq
      exact .pop hi
  | destruct i =>
      obtain ⟨hi, heq⟩ := Option.ite_none_right_eq_some.mp h
      obtain rfl := Option.some.inj heq
      exact .destruct hi

/-- No access outside a queue's slots, a destructor only where an object lives, and a constructor only
where none does. -/
def Lifetimes (s : Program T N) : Prop :=
  ∀ i, ∀ e ∈ (s.queues i).datas.log,
    e.slot < N ∧ (e.access = .destroy → e.live = true) ∧ (e.access = .construct → e.live = false)

/-- A queue assigned to itself holds what it held before. -/
def Keeps (junk : T) (s : Program T N) (action : Action T) : Prop :=
  ∀ copying i t xs, action = .copy copying i i → s.step junk action = some t →
    Holds (s.queues i) xs → Holds (t.queues i) xs

/-- No copy of a queue that holds elements, and none of a queue into itself. -/
def harmless (s : Program T N) : Action T → Bool
  | .copy _ i j => i != j && (s.queues j).empty
  | _ => true

/-- No access so far was wrong, and the queues that exist hold elements. -/
def Sound (s : Program T N) : Prop :=
  ∀ i, (s.queues i).datas.Clean N ∧ (s.alive i = true → ∃ xs, Holds (s.queues i) xs)

/-- A destructor has run where no object lived. -/
def Misused (s : Program T N) : Prop :=
  ∃ i, ∃ e ∈ (s.queues i).datas.log, e.access = .destroy ∧ e.live = false

theorem Sound.lifetimes {s : Program T N} (h : Sound s) : Lifetimes s := by
  intro i e he
  obtain ⟨hslot, hlive⟩ := (h i).1 e he
  refine ⟨hslot, fun hdestroy => ?_, fun hconstruct => hlive.mpr hconstruct⟩
  by_contra hdead
  rw [hlive.mp (Bool.eq_false_iff.mpr hdead)] at hdestroy
  cases hdestroy

theorem Misused.not_lifetimes {s : Program T N} (h : Misused s) : ¬ Lifetimes s := by
  obtain ⟨i, e, he, hdestroy, hdead⟩ := h
  intro hlifetimes
  have hlive := (hlifetimes i e he).2.1 hdestroy
  rw [hdead] at hlive
  cases hlive

theorem Step.later {junk : T} {s t : Program T N} {action : Action T} (h : Step junk s action t) :
    Later s.queues t.queues := by
  cases h with
  | construct => exact later_update List.suffix_rfl
  | copy => exact later_apply _ _ _ _ _
  | push => exact later_push _ _ _
  | pop => exact later_pop _ _
  | destruct => exact later_destruct _ _

theorem Step.misused {junk : T} {s t : Program T N} {action : Action T} (h : Step junk s action t)
    (hs : Misused s) : Misused t := by
  obtain ⟨i, e, he, hmisuse⟩ := hs
  exact ⟨i, e, (h.later i).mem he, hmisuse⟩

/-! ## A copy of elements destroys what is not there -/

theorem misused_copy {junk : T} {s : Program T N} {copying : Copying} {i j : Nat}
    (hassigns : i = j → copying.assigns = true) (h : ¬ s.harmless (.copy copying i j)) :
    ⟨.destroy, 0, false⟩ ∈ (copying.apply junk s.queues i j i).datas.log := by
  apply Copying.destroys hassigns
  intro hij
  simpa [harmless, hij, StackBasedRollingQueue.empty] using h

/-! ## One step -/

theorem clean_destruct {q : StackBasedRollingQueue T N} {xs : List T} (h : Represents q xs) :
    q.destruct.datas.Clean N := by
  intro e he
  rw [h.destroyed, List.mem_append, List.mem_reverse] at he
  rcases he with he | he
  · obtain ⟨k, _, rfl⟩ := List.mem_map.mp he
    exact ⟨Nat.mod_lt _ (Nat.zero_lt_of_lt h.start_lt), iff_of_false Bool.noConfusion Access.noConfusion⟩
  · exact h.clean e he

theorem Sound.represents {s : Program T N} (h : Sound s) {i : Nat} (hi : s.alive i = true) :
    ∃ xs, Represents (s.queues i) xs := by
  obtain ⟨xs, hxs⟩ := (h i).2 hi
  exact ⟨xs, ⟨hxs, (h i).1⟩⟩

theorem Sound.update {s : Program T N} (h : Sound s) {i : Nat} {q : StackBasedRollingQueue T N}
    {alive : Nat → Bool} (hclean : q.datas.Clean N) (hq : alive i = true → ∃ xs, Holds q xs)
    (halive : ∀ k, k ≠ i → alive k = s.alive k) :
    Sound (⟨Function.update s.queues i q, alive⟩ : Program T N) := by
  intro k
  show (Function.update s.queues i q k).datas.Clean N ∧
    (alive k = true → ∃ xs, Holds (Function.update s.queues i q k) xs)
  by_cases hk : k = i
  · subst hk
    rw [Function.update_self]
    exact ⟨hclean, hq⟩
  · rw [Function.update_of_ne hk, halive k hk]
    exact h k

theorem sound_copy (hN : 0 < N) {junk : T} {s : Program T N} {copying : Copying} {i j : Nat}
    (hs : Sound s) (hi : s.alive i = copying.assigns) (hok : s.harmless (.copy copying i j)) :
    Sound (⟨copying.apply junk s.queues i j, Function.update s.alive i true⟩ : Program T N) := by
  obtain ⟨hij, hsize⟩ : i ≠ j ∧ (s.queues j).size = 0 := by
    simpa [harmless, StackBasedRollingQueue.empty] using hok
  have halive : ∀ k, k ≠ i → Function.update s.alive i true k = s.alive k :=
    fun k hk => Function.update_of_ne hk true s.alive
  rw [Copying.apply_eq]
  split
  · rename_i hassigns
    obtain ⟨xs, hxs⟩ := hs.represents (hi.trans hassigns)
    rw [copyFrom_of_size_eq_zero (by rwa [Function.update_of_ne (Ne.symm hij)]), Function.update_idem,
      Function.update_self]
    exact hs.update (clean_destruct hxs) (fun _ => ⟨[], holds_nil hN fun _ => rfl⟩) halive
  · rw [copyFrom_of_size_eq_zero hsize]
    exact hs.update (hs i).1 (fun _ => ⟨[], holds_nil hN fun _ => rfl⟩) halive

theorem Step.sound (hN : 0 < N) {junk : T} {s t : Program T N} {action : Action T}
    (h : Step junk s action t) (hs : Sound s) (hok : s.harmless action) : Sound t := by
  cases h with
  | @construct i =>
      exact hs.update (hs i).1 (fun _ => ⟨[], holds_nil hN fun _ => rfl⟩)
        fun k hk => Function.update_of_ne hk _ _
  | copy hi => exact sound_copy hN hs hi hok
  | @push i value hi =>
      obtain ⟨xs, hxs⟩ := hs.represents hi
      have hq := (hxs.exec_fifo (.push value)).2
      exact hs.update hq.clean (fun _ => ⟨_, hq.toHolds⟩) fun _ _ => rfl
  | pop hi =>
      obtain ⟨xs, hxs⟩ := hs.represents hi
      have hq := (hxs.exec_fifo .pop).2
      exact hs.update hq.clean (fun _ => ⟨_, hq.toHolds⟩) fun _ _ => rfl
  | destruct hi =>
      obtain ⟨xs, hxs⟩ := hs.represents hi
      refine hs.update (clean_destruct hxs) (fun h => ?_) fun k hk => Function.update_of_ne hk _ _
      rw [Function.update_self] at h
      cases h

theorem Step.misused_of_not_harmless {junk : T} {s t : Program T N} {action : Action T}
    (h : Step junk s action t) (hok : ¬ s.harmless action) : Misused t := by
  cases h with
  | @copy copying i j hi hj =>
      refine ⟨i, _, misused_copy (fun hij => ?_) hok, rfl, rfl⟩
      rw [← hi, hij, hj]
  | construct => exact absurd rfl hok
  | push => exact absurd rfl hok
  | pop => exact absurd rfl hok
  | destruct => exact absurd rfl hok

/-! ## Runs -/

/-- **The runs that keep the lifetime rules.** In a run of queues the elements' lifetimes are kept, and
the contents of every queue that is assigned to itself, exactly if the queues that are copied from hold
nothing and none is assigned to itself. -/
theorem lifetimes_iff (hN : 0 < N) (junk : T) {actions : List (Action T)} {s : Program T N}
    (hrun : run (step junk) start actions = some s) :
    Lifetimes s ∧ Along (step junk) (Keeps junk) (start : Program T N) actions ↔
      Along (step junk) (fun s action => s.harmless action) (start : Program T N) actions := by
  have hstart : Sound (start : Program T N) := fun _ => ⟨Storage.clean_empty N, fun h => by cases h⟩
  have hbranch := @along_and_good_or_bad _ _ (step junk) (fun _ => True) Sound Misused
    (fun s action => s.harmless action) (fun _ _ _ _ _ => trivial)
    (fun _ _ _ _ hs hok h => (step_cases h).sound hN hs hok)
    (fun _ _ _ _ _ hok h => (step_cases h).misused_of_not_harmless hok)
    (fun _ _ _ hs h => (step_cases h).misused hs)
    actions start s trivial hstart hrun
  rcases hbranch with ⟨hok, hs⟩ | ⟨hok, hs⟩
  · refine iff_of_true ⟨hs.lifetimes, ?_⟩ hok
    -- such a run assigns no queue to itself
    refine hok.imp fun s action hok copying i t xs haction => ?_
    rw [haction] at hok
    simp [harmless] at hok
  · exact iff_of_false (fun h => hs.not_lifetimes h.1) hok

/-- A queue is copied that holds one element. -/
def copied : List (Action Nat) := [.construct 0, .push 0 5, .copy .copyConstruct 1 0]

/-- A queue is copied after its element has left. -/
def emptied : List (Action Nat) := [.construct 0, .push 0 5, .pop 0, .copy .copyConstruct 1 0]

theorem lifetimes_emptied :
    ∃ s : Program Nat 1, run (step 0) start emptied = some s ∧ Lifetimes s := by
  obtain ⟨s, hrun⟩ : ∃ s : Program Nat 1, run (step 0) start emptied = some s := ⟨_, rfl⟩
  have hharmless : Along (step 0) (fun s action => s.harmless action) (start : Program Nat 1) emptied := by
    decide
  exact ⟨s, hrun, ((lifetimes_iff (by decide) 0 hrun).mpr hharmless).1⟩

theorem not_lifetimes_copied :
    ∃ s : Program Nat 1, run (step 0) start copied = some s ∧ ¬ Lifetimes s := by
  refine ⟨_, rfl, fun h => ?_⟩
  have hlive := (h 1 ⟨.destroy, 0, false⟩ (by decide)).2.1 rfl
  cases hlive

end Program

end StackBasedRollingQueue

end Fipper

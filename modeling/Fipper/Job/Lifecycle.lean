import Fipper.Job.Scheduler

/-!
# Several job schedulers in one process

`s_running`, the job queue, its mutex and its condition variable are static, so all the `JobScheduler`s
of a process share one `Scheduler`; a thread belongs to the scheduler whose `create` has started it.

* `Process`, `step` : schedulers are constructed, created and destroyed while their threads run;
* `Working` : the workers of every scheduler that is created and not destroyed see the flag set;
* `Harmless` : none is created after one was destroyed, and none destroyed while another is live;
* `working_iff` : the runs in which they always do.
-/

namespace Fipper

open Lib

/-- How far a `JobScheduler` has come. -/
inductive Phase
  | absent
  | constructed
  | created
  /-- In the destructor: the flag is written, the threads are joined. -/
  | stopping
  | destroyed
  deriving DecidableEq, Repr

/-- The thread has returned from `s_threadMain`. -/
def WorkerPoint.ended {J : Type*} : WorkerPoint J → Bool
  | .exited => true
  | _ => false

/-- The worker that takes a step. -/
def Scheduler.Action.worker {J : Type*} : Scheduler.Action J → Option Nat
  | .enter w | .acquire w | .check w | .wake w | .timeout w | .recheck w | .pop w | .begin w
  | .finish w => some w
  | .offer _ _ _ | .push _ | .release _ | .stop => none

/-- The static state with all threads, and the schedulers: `threads i` is `m_threads` of the `i`-th.
Workers are numbered as they are started. -/
structure Process (J : Type*) where
  scheduler : Scheduler J
  phase : Nat → Phase
  threads : Nat → List Nat
  started : Nat

namespace Process
variable {J : Type*}

inductive Action (J : Type*)
  | construct (i : Nat)
  /-- `create` of the `i`-th scheduler, with so many threads. -/
  | create (i threadCount : Nat)
  /-- The destructor of the `i`-th scheduler writes `s_running`. -/
  | destruct (i : Nat)
  /-- Its last `join` returns. -/
  | join (i : Nat)
  | thread (action : Scheduler.Action J)

def start : Process J := ⟨.init, fun _ => .absent, fun _ => [], 0⟩

def step [DecidableEq J] (s : Process J) : Action J → Option (Process J)
  | .construct i =>
      if s.phase i = .absent then some { s with phase := Function.update s.phase i .constructed } else none
  | .create i threadCount =>
      if s.phase i = .constructed ∨ s.phase i = .created then
        some { s with
          phase := Function.update s.phase i .created
          threads := Function.update s.threads i (s.threads i ++ List.range' s.started threadCount)
          started := s.started + threadCount }
      else none
  | .destruct i =>
      if s.phase i = .constructed ∨ s.phase i = .created then
        some { s with
          scheduler := { s.scheduler with running := false }
          phase := Function.update s.phase i .stopping }
      else none
  | .join i =>
      if s.phase i = .stopping ∧ ∀ w ∈ s.threads i, (s.scheduler.workers w).ended = true then
        some { s with phase := Function.update s.phase i .destroyed }
      else none
  | .thread .stop => none
  | .thread action =>
      if ∀ w ∈ action.worker, w < s.started then
        (s.scheduler.step action).map fun scheduler => { s with scheduler := scheduler }
      else none

/-- What one step can do: the cases of `step`, with their guards. -/
inductive Step (s : Process J) : Action J → Process J → Prop
  | construct {i : Nat} (hi : s.phase i = .absent) :
      Step s (.construct i) { s with phase := Function.update s.phase i .constructed }
  | create {i threadCount : Nat} (hi : s.phase i = .constructed ∨ s.phase i = .created) :
      Step s (.create i threadCount)
        { s with
          phase := Function.update s.phase i .created
          threads := Function.update s.threads i (s.threads i ++ List.range' s.started threadCount)
          started := s.started + threadCount }
  | destruct {i : Nat} (hi : s.phase i = .constructed ∨ s.phase i = .created) :
      Step s (.destruct i)
        { s with
          scheduler := { s.scheduler with running := false }
          phase := Function.update s.phase i .stopping }
  | join {i : Nat} (hi : s.phase i = .stopping)
      (hended : ∀ w ∈ s.threads i, (s.scheduler.workers w).ended = true) :
      Step s (.join i) { s with phase := Function.update s.phase i .destroyed }
  | thread {action : Scheduler.Action J} {scheduler : Scheduler J} (hstop : action ≠ .stop)
      (hw : ∀ w ∈ action.worker, w < s.started) (h : Scheduler.Step s.scheduler action scheduler) :
      Step s (.thread action) { s with scheduler := scheduler }

theorem step_cases [DecidableEq J] {s t : Process J} {action : Action J}
    (h : s.step action = some t) : Step s action t := by
  cases action with
  | construct i =>
      obtain ⟨hi, rfl⟩ : s.phase i = .absent ∧ _ := by simpa [step] using h
      exact .construct hi
  | create i threadCount =>
      obtain ⟨hi, rfl⟩ : (s.phase i = .constructed ∨ s.phase i = .created) ∧ _ := by
        simpa [step] using h
      exact .create hi
  | destruct i =>
      obtain ⟨hi, rfl⟩ : (s.phase i = .constructed ∨ s.phase i = .created) ∧ _ := by
        simpa [step] using h
      exact .destruct hi
  | join i =>
      obtain ⟨⟨hi, hended⟩, rfl⟩ : (s.phase i = .stopping ∧ _) ∧ _ := by simpa [step] using h
      exact .join hi hended
  | thread action =>
      have hstop : action ≠ .stop := by
        rintro rfl
        cases h
      have hstep : (if ∀ w ∈ action.worker, w < s.started then
          (s.scheduler.step action).map fun scheduler => { s with scheduler := scheduler } else none) =
            some t := by
        cases action <;> first | exact h | exact absurd rfl hstop
      obtain ⟨hw, hstep⟩ := Option.ite_none_right_eq_some.mp hstep
      obtain ⟨scheduler, hscheduler, rfl⟩ := Option.map_eq_some_iff.mp hstep
      exact .thread hstop hw (Scheduler.step_cases hscheduler)

/-- The workers of every live scheduler find the flag set, and none of them has ended. -/
def Working (s : Process J) : Prop :=
  ∀ i, s.phase i = .created →
    s.scheduler.running = true ∧ ∀ w ∈ s.threads i, (s.scheduler.workers w).ended = false

/-- No scheduler is created after one was destroyed, and none is destroyed while another is live. -/
def Harmless (s : Process J) : Action J → Prop
  | .create _ _ => ∀ j, s.phase j ≠ .stopping ∧ s.phase j ≠ .destroyed
  | .destruct i => ∀ j, j ≠ i → s.phase j ≠ .created
  | _ => True

/-- The flag is set until the first destructor, and no worker ends before. -/
structure Inv (s : Process J) : Prop where
  stopped : s.scheduler.running = false ↔ ∃ i, s.phase i = .stopping ∨ s.phase i = .destroyed
  ended : ∀ w, (s.scheduler.workers w).ended = true → s.scheduler.running = false

end Process

/-! ## The threads -/

namespace Scheduler
variable {J : Type*} {s t : Scheduler J} {action : Action J}

theorem Step.running (h : Step s action t) (hstop : action ≠ .stop) : t.running = s.running := by
  cases h <;> first | rfl | exact absurd rfl hstop

/-- A worker ends only where it finds the flag cleared. -/
theorem Step.ended (h : Step s action t) {w : Nat} (hw : (t.workers w).ended = true) :
    (s.workers w).ended = true ∨ s.running = false := by
  have hmove : ∀ {w' : Nat} {point : WorkerPoint J},
      (Function.update s.workers w' point w).ended = true → point.ended = false →
        (s.workers w).ended = true := by
    intro w' point hw hpoint
    by_cases hne : w = w'
    · rw [hne, Function.update_self, hpoint] at hw
      cases hw
    · rwa [Function.update_of_ne hne] at hw
  cases h with
  | enter hw' =>
      by_cases hrunning : s.running = true
      · rw [if_pos hrunning, moveWorker_workers] at hw
        exact .inl (hmove hw rfl)
      · exact .inr (Bool.eq_false_iff.mpr hrunning)
  | offer => exact .inl hw
  | push => exact .inl hw
  | release => exact .inl hw
  | stop => exact .inl hw
  -- every other step moves one worker to a point inside the loop
  | _ => exact .inl (hmove hw rfl)

end Scheduler

/-! ## One step -/

namespace Process
variable {J : Type*} {s t : Process J} {action : Action J}

theorem inv_start : Inv (start : Process J) where
  stopped := iff_of_false Bool.noConfusion fun ⟨_, h⟩ => h.elim Phase.noConfusion Phase.noConfusion
  ended _ h := by cases h

/-- The flag alone decides. -/
theorem Inv.working_iff_running (h : Inv s) :
    Working s ↔ ∀ i, s.phase i = .created → s.scheduler.running = true := by
  refine forall_congr' fun i => imp_congr_right fun _ => and_iff_left_of_imp fun hrunning w _ => ?_
  by_contra hended
  rw [h.ended w (Bool.not_eq_false _ ▸ hended)] at hrunning
  cases hrunning

/-- The flag is set as long as no destructor was run. -/
theorem Inv.running_iff (h : Inv s) :
    s.scheduler.running = true ↔ ∀ j, s.phase j ≠ .stopping ∧ s.phase j ≠ .destroyed := by
  rw [← Bool.not_eq_false, h.stopped, not_exists]
  exact forall_congr' fun j => not_or

theorem created_of_update {phase : Nat → Phase} {i j : Nat} {p : Phase} (hp : p ≠ .created)
    (h : Function.update phase i p j = .created) : j ≠ i ∧ phase j = .created := by
  by_cases hj : j = i
  · rw [hj, Function.update_self] at h
    exact absurd h hp
  · rw [Function.update_of_ne hj] at h
    exact ⟨hj, h⟩

/-- A phase that is neither that of a destructor nor past it may be passed. -/
theorem exists_update_iff {phase : Nat → Phase} {i : Nat} {p : Phase}
    (hold : phase i ≠ .stopping ∧ phase i ≠ .destroyed) (hnew : p ≠ .stopping ∧ p ≠ .destroyed) :
    (∃ j, Function.update phase i p j = .stopping ∨ Function.update phase i p j = .destroyed) ↔
      ∃ j, phase j = .stopping ∨ phase j = .destroyed := by
  apply exists_congr
  intro j
  by_cases hj : j = i
  · rw [hj, Function.update_self]
    exact iff_of_false (not_or.mpr hnew) (not_or.mpr hold)
  · rw [Function.update_of_ne hj]

theorem Step.inv (h : Step s action t) (hs : Inv s) : Inv t := by
  cases h with
  | construct hi =>
      refine ⟨?_, hs.ended⟩
      rw [hs.stopped, exists_update_iff (by rw [hi]; decide) (by decide)]
  | create hi =>
      refine ⟨?_, hs.ended⟩
      rw [hs.stopped, exists_update_iff (by rcases hi with hi | hi <;> rw [hi] <;> decide) (by decide)]
  | @destruct i =>
      exact ⟨iff_of_true rfl ⟨i, .inl (Function.update_self i _ _)⟩, fun _ _ => rfl⟩
  | @join i hi =>
      exact ⟨iff_of_true (hs.stopped.mpr ⟨i, .inl hi⟩) ⟨i, .inr (Function.update_self i _ _)⟩, hs.ended⟩
  | @thread action scheduler hstop _ hstep =>
      have hrunning : scheduler.running = s.scheduler.running := hstep.running hstop
      refine ⟨?_, fun w hw => ?_⟩
      · rw [← hs.stopped, ← hrunning]
      · rw [show scheduler.running = _ from hrunning]
        rcases hstep.ended hw with hw | hw
        · exact hs.ended w hw
        · exact hw

/-- From a state in which all live workers run, the next one is such a state exactly after a harmless
step. -/
theorem Step.working (h : Step s action t) (hi : Inv s) (hs : Working s) :
    Working t ↔ Harmless s action := by
  rw [(h.inv hi).working_iff_running]
  rw [hi.working_iff_running] at hs
  cases h with
  | construct =>
      exact iff_of_true (fun j hj => hs j (created_of_update (by decide) hj).2) trivial
  | @create i =>
      show _ ↔ ∀ j, s.phase j ≠ .stopping ∧ s.phase j ≠ .destroyed
      rw [← hi.running_iff]
      exact ⟨fun hall => hall i (Function.update_self i _ _), fun hrunning _ _ => hrunning⟩
  | destruct =>
      constructor
      · intro hall j hj hcreated
        exact Bool.noConfusion (hall j ((Function.update_of_ne hj _ _).trans hcreated))
      · intro hnone j hj
        obtain ⟨hne, hcreated⟩ := created_of_update (by decide) hj
        exact absurd hcreated (hnone j hne)
  | join =>
      exact iff_of_true (fun j hj => hs j (created_of_update (by decide) hj).2) trivial
  | thread hstop _ hstep =>
      exact iff_of_true (fun j hj => (hstep.running hstop).trans (hs j hj)) trivial

/-- **When the workers of live schedulers run.** A run passes only through states in which the workers
of every live scheduler run exactly if no scheduler is created after one was destroyed, and none is
destroyed while another one is live. -/
theorem working_iff [DecidableEq J] {actions : List (Action J)} (h : run step start actions = some t) :
    (∀ before s, before <+: actions → run step start before = some s → Working s) ↔
      Along step Harmless start actions := by
  have hstart : Working (start : Process J) := fun _ h => Phase.noConfusion h
  exact good_throughout_iff (fun _ _ _ hs h => (step_cases h).inv hs)
    (fun _ _ _ hi hs h => (step_cases h).working hi hs) inv_start hstart h

/-- A scheduler is created and destroyed. -/
def once : List (Action Nat) := [.construct 0, .create 0 1, .destruct 0, .thread (.enter 0), .join 0]

/-- Then a second one is created, and its worker begins. -/
def twice : List (Action Nat) := once ++ [.construct 1, .create 1 1, .thread (.enter 1)]

theorem working_once : ∃ t : Process Nat, run step start once = some t ∧
    ∀ before s, before <+: once → run step start before = some s → Working s := by
  obtain ⟨t, hrun⟩ : ∃ t : Process Nat, run step start once = some t := ⟨_, rfl⟩
  refine ⟨t, hrun, (working_iff hrun).mpr ⟨trivial, fun s hs => ?_⟩⟩
  obtain rfl := Option.some.inj hs
  refine ⟨fun j => ?_, fun s hs => ?_⟩
  · show Function.update (fun _ => Phase.absent) 0 .constructed j ≠ .stopping ∧
      Function.update (fun _ => Phase.absent) 0 .constructed j ≠ .destroyed
    rw [Function.update_apply]
    split <;> decide
  · obtain rfl := Option.some.inj hs
    refine ⟨fun j hj => ?_, fun s hs => ?_⟩
    · show Function.update (Function.update (fun _ => Phase.absent) 0 .constructed) 0 .created j ≠ .created
      rw [Function.update_of_ne hj, Function.update_of_ne hj]
      decide
    · exact ⟨trivial, fun s hs => ⟨trivial, fun t ht => trivial⟩⟩

/-- The flag is never set again: the worker of the second scheduler ends at once. -/
theorem not_working_twice : ∃ t : Process Nat, run step start twice = some t ∧
    t.phase 1 = .created ∧ 1 ∈ t.threads 1 ∧ (t.scheduler.workers 1).ended = true ∧ ¬ Working t := by
  refine ⟨_, rfl, rfl, by decide, rfl, fun h => ?_⟩
  have hrunning := (h 1 rfl).1
  cases hrunning

end Process

end Fipper

import Fipper.Job.Queue

/-!
# `JobScheduler`: producers, workers and the mutex

The threads that touch the job queue, one atomic step at a time. A producer constructs a
`JobPushingLockGuard`, calls `JobQueue::push` and destroys the guard; a worker runs `s_threadMain`,
with `waitForJob` taken apart into the steps of `std::condition_variable::wait_for`: evaluate the
predicate under the lock, sleep without it, wake up (notified or not) or time out, and evaluate it
again. An action list is one interleaving; there is no bound on the number of threads.

* `step` : the transition system; `next` is its effect and `Enabled` its guard;
* `Exclusive` : `s_mutex` is held by exactly the thread that is in a critical section;
* `Accounted` : a ledger gives every job one `Place`, and queues, workers and logs agree with it;
* `job_conservation` : what follows for every reachable state.
-/

namespace Fipper

open Lib

/-- A thread that may own `s_mutex`. -/
inductive Thread
  | worker (w : Nat)
  | producer (p : Nat)
  deriving DecidableEq, Repr

/-- Where a worker is in `s_threadMain`. -/
inductive WorkerPoint (J : Type*)
  | top
  /-- At the constructor of the `JobAcquisitionLockGuard`. -/
  | acquiring
  /-- In `wait_for`, with the mutex, at the predicate. -/
  | checking
  /-- In `wait_for`, without the mutex, on the condition variable. -/
  | sleeping
  /-- In `wait_for`, with the mutex again, at the predicate after the timeout. -/
  | timedOut
  /-- `waitForJob` has returned true; the mutex is still held. -/
  | popping
  /-- The guard is gone and `jobWithError` is known. -/
  | popped (jobWithError : Option J)
  | working (job : J)
  | exited

namespace WorkerPoint
variable {J : Type*}

def inside : WorkerPoint J → Bool
  | checking | timedOut | popping => true
  | _ => false

/-- The job the worker has taken and not finished. -/
def job : WorkerPoint J → Option J
  | popped jobWithError => jobWithError
  | working job => some job
  | _ => none

end WorkerPoint

/-- Where a producer is in a call of `JobQueue::push`. -/
inductive ProducerPoint (J : Type*)
  | outside
  /-- The `JobPushingLockGuard` is there, `push` not yet called. -/
  | locked (priority : JobPriority) (job : J)
  /-- `push` has returned, the guard is still there. -/
  | pushed

namespace ProducerPoint
variable {J : Type*}

def inside : ProducerPoint J → Bool
  | outside => false
  | _ => true

def pending : ProducerPoint J → Option J
  | locked _ job => some job
  | _ => none

end ProducerPoint

/-- What has happened to the jobs so far, the latest first. -/
structure JobLog (J : Type*) where
  offered : List J
  accepted : List J
  rejected : List J
  executed : List J

/-- The static state of the scheduler, its threads, and the log. -/
structure Scheduler (J : Type*) where
  queue : JobQueue J
  mutex : Option Thread
  running : Bool
  workers : Nat → WorkerPoint J
  producers : Nat → ProducerPoint J
  log : JobLog J

namespace Scheduler

inductive Action (J : Type*)
  /-- Producer `p` has a new job and constructs its guard. -/
  | offer (p : Nat) (priority : JobPriority) (job : J)
  | push (p : Nat)
  | release (p : Nat)
  /-- Worker `w` reads `s_running`. -/
  | enter (w : Nat)
  | acquire (w : Nat)
  /-- Worker `w` evaluates the predicate of `wait_for`. -/
  | check (w : Nat)
  /-- Worker `w` wakes up, notified or not. -/
  | wake (w : Nat)
  | timeout (w : Nat)
  | recheck (w : Nat)
  | pop (w : Nat)
  | begin (w : Nat)
  | finish (w : Nat)
  /-- A destructor writes `s_running`. -/
  | stop

variable {J : Type*}

/-- No thread has started; `s_running` is set. -/
def init : Scheduler J := ⟨.init, none, true, fun _ => .top, fun _ => .outside, ⟨[], [], [], []⟩⟩

/-- Worker `w` moves to `point`, and the mutex belongs to `mutex`. -/
def moveWorker (s : Scheduler J) (w : Nat) (point : WorkerPoint J) (mutex : Option Thread) :
    Scheduler J :=
  { s with workers := Function.update s.workers w point, mutex := mutex }

/-- Producer `p` moves to `point`, and the mutex belongs to `mutex`. -/
def moveProducer (s : Scheduler J) (p : Nat) (point : ProducerPoint J) (mutex : Option Thread) :
    Scheduler J :=
  { s with producers := Function.update s.producers p point, mutex := mutex }

@[simp] theorem moveWorker_queue (s : Scheduler J) (w : Nat) (point : WorkerPoint J)
    (mutex : Option Thread) : (s.moveWorker w point mutex).queue = s.queue := rfl

@[simp] theorem moveWorker_mutex (s : Scheduler J) (w : Nat) (point : WorkerPoint J)
    (mutex : Option Thread) : (s.moveWorker w point mutex).mutex = mutex := rfl

@[simp] theorem moveWorker_workers (s : Scheduler J) (w : Nat) (point : WorkerPoint J)
    (mutex : Option Thread) :
    (s.moveWorker w point mutex).workers = Function.update s.workers w point := rfl

@[simp] theorem moveWorker_producers (s : Scheduler J) (w : Nat) (point : WorkerPoint J)
    (mutex : Option Thread) : (s.moveWorker w point mutex).producers = s.producers := rfl

@[simp] theorem moveWorker_log (s : Scheduler J) (w : Nat) (point : WorkerPoint J)
    (mutex : Option Thread) : (s.moveWorker w point mutex).log = s.log := rfl

@[simp] theorem moveProducer_queue (s : Scheduler J) (p : Nat) (point : ProducerPoint J)
    (mutex : Option Thread) : (s.moveProducer p point mutex).queue = s.queue := rfl

@[simp] theorem moveProducer_mutex (s : Scheduler J) (p : Nat) (point : ProducerPoint J)
    (mutex : Option Thread) : (s.moveProducer p point mutex).mutex = mutex := rfl

@[simp] theorem moveProducer_workers (s : Scheduler J) (p : Nat) (point : ProducerPoint J)
    (mutex : Option Thread) : (s.moveProducer p point mutex).workers = s.workers := rfl

@[simp] theorem moveProducer_producers (s : Scheduler J) (p : Nat) (point : ProducerPoint J)
    (mutex : Option Thread) :
    (s.moveProducer p point mutex).producers = Function.update s.producers p point := rfl

@[simp] theorem moveProducer_log (s : Scheduler J) (p : Nat) (point : ProducerPoint J)
    (mutex : Option Thread) : (s.moveProducer p point mutex).log = s.log := rfl

/-- The predicate of `waitForJob`. -/
def hasJob (s : Scheduler J) : Bool := s.queue.queuedJobsCount != 0

/-- `JobQueue::push` by producer `p`, and what it answered. -/
def pushJob (s : Scheduler J) (p : Nat) (priority : JobPriority) (job : J) : Scheduler J :=
  let (result, queue) := s.queue.push priority job
  let log :=
    if result = .eSuccess then { s.log with accepted := job :: s.log.accepted }
    else { s.log with rejected := job :: s.log.rejected }
  { s.moveProducer p .pushed (some (.producer p)) with queue := queue, log := log }

/-- `JobQueue::pop` by worker `w`, at the end of its critical section. -/
def popJob (s : Scheduler J) (w : Nat) : Scheduler J :=
  let (job, queue) := s.queue.pop
  { s.moveWorker w (.popped job) none with queue := queue }

/-- One atomic step; `none` where the thread is not at that point or would block. -/
def step [DecidableEq J] (s : Scheduler J) : Action J → Option (Scheduler J)
  | .offer p priority job =>
      match s.producers p, s.mutex with
      | .outside, none =>
          -- a `Job` is move-only: no two pushes offer the same one
          if job ∈ s.log.offered then none
          else some { s.moveProducer p (.locked priority job) (some (.producer p)) with
            log := { s.log with offered := job :: s.log.offered } }
      | _, _ => none
  | .push p =>
      match s.producers p with
      | .locked priority job => some (s.pushJob p priority job)
      | _ => none
  | .release p =>
      match s.producers p with
      | .pushed => some (s.moveProducer p .outside none)
      | _ => none
  | .enter w =>
      match s.workers w with
      | .top => some (s.moveWorker w (if s.running then .acquiring else .exited) s.mutex)
      | _ => none
  | .acquire w =>
      match s.workers w, s.mutex with
      | .acquiring, none => some (s.moveWorker w .checking (some (.worker w)))
      | _, _ => none
  | .check w =>
      match s.workers w with
      | .checking =>
          if s.hasJob then some (s.moveWorker w .popping s.mutex)
          else some (s.moveWorker w .sleeping none)
      | _ => none
  | .wake w =>
      match s.workers w, s.mutex with
      | .sleeping, none => some (s.moveWorker w .checking (some (.worker w)))
      | _, _ => none
  | .timeout w =>
      match s.workers w, s.mutex with
      | .sleeping, none => some (s.moveWorker w .timedOut (some (.worker w)))
      | _, _ => none
  | .recheck w =>
      match s.workers w with
      | .timedOut =>
          if s.hasJob then some (s.moveWorker w .popping s.mutex)
          else some (s.moveWorker w .top none)
      | _ => none
  | .pop w =>
      match s.workers w with
      | .popping => some (s.popJob w)
      | _ => none
  | .begin w =>
      match s.workers w with
      | .popped (some job) => some (s.moveWorker w (.working job) s.mutex)
      | .popped none => some (s.moveWorker w .top s.mutex)
      | _ => none
  | .finish w =>
      match s.workers w with
      | .working job =>
          some { s.moveWorker w .top s.mutex with
            log := { s.log with executed := job :: s.log.executed } }
      | _ => none
  | .stop => some { s with running := false }

/-- What one step can do: the cases of `step`, with their guards. -/
inductive Step (s : Scheduler J) : Action J → Scheduler J → Prop
  | offer {p : Nat} {priority : JobPriority} {job : J} (hp : s.producers p = .outside)
      (hm : s.mutex = none) (hnew : job ∉ s.log.offered) :
      Step s (.offer p priority job)
        { s.moveProducer p (.locked priority job) (some (.producer p)) with
          log := { s.log with offered := job :: s.log.offered } }
  | push {p : Nat} {priority : JobPriority} {job : J} (hp : s.producers p = .locked priority job) :
      Step s (.push p) (s.pushJob p priority job)
  | release {p : Nat} (hp : s.producers p = .pushed) :
      Step s (.release p) (s.moveProducer p .outside none)
  | enter {w : Nat} (hw : s.workers w = .top) :
      Step s (.enter w) (s.moveWorker w (if s.running then .acquiring else .exited) s.mutex)
  | acquire {w : Nat} (hw : s.workers w = .acquiring) (hm : s.mutex = none) :
      Step s (.acquire w) (s.moveWorker w .checking (some (.worker w)))
  | check_true {w : Nat} (hw : s.workers w = .checking) (hjob : s.hasJob = true) :
      Step s (.check w) (s.moveWorker w .popping s.mutex)
  | check_false {w : Nat} (hw : s.workers w = .checking) (hjob : s.hasJob = false) :
      Step s (.check w) (s.moveWorker w .sleeping none)
  | wake {w : Nat} (hw : s.workers w = .sleeping) (hm : s.mutex = none) :
      Step s (.wake w) (s.moveWorker w .checking (some (.worker w)))
  | timeout {w : Nat} (hw : s.workers w = .sleeping) (hm : s.mutex = none) :
      Step s (.timeout w) (s.moveWorker w .timedOut (some (.worker w)))
  | recheck_true {w : Nat} (hw : s.workers w = .timedOut) (hjob : s.hasJob = true) :
      Step s (.recheck w) (s.moveWorker w .popping s.mutex)
  | recheck_false {w : Nat} (hw : s.workers w = .timedOut) (hjob : s.hasJob = false) :
      Step s (.recheck w) (s.moveWorker w .top none)
  | pop {w : Nat} (hw : s.workers w = .popping) : Step s (.pop w) (s.popJob w)
  | begin_some {w : Nat} {job : J} (hw : s.workers w = .popped (some job)) :
      Step s (.begin w) (s.moveWorker w (.working job) s.mutex)
  | begin_none {w : Nat} (hw : s.workers w = .popped none) :
      Step s (.begin w) (s.moveWorker w .top s.mutex)
  | finish {w : Nat} {job : J} (hw : s.workers w = .working job) :
      Step s (.finish w)
        { s.moveWorker w .top s.mutex with log := { s.log with executed := job :: s.log.executed } }
  | stop : Step s .stop { s with running := false }

theorem step_cases [DecidableEq J] {s t : Scheduler J} {a : Action J} (h : s.step a = some t) :
    Step s a t := by
  cases a with
  | offer p priority job =>
      simp only [step] at h
      split at h
      · next hp hm =>
          split at h
          · cases h
          · next hnew =>
              cases h
              exact .offer hp hm hnew
      · cases h
  | push p =>
      simp only [step] at h
      split at h
      · next hp =>
          cases h
          exact .push hp
      · cases h
  | release p =>
      simp only [step] at h
      split at h
      · next hp =>
          cases h
          exact .release hp
      · cases h
  | enter w =>
      simp only [step] at h
      split at h
      · next hw =>
          cases h
          exact .enter hw
      · cases h
  | acquire w =>
      simp only [step] at h
      split at h
      · next hw hm =>
          cases h
          exact .acquire hw hm
      · cases h
  | check w =>
      simp only [step] at h
      split at h
      · next hw =>
          split at h
          · next hjob =>
              cases h
              exact .check_true hw hjob
          · next hjob =>
              cases h
              exact .check_false hw (Bool.eq_false_iff.mpr hjob)
      · cases h
  | wake w =>
      simp only [step] at h
      split at h
      · next hw hm =>
          cases h
          exact .wake hw hm
      · cases h
  | timeout w =>
      simp only [step] at h
      split at h
      · next hw hm =>
          cases h
          exact .timeout hw hm
      · cases h
  | recheck w =>
      simp only [step] at h
      split at h
      · next hw =>
          split at h
          · next hjob =>
              cases h
              exact .recheck_true hw hjob
          · next hjob =>
              cases h
              exact .recheck_false hw (Bool.eq_false_iff.mpr hjob)
      · cases h
  | pop w =>
      simp only [step] at h
      split at h
      · next hw =>
          cases h
          exact .pop hw
      · cases h
  | begin w =>
      simp only [step] at h
      split at h
      · next hw =>
          cases h
          exact .begin_some hw
      · next hw =>
          cases h
          exact .begin_none hw
      · cases h
  | finish w =>
      simp only [step] at h
      split at h
      · next hw =>
          cases h
          exact .finish hw
      · cases h
  | stop =>
      cases h
      exact .stop

theorem Step.locked {s t : Scheduler J} {a : Action J} (h : Step s a t) {p : Nat}
    {priority : JobPriority} {job : J} (hp : t.producers p = .locked priority job) :
    a = .offer p priority job ∨ s.producers p = .locked priority job := by
  cases h with
  | @offer p' priority' job' hp' hm hnew =>
      rw [moveProducer_producers] at hp
      by_cases heq : p = p'
      · subst heq
        rw [Function.update_self, ProducerPoint.locked.injEq] at hp
        exact .inl (by rw [hp.1, hp.2])
      · rw [Function.update_of_ne heq] at hp
        exact .inr hp
  | @push p' priority' job' hp' =>
      change Function.update s.producers p' .pushed p = _ at hp
      by_cases heq : p = p'
      · rw [heq, Function.update_self] at hp
        cases hp
      · rw [Function.update_of_ne heq] at hp
        exact .inr hp
  | @release p' hp' =>
      rw [moveProducer_producers] at hp
      by_cases heq : p = p'
      · rw [heq, Function.update_self] at hp
        cases hp
      · rw [Function.update_of_ne heq] at hp
        exact .inr hp
  | _ => exact .inr hp

/-- What is new in the log of rejected jobs comes from a push that failed. -/
theorem Step.rejected_iff {s t : Scheduler J} {a : Action J} (h : Step s a t) (job : J) :
    job ∈ t.log.rejected ↔ job ∈ s.log.rejected ∨ ∃ p priority, a = .push p ∧
      s.producers p = .locked priority job ∧ (s.queue.push priority job).1 ≠ .eSuccess := by
  cases h with
  | @push p priority job' hp =>
      have hnew : (∃ p' priority', (Action.push p : Action J) = .push p' ∧
          s.producers p' = .locked priority' job ∧ (s.queue.push priority' job).1 ≠ .eSuccess) ↔
          job = job' ∧ (s.queue.push priority job').1 ≠ .eSuccess := by
        constructor
        · rintro ⟨p', priority', heq, hp', hres⟩
          cases heq
          rw [hp, ProducerPoint.locked.injEq] at hp'
          obtain ⟨rfl, rfl⟩ := hp'
          exact ⟨rfl, hres⟩
        · rintro ⟨rfl, hres⟩
          exact ⟨p, priority, rfl, hp, hres⟩
      rw [hnew]
      by_cases hres : (s.queue.push priority job').1 = .eSuccess
      · simp [pushJob, hres]
      · simp [pushJob, hres, or_comm]
  | _ => exact ⟨.inl, fun h => h.resolve_right (by rintro ⟨p, priority, heq, -⟩; cases heq)⟩

theorem Step.executed {s t : Scheduler J} {a : Action J} (h : Step s a t) :
    (∃ w job, a = .finish w ∧ s.workers w = .working job ∧
        t.log.executed = job :: s.log.executed) ∨
      ((∀ w, a ≠ .finish w) ∧ t.log.executed = s.log.executed) := by
  cases h with
  | @push p priority job hp =>
      refine .inr ⟨nofun, ?_⟩
      simp only [pushJob]
      split <;> rfl
  | finish hw => exact .inl ⟨_, _, rfl, hw, rfl⟩
  | _ => exact .inr ⟨nofun, rfl⟩

theorem Step.executed_subset {s t : Scheduler J} {a : Action J} (h : Step s a t) :
    s.log.executed ⊆ t.log.executed := by
  rcases h.executed with ⟨w, job, -, -, hexecuted⟩ | ⟨-, hexecuted⟩
  · rw [hexecuted]
    exact List.subset_cons_self _ _
  · rw [hexecuted]
    exact List.Subset.refl _

theorem Step.offered {s t : Scheduler J} {a : Action J} (h : Step s a t) :
    t.log.offered = match a with
      | .offer _ _ job => job :: s.log.offered
      | _ => s.log.offered := by
  cases h with
  | @push p priority job hp =>
      simp only [pushJob]
      split <;> rfl
  | _ => rfl

/-! ## The mutex -/

def inside (s : Scheduler J) : Thread → Bool
  | .worker w => (s.workers w).inside
  | .producer p => (s.producers p).inside

/-- The mutex is held by exactly the thread that is in a critical section. -/
def Exclusive (s : Scheduler J) : Prop := ∀ t, s.inside t = true ↔ s.mutex = some t

theorem exclusive_init : Exclusive (init : Scheduler J) := by
  rintro (w | p) <;> simp [inside, init, WorkerPoint.inside, ProducerPoint.inside]

/-- No two threads are in a critical section. -/
theorem Exclusive.eq_of_inside {s : Scheduler J} (h : Exclusive s) {t t' : Thread}
    (ht : s.inside t = true) (ht' : s.inside t' = true) : t = t' := by
  have hm := (h t).mp ht
  rw [(h t').mp ht', Option.some.injEq] at hm
  exact hm.symm

/-- A step of thread `t` alone, which takes the mutex, gives it back or leaves it. -/
theorem Exclusive.move {s s' : Scheduler J} (h : Exclusive s) (t : Thread)
    (hself : s'.inside t = true ↔ s'.mutex = some t)
    (hothers : ∀ t', t' ≠ t → s'.inside t' = s.inside t' ∧
      (s'.mutex = some t' ↔ s.mutex = some t')) : Exclusive s' := by
  intro t'
  by_cases heq : t' = t
  · rw [heq]
    exact hself
  · rw [(hothers t' heq).1, (hothers t' heq).2]
    exact h t'

theorem inside_moveWorker_of_ne (s : Scheduler J) {w : Nat} (point : WorkerPoint J)
    (mutex : Option Thread) {t : Thread} (ht : t ≠ .worker w) :
    (s.moveWorker w point mutex).inside t = s.inside t := by
  cases t with
  | worker w' =>
      have hne : w' ≠ w := fun heq => ht (by rw [heq])
      simp [inside, moveWorker, Function.update_of_ne hne]
  | producer p => rfl

theorem inside_moveProducer_of_ne (s : Scheduler J) {p : Nat} (point : ProducerPoint J)
    (mutex : Option Thread) {t : Thread} (ht : t ≠ .producer p) :
    (s.moveProducer p point mutex).inside t = s.inside t := by
  cases t with
  | worker w => rfl
  | producer p' =>
      have hne : p' ≠ p := fun heq => ht (by rw [heq])
      simp [inside, moveProducer, Function.update_of_ne hne]

theorem Exclusive.enterWorker {s : Scheduler J} (h : Exclusive s) {w : Nat} {point : WorkerPoint J}
    (hm : s.mutex = none) (hpoint : point.inside = true) :
    Exclusive (s.moveWorker w point (some (.worker w))) := by
  refine h.move (.worker w) ?_ fun t ht => ⟨inside_moveWorker_of_ne s point _ ht, ?_⟩
  · simp [inside, moveWorker, hpoint]
  · simp [moveWorker, hm, ht.symm]

theorem Exclusive.stayWorker {s : Scheduler J} (h : Exclusive s) {w : Nat} {point : WorkerPoint J}
    (hpoint : point.inside = (s.workers w).inside) :
    Exclusive (s.moveWorker w point s.mutex) := by
  refine h.move (.worker w) ?_ fun t ht => ⟨inside_moveWorker_of_ne s point _ ht, Iff.rfl⟩
  have hself := h (.worker w)
  simp only [inside, moveWorker, Function.update_self, hpoint] at hself ⊢
  exact hself

theorem Exclusive.leaveWorker {s : Scheduler J} (h : Exclusive s) {w : Nat} {point : WorkerPoint J}
    (hinside : (s.workers w).inside = true) (hpoint : point.inside = false) :
    Exclusive (s.moveWorker w point none) := by
  have hm : s.mutex = some (.worker w) := (h (.worker w)).mp hinside
  refine h.move (.worker w) ?_ fun t ht => ⟨inside_moveWorker_of_ne s point _ ht, ?_⟩
  · simp [inside, moveWorker, hpoint]
  · simp [moveWorker, hm, ht.symm]

theorem exclusive_step {s t : Scheduler J} {a : Action J} (h : Exclusive s) (hstep : Step s a t) :
    Exclusive t := by
  cases hstep with
  | @offer p priority job hp hm hnew =>
      refine h.move (.producer p) ?_ fun t ht =>
        ⟨inside_moveProducer_of_ne s _ (some (.producer p)) ht, ?_⟩
      · simp [inside, moveProducer, ProducerPoint.inside]
      · simp [moveProducer, hm, ht.symm]
  | @push p priority job hp =>
      have hm : s.mutex = some (.producer p) :=
        (h (.producer p)).mp (by rw [inside, hp]; rfl)
      refine h.move (.producer p) ?_ fun t ht =>
        ⟨inside_moveProducer_of_ne s _ (some (.producer p)) ht, ?_⟩
      · simp [inside, pushJob, moveProducer, ProducerPoint.inside]
      · simp [pushJob, moveProducer, hm]
  | @release p hp =>
      have hm : s.mutex = some (.producer p) :=
        (h (.producer p)).mp (by rw [inside, hp]; rfl)
      refine h.move (.producer p) ?_ fun t ht => ⟨inside_moveProducer_of_ne s _ _ ht, ?_⟩
      · simp [inside, moveProducer, ProducerPoint.inside]
      · simp [moveProducer, hm, ht.symm]
  | enter hw => exact h.stayWorker (by rw [hw]; cases s.running <;> rfl)
  | acquire hw hm => exact h.enterWorker hm rfl
  | check_true hw hjob => exact h.stayWorker (by rw [hw]; rfl)
  | check_false hw hjob => exact h.leaveWorker (by rw [hw]; rfl) rfl
  | wake hw hm => exact h.enterWorker hm rfl
  | timeout hw hm => exact h.enterWorker hm rfl
  | recheck_true hw hjob => exact h.stayWorker (by rw [hw]; rfl)
  | recheck_false hw hjob => exact h.leaveWorker (by rw [hw]; rfl) rfl
  | pop hw => exact h.leaveWorker (by rw [hw]; rfl) rfl
  | begin_some hw => exact h.stayWorker (by rw [hw]; rfl)
  | begin_none hw => exact h.stayWorker (by rw [hw]; rfl)
  | finish hw => exact h.stayWorker (by rw [hw]; rfl)
  | stop => exact h

/-! ## The ledger -/

/-- Where a job is, once it has been pushed. -/
inductive Place
  | refused
  | waiting (priority : JobPriority)
  | held (w : Nat)
  | done

/-- The queue, the workers and the log have the job at that place. -/
def At (s : Scheduler J) (lists : JobPriority → List J) : Place → J → Prop
  | .refused, job => job ∈ s.log.rejected
  | .waiting p, job => job ∈ lists p
  | .held w, job => (s.workers w).job = some job
  | .done, job => job ∈ s.log.executed

/-- The jobs that have a place are among those offered; the jobs about to be pushed have none yet,
and the accepted ones are not at `refused`. -/
structure Registered (producers : Nat → ProducerPoint J) (offered accepted : List J)
    (place : J → Option Place) : Prop where
  placed : ∀ job ∈ accepted, ∃ pl, place job = some pl ∧ pl ≠ .refused
  unplaced : ∀ job, job ∉ offered → place job = none
  pending : ∀ p job, (producers p).pending = some job → place job = none ∧ job ∈ offered

/-- The rings hold `lists`, and a ledger `place` has the one place of every job that was pushed. -/
structure Accounted (s : Scheduler J) (lists : JobPriority → List J) (place : J → Option Place) :
    Prop extends Registered s.producers s.log.offered s.log.accepted place where
  queue : s.queue.Represents lists
  place_iff : ∀ pl job, s.At lists pl job ↔ place job = some pl
  nodup : ∀ p, (lists p).Nodup
  executed_nodup : s.log.executed.Nodup
  /-- A worker about to pop has a job to pop. -/
  popping : ∀ w, s.workers w = .popping → ∃ p, lists p ≠ []
  /-- The branch for a missing job is not reached. -/
  obtained : ∀ w, s.workers w ≠ .popped none

theorem accounted_init : Accounted (init : Scheduler J) (fun _ => []) fun _ => none := by
  refine ⟨⟨nofun, fun _ _ => rfl, nofun⟩, JobQueue.represents_init, ?_, fun _ => List.nodup_nil,
    List.nodup_nil, nofun, nofun⟩
  rintro (_ | p | w | _) job <;> simp [At, init, WorkerPoint.job]

/-- The predicate of `waitForJob` sees a job when there is one. -/
theorem hasJob_iff {s : Scheduler J} {lists : JobPriority → List J} (h : s.queue.Represents lists) :
    s.hasJob = true ↔ ∃ p, lists p ≠ [] := by
  have hzero : s.queue.queuedJobsCount = 0 ↔ PriorityQueue.total lists = 0 := by
    rw [← h.count, ← UInt64.toNat_inj, UInt64.toNat_zero]
  rw [hasJob, bne_iff_ne, Ne, hzero, PriorityQueue.total, Finset.sum_eq_zero_iff]
  simp

theorem Registered.relocate [DecidableEq J] {producers : Nat → ProducerPoint J}
    {offered accepted : List J} {place : J → Option Place}
    (h : Registered producers offered accepted place) {job : J} {old pl : Place}
    (hplace : place job = some old) (hpl : pl ≠ .refused) :
    Registered producers offered accepted (Function.update place job (some pl)) := by
  have hne : ∀ job', place job' = none → job' ≠ job := by
    rintro job' hnone rfl
    rw [hplace] at hnone
    cases hnone
  refine ⟨fun job' hjob' => ?_, fun job' hjob' => ?_, fun p' job' hjob' => ?_⟩
  · by_cases heq : job' = job
    · exact ⟨pl, by rw [heq, Function.update_self], hpl⟩
    · rw [Function.update_of_ne heq]
      exact h.placed job' hjob'
  · rw [Function.update_of_ne (hne job' (h.unplaced job' hjob'))]
    exact h.unplaced job' hjob'
  · obtain ⟨hnone, hmem⟩ := h.pending p' job' hjob'
    exact ⟨by rwa [Function.update_of_ne (hne job' hnone)], hmem⟩

theorem forall_popping {s : Scheduler J} {lists : JobPriority → List J} {w : Nat}
    {point : WorkerPoint J} (hpoint : point = .popping → ∃ p, lists p ≠ [])
    (hothers : ∀ w', w' ≠ w → s.workers w' = .popping → ∃ p, lists p ≠ []) (w' : Nat) :
    Function.update s.workers w point w' = .popping → ∃ p, lists p ≠ [] :=
  (Function.forall_update_iff s.workers fun _ point => point = .popping → ∃ p, lists p ≠ []).mpr
    ⟨hpoint, hothers⟩ w'

theorem Accounted.forall_obtained {s : Scheduler J} {lists : JobPriority → List J}
    {place : J → Option Place} (h : Accounted s lists place) {w : Nat} {point : WorkerPoint J}
    (hpoint : point ≠ .popped none) (w' : Nat) :
    Function.update s.workers w point w' ≠ .popped none :=
  (Function.forall_update_iff s.workers fun _ point => point ≠ .popped none).mpr
    ⟨hpoint, fun w' _ => h.obtained w'⟩ w'

/-- A worker moves without a job changing hands. -/
theorem Accounted.moveWorker {s : Scheduler J} {lists : JobPriority → List J}
    {place : J → Option Place} (h : Accounted s lists place) {w : Nat} {point : WorkerPoint J}
    (mutex : Option Thread) (hjob : point.job = (s.workers w).job)
    (hpop : point = .popping → ∃ p, lists p ≠ []) (hnone : point ≠ .popped none) :
    Accounted (s.moveWorker w point mutex) lists place := by
  refine { h with place_iff := fun pl job => ?_, popping := ?_, obtained := ?_ }
  · rw [← h.place_iff]
    cases pl with
    | held w' =>
        simp only [At, moveWorker_workers]
        by_cases heq : w' = w
        · rw [heq, Function.update_self, hjob]
        · rw [Function.update_of_ne heq]
    | _ => rfl
  · exact forall_popping hpop fun w' _ => h.popping w'
  · exact h.forall_obtained hnone

/-- A job goes to `pl` and every other job stays where it is. -/
theorem Accounted.transfer [DecidableEq J] {s t : Scheduler J} {lists lists' : JobPriority → List J}
    {place : J → Option Place} (h : Accounted s lists place) {job : J} {pl : Place}
    (hself : ∀ pl', t.At lists' pl' job ↔ pl' = pl)
    (hothers : ∀ pl' job', job' ≠ job → (t.At lists' pl' job' ↔ s.At lists pl' job'))
    (pl' : Place) (job' : J) :
    t.At lists' pl' job' ↔ Function.update place job (some pl) job' = some pl' := by
  by_cases heq : job' = job
  · rw [heq, hself, Function.update_self, Option.some.injEq, eq_comm]
  · rw [hothers pl' job' heq, Function.update_of_ne heq, h.place_iff]

theorem accounted_offer {s : Scheduler J} {lists : JobPriority → List J} {place : J → Option Place}
    (h : Accounted s lists place) (p : Nat) (priority : JobPriority) {job : J}
    (hnew : job ∉ s.log.offered) :
    Accounted { s.moveProducer p (.locked priority job) (some (.producer p)) with
      log := { s.log with offered := job :: s.log.offered } } lists place := by
  refine { h with unplaced := fun job' hjob' => ?_, pending := fun p' job' hjob' => ?_,
                  place_iff := fun pl job' => ?_ }
  · exact h.unplaced job' fun hmem => hjob' (List.mem_cons_of_mem _ hmem)
  · rw [moveProducer_producers] at hjob'
    by_cases heq : p' = p
    · rw [heq, Function.update_self, ProducerPoint.pending, Option.some.injEq] at hjob'
      exact hjob' ▸ ⟨h.unplaced job hnew, List.mem_cons_self⟩
    · rw [Function.update_of_ne heq] at hjob'
      exact ⟨(h.pending p' job' hjob').1, List.mem_cons_of_mem _ (h.pending p' job' hjob').2⟩
  · rw [← h.place_iff]
    cases pl <;> rfl

/-- A producer moves out of `push`, where no other producer is. -/
theorem pending_pushed {s : Scheduler J} (hx : Exclusive s) {p : Nat}
    (hp : (s.producers p).inside = true) (p' : Nat) :
    (Function.update s.producers p .pushed p').pending = none := by
  by_cases heq : p' = p
  · rw [heq, Function.update_self]
    rfl
  · rw [Function.update_of_ne heq]
    cases hpoint : s.producers p' with
    | locked priority job =>
        have hp' : s.inside (.producer p') = true := by rw [inside, hpoint]; rfl
        exact absurd (Thread.producer.inj (hx.eq_of_inside hp' hp)) heq
    | _ => rfl

theorem accounted_release {s : Scheduler J} {lists : JobPriority → List J}
    {place : J → Option Place} (h : Accounted s lists place) (p : Nat) :
    Accounted (s.moveProducer p .outside none) lists place := by
  refine { h with pending := fun p' job' hjob' => ?_, place_iff := fun pl job' => ?_ }
  · rw [moveProducer_producers] at hjob'
    by_cases heq : p' = p
    · rw [heq, Function.update_self] at hjob'
      cases hjob'
    · rw [Function.update_of_ne heq] at hjob'
      exact h.pending p' job' hjob'
  · rw [← h.place_iff]
    cases pl <;> rfl

theorem pushJob_full {s : Scheduler J} {lists : JobPriority → List J}
    (h : s.queue.Represents lists) {priority : JobPriority}
    (hfull : (lists priority).length = fpJobQueueSize) (p : Nat) (job : J) :
    s.pushJob p priority job = { s.moveProducer p .pushed (some (.producer p)) with
      log := { s.log with rejected := job :: s.log.rejected } } := by
  rw [pushJob, JobQueue.push_full h hfull job]
  rfl

theorem pushJob_of_lt {s : Scheduler J} {lists : JobPriority → List J}
    (h : s.queue.Represents lists) {priority : JobPriority}
    (hlt : (lists priority).length < fpJobQueueSize) (p : Nat) (job : J) :
    s.pushJob p priority job = { s.moveProducer p .pushed (some (.producer p)) with
      queue := (s.queue.push priority job).2,
      log := { s.log with accepted := job :: s.log.accepted } } := by
  simp only [pushJob, (JobQueue.push_of_lt h hlt job).1, if_pos]

/-- A saturated push: the job goes nowhere. -/
theorem accounted_push_full [DecidableEq J] {s : Scheduler J} {lists : JobPriority → List J}
    {place : J → Option Place} (hx : Exclusive s) (h : Accounted s lists place) {p : Nat}
    {priority : JobPriority} {job : J} (hp : s.producers p = .locked priority job)
    (hfull : (lists priority).length = fpJobQueueSize) :
    Accounted (s.pushJob p priority job) lists (Function.update place job (some .refused)) := by
  have hpending := pending_pushed hx (p := p) (by rw [hp]; rfl)
  obtain ⟨hnone, hoffered⟩ := h.pending p job (by rw [hp]; rfl)
  have hnowhere : ∀ pl, ¬ s.At lists pl job := fun pl => by rw [h.place_iff, hnone]; exact nofun
  rw [pushJob_full h.queue hfull]
  refine { h with placed := fun job' hjob' => ?_, unplaced := fun job' hjob' => ?_,
                  pending := fun p' job' hjob' => ?_,
                  place_iff := h.transfer (fun pl => ?_) (fun pl job' hne => ?_) }
  · have hne : job' ≠ job := by
      rintro rfl
      obtain ⟨pl, hpl, -⟩ := h.placed job' hjob'
      simp [hnone] at hpl
    rw [Function.update_of_ne hne]
    exact h.placed job' hjob'
  · have hne : job' ≠ job := fun heq => hjob' (heq ▸ hoffered)
    rw [Function.update_of_ne hne]
    exact h.unplaced job' hjob'
  · rw [moveProducer_producers, hpending] at hjob'
    cases hjob'
  · have := hnowhere pl
    cases pl <;> simp_all [At]
  · cases pl <;> simp [At, hne]

/-- An accepted push: the job waits at the end of its list. -/
theorem accounted_push_of_lt [DecidableEq J] {s : Scheduler J} {lists : JobPriority → List J}
    {place : J → Option Place} (hx : Exclusive s) (h : Accounted s lists place) {p : Nat}
    {priority : JobPriority} {job : J} (hp : s.producers p = .locked priority job)
    (hlt : (lists priority).length < fpJobQueueSize) :
    Accounted (s.pushJob p priority job)
      (Function.update lists priority (lists priority ++ [job]))
      (Function.update place job (some (.waiting priority))) := by
  have hpending := pending_pushed hx (p := p) (by rw [hp]; rfl)
  obtain ⟨hnone, hoffered⟩ := h.pending p job (by rw [hp]; rfl)
  have hnowhere : ∀ pl, ¬ s.At lists pl job := fun pl => by rw [h.place_iff, hnone]; exact nofun
  have hmem : ∀ p' job', job' ∈ Function.update lists priority (lists priority ++ [job]) p' ↔
      job' ∈ lists p' ∨ (job' = job ∧ p' = priority) := by
    intro p' job'
    by_cases heq : p' = priority <;> simp [heq]
  rw [pushJob_of_lt h.queue hlt]
  refine { h with placed := fun job' hjob' => ?_, unplaced := fun job' hjob' => ?_,
                  pending := fun p' job' hjob' => ?_,
                  queue := (JobQueue.push_of_lt h.queue hlt job).2,
                  place_iff := h.transfer (fun pl => ?_) (fun pl job' hne => ?_),
                  nodup := ?_, popping := fun w hw => ⟨priority, by simp⟩ }
  · by_cases hne : job' = job
    · exact ⟨.waiting priority, by rw [hne, Function.update_self], nofun⟩
    · rw [Function.update_of_ne hne]
      exact h.placed job' (List.mem_of_ne_of_mem hne hjob')
  · have hne : job' ≠ job := fun heq => hjob' (heq ▸ hoffered)
    rw [Function.update_of_ne hne]
    exact h.unplaced job' hjob'
  · rw [moveProducer_producers, hpending] at hjob'
    cases hjob'
  · have := hnowhere pl
    cases pl <;> simp_all [At]
  · cases pl <;> simp [At, hmem, hne]
  · refine (Function.forall_update_iff lists fun _ jobs => jobs.Nodup).mpr ⟨?_, fun p' _ => h.nodup p'⟩
    simpa using (h.nodup priority).concat (hnowhere (.waiting priority))

/-- A pop: the oldest job of the highest priority changes to the worker's hands. -/
theorem accounted_pop [DecidableEq J] {s : Scheduler J} {lists : JobPriority → List J}
    {place : J → Option Place} (hx : Exclusive s) (h : Accounted s lists place) {w : Nat}
    (hw : s.workers w = .popping) : ∃ lists' place', Accounted (s.popJob w) lists' place' := by
  obtain ⟨p, job, jobs, hp, hjob, hq⟩ := JobQueue.pop_of_ne_nil h.queue (h.popping w hw)
  have hplace : place job = some (.waiting p) := by
    rw [← h.place_iff, At, hp]
    exact List.mem_cons_self
  have hnowhere : ∀ pl, s.At lists pl job ↔ pl = .waiting p := fun pl => by
    rw [h.place_iff, hplace, Option.some.injEq, eq_comm]
  have hnodup := h.nodup p
  rw [hp, List.nodup_cons] at hnodup
  have hmem : ∀ p' job', job' ∈ Function.update lists p jobs p' ↔ job' ∈ lists p' ∧ job' ≠ job := by
    intro p' job'
    by_cases heq : p' = p
    · rw [heq, Function.update_self, hp, List.mem_cons]
      constructor
      · exact fun hmem => ⟨.inr hmem, fun heq => hnodup.1 (heq ▸ hmem)⟩
      · exact fun hmem => hmem.1.resolve_left hmem.2
    · rw [Function.update_of_ne heq]
      refine ⟨fun hmem => ⟨hmem, ?_⟩, And.left⟩
      rintro rfl
      exact heq (Place.waiting.inj ((hnowhere (.waiting p')).mp hmem))
  have hlast : ∀ w', w' ≠ w → s.workers w' ≠ .popping := by
    intro w' hne hw'
    have hin : s.inside (.worker w) = true := by rw [inside, hw]; rfl
    have hin' : s.inside (.worker w') = true := by rw [inside, hw']; rfl
    exact hne (Thread.worker.inj (hx.eq_of_inside hin' hin))
  refine ⟨Function.update lists p jobs, Function.update place job (some (.held w)), ?_⟩
  show Accounted { s.moveWorker w (.popped s.queue.pop.1) none with queue := s.queue.pop.2 } _ _
  rw [hjob]
  refine { h with queue := hq, place_iff := h.transfer (fun pl => ?_) (fun pl job' hne => ?_),
                  toRegistered := h.toRegistered.relocate hplace nofun, nodup := ?_,
                  popping := ?_, obtained := h.forall_obtained nofun }
  · have := hnowhere pl
    cases pl with
    | held w' =>
        by_cases heq : w' = w
        · simp [At, heq, WorkerPoint.job]
        · simpa [At, heq, Function.update_of_ne heq] using this
    | waiting p' => simp [At, hmem]
    | _ => simpa [At] using this
  · cases pl with
    | held w' =>
        by_cases heq : w' = w
        · simp [At, heq, hw, WorkerPoint.job, hne.symm]
        · simp [At, Function.update_of_ne heq]
    | waiting p' => simp [At, hmem, hne]
    | _ => simp [At]
  · exact (Function.forall_update_iff lists fun _ jobs => jobs.Nodup).mpr
      ⟨hnodup.2, fun p' _ => h.nodup p'⟩
  · exact forall_popping nofun fun w' hne hw' => absurd hw' (hlast w' hne)

theorem accounted_finish [DecidableEq J] {s : Scheduler J} {lists : JobPriority → List J}
    {place : J → Option Place} (h : Accounted s lists place) {w : Nat} {job : J}
    (hw : s.workers w = .working job) :
    Accounted { s.moveWorker w .top s.mutex with
      log := { s.log with executed := job :: s.log.executed } } lists
      (Function.update place job (some .done)) := by
  have hplace : place job = some (.held w) := by
    rw [← h.place_iff, At, hw]
    rfl
  have hnowhere : ∀ pl, s.At lists pl job ↔ pl = .held w := fun pl => by
    rw [h.place_iff, hplace, Option.some.injEq, eq_comm]
  refine { h with place_iff := h.transfer (fun pl => ?_) (fun pl job' hne => ?_),
                  toRegistered := h.toRegistered.relocate hplace nofun, executed_nodup := ?_,
                  popping := forall_popping nofun fun w' _ => h.popping w',
                  obtained := h.forall_obtained nofun }
  · have := hnowhere pl
    cases pl with
    | held w' =>
        by_cases heq : w' = w
        · simp [At, heq, WorkerPoint.job]
        · simpa [At, heq, Function.update_of_ne heq] using this
    | done => simp [At]
    | _ => simpa [At] using this
  · cases pl with
    | held w' =>
        by_cases heq : w' = w
        · simp [At, heq, hw, WorkerPoint.job, hne.symm]
        · simp [At, Function.update_of_ne heq]
    | done => simp [At, hne]
    | _ => simp [At]
  · refine List.nodup_cons.mpr ⟨fun hmem => ?_, h.executed_nodup⟩
    exact absurd ((hnowhere .done).mp hmem) nofun

theorem accounted_step [DecidableEq J] {s t : Scheduler J} {lists : JobPriority → List J}
    {place : J → Option Place} (hx : Exclusive s) (h : Accounted s lists place) {a : Action J}
    (hstep : Step s a t) : ∃ lists' place', Accounted t lists' place' := by
  cases hstep with
  | @offer p priority job hp hm hnew => exact ⟨_, _, accounted_offer h p priority hnew⟩
  | @push p priority job hp =>
      by_cases hfull : (lists priority).length = fpJobQueueSize
      · exact ⟨_, _, accounted_push_full hx h hp hfull⟩
      · have hlt := Nat.lt_of_le_of_ne (h.queue.queue priority).length_le hfull
        exact ⟨_, _, accounted_push_of_lt hx h hp hlt⟩
  | @release p hp => exact ⟨_, _, accounted_release h p⟩
  | @enter w hw =>
      refine ⟨_, _, h.moveWorker _ ?_ ?_ ?_⟩ <;> cases s.running <;> simp [hw, WorkerPoint.job]
  | acquire hw hm => exact ⟨_, _, h.moveWorker _ (by rw [hw]; rfl) nofun nofun⟩
  | check_true hw hjob =>
      exact ⟨_, _, h.moveWorker _ (by rw [hw]; rfl) (fun _ => (hasJob_iff h.queue).mp hjob) nofun⟩
  | check_false hw hjob => exact ⟨_, _, h.moveWorker _ (by rw [hw]; rfl) nofun nofun⟩
  | wake hw hm => exact ⟨_, _, h.moveWorker _ (by rw [hw]; rfl) nofun nofun⟩
  | timeout hw hm => exact ⟨_, _, h.moveWorker _ (by rw [hw]; rfl) nofun nofun⟩
  | recheck_true hw hjob =>
      exact ⟨_, _, h.moveWorker _ (by rw [hw]; rfl) (fun _ => (hasJob_iff h.queue).mp hjob) nofun⟩
  | recheck_false hw hjob => exact ⟨_, _, h.moveWorker _ (by rw [hw]; rfl) nofun nofun⟩
  | pop hw => exact accounted_pop hx h hw
  | begin_some hw => exact ⟨_, _, h.moveWorker _ (by rw [hw]; rfl) nofun nofun⟩
  | begin_none hw => exact absurd hw (h.obtained _)
  | finish hw => exact ⟨_, _, accounted_finish h hw⟩
  | stop =>
      refine ⟨lists, place, { h with place_iff := fun pl job => ?_ }⟩
      rw [← h.place_iff]
      cases pl <;> rfl

/-! ## Conservation -/

def Valid (s : Scheduler J) : Prop := Exclusive s ∧ ∃ lists place, Accounted s lists place

theorem valid_init : Valid (init : Scheduler J) := ⟨exclusive_init, _, _, accounted_init⟩

theorem valid_step [DecidableEq J] {s t : Scheduler J} {a : Action J} (h : Valid s)
    (hstep : s.step a = some t) : Valid t := by
  obtain ⟨hx, lists, place, ha⟩ := h
  exact ⟨exclusive_step hx (step_cases hstep), accounted_step hx ha (step_cases hstep)⟩

theorem valid_run [DecidableEq J] {s : Scheduler J} {as : List (Action J)}
    (h : run step init as = some s) : Valid s :=
  run_invariant (fun _ _ _ => valid_step) valid_init h

def slot (s : Scheduler J) (at' : JobPriority × Nat) : Option J :=
  (s.queue.queues at'.1).datas.slots at'.2

/-- In exactly one slot of one queue, with no worker, and not executed. -/
def Queued (s : Scheduler J) [DecidableEq J] (job : J) : Prop :=
  (∃! i, s.slot i = some job) ∧ (∀ w, (s.workers w).job ≠ some job) ∧ s.log.executed.count job = 0

/-- Held by exactly one worker, in no slot, and not executed. -/
def Held (s : Scheduler J) [DecidableEq J] (job : J) : Prop :=
  (∀ i, s.slot i ≠ some job) ∧ (∃! w, (s.workers w).job = some job) ∧ s.log.executed.count job = 0

/-- Executed exactly once, in no slot and with no worker. -/
def Executed (s : Scheduler J) [DecidableEq J] (job : J) : Prop :=
  (∀ i, s.slot i ≠ some job) ∧ (∀ w, (s.workers w).job ≠ some job) ∧ s.log.executed.count job = 1

/-- In no slot, with no worker, never executed. -/
def Dropped (s : Scheduler J) [DecidableEq J] (job : J) : Prop :=
  (∀ i, s.slot i ≠ some job) ∧ (∀ w, (s.workers w).job ≠ some job) ∧ s.log.executed.count job = 0

/-- The slots of the rings hold what the lists hold. -/
theorem Accounted.slot_iff {s : Scheduler J} {lists : JobPriority → List J}
    {place : J → Option Place} (h : Accounted s lists place) (job : J) (p : JobPriority) :
    (∃ i, s.slot (p, i) = some job) ↔ place job = some (.waiting p) := by
  rw [← h.place_iff, At, (h.queue.queue p).mem_iff]
  rfl

theorem Accounted.slot_ne {s : Scheduler J} {lists : JobPriority → List J}
    {place : J → Option Place} (h : Accounted s lists place) {job : J} {pl : Place}
    (hplace : place job = some pl) (hpl : ∀ p, pl ≠ .waiting p) (i : JobPriority × Nat) :
    s.slot i ≠ some job := by
  intro hi
  have hwaiting := (h.slot_iff job i.1).mp ⟨i.2, hi⟩
  rw [hplace, Option.some.injEq] at hwaiting
  exact hpl i.1 hwaiting

theorem Accounted.job_ne {s : Scheduler J} {lists : JobPriority → List J}
    {place : J → Option Place} (h : Accounted s lists place) {job : J} {pl : Place}
    (hplace : place job = some pl) (hpl : ∀ w, pl ≠ .held w) (w : Nat) :
    (s.workers w).job ≠ some job := by
  intro hw
  have hheld := (h.place_iff (.held w) job).mp hw
  rw [hplace, Option.some.injEq] at hheld
  exact hpl w hheld

theorem Accounted.count_eq_zero [DecidableEq J] {s : Scheduler J} {lists : JobPriority → List J}
    {place : J → Option Place} (h : Accounted s lists place) {job : J} {pl : Place}
    (hplace : place job = some pl) (hpl : pl ≠ .done) : s.log.executed.count job = 0 := by
  rw [List.count_eq_zero]
  intro hmem
  have hdone := (h.place_iff .done job).mp hmem
  rw [hplace, Option.some.injEq] at hdone
  exact hpl hdone

/-- What a place in the ledger means for the queue, the workers and the log. -/
theorem Accounted.conserved [DecidableEq J] {s : Scheduler J} {lists : JobPriority → List J}
    {place : J → Option Place} (h : Accounted s lists place) {job : J} {pl : Place}
    (hplace : place job = some pl) :
    match pl with
    | .refused => s.Dropped job
    | .waiting _ => s.Queued job
    | .held _ => s.Held job
    | .done => s.Executed job := by
  cases pl with
  | refused => exact ⟨h.slot_ne hplace nofun, h.job_ne hplace nofun, h.count_eq_zero hplace nofun⟩
  | waiting p =>
      refine ⟨?_, h.job_ne hplace nofun, h.count_eq_zero hplace nofun⟩
      obtain ⟨i, hi⟩ := (h.slot_iff job p).mpr hplace
      refine ⟨(p, i), hi, ?_⟩
      rintro ⟨p', j⟩ hj
      have hp' := (h.slot_iff job p').mp ⟨j, hj⟩
      rw [hplace, Option.some.injEq, Place.waiting.injEq] at hp'
      subst hp'
      exact congrArg (p, ·) ((h.queue.queue p).slot_unique (h.nodup p) hj hi)
  | held w =>
      refine ⟨h.slot_ne hplace nofun, ⟨w, (h.place_iff (.held w) job).mpr hplace, fun w' hw' => ?_⟩,
        h.count_eq_zero hplace nofun⟩
      have hheld := (h.place_iff (.held w') job).mp hw'
      rw [hplace, Option.some.injEq, Place.held.injEq] at hheld
      exact hheld.symm
  | done =>
      refine ⟨h.slot_ne hplace nofun, h.job_ne hplace nofun, ?_⟩
      exact List.count_eq_one_of_mem h.executed_nodup ((h.place_iff .done job).mpr hplace)

theorem Valid.conserved [DecidableEq J] {s : Scheduler J} (h : Valid s) {job : J}
    (hjob : job ∈ s.log.accepted) : s.Queued job ∨ s.Held job ∨ s.Executed job := by
  obtain ⟨-, lists, place, ha⟩ := h
  obtain ⟨pl, hplace, hpl⟩ := ha.placed job hjob
  have hconserved := ha.conserved hplace
  cases pl with
  | refused => exact absurd rfl hpl
  | waiting p => exact .inl hconserved
  | held w => exact .inr (.inl hconserved)
  | done => exact .inr (.inr hconserved)

theorem Valid.dropped [DecidableEq J] {s : Scheduler J} (h : Valid s) {job : J}
    (hjob : job ∈ s.log.rejected) : s.Dropped job := by
  obtain ⟨-, lists, place, ha⟩ := h
  exact ha.conserved ((ha.place_iff .refused job).mp hjob)

theorem Valid.not_accepted {s : Scheduler J} (h : Valid s) {job : J}
    (hjob : job ∈ s.log.rejected) : job ∉ s.log.accepted := by
  obtain ⟨-, lists, place, ha⟩ := h
  intro haccepted
  obtain ⟨pl, hplace, hpl⟩ := ha.placed job haccepted
  rw [(ha.place_iff .refused job).mp hjob, Option.some.injEq] at hplace
  exact hpl hplace.symm

/-- The job a worker is at was offered, and not executed. -/
theorem Valid.working {s : Scheduler J} (h : Valid s) {w : Nat} {job : J} (hw : s.workers w = .working job) :
    job ∈ s.log.offered ∧ job ∉ s.log.executed := by
  obtain ⟨-, lists, place, ha⟩ := h
  have hheld : place job = some (.held w) := (ha.place_iff (.held w) job).mp (by rw [At, hw]; rfl)
  constructor
  · by_contra hnot
    rw [ha.unplaced job hnot] at hheld
    cases hheld
  · intro hexec
    rw [(ha.place_iff .done job).mp hexec] at hheld
    cases hheld

theorem Valid.offered_of_executed {s : Scheduler J} (h : Valid s) {job : J}
    (hjob : job ∈ s.log.executed) : job ∈ s.log.offered := by
  obtain ⟨-, lists, place, ha⟩ := h
  by_contra hnot
  have hdone := (ha.place_iff .done job).mp hjob
  rw [ha.unplaced job hnot] at hdone
  cases hdone

theorem Valid.obtains {s : Scheduler J} (h : Valid s) (w : Nat) :
    (s.workers w = .popping → ∃ job, s.queue.pop.1 = some job) ∧ s.workers w ≠ .popped none := by
  obtain ⟨-, lists, place, ha⟩ := h
  refine ⟨fun hw => ?_, ha.obtained w⟩
  obtain ⟨p, job, jobs, -, hjob, -⟩ := JobQueue.pop_of_ne_nil ha.queue (ha.popping w hw)
  exact ⟨job, hjob⟩

/-- **No job is lost or run twice.** After any interleaving of producers and workers: an accepted job
is in one slot of one queue, or with one worker, or executed once; a rejected job is nowhere; a
worker about to pop gets a job, and none is at the branch for a missing one. -/
theorem job_conservation [DecidableEq J] (as : List (Action J)) (s : Scheduler J)
    (h : run step init as = some s) :
    (∀ job ∈ s.log.accepted, s.Queued job ∨ s.Held job ∨ s.Executed job) ∧
      (∀ job ∈ s.log.rejected, s.Dropped job) ∧
      ∀ w, (s.workers w = .popping → ∃ job, s.queue.pop.1 = some job) ∧
        s.workers w ≠ .popped none := by
  have hvalid := valid_run h
  exact ⟨fun _ hjob => hvalid.conserved hjob, fun _ hjob => hvalid.dropped hjob, hvalid.obtains⟩

/-- Two producers and two workers: one job is executed, one held, and both workers were woken. -/
def twoJobs : List (Action Nat) :=
  [.enter 0, .acquire 0, .check 0, .offer 0 .eMedium 7, .push 0, .release 0, .offer 1 .eHigh 8,
    .push 1, .release 1, .wake 0, .check 0, .pop 0, .begin 0, .finish 0, .enter 1, .acquire 1,
    .check 1, .pop 1]

theorem job_conservation_twoJobs : ∃ s, run step init twoJobs = some s ∧
    s.log.accepted = [8, 7] ∧ s.log.executed = [8] ∧
    ∀ job ∈ s.log.accepted, s.Queued job ∨ s.Held job ∨ s.Executed job :=
  ⟨_, rfl, rfl, rfl, (job_conservation twoJobs _ rfl).1⟩

end Scheduler

end Fipper

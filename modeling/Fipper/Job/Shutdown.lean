import Fipper.Job.Lifecycle

/-!
# Shutting a scheduler down

`~JobScheduler` clears `s_running` and joins its threads. Once the flag is cleared nothing sets it again,
so each worker is on its way out, however far it has come and whatever the other threads do; only a job that does
not return could keep it.

* `WorkerPoint.remaining` : how many steps a worker has left, waiting apart;
* `Step.remaining`, `Step.pops` : no step adds to them;
* `exists_enabled` : a worker that has not ended can take a step, or the owner of the mutex can;
* `destructor_returns` : the destructor can always be brought to its end, and how little happens until then.
-/

namespace Fipper

open Lib

variable {J : Type*}

namespace WorkerPoint

/-- How many steps a worker has left once the flag is cleared, apart from checking the predicate and waking
up. -/
@[simp] def remaining : WorkerPoint J → Nat
  | exited => 0
  | top => 1
  | popped none | working _ => 2
  | popped (some _) => 3
  | popping => 4
  | timedOut => 5
  | checking | sleeping => 6
  | acquiring => 7

/-- How many jobs it still takes. -/
@[simp] def pops : WorkerPoint J → Nat
  | acquiring | checking | sleeping | timedOut | popping => 1
  | top | popped _ | working _ | exited => 0

theorem remaining_le (point : WorkerPoint J) : point.remaining ≤ 7 := by
  cases point with
  | popped jobWithError => cases jobWithError <;> simp
  | _ => simp

theorem pops_le (point : WorkerPoint J) : point.pops ≤ 1 := by
  cases point <;> simp

end WorkerPoint

namespace Scheduler

/-- The worker that takes the step comes closer to its end. -/
@[simp] def Action.advances : Action J → Bool
  | .enter _ | .acquire _ | .timeout _ | .recheck _ | .pop _ | .begin _ | .finish _ => true
  | _ => false

@[simp] def Action.pops : Action J → Bool
  | .pop _ => true
  | _ => false

variable {s t : Scheduler J} {a : Action J}

/-- A step moves one worker at most; once the flag is cleared, not further from its end. -/
theorem Step.moves_worker (h : Step s a t) :
    (a.worker = none ∧ t.workers = s.workers) ∨
      ∃ w point, a.worker = some w ∧ t.workers = Function.update s.workers w point ∧
        (s.running = false → point.remaining + (if a.advances then 1 else 0) ≤ (s.workers w).remaining ∧
          point.pops + (if a.pops then 1 else 0) ≤ (s.workers w).pops) := by
  cases h with
  | offer => exact .inl ⟨rfl, rfl⟩
  | push => exact .inl ⟨rfl, rfl⟩
  | release => exact .inl ⟨rfl, rfl⟩
  | stop => exact .inl ⟨rfl, rfl⟩
  | enter hw => exact .inr ⟨_, _, rfl, rfl, fun hstopped => by simp [hw, hstopped]⟩
  | pop hw =>
      refine .inr ⟨_, .popped s.queue.pop.1, rfl, rfl, fun _ => ?_⟩
      rw [hw]
      cases s.queue.pop.1 <;> simp
  | acquire hw => exact .inr ⟨_, _, rfl, rfl, fun _ => by simp [hw]⟩
  | check_true hw => exact .inr ⟨_, _, rfl, rfl, fun _ => by simp [hw]⟩
  | check_false hw => exact .inr ⟨_, _, rfl, rfl, fun _ => by simp [hw]⟩
  | wake hw => exact .inr ⟨_, _, rfl, rfl, fun _ => by simp [hw]⟩
  | timeout hw => exact .inr ⟨_, _, rfl, rfl, fun _ => by simp [hw]⟩
  | recheck_true hw => exact .inr ⟨_, _, rfl, rfl, fun _ => by simp [hw]⟩
  | recheck_false hw => exact .inr ⟨_, _, rfl, rfl, fun _ => by simp [hw]⟩
  | begin_some hw => exact .inr ⟨_, _, rfl, rfl, fun _ => by simp [hw]⟩
  | begin_none hw => exact .inr ⟨_, _, rfl, rfl, fun _ => by simp [hw]⟩
  | finish hw => exact .inr ⟨_, _, rfl, rfl, fun _ => by simp [hw]⟩

/-- The step is one of worker `w`, and of the kind. -/
def Action.of (w : Nat) (kind : Action J → Bool) (a : Action J) : Bool := a.worker = some w && kind a

/-- What a worker's step uses up is used up whoever takes a step. -/
theorem measure_update {f : WorkerPoint J → Nat} {kind : Action J → Bool} {w' : Nat} {point : WorkerPoint J}
    (ha : a.worker = some w') (ht : t.workers = Function.update s.workers w' point)
    (h : f point + (if kind a then 1 else 0) ≤ f (s.workers w')) (w : Nat) :
    f (t.workers w) + (if a.of w kind then 1 else 0) ≤ f (s.workers w) := by
  rw [ht, Action.of, ha]
  by_cases heq : w' = w
  · subst heq
    simpa using h
  · have hne : some w' ≠ some w := fun h => heq (Option.some.inj h)
    rw [Function.update_of_ne (Ne.symm heq)]
    simp [hne]

theorem Step.measures (h : Step s a t) (hstopped : s.running = false) (w : Nat) :
    (t.workers w).remaining + (if a.of w Action.advances then 1 else 0) ≤ (s.workers w).remaining ∧
      (t.workers w).pops + (if a.of w Action.pops then 1 else 0) ≤ (s.workers w).pops := by
  rcases h.moves_worker with ⟨ha, ht⟩ | ⟨w', point, ha, ht, hle⟩
  · rw [ht]
    simp [Action.of, ha]
  · exact ⟨measure_update ha ht (hle hstopped).1 w, measure_update ha ht (hle hstopped).2 w⟩

theorem Step.workers_of_ne (h : Step s a t) {w : Nat} (hw : a.worker ≠ some w) : t.workers w = s.workers w := by
  rcases h.moves_worker with ⟨-, ht⟩ | ⟨w', point, ha, ht, -⟩
  · rw [ht]
  · have hne : w ≠ w' := by
      rintro rfl
      exact hw ha
    rw [ht, Function.update_of_ne hne]

/-! ## No worker is blocked for good -/

/-- How many steps the owner of the mutex has before it gives it back. -/
def critical (s : Scheduler J) : Nat :=
  match s.mutex with
  | none => 0
  | some (.worker w) =>
      match s.workers w with
      | .checking | .timedOut => 2
      | .popping => 1
      | _ => 0
  | some (.producer p) =>
      match s.producers p with
      | .locked _ _ => 2
      | .pushed => 1
      | .outside => 0

theorem critical_le (s : Scheduler J) : s.critical ≤ 2 := by
  unfold critical
  split
  · exact Nat.zero_le 2
  · split <;> decide
  · split <;> decide

/-- The thread is on its way: it is no new producer and no destructor, and a worker only if it is `w` or has
begun. -/
def Action.ongoing (s : Scheduler J) (w : Nat) (a : Action J) : Prop :=
  (∀ p priority job, a ≠ .offer p priority job) ∧ a ≠ .stop ∧
    ∀ w' ∈ a.worker, w' = w ∨ s.workers w' ≠ .top

/-- The thread that takes a step. -/
def Action.thread : Action J → Option Thread
  | .enter w | .acquire w | .check w | .wake w | .timeout w | .recheck w | .pop w | .begin w
  | .finish w => some (.worker w)
  | .offer p _ _ | .push p | .release p => some (.producer p)
  | .stop => none

theorem Action.thread_of_worker {w : Nat} (h : w ∈ a.worker) : a.thread = some (.worker w) := by
  cases a with
  | offer | push | release | stop => cases h
  | _ => exact congrArg (Option.map Thread.worker) h

/-- The owner of the mutex gives it back after two steps at the latest. -/
theorem exists_critical [DecidableEq J] (hx : Exclusive s) {thread : Thread} (hm : s.mutex = some thread)
    (w : Nat) : ∃ a t, s.step a = some t ∧ a.ongoing s w ∧ a.thread = some thread ∧ t.critical < s.critical := by
  have hinside : s.inside thread = true := (hx thread).mpr hm
  cases thread with
  | worker w' =>
      simp only [inside] at hinside
      cases hw : s.workers w' with
      | checking =>
          cases hjob : s.hasJob with
          | true =>
              refine ⟨.check w', s.moveWorker w' .popping s.mutex, by simp [step, hw, hjob],
                by simp [Action.ongoing, Action.worker, hw], rfl, ?_⟩
              simp [critical, hm, hw]
          | false =>
              refine ⟨.check w', s.moveWorker w' .sleeping none, by simp [step, hw, hjob],
                by simp [Action.ongoing, Action.worker, hw], rfl, ?_⟩
              simp [critical, hm, hw]
      | timedOut =>
          cases hjob : s.hasJob with
          | true =>
              refine ⟨.recheck w', s.moveWorker w' .popping s.mutex, by simp [step, hw, hjob],
                by simp [Action.ongoing, Action.worker, hw], rfl, ?_⟩
              simp [critical, hm, hw]
          | false =>
              refine ⟨.recheck w', s.moveWorker w' .top none, by simp [step, hw, hjob],
                by simp [Action.ongoing, Action.worker, hw], rfl, ?_⟩
              simp [critical, hm, hw]
      | popping =>
          refine ⟨.pop w', s.popJob w', by simp [step, hw],
            by simp [Action.ongoing, Action.worker, hw], rfl, ?_⟩
          simp [critical, hm, hw, popJob]
      | _ => simp [hw, WorkerPoint.inside] at hinside
  | producer p =>
      simp only [inside] at hinside
      cases hp : s.producers p with
      | outside => simp [hp, ProducerPoint.inside] at hinside
      | locked priority job =>
          refine ⟨.push p, s.pushJob p priority job, by simp [step, hp],
            by simp [Action.ongoing, Action.worker], rfl, ?_⟩
          simp [critical, hm, hp, pushJob]
      | pushed =>
          refine ⟨.release p, s.moveProducer p .outside none, by simp [step, hp],
            by simp [Action.ongoing, Action.worker], rfl, ?_⟩
          simp [critical, hm, hp]

/-- How far worker `w` is from its end, with the steps of the thread it may have to wait for. -/
def distance (s : Scheduler J) (w : Nat) : Nat := 3 * (s.workers w).remaining + s.critical

/-- A worker that has not ended comes closer to its end, or waits for the owner of the mutex, which can take
a step. -/
theorem exists_enabled [DecidableEq J] (hx : Exclusive s) (hstopped : s.running = false) {w : Nat}
    (hended : (s.workers w).ended = false) :
    ∃ a t, s.step a = some t ∧ a.ongoing s w ∧ t.distance w < s.distance w := by
  have hadvance : ∀ {a}, (s.step a).isSome = true → a.worker = some w → a.advances = true →
      (∀ p priority job, a ≠ .offer p priority job) → a ≠ .stop →
        ∃ a t, s.step a = some t ∧ a.ongoing s w ∧ t.distance w < s.distance w := by
    intro a hsome hworker hadvances hoffer hstop
    obtain ⟨t, hstep⟩ := Option.isSome_iff_exists.mp hsome
    have hmeasure := ((step_cases hstep).measures hstopped w).1
    have hof : a.of w Action.advances = true := by
      rw [Action.of, hworker, hadvances]
      simp
    rw [hof, if_pos rfl] at hmeasure
    have hcritical := t.critical_le
    refine ⟨a, t, hstep, ⟨hoffer, hstop, fun w' hw' => .inl ?_⟩, by unfold distance; omega⟩
    rw [hworker] at hw'
    exact (Option.some.inj hw').symm
  have hblocked : ∀ {thread}, s.mutex = some thread →
      ∃ a t, s.step a = some t ∧ a.ongoing s w ∧ t.distance w < s.distance w := by
    intro thread hm
    obtain ⟨a, t, hstep, hongoing, -, hlt⟩ := exists_critical hx hm w
    have hmeasure := ((step_cases hstep).measures hstopped w).1
    exact ⟨a, t, hstep, hongoing, by unfold distance; omega⟩
  have howner : (s.workers w).inside = true → s.mutex = some (.worker w) := (hx (.worker w)).mp
  cases hw : s.workers w with
  | top => exact hadvance (a := .enter w) (by simp [step, hw]) rfl rfl (by simp) (by simp)
  | acquiring =>
      cases hm : s.mutex with
      | none => exact hadvance (a := .acquire w) (by simp [step, hw, hm]) rfl rfl (by simp) (by simp)
      | some thread => exact hblocked hm
  | sleeping =>
      cases hm : s.mutex with
      | none => exact hadvance (a := .timeout w) (by simp [step, hw, hm]) rfl rfl (by simp) (by simp)
      | some thread => exact hblocked hm
  | checking => exact hblocked (howner (by rw [hw]; rfl))
  | timedOut => exact hblocked (howner (by rw [hw]; rfl))
  | popping => exact hblocked (howner (by rw [hw]; rfl))
  | popped jobWithError =>
      cases jobWithError with
      | none => exact hadvance (a := .begin w) (by simp [step, hw]) rfl rfl (by simp) (by simp)
      | some job => exact hadvance (a := .begin w) (by simp [step, hw]) rfl rfl (by simp) (by simp)
  | working job => exact hadvance (a := .finish w) (by simp [step, hw]) rfl rfl (by simp) (by simp)
  | exited =>
      rw [hw] at hended
      cases hended

end Scheduler

theorem WorkerPoint.ended_iff (point : WorkerPoint J) : point.ended = true ↔ point.remaining = 0 := by
  cases point with
  | popped jobWithError => cases jobWithError <;> simp [ended]
  | _ => simp [ended]

/-! ## The destructor -/

namespace Process

variable {s t u : Process J} {action : Action J}

/-- The mutex is with its owner, and only threads that were started have begun. -/
structure Threads (s : Process J) : Prop where
  exclusive : Scheduler.Exclusive s.scheduler
  begun : ∀ w, s.scheduler.workers w ≠ .top → w < s.started
  numbered : ∀ i, ∀ w ∈ s.threads i, w < s.started

theorem threads_start : Threads (start : Process J) :=
  ⟨Scheduler.exclusive_init, fun _ h => absurd rfl h, nofun⟩

theorem Step.threads (h : Step s action t) (hs : Threads s) : Threads t := by
  cases h with
  | construct => exact ⟨hs.exclusive, hs.begun, hs.numbered⟩
  | @create i threadCount =>
      refine ⟨hs.exclusive, fun w hw => Nat.lt_add_right _ (hs.begun w hw), ?_⟩
      refine (Function.forall_update_iff s.threads fun _ ws => ∀ w ∈ ws, w < s.started + threadCount).mpr
        ⟨fun w hw => ?_, fun j _ w hw => Nat.lt_add_right _ (hs.numbered j w hw)⟩
      rcases List.mem_append.mp hw with hw | hw
      · exact Nat.lt_add_right _ (hs.numbered i w hw)
      · exact (List.mem_range'_1.mp hw).2
  | destruct => exact ⟨hs.exclusive, hs.begun, hs.numbered⟩
  | join => exact ⟨hs.exclusive, hs.begun, hs.numbered⟩
  | @thread action scheduler hstop hw hstep =>
      refine ⟨Scheduler.exclusive_step hs.exclusive hstep, fun w htop => ?_, hs.numbered⟩
      by_cases hworker : action.worker = some w
      · exact hw w hworker
      · exact hs.begun w fun h => htop ((hstep.workers_of_ne hworker).trans h)

/-- The flag is cleared for good. -/
theorem Step.stopped (h : Step s action t) (hs : s.scheduler.running = false) : t.scheduler.running = false := by
  cases h with
  | destruct => rfl
  | thread hstop _ hstep => exact (hstep.running hstop).trans hs
  | _ => exact hs

theorem step_thread [DecidableEq J] {a : Scheduler.Action J} {scheduler : Scheduler J} (hstop : a ≠ .stop)
    (hw : ∀ w ∈ a.worker, w < s.started) (h : s.scheduler.step a = some scheduler) :
    s.step (.thread a) = some { s with scheduler := scheduler } := by
  have hstep : s.step (.thread a) = if ∀ w ∈ a.worker, w < s.started then
      (s.scheduler.step a).map fun scheduler => { s with scheduler := scheduler } else none := by
    cases a with
    | stop => exact absurd rfl hstop
    | _ => rfl
  rw [hstep, if_pos hw, h, Option.map_some]

/-- `t` is reached from `s` by steps of threads that are under way, after the flag was cleared. -/
structure Follows [DecidableEq J] (s t : Process J) (as : List (Scheduler.Action J)) : Prop where
  run : run step s (as.map .thread) = some t
  offers : ∀ a ∈ as, ∀ p priority job, a ≠ .offer p priority job
  threads : Threads t
  stopped : t.scheduler.running = false
  phase_eq : t.phase = s.phase
  threads_eq : t.threads = s.threads
  started_eq : t.started = s.started
  ended : ∀ w, (s.scheduler.workers w).ended = true → (t.scheduler.workers w).ended = true

theorem follows_nil [DecidableEq J] (hs : Threads s) (hstopped : s.scheduler.running = false) :
    Follows s s [] :=
  ⟨rfl, nofun, hs, hstopped, rfl, rfl, rfl, fun _ h => h⟩

theorem Follows.append [DecidableEq J] {as as' : List (Scheduler.Action J)} (h : Follows s t as)
    (h' : Follows t u as') : Follows s u (as ++ as') where
  run := by rw [List.map_append, run_append h.run, h'.run]
  offers a ha := (List.mem_append.mp ha).elim (h.offers a) (h'.offers a)
  threads := h'.threads
  stopped := h'.stopped
  phase_eq := h'.phase_eq.trans h.phase_eq
  threads_eq := h'.threads_eq.trans h.threads_eq
  started_eq := h'.started_eq.trans h.started_eq
  ended w hw := h'.ended w (h.ended w hw)

theorem follows_single [DecidableEq J] (hs : Threads s) (hstopped : s.scheduler.running = false) {w : Nat}
    (hw : w < s.started) {a : Scheduler.Action J} {scheduler : Scheduler J}
    (h : s.scheduler.step a = some scheduler) (hongoing : a.ongoing s.scheduler w) :
    Follows s { s with scheduler := scheduler } [a] := by
  obtain ⟨hoffer, hstop, hworker⟩ := hongoing
  have hstep : s.step (.thread a) = some { s with scheduler := scheduler } := by
    refine step_thread hstop (fun w' hw' => ?_) h
    rcases hworker w' hw' with rfl | hbegun
    · exact hw
    · exact hs.begun w' hbegun
  refine ⟨by rw [List.map_singleton, run_cons, hstep]; rfl, ?_, (step_cases hstep).threads hs,
    (step_cases hstep).stopped hstopped, rfl, rfl, rfl, fun w' hended => ?_⟩
  · intro a' ha'
    rw [List.mem_singleton.mp ha']
    exact hoffer
  · rw [WorkerPoint.ended_iff] at hended ⊢
    have hle := ((Scheduler.step_cases h).measures hstopped w').1
    show (scheduler.workers w').remaining = 0
    omega

/-- The threads that are under way can bring any one worker to its end. -/
theorem exists_follows_ended [DecidableEq J] (hs : Threads s) (hstopped : s.scheduler.running = false) {w : Nat}
    (hw : w < s.started) : ∃ t as, Follows s t as ∧ (t.scheduler.workers w).ended = true := by
  induction hn : s.scheduler.distance w using Nat.strong_induction_on generalizing s with
  | _ n ih =>
      cases hended : (s.scheduler.workers w).ended with
      | true => exact ⟨s, [], follows_nil hs hstopped, hended⟩
      | false =>
          obtain ⟨a, scheduler, hstep, hongoing, hlt⟩ := Scheduler.exists_enabled hs.exclusive hstopped hended
          have hfollows := follows_single hs hstopped hw hstep hongoing
          obtain ⟨t, as, hrest, ht⟩ := ih _ (hn ▸ hlt) hfollows.threads hfollows.stopped hw rfl
          exact ⟨t, [a] ++ as, hfollows.append hrest, ht⟩

/-- And so all workers, one after the other. -/
theorem exists_follows_all [DecidableEq J] (hs : Threads s) (hstopped : s.scheduler.running = false)
    (ws : List Nat) (hws : ∀ w ∈ ws, w < s.started) :
    ∃ t as, Follows s t as ∧ ∀ w ∈ ws, (t.scheduler.workers w).ended = true := by
  induction ws generalizing s with
  | nil => exact ⟨s, [], follows_nil hs hstopped, nofun⟩
  | cons w ws ih =>
      obtain ⟨t, as, hfollows, ht⟩ := exists_follows_ended hs hstopped (hws w List.mem_cons_self)
      obtain ⟨u, as', hrest, hu⟩ := ih hfollows.threads hfollows.stopped fun w' hw' => by
        rw [hfollows.started_eq]
        exact hws w' (List.mem_cons_of_mem _ hw')
      refine ⟨u, as ++ as', hfollows.append hrest, fun w' hw' => ?_⟩
      rcases List.mem_cons.mp hw' with rfl | hw'
      · exact hrest.ended w' ht
      · exact hu w' hw'

/-- The step is one of the thread of worker `w`, and of the kind. -/
def Action.of (w : Nat) (kind : Scheduler.Action J → Bool) : Action J → Bool
  | .thread a => a.of w kind
  | _ => false

/-- A measure of a worker that no step raises bounds the steps of a kind, in every run. -/
theorem countP_le [DecidableEq J] {f : WorkerPoint J → Nat} {kind : Scheduler.Action J → Bool} {w : Nat}
    (hmeasure : ∀ {s t : Scheduler J} {a : Scheduler.Action J}, Scheduler.Step s a t → s.running = false →
      f (t.workers w) + (if a.of w kind then 1 else 0) ≤ f (s.workers w))
    (hstopped : s.scheduler.running = false) {more : List (Action J)} (h : run step s more = some t) :
    more.countP (Action.of w kind) ≤ f (s.scheduler.workers w) := by
  have hstep : ∀ (s : Process J) a t, s.scheduler.running = false → step s a = some t →
      t.scheduler.running = false ∧
        f (t.scheduler.workers w) + (if Action.of w kind a then 1 else 0) ≤ f (s.scheduler.workers w) := by
    intro s a t hs hstep
    refine ⟨(step_cases hstep).stopped hs, ?_⟩
    cases step_cases hstep with
    | thread hstop hw hthread => exact hmeasure hthread hs
    | _ => exact le_refl _
  have hle := @run_countP_le _ _ step _ (fun s => f (s.scheduler.workers w)) _ hstep more s t hstopped h
  exact le_trans (Nat.le_add_right _ _) hle

/-- **The destructor returns.** Once a scheduler is being destroyed, the threads that are under way can always
end all its workers if their jobs return, so that the joins return, without a new job. Whatever happens after the
flag was cleared, no worker takes more than seven steps, waiting apart, and none takes more than one job. -/
theorem destructor_returns [DecidableEq J] {actions : List (Action J)} (h : run step start actions = some s)
    {i : Nat} (hi : s.phase i = .stopping) :
    (∃ (t : Process J) (as : List (Scheduler.Action J)),
        (∀ a ∈ as, ∀ p priority job, a ≠ .offer p priority job) ∧
          run step s (as.map .thread ++ [.join i]) = some t ∧ t.phase i = .destroyed) ∧
      ∀ more t, run step s more = some t → ∀ w,
        more.countP (Action.of w Scheduler.Action.advances) ≤ 7 ∧
          more.countP (Action.of w Scheduler.Action.pops) ≤ 1 := by
  have hinv : Inv s := run_invariant (fun _ _ _ hs hstep => (step_cases hstep).inv hs) inv_start h
  have hthreads : Threads s :=
    run_invariant (fun _ _ _ hs hstep => (step_cases hstep).threads hs) threads_start h
  have hstopped : s.scheduler.running = false := hinv.stopped.mpr ⟨i, .inl hi⟩
  constructor
  · obtain ⟨t, as, hfollows, hended⟩ := exists_follows_all hthreads hstopped (s.threads i) (hthreads.numbered i)
    have hjoin : t.step (.join i) = some { t with phase := Function.update t.phase i .destroyed } :=
      if_pos ⟨(congrFun hfollows.phase_eq i).trans hi, fun w hw => hended w (hfollows.threads_eq ▸ hw)⟩
    refine ⟨{ t with phase := Function.update t.phase i .destroyed }, as, hfollows.offers, ?_,
      Function.update_self i _ _⟩
    rw [run_append hfollows.run, run_cons, hjoin, Option.bind_some, run_nil]
  · intro more t hmore w
    have hadvances := countP_le (fun hstep hs => (hstep.measures hs w).1) hstopped hmore
    have hpops := countP_le (fun hstep hs => (hstep.measures hs w).2) hstopped hmore
    exact ⟨hadvances.trans (WorkerPoint.remaining_le _), hpops.trans (WorkerPoint.pops_le _)⟩

/-- A scheduler is destroyed while its worker waits for a job and another thread holds the mutex. -/
def interrupted : List (Action Nat) :=
  [.construct 0, .create 0 1, .thread (.enter 0), .thread (.acquire 0), .thread (.check 0),
    .thread (.offer 0 .eMedium 7), .destruct 0]

theorem destructor_returns_interrupted : ∃ s : Process Nat, run step start interrupted = some s ∧
    s.scheduler.workers 0 = .sleeping ∧ s.scheduler.mutex = some (.producer 0) ∧
    ∃ (t : Process Nat) (as : List (Scheduler.Action Nat)),
      run step s (as.map .thread ++ [.join 0]) = some t ∧ t.phase 0 = .destroyed := by
  obtain ⟨s, hs⟩ : ∃ s : Process Nat, run step start interrupted = some s := ⟨_, rfl⟩
  have hview : (run step start interrupted).map (fun s => (s.phase 0, s.scheduler.mutex)) =
      some (.stopping, some (.producer 0)) := rfl
  rw [hs, Option.map_some, Option.some.injEq, Prod.mk.injEq] at hview
  obtain ⟨t, as, -, hrun, ht⟩ := (destructor_returns hs hview.1).1
  refine ⟨s, hs, ?_, hview.2, t, as, hrun, ht⟩
  cases hs
  rfl

end Process

end Fipper

import Fipper.Job.Order
import Fipper.Job.Shutdown
import Mathlib.Algebra.Order.BigOperators.Group.List
import Mathlib.Data.Set.Card

/-!
# No job waits for good

While `s_running` is set, whatever the threads are doing, one worker and those that are under way can
bring every job to its end: no thread is blocked but by the mutex, and its owner is never blocked. This is so
for jobs that return (a worker's `finish` is enabled); a job that does not return keeps its worker.

* `Milestone`, `Passed` : what is behind a job; no step takes it back;
* `toGo`, `load` : how many milestones are ahead of the jobs;
* `WorkerPoint.toPop` : how many steps a worker is from its next job, if one waits;
* `jobs_finish` : every job that was offered can be brought to its end.
-/

namespace Fipper

open Lib

variable {J : Type*}

/-- What is ahead of a job when it is offered. -/
inductive Milestone
  | pushed
  | taken
  | begun
  | finished
  deriving DecidableEq

instance : Fintype Milestone := ⟨{.pushed, .taken, .begun, .finished}, fun m => by cases m <;> decide⟩

/-- How many steps a worker that has no job is from taking one. -/
@[simp] def WorkerPoint.toPop : WorkerPoint J → Nat
  | popping => 1
  | checking | timedOut => 2
  | acquiring | sleeping => 3
  | top => 4
  | popped _ | working _ | exited => 0

namespace Scheduler

variable {s t : Scheduler J} {a : Action J} {job : J}

/-- The job has been executed, or was refused. -/
def Finished (s : Scheduler J) (job : J) : Prop := job ∈ s.log.executed ∨ job ∈ s.log.rejected

def Passed (s : Scheduler J) (job : J) : Milestone → Prop
  | .pushed => job ∈ s.log.accepted ∨ job ∈ s.log.rejected
  | .taken => (∃ w, (s.workers w).job = some job) ∨ s.Finished job
  | .begun => (∃ w, s.workers w = .working job) ∨ s.Finished job
  | .finished => s.Finished job

/-! ## Nothing is taken back -/

theorem Step.log_mono (h : Step s a t) : s.log.accepted ⊆ t.log.accepted ∧ s.log.rejected ⊆ t.log.rejected ∧
    s.log.executed ⊆ t.log.executed := by
  have haccepted : s.log.accepted ⊆ t.log.accepted := by
    rw [h.accepted]
    exact List.subset_append_right _ _
  have hrejected : s.log.rejected ⊆ t.log.rejected := fun job hjob => (h.rejected_iff job).mpr (.inl hjob)
  exact ⟨haccepted, hrejected, h.executed_subset⟩

theorem Step.offered_eq (h : Step s a t) (hoffer : ∀ p priority job, a ≠ .offer p priority job) :
    t.log.offered = s.log.offered := by
  rw [h.offered]
  cases a with
  | offer p priority job => exact absurd rfl (hoffer p priority job)
  | _ => rfl

/-- A step moves one worker at most, which keeps its job or has executed it. -/
theorem Step.moves_job (h : Step s a t) :
    t.workers = s.workers ∨ ∃ w point, t.workers = Function.update s.workers w point ∧
      (∀ job, (s.workers w).job = some job → point.job = some job ∨ job ∈ t.log.executed) ∧
      ∀ job, s.workers w = .working job → job ∈ t.log.executed := by
  cases h with
  | offer => exact .inl rfl
  | push => exact .inl rfl
  | release => exact .inl rfl
  | stop => exact .inl rfl
  | enter hw => exact .inr ⟨_, _, rfl, by simp [hw, WorkerPoint.job], by simp [hw]⟩
  | acquire hw => exact .inr ⟨_, _, rfl, by simp [hw, WorkerPoint.job], by simp [hw]⟩
  | check_true hw => exact .inr ⟨_, _, rfl, by simp [hw, WorkerPoint.job], by simp [hw]⟩
  | check_false hw => exact .inr ⟨_, _, rfl, by simp [hw, WorkerPoint.job], by simp [hw]⟩
  | wake hw => exact .inr ⟨_, _, rfl, by simp [hw, WorkerPoint.job], by simp [hw]⟩
  | timeout hw => exact .inr ⟨_, _, rfl, by simp [hw, WorkerPoint.job], by simp [hw]⟩
  | recheck_true hw => exact .inr ⟨_, _, rfl, by simp [hw, WorkerPoint.job], by simp [hw]⟩
  | recheck_false hw => exact .inr ⟨_, _, rfl, by simp [hw, WorkerPoint.job], by simp [hw]⟩
  | pop hw => exact .inr ⟨_, _, rfl, by simp [hw, WorkerPoint.job], by simp [hw]⟩
  | begin_some hw => exact .inr ⟨_, _, rfl, by simp [hw, WorkerPoint.job], by simp [hw]⟩
  | begin_none hw => exact .inr ⟨_, _, rfl, by simp [hw, WorkerPoint.job], by simp [hw]⟩
  | finish hw => exact .inr ⟨_, _, rfl, by simp [hw, WorkerPoint.job], by simp [hw]⟩

theorem Step.finished (h : Step s a t) (hjob : s.Finished job) : t.Finished job := by
  obtain ⟨-, hrejected, hexecuted⟩ := h.log_mono
  exact hjob.imp (fun hmem => hexecuted hmem) fun hmem => hrejected hmem

/-- A job only moves forward. -/
theorem Step.passed (h : Step s a t) {milestone : Milestone} (hjob : s.Passed job milestone) :
    t.Passed job milestone := by
  obtain ⟨haccepted, hrejected, hexecuted⟩ := h.log_mono
  cases milestone with
  | pushed => exact hjob.imp (fun hmem => haccepted hmem) fun hmem => hrejected hmem
  | finished => exact h.finished hjob
  | taken =>
      rcases hjob with ⟨w, hw⟩ | hfinished
      · rcases h.moves_job with heq | ⟨w', point, heq, hkeeps, -⟩
        · exact .inl ⟨w, by rw [heq]; exact hw⟩
        · by_cases hne : w = w'
          · subst hne
            rcases hkeeps job hw with hpoint | hmem
            · exact .inl ⟨w, by rw [heq, Function.update_self]; exact hpoint⟩
            · exact .inr (.inl hmem)
          · exact .inl ⟨w, by rw [heq, Function.update_of_ne hne]; exact hw⟩
      · exact .inr (h.finished hfinished)
  | begun =>
      rcases hjob with ⟨w, hw⟩ | hfinished
      · rcases h.moves_job with heq | ⟨w', point, heq, -, hends⟩
        · exact .inl ⟨w, by rw [heq]; exact hw⟩
        · by_cases hne : w = w'
          · subst hne
            exact .inr (.inl (hends job hw))
          · exact .inl ⟨w, by rw [heq, Function.update_of_ne hne]; exact hw⟩
      · exact .inr (h.finished hfinished)

/-! ## How much is left -/

/-- How many milestones are ahead of the job. -/
noncomputable def toGo (s : Scheduler J) (job : J) : Nat := {milestone | ¬ s.Passed job milestone}.ncard

noncomputable def load (s : Scheduler J) : Nat := (s.log.offered.map s.toGo).sum

theorem Step.toGo_le (h : Step s a t) (job : J) : t.toGo job ≤ s.toGo job :=
  Set.ncard_le_ncard fun _ hmem hpassed => hmem (h.passed hpassed)

theorem Step.toGo_lt (h : Step s a t) {milestone : Milestone} (hbefore : ¬ s.Passed job milestone)
    (hafter : t.Passed job milestone) : t.toGo job < s.toGo job := by
  have hsub : {milestone | ¬ t.Passed job milestone} ⊆ {milestone | ¬ s.Passed job milestone} :=
    fun _ hmem hpassed => hmem (h.passed hpassed)
  exact Set.ncard_lt_ncard ((Set.ssubset_iff_of_subset hsub).mpr ⟨milestone, hbefore, fun hnot => hnot hafter⟩)

theorem toGo_le_four (s : Scheduler J) (job : J) : s.toGo job ≤ 4 := by
  have hle := Set.ncard_le_ncard (Set.subset_univ {milestone | ¬ s.Passed job milestone})
  rwa [Set.ncard_univ, Nat.card_eq_fintype_card] at hle

theorem load_le (s : Scheduler J) : s.load ≤ s.log.offered.length * 4 := by
  have hle : ∀ n ∈ s.log.offered.map s.toGo, n ≤ 4 := by
    intro n hn
    obtain ⟨job, -, rfl⟩ := List.mem_map.mp hn
    exact s.toGo_le_four job
  have hsum := List.sum_le_card_nsmul _ 4 hle
  rwa [List.length_map] at hsum

theorem Step.load_le (h : Step s a t) (hoffered : t.log.offered = s.log.offered) : t.load ≤ s.load := by
  unfold load
  rw [hoffered]
  exact List.sum_le_sum fun job _ => h.toGo_le job

theorem Step.load_lt (h : Step s a t) (hoffered : t.log.offered = s.log.offered) {milestone : Milestone}
    (hjob : job ∈ s.log.offered) (hbefore : ¬ s.Passed job milestone) (hafter : t.Passed job milestone) :
    t.load < s.load := by
  unfold load
  rw [hoffered]
  exact List.sum_lt_sum _ _ (fun job _ => h.toGo_le job) ⟨job, hjob, h.toGo_lt hbefore hafter⟩

/-- A worker exits only once the flag is cleared. -/
theorem Step.exited (h : Step s a t) (hs : ∀ w, s.workers w ≠ .exited) (hrunning : s.running = true) (w : Nat) :
    t.workers w ≠ .exited := by
  have hupdate : ∀ {w' : Nat} {point : WorkerPoint J}, point ≠ .exited →
      Function.update s.workers w' point w ≠ .exited := by
    intro w' point hpoint
    by_cases heq : w = w'
    · rw [heq, Function.update_self]
      exact hpoint
    · rw [Function.update_of_ne heq]
      exact hs w
  cases h with
  | offer => exact hs w
  | push => exact hs w
  | release => exact hs w
  | stop => exact hs w
  | enter hw => exact hupdate (by simp [hrunning])
  | _ => exact hupdate (by simp)

/-- How much is left to do until all jobs are at their end, by worker `w` and the owner of the mutex. -/
noncomputable def outstanding (s : Scheduler J) (w : Nat) : Nat :=
  16 * s.load + 3 * (s.workers w).toPop + s.critical

theorem toPop_le (point : WorkerPoint J) : point.toPop ≤ 4 := by
  cases point <;> simp

theorem outstanding_le (s : Scheduler J) (w : Nat) : s.outstanding w ≤ 64 * s.log.offered.length + 14 := by
  have hload := s.load_le
  have hpop := toPop_le (s.workers w)
  have hcritical := s.critical_le
  unfold outstanding
  omega

theorem Step.outstanding_of_passed (h : Step s a t) (hoffered : t.log.offered = s.log.offered)
    {milestone : Milestone} (hjob : job ∈ s.log.offered) (hbefore : ¬ s.Passed job milestone)
    (hafter : t.Passed job milestone) (w : Nat) : t.outstanding w < s.outstanding w := by
  have hload := h.load_lt hoffered hjob hbefore hafter
  have hpop := toPop_le (t.workers w)
  have hcritical := t.critical_le
  unfold outstanding
  omega

theorem Step.outstanding_of_toPop (h : Step s a t) (hoffered : t.log.offered = s.log.offered) {w : Nat}
    (hpop : (t.workers w).toPop < (s.workers w).toPop) : t.outstanding w < s.outstanding w := by
  have hload := h.load_le hoffered
  have hcritical := t.critical_le
  unfold outstanding
  omega

theorem Step.outstanding_of_critical (h : Step s a t) (hoffered : t.log.offered = s.log.offered) {w : Nat}
    (hw : a.worker ≠ some w) (hcritical : t.critical < s.critical) : t.outstanding w < s.outstanding w := by
  have hload := h.load_le hoffered
  have hsame := h.workers_of_ne hw
  unfold outstanding
  rw [hsame]
  omega

/-! ## There is always something to do -/

section Ledger
variable {lists : JobPriority → List J} {place : J → Option Place}

theorem Accounted.not_finished (h : Accounted s lists place) {pl : Place} (hplace : place job = some pl)
    (hdone : pl ≠ .done) (hrefused : pl ≠ .refused) : ¬ s.Finished job := by
  rintro (hexecuted | hrejected)
  · have heq := (h.place_iff .done job).mp hexecuted
    rw [hplace, Option.some.injEq] at heq
    exact hdone heq
  · have heq := (h.place_iff .refused job).mp hrejected
    rw [hplace, Option.some.injEq] at heq
    exact hrefused heq

theorem Accounted.offered (h : Accounted s lists place) {pl : Place} (hplace : place job = some pl) :
    job ∈ s.log.offered := by
  by_contra hnot
  rw [h.unplaced job hnot] at hplace
  cases hplace

theorem Accounted.held_unique (h : Accounted s lists place) {w w' : Nat} (hw : (s.workers w).job = some job)
    (hw' : (s.workers w').job = some job) : w = w' := by
  have hplace := (h.place_iff (.held w) job).mp hw
  rw [(h.place_iff (.held w') job).mp hw', Option.some.injEq] at hplace
  exact (Place.held.inj hplace).symm

end Ledger

variable [DecidableEq J]

/-- There is a step of a thread that is under way after which less is left to do. -/
def Closer (s : Scheduler J) (w : Nat) : Prop :=
  ∃ a t, s.step a = some t ∧ a.ongoing s w ∧ t.outstanding w < s.outstanding w

/-- A producer that holds the mutex can push. -/
theorem closer_of_locked (hv : s.Valid) {p : Nat} {priority : JobPriority}
    (hp : s.producers p = .locked priority job) (w : Nat) : s.Closer w := by
  obtain ⟨-, lists, place, ha⟩ := hv
  obtain ⟨hnone, hoffered⟩ := ha.pending p job (by rw [hp]; rfl)
  have hstep : s.step (.push p) = some (s.pushJob p priority job) := by simp [step, hp]
  have hbefore : ¬ s.Passed job .pushed := by
    rintro (haccepted | hrejected)
    · obtain ⟨pl, hpl, -⟩ := ha.placed job haccepted
      rw [hnone] at hpl
      cases hpl
    · have hrefused := (ha.place_iff .refused job).mp hrejected
      rw [hnone] at hrefused
      cases hrefused
  have hafter : (s.pushJob p priority job).Passed job .pushed := by
    by_cases hres : (s.queue.push priority job).1 = .eSuccess
    · left
      rw [(step_cases hstep).accepted, effect, hp]
      simp [hres, PriorityQueue.Effect.enters]
    · exact .inr (((step_cases hstep).rejected_iff job).mpr (.inr ⟨p, priority, rfl, hp, hres⟩))
  exact ⟨.push p, _, hstep, by simp [Action.ongoing, Action.worker],
    (step_cases hstep).outstanding_of_passed (step_cases hstep).offered hoffered hbefore hafter w⟩

/-- A worker that has a job can begin or finish it. -/
theorem closer_of_held (hv : s.Valid) {w' : Nat} (hw' : (s.workers w').job = some job) (w : Nat) :
    s.Closer w := by
  obtain ⟨-, lists, place, ha⟩ := hv
  have hplace := (ha.place_iff (.held w') job).mp hw'
  have hunfinished := ha.not_finished hplace (by simp) (by simp)
  have hoffered := ha.offered hplace
  cases hpoint : s.workers w' with
  | popped jobWithError =>
      rw [hpoint] at hw'
      obtain rfl : jobWithError = some job := hw'
      have hstep : s.step (.begin w') = some (s.moveWorker w' (.working job) s.mutex) := by simp [step, hpoint]
      have hbefore : ¬ s.Passed job .begun := by
        rintro (⟨w'', hw''⟩ | hfinished)
        · have heq : w' = w'' := ha.held_unique (by rw [hpoint]; rfl) (by rw [hw'']; rfl)
          rw [← heq, hpoint] at hw''
          cases hw''
        · exact hunfinished hfinished
      have hafter : (s.moveWorker w' (.working job) s.mutex).Passed job .begun :=
        .inl ⟨w', Function.update_self w' _ _⟩
      exact ⟨.begin w', _, hstep, by simp [Action.ongoing, Action.worker, hpoint],
        (step_cases hstep).outstanding_of_passed (step_cases hstep).offered hoffered hbefore hafter w⟩
  | working job' =>
      rw [hpoint] at hw'
      obtain rfl : job' = job := Option.some.inj hw'
      obtain ⟨t, hstep⟩ : ∃ t, s.step (.finish w') = some t := by simp [step, hpoint]
      have hbefore : ¬ s.Passed job' .finished := hunfinished
      have hafter : t.Passed job' .finished := by
        rcases (step_cases hstep).executed with ⟨w'', job'', heq, hw'', hexecuted⟩ | ⟨hne, -⟩
        · obtain rfl := Action.finish.inj heq
          rw [hpoint] at hw''
          obtain rfl := WorkerPoint.working.inj hw''
          left
          rw [hexecuted]
          exact List.mem_cons_self
        · exact absurd rfl (hne w')
      exact ⟨.finish w', t, hstep, by simp [Action.ongoing, Action.worker, hpoint],
        (step_cases hstep).outstanding_of_passed (step_cases hstep).offered hoffered hbefore hafter w⟩
  | _ => simp [hpoint, WorkerPoint.job] at hw'

/-- Where a job waits, worker `w` comes closer to it, or the owner of the mutex to giving it back. -/
theorem closer_of_hasJob (hv : s.Valid) (hrunning : s.running = true) {w : Nat} (hw : s.workers w ≠ .exited)
    (hjob : s.hasJob = true) : s.Closer w := by
  have hx : Exclusive s := hv.1
  have hadvance : ∀ {a t}, s.step a = some t → t.log.offered = s.log.offered → a.ongoing s w →
      (t.workers w).toPop < (s.workers w).toPop → s.Closer w := fun hstep hoffered hongoing hpop =>
    ⟨_, _, hstep, hongoing, (step_cases hstep).outstanding_of_toPop hoffered hpop⟩
  have hblocked : ∀ {thread}, s.mutex = some thread → (s.workers w).inside = false → s.Closer w := by
    intro thread hm houtside
    obtain ⟨a, t, hstep, hongoing, hthread, hlt⟩ := exists_critical hx hm w
    have hother : a.worker ≠ some w := by
      intro heq
      have howner : s.mutex = some (.worker w) := hm.trans (hthread.symm.trans (Action.thread_of_worker heq))
      have hinside : s.inside (.worker w) = true := (hx (.worker w)).mpr howner
      exact absurd (hinside.symm.trans houtside) Bool.noConfusion
    have hoffered : t.log.offered = s.log.offered := (step_cases hstep).offered_eq hongoing.1
    exact ⟨a, t, hstep, hongoing, (step_cases hstep).outstanding_of_critical hoffered hother hlt⟩
  cases hpoint : s.workers w with
  | top =>
      have hstep : s.step (.enter w) = some (s.moveWorker w .acquiring s.mutex) := by
        simp [step, hpoint, hrunning]
      exact hadvance hstep rfl (by simp [Action.ongoing, Action.worker]) (by simp [hpoint])
  | acquiring =>
      cases hm : s.mutex with
      | none =>
          have hstep : s.step (.acquire w) = some (s.moveWorker w .checking (some (.worker w))) := by
            simp [step, hpoint, hm]
          exact hadvance hstep rfl (by simp [Action.ongoing, Action.worker]) (by simp [hpoint])
      | some thread => exact hblocked hm (by rw [hpoint]; rfl)
  | sleeping =>
      cases hm : s.mutex with
      | none =>
          have hstep : s.step (.wake w) = some (s.moveWorker w .checking (some (.worker w))) := by
            simp [step, hpoint, hm]
          exact hadvance hstep rfl (by simp [Action.ongoing, Action.worker]) (by simp [hpoint])
      | some thread => exact hblocked hm (by rw [hpoint]; rfl)
  | checking =>
      have hstep : s.step (.check w) = some (s.moveWorker w .popping s.mutex) := by simp [step, hpoint, hjob]
      exact hadvance hstep rfl (by simp [Action.ongoing, Action.worker]) (by simp [hpoint])
  | timedOut =>
      have hstep : s.step (.recheck w) = some (s.moveWorker w .popping s.mutex) := by simp [step, hpoint, hjob]
      exact hadvance hstep rfl (by simp [Action.ongoing, Action.worker]) (by simp [hpoint])
  | popping =>
      obtain ⟨lists, place, ha⟩ := hv.2
      obtain ⟨p, job, jobs, hlist, hpop, -⟩ := JobQueue.pop_of_ne_nil ha.queue (ha.popping w hpoint)
      have hplace : place job = some (.waiting p) := by
        apply (ha.place_iff _ _).mp
        show job ∈ lists p
        rw [hlist]
        exact List.mem_cons_self
      have hstep : s.step (.pop w) = some (s.popJob w) := by simp [step, hpoint]
      have hbefore : ¬ s.Passed job .taken := by
        rintro (⟨w', hw'⟩ | hfinished)
        · have heq := (ha.place_iff (.held w') job).mp hw'
          rw [hplace] at heq
          cases heq
        · exact ha.not_finished hplace (by simp) (by simp) hfinished
      have hafter : (s.popJob w).Passed job .taken := by
        refine .inl ⟨w, ?_⟩
        show (Function.update s.workers w (.popped s.queue.pop.1) w).job = some job
        rw [Function.update_self, hpop]
        rfl
      exact ⟨.pop w, _, hstep, by simp [Action.ongoing, Action.worker],
        (step_cases hstep).outstanding_of_passed (step_cases hstep).offered (ha.offered hplace) hbefore hafter w⟩
  | popped jobWithError =>
      obtain ⟨lists, place, ha⟩ := hv.2
      cases jobWithError with
      | none => exact absurd hpoint (ha.obtained w)
      | some job => exact closer_of_held hv (show (s.workers w).job = some job by rw [hpoint]; rfl) w
  | working job => exact closer_of_held hv (show (s.workers w).job = some job by rw [hpoint]; rfl) w
  | exited => exact absurd hpoint hw

/-- What the steps of threads that are under way keep. -/
structure Ready (s : Scheduler J) : Prop where
  valid : s.Valid
  pushed : s.Pushed
  running : s.running = true
  exited : ∀ w, s.workers w ≠ .exited

theorem Ready.closer (h : s.Ready) (w : Nat) (hnot : ¬ ∀ job ∈ s.log.offered, s.Finished job) :
    s.Closer w := by
  obtain ⟨job, hmem, hunfinished⟩ : ∃ job ∈ s.log.offered, ¬ s.Finished job := by
    by_contra hnone
    exact hnot fun job hmem => by_contra fun hjob => hnone ⟨job, hmem, hjob⟩
  rcases h.pushed job hmem with ⟨p, priority, hp⟩ | haccepted | hrejected
  · exact closer_of_locked h.valid hp w
  · obtain ⟨lists, place, ha⟩ := h.valid.2
    obtain ⟨pl, hpl, hrefused⟩ := ha.placed job haccepted
    have hat := (ha.place_iff pl job).mpr hpl
    cases pl with
    | refused => exact absurd rfl hrefused
    | waiting p =>
        have hne : ∃ p, lists p ≠ [] := ⟨p, List.ne_nil_of_mem hat⟩
        exact closer_of_hasJob h.valid h.running (h.exited w) ((hasJob_iff ha.queue).mpr hne)
    | held w' => exact closer_of_held h.valid hat w
    | done => exact absurd (.inl hat) hunfinished
  · exact absurd (.inr hrejected) hunfinished

theorem Ready.step (h : s.Ready) (hstep : s.step a = some t) (hstop : a ≠ .stop) : t.Ready where
  valid := valid_step h.valid hstep
  pushed := (step_cases hstep).pushed h.pushed
  running := ((step_cases hstep).running hstop).trans h.running
  exited := (step_cases hstep).exited h.exited h.running

omit [DecidableEq J] in
/-- Jobs that were accepted are not refused. -/
theorem Ready.executed_of_finished (h : s.Ready) (hfinished : ∀ job ∈ s.log.offered, s.Finished job)
    (hjob : job ∈ s.log.accepted) : job ∈ s.log.executed := by
  obtain ⟨lists, place, ha⟩ := h.valid.2
  obtain ⟨pl, hpl, -⟩ := ha.placed job hjob
  rcases hfinished job (ha.offered hpl) with hexecuted | hrejected
  · exact hexecuted
  · exact absurd hjob (h.valid.not_accepted hrejected)

/-- Only a destructor clears the flag, and none sets it again. -/
theorem ready_step (h : s.running = true → s.Ready) (hstep : s.step a = some t) (ht : t.running = true) :
    t.Ready := by
  have hstop : a ≠ .stop := by
    rintro rfl
    cases step_cases hstep
    cases ht
  have hs : s.running = true := ((step_cases hstep).running hstop).symm.trans ht
  exact (h hs).step hstep hstop

omit [DecidableEq J] in
theorem ready_init : (init : Scheduler J).Ready := ⟨valid_init, nofun, rfl, nofun⟩

theorem ready_run {as : List (Action J)} (h : run step init as = some s) (hrunning : s.running = true) :
    s.Ready := by
  have hready : s.running = true → s.Ready :=
    run_invariant (fun _ _ _ hs hstep => ready_step hs hstep) (fun _ => ready_init) h
  exact hready hrunning

/-- **No job waits for good.** While `s_running` is set, whatever the threads have done so far, and if the jobs
return: worker `w` and the threads that are under way can bring every job that was offered to its end, without a
new job, in at most 64 steps for each. Those that were accepted are then executed. -/
theorem jobs_finish {as : List (Action J)} (h : run step init as = some s) (hrunning : s.running = true)
    (w : Nat) :
    ∃ more t, run step s more = some t ∧ Along step (fun s a => a.ongoing s w) s more ∧
      more.length ≤ 64 * s.log.offered.length + 14 ∧
      (∀ job ∈ s.log.offered, t.Finished job) ∧ ∀ job ∈ s.log.accepted, job ∈ t.log.executed := by
  have hstep : ∀ u : Scheduler J,
      (u.Ready ∧ u.log.offered = s.log.offered ∧ s.log.accepted ⊆ u.log.accepted) →
        (¬ ∀ job ∈ u.log.offered, u.Finished job) → ∃ a v, u.step a = some v ∧ a.ongoing u w ∧
          (v.Ready ∧ v.log.offered = s.log.offered ∧ s.log.accepted ⊆ v.log.accepted) ∧
          v.outstanding w < u.outstanding w := by
    rintro u ⟨hready, hoffered, haccepted⟩ hnot
    obtain ⟨a, v, hstep, hongoing, hlt⟩ := hready.closer w hnot
    have hsame : v.log.offered = u.log.offered := (step_cases hstep).offered_eq hongoing.1
    exact ⟨a, v, hstep, hongoing, ⟨hready.step hstep hongoing.2.1, hsame.trans hoffered,
      List.Subset.trans haccepted (step_cases hstep).log_mono.1⟩, hlt⟩
  obtain ⟨more, t, hmore, halong, ⟨hready, hoffered, haccepted⟩, hgood, hlength⟩ :=
    exists_run hstep ⟨ready_run h hrunning, rfl, List.Subset.refl _⟩
  refine ⟨more, t, hmore, halong, ?_, fun job hmem => hgood job (hoffered ▸ hmem), fun job hmem => ?_⟩
  · have hle := s.outstanding_le w
    omega
  · exact hready.executed_of_finished hgood (haccepted hmem)

/-- A worker sleeps, and another thread is about to push a job. -/
def sleeping : List (Action Nat) := [.enter 0, .acquire 0, .check 0, .offer 1 .eLow 7]

theorem jobs_finish_sleeping : ∃ s, run step init sleeping = some s ∧
    ∃ more t, run step s more = some t ∧ more.length ≤ 78 ∧ t.Finished 7 := by
  obtain ⟨s, hs⟩ : ∃ s, run step (init : Scheduler Nat) sleeping = some s := ⟨_, rfl⟩
  have hview : (run step (init : Scheduler Nat) sleeping).map (fun s => (s.running, s.log.offered)) =
      some (true, [7]) := rfl
  rw [hs, Option.map_some, Option.some.injEq, Prod.mk.injEq] at hview
  obtain ⟨more, t, hmore, -, hlength, hfinished, -⟩ := jobs_finish hs hview.1 0
  rw [hview.2] at hlength hfinished
  exact ⟨s, hs, more, t, hmore, hlength, hfinished 7 List.mem_cons_self⟩

end Scheduler

end Fipper

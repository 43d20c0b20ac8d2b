import Fipper.Job.Scheduler
import Fipper.Lib.QueueOrder

/-!
# The order in which jobs are taken

What a run of producers and workers does to the rings, one `Effect` for each step: a push that succeeds
lets a job enter at its priority, a pop lets it leave.

* `effect` : the effect of a step; `effects as` : those of a run, in order;
* `jobs_in_order` : the jobs of one priority are taken in the order in which they were accepted, and none
  while a job of a higher priority waits;
* `job_taken` : how many other jobs are taken before one that waits.
-/

namespace Fipper

open Lib Lib.PriorityQueue

variable {J : Type*}

/-- The priority of the ring that `pop` takes a job from. -/
def JobQueue.top (q : JobQueue J) : Option JobPriority :=
  JobPriority.values.reverse.find? fun p => !(q.queues p).empty

theorem JobQueue.top_eq {q : JobQueue J} {s : JobPriority → List J} (h : q.Represents s) :
    q.top = highest s := by
  have hempty : ∀ p, (!(q.queues p).empty) = !(s p).isEmpty := by
    intro p
    rw [Bool.not_inj_iff, Bool.eq_iff_iff, (h.queue p).empty_iff, List.isEmpty_iff]
  unfold top
  simp only [hempty]
  exact find_highest (by decide) (fun p => List.mem_reverse.mpr (JobPriority.mem_values p)) s

namespace Scheduler

/-- What a step does to the rings. -/
def effect (s : Scheduler J) : Action J → Effect JobPriority J
  | .push p =>
      match s.producers p with
      | .locked priority job =>
          if (s.queue.push priority job).1 = .eSuccess then .entered priority job else .nothing
      | _ => .nothing
  | .pop _ =>
      match s.queue.top, s.queue.pop.1 with
      | some priority, some job => .left priority job
      | _, _ => .nothing
  | _ => .nothing

/-- What the steps of a run do to the rings. -/
def effects [DecidableEq J] (as : List (Action J)) : List (Effect JobPriority J) :=
  observed step effect init as

theorem Step.moves {s t : Scheduler J} {a : Action J} (h : Step s a t) {lists : JobPriority → List J}
    (hq : s.queue.Represents lists) :
    ∃ lists', Moves lists (s.effect a) lists' ∧ t.queue.Represents lists' := by
  cases h with
  | @push p priority job hp =>
      simp only [effect, hp]
      by_cases hfull : (lists priority).length = fpJobQueueSize
      · have hres : (s.queue.push priority job).1 ≠ .eSuccess := by
          rw [JobQueue.push_full hq hfull]
          nofun
        rw [if_neg hres, pushJob_full hq hfull]
        exact ⟨lists, .nothing, hq⟩
      · have hlt := Nat.lt_of_le_of_ne (hq.queue priority).length_le hfull
        rw [if_pos (JobQueue.push_of_lt hq hlt job).1, pushJob_of_lt hq hlt]
        exact ⟨_, .entered priority job, (JobQueue.push_of_lt hq hlt job).2⟩
  | @pop w hw =>
      obtain ⟨hjob, hq'⟩ := JobQueue.pop_represents hq
      simp only [effect, JobQueue.top_eq hq, hjob]
      cases htop : highest lists with
      | bot =>
          rw [pop_of_bot htop] at hq' ⊢
          exact ⟨lists, .nothing, hq'⟩
      | coe priority =>
          obtain ⟨job, jobs, hlist⟩ := List.exists_cons_of_ne_nil (highest_eq_coe_iff.mp htop).1
          rw [pop_of_highest htop, hlist] at hq' ⊢
          exact ⟨_, .left priority job jobs htop hlist, hq'⟩
  | _ => exact ⟨lists, .nothing, hq⟩

/-- **A run is a path of the priority queue.** -/
theorem path_run [DecidableEq J] {s t : Scheduler J} {as : List (Action J)} {lists : JobPriority → List J}
    (hq : s.queue.Represents lists) (h : run step s as = some t) :
    ∃ lists', Path lists (observed step effect s as) lists' ∧ t.queue.Represents lists' :=
  run_path (R := fun s lists => s.queue.Represents lists)
    (fun _ _ _ _ hq hstep => (step_cases hstep).moves hq) hq h

theorem Step.accepted {s t : Scheduler J} {a : Action J} (h : Step s a t) :
    t.log.accepted = (s.effect a).enters ++ s.log.accepted := by
  cases h with
  | @push p priority job hp =>
      simp only [effect, hp, pushJob]
      by_cases hres : (s.queue.push priority job).1 = .eSuccess
      · simp [hres, Effect.enters]
      · simp [hres, Effect.enters]
  | @pop w hw =>
      simp only [effect]
      split <;> rfl
  | _ => rfl

/-- The accepted jobs are those that entered a ring, in this order. -/
theorem accepted_run [DecidableEq J] {s : Scheduler J} {as : List (Action J)} (h : run step init as = some s) :
    s.log.accepted.reverse = (effects as).flatMap Effect.enters := by
  have hstep : ∀ (s : Scheduler J) a t, step s a = some t →
      t.log.accepted.reverse = s.log.accepted.reverse ++ (s.effect a).enters := by
    intro s a t hstep
    rw [(step_cases hstep).accepted, List.reverse_append]
    congr 1
    cases s.effect a <;> rfl
  exact @run_log _ _ _ step effect _ (fun s => s.log.accepted.reverse) Effect.enters hstep as init s h

/-- **Jobs are taken in order.** After any interleaving of producers and workers: at each priority, the
jobs that were taken are the first that were accepted, in the same order, and those that wait are the
others; no job was taken while one of a higher priority was waiting. -/
theorem jobs_in_order [DecidableEq J] (as : List (Action J)) (s : Scheduler J)
    (h : run step init as = some s) :
    s.log.accepted.reverse = (effects as).flatMap Effect.enters ∧
      (∃ waiting, s.queue.Represents waiting ∧
        ∀ p, entries p (effects as) = departures p (effects as) ++ waiting p) ∧
      ∀ before p job after, effects as = before ++ .left p job :: after →
        ∀ p', p < p' → entries p' before = departures p' before := by
  obtain ⟨waiting, hpath, hq⟩ := path_run JobQueue.represents_init h
  refine ⟨accepted_run h, ⟨waiting, hq, path_order hpath⟩, ?_⟩
  intro before p job after heq p' hlt
  rw [← effects, heq] at hpath
  obtain ⟨lists, hbefore, hafter⟩ := path_append_iff.mp hpath
  cases hafter with
  | cons hmove _ =>
      have horder := path_order hbefore p'
      rwa [hmove.highest hlt, List.append_nil, List.nil_append] at horder

/-- In the run of the module before, the second job is taken first, since its priority is higher. -/
theorem jobs_in_order_twoJobs : ∃ s, run step init twoJobs = some s ∧
    (effects twoJobs).filter Effect.departs = [.left .eHigh 8, .left .eMedium 7] ∧
    s.log.accepted.reverse = (effects twoJobs).flatMap Effect.enters ∧
    ∃ waiting, s.queue.Represents waiting ∧
      ∀ p, entries p (effects twoJobs) = departures p (effects twoJobs) ++ waiting p := by
  have h := jobs_in_order twoJobs _ rfl
  exact ⟨_, rfl, by decide, h.1, h.2.1⟩

/-- **How long a job waits.** Ahead of a waiting job there are fewer than sixteen jobs for each priority
from its own on; it is taken, at the latest, once more jobs have been taken than were ahead of it and
have been accepted at a higher priority since. -/
theorem job_taken [DecidableEq J] {as : List (Action J)} {s t : Scheduler J}
    {waiting : JobPriority → List J} (hq : s.queue.Represents waiting) (h : run step s as = some t)
    {p : JobPriority} {i : Nat} {job : J} (hjob : (waiting p)[i]? = some job) :
    ahead waiting p i < fpJobQueueSize * (Finset.univ.filter (p ≤ ·)).card ∧
      (ahead waiting p i + (observed step effect s as).countP (Effect.overtakes p) <
          (observed step effect s as).countP Effect.departs →
        job ∈ departures p (observed step effect s as)) := by
  obtain ⟨hi, -⟩ := List.getElem?_eq_some_iff.mp hjob
  obtain ⟨waiting', hpath, -⟩ := path_run hq h
  exact ⟨ahead_lt (fun p => (hq.queue p).length_le) hi, path_leaves hpath hjob⟩

/-- Producer `p` pushes a job. -/
def offering (p : Nat) (priority : JobPriority) (job : Nat) : List (Action Nat) :=
  [.offer p priority job, .push p, .release p]

/-- Worker `w` takes a job. -/
def taking (w : Nat) : List (Action Nat) := [.enter w, .acquire w, .check w, .pop w]

/-- Two jobs are ahead of job 8. -/
def waitingThird : List (Action Nat) := offering 0 .eLow 7 ++ offering 0 .eLow 8 ++ offering 1 .eMedium 9

/-- One overtakes it, and the workers take four. -/
def overtaken : List (Action Nat) := offering 1 .eHigh 10 ++ taking 0 ++ taking 1 ++ taking 2 ++ taking 3

theorem job_taken_overtaken : ∃ s t, run step init waitingThird = some s ∧ run step s overtaken = some t ∧
    (observed step effect s overtaken).filter Effect.departs =
      [.left .eHigh 10, .left .eMedium 9, .left .eLow 7, .left .eLow 8] ∧
    8 ∈ departures .eLow (observed step effect s overtaken) := by
  obtain ⟨s, hs⟩ : ∃ s, run step init waitingThird = some s := ⟨_, rfl⟩
  obtain ⟨waiting, hpath, hq⟩ := path_run JobQueue.represents_init hs
  obtain rfl : waiting = fun p => entries p (effects waitingThird) :=
    funext fun p => (path_order hpath p).symm.trans (by rfl)
  cases hs
  exact ⟨_, _, rfl, rfl, by decide, (job_taken hq rfl (p := .eLow) (i := 1) rfl).2 (by decide)⟩

/-! ## The jobs that were accepted -/

section
variable {s t : Scheduler J} {a : Action J}

/-- A job that was offered is about to be pushed, or was. -/
def Pushed (s : Scheduler J) : Prop :=
  ∀ job ∈ s.log.offered, (∃ p priority, s.producers p = .locked priority job) ∨
    job ∈ s.log.accepted ∨ job ∈ s.log.rejected

theorem Step.pushed (h : Step s a t) (hs : Pushed s) : Pushed t := by
  intro job hjob
  cases h with
  | @offer p priority job' hp hm hnew =>
      rcases List.mem_cons.mp hjob with rfl | hjob
      · exact .inl ⟨p, priority, Function.update_self p _ _⟩
      · refine (hs job hjob).imp_left ?_
        rintro ⟨p', priority', hp'⟩
        have hne : p' ≠ p := by
          rintro rfl
          rw [hp] at hp'
          cases hp'
        exact ⟨p', priority', by rw [← hp']; exact Function.update_of_ne hne _ _⟩
  | @push p priority job' hp =>
      have hoffered : job ∈ s.log.offered := by
        unfold pushJob at hjob
        dsimp only at hjob
        split_ifs at hjob <;> exact hjob
      have haccepted : (s.pushJob p priority job').log.accepted =
          if (s.queue.push priority job').1 = .eSuccess then job' :: s.log.accepted else s.log.accepted := by
        unfold pushJob
        dsimp only
        split_ifs <;> rfl
      have hrejected : (s.pushJob p priority job').log.rejected =
          if (s.queue.push priority job').1 = .eSuccess then s.log.rejected else job' :: s.log.rejected := by
        unfold pushJob
        dsimp only
        split_ifs <;> rfl
      rw [haccepted, hrejected]
      rcases hs job hoffered with ⟨p', priority', hp'⟩ | hmem | hmem
      · by_cases heq : p' = p
        · rw [heq, hp, ProducerPoint.locked.injEq] at hp'
          rw [hp'.2]
          right
          split_ifs
          · exact .inl List.mem_cons_self
          · exact .inr List.mem_cons_self
        · exact .inl ⟨p', priority', by rw [← hp']; exact Function.update_of_ne heq _ _⟩
      · right
        split_ifs
        · exact .inl (List.mem_cons_of_mem _ hmem)
        · exact .inl hmem
      · right
        split_ifs
        · exact .inr hmem
        · exact .inr (List.mem_cons_of_mem _ hmem)
  | @release p hp =>
      refine (hs job hjob).imp_left ?_
      rintro ⟨p', priority', hp'⟩
      have hne : p' ≠ p := by
        rintro rfl
        rw [hp] at hp'
        cases hp'
      exact ⟨p', priority', by rw [← hp']; exact Function.update_of_ne hne _ _⟩
  | _ => exact hs job hjob

/-- A job that has a place among the queues, the workers and those executed was accepted. -/
theorem Accounted.accepted {lists : JobPriority → List J} {place : J → Option Place}
    (h : Accounted s lists place) (hs : Pushed s) {job : J} {pl : Place} (hplace : place job = some pl)
    (hpl : pl ≠ .refused) : job ∈ s.log.accepted := by
  have hoffered : job ∈ s.log.offered := by
    by_contra hnot
    rw [h.unplaced job hnot] at hplace
    cases hplace
  rcases hs job hoffered with ⟨p, priority, hp⟩ | haccepted | hrejected
  · have hnone := (h.pending p job (by rw [hp]; rfl)).1
    rw [hnone] at hplace
    cases hplace
  · exact haccepted
  · rw [(h.place_iff .refused job).mp hrejected, Option.some.injEq] at hplace
    exact absurd hplace.symm hpl

theorem Valid.accepted_of_queued [DecidableEq J] (h : s.Valid) (hs : Pushed s) {job : J}
    (hjob : s.Queued job) : job ∈ s.log.accepted := by
  obtain ⟨-, lists, place, ha⟩ := h
  obtain ⟨⟨⟨p, i⟩, hi, -⟩, -⟩ := hjob
  exact ha.accepted hs ((ha.slot_iff job p).mp ⟨i, hi⟩) nofun

theorem Valid.accepted_of_job (h : s.Valid) (hs : Pushed s) {w : Nat} {job : J}
    (hjob : (s.workers w).job = some job) : job ∈ s.log.accepted := by
  obtain ⟨-, lists, place, ha⟩ := h
  exact ha.accepted hs ((ha.place_iff (.held w) job).mp hjob) nofun

theorem Valid.accepted_of_executed (h : s.Valid) (hs : Pushed s) {job : J}
    (hjob : job ∈ s.log.executed) : job ∈ s.log.accepted := by
  obtain ⟨-, lists, place, ha⟩ := h
  exact ha.accepted hs ((ha.place_iff .done job).mp hjob) nofun

theorem Valid.executed_nodup (h : s.Valid) : s.log.executed.Nodup := by
  obtain ⟨-, lists, place, ha⟩ := h
  exact ha.executed_nodup

/-- The rings are pushed to and popped from, and nothing else. -/
theorem Step.queue (h : Step s a t) :
    (∃ p priority job, a = .push p ∧ s.producers p = .locked priority job ∧
        t.queue = (s.queue.push priority job).2) ∨
      (∃ w, a = .pop w ∧ t.queue = s.queue.pop.2) ∨
      (∀ p, a ≠ .push p) ∧ (∀ w, a ≠ .pop w) ∧ t.queue = s.queue := by
  cases h with
  | push hp => exact .inl ⟨_, _, _, rfl, hp, rfl⟩
  | pop hw => exact .inr (.inl ⟨_, rfl, rfl⟩)
  | _ => exact .inr (.inr ⟨nofun, nofun, rfl⟩)

end

end Scheduler

end Fipper

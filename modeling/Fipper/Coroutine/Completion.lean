import Fipper.Job.Scheduler

/-!
# `AsyncAwaiter`: suspension, completion, resumption

Suspended coroutines and the threads that complete their awaiters, on top of the scheduler; the awaiters are
given by any names `A`. A wrapper coroutine that suspends leaves its handle in an awaiter and starts the awaited process
(`getPipelinedCallback`); the process calls `complete`, which stores the value and pushes a resume
job with `__eResumingJob`; a worker that runs the job resumes the handle. Any number of awaiters may
be waiting, and `complete` and the workers interleave as in `Scheduler`.

* `step` : the transition system;
* `Room` : a resume job about to be pushed finds a free slot in its ring;
* `completed_kept_iff` : no completion of a run is lost exactly when all its pushes had `Room`.
-/

namespace Fipper

open Lib

/-- The jobs of the server: a request to handle, and `m_handle.resume()` on an awaiter. -/
inductive Work (A : Type)
  | request (n : Nat)
  | resume (awaiter : A)
  deriving DecidableEq, Repr

def Work.awaiter {A : Type} : Work A → Option A
  | request _ => none
  | resume awaiter => some awaiter

/-- `m_value` and `m_handle`; a wrapper's handle is a number, the null handle is `none`. -/
structure AsyncAwaiter (T : Type*) where
  value : T
  handle : Option Nat

/-- The scheduler, the awaiters, and which awaiter has resumed which handle, the latest first. -/
structure AsyncRuntime (A : Type) (T : Type*) where
  scheduler : Scheduler (Work A)
  awaiters : A → AsyncAwaiter T
  resumed : List (A × Option Nat)

namespace AsyncRuntime

inductive Action (A : Type) (T : Type*)
  /-- The pipelined callback runs: `m_handle = handle; m_callback(*this)`. -/
  | suspend (awaiter : A) (handle : Nat)
  /-- Producer `p` enters `complete(value)` and constructs the guard. -/
  | complete (p : Nat) (awaiter : A) (value : T)
  /-- Producer `p` constructs the guard to push a request. -/
  | request (p n : Nat)
  | thread (action : Scheduler.Action (Work A))

variable {A : Type} [DecidableEq A] {T : Type*}

def init [Inhabited T] : AsyncRuntime A T := ⟨.init, fun _ => ⟨default, none⟩, []⟩

/-- The handle that `action` resumes, if it ends a resume job. -/
def resumes (s : AsyncRuntime A T) : Scheduler.Action (Work A) → List (A × Option Nat)
  | .finish w =>
      match s.scheduler.workers w with
      | .working (.resume awaiter) => [(awaiter, (s.awaiters awaiter).handle)]
      | _ => []
  | _ => []

def step (s : AsyncRuntime A T) : Action A T → Option (AsyncRuntime A T)
  | .suspend awaiter handle =>
      match (s.awaiters awaiter).handle with
      | none =>
          let awaiters := Function.update s.awaiters awaiter ⟨(s.awaiters awaiter).value, some handle⟩
          some { s with awaiters := awaiters }
      | some _ => none
  | .complete p awaiter value =>
      match (s.awaiters awaiter).handle with
      | none => none
      | some handle =>
          let awaiters := Function.update s.awaiters awaiter ⟨value, some handle⟩
          (s.scheduler.step (.offer p .eResumingJob (.resume awaiter))).map
            fun scheduler => { s with scheduler := scheduler, awaiters := awaiters }
  | .request p n =>
      (s.scheduler.step (.offer p .eMedium (.request n))).map
        fun scheduler => { s with scheduler := scheduler }
  -- jobs are offered by the two actions above only
  | .thread (.offer _ _ _) => none
  | .thread action =>
      (s.scheduler.step action).map
        fun scheduler => { s with scheduler := scheduler, resumed := s.resumes action ++ s.resumed }

/-- A resume job about to be pushed finds a free slot. -/
def Room (s : AsyncRuntime A T) : Action A T → Prop
  | .thread (.push p) =>
      match s.scheduler.producers p with
      | .locked _ (.resume _) => (s.scheduler.queue.queues .eResumingJob).size < fpJobQueueSize
      | _ => True
  | _ => True

/-- The push of `complete` on this awaiter has been made. -/
def Completed (s : AsyncRuntime A T) (awaiter : A) : Prop :=
  .resume awaiter ∈ s.scheduler.log.accepted ∨ .resume awaiter ∈ s.scheduler.log.rejected

/-- The resume job is in one slot, or with one worker, or was run once and resumed a handle once. -/
def Kept (s : AsyncRuntime A T) (awaiter : A) : Prop :=
  s.scheduler.Queued (.resume awaiter) ∨ s.scheduler.Held (.resume awaiter) ∨
    (s.scheduler.Executed (.resume awaiter) ∧ (s.resumed.map Prod.fst).count awaiter = 1)

/-! ## What one step does to the scheduler -/

/-- The action of the scheduler behind an action of the runtime. -/
def toScheduler : Action A T → Option (Scheduler.Action (Work A))
  | .suspend _ _ => none
  | .complete p awaiter _ => some (.offer p .eResumingJob (.resume awaiter))
  | .request p n => some (.offer p .eMedium (.request n))
  | .thread action => some action

theorem step_scheduler {s t : AsyncRuntime A T} {a : Action A T} (h : s.step a = some t) :
    match toScheduler a with
    | none => t.scheduler = s.scheduler ∧ t.resumed = s.resumed
    | some action => s.scheduler.step action = some t.scheduler ∧
        t.resumed = s.resumes action ++ s.resumed := by
  cases a with
  | suspend awaiter handle =>
      simp only [step] at h
      split at h
      · cases h
        exact ⟨rfl, rfl⟩
      · cases h
  | complete p awaiter value =>
      simp only [step] at h
      split at h
      · cases h
      · obtain ⟨scheduler, hs, rfl⟩ := Option.map_eq_some_iff.mp h
        exact ⟨hs, rfl⟩
  | request p n =>
      obtain ⟨scheduler, hs, rfl⟩ := Option.map_eq_some_iff.mp h
      exact ⟨hs, rfl⟩
  | thread action =>
      cases action with
      | offer p priority job => cases h
      | stop =>
          cases h
          exact ⟨rfl, rfl⟩
      | _ =>
          obtain ⟨scheduler, hs, rfl⟩ := Option.map_eq_some_iff.mp h
          exact ⟨hs, rfl⟩

/-- The scheduler is valid, resume jobs go to the ring for them, and the resumptions are the resume
jobs that were executed. -/
structure Valid (s : AsyncRuntime A T) : Prop where
  scheduler : s.scheduler.Valid
  priority : ∀ p priority awaiter, s.scheduler.producers p = .locked priority (.resume awaiter) →
    priority = .eResumingJob
  resumed : s.resumed.map Prod.fst = s.scheduler.log.executed.filterMap Work.awaiter

omit [DecidableEq A] in
theorem valid_init [Inhabited T] : Valid (init : AsyncRuntime A T) where
  scheduler := Scheduler.valid_init
  priority := nofun
  resumed := rfl

theorem valid_step {s t : AsyncRuntime A T} {a : Action A T} (h : Valid s) (hstep : s.step a = some t) :
    Valid t := by
  have hs := step_scheduler hstep
  cases ha : toScheduler a with
  | none =>
      simp only [ha] at hs
      obtain ⟨hscheduler, hresumed⟩ := hs
      refine ⟨?_, ?_, ?_⟩
      · rw [hscheduler]
        exact h.scheduler
      · rw [hscheduler]
        exact h.priority
      · rw [hresumed, hscheduler]
        exact h.resumed
  | some action =>
      simp only [ha] at hs
      obtain ⟨hscheduler, hresumed⟩ := hs
      have hcases := Scheduler.step_cases hscheduler
      refine ⟨Scheduler.valid_step h.scheduler hscheduler, fun p priority awaiter hp => ?_, ?_⟩
      · rcases hcases.locked hp with rfl | hp
        · cases a with
          | complete p' awaiter' value =>
              cases ha
              rfl
          | thread action =>
              cases ha
              cases hstep
          | _ => cases ha
        · exact h.priority p priority awaiter hp
      · rw [hresumed, List.map_append, h.resumed]
        rcases hcases.executed with ⟨w, job, rfl, hw, hexec⟩ | ⟨hne, hexec⟩
        · rw [hexec, resumes, hw]
          cases job <;> rfl
        · rw [hexec]
          cases action with
          | finish w => exact absurd rfl (hne w)
          | _ => rfl

/-! ## When a completion is lost -/

omit [DecidableEq A] in
theorem push_resume_iff {s : AsyncRuntime A T} (h : Valid s) (job : Work A) :
    (s.scheduler.queue.push .eResumingJob job).1 = .eSuccess ↔
      (s.scheduler.queue.queues .eResumingJob).size < fpJobQueueSize := by
  obtain ⟨-, lists, place, ha⟩ := h.scheduler
  exact JobQueue.push_eq_eSuccess_iff ha.queue .eResumingJob job

/-- One step loses no completion exactly when it is not a push without room. -/
theorem room_iff {s t : AsyncRuntime A T} {a : Action A T} (h : Valid s) (hstep : s.step a = some t) :
    s.Room a ↔ ∀ awaiter, .resume awaiter ∈ t.scheduler.log.rejected →
      .resume awaiter ∈ s.scheduler.log.rejected := by
  have hs := step_scheduler hstep
  cases ha : toScheduler a with
  | none =>
      simp only [ha] at hs
      rw [hs.1]
      cases a with
      | suspend awaiter handle => exact ⟨fun _ _ hmem => hmem, fun _ => trivial⟩
      | _ => cases ha
  | some action =>
      simp only [ha] at hs
      have hiff := fun awaiter => (Scheduler.step_cases hs.1).rejected_iff (.resume awaiter)
      constructor
      · intro hroom awaiter hmem
        rcases (hiff awaiter).mp hmem with hmem | ⟨p, priority, rfl, hp, hres⟩
        · exact hmem
        · obtain rfl := h.priority p priority awaiter hp
          cases a with
          | thread action =>
              cases ha
              simp only [Room, hp] at hroom
              exact absurd ((push_resume_iff h _).mpr hroom) hres
          | _ => cases ha
      · intro hkept
        unfold Room
        split
        · next p =>
            split
            · next priority awaiter hp =>
                cases ha
                obtain rfl := h.priority p priority awaiter hp
                rw [← push_resume_iff h (.resume awaiter)]
                by_contra hres
                have hmem := hkept awaiter ((hiff awaiter).mpr (.inr ⟨p, _, rfl, hp, hres⟩))
                obtain ⟨-, lists, place, ha⟩ := h.scheduler
                have hnone := (ha.pending p _ (by rw [hp]; rfl)).1
                rw [(ha.place_iff .refused _).mp hmem] at hnone
                cases hnone
            · trivial
        · trivial

theorem rejected_mono {s t : AsyncRuntime A T} {a : Action A T} (hstep : s.step a = some t) {job : Work A}
    (hjob : job ∈ s.scheduler.log.rejected) : job ∈ t.scheduler.log.rejected := by
  have hs := step_scheduler hstep
  cases ha : toScheduler a with
  | none =>
      simp only [ha] at hs
      rwa [hs.1]
  | some action =>
      simp only [ha] at hs
      exact ((Scheduler.step_cases hs.1).rejected_iff job).mpr (.inl hjob)

/-- A run loses no completion exactly when none of its steps is a push without room. -/
theorem along_room_iff [Inhabited T] {s : AsyncRuntime A T} {as : List (Action A T)}
    (hrun : run step init as = some s) :
    (∀ awaiter, .resume awaiter ∉ s.scheduler.log.rejected) ↔ Along step Room init as := by
  refine @good_iff_along _ _ step Valid
    (fun s => ∀ awaiter, .resume awaiter ∉ s.scheduler.log.rejected)
    (fun s => ∃ awaiter, .resume awaiter ∈ s.scheduler.log.rejected) Room
    (fun _ _ _ => valid_step) ?_ ?_ ?_ ?_ as init s valid_init nofun hrun
  · intro s a t hvalid hs hroom hstep awaiter hmem
    exact hs awaiter ((room_iff hvalid hstep).mp hroom awaiter hmem)
  · intro s a t hvalid hs hroom hstep
    rw [room_iff hvalid hstep] at hroom
    push Not at hroom
    obtain ⟨awaiter, hmem, -⟩ := hroom
    exact ⟨awaiter, hmem⟩
  · rintro s a t ⟨awaiter, hmem⟩ hstep
    exact ⟨awaiter, rejected_mono hstep hmem⟩
  · rintro s ⟨awaiter, hmem⟩ hs
    exact hs awaiter hmem

theorem count_awaiter (jobs : List (Work A)) (awaiter : A) :
    (jobs.filterMap Work.awaiter).count awaiter = jobs.count (.resume awaiter) := by
  induction jobs with
  | nil => rfl
  | cons job jobs ih =>
      cases job <;> simp [Work.awaiter, List.filterMap_cons, List.count_cons, ih]

theorem Valid.kept {s : AsyncRuntime A T} (h : Valid s) {awaiter : A}
    (hjob : .resume awaiter ∈ s.scheduler.log.accepted) : s.Kept awaiter := by
  rcases h.scheduler.conserved hjob with hqueued | hheld | hexec
  · exact .inl hqueued
  · exact .inr (.inl hheld)
  · refine .inr (.inr ⟨hexec, ?_⟩)
    rw [h.resumed, count_awaiter, hexec.2.2]

/-- **When completions are kept.** After a run, every completed awaiter has its resume job accepted,
and it is queued, held, or has resumed its coroutine once, exactly when every resume job of the run
was pushed with fewer than `FP_JOB_QUEUE_SIZE` others in its ring. -/
theorem completed_kept_iff [Inhabited T] (as : List (Action A T)) (s : AsyncRuntime A T)
    (h : run step init as = some s) :
    (∀ awaiter, s.Completed awaiter →
        .resume awaiter ∈ s.scheduler.log.accepted ∧ s.Kept awaiter) ↔
      Along step Room init as := by
  have hvalid : Valid s := run_invariant (fun _ _ _ => valid_step) valid_init h
  rw [← along_room_iff h]
  constructor
  · intro hall awaiter hmem
    exact absurd (hall awaiter (.inr hmem)).1 (hvalid.scheduler.not_accepted hmem)
  · intro hnone awaiter hcompleted
    have haccepted := hcompleted.resolve_right (hnone awaiter)
    exact ⟨haccepted, hvalid.kept haccepted⟩

/-- Awaiter `a` is suspended by wrapper `a`, and a thread calls `complete` on it. -/
def suspendAndComplete (a : Nat) : List (Action Nat Nat) :=
  [.suspend a a, .complete 0 a a, .thread (.push 0), .thread (.release 0)]

/-- Sixteen awaiters complete, a worker takes the first resume job and runs it, and one more completes. -/
def popsBefore : List (Action Nat Nat) :=
  (List.range 16).flatMap suspendAndComplete ++
    [.thread (.enter 0), .thread (.acquire 0), .thread (.check 0), .thread (.pop 0), .thread (.begin 0),
      .thread (.finish 0)] ++ suspendAndComplete 16

theorem completed_kept_popsBefore : ∃ s, run step init popsBefore = some s ∧ s.resumed = [(0, some 0)] ∧
    ∀ awaiter ≤ 16, .resume awaiter ∈ s.scheduler.log.accepted ∧ s.Kept awaiter := by
  have hlog : (run step init popsBefore).map
      (fun s => (s.scheduler.log.accepted, s.scheduler.log.rejected, s.resumed)) =
        some ((List.range 17).reverse.map Work.resume, [], [(0, some 0)]) := by decide +kernel
  obtain ⟨s, hs, hlog⟩ := Option.map_eq_some_iff.mp hlog
  simp only [Prod.mk.injEq] at hlog
  have hroom : Along step Room init popsBefore :=
    (along_room_iff hs).mp fun awaiter hmem => by rw [hlog.2.1] at hmem; cases hmem
  refine ⟨s, hs, hlog.2.2, fun awaiter hle => (completed_kept_iff _ s hs).mpr hroom awaiter (.inl ?_)⟩
  rw [hlog.1]
  exact List.mem_map_of_mem (List.mem_reverse.mpr (List.mem_range.mpr (Nat.lt_succ_of_le hle)))

/-- Seventeen awaiters complete before a worker pops: the last resumption is dropped. -/
theorem seventeenth_completion_dropped :
    ∃ s, run step init ((List.range 17).flatMap suspendAndComplete) = some s ∧ s.Completed 16 ∧
      .resume 16 ∉ s.scheduler.log.accepted ∧ s.scheduler.Dropped (.resume 16) := by
  have hlog : (run step init ((List.range 17).flatMap suspendAndComplete)).map
      (·.scheduler.log.rejected) = some [.resume 16] := rfl
  obtain ⟨s, hs, hlog⟩ := Option.map_eq_some_iff.mp hlog
  have hvalid : Valid s := run_invariant (fun _ _ _ => valid_step) valid_init hs
  have hmem : .resume 16 ∈ s.scheduler.log.rejected := by
    rw [hlog]
    exact List.mem_singleton_self _
  exact ⟨s, hs, .inr hmem, hvalid.scheduler.not_accepted hmem, hvalid.scheduler.dropped hmem⟩

end AsyncRuntime

end Fipper

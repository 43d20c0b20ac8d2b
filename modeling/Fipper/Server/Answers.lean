import Fipper.Job.Progress
import Fipper.Server.Threads

/-!
# No connection waits for good

As long as the scheduler is not shut down, one of its workers and the threads that are under way can have the
jobs of all the connections that were handed over done, without a step of the accept loop. That is so for jobs
that return: one that sends may wait in `::send` for its client, and one that resumes a coroutine runs what the
user wrote.

* `Requested` : the requests that have a job, or are about to;
* `exists_lift` : a step of a worker or a producer is a step of the server;
* `exists_executed` : from there, all jobs can be executed;
* `all_handled` : the result.
-/

namespace Fipper

open Lib

namespace ServerThreads

/-- The step is one of a thread that is under way; the accept loop only pushes, if it has its guard. -/
def Action.ongoing (s : ServerThreads) (w : Nat) : Action → Prop
  | .push => True
  | .thread action => action.ongoing s.scheduler w
  | _ => False

/-- The request has a job, or `m_handleRequest` is about to push one for it. -/
def Requested (s : ServerThreads) (request : Str) : Prop :=
  (∃ connection, (connection, request) ∈ s.handed) ∨
    ∃ connection, s.point = .serving connection (.handling request)

variable {E V : Type} [RouteStringExtractor E V] {B R : Type}
variable {endpoints : List (Entry E (Callback V B R))} {comesBack : Bool}
variable {s t : ServerThreads} {a : Action}

/-- The behaviour of `m_handleRequest` is defined for every request at hand. -/
def Defined (endpoints : List (Entry E (Callback V B R))) (comesBack : Bool) (s : ServerThreads) : Prop :=
  ∀ request, s.Requested request → ∃ result, Server.handleRequest endpoints comesBack request = .ok result

/-- The push of `m_handleRequest` asks for nothing new. -/
theorem requested_push {connection : Nat} {request : Str} {scheduler : Scheduler (Work Nat)}
    (hpoint : s.point = .serving connection (.handling request)) {request' : Str}
    (h : Requested { s.setLoop (s.loop.handle connection request) with scheduler := scheduler } request') :
    s.Requested request' := by
  unfold Requested setLoop at h
  rw [Running.handle_eq] at h
  dsimp only at h
  split_ifs at h
  · rcases h with ⟨connection', hmem⟩ | ⟨connection', hserving⟩
    · rcases List.mem_cons.mp hmem with heq | hmem
      · obtain ⟨-, rfl⟩ := Prod.mk.inj heq
        exact .inr ⟨connection, hpoint⟩
      · exact .inl ⟨connection', hmem⟩
    · cases hserving
  · rcases h with hmem | ⟨connection', hserving⟩
    · exact .inl hmem
    · cases hserving

/-- A job that ends leaves the answer to a request. -/
theorem exists_ends (h : Inv endpoints comesBack s) (hdefined : s.Defined endpoints comesBack)
    (b : Scheduler.Action (Work Nat)) : ∃ handled, s.ends endpoints comesBack b = .ok handled := by
  unfold ends
  split
  · next w =>
      split
      · next connection hw =>
          have hjob : (s.scheduler.workers w).job = some (.request connection) := by rw [hw]; rfl
          have hmem := (h.mem_handed_iff connection).mpr (h.valid.accepted_of_job h.pushed hjob)
          obtain ⟨result, hresult⟩ := hdefined _ (.inl ⟨connection, request_mem hmem⟩)
          exact ⟨_, by rw [hresult]; rfl⟩
      · exact ⟨_, rfl⟩
  · exact ⟨_, rfl⟩

/-- A step of a worker or of a producer, other than the construction of a guard, is one of the server. -/
theorem exists_lift (h : Inv endpoints comesBack s) (hdefined : s.Defined endpoints comesBack)
    {b : Scheduler.Action (Work Nat)} {scheduler : Scheduler (Work Nat)}
    (hstep : s.scheduler.step b = some scheduler) {w : Nat} (hongoing : b.ongoing s.scheduler w) :
    ∃ a t, step endpoints comesBack s a = some t ∧ a.ongoing s w ∧ t.scheduler = scheduler ∧
      t.Defined endpoints comesBack := by
  cases hother : b.elsewhere with
  | true =>
      obtain ⟨handled, hends⟩ := exists_ends h hdefined b
      refine ⟨.thread b, { s with scheduler := scheduler, handled := handled ++ s.handled }, ?_, hongoing, rfl,
        hdefined⟩
      simp only [step, hother, hends, hstep, if_true, Option.map_some]
  | false =>
      cases b with
      | offer p priority job => exact absurd rfl (hongoing.1 p priority job)
      | push p =>
          obtain rfl : p = 0 := by simpa [Scheduler.Action.elsewhere] using hother
          obtain ⟨priority, job, hp⟩ : ∃ priority job, s.scheduler.producers 0 = .locked priority job := by
            cases Scheduler.step_cases hstep with
            | push hp => exact ⟨_, _, hp⟩
          obtain ⟨-, connection, request, hpoint, -⟩ := h.locked priority job hp
          refine ⟨.push, { s.setLoop (s.loop.handle connection request) with scheduler := scheduler }, ?_, trivial,
            rfl, fun request' hrequest => hdefined request' (requested_push hpoint hrequest)⟩
          simp only [step, hpoint, hstep, Option.map_some]
      | _ => cases hother

theorem scheduler_step (hstep : step endpoints comesBack s a = some t) :
    t.scheduler = s.scheduler ∨ ∃ b, s.scheduler.step b = some t.scheduler := by
  cases step_cases hstep with
  | own hown hfree hloop => exact .inl rfl
  | signal => exact .inl rfl
  | guard hpoint hscheduler => exact .inr ⟨_, hscheduler⟩
  | push hpoint hscheduler => exact .inr ⟨_, hscheduler⟩
  | offer hp hscheduler => exact .inr ⟨_, hscheduler⟩
  | thread hother hends hscheduler => exact .inr ⟨_, hscheduler⟩

theorem ready_run {as : List Action} (h : run (step endpoints comesBack) start as = some s)
    (hrunning : s.scheduler.running = true) : s.scheduler.Ready := by
  have hstep : ∀ (s : ServerThreads) a t, (s.scheduler.running = true → s.scheduler.Ready) →
      step endpoints comesBack s a = some t → t.scheduler.running = true → t.scheduler.Ready := by
    intro s a t hs hstep ht
    rcases scheduler_step hstep with heq | ⟨b, hb⟩
    · rw [heq] at ht ⊢
      exact hs ht
    · exact Scheduler.ready_step hs hb ht
  have hready : s.scheduler.running = true → s.scheduler.Ready :=
    run_invariant hstep (fun _ => Scheduler.ready_init) h
  exact hready hrunning

/-- Worker `w` and the threads that are under way can have all jobs that were accepted executed, if these
return. -/
theorem exists_executed (hinv : Inv endpoints comesBack s) (hready : s.scheduler.Ready)
    (hdefined : s.Defined endpoints comesBack) (w : Nat) :
    ∃ more t, run (step endpoints comesBack) s more = some t ∧
      Along (step endpoints comesBack) (fun s a => a.ongoing s w) s more ∧
      more.length ≤ 64 * s.scheduler.log.offered.length + 14 ∧
      ∀ job ∈ s.scheduler.log.accepted, job ∈ t.scheduler.log.executed := by
  have hstep : ∀ u : ServerThreads,
      (Inv endpoints comesBack u ∧ u.scheduler.Ready ∧ u.Defined endpoints comesBack ∧
          u.scheduler.log.offered = s.scheduler.log.offered ∧
          s.scheduler.log.accepted ⊆ u.scheduler.log.accepted) →
        (¬ ∀ job ∈ u.scheduler.log.offered, u.scheduler.Finished job) →
          ∃ a v, step endpoints comesBack u a = some v ∧ a.ongoing u w ∧
            (Inv endpoints comesBack v ∧ v.scheduler.Ready ∧ v.Defined endpoints comesBack ∧
              v.scheduler.log.offered = s.scheduler.log.offered ∧
              s.scheduler.log.accepted ⊆ v.scheduler.log.accepted) ∧
            v.scheduler.outstanding w < u.scheduler.outstanding w := by
    rintro u ⟨hinv, hready, hdefined, hoffered, haccepted⟩ hnot
    obtain ⟨b, scheduler, hb, hongoing, hlt⟩ := hready.closer w hnot
    obtain ⟨a, v, ha, hongoing', rfl, hdefined'⟩ := exists_lift hinv hdefined hb hongoing
    have hcases := Scheduler.step_cases hb
    exact ⟨a, v, ha, hongoing', ⟨inv_step hinv ha, hready.step hb hongoing.2.1, hdefined',
      (hcases.offered_eq hongoing.1).trans hoffered, List.Subset.trans haccepted hcases.log_mono.1⟩, hlt⟩
  obtain ⟨more, t, hmore, halong, ⟨-, hready', -, -, haccepted⟩, hgood, hlength⟩ :=
    exists_run hstep ⟨hinv, hready, hdefined, rfl, List.Subset.refl _⟩
  refine ⟨more, t, hmore, halong, ?_, fun job hmem => hready'.executed_of_finished hgood (haccepted hmem)⟩
  have hle := s.scheduler.outstanding_le w
  omega

/-- What was handed over stays so. -/
theorem handed_step (hstep : step endpoints comesBack s a = some t) : s.handed ⊆ t.handed := by
  cases step_cases hstep with
  | @own action loop hown hfree hloop =>
      show s.handed ⊆ loop.handed
      rw [(own_frame hown hloop).2.1]
      exact List.Subset.refl _
  | @push connection request scheduler hpoint hscheduler =>
      show s.handed ⊆ (s.loop.handle connection request).handed
      rw [Running.handle_eq]
      dsimp only [loop]
      split_ifs
      · exact List.subset_cons_self _ _
      · exact List.Subset.refl _
  | signal => exact List.Subset.refl _
  | guard hpoint hscheduler => exact List.Subset.refl _
  | offer hp hscheduler => exact List.Subset.refl _
  | thread hother hends hscheduler => exact List.Subset.refl _

/-- A connection is handed over with one request. -/
theorem handed_unique {as : List Action} (h : run (step endpoints comesBack) start as = some s)
    {connection : Nat} {request request' : Str} (hmem : (connection, request) ∈ s.handed)
    (hmem' : (connection, request') ∈ s.handed) : request = request' := by
  obtain ⟨custody, hledger⟩ := exists_ledger h
  have hnodup : (s.handed.map Prod.fst).Nodup := hledger.sorted.imp Nat.ne_of_gt
  exact congrArg Prod.snd (List.inj_on_of_nodup_map hnodup hmem hmem' rfl)

/-- **No connection waits for good.** While `s_running` is set, whatever the threads have done so far, if the
behaviour of `m_handleRequest` is defined for the requests at hand and its jobs return: worker `w` and the threads
that are under way can have every connection that was handed over handled, in at most 64 steps for each job there
has been. Its client is then sent what `m_handleRequest` gives to its request, or the coroutine of its endpoint has
been begun. -/
theorem all_handled (endpoints : List (Entry E (Callback V B R))) (comesBack : Bool) (as : List Action)
    (s : ServerThreads) (h : run (step endpoints comesBack) start as = some s)
    (hrunning : s.scheduler.running = true) (hdefined : s.Defined endpoints comesBack) (w : Nat) :
    ∃ more t, run (step endpoints comesBack) s more = some t ∧
      Along (step endpoints comesBack) (fun s a => a.ongoing s w) s more ∧
      more.length ≤ 64 * s.scheduler.log.offered.length + 14 ∧
      ∀ connection request, (connection, request) ∈ s.handed → ∃ handled, (connection, handled) ∈ t.handled ∧
        (Server.handleRequest endpoints comesBack request).map Prod.snd = .ok handled := by
  have hinv : Inv endpoints comesBack s := inv_run h
  obtain ⟨more, t, hmore, halong, hlength, hexecuted⟩ := exists_executed hinv (ready_run h hrunning) hdefined w
  refine ⟨more, t, hmore, halong, hlength, fun connection request hmem => ?_⟩
  have ht : run (step endpoints comesBack) start (as ++ more) = some t := (run_append h more).trans hmore
  have hinv' : Inv endpoints comesBack t := inv_run ht
  have haccepted := (hinv.mem_handed_iff connection).mp (List.mem_map_of_mem hmem)
  obtain ⟨⟨_, handled⟩, hhandled, rfl⟩ :=
    List.mem_map.mp ((hinv'.mem_handled_iff connection).mpr (hexecuted _ haccepted))
  refine ⟨handled, hhandled, ?_⟩
  -- the request that was answered is the one it was handed over with
  obtain ⟨request', hmem', hanswer⟩ := hinv'.answers _ _ hhandled
  have hsubset : s.handed ⊆ t.handed :=
    run_invariant (fun _ _ _ hs hstep => List.Subset.trans hs (handed_step hstep)) (List.Subset.refl _) hmore
  rw [handed_unique ht (hsubset hmem) hmem']
  exact hanswer

/-- The one worker sleeps when the requests come in, and the jobs of two have just been pushed. -/
def handingOver : List Action :=
  [.thread (.enter 0), .thread (.acquire 0), .thread (.check 0), .own (.listen true), .own .check,
    .own (.accept Running.dataThere true), .own (.call (.poll Running.dataThere)),
    .own (.call (.poll Running.dataThere)), .own (.call (.recv (some getRoot))),
    .own (.call (.poll Running.nothingThere)), .guard, .push, .thread (.release 0), .own .check,
    .own (.accept Running.dataThere true), .own (.call (.poll Running.dataThere)),
    .own (.call (.poll Running.dataThere)), .own (.call (.recv (some "GET /later HTTP/1.1".toList))),
    .own (.call (.poll Running.nothingThere)), .guard, .push]

/-- The first gets its message, the second a coroutine. -/
theorem all_handled_handingOver : ∃ s, run (step (build [root, later]) true) start handingOver = some s ∧
    s.handled = [] ∧ s.scheduler.workers 0 = .sleeping ∧ ∃ more t,
      run (step (build [root, later]) true) s more = some t ∧ more.length ≤ 142 ∧
        t.At .answered 0 ∧ t.At .driving 1 := by
  have hview : (run (step (build [root, later]) true) start handingOver).map
      (fun s => (s.handed, s.point, s.scheduler.running, s.scheduler.log.offered)) =
        some ([(1, "GET /later HTTP/1.1".toList), (0, getRoot)], .top, true, [.request 1, .request 0]) := rfl
  obtain ⟨s, hrun, hview⟩ := Option.map_eq_some_iff.mp hview
  simp only [Prod.mk.injEq] at hview
  obtain ⟨hhanded, hpoint, hrunning, hoffered⟩ := hview
  have hdefined : s.Defined (build [root, later]) true := by
    rintro request (⟨connection, hmem⟩ | ⟨connection, hserving⟩)
    · rw [hhanded] at hmem
      rcases List.mem_pair.mp hmem with heq | heq
      · obtain ⟨-, rfl⟩ := Prod.mk.inj heq
        exact ⟨_, rfl⟩
      · obtain ⟨-, rfl⟩ := Prod.mk.inj heq
        exact ⟨_, rfl⟩
    · rw [hpoint] at hserving
      cases hserving
  obtain ⟨more, t, hmore, -, hlength, hhandled⟩ :=
    all_handled (build [root, later]) true handingOver s hrun hrunning hdefined 0
  rw [hoffered] at hlength
  rw [hhanded] at hhandled
  obtain ⟨handled, hmem, hanswer⟩ := hhandled 0 getRoot (List.mem_cons_of_mem _ List.mem_cons_self)
  obtain ⟨handled', hmem', hanswer'⟩ := hhandled 1 _ List.mem_cons_self
  have hmessage : handled = .sent (responseDataWithBody .e200 .ePlain "Hello".toList) := (Except.ok.inj hanswer).symm
  have hcoroutine : handled' = .driving := (Except.ok.inj hanswer').symm
  subst hcoroutine
  refine ⟨s, hrun, ?_, ?_, more, t, hmore, hlength, ⟨_, hmessage ▸ hmem⟩, hmem'⟩
  · cases hrun
    rfl
  · cases hrun
    rfl

end ServerThreads

end Fipper

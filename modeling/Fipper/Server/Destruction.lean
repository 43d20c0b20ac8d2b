import Fipper.Server.Answers
import Fipper.Server.Interrupt

/-!
# The end of a server

`~Server` ends the members in the reverse order of their declaration: `m_serverSocket`, `m_endpoints`, and only then
`m_jobScheduler`, whose destructor stops the workers and joins them. In between the workers go on, with the jobs of
the connections that were handed over before `run` returned.

* `Server.looksUp` : the requests whose jobs look into `m_endpoints`;
* `ServerLife` : the threads of a server, and how far its destructor has come;
* `Since` : what holds from the end of `m_endpoints` on;
* `dangling_iff` : the connections whose jobs look into `m_endpoints` and can end after it.
-/

namespace Fipper

open Lib

/-- The job knows the method, and looks for the route in `m_endpoints`. -/
def Server.looksUp (request : Str) : Bool :=
  match token request 0, token request 1 with
  | .ok methodString, .ok _ => (methodMap methodString).isSome
  | _, _ => false

/-! ## When `run` has returned -/

namespace ServerThreads

/-- The connection whose job ends in this step, if the job has looked into `m_endpoints`. The whole job counts
as of its end, its look too. -/
def lookedUp (s : ServerThreads) : Action → List Nat
  | .thread (.finish w) =>
      match s.scheduler.workers w with
      | .working (.request connection) => if Server.looksUp (s.request connection) then [connection] else []
      | _ => []
  | _ => []

/-- A destructor writes `s_running`. -/
def Action.stops : Action → Bool
  | .thread .stop => true
  | _ => false

variable {E V : Type} [RouteStringExtractor E V] {B R : Type}
variable {endpoints : List (Entry E (Callback V B R))} {comesBack : Bool}
variable {s t : ServerThreads} {a : Action} {connection : Nat}

theorem mem_lookedUp_iff : connection ∈ s.lookedUp a ↔ ∃ w, a = .thread (.finish w) ∧
    s.scheduler.workers w = .working (.request connection) ∧ Server.looksUp (s.request connection) = true := by
  constructor
  · intro h
    unfold lookedUp at h
    split at h
    · next w =>
        split at h
        · next connection' hw =>
            split_ifs at h with hlooks
            · rw [List.mem_singleton] at h
              subst h
              exact ⟨w, rfl, hw, hlooks⟩
            · cases h
        · cases h
    · cases h
  · rintro ⟨w, rfl, hw, hlooks⟩
    simp [lookedUp, hw, hlooks]

/-- After `run` has returned there are no new connections. -/
theorem Step.returned (hs : s.hasReturned = true) (h : Step endpoints comesBack s a t) :
    t.hasReturned = true ∧ t.handed = s.handed ∧ a ≠ .guard ∧ a ≠ .thread (.release 0) := by
  obtain ⟨⟨result, errors, hpoint⟩, hproducer⟩ := hasReturned_iff.mp hs
  have hlater {u : ServerThreads} (hu : u.point = s.point) (hp : u.scheduler.producers 0 = .outside) :
      u.hasReturned = true := hasReturned_iff.mpr ⟨⟨result, errors, hu.trans hpoint⟩, hp⟩
  cases h with
  | @own action loop hown hfree hloop =>
      have hreturned : s.loop.point = .returned result errors := hpoint
      cases Running.step_cases hloop with
      | own _ point free stays => exact absurd hreturned (stays _ _)
      | accepted poll accepted free => rw [hreturned] at free; cases free
      | called connection point call result serving next => rw [hreturned] at serving; cases serving
      | handled connection request serving => rw [hreturned] at serving; cases serving
      | other => exact ⟨hlater rfl hproducer, rfl, by simp, by simp⟩
  | signal => exact ⟨hlater rfl hproducer, rfl, by simp, by simp⟩
  | guard hserving hscheduler => rw [hpoint] at hserving; cases hserving
  | push hserving hscheduler => rw [hpoint] at hserving; cases hserving
  | @offer p priority awaiter scheduler hne hscheduler =>
      refine ⟨hlater rfl ?_, rfl, by simp, by simp⟩
      cases Scheduler.step_cases hscheduler with
      | offer hp hm hnew => exact (Function.update_of_ne hne.symm _ _).trans hproducer
  | @thread action scheduler handled hother hends hscheduler =>
      rcases elsewhere_cases hscheduler hother with ⟨rfl, hpushed, -⟩ | ⟨hne, hsame⟩
      · rw [hproducer] at hpushed
        cases hpushed
      · refine ⟨hlater rfl (hsame.trans hproducer), rfl, by simp, fun heq => ?_⟩
        exact hne 0 (Action.thread.inj heq) rfl

/-- The jobs that are left wait, or a worker has them. -/
theorem Inv.hasJob_returned (hs : Inv endpoints comesBack s) (hsettled : s.Settled)
    (hledger : ∃ custody, Running.Ledger s.loop custody) (hreturned : s.hasReturned = true) (connection : Nat) :
    s.HasJob connection ↔ s.At .waiting connection ∨ s.At .held connection := by
  obtain ⟨⟨result, errors, hpoint⟩, hproducer⟩ := hasReturned_iff.mp hreturned
  rw [hs.hasJob_iff_at hsettled hledger]
  constructor
  · rintro (⟨⟨point, hserving⟩, -⟩ | hwaiting | hheld | ⟨⟨hpushed, -⟩, -⟩)
    · have hserving : s.point = .serving connection point := hserving
      rw [hpoint] at hserving
      cases hserving
    · exact .inl hwaiting
    · exact .inr hheld
    · rw [hproducer] at hpushed
      cases hpushed
  · rintro (hwaiting | hheld)
    · exact .inr (.inl hwaiting)
    · exact .inr (.inr (.inl hheld))

theorem stops_of_ongoing (s : ServerThreads) (a : Action) (h : a.ongoing s 0) : a.stops = false := by
  cases a with
  | thread action =>
      cases action with
      | stop => exact absurd rfl h.2.1
      | _ => rfl
  | _ => rfl

theorem Step.ready (h : Step endpoints comesBack s a t) (hready : s.scheduler.Ready) (hstop : a.stops = false) :
    t.scheduler.Ready := by
  cases h with
  | own => exact hready
  | signal => exact hready
  | guard hpoint hscheduler => exact hready.step hscheduler (by simp)
  | push hpoint hscheduler => exact hready.step hscheduler (by simp)
  | offer hne hscheduler => exact hready.step hscheduler (by simp)
  | thread hother hends hscheduler =>
      refine hready.step hscheduler ?_
      rintro rfl
      cases hstop

end ServerThreads

/-! ## `~Server` -/

/-- How far `~Server` has come. -/
inductive Destruction
  | alive
  /-- `m_serverSocket` and `m_endpoints` have ended. -/
  | endpointsEnded
  /-- `~JobScheduler` has written `s_running`, and joins the threads. -/
  | joining
  deriving DecidableEq, Repr

/-- The threads of a server, its destructor, and the connections whose jobs have ended after `m_endpoints` has,
with a look into it. A job that looked before, and was still sending, is among them. -/
structure ServerLife where
  threads : ServerThreads
  destruction : Destruction
  dangling : List Nat

namespace ServerLife

inductive Action
  | threads (action : ServerThreads.Action)
  /-- `~Server` goes on; it begins once `run` has returned. -/
  | destroy

def start : ServerLife := ⟨.start, .alive, []⟩

section
variable {E V : Type} [RouteStringExtractor E V] {B R : Type}
variable (endpoints : List (Entry E (Callback V B R))) (comesBack : Bool)

/-- One step. The scheduler is that of the server, and no other is destroyed; a job that has looked into
`m_endpoints` too late goes on as if it was still there. -/
def step (s : ServerLife) : Action → Option ServerLife
  | .threads action =>
      if action.stops then none
      else (s.threads.step endpoints comesBack action).map fun threads =>
        { s with
          threads := threads
          dangling := if s.destruction = .alive then s.dangling else s.threads.lookedUp action ++ s.dangling }
  | .destroy =>
      match s.destruction with
      | .alive => if s.threads.hasReturned then some { s with destruction := .endpointsEnded } else none
      | .endpointsEnded =>
          (s.threads.step endpoints comesBack (.thread .stop)).map fun threads =>
            { s with threads := threads, destruction := .joining }
      | .joining => none

end

variable {E V : Type} [RouteStringExtractor E V] {B R : Type}
variable {endpoints : List (Entry E (Callback V B R))} {comesBack : Bool}
variable {s t u : ServerLife} {a : Action} {connection : Nat}

structure Inv (endpoints : List (Entry E (Callback V B R))) (comesBack : Bool) (s : ServerLife) : Prop where
  threads : ServerThreads.Inv endpoints comesBack s.threads
  ledger : ∃ custody, Running.Ledger s.threads.loop custody
  settled : s.threads.Settled
  ready : s.destruction ≠ .joining → s.threads.scheduler.Ready
  returned : s.destruction ≠ .alive → s.threads.hasReturned = true

/-- What one step can do: a step of the threads, or one of the destructor. -/
theorem step_cases (h : step endpoints comesBack s a = some t) :
    (∃ action, a = .threads action ∧ action.stops = false ∧
        ServerThreads.step endpoints comesBack s.threads action = some t.threads ∧
        t.destruction = s.destruction ∧
        t.dangling = if s.destruction = .alive then s.dangling else s.threads.lookedUp action ++ s.dangling) ∨
      (a = .destroy ∧ s.destruction = .alive ∧ s.threads.hasReturned = true ∧
        t = { s with destruction := .endpointsEnded }) ∨
      (a = .destroy ∧ s.destruction = .endpointsEnded ∧
        ServerThreads.step endpoints comesBack s.threads (.thread .stop) = some t.threads ∧
        t.destruction = .joining ∧ t.dangling = s.dangling) := by
  cases a with
  | threads action =>
      obtain ⟨hstop, h⟩ := Option.ite_none_left_eq_some.mp h
      obtain ⟨threads, hstep, rfl⟩ := Option.map_eq_some_iff.mp h
      exact .inl ⟨action, rfl, Bool.eq_false_of_not_eq_true hstop, hstep, rfl, rfl⟩
  | destroy =>
      simp only [step] at h
      split at h
      · next halive =>
          obtain ⟨hreturned, h⟩ := Option.ite_none_right_eq_some.mp h
          exact .inr (.inl ⟨rfl, halive, hreturned, (Option.some.inj h).symm⟩)
      · next hended =>
          obtain ⟨threads, hstep, rfl⟩ := Option.map_eq_some_iff.mp h
          exact .inr (.inr ⟨rfl, hended, hstep, rfl, rfl⟩)
      · cases h

/-- What a step of the threads keeps. -/
theorem Inv.threads_step (h : Inv endpoints comesBack s) {action : ServerThreads.Action} {threads : ServerThreads}
    (hstep : s.threads.step endpoints comesBack action = some threads) :
    ServerThreads.Inv endpoints comesBack threads ∧ (∃ custody, Running.Ledger threads.loop custody) ∧
      threads.Settled := by
  have hledger := ServerThreads.ledger_run h.ledger (ServerThreads.loop_step h.threads hstep)
  exact ⟨ServerThreads.inv_step h.threads hstep, hledger,
    ServerThreads.settled_step h.threads h.settled hledger hstep⟩

theorem inv_step (h : Inv endpoints comesBack s) (hstep : step endpoints comesBack s a = some t) :
    Inv endpoints comesBack t := by
  rcases step_cases hstep with ⟨action, -, hstop, hthreads, hdestruction, -⟩ | ⟨-, halive, hreturned, rfl⟩ |
    ⟨-, hended, hthreads, hdestruction, -⟩
  · obtain ⟨hinv, hledger, hsettled⟩ := h.threads_step hthreads
    have hcases := ServerThreads.step_cases hthreads
    refine ⟨hinv, hledger, hsettled, fun hnot => ?_, fun hnot => ?_⟩
    · exact hcases.ready (h.ready (hdestruction ▸ hnot)) hstop
    · exact (hcases.returned (h.returned (hdestruction ▸ hnot))).1
  · refine ⟨h.threads, h.ledger, h.settled, fun _ => h.ready ?_, fun _ => hreturned⟩
    rw [halive]
    decide
  · obtain ⟨hinv, hledger, hsettled⟩ := h.threads_step hthreads
    refine ⟨hinv, hledger, hsettled, fun hnot => absurd hdestruction hnot, fun _ => ?_⟩
    refine ((ServerThreads.step_cases hthreads).returned (h.returned ?_)).1
    rw [hended]
    decide

theorem inv_start : Inv endpoints comesBack start :=
  ⟨ServerThreads.inv_start, ⟨_, Running.ledger_start⟩, ServerThreads.settled_start, fun _ => Scheduler.ready_init,
    fun h => absurd rfl h⟩

/-! ## After `m_endpoints` has ended -/

/-- What has become of `s`, in which `m_endpoints` has ended: no job has come, those that have been executed are
among those that were left, and have looked into `m_endpoints` if they do so at all. -/
structure Since (endpoints : List (Entry E (Callback V B R))) (comesBack : Bool) (s t : ServerLife) : Prop where
  inv : Inv endpoints comesBack t
  ended : t.destruction ≠ .alive
  handed : t.threads.handed = s.threads.handed
  jobs : ∀ connection, t.threads.HasJob connection → s.threads.HasJob connection
  dangling : ∀ connection ∈ t.dangling, connection ∈ s.dangling ∨
    (s.threads.HasJob connection ∧ Server.looksUp (s.threads.request connection) = true)
  executed : ∀ connection, .request connection ∈ t.threads.scheduler.log.executed →
    .request connection ∈ s.threads.scheduler.log.executed ∨
      (Server.looksUp (s.threads.request connection) = true → connection ∈ t.dangling)

theorem since_self (h : Inv endpoints comesBack s) (hended : s.destruction ≠ .alive) :
    Since endpoints comesBack s s :=
  ⟨h, hended, rfl, fun _ => id, fun _ => .inl, fun _ => .inl⟩

theorem Since.request (h : Since endpoints comesBack s t) (connection : Nat) :
    t.threads.request connection = s.threads.request connection := by
  unfold ServerThreads.request
  rw [h.handed]

/-- A worker has the job that it ends. -/
theorem Inv.hasJob_of_working (h : Inv endpoints comesBack s) {w : Nat}
    (hw : s.threads.scheduler.workers w = .working (.request connection)) : s.threads.HasJob connection := by
  obtain ⟨hoffered, hexecuted⟩ := h.threads.valid.working hw
  refine ⟨hoffered, hexecuted, fun hrejected => ?_⟩
  exact absurd (by rw [hw]; rfl) ((h.threads.valid.dropped hrejected).2.1 w)

/-- A step of the threads. -/
theorem Since.threads (h : Since endpoints comesBack s t) {action : ServerThreads.Action}
    (hu : Inv endpoints comesBack u) (hstep : t.threads.step endpoints comesBack action = some u.threads)
    (hended : u.destruction ≠ .alive)
    (hdangling : u.dangling = t.threads.lookedUp action ++ t.dangling) : Since endpoints comesBack s u := by
  have hcases := ServerThreads.step_cases hstep
  obtain ⟨-, hhanded, hguard, -⟩ := hcases.returned (h.inv.returned h.ended)
  refine ⟨hu, hended, hhanded.trans h.handed, fun connection hjob => ?_, fun connection hmem => ?_,
    fun connection hmem => ?_⟩
  · rcases ((h.inv.threads.hasJob_iff h.inv.settled hcases connection).mp hjob).1 with hjob | ⟨rfl, -⟩
    · exact h.jobs connection hjob
    · exact absurd rfl hguard
  · rw [hdangling] at hmem
    rcases List.mem_append.mp hmem with hmem | hmem
    · obtain ⟨w, -, hw, hlooks⟩ := ServerThreads.mem_lookedUp_iff.mp hmem
      exact .inr ⟨h.jobs connection (h.inv.hasJob_of_working hw), h.request connection ▸ hlooks⟩
    · exact h.dangling connection hmem
  · rw [hdangling]
    rcases (hcases.executed_iff connection).mp hmem with hmem | ⟨w, rfl, hw⟩
    · exact (h.executed connection hmem).imp_right fun hlooked hlooks => List.mem_append_right _ (hlooked hlooks)
    · refine .inr fun hlooks => List.mem_append_left _ (ServerThreads.mem_lookedUp_iff.mpr ⟨w, rfl, hw, ?_⟩)
      rw [h.request, hlooks]

theorem since_step (h : Since endpoints comesBack s t) (hstep : step endpoints comesBack t a = some u) :
    Since endpoints comesBack s u := by
  have hu := inv_step h.inv hstep
  rcases step_cases hstep with ⟨action, -, hstop, hthreads, hdestruction, hdangling⟩ | ⟨-, halive, -⟩ |
    ⟨-, hended, hthreads, hdestruction, hdangling⟩
  · rw [if_neg h.ended] at hdangling
    exact h.threads hu hthreads (hdestruction ▸ h.ended) hdangling
  · exact absurd halive h.ended
  · exact h.threads hu hthreads (by rw [hdestruction]; decide) hdangling

/-- A run of the threads is one of the server, if no destructor writes `s_running`. -/
theorem exists_run_threads {more : List ServerThreads.Action} {threads : ServerThreads}
    (h : run (ServerThreads.step endpoints comesBack) s.threads more = some threads)
    (hstop : Along (ServerThreads.step endpoints comesBack) (fun _ a => a.stops = false) s.threads more) :
    ∃ t, run (step endpoints comesBack) s (more.map .threads) = some t ∧ t.threads = threads := by
  induction more generalizing s with
  | nil => exact ⟨s, rfl, Option.some.inj h⟩
  | cons action more ih =>
      obtain ⟨next, hnext, h⟩ := run_cons_eq_some.mp h
      obtain ⟨hnot, hstop⟩ := hstop
      obtain ⟨s', hs', rfl⟩ : ∃ s',
          step endpoints comesBack s (.threads action) = some s' ∧ s'.threads = next := by
        simp only [step, hnot, hnext]
        exact ⟨_, rfl, rfl⟩
      obtain ⟨t, ht, hthreads⟩ := ih h (hstop _ hnext)
      exact ⟨t, run_cons_eq_some.mpr ⟨s', hs', ht⟩, hthreads⟩

/-- **Which jobs look into `m_endpoints` after its end.** When it ends, whatever the threads have done before, and if
the behaviour of `m_handleRequest` is defined for the requests at hand: a job that looks into it can be executed too
late exactly if its connection waits or a worker has it, and its request names a method. The destructor is safe where
there is no such connection. -/
theorem dangling_iff (endpoints : List (Entry E (Callback V B R))) (comesBack : Bool) (as : List Action)
    (s : ServerLife) (h : run (step endpoints comesBack) start as = some s)
    (hended : s.destruction = .endpointsEnded) (hdefined : s.threads.Defined endpoints comesBack)
    (connection : Nat) :
    (∃ more t, run (step endpoints comesBack) s more = some t ∧ connection ∈ t.dangling) ↔
      connection ∈ s.dangling ∨ ((s.threads.At .waiting connection ∨ s.threads.At .held connection) ∧
        Server.looksUp (s.threads.request connection) = true) := by
  have hinv : Inv endpoints comesBack s := run_invariant (fun _ _ _ => inv_step) inv_start h
  have hnot : s.destruction ≠ .alive := by simp [hended]
  have hjob := hinv.threads.hasJob_returned hinv.settled hinv.ledger (hinv.returned hnot) connection
  have hsince {more : List Action} {t : ServerLife} (hmore : run (step endpoints comesBack) s more = some t) :
      Since endpoints comesBack s t := run_invariant (fun _ _ _ => since_step) (since_self hinv hnot) hmore
  constructor
  · rintro ⟨more, t, hmore, hmem⟩
    rw [← hjob]
    exact (hsince hmore).dangling connection hmem
  · rintro (hmem | ⟨hat, hlooks⟩)
    · exact ⟨[], s, rfl, hmem⟩
    · have hready := hinv.ready (by simp [hended])
      have haccepted : .request connection ∈ s.threads.scheduler.log.accepted := by
        rcases hat with hwaiting | ⟨-, ⟨w, hw, -⟩, -⟩
        · exact hinv.threads.valid.accepted_of_queued hinv.threads.pushed hwaiting
        · exact hinv.threads.valid.accepted_of_job hinv.threads.pushed hw
      obtain ⟨more, threads, hmore, halong, -, hexecuted⟩ :=
        ServerThreads.exists_executed hinv.threads hready hdefined 0
      obtain ⟨t, ht, rfl⟩ := exists_run_threads hmore (Along.imp ServerThreads.stops_of_ongoing halong)
      refine ⟨_, t, ht, ?_⟩
      rcases (hsince ht).executed connection (hexecuted _ haccepted) with hbefore | hlooked
      · exact absurd hbefore (hjob.mpr hat).2.1
      · exact hlooked hlooks

/-- SIGINT comes while two jobs wait, and `run` returns. -/
def interrupted : List Action :=
  (ServerThreads.handingOver ++
    [ServerThreads.Action.thread (.release 0), .signal, .own .check]).map .threads ++ [.destroy]

theorem dangling_iff_interrupted : ∃ s,
    run (step (build [root]) true) start interrupted = some s ∧ s.dangling = [] ∧
      ∃ more t, run (step (build [root]) true) s more = some t ∧ 0 ∈ t.dangling := by
  have hview : (run (step (build [root]) true) start interrupted).map
      (fun s => (s.destruction, s.dangling, s.threads.handed, s.threads.point, s.threads.scheduler.log)) =
        some (.endpointsEnded, [], [(1, "GET /later HTTP/1.1".toList), (0, ServerThreads.getRoot)],
          .returned .eSuccess [], ⟨[.request 1, .request 0], [.request 1, .request 0], [], []⟩) := rfl
  obtain ⟨s, hrun, hview⟩ := Option.map_eq_some_iff.mp hview
  simp only [Prod.mk.injEq] at hview
  obtain ⟨hended, hdangling, hhanded, hpoint, hlog⟩ := hview
  have hdefined : s.threads.Defined (build [root]) true := by
    rintro request (⟨connection, hmem⟩ | ⟨connection, hserving⟩)
    · rw [hhanded] at hmem
      rcases List.mem_pair.mp hmem with heq | heq
      · obtain ⟨-, rfl⟩ := Prod.mk.inj heq
        exact ⟨_, rfl⟩
      · obtain ⟨-, rfl⟩ := Prod.mk.inj heq
        exact ⟨_, rfl⟩
    · rw [hpoint] at hserving
      cases hserving
  have hinv : Inv (build [root]) true s := run_invariant (fun _ _ _ => inv_step) inv_start hrun
  have hjob : s.threads.HasJob 0 := by simp [ServerThreads.HasJob, hlog]
  rw [hinv.threads.hasJob_returned hinv.settled hinv.ledger (hinv.returned (by simp [hended]))] at hjob
  have hlooks : Server.looksUp (s.threads.request 0) = true := by
    rw [ServerThreads.request, hhanded]
    decide
  exact ⟨s, hrun, hdangling, (dangling_iff (build [root]) true interrupted s hrun hended hdefined 0).mpr
    (.inr ⟨hjob, hlooks⟩)⟩

end ServerLife

end Fipper

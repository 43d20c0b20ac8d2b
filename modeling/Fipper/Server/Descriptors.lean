import Fipper.Server.Holding
import Fipper.Server.Handover

/-!
# The descriptors of a server's connections

`ServerThreads` with the `Socket` objects of `Sockets`: a connection's socket goes from `accept` to `run`, into the
job, and into the coroutine of its endpoint, each of them in a thread of its own, and the last object to have it
closes it.

* `onSockets` : what a step of the threads does to the objects of its connection;
* `Carries` : what each object of a connection holds, if it lives;
* `InUse` : the connections that the server still needs;
* `descriptors_kept` : the open descriptors are theirs, in any interleaving.
-/

namespace Fipper

open Lib

/-! ## The threads and the sockets of a server -/

/-- The object that has the socket of a connection: the variable of `Socket::accept`, `clientSocketWithError` of
`run`, what the job has captured, or `clientConnection` of `Endpoint<Func>::handleRequest`. -/
inductive Carrier
  | socket
  | client
  | job
  | handler
  deriving DecidableEq, Repr

/-- The numbers of the objects; 0 is the server's. -/
def Carrier.object (connection : Nat) : Carrier → Nat
  | .socket => 4 * connection + 1
  | .client => 4 * connection + 2
  | .job => 4 * connection + 3
  | .handler => 4 * connection + 4

theorem Carrier.object_inj {k k' : Carrier} {c c' : Nat} : k.object c = k'.object c' ↔ k = k' ∧ c = c' := by
  constructor
  · intro h
    cases k <;> cases k' <;> simp only [object] at h <;> first | exact ⟨rfl, by omega⟩ | omega
  · rintro ⟨rfl, rfl⟩
    rfl

theorem Carrier.eq_zero_or_object (i : Nat) :
    i = 0 ∨ ∃ (k : Carrier) (connection : Nat), i = k.object connection := by
  by_cases hi : i = 0
  · exact .inl hi
  · obtain ⟨q, r, hr, rfl⟩ : ∃ q r, r < 4 ∧ i = 4 * q + r + 1 :=
      ⟨(i - 1) / 4, (i - 1) % 4, Nat.mod_lt _ (by decide), by omega⟩
    obtain rfl | rfl | rfl | rfl : r = 0 ∨ r = 1 ∨ r = 2 ∨ r = 3 := by omega
    · exact .inr ⟨.socket, q, rfl⟩
    · exact .inr ⟨.client, q, rfl⟩
    · exact .inr ⟨.job, q, rfl⟩
    · exact .inr ⟨.handler, q, rfl⟩

theorem Carrier.object_ne_zero (k : Carrier) (c : Nat) : k.object c ≠ 0 := by
  cases k <;> exact Nat.succ_ne_zero _

/-- What is done to the objects in a step of the threads, in which `::accept` returns `fd` if it succeeds. The
job keeps what it has captured where it is while it is moved. -/
def ServerThreads.onSockets {E V : Type} [RouteStringExtractor E V] {B R : Type}
    (endpoints : List (Entry E (Callback V B R))) (comesBack : Bool) (s : ServerThreads) (fd : Int) :
    ServerThreads.Action → List Sockets.Action
  | .own (.accept poll accepted) =>
      [.accept 0 (Carrier.socket.object s.accepted) (Carrier.client.object s.accepted)
        ⟨(Socket.hasDataToRecieve poll).toOption, if accepted then some fd else none⟩]
  | .own (.call call) =>
      match s.point with
      | .serving connection point =>
          match point.next call with
          | some (.ok (some _)) => []
          -- `continue` or `return`
          | _ => [.destroy (Carrier.client.object connection)]
      | _ => []
  | .guard =>
      match s.point with
      | .serving connection _ =>
          [.moveConstruct (Carrier.job.object connection) (Carrier.client.object connection)]
      | _ => []
  | .thread (.release 0) =>
      -- `m_handleRequest` returns, and the body of the loop ends; a job that was refused is still its variable
      if .request (s.accepted - 1) ∈ s.scheduler.log.rejected then
        [.destroy (Carrier.job.object (s.accepted - 1)), .destroy (Carrier.client.object (s.accepted - 1))]
      else [.destroy (Carrier.client.object (s.accepted - 1))]
  | .thread (.finish w) =>
      match s.scheduler.workers w with
      | .working (.request connection) =>
          match Server.handleRequest endpoints comesBack (s.request connection) with
          | .ok (none, _) => [.destroy (Carrier.job.object connection)]
          | .ok (some _, .sent _) =>
              [.moveConstruct (Carrier.handler.object connection) (Carrier.job.object connection),
                .destroy (Carrier.handler.object connection), .destroy (Carrier.job.object connection)]
          | .ok (some _, .driving) =>
              [.moveConstruct (Carrier.handler.object connection) (Carrier.job.object connection),
                .destroy (Carrier.job.object connection)]
          | .error _ => []
      | _ => []
  | _ => []

/-- The threads and the sockets of a server, the descriptor each connection was accepted with, and the
coroutines that were left suspended and have ended. -/
structure ServerSockets where
  threads : ServerThreads
  sockets : Sockets
  descriptor : Nat → Int
  ended : List Nat

namespace ServerSockets

inductive Action
  /-- A step of the threads, in which `::accept` returns `fd` if it succeeds. -/
  | threads (action : ServerThreads.Action) (fd : Int)
  /-- The coroutine that serves `connection` ends, in a job that resumes it. -/
  | ended (connection : Nat)

/-- The server's socket has been created with the descriptor `fd`. -/
def start (isOpen : Int → Bool) (fd : Int) : ServerSockets :=
  ⟨.start, (((Sockets.start isOpen).construct 0 0).create 0 ⟨some fd, true, true⟩).2, fun _ => 0, []⟩

/-- The descriptors of the connections, with the one that is accepted. -/
def given (s : ServerSockets) (fd : Int) : ServerThreads.Action → Nat → Int
  | .own (.accept poll accepted) =>
      match Socket.accept poll accepted with
      | .ok () => Function.update s.descriptor s.threads.accepted fd
      | .error _ => s.descriptor
  | _ => s.descriptor

/-- The coroutine of a connection is suspended. -/
def Driven (s : ServerSockets) (connection : Nat) : Prop :=
  (connection, .driving) ∈ s.threads.handled ∧ connection ∉ s.ended

instance (s : ServerSockets) (connection : Nat) : Decidable (s.Driven connection) :=
  inferInstanceAs (Decidable (_ ∧ _))

section
variable {E V : Type} [RouteStringExtractor E V] {B R : Type}
variable (endpoints : List (Entry E (Callback V B R))) (comesBack : Bool)

def step (s : ServerSockets) : Action → Option ServerSockets
  | .threads action fd =>
      (s.threads.step endpoints comesBack action).bind fun threads =>
        (run Sockets.step s.sockets (s.threads.onSockets endpoints comesBack fd action)).map fun sockets =>
          { s with threads := threads, sockets := sockets, descriptor := s.given fd action }
  | .ended connection =>
      if s.Driven connection then
        (s.sockets.step (.destroy (Carrier.handler.object connection))).map fun sockets =>
          { s with sockets := sockets, ended := connection :: s.ended }
      else none

end

variable {E V : Type} [RouteStringExtractor E V] {B R : Type}
variable {endpoints : List (Entry E (Callback V B R))} {comesBack : Bool}
variable {s t : ServerSockets} {a : Action} {before : Int → Bool} {server : Int}

/-! ## Which object has the descriptor of a connection -/

/-- The object lives, and holds `fd`. -/
def Carries (s : ServerSockets) : Carrier → Nat → Int → Prop
  | .socket, _, _ => False
  | .client, connection, fd =>
      s.threads.HasClient connection ∧
        fd = if .request connection ∈ s.threads.scheduler.log.offered then 0 else s.descriptor connection
  | .job, connection, fd => s.threads.HasJob connection ∧ fd = s.descriptor connection
  | .handler, connection, fd => s.Driven connection ∧ fd = s.descriptor connection

structure Inv (endpoints : List (Entry E (Callback V B R))) (comesBack : Bool) (before : Int → Bool) (server : Int)
    (s : ServerSockets) : Prop where
  threads : ServerThreads.Inv endpoints comesBack s.threads
  ledger : ∃ custody, Running.Ledger s.threads.loop custody
  settled : s.threads.Settled
  ended : ∀ connection ∈ s.ended, (connection, .driving) ∈ s.threads.handled
  tidy : s.sockets.Tidy before
  own : s.sockets.held 0 = some server
  held : ∀ k connection fd, s.sockets.held (k.object connection) = some fd ↔ s.Carries k connection fd

/-- What a step of the threads leaves to be shown. -/
theorem Inv.next (h : Inv endpoints comesBack before server s) {action : ServerThreads.Action} {threads : ServerThreads}
    (hstep : s.threads.step endpoints comesBack action = some threads) {sockets : Sockets} {descriptor : Nat → Int}
    (htidy : sockets.Tidy before) (hown : sockets.held 0 = some server)
    (hheld : ∀ k connection fd, sockets.held (k.object connection) = some fd ↔
      Carries ⟨threads, sockets, descriptor, s.ended⟩ k connection fd) :
    Inv endpoints comesBack before server ⟨threads, sockets, descriptor, s.ended⟩ where
  threads := ServerThreads.inv_step h.threads hstep
  ledger := ServerThreads.ledger_run h.ledger (ServerThreads.loop_step h.threads hstep)
  settled := ServerThreads.settled_step h.threads h.settled
    (ServerThreads.ledger_run h.ledger (ServerThreads.loop_step h.threads hstep)) hstep
  ended connection hmem :=
    ((ServerThreads.step_cases hstep).handled_iff connection .driving).mpr (.inl (h.ended connection hmem))
  tidy := htidy
  own := hown
  held := hheld

theorem carries_iff (connection : Nat) (hclient : t.threads.HasClient connection ↔ s.threads.HasClient connection)
    (hoffered : .request connection ∈ t.threads.scheduler.log.offered ↔
      .request connection ∈ s.threads.scheduler.log.offered)
    (hjob : t.threads.HasJob connection ↔ s.threads.HasJob connection)
    (hdriven : t.Driven connection ↔ s.Driven connection)
    (hdescriptor : t.descriptor connection = s.descriptor connection) (k : Carrier) (fd : Int) :
    t.Carries k connection fd ↔ s.Carries k connection fd := by
  cases k with
  | socket => exact Iff.rfl
  | client => simp only [Carries, hclient, hoffered, hdescriptor]
  | job => simp only [Carries, hjob, hdescriptor]
  | handler => simp only [Carries, hdriven, hdescriptor]

theorem update_object (held : Nat → Option Int) (k k' : Carrier) (connection : Nat) (value : Option Int) :
    Function.update held (k.object connection) value (k'.object connection) =
      if k' = k then value else held (k'.object connection) := by
  simp only [Function.update_apply, Carrier.object_inj, and_true]

theorem Inv.held_eq_none (h : Inv endpoints comesBack before server s) {k : Carrier} {connection : Nat}
    (hnot : ∀ fd, ¬ s.Carries k connection fd) : s.sockets.held (k.object connection) = none :=
  Option.eq_none_iff_forall_ne_some.mpr fun fd hfd => hnot fd ((h.held k connection fd).mp hfd)

/-- A step about one connection. -/
theorem Inv.next_at (h : Inv endpoints comesBack before server s) {action : ServerThreads.Action}
    {threads : ServerThreads} (hstep : s.threads.step endpoints comesBack action = some threads) (connection : Nat)
    {sockets : Sockets} {descriptor : Nat → Int} (htidy : sockets.Tidy before)
    (hheld : ∀ k fd, sockets.held (k.object connection) = some fd ↔
      Carries ⟨threads, sockets, descriptor, s.ended⟩ k connection fd)
    (hothers : ∀ i, (∀ k : Carrier, i ≠ k.object connection) → sockets.held i = s.sockets.held i)
    (hcarries : ∀ k connection' fd, connection' ≠ connection →
      (Carries ⟨threads, sockets, descriptor, s.ended⟩ k connection' fd ↔ s.Carries k connection' fd)) :
    Inv endpoints comesBack before server ⟨threads, sockets, descriptor, s.ended⟩ := by
  refine h.next hstep htidy ?_ fun k connection' fd => ?_
  · rw [hothers 0 fun k => (k.object_ne_zero connection).symm, h.own]
  · by_cases hne : connection' = connection
    · rw [hne]
      exact hheld k fd
    · rw [hothers _ fun k' heq => hne (Carrier.object_inj.mp heq).2, hcarries k connection' fd hne, h.held]

/-! ## The steps -/

section
variable {action : ServerThreads.Action} {threads : ServerThreads}

/-- A step that is not about `connection`. -/
theorem Inv.elsewhere (h : Inv endpoints comesBack before server s)
    (hstep : s.threads.step endpoints comesBack action = some threads) (hown : ∀ own, action ≠ .own own)
    {connection : Nat} (hguard : action = .guard → ∀ point, s.threads.point ≠ .serving connection point)
    (hrelease : action = .thread (.release 0) → connection + 1 ≠ s.threads.accepted)
    (hfinish : ∀ w, action = .thread (.finish w) →
      s.threads.scheduler.workers w ≠ .working (.request connection)) (sockets : Sockets) (k : Carrier) (fd : Int) :
    Carries ⟨threads, sockets, s.descriptor, s.ended⟩ k connection fd ↔ s.Carries k connection fd := by
  have hcases := ServerThreads.step_cases hstep
  have hreturns : action = .thread (.release 0) → ¬ s.threads.HasClient connection := by
    intro hrel hclient
    rcases hclient with ⟨point, hpoint⟩ | ⟨-, hlast⟩
    · have hpushed := (show ServerThreads.Step endpoints comesBack s.threads (.thread (.release 0)) threads from
        hrel ▸ hcases).pushed_of_release
      exact ((h.settled.returning hpushed).2 connection).1 point hpoint
    · exact hrelease hrel hlast
  apply carries_iff
  · rw [hcases.hasClient_iff h.settled hown]
    exact and_iff_left_of_imp fun hclient hrel => hreturns hrel hclient
  · rw [hcases.offered_iff]
    exact or_iff_left fun ⟨hg, point, hpoint⟩ => hguard hg point hpoint
  · rw [h.threads.hasJob_iff h.settled hcases, or_iff_left fun ⟨hg, point, hpoint⟩ => hguard hg point hpoint]
    refine and_iff_left_of_imp fun hjob => ⟨hfinish, fun hrel hrejected => ?_⟩
    exact hreturns hrel (.inr (hjob.2.2 hrejected))
  · refine and_congr_left' ?_
    rw [hcases.handled_iff]
    exact or_iff_left fun ⟨w, _, hf, hw, _⟩ => hfinish w hf hw
  · rfl

/-- The job takes the socket. -/
theorem Inv.guard (h : Inv endpoints comesBack before server s)
    (hstep : s.threads.step endpoints comesBack .guard = some threads) (fd : Int) :
    ∃ sockets, run Sockets.step s.sockets (s.threads.onSockets endpoints comesBack fd .guard) = some sockets ∧
      Inv endpoints comesBack before server ⟨threads, sockets, s.descriptor, s.ended⟩ := by
  have hcases := ServerThreads.step_cases hstep
  obtain ⟨connection, request, hpoint⟩ : ∃ connection request,
      s.threads.point = .serving connection (.handling request) := by
    cases hcases with
    | guard hpoint hscheduler => exact ⟨_, _, hpoint⟩
  have hfresh := hcases.guard_fresh hpoint
  have hclient : s.sockets.held (Carrier.client.object connection) = some (s.descriptor connection) :=
    (h.held .client connection _).mpr ⟨.inl ⟨_, hpoint⟩, (if_neg hfresh).symm⟩
  have hjob : s.sockets.held (Carrier.job.object connection) = none :=
    h.held_eq_none fun fd hcarries => hfresh hcarries.1.1
  obtain ⟨hmove, htidy⟩ := h.tidy.moveConstruct hjob hclient
  have hheld := Sockets.held_moveConstruct hjob hclient
  refine ⟨_, ?_, h.next_at hstep connection htidy (fun k fd => ?_) (fun i hi => ?_) fun k connection' fd hne => ?_⟩
  · simp only [ServerThreads.onSockets, hpoint]
    rw [run_cons, hmove]
    rfl
  · rw [hheld, update_object, update_object]
    cases k with
    | socket =>
        rw [if_neg (by decide), if_neg (by decide)]
        exact h.held .socket connection fd
    | client =>
        have hclient : threads.HasClient connection :=
          (hcases.hasClient_iff h.settled nofun connection).mpr ⟨.inl ⟨_, hpoint⟩, nofun⟩
        have hoffered := (hcases.offered_iff connection).mpr (.inr ⟨rfl, _, hpoint⟩)
        simp [Carries, hclient, hoffered, eq_comm]
    | job =>
        have hjob : threads.HasJob connection :=
          (h.threads.hasJob_iff h.settled hcases connection).mpr ⟨.inr ⟨rfl, _, hpoint⟩, nofun, nofun⟩
        simp [Carries, hjob, eq_comm]
    | handler =>
        have hdriven := hcases.handled_iff_of_ne nofun connection .driving
        rw [if_neg (by decide), if_neg (by decide), h.held]
        simp only [Carries, Driven, hdriven]
  · rw [hheld, Function.update_of_ne (hi .job), Function.update_of_ne (hi .client)]
  · refine h.elsewhere hstep nofun (fun _ point hp => ?_) nofun nofun _ k fd
    rw [hpoint] at hp
    exact hne (RunPoint.serving.inj hp).1.symm

/-- What the objects go through at the end of the loop's body. -/
theorem exists_released (endpoints : List (Entry E (Callback V B R))) (comesBack : Bool) {sockets : Sockets}
    (h : sockets.Tidy before) {threads : ServerThreads} {connection : Nat}
    (hlast : threads.accepted - 1 = connection) {fd left : Int}
    (hclient : sockets.held (Carrier.client.object connection) = some left)
    (hjob : .request connection ∈ threads.scheduler.log.rejected →
      sockets.held (Carrier.job.object connection) = some fd) (fd' : Int) :
    ∃ sockets', run Sockets.step sockets
        (threads.onSockets endpoints comesBack fd' (.thread (.release 0))) = some sockets' ∧
      sockets'.Tidy before ∧ sockets'.held = Function.update
        (if .request connection ∈ threads.scheduler.log.rejected then
          Function.update sockets.held (Carrier.job.object connection) none
        else sockets.held) (Carrier.client.object connection) none := by
  subst hlast
  simp only [ServerThreads.onSockets]
  split_ifs with hrejected
  · -- the job was refused: its destructor closes the socket
    obtain ⟨hdestroy, htidy⟩ := h.destroy (hjob hrejected)
    have hclient : (sockets.destroy (Carrier.job.object (threads.accepted - 1))).held
        (Carrier.client.object (threads.accepted - 1)) = some left := by
      rw [Sockets.held_destroy, update_object, if_neg (by decide), hclient]
    obtain ⟨hend, htidy⟩ := htidy.destroy hclient
    refine ⟨_, by rw [run_cons, hdestroy, Option.bind_some, run_cons, hend]; rfl, htidy, ?_⟩
    rw [Sockets.held_destroy, Sockets.held_destroy]
  · obtain ⟨hend, htidy⟩ := h.destroy hclient
    exact ⟨_, by rw [run_cons, hend]; rfl, htidy, Sockets.held_destroy _ _⟩

/-- `m_handleRequest` returns, and the body of the loop ends. -/
theorem Inv.release (h : Inv endpoints comesBack before server s)
    (hstep : s.threads.step endpoints comesBack (.thread (.release 0)) = some threads) (fd : Int) :
    ∃ sockets,
      run Sockets.step s.sockets (s.threads.onSockets endpoints comesBack fd (.thread (.release 0))) = some sockets ∧
        Inv endpoints comesBack before server ⟨threads, sockets, s.descriptor, s.ended⟩ := by
  have hcases := ServerThreads.step_cases hstep
  have hpushed := hcases.pushed_of_release
  obtain ⟨connection, hlast⟩ := Nat.exists_eq_succ_of_ne_zero (h.settled.returning hpushed).1.ne'
  have hreturning : s.threads.Returning connection := ⟨hpushed, hlast.symm⟩
  have hlatest : s.threads.accepted - 1 = connection := by omega
  have hjob (hrejected : .request connection ∈ s.threads.scheduler.log.rejected) : s.threads.HasJob connection :=
    ⟨h.threads.offered_of_rejected hrejected, h.threads.not_executed hrejected, fun _ => hreturning⟩
  obtain ⟨sockets, hrun, htidy, hheld⟩ := exists_released endpoints comesBack h.tidy hlatest
    ((h.held .client connection _).mpr ⟨.inr hreturning, rfl⟩)
    (fun hrejected => (h.held .job connection _).mpr ⟨hjob hrejected, rfl⟩) fd
  refine ⟨sockets, hrun, h.next_at hstep connection htidy (fun k fd => ?_) (fun i hi => ?_)
    fun k connection' fd hne => h.elsewhere hstep nofun nofun (fun _ => by omega) nofun sockets k fd⟩
  · rw [hheld, update_object]
    cases k with
    | socket =>
        rw [if_neg (by decide)]
        split_ifs
        · rw [update_object, if_neg (by decide)]
          exact h.held .socket connection fd
        · exact h.held .socket connection fd
    | client =>
        have hnoclient : ¬ threads.HasClient connection := by
          rw [hcases.hasClient_iff h.settled nofun]
          exact fun hnot => hnot.2 rfl
        simp [Carries, hnoclient]
    | job =>
        have hhasJob := h.threads.hasJob_iff h.settled hcases connection
        rw [if_neg (by decide)]
        split_ifs with hrejected
        · simp [Carries, hhasJob, hrejected]
        · rw [h.held]
          simp [Carries, hhasJob, hrejected]
    | handler =>
        have hdriven := hcases.handled_iff_of_ne nofun connection .driving
        rw [if_neg (by decide)]
        split_ifs
        · rw [update_object, if_neg (by decide), h.held]
          simp only [Carries, Driven, hdriven]
        · rw [h.held]
          simp only [Carries, Driven, hdriven]
  · rw [hheld, Function.update_of_ne (hi .client)]
    split_ifs
    · exact Function.update_of_ne (hi .job) _ _
    · rfl

/-- What the objects go through in the job of a connection. -/
theorem exists_served {sockets : Sockets} (h : sockets.Tidy before) {connection w : Nat} {fd : Int}
    {threads : ServerThreads} (hw : threads.scheduler.workers w = .working (.request connection))
    {endpoint : Option (Endpoint E (Callback V B R))} {handled : Handled}
    (hresult : Server.handleRequest endpoints comesBack (threads.request connection) = .ok (endpoint, handled))
    (hjob : sockets.held (Carrier.job.object connection) = some fd)
    (hhandler : sockets.held (Carrier.handler.object connection) = none) (fd' : Int) :
    ∃ sockets', run Sockets.step sockets
        (threads.onSockets endpoints comesBack fd' (.thread (.finish w))) = some sockets' ∧
      sockets'.Tidy before ∧ sockets'.held = Function.update
        (Function.update sockets.held (Carrier.handler.object connection)
          (if handled = .driving then some fd else none)) (Carrier.job.object connection) none := by
  have hne : Carrier.handler.object connection ≠ Carrier.job.object connection := by
    rw [Ne, Carrier.object_inj]
    nofun
  simp only [ServerThreads.onSockets, hw, hresult]
  cases endpoint with
  | none =>
      obtain ⟨hdestroy, htidy⟩ := h.destroy hjob
      refine ⟨_, by rw [run_cons, hdestroy]; rfl, htidy, ?_⟩
      rw [Sockets.held_destroy, if_neg (ServerThreads.not_driving_of_none hresult), ← hhandler,
        Function.update_eq_self]
  | some endpoint =>
      obtain ⟨hmove, htidy⟩ := h.moveConstruct hhandler hjob
      have hmoved := Sockets.held_moveConstruct hhandler hjob
      cases handled with
      | sent message =>
          have htaken : (sockets.moveConstruct (Carrier.handler.object connection)
              (Carrier.job.object connection)).held (Carrier.handler.object connection) = some fd := by
            rw [hmoved, Function.update_self]
          obtain ⟨hend, htidy⟩ := htidy.destroy htaken
          have hleft : ((sockets.moveConstruct (Carrier.handler.object connection)
              (Carrier.job.object connection)).destroy (Carrier.handler.object connection)).held
                (Carrier.job.object connection) = some 0 := by
            rw [Sockets.held_destroy, hmoved, Function.update_idem, Function.update_of_ne hne.symm,
              Function.update_self]
          obtain ⟨hdestroy, htidy⟩ := htidy.destroy hleft
          refine ⟨_, ?_, htidy, ?_⟩
          · rw [run_cons, hmove, Option.bind_some, run_cons, hend, Option.bind_some, run_cons, hdestroy]
            rfl
          · rw [Sockets.held_destroy, Sockets.held_destroy, hmoved, Function.update_idem,
              Function.update_comm hne.symm, Function.update_idem]
            rfl
      | driving =>
          have hleft : (sockets.moveConstruct (Carrier.handler.object connection)
              (Carrier.job.object connection)).held (Carrier.job.object connection) = some 0 := by
            rw [hmoved, Function.update_of_ne hne.symm, Function.update_self]
          obtain ⟨hdestroy, htidy⟩ := htidy.destroy hleft
          refine ⟨_, by rw [run_cons, hmove, Option.bind_some, run_cons, hdestroy]; rfl, htidy, ?_⟩
          rw [Sockets.held_destroy, hmoved, Function.update_comm hne.symm, Function.update_idem]
          rfl

/-- The job of a connection ends. -/
theorem Inv.finish (h : Inv endpoints comesBack before server s) {connection w : Nat}
    (hw : s.threads.scheduler.workers w = .working (.request connection))
    (hstep : s.threads.step endpoints comesBack (.thread (.finish w)) = some threads) (fd : Int) :
    ∃ sockets,
      run Sockets.step s.sockets (s.threads.onSockets endpoints comesBack fd (.thread (.finish w))) = some sockets ∧
        Inv endpoints comesBack before server ⟨threads, sockets, s.descriptor, s.ended⟩ := by
  have hcases := ServerThreads.step_cases hstep
  obtain ⟨hoffered, hnot⟩ := h.threads.valid.working hw
  have hhasJob : s.threads.HasJob connection := ⟨hoffered, hnot, fun hrejected =>
    absurd (by rw [hw]; rfl) ((h.threads.valid.dropped hrejected).2.1 w)⟩
  have hnone : ∀ handled, (connection, handled) ∉ s.threads.handled := fun handled hmem =>
    hnot (h.threads.executed_of_handled hmem)
  obtain ⟨⟨endpoint, handled⟩, hresult⟩ : ∃ result,
      Server.handleRequest endpoints comesBack (s.threads.request connection) = .ok result := by
    cases hcases with
    | thread hother hends hscheduler =>
        simp only [ServerThreads.ends, hw] at hends
        obtain ⟨result, hresult, -⟩ := exists_of_map_eq_ok hends
        exact ⟨result, hresult⟩
  obtain ⟨sockets, hrun, htidy, hheld⟩ := exists_served h.tidy hw hresult
    ((h.held .job connection _).mpr ⟨hhasJob, rfl⟩) (h.held_eq_none fun fd hcarries => hnone _ hcarries.1.1) fd
  refine ⟨sockets, hrun, h.next_at hstep connection htidy (fun k fd => ?_) (fun i hi => ?_)
    fun k connection' fd hne => h.elsewhere hstep (by simp) (by simp) (by simp) (fun w' heq hw' => ?_) _ k fd⟩
  · rw [hheld, update_object, update_object]
    cases k with
    | socket =>
        rw [if_neg (by decide), if_neg (by decide)]
        exact h.held .socket connection fd
    | client =>
        have hclient : threads.HasClient connection ↔ s.threads.HasClient connection := by
          rw [hcases.hasClient_iff h.settled (by simp)]
          exact and_iff_left (by simp)
        have hoffered' : .request connection ∈ threads.scheduler.log.offered ↔
            .request connection ∈ s.threads.scheduler.log.offered := by
          rw [hcases.offered_iff]
          exact or_iff_left fun hguard => by cases hguard.1
        rw [if_neg (by decide), if_neg (by decide), h.held]
        simp only [Carries, hclient, hoffered']
    | job =>
        have hnojob : ¬ threads.HasJob connection := by
          rw [h.threads.hasJob_iff h.settled hcases]
          exact fun hjob => hjob.2.1 w rfl hw
        simp [Carries, hnojob]
    | handler =>
        have hended : connection ∉ s.ended := fun hmem => hnone _ (h.ended connection hmem)
        have hdriving : (connection, .driving) ∈ threads.handled ↔ handled = .driving := by
          rw [hcases.handled_iff, or_iff_right (hnone _)]
          constructor
          · rintro ⟨w', endpoint', heq, hw', hresult'⟩
            rw [hresult] at hresult'
            exact (Prod.mk.inj (Except.ok.inj hresult')).2
          · rintro rfl
            exact ⟨w, endpoint, rfl, hw, hresult⟩
        by_cases hdrive : handled = .driving
        · simp [Carries, Driven, hdriving, hdrive, hended, eq_comm]
        · simp [Carries, Driven, hdriving, hdrive]
  · rw [hheld, Function.update_of_ne (hi .job), Function.update_of_ne (hi .handler)]
  · obtain rfl := Scheduler.Action.finish.inj (ServerThreads.Action.thread.inj heq)
    rw [hw] at hw'
    exact hne (Work.request.inj (WorkerPoint.working.inj hw')).symm

/-- The connections to come have no objects. -/
theorem Inv.unknown (h : Inv endpoints comesBack before server s) {connection : Nat}
    (hle : s.threads.accepted ≤ connection) (k : Carrier) (fd : Int) : ¬ s.Carries k connection fd := by
  have hoffered : .request connection ∉ s.threads.scheduler.log.offered := fun hmem =>
    absurd (h.settled.known connection hmem) (Nat.not_lt.mpr hle)
  cases k with
  | socket => exact id
  | client =>
      rintro ⟨⟨point, hpoint⟩ | ⟨-, hlast⟩, -⟩
      · have hlast := h.settled.latest connection point hpoint
        omega
      · omega
  | job => exact fun hcarries => hoffered hcarries.1.1
  | handler =>
      intro hcarries
      exact hoffered (h.threads.valid.offered_of_executed (h.threads.executed_of_handled hcarries.1.1))

/-- A step of the accept loop, but for the client it serves. -/
theorem Inv.own_elsewhere (h : Inv endpoints comesBack before server s) {own : Running.Action} {loop : Running}
    (hstep : s.threads.step endpoints comesBack (.own own) = some (s.threads.setLoop loop))
    {descriptor : Nat → Int} {connection : Nat}
    (hserving : (∃ point, loop.point = .serving connection point) ↔
      ∃ point, s.threads.point = .serving connection point)
    (hdescriptor : descriptor connection = s.descriptor connection) (sockets : Sockets) (k : Carrier) (fd : Int) :
    Carries ⟨s.threads.setLoop loop, sockets, descriptor, s.ended⟩ k connection fd ↔
      s.Carries k connection fd := by
  have hcases := ServerThreads.step_cases hstep
  have hreturning := hcases.not_pushed
  refine carries_iff (s := s) (t := ⟨s.threads.setLoop loop, sockets, descriptor, s.ended⟩) connection ?_ Iff.rfl ?_
    Iff.rfl hdescriptor k fd
  · refine or_congr hserving (iff_of_false ?_ ?_)
    · exact fun hreturn => hreturning hreturn.1
    · exact fun hreturn => hreturning hreturn.1
  · rw [h.threads.hasJob_iff h.settled hcases]
    simp

theorem accept_cases (poll : PollResult) (accepted : Bool) :
    (Socket.accept poll accepted = .ok () ∧ ∀ (sockets : Sockets) result fd,
        sockets.heldAfter result ⟨(Socket.hasDataToRecieve poll).toOption, if accepted then some fd else none⟩ =
          Function.update sockets.held result (some fd)) ∨
      ∃ errors, Socket.accept poll accepted = .error errors ∧ ∀ (sockets : Sockets) result fd,
        sockets.heldAfter result ⟨(Socket.hasDataToRecieve poll).toOption, if accepted then some fd else none⟩ =
          sockets.held := by
  unfold Socket.accept
  rcases Socket.hasDataToRecieve poll with errors | _ | _
  · exact .inr ⟨_, rfl, fun _ _ _ => rfl⟩
  · exact .inr ⟨_, rfl, fun _ _ _ => rfl⟩
  · cases accepted with
    | false => exact .inr ⟨_, rfl, fun _ _ _ => rfl⟩
    | true => exact .inl ⟨rfl, fun _ _ _ => rfl⟩

/-- A connection is accepted, or none is. -/
theorem Inv.accept (h : Inv endpoints comesBack before server s) {poll : PollResult} {accepted : Bool}
    (hstep : s.threads.step endpoints comesBack (.own (.accept poll accepted)) = some threads) (fd : Int)
    (hsystem : accepted = true → s.sockets.HandsOut (some fd)) :
    ∃ sockets, run Sockets.step s.sockets
        (s.threads.onSockets endpoints comesBack fd (.own (.accept poll accepted))) = some sockets ∧
      Inv endpoints comesBack before server
        ⟨threads, sockets, s.given fd (.own (.accept poll accepted)), s.ended⟩ := by
  obtain ⟨hpoint, rfl⟩ : s.threads.point = .accepting ∧
      threads = s.threads.setLoop (s.threads.loop.accept poll accepted) := by
    cases ServerThreads.step_cases hstep with
    | own hown hfree hloop =>
        obtain ⟨hpoint, hloop⟩ := Option.ite_none_right_eq_some.mp hloop
        exact ⟨hpoint, by rw [Option.some.inj hloop]⟩
  have hsystem' : s.sockets.HandsOut (if accepted then some fd else none) := by
    cases accepted with
    | false => simp [Sockets.HandsOut]
    | true => exact hsystem rfl
  have hne : Carrier.client.object s.threads.accepted ≠ Carrier.socket.object s.threads.accepted := by
    simp [Carrier.object_inj]
  obtain ⟨haccept, htidy, hheld⟩ := h.tidy.accept h.own (h.held_eq_none (h.unknown le_rfl .socket))
    (h.held_eq_none (h.unknown le_rfl .client)) hne
    ⟨(Socket.hasDataToRecieve poll).toOption, if accepted then some fd else none⟩ hsystem'
  have hidle : ∀ connection, ¬ ∃ point, s.threads.point = .serving connection point := by simp [hpoint]
  refine ⟨_, by rw [ServerThreads.onSockets, run_cons, haccept]; rfl, ?_⟩
  rcases accept_cases poll accepted with ⟨hresult, hafter⟩ | ⟨errors, hresult, hafter⟩
  · rw [hafter] at hheld
    have hgiven : s.given fd (.own (.accept poll accepted)) =
        Function.update s.descriptor s.threads.accepted fd := by simp only [given, hresult]
    have hserving : ∀ connection,
        (∃ point, (s.threads.loop.accept poll accepted).point = .serving connection point) ↔
          connection = s.threads.accepted := by
      intro connection
      unfold Running.accept
      rw [hresult]
      simp [ServerThreads.loop, eq_comm]
    have hnone : ∀ k fd, ¬ s.Carries k s.threads.accepted fd := h.unknown le_rfl
    have hoffered : .request s.threads.accepted ∉ s.threads.scheduler.log.offered := fun hmem =>
      absurd (h.settled.known _ hmem) (lt_irrefl _)
    refine h.next_at hstep s.threads.accepted htidy (fun k fd' => ?_) (fun i hi => ?_) fun k connection fd' hnew => ?_
    · rw [hheld, update_object]
      cases k with
      | client =>
          have hclient : (s.threads.setLoop (s.threads.loop.accept poll accepted)).HasClient s.threads.accepted :=
            .inl ((hserving _).mpr rfl)
          have hfd : s.given fd (.own (.accept poll accepted)) s.threads.accepted = fd := by
            rw [hgiven, Function.update_self]
          rw [if_pos rfl]
          simp only [Carries, hclient, true_and, hfd]
          show _ ↔ fd' = if .request s.threads.accepted ∈ s.threads.scheduler.log.offered then 0 else fd
          rw [if_neg hoffered, Option.some.injEq, eq_comm]
      | socket =>
          rw [if_neg (by decide)]
          exact h.held .socket _ fd'
      | job =>
          rw [if_neg (by decide), h.held]
          exact iff_of_false (hnone .job fd') fun hcarries => hoffered hcarries.1.1
      | handler =>
          rw [if_neg (by decide), h.held]
          exact iff_of_false (hnone .handler fd') fun hcarries => hnone .handler _ ⟨hcarries.1, rfl⟩
    · rw [hheld, Function.update_of_ne (hi .client)]
    · refine h.own_elsewhere hstep ?_ ?_ _ k fd'
      · rw [hserving]
        exact iff_of_false hnew (hidle connection)
      · rw [hgiven, Function.update_of_ne hnew]
  · rw [hafter] at hheld
    have hgiven : s.given fd (.own (.accept poll accepted)) = s.descriptor := by simp only [given, hresult]
    have hserving : ∀ connection,
        ¬ ∃ point, (s.threads.loop.accept poll accepted).point = .serving connection point := by
      intro connection
      unfold Running.accept
      rw [hresult]
      rcases errors with ⟨result, messages⟩
      rintro ⟨point, hserves⟩
      cases result <;> cases hserves
    refine h.next hstep htidy (by rw [hheld, h.own]) fun k connection fd' => ?_
    rw [hheld, h.held]
    exact (h.own_elsewhere hstep (iff_of_false (hserving connection) (hidle connection)) (by rw [hgiven]) _ k fd').symm

/-- A call on the client's socket. -/
theorem Inv.call (h : Inv endpoints comesBack before server s) {call : Call}
    (hstep : s.threads.step endpoints comesBack (.own (.call call)) = some threads) (fd : Int) :
    ∃ sockets, run Sockets.step s.sockets (s.threads.onSockets endpoints comesBack fd (.own (.call call))) =
        some sockets ∧
      Inv endpoints comesBack before server ⟨threads, sockets, s.descriptor, s.ended⟩ := by
  have hcases := ServerThreads.step_cases hstep
  obtain ⟨connection, point, result, hpoint, hnext, rfl⟩ : ∃ connection point result,
      s.threads.point = .serving connection point ∧ point.next call = some result ∧
        threads = s.threads.setLoop (s.threads.loop.called connection result) := by
    cases hcases with
    | own hown hfree hloop =>
        simp only [Running.step] at hloop
        split at hloop
        · next connection point hpoint =>
            obtain ⟨result, hnext, rfl⟩ := Option.map_eq_some_iff.mp hloop
            exact ⟨connection, point, result, hpoint, hnext, rfl⟩
        · cases hloop
  have hserving : ∀ connection', (∃ point, s.threads.point = .serving connection' point) ↔
      connection' = connection := by simp [hpoint, eq_comm]
  -- on with the client, or away from it
  have hon : (∃ next, result = .ok (some next)) ∨
      (s.threads.onSockets endpoints comesBack fd (.own (.call call)) =
          [.destroy (Carrier.client.object connection)] ∧
        ∀ connection',
          ¬ ∃ point, (s.threads.loop.called connection result).point = .serving connection' point) := by
    rcases result with errors | _ | next
    · exact .inr ⟨by simp only [ServerThreads.onSockets, hpoint, hnext], by simp [Running.called, Running.fail]⟩
    · exact .inr ⟨by simp only [ServerThreads.onSockets, hpoint, hnext], by simp [Running.called]⟩
    · exact .inl ⟨next, rfl⟩
  rcases hon with ⟨next, rfl⟩ | ⟨hdestroys, haway⟩
  · refine ⟨s.sockets, by simp only [ServerThreads.onSockets, hpoint, hnext, run_nil], ?_⟩
    refine h.next hstep h.tidy h.own fun k connection' fd' => ?_
    rw [h.held]
    refine (h.own_elsewhere hstep ?_ rfl _ k fd').symm
    rw [hserving]
    simp [Running.called, eq_comm]
  · have hclient := (h.held .client connection _).mpr ⟨.inl ⟨point, hpoint⟩, rfl⟩
    obtain ⟨hdestroy, htidy⟩ := h.tidy.destroy hclient
    refine ⟨_, by rw [hdestroys, run_cons, hdestroy]; rfl, h.next_at hstep connection htidy (fun k fd' => ?_)
      (fun i hi => ?_) fun k connection' fd' hne => h.own_elsewhere hstep ?_ rfl _ k fd'⟩
    · rw [Sockets.held_destroy, update_object]
      cases k with
      | socket =>
          rw [if_neg (by decide)]
          exact h.held .socket connection fd'
      | client =>
          rw [if_pos rfl]
          refine iff_of_false (by simp) fun hcarries => ?_
          rcases hcarries.1 with hserves | ⟨hpushed, -⟩
          · exact haway connection hserves
          · exact hcases.not_pushed hpushed
      | job =>
          rw [if_neg (by decide), h.held]
          refine and_congr_left' ?_
          rw [h.threads.hasJob_iff h.settled hcases]
          simp
      | handler =>
          rw [if_neg (by decide)]
          exact h.held .handler connection fd'
    · rw [Sockets.held_destroy, Function.update_of_ne (hi .client)]
    · rw [hserving]
      exact iff_of_false (haway connection') hne

/-- A step in which no object is touched. -/
theorem Inv.quiet (h : Inv endpoints comesBack before server s)
    (hstep : s.threads.step endpoints comesBack action = some threads) (hown : ∀ own, action ≠ .own own)
    (hguard : action ≠ .guard) (hrelease : action ≠ .thread (.release 0))
    (hfinish : ∀ w connection, action = .thread (.finish w) →
      s.threads.scheduler.workers w ≠ .working (.request connection)) :
    Inv endpoints comesBack before server ⟨threads, s.sockets, s.descriptor, s.ended⟩ := by
  refine h.next hstep h.tidy h.own fun k connection fd => ?_
  rw [h.held]
  exact (h.elsewhere hstep hown (absurd · hguard) (absurd · hrelease) (fun w => hfinish w connection) _ k fd).symm

theorem idle_point {s t : Running} {own : Running.Action} (hown : own.own = true)
    (haccept : ∀ poll accepted, own ≠ .accept poll accepted) (hcall : ∀ call, own ≠ .call call)
    (h : s.step own = some t) (connection : Nat) :
    (¬ ∃ point, t.point = .serving connection point) ∧ ¬ ∃ point, s.point = .serving connection point := by
  cases own with
  | listen success =>
      obtain ⟨hpoint, h⟩ := Option.ite_none_right_eq_some.mp h
      obtain rfl := Option.some.inj h
      refine ⟨?_, by simp [hpoint]⟩
      cases success <;> exact nofun
  | check =>
      obtain ⟨hpoint, h⟩ := Option.ite_none_right_eq_some.mp h
      obtain rfl := Option.some.inj h
      refine ⟨?_, by simp [hpoint]⟩
      unfold Running.check
      cases s.endSignal <;> exact nofun
  | accept poll accepted => exact absurd rfl (haccept poll accepted)
  | call call => exact absurd rfl (hcall call)
  | _ => cases hown

/-- The accept loop is neither at `accept` nor with a client. -/
theorem Inv.idle (h : Inv endpoints comesBack before server s) {own : Running.Action}
    (hstep : s.threads.step endpoints comesBack (.own own) = some threads)
    (haccept : ∀ poll accepted, own ≠ .accept poll accepted) (hcall : ∀ call, own ≠ .call call) :
    Inv endpoints comesBack before server ⟨threads, s.sockets, s.descriptor, s.ended⟩ := by
  obtain ⟨loop, hown, hloop, rfl⟩ : ∃ loop, own.own = true ∧ s.threads.loop.step own = some loop ∧
      threads = s.threads.setLoop loop := by
    cases ServerThreads.step_cases hstep with
    | own hown hfree hloop => exact ⟨_, hown, hloop, rfl⟩
  refine h.next hstep h.tidy h.own fun k connection fd => ?_
  rw [h.held]
  obtain ⟨hafter, hbefore⟩ := idle_point hown haccept hcall hloop connection
  exact (h.own_elsewhere hstep (iff_of_false hafter hbefore) rfl _ k fd).symm

/-- **No object is used that is not there.** -/
theorem Inv.exists_sockets (h : Inv endpoints comesBack before server s)
    (hstep : s.threads.step endpoints comesBack action = some threads) (fd : Int)
    (hsystem : ∀ poll, action = .own (.accept poll true) → s.sockets.HandsOut (some fd)) :
    ∃ sockets, run Sockets.step s.sockets (s.threads.onSockets endpoints comesBack fd action) = some sockets ∧
      Inv endpoints comesBack before server ⟨threads, sockets, s.given fd action, s.ended⟩ := by
  cases action with
  | own own =>
      cases own with
      | accept poll accepted =>
          refine h.accept hstep fd ?_
          rintro rfl
          exact hsystem poll rfl
      | call call => exact h.call hstep fd
      | listen success => exact ⟨_, rfl, h.idle hstep nofun nofun⟩
      | check => exact ⟨_, rfl, h.idle hstep nofun nofun⟩
      | _ => cases hstep
  | signal => exact ⟨_, rfl, h.quiet hstep nofun nofun nofun nofun⟩
  | guard => exact h.guard hstep fd
  | push => exact ⟨_, rfl, h.quiet hstep nofun nofun nofun nofun⟩
  | offer p priority awaiter => exact ⟨_, rfl, h.quiet hstep nofun nofun nofun nofun⟩
  | thread action =>
      cases action with
      | release p =>
          cases p with
          | zero => exact h.release hstep fd
          | succ p => exact ⟨_, rfl, h.quiet hstep nofun nofun (by simp) nofun⟩
      | finish w =>
          by_cases hw : ∃ connection, s.threads.scheduler.workers w = .working (.request connection)
          · obtain ⟨connection, hw⟩ := hw
            exact h.finish hw hstep fd
          · have hnone : s.threads.onSockets endpoints comesBack fd (.thread (.finish w)) = [] := by
              simp only [ServerThreads.onSockets]
              split
              · next connection hworking => exact absurd ⟨connection, hworking⟩ hw
              · rfl
            refine ⟨s.sockets, by rw [hnone, run_nil],
              h.quiet hstep nofun nofun nofun fun w' connection heq hw' => ?_⟩
            obtain rfl := Scheduler.Action.finish.inj (ServerThreads.Action.thread.inj heq)
            exact hw ⟨connection, hw'⟩
      | _ => exact ⟨_, rfl, h.quiet hstep nofun nofun nofun nofun⟩

/-- A suspended coroutine ends: its frame closes the socket. -/
theorem Inv.ends (h : Inv endpoints comesBack before server s) {connection : Nat} (hdriven : s.Driven connection) :
    ∃ sockets, s.sockets.step (.destroy (Carrier.handler.object connection)) = some sockets ∧
      Inv endpoints comesBack before server { s with sockets := sockets, ended := connection :: s.ended } := by
  obtain ⟨hdestroy, htidy⟩ := h.tidy.destroy ((h.held .handler connection _).mpr ⟨hdriven, rfl⟩)
  refine ⟨_, hdestroy, { h with ended := ?_, tidy := htidy, own := ?_, held := fun k connection' fd => ?_ }⟩
  · intro connection' hmem
    rcases List.mem_cons.mp hmem with rfl | hmem
    · exact hdriven.1
    · exact h.ended connection' hmem
  · rw [Sockets.held_destroy, Function.update_of_ne (Carrier.object_ne_zero _ _).symm, h.own]
  · rw [Sockets.held_destroy]
    by_cases heq : k = .handler ∧ connection' = connection
    · obtain ⟨rfl, rfl⟩ := heq
      simp [Carries, Driven]
    · rw [Function.update_of_ne fun hsame => heq (Carrier.object_inj.mp hsame), h.held]
      cases k with
      | handler =>
          have hne : connection' ≠ connection := fun hsame => heq ⟨rfl, hsame⟩
          simp [Carries, Driven, hne]
      | _ => exact Iff.rfl

theorem inv_step (h : Inv endpoints comesBack before server s) (hstep : step endpoints comesBack s a = some t) :
    Inv endpoints comesBack before server t := by
  cases a with
  | threads action fd =>
      obtain ⟨threads, hthreads, hstep⟩ := Option.bind_eq_some_iff.mp hstep
      obtain ⟨sockets, hsockets, rfl⟩ := Option.map_eq_some_iff.mp hstep
      have hsystem : ∀ poll, action = .own (.accept poll true) → s.sockets.HandsOut (some fd) := by
        rintro poll rfl
        obtain ⟨next, hnext, -⟩ := run_cons_eq_some.mp hsockets
        exact (Option.ite_none_right_eq_some.mp hnext).1.2.2.2.2
      obtain ⟨sockets', hsockets', hinv⟩ := h.exists_sockets hthreads fd hsystem
      rw [hsockets] at hsockets'
      rw [Option.some.inj hsockets']
      exact hinv
  | ended connection =>
      obtain ⟨hdriven, hstep⟩ := Option.ite_none_right_eq_some.mp hstep
      obtain ⟨sockets, hsockets, rfl⟩ := Option.map_eq_some_iff.mp hstep
      obtain ⟨sockets', hsockets', hinv⟩ := h.ends hdriven
      rw [hsockets] at hsockets'
      rw [Option.some.inj hsockets']
      exact hinv

theorem inv_start {isOpen : Int → Bool} (hserver : isOpen server = false) :
    Inv endpoints comesBack isOpen server (start isOpen server) := by
  have hstart : (Sockets.start isOpen).Tidy isOpen :=
    ⟨⟨nofun, nofun, nofun⟩, fun fd _ hopen => .inl hopen, fun fd _ hopen => ⟨hopen, nofun⟩⟩
  have hlocal : ((Sockets.start isOpen).construct 0 0).held 0 = some 0 := by
    rw [Sockets.held_construct, Function.update_self]
  have hheld : (start isOpen server).sockets.held = Function.update (Sockets.start isOpen).held 0 (some server) := by
    refine (Sockets.held_adopt (Sockets.held_eq_some_iff.mp hlocal).1 server).trans ?_
    rw [Sockets.held_construct, Function.update_idem]
  refine { threads := ServerThreads.inv_start, ledger := ⟨_, Running.ledger_start⟩,
           settled := ServerThreads.settled_start, ended := fun _ hmem => absurd hmem List.not_mem_nil,
           tidy := (hstart.construct (i := 0) rfl).adopt hlocal hserver,
           own := by rw [hheld, Function.update_self], held := fun k connection fd => ?_ }
  rw [hheld, Function.update_of_ne (k.object_ne_zero connection)]
  refine iff_of_false nofun ?_
  cases k with
  | socket => exact id
  | client =>
      rintro ⟨⟨point, hpoint⟩ | ⟨hpushed, -⟩, -⟩
      · cases hpoint
      · cases hpushed
  | job => exact fun hcarries => absurd hcarries.1.1 List.not_mem_nil
  | handler => exact fun hcarries => absurd hcarries.1.1 List.not_mem_nil

/-! ## Which descriptors are open -/

/-- The server still needs the connection: it serves the client, the job waits or a worker has it, `m_handleRequest`
is about to give it up, or a coroutine is suspended that serves it. -/
def InUse (s : ServerSockets) (connection : Nat) : Prop :=
  s.threads.At .serving connection ∨ s.threads.At .waiting connection ∨ s.threads.At .held connection ∨
    (s.threads.Returning connection ∧ .request connection ∈ s.threads.scheduler.log.rejected) ∨
    s.Driven connection

/-- One object has the descriptor of a connection as long as it is in use. -/
theorem Inv.inUse_iff (h : Inv endpoints comesBack before server s) {connection : Nat} {fd : Int} (hpos : 0 < fd) :
    (s.InUse connection ∧ s.descriptor connection = fd) ↔
      ∃ k : Carrier, s.sockets.held (k.object connection) = some fd := by
  have hjob := h.threads.hasJob_iff_at h.settled h.ledger connection
  constructor
  · rintro ⟨hserving | hqueued | hheld | hreturning | hdriven, rfl⟩
    · by_cases hoffered : .request connection ∈ s.threads.scheduler.log.offered
      · exact ⟨.job, (h.held _ _ _).mpr ⟨hjob.mpr (.inl ⟨hserving, hoffered⟩), rfl⟩⟩
      · exact ⟨.client, (h.held _ _ _).mpr ⟨.inl hserving, (if_neg hoffered).symm⟩⟩
    · exact ⟨.job, (h.held _ _ _).mpr ⟨hjob.mpr (.inr (.inl hqueued)), rfl⟩⟩
    · exact ⟨.job, (h.held _ _ _).mpr ⟨hjob.mpr (.inr (.inr (.inl hheld))), rfl⟩⟩
    · exact ⟨.job, (h.held _ _ _).mpr ⟨hjob.mpr (.inr (.inr (.inr hreturning))), rfl⟩⟩
    · exact ⟨.handler, (h.held _ _ _).mpr ⟨hdriven, rfl⟩⟩
  · rintro ⟨k, hheld⟩
    have hcarries := (h.held _ _ _).mp hheld
    cases k with
    | socket => exact hcarries.elim
    | client =>
        obtain ⟨hclient, hfd⟩ := hcarries
        split_ifs at hfd with hoffered
        · omega
        · rcases hclient with hserving | ⟨hpushed, hlast⟩
          · exact ⟨.inl hserving, hfd.symm⟩
          · exact absurd (((h.settled.returning hpushed).2 connection).2 hlast) hoffered
    | job =>
        refine ⟨?_, hcarries.2.symm⟩
        rcases hjob.mp hcarries.1 with ⟨hserving, -⟩ | hqueued | hheld | hreturning
        · exact .inl hserving
        · exact .inr (.inl hqueued)
        · exact .inr (.inr (.inl hheld))
        · exact .inr (.inr (.inr (.inl hreturning)))
    | handler => exact ⟨.inr (.inr (.inr (.inr hcarries.1))), hcarries.2.symm⟩

end

/-- Every object is the server's, or of a connection. -/
theorem Inv.exists_carrier (h : Inv endpoints comesBack before server s) {i : Nat} {fd : Int}
    (hheld : s.sockets.held i = some fd) :
    fd = server ∨ ∃ (k : Carrier) (connection : Nat), s.sockets.held (k.object connection) = some fd := by
  rcases Carrier.eq_zero_or_object i with rfl | ⟨k, connection, rfl⟩
  · rw [h.own, Option.some.injEq] at hheld
    exact .inl hheld.symm
  · exact .inr ⟨k, connection, hheld⟩

/-- The descriptors that are open are those that were open before, the server's, and those of the connections that
are in use. -/
theorem Inv.isOpen_iff (h : Inv endpoints comesBack before server s) {fd : Int} (hpos : 0 < fd) :
    s.sockets.isOpen fd = true ↔
      before fd = true ∨ fd = server ∨ ∃ connection, s.InUse connection ∧ s.descriptor connection = fd := by
  have hopen : ∀ i, s.sockets.held i = some fd → s.sockets.isOpen fd = true := by
    intro i hheld
    obtain ⟨hlive, rfl⟩ := Sockets.held_eq_some_iff.mp hheld
    exact h.tidy.owned.isOpen i hlive hpos
  constructor
  · intro hisOpen
    refine (h.tidy.covered fd hpos hisOpen).imp_right ?_
    rintro ⟨i, hheld⟩
    refine (h.exists_carrier hheld).imp_right ?_
    rintro ⟨k, connection, hheld⟩
    exact ⟨connection, (h.inUse_iff hpos).mpr ⟨k, hheld⟩⟩
  · rintro (hbefore | rfl | ⟨connection, hinUse⟩)
    · exact (h.tidy.spared fd hpos hbefore).1
    · exact hopen 0 h.own
    · obtain ⟨k, hheld⟩ := (h.inUse_iff hpos).mp hinUse
      exact hopen _ hheld

/-- Two objects don't hold one descriptor. -/
theorem Inv.apart (h : Inv endpoints comesBack before server s) {i j : Nat} {fd : Int} (hpos : 0 < fd)
    (hi : s.sockets.held i = some fd) (hj : s.sockets.held j = some fd) : i = j := by
  obtain ⟨hlive, rfl⟩ := Sockets.held_eq_some_iff.mp hi
  obtain ⟨hlive', heq⟩ := Sockets.held_eq_some_iff.mp hj
  exact h.tidy.owned.apart i j hlive hlive' hpos heq.symm

theorem Inv.descriptor_apart (h : Inv endpoints comesBack before server s) {connection : Nat}
    (hinUse : s.InUse connection) (hpos : 0 < s.descriptor connection) :
    before (s.descriptor connection) = false ∧ s.descriptor connection ≠ server ∧
      ∀ connection', s.InUse connection' → s.descriptor connection' = s.descriptor connection →
        connection' = connection := by
  obtain ⟨k, hheld⟩ := (h.inUse_iff hpos).mp ⟨hinUse, rfl⟩
  refine ⟨?_, fun heq => ?_, fun connection' hinUse' heq => ?_⟩
  · by_contra hbefore
    exact (h.tidy.spared _ hpos (Bool.eq_true_of_not_eq_false hbefore)).2 _ hheld
  · exact k.object_ne_zero connection (h.apart hpos hheld (by rw [heq, h.own]))
  · obtain ⟨k', hheld'⟩ := (h.inUse_iff hpos).mp ⟨hinUse', heq⟩
    exact (Carrier.object_inj.mp (h.apart hpos hheld' hheld)).2

theorem inv_run {isOpen : Int → Bool} (hserver : isOpen server = false) {as : List Action}
    (h : run (step endpoints comesBack) (start isOpen server) as = some s) :
    Inv endpoints comesBack isOpen server s :=
  run_invariant (fun _ _ _ => inv_step) (inv_start hserver) h

/-- **No descriptor is lost or closed too early.** In any interleaving of the accept loop, the workers and the
coroutines, whatever unused descriptors the system hands out: what the threads do next, they can do with the sockets,
so that no object is used before its construction or after its end. The descriptors that are open are those that
were open before, the server's own, and those of the connections in use; no two connections in use share one, and none
was closed that was not open. -/
theorem descriptors_kept (endpoints : List (Entry E (Callback V B R))) (comesBack : Bool) (isOpen : Int → Bool)
    (server : Int) (hserver : isOpen server = false) (as : List Action) (s : ServerSockets)
    (h : run (step endpoints comesBack) (start isOpen server) as = some s) :
    (∀ action threads fd, s.threads.step endpoints comesBack action = some threads →
        s.sockets.HandsOut (some fd) →
        ∃ t, step endpoints comesBack s (.threads action fd) = some t ∧ t.threads = threads) ∧
      (∀ fd, 0 < fd → (s.sockets.isOpen fd = true ↔
        isOpen fd = true ∨ fd = server ∨ ∃ connection, s.InUse connection ∧ s.descriptor connection = fd)) ∧
      (∀ connection, s.InUse connection → 0 < s.descriptor connection →
        isOpen (s.descriptor connection) = false ∧ s.descriptor connection ≠ server ∧
          ∀ connection', s.InUse connection' → s.descriptor connection' = s.descriptor connection →
            connection' = connection) ∧
      ∀ close ∈ s.sockets.closes, close.wasOpen = true := by
  have hinv := inv_run hserver h
  refine ⟨fun action threads fd hstep hsystem => ?_, fun fd hpos => hinv.isOpen_iff hpos,
    fun connection hinUse hpos => hinv.descriptor_apart hinUse hpos, hinv.tidy.owned.closes⟩
  obtain ⟨sockets, hsockets, -⟩ := hinv.exists_sockets hstep fd fun _ _ => hsystem
  exact ⟨_, by rw [step, hstep, Option.bind_some, hsockets, Option.map_some], rfl⟩

/-- A client is answered, and the next one gets the descriptor that it has left. -/
def reusing : List Action :=
  (ServerThreads.answering ServerThreads.getRoot ++
    [ServerThreads.Action.own .check, .own (.accept Running.dataThere true)]).map fun action => .threads action 4

theorem descriptors_kept_reusing : ∃ s,
    run (step (build [root]) true) (start (fun fd => decide (0 ≤ fd ∧ fd < 3)) 3) reusing = some s ∧
      s.descriptor 0 = 4 ∧ s.descriptor 1 = 4 ∧ s.InUse 1 ∧ ∀ connection, s.InUse connection →
        s.descriptor connection = 4 → connection = 1 := by
  have hview : (run (step (build [root]) true) (start (fun fd => decide (0 ≤ fd ∧ fd < 3)) 3) reusing).map
      (fun s => (s.threads.point, s.descriptor 0, s.descriptor 1)) = some (.serving 1 .polling, 4, 4) := rfl
  obtain ⟨s, hrun, hview⟩ := Option.map_eq_some_iff.mp hview
  obtain ⟨hpoint, hfirst, hsecond⟩ : s.threads.point = .serving 1 .polling ∧ s.descriptor 0 = 4 ∧
      s.descriptor 1 = 4 := by simpa using hview
  have hinUse : s.InUse 1 := .inl ⟨.polling, hpoint⟩
  have hkept := (descriptors_kept (build [root]) true (fun fd => decide (0 ≤ fd ∧ fd < 3)) 3 (by decide) reusing s
    hrun).2.2.1 1 hinUse (by omega)
  exact ⟨s, hrun, hfirst, hsecond, hinUse, fun connection huse heq => hkept.2.2 connection huse (by omega)⟩

end ServerSockets

end Fipper

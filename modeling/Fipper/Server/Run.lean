import Fipper.Coroutine.Completion
import Fipper.Server.Connection

/-!
# `Server::run`

The accept loop as a transition system: the thread that runs it makes one system call after the
other, with any results, the other threads push and pop jobs, and a signal may arrive at any time.
Pushes and pops happen with `s_mutex` held (`Scheduler`), so each of them is one step.

* `Server.step` : the transition system; connections are numbered as they are accepted;
* `Survives` : `run` has not returned on account of a client, and every other client was handed over;
* `survives_step`, `stopped_step` : the steps that the clients must not cause.

What the jobs do, and whether the process outlives it, is another matter (`ServerProcess`).
-/

namespace Fipper

open Lib

/-- Where the thread is in `run`. -/
inductive RunPoint
  | listening
  | top
  | accepting
  | serving (connection : Nat) (point : Serving)
  | returned (result : Result) (errors : Errors)
  deriving DecidableEq, Repr

/-- The thread in `run`, `s_endSignal` and the job queue; how many connections were accepted, which
were handed over to a job with which request, and which were dropped since they stayed silent. -/
structure Running where
  point : RunPoint
  endSignal : Bool
  queue : JobQueue (Work Nat)
  accepted : Nat
  handed : List (Nat × Str)
  silent : List Nat

namespace Running

inductive Action
  | listen (success : Bool)
  | check
  /-- `accept`, with the result of its poll and whether `::accept` succeeds. -/
  | accept (poll : PollResult) (accepted : Bool)
  | call (call : Call)
  | handleRequest
  | signal
  /-- Another thread pushes a job. -/
  | push (priority : JobPriority) (job : Work Nat)
  | pop

def start : Running := ⟨.listening, false, .init, 0, [], []⟩

def fail (s : Running) (errors : Errors) : Running := { s with point := .returned .eFailure errors }

/-- `m_handleRequest`: it pushes the job that handles the request of this connection. -/
def handleRequest (queue : JobQueue (Work Nat)) (connection : Nat) : Except Errors Unit × JobQueue (Work Nat) :=
  let (result, queue) := queue.push .eMedium (.request connection)
  if result ≠ .eSuccess then (.error [(some .eFailure, "Can't push job to job queue")], queue) else (.ok (), queue)

def check (s : Running) : Running :=
  { s with point := if s.endSignal then .returned .eSuccess [] else .accepting }

def accept (s : Running) (poll : PollResult) (accepted : Bool) : Running :=
  match Socket.accept poll accepted with
  | .ok () => { s with point := .serving s.accepted .polling, accepted := s.accepted + 1 }
  | .error (.eNothingToAccept, _) => { s with point := .top }
  | .error (_, errors) => s.fail ((some .eFailure, "Can't accept client socket") :: errors)

/-- What a call on the socket of `connection` leads to. -/
def called (s : Running) (connection : Nat) : Except Errors (Option Serving) → Running
  | .error errors => s.fail errors
  | .ok none => { s with point := .top, silent := connection :: s.silent }
  | .ok (some point) => { s with point := .serving connection point }

def handle (s : Running) (connection : Nat) (request : Str) : Running :=
  match handleRequest s.queue connection with
  | (.error errors, queue) =>
      { s with queue := queue }.fail ((some .eFailure, "Can't handle request") :: errors)
  | (.ok (), queue) =>
      { s with point := .top, queue := queue, handed := (connection, request) :: s.handed }

def step (s : Running) : Action → Option Running
  | .listen success =>
      if s.point = .listening then
        some (if success then { s with point := .top }
          else s.fail [(some .eFailure, "Can't listen to server socket"), (some .eFailure, "Can't listen socket")])
      else none
  | .check => if s.point = .top then some s.check else none
  | .accept poll accepted => if s.point = .accepting then some (s.accept poll accepted) else none
  | .call call =>
      match s.point with
      | .serving connection point => (point.next call).map (s.called connection)
      | _ => none
  | .handleRequest =>
      match s.point with
      | .serving connection (.handling request) => some (s.handle connection request)
      | _ => none
  | .signal => some { s with endSignal := true }
  | .push priority job => some { s with queue := (s.queue.push priority job).2 }
  | .pop => some { s with queue := s.queue.pop.2 }

/-- A failure of the server itself. -/
def OwnSocket (errors : Errors) : Prop :=
  errors.head? = some (some .eFailure, "Can't listen to server socket") ∨
    errors.head? = some (some .eFailure, "Can't accept client socket")

instance (errors : Errors) : Decidable (OwnSocket errors) := inferInstanceAs (Decidable (_ ∨ _))

/-- No call on a client's socket goes wrong, and no request meets a full ring of `eMedium`. -/
def harmless (s : Running) : Action → Bool
  | .call call =>
      match s.point with
      | .serving _ point => point.harmless call
      | _ => true
  | .handleRequest => (s.queue.queues .eMedium).size < fpJobQueueSize
  | _ => true

/-- `run` has returned on account of a client. -/
def Stopped (s : Running) : Prop :=
  ∃ errors, s.point = .returned .eFailure errors ∧ ¬ OwnSocket errors

/-! ## One step -/

def Valid (s : Running) : Prop := ∃ lists, JobQueue.Represents s.queue lists

inductive Step (s : Running) : Action → Running → Prop
  /-- The thread deals with the server's socket or reads `s_endSignal`. -/
  | own (action : Action) (point : RunPoint) (free : ∀ connection p, s.point ≠ .serving connection p)
      (stays : ∀ result errors, s.point ≠ .returned result errors)
      (exit : ∀ result errors, point = .returned result errors →
        (result = .eSuccess ∧ s.endSignal = true) ∨ OwnSocket errors)
      (harmless : s.harmless action = true) :
      Step s action { s with point := point }
  | accepted (poll : PollResult) (accepted : Bool) (free : s.point = .accepting) :
      Step s (.accept poll accepted)
        { s with point := .serving s.accepted .polling, accepted := s.accepted + 1 }
  | called (connection : Nat) (point : Serving) (call : Call)
      (result : Except Errors (Option Serving)) (serving : s.point = .serving connection point)
      (next : point.next call = some result) : Step s (.call call) (s.called connection result)
  | handled (connection : Nat) (request : Str)
      (serving : s.point = .serving connection (.handling request)) :
      Step s .handleRequest (s.handle connection request)
  | other (action : Action) (endSignal : Bool) (queue : JobQueue (Work Nat))
      (signal : s.endSignal = true → endSignal = true)
      (valid : s.Valid → ∃ lists, JobQueue.Represents queue lists)
      (harmless : s.harmless action = true) :
      Step s action { s with endSignal := endSignal, queue := queue }

theorem valid_push {queue : JobQueue (Work Nat)} (h : ∃ lists, JobQueue.Represents queue lists)
    (priority : JobPriority) (job : Work Nat) :
    ∃ lists, JobQueue.Represents (queue.push priority job).2 lists := by
  obtain ⟨lists, hq⟩ := h
  exact ⟨_, (JobQueue.push_represents hq priority job).2⟩

theorem step_cases {s t : Running} {a : Action} (h : s.step a = some t) : Step s a t := by
  cases a with
  | listen success =>
      obtain ⟨hpoint, h⟩ := Option.ite_none_right_eq_some.mp h
      obtain rfl := Option.some.inj h
      cases success with
      | true => exact .own _ .top (by simp [hpoint]) (by simp [hpoint]) nofun rfl
      | false =>
          refine .own _ _ (by simp [hpoint]) (by simp [hpoint]) (fun result errors hexit => ?_) rfl
          obtain ⟨-, rfl⟩ := RunPoint.returned.inj hexit
          exact .inr (.inl rfl)
  | check =>
      obtain ⟨hpoint, h⟩ := Option.ite_none_right_eq_some.mp h
      obtain rfl := Option.some.inj h
      refine .own _ _ (by simp [hpoint]) (by simp [hpoint]) (fun result errors hexit => ?_) rfl
      split at hexit
      · next hsignal =>
          obtain ⟨rfl, -⟩ := RunPoint.returned.inj hexit
          exact .inl ⟨rfl, hsignal⟩
      · cases hexit
  | accept poll accepted =>
      obtain ⟨hpoint, h⟩ := Option.ite_none_right_eq_some.mp h
      obtain rfl := Option.some.inj h
      unfold accept
      split
      · exact .accepted poll accepted hpoint
      · exact .own _ .top (by simp [hpoint]) (by simp [hpoint]) nofun rfl
      · refine .own _ _ (by simp [hpoint]) (by simp [hpoint]) (fun result errors hexit => ?_) rfl
        obtain ⟨-, rfl⟩ := RunPoint.returned.inj hexit
        exact .inr (.inr rfl)
  | call call =>
      simp only [step] at h
      split at h
      · next connection point hpoint =>
          obtain ⟨result, hnext, rfl⟩ := Option.map_eq_some_iff.mp h
          exact .called connection point call result hpoint hnext
      · cases h
  | handleRequest =>
      simp only [step] at h
      split at h
      · next connection request hpoint =>
          obtain rfl := Option.some.inj h
          exact .handled connection request hpoint
      · cases h
  | signal =>
      obtain rfl := Option.some.inj h
      exact .other .signal true s.queue (fun _ => rfl) id rfl
  | push priority job =>
      obtain rfl := Option.some.inj h
      exact .other (.push priority job) s.endSignal _ id (fun hs => valid_push hs priority job) rfl
  | pop =>
      obtain rfl := Option.some.inj h
      refine .other .pop s.endSignal _ id (fun ⟨lists, hq⟩ => ?_) rfl
      exact ⟨_, (JobQueue.pop_represents hq).2⟩

theorem handle_eq (s : Running) (connection : Nat) (request : Str) :
    s.handle connection request =
      let (result, queue) := s.queue.push .eMedium (.request connection)
      if result = .eSuccess then
        { s with point := .top, queue := queue, handed := (connection, request) :: s.handed }
      else
        { s with queue := queue }.fail
          [(some .eFailure, "Can't handle request"), (some .eFailure, "Can't push job to job queue")] := by
  unfold handle handleRequest
  by_cases h : (s.queue.push .eMedium (.request connection)).1 = .eSuccess
  · simp [h]
  · simp [h]

theorem valid_step {s t : Running} {a : Action} (h : Valid s) (hstep : s.step a = some t) :
    Valid t := by
  cases step_cases hstep with
  | own action point free stays exit harmless => exact h
  | accepted poll accepted free => exact h
  | called connection point call result serving next =>
      rcases result with errors | _ | point
      · exact h
      · exact h
      · exact h
  | handled connection request serving =>
      have hpush := valid_push h .eMedium (.request connection)
      rw [handle_eq]
      dsimp only
      split
      · exact hpush
      · exact hpush
  | other action endSignal queue signal valid harmless => exact valid h

/-- A `poll` that finds data, and one that finds nothing. -/
def dataThere : PollResult := .revents true false false false

def nothingThere : PollResult := .revents false false false false

end Running

end Fipper

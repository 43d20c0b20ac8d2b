import Fipper.Server.Message
import Fipper.Server.Run

/-!
# What the clients can do to the server

The accept loop together with the jobs that the workers execute. A job writes to the socket of a client, and
nothing keeps SIGPIPE from ending the process; nor does anything keep a job from ending it whose behaviour is
undefined.

* `ServerProcess.step` : the transition system;
* `fatal` : the jobs that end the process;
* `Survives` : `run` goes on, or has returned for a reason of its own, and the process is there;
* `survives_iff` : it does exactly if no client does what `harmless` excludes.
-/

namespace Fipper

open Lib

/-- How `::send` goes. -/
inductive SendResult
  | sent
  | failed
  /-- The client has closed the connection: `EPIPE`, and SIGPIPE for the process. -/
  | brokenPipe
  deriving DecidableEq, Repr

/-- How the job goes that resumes a coroutine: the handler awaits again, or its response is sent. -/
inductive Resumed
  | suspended
  | answered (result : SendResult)
  /-- The handler ends the process, or its behaviour is undefined. -/
  | terminated
  deriving DecidableEq, Repr

/-- The accept loop with the job queue, the jobs that the workers have taken, and whether the process has
ended. -/
structure ServerProcess where
  loop : Running
  working : List (Work Nat)
  ended : Bool

/-- A step that takes no job, and pushes none for a connection. -/
def Running.Action.plain : Running.Action → Bool
  | .pop | .push _ (.request _) => false
  | _ => true

namespace ServerProcess

inductive Action
  | loop (action : Running.Action)
  /-- A worker takes a job. -/
  | take
  /-- It executes the job of a connection. `awaits` says whether the handler comes to an await, where the job begins a
  coroutine. -/
  | answer (connection : Nat) (result : SendResult) (awaits : Bool)
  /-- It executes a resume job. -/
  | resume (awaiter : Nat) (resumed : Resumed)

def start : ServerProcess := ⟨.start, [], false⟩

/-- The request that the job of a connection has. -/
def request (s : ServerProcess) (connection : Nat) : Str := (s.loop.handed.lookup connection).getD []

section
variable {E V : Type} [RouteStringExtractor E V] {B R : Type}
variable (endpoints : List (Entry E (Callback V B R))) (comesBack : Bool)

/-- The job ends the process. -/
def fatal (s : ServerProcess) : Action → Bool
  | .answer connection result awaits =>
      match Server.handleRequest endpoints comesBack (s.request connection) with
      | .error _ => true
      | .ok (_, .sent _) => result = .brokenPipe
      -- an empty callback is called
      | .ok (_, .driving) => !awaits
  | .resume _ resumed => resumed = .terminated || resumed = .answered .brokenPipe
  | _ => false

/-- A worker has executed the job. -/
def execute (s : ServerProcess) (job : Work Nat) (fatal : Bool) : Option ServerProcess :=
  if s.working.contains job then some { s with working := s.working.erase job, ended := fatal } else none

def step (s : ServerProcess) (a : Action) : Option ServerProcess :=
  if s.ended then none
  else
    match a with
    | .loop action =>
        if action.plain then (s.loop.step action).map fun loop => { s with loop := loop } else none
    | .take =>
        (s.loop.step .pop).map fun loop =>
          { s with loop := loop, working := s.loop.queue.pop.1.toList ++ s.working }
    | .answer connection _ _ => s.execute (.request connection) (s.fatal endpoints comesBack a)
    | .resume awaiter _ => s.execute (.resume awaiter) (s.fatal endpoints comesBack a)

/-- The accept loop survives the step, and so does the process. -/
def harmless (s : ServerProcess) : Action → Bool
  | .loop action => s.loop.harmless action
  | a => !s.fatal endpoints comesBack a

end

/-- A client has ended `run` or the process. -/
def Stopped (s : ServerProcess) : Prop := s.loop.Stopped ∨ s.ended = true

variable {E V : Type} [RouteStringExtractor E V] {B R : Type}
variable {endpoints : List (Entry E (Callback V B R))} {comesBack : Bool}
variable {s t : ServerProcess} {a : Action}

/-- What one step can do: one of the accept loop, or the end of a job. -/
theorem step_cases (h : s.step endpoints comesBack a = some t) :
    s.ended = false ∧
      ((∃ action, s.loop.step action = some t.loop ∧ t.ended = false ∧
          s.harmless endpoints comesBack a = s.loop.harmless action) ∨
        (t.loop = s.loop ∧ t.ended = s.fatal endpoints comesBack a ∧
          s.harmless endpoints comesBack a = !s.fatal endpoints comesBack a)) := by
  obtain ⟨hended, h⟩ := Option.ite_none_left_eq_some.mp h
  have hended := Bool.eq_false_of_not_eq_true hended
  refine ⟨hended, ?_⟩
  cases a with
  | loop action =>
      obtain ⟨-, h⟩ := Option.ite_none_right_eq_some.mp h
      obtain ⟨loop, hloop, rfl⟩ := Option.map_eq_some_iff.mp h
      exact .inl ⟨action, hloop, hended, rfl⟩
  | take =>
      obtain ⟨loop, hloop, rfl⟩ := Option.map_eq_some_iff.mp h
      exact .inl ⟨.pop, hloop, hended, rfl⟩
  | answer connection result awaits =>
      obtain ⟨-, h⟩ := Option.ite_none_right_eq_some.mp h
      obtain rfl := Option.some.inj h
      exact .inr ⟨rfl, rfl, rfl⟩
  | resume awaiter resumed =>
      obtain ⟨-, h⟩ := Option.ite_none_right_eq_some.mp h
      obtain rfl := Option.some.inj h
      exact .inr ⟨rfl, rfl, rfl⟩

theorem valid_step (hs : s.loop.Valid) (h : s.step endpoints comesBack a = some t) : t.loop.Valid := by
  obtain ⟨-, ⟨action, hloop, -⟩ | ⟨hloop, -⟩⟩ := step_cases h
  · exact Running.valid_step hs hloop
  · rw [hloop]
    exact hs

/-- A client connects and sends `request`, which is handed over. -/
def arriving (request : Str) : List Action :=
  [.loop .check, .loop (.accept Running.dataThere true), .loop (.call (.poll Running.dataThere)),
    .loop (.call (.poll Running.dataThere)), .loop (.call (.recv (some request))),
    .loop (.call (.poll Running.nothingThere)), .loop .handleRequest]

/-- A client is answered, one is silent, and one has gone when its answer comes; then the signal. -/
def served : List Action :=
  .loop (.listen true) :: arriving "GET / HTTP/1.1".toList ++ [.take, .answer 0 .sent true, .loop .check,
    .loop (.accept Running.dataThere true), .loop (.call (.poll Running.nothingThere))] ++
      arriving "HEAD / HTTP/1.1".toList ++ [.take, .answer 2 .failed true, .loop .signal, .loop .check]

/-- A client sends a request and closes the connection before the answer. -/
def closing : List Action :=
  .loop (.listen true) :: arriving "GET / HTTP/1.1".toList ++ [.take, .answer 0 .brokenPipe true]

/-- `GET /{name}`. -/
def greeting : Endpoint StringExtractor (Callback Str Unit Str) :=
  ⟨.eGet, .params ⟨"/{name}".toList, ["name".toList], [{}], ⟨[{}], nofun, rfl⟩⟩, none,
    fun _ => .void { body := "Hello".toList }, some fun body => some ⟨body, .ePlain⟩, false, false⟩

end ServerProcess

end Fipper

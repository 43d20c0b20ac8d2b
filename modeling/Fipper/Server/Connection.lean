import Fipper.Util.ErrorStack

/-!
# One client connection in `Server::run`

The system calls that `run` makes on the socket of a client, one at a time and with any results:
`hasDataToRecieve` of the loop, then `Socket::recieve` with its own poll and its loop of `recv` and
`poll`. A failing call leaves its messages on the error stack, the latest first.

* `hasDataToRecieve`, `accept` : what `fp::Socket` makes of the results;
* `Serving` : the points of the loop body; `Serving.next` : what one system call leads to.
-/

namespace Fipper

/-- What a call has pushed on the error stack, the latest first: each text with the `fp::Result` that it was
pushed with, if it was one. -/
abbrev Errors := List (Option Result × String)

/-- The messages that are on the stack then. -/
def Errors.messages (errors : Errors) : List Str :=
  errors.map fun error => ErrorStack.message error.1 error.2.toList

/-- What `poll` on one descriptor returns: a failure, interrupted or not, or its `revents`. -/
inductive PollResult
  | failed (eintr : Bool)
  | revents (pollin pollerr pollhup pollnval : Bool)
  deriving DecidableEq, Repr

namespace PollResult

/-- The call failed, or there is an error, a hang-up or an invalid descriptor. -/
def broken : PollResult → Bool
  | failed eintr => !eintr
  | revents _ pollerr pollhup pollnval => pollerr || pollhup || pollnval

/-- There is something to read, and nothing wrong. -/
def readable : PollResult → Bool
  | failed _ => false
  | revents pollin pollerr pollhup pollnval => pollin && !(pollerr || pollhup || pollnval)

end PollResult

namespace Socket

/-- The size of the buffer, from `recieve<BUFFER_SIZE = 1024>`. -/
def bufferSize : Nat := 1024

def hasDataToRecieve : PollResult → Except Errors Bool
  | .failed eintr => if eintr then .ok false else .error [(none, "Can't poll socket for reading")]
  | .revents pollin pollerr pollhup pollnval =>
      if pollerr || pollhup || pollnval then .error [(none, "Can't poll socket for reading")] else .ok pollin

/-- `accept`, with the results of its `poll` and, if it comes to that, of `::accept`. -/
def accept (poll : PollResult) (accepted : Bool) : Except (Result × Errors) Unit :=
  match hasDataToRecieve poll with
  | .error errors => .error (.eFailure, (none, "Can't check for socket to accept") :: errors)
  | .ok false => .error (.eNothingToAccept, [])
  | .ok true => if accepted then .ok () else .error (.eFailure, [(none, "Can't accept socket")])

end Socket

/-- Where `run` is with a client. -/
inductive Serving
  /-- At `clientSocket.hasDataToRecieve(1000ms)`. -/
  | polling
  /-- In `recieve`, at its first poll. -/
  | recieving
  /-- In the loop of `recieve`, at `recv`. -/
  | recv (data : Str)
  /-- In the loop of `recieve`, at the poll after `recv` has returned `written`. -/
  | more (data : Str) (written : Nat)
  | handling (request : Str)
  deriving DecidableEq, Repr

/-- A system call on the client's socket, with its result; `recv` fails with `none`. -/
inductive Call
  | poll (result : PollResult)
  | recv (result : Option Str)
  deriving DecidableEq, Repr

namespace Serving

/-- `if (!requestWithError)`: what `run` adds to the errors of `recieve`. -/
def cantRead {α : Type} (errors : Errors) : Except Errors α :=
  .error ((some .eFailure, "Can't read data for client socket") :: errors)

/-- The poll of `run`: on to `recieve`, or `continue`. -/
def afterPolling (result : PollResult) : Except Errors (Option Serving) :=
  match Socket.hasDataToRecieve result with
  | .error errors => .error ((some .eFailure, "Can't check read data for client socket") :: errors)
  | .ok false => .ok none
  | .ok true => .ok (some recieving)

/-- The first poll of `recieve`. That there is nothing to recieve is an error for `run`. -/
def afterRecieving (result : PollResult) : Except Errors (Option Serving) :=
  match Socket.hasDataToRecieve result with
  | .error errors =>
      cantRead ((none, "Can't check for recievablity of socket before recieving") :: errors)
  | .ok false => cantRead []
  | .ok true => .ok (some (recv []))

def afterRecv (data : Str) : Option Str → Except Errors (Option Serving)
  | none => cantRead [(none, "Can't recieve data from socket")]
  | some bytes => .ok (some (more (data ++ bytes) bytes.length))

/-- The poll at the end of the loop: `while (*dataToRecieve && written != 0)`. -/
def afterMore (data : Str) (written : Nat) (result : PollResult) : Except Errors (Option Serving) :=
  match Socket.hasDataToRecieve result with
  | .error errors =>
      cantRead ((none, "Can't check if more data is available in socket for recieving") :: errors)
  | .ok dataToRecieve =>
      .ok (some (if dataToRecieve && written ≠ 0 then recv data else handling data))

/-- What a call leads to, if it is the one that is made at this point: an error for which `run`
returns, the next point, or `none` for `continue`. -/
def next : Serving → Call → Option (Except Errors (Option Serving))
  | polling, .poll result => some (afterPolling result)
  | recieving, .poll result => some (afterRecieving result)
  | recv data, .recv result => some (afterRecv data result)
  | more data written, .poll result => some (afterMore data written result)
  | _, _ => none

/-- The calls that don't make `run` return. -/
def harmless : Serving → Call → Bool
  | polling, .poll result => !result.broken
  | recieving, .poll result => result.readable
  | recv _, .recv result => result.isSome
  | more _ _, .poll result => !result.broken
  | _, _ => true

theorem head_of_next_error {point : Serving} {call : Call} {errors : Errors}
    (h : point.next call = some (.error errors)) :
    errors.head? = some (some .eFailure, "Can't check read data for client socket") ∨
      errors.head? = some (some .eFailure, "Can't read data for client socket") := by
  unfold next at h
  split at h
  · have h := Option.some.inj h
    unfold afterPolling at h
    split at h <;> cases h
    exact .inl rfl
  · have h := Option.some.inj h
    unfold afterRecieving at h
    split at h <;> cases h
    · exact .inr rfl
    · exact .inr rfl
  · have h := Option.some.inj h
    unfold afterRecv at h
    split at h <;> cases h
    exact .inr rfl
  · have h := Option.some.inj h
    unfold afterMore at h
    split at h <;> cases h
    exact .inr rfl
  · cases h

end Serving

end Fipper

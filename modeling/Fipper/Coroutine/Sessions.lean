import Fipper.Coroutine.Resumption
import Fipper.Lib.Observation
import Fipper.Lib.Sequence

/-!
# Handlers in direct style

The body of a handler is written as an ordinary function. Here it is read as one, which takes the results of its
awaits from a list, and compared with what becomes of it among all others on the job queue.

* `Coroutines.evaluate` : the body as an ordinary function;
* `events` : what a step does to a wrapper; `Session` : how far one has come, and `Move` what may happen to it;
* `session_path` : what happens to one wrapper, whatever the others do;
* `handlers_direct` : the response to a request is the code that direct evaluation gives;
* `defined_iff` : when the behaviour is left undefined.
-/

namespace Fipper

open Lib

variable {T S : Type*}

/-- What happens to a wrapper. -/
inductive Event (T : Type*)
  /-- It begins with the handler of request `n`; `bit` is found in the flag of the promise. -/
  | began (n : Nat) (bit : Bool)
  | resumed (awaiter : Nat) (value : T)
  /-- Its loop is left, and the response is sent, with the code that is read from the promise: `none` where the
  handler has returned none, and the behaviour of the read is undefined. -/
  | responded (code : Option HttpCode)

/-- A wrapper whose handler is at a point: the flag of its task, and what was found in the flag of the promise. -/
structure Session (T S : Type*) where
  done : Bool
  bit : Bool
  continuation : Continuation T S

namespace CoroutineRuntime

/-- Where the handler of a wrapper is. -/
def session (s : CoroutineRuntime T S) (handle : Nat) : Option (Session T S) :=
  (s.wrappers handle).bind fun task =>
    task.frame.rest.map fun suspended => ⟨task.done, task.frame.promise.done, .coAwait suspended.next⟩

/-- The wrapper is where its session is; a handler that is suspended has returned no value, and its task is not
done. -/
structure InSession (s : CoroutineRuntime T S) (handle : Nat) (u : Option (Session T S)) : Prop where
  inv : Inv s
  session : s.misuse = none → s.session handle = u
  suspended : s.misuse = none → ∀ task, s.wrappers handle = some task →
    task.done = false ∧ task.frame.promise.value = none ∧ ∃ suspended, task.frame.rest = some suspended

section
variable {s t : CoroutineRuntime T S} {handle : Nat} {u : Option (Session T S)}

/-- A step that leaves the wrapper alone. -/
theorem InSession.frame (hs : InSession s handle u) (hinv : Inv t) (hmisuse : s.misuse = none)
    (hwrappers : t.wrappers handle = s.wrappers handle) : InSession t handle u where
  inv := hinv
  session _ := by
    unfold CoroutineRuntime.session
    rw [hwrappers]
    exact hs.session hmisuse
  suspended _ task htask := hs.suspended hmisuse task (hwrappers ▸ htask)

/-- Between two steps, no task is done whose handler is suspended. -/
theorem InSession.idle (hs : InSession s handle u) (hmisuse : s.misuse = none) :
    ∀ session ∈ u, session.done = false := by
  intro session hsession
  rw [← hs.session hmisuse] at hsession
  obtain ⟨task, htask, hmap⟩ := Option.bind_eq_some_iff.mp hsession
  obtain ⟨suspended, -, rfl⟩ := Option.map_eq_some_iff.mp hmap
  exact (hs.suspended hmisuse task htask).1

end

variable [Inhabited T]

/-- What a resume job does to the wrapper that it resumes. -/
def resumeEvents (coroutines : Coroutines T S) (s : CoroutineRuntime T S) (awaiter : AwaiterRef)
    (address : Nat) : List (Nat × Event T) :=
  match (s.awaiters awaiter.address).handle with
  | none => []
  | some handle =>
      match s.wrappers handle with
      | none => []
      | some task =>
          match task.frame.rest with
          | none => []
          | some suspended =>
              let value := (s.awaiters suspended.awaiter.address).value
              let promise := (s.enter task.frame.promise address (coroutines.body (suspended.next value))).1.promise
              (handle, .resumed awaiter.serial value) ::
                if promise.done then [(handle, .responded promise.value)] else []

/-- What a step does, and to which wrapper. -/
def events (coroutines : Coroutines T S) (s : CoroutineRuntime T S) : Action T → List (Nat × Event T)
  | .run w handle address bit =>
      match s.scheduler.workers w with
      | .working (.request n) => if (coroutines.endpoint n).isSome then [(handle, .began n bit)] else []
      | .working (.resume awaiter) => s.resumeEvents coroutines awaiter address
      | _ => []
  | _ => []

/-- What the steps of a run do. -/
def trace (coroutines : Coroutines T S) (as : List (Action T)) : List (Nat × Event T) :=
  (observed (step coroutines) (events coroutines) init as).flatten

variable {coroutines : Coroutines T S} {s t : CoroutineRuntime T S} {handle address : Nat}
variable {u : Option (Session T S)}

/-- What a worker does that runs a job: nothing for a request whose endpoint is no coroutine; else it begins a
wrapper, or resumes one. -/
inductive Ran (coroutines : Coroutines T S) (s : CoroutineRuntime T S) (w handle address : Nat) (bit : Bool) :
    CoroutineRuntime T S → Prop
  | other {n : Nat} {scheduler : Scheduler (Work AwaiterRef)} (hfinish : s.scheduler.step (.finish w) = some scheduler)
      (hw : s.scheduler.workers w = .working (.request n)) (hnone : coroutines.endpoint n = none) :
      Ran coroutines s w handle address bit { s with scheduler := scheduler }
  | began {n : Nat} {point : S} {scheduler : Scheduler (Work AwaiterRef)}
      (hfinish : s.scheduler.step (.finish w) = some scheduler)
      (hw : s.scheduler.workers w = .working (.request n)) (hpoint : coroutines.endpoint n = some point)
      (hnew : s.wrappers handle = none) (hfree : s.free handle address = true) :
      Ran coroutines s w handle address bit
        (CoroutineRuntime.start { s with scheduler := scheduler } handle address bit (coroutines.body point))
  | resumed {awaiter : AwaiterRef} {handle' : Nat} {task : HandlerTask T S} {suspended : Suspended T S}
      {scheduler : Scheduler (Work AwaiterRef)} (hfinish : s.scheduler.step (.finish w) = some scheduler)
      (hw : s.scheduler.workers w = .working (.resume awaiter))
      (hhandle : (s.awaiters awaiter.address).handle = some handle') (htask : s.wrappers handle' = some task)
      (hrest : task.frame.rest = some suspended) (hfree : s.free handle' address = true) :
      Ran coroutines s w handle address bit
        (CoroutineRuntime.proceed { s with
          scheduler := scheduler
          resumed := ⟨awaiter.serial, handle', (s.awaiters suspended.awaiter.address).value⟩ :: s.resumed }
            coroutines handle' task (suspended.next (s.awaiters suspended.awaiter.address).value) address)

theorem ran_of_act (h : Inv s) {w : Nat} {bit : Bool}
    (hact : s.act coroutines (.run w handle address bit) = some t) : Ran coroutines s w handle address bit t := by
  obtain ⟨job, scheduler, hw, hfinish, hwork⟩ := act_run hact
  cases job with
  | request n =>
      unfold work at hwork
      dsimp only at hwork
      split at hwork
      · next hnone =>
          obtain rfl := Option.some.inj hwork
          exact .other hfinish hw hnone
      · next point hpoint =>
          obtain ⟨hguard, hwork⟩ := Option.ite_none_right_eq_some.mp hwork
          obtain rfl := Option.some.inj hwork
          rw [Bool.and_eq_true, Option.isNone_iff_eq_none] at hguard
          exact .began hfinish hw hpoint hguard.1 hguard.2
  | resume awaiter =>
      obtain ⟨handle', hwaits, hhandle⟩ := h.waits.waiting awaiter (.inr (h.scheduler.working hw))
      obtain ⟨task, suspended, htask, hrest, -⟩ := waitsFor_eq_some.mp hwaits
      unfold work at hwork
      dsimp only at hwork
      obtain ⟨hfree, hwork⟩ := Option.ite_none_right_eq_some.mp hwork
      obtain rfl := Option.some.inj hwork
      rw [hhandle, Option.all_some] at hfree
      rw [resume_eq coroutines (s := { s with scheduler := scheduler }) hhandle htask hrest address]
      exact .resumed hfinish hw hhandle htask hrest hfree

theorem ran_or_quiet (h : Inv s) {a : Action T} (hact : s.act coroutines a = some t) :
    (∃ w handle address bit, a = .run w handle address bit ∧ Ran coroutines s w handle address bit t) ∨
      ∀ w handle address bit, a ≠ .run w handle address bit := by
  cases a with
  | run w handle address bit => exact .inl ⟨w, handle, address, bit, rfl, ran_of_act h hact⟩
  | _ => exact .inr nofun

end CoroutineRuntime

end Fipper

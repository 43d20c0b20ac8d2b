import Fipper.Coroutine.Completion
import Fipper.Coroutine.Driver

/-!
# Endpoint coroutines on the job queue

Any number of asynchronous endpoints at once. A request job starts the wrapper coroutine
(`Endpoint<Func>::handleRequest`) and the coroutine of the handler; an awaiter lives in the frame of the
handler that waits for it, and everything that travels (callback, process, resume job) has only its
address; a resume job resumes whatever handle it finds there. Addresses and handles are given out again
when what was there is gone.

* `step` : requests, completions and the threads of the scheduler, in any order;
* `Continues` : what running a wrapper on can do, from one suspension to the next;
* `Completes` : what a completion does.
-/

namespace Fipper

open Lib

/-- A pointer to an awaiter. The code has the address only; `serial` says which of all awaiters it is, and
no function reads it. -/
structure AwaiterRef where
  address : Nat
  serial : Nat
  deriving DecidableEq, Repr

/-- How the body of a handler goes on from a point: to its end, or to an await, after which it is at the
point that the value leads to. -/
inductive Continuation (T S : Type*)
  | coReturn (code : HttpCode)
  | coAwait (next : T → S)

/-- The coroutines of a server: where the handler of a request begins, if it is a coroutine, and how
handlers go on. -/
structure Coroutines (T S : Type*) where
  endpoint : Nat → Option S
  body : S → Continuation T S

/-- A handler in `co_await`: the awaiter in its frame, and what it does with the value. -/
structure Suspended (T S : Type*) where
  awaiter : AwaiterRef
  next : T → S

/-- The frame of a handler: its promise, and where it is suspended, `none` at the final suspend. -/
structure HandlerFrame (T S : Type*) where
  promise : EndpointPromise AwaiterRef
  rest : Option (Suspended T S)

/-- `fp::coroutines::EndpointTask`, with the frame behind `m_handle`. -/
structure HandlerTask (T S : Type*) where
  done : Bool
  frame : HandlerFrame T S

/-- A resumption: of which awaiter, of which wrapper, and the value the `co_await` of its handler yields. -/
structure Resumption (T : Type*) where
  awaiter : Nat
  handle : Nat
  value : T

/-- The scheduler; the awaiters by address, the wrappers by handle and all handles there have been; the
processes that have been started and have not completed; how many awaiters there have been; what was
passed to `complete`, by awaiter, and the resumptions, the latest first. -/
structure CoroutineRuntime (T S : Type*) where
  scheduler : Scheduler (Work AwaiterRef)
  awaiters : Nat → AsyncAwaiter T
  wrappers : Nat → Option (HandlerTask T S)
  handles : List Nat
  running : List AwaiterRef
  created : Nat
  completed : List (Nat × T)
  resumed : List (Resumption T)
  misuse : Option Misuse

namespace CoroutineRuntime
variable {T S : Type*}

inductive Action (T : Type*)
  /-- The process of an awaiter calls `complete(value)`, as producer `p`, and constructs the guard. -/
  | complete (p : Nat) (awaiter : AwaiterRef) (value : T)
  /-- Producer `p` constructs the guard to push a request. -/
  | request (p n : Nat)
  | thread (action : Scheduler.Action (Work AwaiterRef))
  /-- Worker `w` runs its job. A new wrapper gets `handle`, a new awaiter `address`, and `bit` is found in
  the flag of a new promise. -/
  | run (w handle address : Nat) (bit : Bool)

/-- The awaiter that the handler of a wrapper is suspended on. -/
def waitsFor (s : CoroutineRuntime T S) (handle : Nat) : Option AwaiterRef :=
  ((s.wrappers handle).bind (·.frame.rest)).map (·.awaiter)

theorem waitsFor_of_none {s : CoroutineRuntime T S} {handle : Nat} (h : s.wrappers handle = none) :
    s.waitsFor handle = none := by
  rw [waitsFor, h]
  rfl

theorem waitsFor_eq_some {s : CoroutineRuntime T S} {handle : Nat} {awaiter : AwaiterRef} :
    s.waitsFor handle = some awaiter ↔ ∃ task suspended, s.wrappers handle = some task ∧
      task.frame.rest = some suspended ∧ suspended.awaiter = awaiter := by
  rw [waitsFor, Option.map_eq_some_iff]
  simp only [Option.bind_eq_some_iff]
  constructor
  · rintro ⟨suspended, ⟨task, htask, hrest⟩, hawaiter⟩
    exact ⟨task, suspended, htask, hrest, hawaiter⟩
  · rintro ⟨task, suspended, htask, hrest, hawaiter⟩
    exact ⟨suspended, ⟨task, htask, hrest⟩, hawaiter⟩

theorem waitsFor_congr {s t : CoroutineRuntime T S} {handle : Nat}
    (h : t.wrappers handle = s.wrappers handle) : t.waitsFor handle = s.waitsFor handle := by
  rw [waitsFor, waitsFor, h]

/-- No other wrapper than `handle` has the awaiter of its handler at `address`. -/
def free (s : CoroutineRuntime T S) (handle address : Nat) : Bool :=
  s.handles.all fun other => other == handle || (s.waitsFor other).all (·.address != address)

/-- The wrapper at the head of its loop; when it is through, its frame is gone. -/
def loop (s : CoroutineRuntime T S) (handle : Nat) (task : HandlerTask T S) : CoroutineRuntime T S :=
  if task.done then { s with wrappers := Function.update s.wrappers handle none }
  else
    -- `co_await task`: `EndpointAwaiter::await_suspend` calls the callback
    match task.frame.promise.awaiterCallback with
    | none => { s with misuse := some .emptyCallback }
    | some awaiter =>
        let promise := { task.frame.promise with awaiterCallback := none }
        let task := { task with frame := { task.frame with promise := promise } }
        let value := (s.awaiters awaiter.address).value
        { s with
          wrappers := Function.update s.wrappers handle (some task)
          awaiters := Function.update s.awaiters awaiter.address ⟨value, some handle⟩
          running := awaiter :: s.running }

section
variable [Inhabited T]

def init : CoroutineRuntime T S :=
  ⟨.init, fun _ => ⟨default, none⟩, fun _ => none, [], [], 0, [], [], none⟩

/-- The body runs to its next suspension, and constructs the awaiter there. -/
def enter (s : CoroutineRuntime T S) (promise : EndpointPromise AwaiterRef) (address : Nat) :
    Continuation T S → HandlerFrame T S × CoroutineRuntime T S
  -- `return_value`, then `final_suspend`
  | .coReturn code => (⟨{ promise with value := some code, done := true }, none⟩, s)
  -- `AsyncAwaiter::AsyncAwaiter`, then `await_transform`
  | .coAwait next =>
      let awaiter : AwaiterRef := ⟨address, s.created⟩
      let awaiters := Function.update s.awaiters address ⟨default, none⟩
      (⟨{ promise with awaiterCallback := some awaiter }, some ⟨awaiter, next⟩⟩,
        { s with awaiters := awaiters, created := s.created + 1 })

/-- `Endpoint<Func>::handleRequest` of a coroutine. -/
def start (s : CoroutineRuntime T S) (handle address : Nat) (bit : Bool)
    (continuation : Continuation T S) : CoroutineRuntime T S :=
  let s := { s with handles := handle :: s.handles }
  let (frame, s) := s.enter ⟨bit, none, none⟩ address continuation
  s.loop handle ⟨false, frame⟩

/-- The handler goes on at `point` (`EndpointTask::resume`), then the wrapper with its loop. -/
def proceed (s : CoroutineRuntime T S) (coroutines : Coroutines T S) (handle : Nat) (task : HandlerTask T S)
    (point : S) (address : Nat) : CoroutineRuntime T S :=
  let (frame, s) := s.enter task.frame.promise address (coroutines.body point)
  s.loop handle ⟨frame.promise.done, frame⟩

/-- `m_handle.resume()`: the wrapper goes on with `EndpointAwaiter::await_resume`, and the handler with what
`AsyncAwaiter::await_resume` returns. -/
def resume (coroutines : Coroutines T S) (s : CoroutineRuntime T S) (awaiter : AwaiterRef)
    (address : Nat) : CoroutineRuntime T S :=
  match (s.awaiters awaiter.address).handle with
  | none => { s with misuse := some .resumedFinished }
  | some handle =>
      match s.wrappers handle with
      | none => { s with misuse := some .resumedFinished }
      | some task =>
          match task.frame.rest with
          | none => { s with misuse := some .resumedFinished }
          | some suspended =>
              let value := (s.awaiters suspended.awaiter.address).value
              let s := { s with resumed := ⟨awaiter.serial, handle, value⟩ :: s.resumed }
              s.proceed coroutines handle task (suspended.next value) address

/-- The work of a job; `none` where the storage given to it is in use. -/
def work (coroutines : Coroutines T S) (s : CoroutineRuntime T S) (handle address : Nat) (bit : Bool) :
    Work AwaiterRef → Option (CoroutineRuntime T S)
  | .request n =>
      match coroutines.endpoint n with
      | none => some s
      | some point =>
          if (s.wrappers handle).isNone && s.free handle address then
            some (s.start handle address bit (coroutines.body point))
          else none
  | .resume awaiter =>
      if (s.awaiters awaiter.address).handle.all (s.free · address) then
        some (s.resume coroutines awaiter address)
      else none

/-- An action, where the behaviour is still defined. -/
def act (s : CoroutineRuntime T S) (coroutines : Coroutines T S) :
    Action T → Option (CoroutineRuntime T S)
  | .complete p awaiter value =>
      if awaiter ∈ s.running then
        let handle := (s.awaiters awaiter.address).handle
        (s.scheduler.step (.offer p .eResumingJob (.resume awaiter))).map fun scheduler =>
          { s with
            scheduler := scheduler
            awaiters := Function.update s.awaiters awaiter.address ⟨value, handle⟩
            running := s.running.erase awaiter
            completed := (awaiter.serial, value) :: s.completed }
      else none
  | .request p n =>
      (s.scheduler.step (.offer p .eMedium (.request n))).map fun scheduler =>
        { s with scheduler := scheduler }
  -- jobs are offered and run by the other actions only
  | .thread (.offer _ _ _) => none
  | .thread (.finish _) => none
  | .thread action =>
      (s.scheduler.step action).map fun scheduler => { s with scheduler := scheduler }
  | .run w handle address bit =>
      match s.scheduler.workers w with
      | .working job =>
          (s.scheduler.step (.finish w)).bind fun scheduler =>
            work coroutines { s with scheduler := scheduler } handle address bit job
      | _ => none

def step (coroutines : Coroutines T S) (s : CoroutineRuntime T S) (action : Action T) :
    Option (CoroutineRuntime T S) :=
  match s.misuse with
  | some _ => none
  | none => s.act coroutines action

end

/-! ## What a job does -/

/-- What running a wrapper on, up to its next suspension or its end, can do to a state: everything else is
unchanged, and a wrapper that is suspended again waits for a new awaiter, which has its handle. -/
structure Continues (s : CoroutineRuntime T S) (handle address : Nat) (t : CoroutineRuntime T S) : Prop where
  scheduler : t.scheduler = s.scheduler
  handles : t.handles = s.handles
  completed : t.completed = s.completed
  resumed : t.resumed = s.resumed
  awaiters : ∀ a, a ≠ address → t.awaiters a = s.awaiters a
  wrappers : ∀ other, other ≠ handle → t.wrappers other = s.wrappers other
  next : (t.waitsFor handle = none ∧ t.running = s.running ∧ s.created ≤ t.created) ∨
    (t.waitsFor handle = some ⟨address, s.created⟩ ∧ (t.awaiters address).handle = some handle ∧
      t.running = ⟨address, s.created⟩ :: s.running ∧ t.created = s.created + 1)

/-- A wrapper that is through. -/
theorem continues_done (s : CoroutineRuntime T S) (handle address : Nat) {task : HandlerTask T S}
    (hdone : task.done = true) : Continues s handle address (s.loop handle task) := by
  have hloop : s.loop handle task = { s with wrappers := Function.update s.wrappers handle none } :=
    if_pos hdone
  rw [hloop]
  refine ⟨rfl, rfl, rfl, rfl, fun _ _ => rfl, fun other hne => Function.update_of_ne hne _ _, .inl ?_⟩
  exact ⟨waitsFor_of_none (Function.update_self ..), rfl, le_refl _⟩

variable [Inhabited T]

/-- A handler that awaits. -/
theorem continues_coAwait (s : CoroutineRuntime T S) (promise : EndpointPromise AwaiterRef)
    (handle address : Nat) (done : Bool) (next : T → S) :
    Continues s handle address
        ((s.enter promise address (.coAwait next)).2.loop handle
          ⟨done, (s.enter promise address (.coAwait next)).1⟩) ∧
      ((s.enter promise address (.coAwait next)).2.loop handle
        ⟨done, (s.enter promise address (.coAwait next)).1⟩).misuse = s.misuse := by
  cases done with
  | true =>
      refine ⟨⟨rfl, rfl, rfl, rfl, fun a hne => Function.update_of_ne hne _ _,
        fun other hne => Function.update_of_ne hne _ _, .inl ⟨?_, rfl, Nat.le_succ _⟩⟩, rfl⟩
      exact waitsFor_of_none (Function.update_self ..)
  | false =>
      refine ⟨⟨rfl, rfl, rfl, rfl, fun a hne => ?_, fun other hne => Function.update_of_ne hne _ _,
        .inr ⟨?_, ?_, rfl, rfl⟩⟩, rfl⟩
      · exact (Function.update_of_ne hne _ _).trans (Function.update_of_ne hne _ _)
      · show Option.map _ (Option.bind (Function.update s.wrappers handle _ handle) _) = _
        rw [Function.update_self]
        rfl
      · have hself : ∀ (f : Nat → AsyncAwaiter T) x, Function.update f address x address = x :=
          fun f x => Function.update_self ..
        exact congrArg AsyncAwaiter.handle (hself _ _)

theorem continues_start {s : CoroutineRuntime T S} {handle : Nat} (hnew : s.wrappers handle = none)
    (address : Nat) (bit : Bool) (continuation : Continuation T S) :
    Continues { s with handles := handle :: s.handles } handle address
      (s.start handle address bit continuation) := by
  cases continuation with
  | coReturn code =>
      -- the callback that is called is empty
      exact ⟨rfl, rfl, rfl, rfl, fun _ _ => rfl, fun _ _ => rfl,
        .inl ⟨waitsFor_of_none hnew, rfl, le_refl _⟩⟩
  | coAwait next => exact (continues_coAwait { s with handles := handle :: s.handles } _ _ _ _ _).1

theorem continues_proceed (s : CoroutineRuntime T S) (coroutines : Coroutines T S) (handle : Nat)
    (task : HandlerTask T S) (point : S) (address : Nat) :
    Continues s handle address (s.proceed coroutines handle task point address) ∧
      (s.proceed coroutines handle task point address).misuse = s.misuse := by
  unfold proceed
  cases coroutines.body point with
  | coReturn code => exact ⟨continues_done s handle address rfl, rfl⟩
  | coAwait next => exact continues_coAwait s _ _ _ _ _

/-- A resume job resumes the wrapper whose handle is in the awaiter. -/
theorem resume_eq (coroutines : Coroutines T S) {s : CoroutineRuntime T S} {awaiter : AwaiterRef}
    {handle : Nat} {task : HandlerTask T S} {suspended : Suspended T S}
    (hhandle : (s.awaiters awaiter.address).handle = some handle) (htask : s.wrappers handle = some task)
    (hrest : task.frame.rest = some suspended) (address : Nat) :
    let value := (s.awaiters suspended.awaiter.address).value
    s.resume coroutines awaiter address =
      proceed { s with resumed := ⟨awaiter.serial, handle, value⟩ :: s.resumed } coroutines handle task
        (suspended.next value) address := by
  unfold resume
  rw [hhandle]
  dsimp only
  rw [htask]
  dsimp only
  rw [hrest]

theorem step_cases {coroutines : Coroutines T S} {s t : CoroutineRuntime T S} {a : Action T}
    (hstep : step coroutines s a = some t) : s.misuse = none ∧ s.act coroutines a = some t := by
  unfold step at hstep
  split at hstep
  · cases hstep
  · next hmisuse => exact ⟨hmisuse, hstep⟩

/-- What a completion does to a state: everything else is unchanged. -/
structure Completes (s : CoroutineRuntime T S) (awaiter : AwaiterRef) (value : T)
    (t : CoroutineRuntime T S) : Prop where
  started : awaiter ∈ s.running
  running : t.running = s.running.erase awaiter
  offered : t.scheduler.log.offered = .resume awaiter :: s.scheduler.log.offered
  executed : t.scheduler.log.executed = s.scheduler.log.executed
  handles : t.handles = s.handles
  wrappers : t.wrappers = s.wrappers
  handle : ∀ a, (t.awaiters a).handle = (s.awaiters a).handle
  value_self : (t.awaiters awaiter.address).value = value
  value_of_ne : ∀ a, a ≠ awaiter.address → (t.awaiters a).value = (s.awaiters a).value
  created : t.created = s.created
  completed : t.completed = (awaiter.serial, value) :: s.completed
  resumed : t.resumed = s.resumed

theorem act_complete {coroutines : Coroutines T S} {s t : CoroutineRuntime T S} {p : Nat}
    {awaiter : AwaiterRef} {value : T} (hact : s.act coroutines (.complete p awaiter value) = some t) :
    s.scheduler.step (.offer p .eResumingJob (.resume awaiter)) = some t.scheduler ∧
      Completes s awaiter value t := by
  unfold act at hact
  dsimp only at hact
  split at hact
  · next hmem =>
      obtain ⟨scheduler, hs, rfl⟩ := Option.map_eq_some_iff.mp hact
      have hcases := Scheduler.step_cases hs
      have hexecuted : scheduler.log.executed = s.scheduler.log.executed := by
        rcases hcases.executed with ⟨w, job, heq, -⟩ | ⟨-, hexecuted⟩
        · cases heq
        · exact hexecuted
      have hhandle : ∀ a, (Function.update s.awaiters awaiter.address
          ⟨value, (s.awaiters awaiter.address).handle⟩ a).handle = (s.awaiters a).handle := by
        intro a
        by_cases heq : a = awaiter.address
        · rw [heq, Function.update_self]
        · rw [Function.update_of_ne heq]
      refine ⟨hs, hmem, rfl, hcases.offered, hexecuted, rfl, rfl, hhandle, ?_, fun a hne => ?_,
        rfl, rfl, rfl⟩
      · show (Function.update s.awaiters awaiter.address _ awaiter.address).value = value
        rw [Function.update_self]
      · show (Function.update s.awaiters awaiter.address _ a).value = _
        rw [Function.update_of_ne hne]
  · cases hact

theorem act_run {coroutines : Coroutines T S} {s t : CoroutineRuntime T S} {w handle address : Nat} {bit : Bool}
    (hact : s.act coroutines (.run w handle address bit) = some t) :
    ∃ job scheduler, s.scheduler.workers w = .working job ∧
      s.scheduler.step (.finish w) = some scheduler ∧
      work coroutines { s with scheduler := scheduler } handle address bit job = some t := by
  unfold act at hact
  dsimp only at hact
  split at hact
  · next job hw =>
      obtain ⟨scheduler, hfinish, hwork⟩ := Option.bind_eq_some_iff.mp hact
      exact ⟨job, scheduler, hw, hfinish, hwork⟩
  · cases hact

end CoroutineRuntime

end Fipper

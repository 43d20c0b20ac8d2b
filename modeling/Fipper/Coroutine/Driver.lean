import Fipper.Lib.Transition
import Fipper.Server.Response

/-!
# The driver of an asynchronous endpoint

`while (!task.isDone()) co_await task;` in `Endpoint<Func>::handleRequest`: the wrapper coroutine
drives the coroutine of the handler. A handler is any number of awaits followed by `co_return`. Each
`co_await` of the wrapper moves the callback out of the handler's promise and calls it, which starts
the awaited process; when that completes, a resume job resumes the wrapper, and the wrapper resumes
the handler.

* `Frame` : the coroutine of a handler; `EndpointTask` : its handle and a done flag of its own;
* `step` : completions and resume jobs, in any order; the queue takes every resume job;
* `RunsToEnd` : what the driver owes to a handler;
* `runsToEnd_iff` : the handlers that get it;
* `truthful_iff` : the handlers whose done flag tells the truth.
-/

namespace Fipper

open Lib

variable {P : Type*}

/-- The body of a handler from one point on: the processes it awaits, and the code it returns. -/
structure Handler (P : Type*) where
  awaits : List P
  code : HttpCode
  deriving DecidableEq, Repr

/-- `fp::coroutines::EndpointPromise`. No value was returned yet, or no callback is in the slot:
`none`. -/
structure EndpointPromise (P : Type*) where
  done : Bool
  value : Option HttpCode
  awaiterCallback : Option P

/-- The frame of a handler: its promise and what it still has to do, `none` at the final suspend. -/
structure Frame (P : Type*) where
  promise : EndpointPromise P
  rest : Option (Handler P)

/-- `fp::coroutines::EndpointTask`, with the frame behind `m_handle`. -/
structure EndpointTask (P : Type*) where
  done : Bool
  handle : Frame P

/-- What leaves the behaviour of the driver undefined, and nothing to go on with. A code that is read and was never
returned leaves it undefined too; it is sent as `none`. -/
inductive Misuse
  | emptyCallback
  | resumedFinished
  deriving DecidableEq, Repr

/-- The body runs to its next suspension. -/
def Frame.enter (promise : EndpointPromise P) (handler : Handler P) : Frame P :=
  match handler.awaits with
  -- `return_value`, then `final_suspend`
  | [] => ⟨{ promise with value := some handler.code, done := true }, none⟩
  -- `await_transform`
  | process :: awaits =>
      ⟨{ promise with awaiterCallback := some process }, some { handler with awaits := awaits }⟩

namespace EndpointTask

/-- The call of the handler. The coroutine does not suspend initially, and `m_done` of the promise has
no initialiser: `bit` is what is found there. -/
def call (bit : Bool) (handler : Handler P) : EndpointTask P :=
  ⟨false, .enter ⟨bit, none, none⟩ handler⟩

def resume (task : EndpointTask P) : Except Misuse (EndpointTask P) :=
  match task.handle.rest with
  | none => .error .resumedFinished
  | some handler =>
      let frame := Frame.enter task.handle.promise handler
      .ok ⟨frame.promise.done, frame⟩

/-- `getAwaiterCallback`, called at once: the process to start, and the task without the callback. -/
def takeCallback (task : EndpointTask P) : Except Misuse (P × EndpointTask P) :=
  match task.handle.promise.awaiterCallback with
  | none => .error .emptyCallback
  | some process =>
      let promise := { task.handle.promise with awaiterCallback := none }
      .ok (process, { task with handle := { task.handle with promise := promise } })

end EndpointTask

/-- The task and its wrapper, which waits in `co_await task` until the response is sent; the processes
that run and the resume jobs in the queue; and what has happened so far, in order. -/
structure Driver (P : Type*) where
  task : EndpointTask P
  waiting : Bool
  running : List P
  jobs : Nat
  started : List P
  resumed : Nat
  sent : List (Option HttpCode)
  misuse : Option Misuse

namespace Driver

/-- The wrapper at the head of its loop. -/
def loop (s : Driver P) : Driver P :=
  if s.task.done then
    { s with waiting := false, sent := s.sent ++ [s.task.handle.promise.value] }
  else
    -- `co_await task`: `EndpointAwaiter::await_suspend`
    match s.task.takeCallback with
    | .error misuse => { s with misuse := some misuse }
    | .ok (process, task) =>
        { s with
          task := task
          waiting := true
          running := s.running ++ [process]
          started := s.started ++ [process] }

/-- `handleRequest` calls the handler and enters the loop. -/
def start (bit : Bool) (handler : Handler P) : Driver P :=
  loop ⟨.call bit handler, false, [], 0, [], 0, [], none⟩

/-- A resume job resumes the wrapper: `EndpointAwaiter::await_resume`, then the loop. -/
def resume (s : Driver P) : Driver P :=
  if s.waiting then
    match s.task.resume with
    | .error misuse => { s with misuse := some misuse }
    | .ok task => loop { s with task := task, resumed := s.resumed + 1 }
  else { s with misuse := some .resumedFinished }

inductive Action
  /-- The `i`-th of the running processes completes: `AsyncAwaiter::complete`. -/
  | complete (i : Nat)
  /-- A worker runs a resume job. -/
  | resume
  deriving DecidableEq, Repr

def step (s : Driver P) (action : Action) : Option (Driver P) :=
  match s.misuse, action with
  | some _, _ => none
  | none, .complete i =>
      if i < s.running.length then
        some { s with running := s.running.eraseIdx i, jobs := s.jobs + 1 }
      else none
  | none, .resume =>
      if 0 < s.jobs then some (resume { s with jobs := s.jobs - 1 }) else none

/-! ## What the driver owes to a handler -/

/-- In a state of a run: no misuse, the processes are started once each and in program order, and the
response is sent once, after all of them, with the code of the handler; when nothing is left to do, it
is sent. -/
structure Faithful (handler : Handler P) (s : Driver P) : Prop where
  misuse : s.misuse = none
  started : s.started <+: handler.awaits
  resumed : s.resumed ≤ handler.awaits.length
  sent : s.sent = [] ∨ s.sent = [some handler.code] ∧ s.started = handler.awaits ∧
    s.resumed = handler.awaits.length
  ends : (∀ action, s.step action = none) → s.sent ≠ []

/-- In every run, whatever the order of completions and resumptions, and no run goes on for ever. -/
def RunsToEnd (bit : Bool) (handler : Handler P) : Prop :=
  ∀ actions s, run step (start bit handler) actions = some s →
    Faithful handler s ∧ actions.length ≤ 2 * handler.awaits.length

/-! ## The states of a handler that awaits -/

/-- The states between two resumptions, `before` and `process` started and `rest` not yet, and the
state after the response. `bit` is still in the promise until the handler ends. -/
inductive Reached (bit : Bool) (handler : Handler P) : Driver P → Prop
  | running (before : List P) (process : P) (rest : List P)
      (awaits : handler.awaits = before ++ process :: rest) :
      Reached bit handler ⟨⟨false, ⟨⟨bit, none, none⟩, some ⟨rest, handler.code⟩⟩⟩, true, [process], 0,
        before ++ [process], before.length, [], none⟩
  | queued (before : List P) (process : P) (rest : List P)
      (awaits : handler.awaits = before ++ process :: rest) :
      Reached bit handler ⟨⟨false, ⟨⟨bit, none, none⟩, some ⟨rest, handler.code⟩⟩⟩, true, [], 1,
        before ++ [process], before.length, [], none⟩
  | finished :
      Reached bit handler ⟨⟨true, ⟨⟨true, some handler.code, none⟩, none⟩⟩, false, [], 0,
        handler.awaits, handler.awaits.length, [some handler.code], none⟩

/-- Completions and resumptions that are still to come. -/
def remaining (s : Driver P) : Nat :=
  2 * (s.task.handle.rest.elim 0 (·.awaits.length)) + 2 * s.running.length + s.jobs

variable {bit : Bool} {handler : Handler P} {s t : Driver P}

theorem reached_start {process : P} {awaits : List P} (h : handler.awaits = process :: awaits) :
    Reached bit handler (start bit handler) ∧
      remaining (start bit handler) = 2 * handler.awaits.length := by
  obtain ⟨_, code⟩ := handler
  subst h
  exact ⟨.running [] process awaits rfl, rfl⟩

/-- With one await, or a promise that starts out false, such a state leads to the next one. -/
theorem reached_step (hbit : handler.awaits.length = 1 ∨ bit = false) (hs : Reached bit handler s)
    {action : Action} (h : s.step action = some t) :
    Reached bit handler t ∧ remaining t < remaining s := by
  cases hs with
  | running before process rest awaits =>
      cases action with
      | complete i =>
          obtain ⟨hi, h⟩ : i < 1 ∧ _ := by simpa [step] using h
          obtain rfl : i = 0 := by omega
          subst h
          exact ⟨.queued before process rest awaits, by simp [remaining]⟩
      | resume => simp [step] at h
  | queued before process rest awaits =>
      cases action with
      | complete i => simp [step] at h
      | resume =>
          obtain rfl : resume _ = t := by simpa [step] using h
          cases rest with
          | nil =>
              -- the handler ends
              have hend : Reached bit handler _ := .finished
              rw [awaits, List.length_append] at hend
              exact ⟨hend, Nat.zero_lt_one⟩
          | cons next rest =>
              -- the next await
              obtain rfl : bit = false := by
                refine hbit.resolve_left fun h => ?_
                rw [awaits, List.length_append, List.length_cons, List.length_cons] at h
                omega
              have hnext : Reached false handler _ :=
                .running (before ++ [process]) next rest (by rw [awaits, List.append_assoc]; rfl)
              rw [List.length_append] at hnext
              refine ⟨hnext, ?_⟩
              show 2 * rest.length + 2 * 1 + 0 < 2 * (rest.length + 1) + 2 * 0 + 1
              omega
  | finished => cases action <;> simp [step] at h

theorem started_prefix {before : List P} {process : P} {rest : List P}
    (awaits : handler.awaits = before ++ process :: rest) :
    before ++ [process] <+: handler.awaits ∧ before.length ≤ handler.awaits.length := by
  rw [awaits]
  refine ⟨⟨rest, List.append_assoc _ _ _⟩, ?_⟩
  rw [List.length_append]
  omega

theorem Reached.faithful (hs : Reached bit handler s) : Faithful handler s := by
  cases hs with
  | running before process rest awaits =>
      obtain ⟨hstarted, hresumed⟩ := started_prefix awaits
      refine ⟨rfl, hstarted, hresumed, .inl rfl, fun h => ?_⟩
      exact absurd (h (.complete 0)) (by simp [step])
  | queued before process rest awaits =>
      obtain ⟨hstarted, hresumed⟩ := started_prefix awaits
      refine ⟨rfl, hstarted, hresumed, .inl rfl, fun h => ?_⟩
      exact absurd (h .resume) (by simp [step])
  | finished =>
      exact ⟨rfl, List.prefix_rfl, le_rfl, .inr ⟨rfl, rfl, rfl⟩, fun _ => List.cons_ne_nil _ _⟩

/-! ## The handlers that are driven to their end -/

theorem misuse_start (h : handler.awaits = []) :
    (start bit handler).misuse = some .emptyCallback := by
  obtain ⟨_, code⟩ := handler
  subst h
  rfl

/-- A second await is never reached while the storage of the flag holds true: after the first
resumption the wrapper takes the handler for finished, and sends what is no value. -/
theorem cut_off (hne : handler.awaits ≠ []) (hbit : ¬ (handler.awaits.length = 1 ∨ bit = false)) :
    ∃ s, run step (start bit handler) [.complete 0, .resume] = some s ∧
      s.resumed = 1 ∧ s.task.done = true ∧ s.task.handle.rest ≠ none ∧ s.sent = [none] := by
  obtain ⟨hlen, hbit⟩ := not_or.mp hbit
  obtain rfl : bit = true := by simpa using hbit
  obtain ⟨awaits, code⟩ := handler
  obtain ⟨first, rest, rfl⟩ := List.exists_cons_of_ne_nil hne
  cases rest with
  | nil => exact absurd rfl hlen
  | cons second rest => exact ⟨_, rfl, rfl, rfl, Option.some_ne_none _, rfl⟩

/-- **Which handlers are driven to their end.** Those with one await, and those with more if the
storage of the promise's flag happens to hold false. -/
theorem runsToEnd_iff (bit : Bool) (handler : Handler P) :
    RunsToEnd bit handler ↔
      handler.awaits ≠ [] ∧ (handler.awaits.length = 1 ∨ bit = false) := by
  constructor
  · intro h
    have hne : handler.awaits ≠ [] := by
      intro hnil
      have hmisuse := (h [] _ rfl).1.misuse
      rw [misuse_start hnil] at hmisuse
      cases hmisuse
    refine ⟨hne, ?_⟩
    by_contra hbit
    obtain ⟨s, hrun, -, -, -, hnone⟩ := cut_off hne hbit
    rcases (h _ _ hrun).1.sent with hsent | ⟨hsent, -⟩
    · rw [hnone] at hsent
      cases hsent
    · rw [hnone] at hsent
      cases hsent
  · rintro ⟨hne, hbit⟩ actions s hrun
    obtain ⟨process, awaits, hawaits⟩ := List.exists_cons_of_ne_nil hne
    have hstart : Reached bit handler (start bit handler) := (reached_start hawaits).1
    have hremaining : remaining (start bit handler) = 2 * handler.awaits.length :=
      (reached_start hawaits).2
    have hreached : Reached bit handler s :=
      run_invariant (fun _ _ _ hs h => (reached_step hbit hs h).1) hstart hrun
    have hlength : actions.length + remaining s ≤ remaining (start bit handler) :=
      run_length_le (fun _ _ _ hs h => reached_step hbit hs h) hstart hrun
    exact ⟨hreached.faithful, by omega⟩

/-- A handler that returns without an await. -/
theorem not_runsToEnd_noAwait : ¬ RunsToEnd false (⟨[], .e200⟩ : Handler Nat) := by
  intro h
  exact absurd (h [] _ rfl).1.misuse (by decide)

/-! ## The done flag -/

/-- Once the task was resumed, its flag says whether the handler is at its final suspend, and a result
was read of a handler that is there only. -/
structure Truthful (s : Driver P) : Prop where
  isDone : 0 < s.resumed → (s.task.done = true ↔ s.task.handle.rest = none)
  getValue : s.sent ≠ [] → s.task.handle.rest = none

theorem Reached.truthful (hs : Reached bit handler s) : Truthful s := by
  cases hs with
  | running before process rest awaits =>
      exact ⟨fun _ => iff_of_false Bool.noConfusion (Option.some_ne_none _), fun h => absurd rfl h⟩
  | queued before process rest awaits =>
      exact ⟨fun _ => iff_of_false Bool.noConfusion (Option.some_ne_none _), fun h => absurd rfl h⟩
  | finished => exact ⟨fun _ => iff_of_true rfl rfl, fun _ => rfl⟩

/-- **When the flag tells the truth.** For a handler that awaits: in every state of every run, exactly
if it awaits once or the storage of the promise's flag happens to hold false. -/
theorem truthful_iff (bit : Bool) {handler : Handler P} (hne : handler.awaits ≠ []) :
    (∀ actions s, run step (start bit handler) actions = some s → Truthful s) ↔
      handler.awaits.length = 1 ∨ bit = false := by
  constructor
  · intro h
    by_contra hbit
    obtain ⟨s, hrun, hresumed, hdone, hrest, -⟩ := cut_off hne hbit
    have hflag : s.task.done = true ↔ s.task.handle.rest = none := (h _ _ hrun).isDone (by omega)
    exact hrest (hflag.mp hdone)
  · intro hbit actions s hrun
    obtain ⟨process, awaits, hawaits⟩ := List.exists_cons_of_ne_nil hne
    have hreached : Reached bit handler s :=
      run_invariant (fun _ _ _ hs h => (reached_step hbit hs h).1) (reached_start hawaits).1 hrun
    exact hreached.truthful

/-- One await, resumed once. -/
theorem truthful_oneAwait :
    ∃ s, run step (start true (⟨[0], .e200⟩ : Handler Nat)) [.complete 0, .resume] = some s ∧
      s.resumed = 1 ∧ s.task.done = true ∧ Truthful s := by
  have htruthful : ∀ actions s, run step (start true (⟨[0], .e200⟩ : Handler Nat)) actions = some s →
      Truthful s := (truthful_iff true (List.cons_ne_nil 0 [])).mpr (.inl rfl)
  exact ⟨_, rfl, rfl, rfl, htruthful [.complete 0, .resume] _ rfl⟩

/-- Two awaits over storage that holds true. -/
theorem not_truthful_twoAwaits :
    ¬ ∀ actions s, run step (start true (⟨[0, 1], .e200⟩ : Handler Nat)) actions = some s → Truthful s := by
  intro h
  have hflag := (h [.complete 0, .resume] _ rfl).isDone (by decide)
  revert hflag
  decide

end Driver

end Fipper

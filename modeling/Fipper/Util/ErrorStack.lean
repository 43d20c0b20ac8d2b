import Fipper.Lib.Transition
import Fipper.Util.Enum
import Mathlib.Logic.Function.Basic

/-!
# The error stacks

One stack of messages for each thread id, made when it is first asked for. `logAll` writes the messages
of its thread and takes them off the stack while it iterates over them. No stack is ever taken away, and
the id of a thread that has ended may be given to another.

* `begin`, `deref`, `increment` : the range and its iterator, whose view is a place in the stack;
* `push`, `logAll` : what the threads do, each call in one step;
* `pending` : what a thread has pushed since it last logged, the newest first;
* `Threads.step` : threads that start, push, log and end, in any order;
* `Threads.reports_iff` : when each of them logs what it has pushed.
-/

namespace Fipper

open Lib

structure SourceLocation where
  functionName : Str
  fileName : Str
  line : Nat
  deriving DecidableEq, Repr

/-- `ErrorStackIterator`. The view is the height, in the stack of its thread, of the string it views;
`none` where it views nothing. -/
structure ErrorStackIterator where
  view : Option Nat
  isEnd : Bool
  deriving DecidableEq, Repr

/-- `s_stacks`: the stacks there are, by the id of the thread, with the top first. -/
abbrev Stacks (I : Type) := I → Option (List Str)

namespace ErrorStack

variable {I : Type} [DecidableEq I]

/-- `s_stacks[id]`, which makes the stack if there is none. -/
def stackAt (s : Stacks I) (id : I) : List Str × Stacks I :=
  match s id with
  | some stack => (stack, s)
  | none => ([], Function.update s id (some []))

/-- A view of `stack.top()`. -/
def viewTop : List Str → Except Fault Nat
  | [] => .error .undefined
  | _ :: below => .ok below.length

/-- `ErrorStackRange::begin`. -/
def begin (s : Stacks I) (id : I) : Except Fault (ErrorStackIterator × Stacks I) := do
  let (stack, s) := stackAt s id
  if stack.isEmpty then
    return (⟨none, true⟩, s)
  else
    let (stack, s) := stackAt s id
    let view ← viewTop stack
    return (⟨some view, false⟩, s)

/-- `operator*`, read through: a view of a string that is gone is a fault. -/
def deref (s : Stacks I) (id : I) (it : ErrorStackIterator) : Except Fault Str :=
  match it.view with
  | none => .ok []
  | some height =>
      match ((s id).getD []).reverse[height]? with
      | some str => .ok str
      | none => .error .undefined

/-- `operator++`. -/
def increment (s : Stacks I) (id : I) (it : ErrorStackIterator) :
    Except Fault (ErrorStackIterator × Stacks I) :=
  match stackAt s id with
  | ([], _) => .error .undefined
  | (_ :: below, s) => do
      let (stack, s) := stackAt (Function.update s id (some below)) id
      if stack.isEmpty then
        return ({ it with isEnd := true }, s)
      else
        let view ← viewTop stack
        return ({ it with view := some view }, s)

/-- How many strings the stack of a thread holds. -/
def height (s : Stacks I) (id : I) : Nat := ((s id).getD []).length

theorem stackAt_of_some {s : Stacks I} {id : I} {stack : List Str} (h : s id = some stack) :
    stackAt s id = (stack, s) := by
  rw [stackAt, h]

theorem increment_last {s : Stacks I} {id : I} {str : Str} (h : s id = some [str])
    (it : ErrorStackIterator) :
    increment s id it = .ok ({ it with isEnd := true }, Function.update s id (some [])) := by
  rw [increment, stackAt_of_some h]
  dsimp only
  rw [stackAt_of_some (Function.update_self ..)]
  rfl

theorem increment_cons {s : Stacks I} {id : I} {str below : Str} {rest : List Str}
    (h : s id = some (str :: below :: rest)) (it : ErrorStackIterator) :
    increment s id it =
      .ok ({ it with view := some rest.length }, Function.update s id (some (below :: rest))) := by
  rw [increment, stackAt_of_some h]
  dsimp only
  rw [stackAt_of_some (Function.update_self ..)]
  rfl

theorem increment_height {s t : Stacks I} {id : I} {it it' : ErrorStackIterator}
    (h : increment s id it = .ok (it', t)) : height t id < height s id := by
  unfold height
  match hstack : s id with
  | none => rw [increment, stackAt, hstack] at h; cases h
  | some [] => rw [increment, stackAt, hstack] at h; cases h
  | some [str] =>
      rw [increment_last hstack] at h
      cases h
      simp
  | some (str :: below :: rest) =>
      rw [increment_cons hstack] at h
      cases h
      simp

/-- The loop of `logAll`, from the iterator on: what it writes, a line for each string. -/
def logRest (s : Stacks I) (id : I) (it : ErrorStackIterator) : Except Fault (List Str × Stacks I) :=
  if it.isEnd then .ok ([], s)
  else do
    let error ← deref s id it
    match _ : increment s id it with
    | .error fault => .error fault
    | .ok (it, t) =>
        let (lines, s) ← logRest t id it
        return (('\t' :: error) :: lines, s)
termination_by height s id
decreasing_by exact increment_height ‹_›

/-- `ErrorStack::logAll`: what it writes. `formatId` is the text of a thread id. -/
def logAll (formatId : I → Str) (s : Stacks I) (id : I) : Except Fault (List Str × Stacks I) :=
  match s id with
  | none => .ok ([], s)
  | some [] => .ok ([], s)
  | some (_ :: _) => do
      let header := "Some error occured in thread ".toList ++ formatId id ++ " :".toList
      let (it, s) ← begin s id
      let (lines, s) ← logRest s id it
      return (header :: lines, s)

/-- `ErrorStack::push`: what it puts on the stack. -/
def formattedStr (str : Str) (location : SourceLocation) : Str :=
  "in ".toList ++ location.functionName ++ " (".toList ++ location.fileName ++ ":".toList ++
    location.line.repr.toList ++ ") > ".toList ++ str

def push (s : Stacks I) (id : I) (str : Str) (location : SourceLocation) : Stacks I :=
  match s id with
  | none =>
      let (stack, s) := stackAt (Function.update s id (some [])) id
      Function.update s id (some (formattedStr str location :: stack))
  | some stack => Function.update s id (some (formattedStr str location :: stack))

/-- The message that the overload of `push` with a return value makes; `none` for a value that is no
`fp::Result`, and for the overload without one. -/
def message (ret : Option Result) (str : Str) : Str :=
  match ret with
  | some ret => ret.toString ++ " : ".toList ++ str
  | none => str

/-- What a thread does. -/
inductive Event (I : Type)
  | push (id : I) (ret : Option Result) (str : Str) (location : SourceLocation)
  | logAll (id : I)
  deriving DecidableEq, Repr

/-! ## What is pending -/

/-- What an event puts on the stack of `id`. -/
def Event.pushed (id : I) : Event I → Option Str
  | .push id' ret str location => if id' = id then some (formattedStr (message ret str) location) else none
  | .logAll _ => none

/-- What a thread has pushed since it last logged, the newest first. -/
def pending (id : I) (events : List (Event I)) : List Str :=
  (events.reverse.takeWhile (· ≠ .logAll id)).filterMap (Event.pushed id)

/-- What a thread logs of its messages. -/
def report (formatId : I → Str) (id : I) : List Str → List Str
  | [] => []
  | errors => ("Some error occured in thread ".toList ++ formatId id ++ " :".toList) :: errors.map ('\t' :: ·)

/-! ## One call -/

variable {formatId : I → Str} {s : Stacks I} {id : I} {str : Str} {below : List Str}

theorem begin_of_some (h : s id = some (str :: below)) : begin s id = .ok (⟨some below.length, false⟩, s) := by
  rw [begin, stackAt_of_some h]
  dsimp only
  rw [stackAt_of_some h]
  rfl

omit [DecidableEq I] in
/-- The view of the top is a view of the top until it is popped. -/
theorem deref_top (h : s id = some (str :: below)) : deref s id ⟨some below.length, false⟩ = .ok str := by
  rw [deref]
  dsimp only
  rw [h, Option.getD_some, List.reverse_cons, List.getElem?_append_right (by simp)]
  simp

theorem logRest_of_increment {it it' : ErrorStackIterator} {t : Stacks I} (hend : it.isEnd = false)
    (hderef : deref s id it = .ok str) (hincrement : increment s id it = .ok (it', t)) :
    logRest s id it = (logRest t id it').map fun r => (('\t' :: str) :: r.1, r.2) := by
  rw [logRest, hend, if_neg Bool.false_ne_true, hderef]
  show (match _ : increment s id it with
    | .error fault => _
    | .ok (it, t) => _) = _
  split
  · next hfault =>
      rw [hincrement] at hfault
      cases hfault
  · next hok =>
      rw [hincrement] at hok
      cases hok
      cases logRest t id it' <;> rfl

/-- The loop writes the strings from the top to the bottom, and leaves the stack empty. -/
theorem logRest_eq (h : s id = some (str :: below)) :
    logRest s id ⟨some below.length, false⟩ =
      .ok ((str :: below).map ('\t' :: ·), Function.update s id (some [])) := by
  induction below generalizing s str with
  | nil =>
      rw [logRest_of_increment rfl (deref_top h) (increment_last h _), logRest, if_pos rfl]
      rfl
  | cons str' below ih =>
      have hrest := ih (s := Function.update s id (some (str' :: below))) (Function.update_self ..)
      rw [logRest_of_increment rfl (deref_top h) (increment_cons h _), hrest, Function.update_idem]
      rfl

/-- `logAll` writes what is on the stack of its thread, and touches no other. -/
theorem logAll_eq (formatId : I → Str) (s : Stacks I) (id : I) :
    ∃ t, logAll formatId s id = .ok (report formatId id ((s id).getD []), t) ∧ (t id).getD [] = [] ∧
      ∀ other, other ≠ id → t other = s other := by
  unfold logAll
  match h : s id with
  | none => exact ⟨s, rfl, by rw [h]; rfl, fun _ _ => rfl⟩
  | some [] => exact ⟨s, rfl, by rw [h]; rfl, fun _ _ => rfl⟩
  | some (str :: below) =>
      refine ⟨Function.update s id (some []), ?_, ?_, fun other hne => Function.update_of_ne hne _ _⟩
      · dsimp only
        rw [begin_of_some h]
        show (logRest s id ⟨some below.length, false⟩).bind _ = _
        rw [logRest_eq h]
        rfl
      · rw [Function.update_self]
        rfl

theorem push_eq (s : Stacks I) (id : I) (str : Str) (location : SourceLocation) :
    push s id str location = Function.update s id (some (formattedStr str location :: (s id).getD [])) := by
  unfold push
  cases h : s id with
  | none =>
      dsimp only
      rw [stackAt_of_some (Function.update_self ..), Function.update_idem]
      rfl
  | some stack => rfl

/-! ## What is pending after a step -/

theorem pending_concat_push (id id' : I) (ret : Option Result) (str : Str) (location : SourceLocation)
    (events : List (Event I)) : pending id (events ++ [.push id' ret str location]) =
      if id' = id then formattedStr (message ret str) location :: pending id events else pending id events := by
  rw [pending, List.reverse_append, List.reverse_singleton, List.singleton_append,
    List.takeWhile_cons_of_pos (by simp), List.filterMap_cons, Event.pushed]
  split
  · next hnone => rw [if_neg fun heq => by simp [heq] at hnone]; rfl
  · next hsome =>
      split at hsome
      · next heq => rw [if_pos heq, Option.some.inj hsome]; rfl
      · cases hsome

theorem pending_concat_logAll (id id' : I) (events : List (Event I)) :
    pending id (events ++ [.logAll id']) = if id' = id then [] else pending id events := by
  rw [pending, List.reverse_append, List.reverse_singleton, List.singleton_append]
  split
  · next heq => rw [List.takeWhile_cons_of_neg (by simp [heq])]; rfl
  · next hne => rw [List.takeWhile_cons_of_pos (by simp [hne])]; rfl

omit [DecidableEq I] in
theorem report_injective (formatId : I → Str) (id : I) : Function.Injective (report formatId id) := by
  intro errors errors' h
  match errors, errors' with
  | [], [] => rfl
  | [], _ :: _ => cases h
  | _ :: _, [] => cases h
  | error :: errors, error' :: errors' =>
      exact List.map_injective_iff.mpr (fun _ _ heq => (List.cons.inj heq).2) (List.cons.inj h).2

end ErrorStack

open ErrorStack

/-- The stacks, and the threads in the order they started: the id that `std::this_thread::get_id` gives
each, `none` once it has ended. -/
structure Threads (I : Type) where
  sStacks : Stacks I
  ids : List (Option I)
  /-- All that the threads have done, each under its number. -/
  events : List (ErrorStack.Event Nat)

namespace Threads

variable {I : Type} [DecidableEq I]

inductive Action (I : Type)
  | start (id : I)
  | push (thread : Nat) (ret : Option Result) (str : Str) (location : SourceLocation)
  | logAll (thread : Nat)
  | finish (thread : Nat)
  deriving DecidableEq, Repr

def start : Threads I where
  sStacks _ := none
  ids := []
  events := []

/-- The id of a thread that runs. -/
def idOf (s : Threads I) (thread : Nat) : Option I := s.ids[thread]?.join

/-- One step of one thread. A thread that starts gets an id that no running one has. -/
def step (formatId : I → Str) (s : Threads I) : Action I → Option (Threads I)
  | .start id => if some id ∈ s.ids then none else some { s with ids := s.ids ++ [some id] }
  | .push thread ret str location =>
      (s.idOf thread).map fun id =>
        { s with
          sStacks := ErrorStack.push s.sStacks id (message ret str) location
          events := s.events ++ [.push thread ret str location] }
  | .logAll thread =>
      (s.idOf thread).bind fun id =>
        match ErrorStack.logAll formatId s.sStacks id with
        | .error _ => none
        | .ok (_, sStacks) => some { s with sStacks, events := s.events ++ [.logAll thread] }
  | .finish thread => (s.idOf thread).map fun _ => { s with ids := s.ids.set thread none }

/-- Whichever thread logs now reports what it has pushed since it last logged, each message once and the
newest first, nothing if there is none. It leaves its stack empty, and the others as they are. -/
def Reports (formatId : I → Str) (s : Threads I) : Prop :=
  ∀ thread id, s.idOf thread = some id → ∃ t,
    ErrorStack.logAll formatId s.sStacks id = .ok (report formatId id (pending thread s.events), t) ∧
      (t id).getD [] = [] ∧ ∀ other, other ≠ id → t other = s.sStacks other

/-- A thread that starts does not get an id under which a stack that is not empty was left. -/
def harmless (s : Threads I) : Action I → Prop
  | .start id => (s.sStacks id).getD [] = []
  | _ => True

instance (s : Threads I) : ∀ a, Decidable (s.harmless a)
  | .start id => inferInstanceAs (Decidable ((s.sStacks id).getD [] = []))
  | .push .. | .logAll _ | .finish _ => isTrue trivial

/-- No two running threads have one id, and a thread that has not started has done nothing. -/
structure Inv (s : Threads I) : Prop where
  distinct : ∀ i j id, s.idOf i = some id → s.idOf j = some id → i = j
  unstarted : ∀ thread, s.ids.length ≤ thread → pending thread s.events = []

variable {formatId : I → Str} {s t : Threads I}

omit [DecidableEq I] in
theorem idOf_eq_some {thread : Nat} {id : I} : s.idOf thread = some id ↔ s.ids[thread]? = some (some id) := by
  rw [idOf, Option.join_eq_some_iff]

omit [DecidableEq I] in
theorem lt_of_idOf {thread : Nat} {id : I} (h : s.idOf thread = some id) : thread < s.ids.length :=
  (List.getElem?_eq_some_iff.mp (idOf_eq_some.mp h)).1

/-- The stack of each running thread is what it has pending. -/
theorem reports_iff_pending :
    s.Reports formatId ↔ ∀ thread id, s.idOf thread = some id → (s.sStacks id).getD [] = pending thread s.events := by
  refine forall₂_congr fun thread id => imp_congr_right fun _ => ?_
  obtain ⟨t, hlog, hempty, hother⟩ := logAll_eq formatId s.sStacks id
  constructor
  · rintro ⟨t', hlog', -⟩
    rw [hlog, Except.ok.injEq, Prod.mk.injEq] at hlog'
    exact report_injective formatId id hlog'.1
  · intro heq
    exact ⟨t, by rw [hlog, heq], hempty, hother⟩

/-- What a step does. -/
inductive Step (formatId : I → Str) (s : Threads I) : Action I → Threads I → Prop
  | start {id : I} (fresh : some id ∉ s.ids) : Step formatId s (.start id) { s with ids := s.ids ++ [some id] }
  | push {thread : Nat} {id : I} (running : s.idOf thread = some id) (ret : Option Result) (str : Str)
      (location : SourceLocation) :
      Step formatId s (.push thread ret str location)
        { s with
          sStacks := Function.update s.sStacks id
            (some (formattedStr (message ret str) location :: (s.sStacks id).getD []))
          events := s.events ++ [.push thread ret str location] }
  | logAll {thread : Nat} {id : I} (running : s.idOf thread = some id) {sStacks : Stacks I}
      (empty : (sStacks id).getD [] = []) (others : ∀ other, other ≠ id → sStacks other = s.sStacks other) :
      Step formatId s (.logAll thread) { s with sStacks, events := s.events ++ [.logAll thread] }
  | finish {thread : Nat} {id : I} (running : s.idOf thread = some id) :
      Step formatId s (.finish thread) { s with ids := s.ids.set thread none }

theorem step_cases {a : Action I} (h : step formatId s a = some t) : Step formatId s a t := by
  cases a with
  | start id =>
      rw [step, Option.ite_none_left_eq_some, Option.some.injEq] at h
      exact h.2 ▸ .start h.1
  | push thread ret str location =>
      obtain ⟨id, hid, rfl⟩ := Option.map_eq_some_iff.mp h
      rw [push_eq]
      exact .push hid ret str location
  | logAll thread =>
      obtain ⟨id, hid, h⟩ := Option.bind_eq_some_iff.mp h
      obtain ⟨sStacks, hlog, hempty, hother⟩ := logAll_eq formatId s.sStacks id
      rw [hlog] at h
      cases h
      exact .logAll hid hempty hother
  | finish thread =>
      obtain ⟨id, hid, rfl⟩ := Option.map_eq_some_iff.mp h
      exact .finish hid

omit [DecidableEq I] in
theorem idOf_start {id id' : I} {thread : Nat} :
    idOf { s with ids := s.ids ++ [some id] } thread = some id' ↔
      s.idOf thread = some id' ∨ thread = s.ids.length ∧ id = id' := by
  rw [idOf_eq_some, idOf_eq_some, List.getElem?_append]
  split
  · next hlt => simp [Nat.ne_of_lt hlt]
  · next hle =>
      rw [List.getElem?_eq_none (Nat.le_of_not_lt hle), List.getElem?_singleton]
      split <;> simp <;> omega

omit [DecidableEq I] in
theorem idOf_finish {thread thread' : Nat} {id : I} :
    idOf { s with ids := s.ids.set thread none } thread' = some id ↔
      thread' ≠ thread ∧ s.idOf thread' = some id := by
  rw [idOf_eq_some, idOf_eq_some, List.getElem?_set]
  split
  · next heq => simp [heq]
  · next hne => simp [Ne.symm hne]

omit [DecidableEq I] in
theorem inv_start : (start : Threads I).Inv := ⟨nofun, fun _ _ => rfl⟩

theorem inv_step (a : Action I) (hs : s.Inv) (h : step formatId s a = some t) : t.Inv := by
  cases step_cases h with
  | @start id fresh =>
      have hfresh {thread : Nat} : s.idOf thread ≠ some id := fun hid =>
        fresh (List.mem_of_getElem? (idOf_eq_some.mp hid))
      refine ⟨fun i j id' hi hj => ?_, fun thread hle => hs.unstarted thread ?_⟩
      · rcases idOf_start.mp hi with hi | ⟨rfl, rfl⟩ <;> rcases idOf_start.mp hj with hj | ⟨rfl, heq⟩
        · exact hs.distinct i j id' hi hj
        · exact absurd (heq ▸ hi) hfresh
        · exact absurd hj hfresh
        · rfl
      · rw [List.length_append] at hle
        exact Nat.le_of_add_right_le hle
  | push running =>
      refine ⟨hs.distinct, fun thread hle => ?_⟩
      have hlt := lt_of_idOf running
      rw [pending_concat_push, if_neg (Nat.ne_of_lt (Nat.lt_of_lt_of_le hlt hle))]
      exact hs.unstarted thread hle
  | logAll running =>
      refine ⟨hs.distinct, fun thread hle => ?_⟩
      have hlt := lt_of_idOf running
      rw [pending_concat_logAll, if_neg (Nat.ne_of_lt (Nat.lt_of_lt_of_le hlt hle))]
      exact hs.unstarted thread hle
  | finish running =>
      refine ⟨fun i j id' hi hj => ?_, fun thread hle => hs.unstarted thread ?_⟩
      · exact hs.distinct i j id' (idOf_finish.mp hi).2 (idOf_finish.mp hj).2
      · rwa [List.length_set] at hle

/-- The one step after which a report can be wrong is the start of a thread. -/
theorem reports_step_iff (a : Action I) (hs : s.Inv) (hgood : s.Reports formatId)
    (h : step formatId s a = some t) : t.Reports formatId ↔ s.harmless a := by
  rw [reports_iff_pending] at hgood ⊢
  cases step_cases h with
  | @start id fresh =>
      show _ ↔ (s.sStacks id).getD [] = []
      have hnone := hs.unstarted s.ids.length le_rfl
      constructor
      · exact fun hall => (hall _ id (idOf_start.mpr (.inr ⟨rfl, rfl⟩))).trans hnone
      · intro hempty thread id' hid
        rcases idOf_start.mp hid with hid | ⟨rfl, rfl⟩
        · exact hgood thread id' hid
        · exact hempty.trans hnone.symm
  | @push thread id running ret str location =>
      refine iff_of_true (fun thread' id' hid => ?_) trivial
      rw [pending_concat_push]
      show (Function.update s.sStacks id _ id').getD [] = _
      by_cases heq : thread = thread'
      · subst heq
        obtain rfl : id = id' := Option.some.inj (running.symm.trans hid)
        rw [if_pos rfl, Function.update_self, hgood thread id running]
        rfl
      · have hne : id' ≠ id := fun hid' => heq (hs.distinct _ _ id running (hid' ▸ hid))
        rw [if_neg heq, Function.update_of_ne hne]
        exact hgood thread' id' hid
  | @logAll thread id running sStacks empty others =>
      refine iff_of_true (fun thread' id' hid => ?_) trivial
      rw [pending_concat_logAll]
      by_cases heq : thread = thread'
      · subst heq
        obtain rfl : id = id' := Option.some.inj (running.symm.trans hid)
        rw [if_pos rfl]
        exact empty
      · have hne : id' ≠ id := fun hid' => heq (hs.distinct _ _ id running (hid' ▸ hid))
        rw [if_neg heq, ← hgood thread' id' hid]
        exact congrArg (Option.getD · []) (others id' hne)
  | finish running => exact iff_of_true (fun thread id hid => hgood thread id (idOf_finish.mp hid).2) trivial

/-- **When error reports are complete and per thread.** Whatever threads start, push, log and end, in
whatever order: in every state of the run each running thread logs exactly what it has pushed since it last
logged, exactly when none has started under the id of an ended one whose stack was not empty. -/
theorem reports_iff (formatId : I → Str) (as : List (Action I)) (s : Threads I)
    (h : run (step formatId) start as = some s) :
    (∀ before t, before <+: as → run (step formatId) start before = some t → t.Reports formatId) ↔
      Along (step formatId) harmless start as :=
  good_throughout_iff (fun _ a _ => inv_step a) (fun _ a _ => reports_step_iff a) inv_start
    (reports_iff_pending.mpr nofun) h

/-- The thread with id 5 logs and ends; then another one gets the id. -/
def handedOn : List (Action Nat) :=
  [.start 5, .start 6, .push 0 none "x".toList ⟨"f".toList, "a.cpp".toList, 1⟩,
    .push 1 none "y".toList ⟨"f".toList, "a.cpp".toList, 1⟩, .logAll 0, .finish 0, .start 5,
    .push 2 (some .eFailure) "z".toList ⟨"g".toList, "a.cpp".toList, 2⟩]

theorem reports_handedOn :
    ∃ s, run (step fun id : Nat => id.repr.toList) start handedOn = some s ∧ s.idOf 2 = some 5 ∧
      s.Reports fun id => id.repr.toList := by
  have hview : (run (step fun id : Nat => id.repr.toList) start handedOn).map (·.idOf 2) = some (some 5) := by
    decide +kernel
  obtain ⟨s, hrun, hid⟩ := Option.map_eq_some_iff.mp hview
  have hharmless : Along (step fun id : Nat => id.repr.toList) harmless start handedOn := by decide +kernel
  exact ⟨s, hrun, hid, (reports_iff _ handedOn s hrun).mpr hharmless handedOn s List.prefix_rfl hrun⟩

/-- A thread ends with a message pending, and the next one gets its id. -/
theorem reports_reused :
    ∃ s : Threads Nat, run (step fun id => id.repr.toList) start
        [.start 5, .push 0 none "x".toList ⟨"f".toList, "a.cpp".toList, 1⟩, .finish 0, .start 5] = some s ∧
      s.idOf 1 = some 5 ∧ pending 1 s.events = [] ∧ ¬ s.Reports fun id => id.repr.toList := by
  refine ⟨_, rfl, rfl, rfl, fun h => ?_⟩
  have hstack := reports_iff_pending.mp h 1 5 rfl
  cases hstack

end Threads

end Fipper

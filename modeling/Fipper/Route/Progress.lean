import Fipper.Route.String

/-!
# The loop of the matcher ends and stays in range

`isInstanceLoop` has as arguments that its cursors are in range. Here the loop is taken round by round,
from any two positions, and every access to a string checks that it lies in the string.

* `isInstanceRound` : one test of the condition and one round; `isInstanceRounds` : so many of them;
* `Visits` : the cursors with which the loop comes to its condition;
* `isInstance_progress` : no check ever fails, each round moves the cursor of the template on, and the
  loop ends with the result of `isInstanceLoop`.
-/

namespace Fipper

open Lib

/-- `std::find` from a position that has to be in `s`. -/
def checkedFind (s : Str) (i : Nat) (c : Char) : Except Fault Nat :=
  if i ≤ s.length then .ok (find s i c) else .error .undefined

/-- `std::string_view{begin, end}` on two positions that have to be in `s`, in this order. -/
def checkedSlice (s : Str) (i : Nat) (j : Int) : Except Fault Str :=
  if i ≤ j ∧ j ≤ s.length then .ok (slice s i j.toNat) else .error .undefined

structure Cursors where
  beginStr : Nat
  beginRoute : Nat
  deriving DecidableEq, Repr

inductive Round
  | returned (result : Bool)
  | next (cursors : Cursors)
  deriving DecidableEq, Repr

/-- The condition of the loop of `RouteString<Params...>::isInstance`, and one round of it. -/
def isInstanceRound (str route : Str) (cursors : Cursors) : Except Fault Round :=
  let ⟨beginStr, beginRoute⟩ := cursors
  if beginStr ≠ str.length ∧ beginRoute ≠ route.length then do
    let it ← checkedFind str beginStr '{'
    let length : Int := it - beginStr
    let availableLength : Int := route.length - beginRoute
    if length > availableLength then return .returned false
    else
    let literal ← checkedSlice str beginStr it
    let text ← checkedSlice route beginRoute (beginRoute + length)
    if literal ≠ text then return .returned false
    else
    let nextStr ← checkedFind str it '/'
    let nextRoute ← checkedFind route (beginRoute + length).toNat '/'
    if xor (nextStr == str.length) (nextRoute == route.length) then return .returned false
    else return .next ⟨nextStr, nextRoute⟩
  else return .returned true

/-- At most so many rounds; `none` when the loop goes on after them. -/
def isInstanceRounds (str route : Str) : Nat → Cursors → Except Fault (Option Bool)
  | 0, _ => return none
  | rounds + 1, cursors => do
      match ← isInstanceRound str route cursors with
      | .returned result => return some result
      | .next cursors => isInstanceRounds str route rounds cursors

/-- The cursors with which the loop comes to its condition. -/
inductive Visits (str route : Str) : Cursors → Prop
  | begin : Visits str route ⟨0, 0⟩
  | next {cursors cursors' : Cursors} : Visits str route cursors →
      isInstanceRound str route cursors = .ok (.next cursors') → Visits str route cursors'

/-- Both cursors lie in their strings. -/
structure InRange (str route : Str) (cursors : Cursors) : Prop where
  beginStr : cursors.beginStr ≤ str.length
  beginRoute : cursors.beginRoute ≤ route.length

variable {str route : Str} {cursors cursors' : Cursors}

/-- One round from cursors in range: no check fails, and the loop is left with its result, or the
cursor of the template has moved on and the rest of the loop gives the result. -/
theorem isInstanceRound_cases (h : InRange str route cursors) :
    (∃ result, isInstanceRound str route cursors = .ok (.returned result) ∧
      isInstanceLoop str route cursors.beginStr cursors.beginRoute h.beginStr h.beginRoute = result) ∨
    ∃ (cursors' : Cursors) (h' : InRange str route cursors'),
      isInstanceRound str route cursors = .ok (.next cursors') ∧ cursors.beginStr < cursors'.beginStr ∧
        isInstanceLoop str route cursors.beginStr cursors.beginRoute h.beginStr h.beginRoute =
          isInstanceLoop str route cursors'.beginStr cursors'.beginRoute h'.beginStr h'.beginRoute := by
  obtain ⟨beginStr, beginRoute⟩ := cursors
  obtain ⟨hs, hr⟩ := h
  dsimp only at hs hr
  rw [isInstanceLoop]
  unfold isInstanceRound
  dsimp only
  by_cases hguard : beginStr ≠ str.length ∧ beginRoute ≠ route.length
  · rw [if_pos hguard, dif_pos hguard, checkedFind, if_pos hs]
    have hit : find str beginStr '{' ≤ str.length := find_le hs _
    have hle : beginStr ≤ find str beginStr '{' := le_find str beginStr '{'
    simp only [bind, Except.bind]
    by_cases hlength : find str beginStr '{' - beginStr > route.length - beginRoute
    · rw [if_pos (by omega), dif_pos hlength]
      exact .inl ⟨false, rfl, rfl⟩
    · have hend : ((beginRoute : Int) + (find str beginStr '{' - beginStr)).toNat =
          beginRoute + (find str beginStr '{' - beginStr) := by omega
      rw [if_neg (by omega), dif_neg hlength, checkedSlice, if_pos (by omega), checkedSlice,
        if_pos (by omega), hend, Int.toNat_natCast]
      dsimp only
      split
      · exact .inl ⟨false, rfl, rfl⟩
      · rw [checkedFind, if_pos hit, checkedFind, if_pos (by omega)]
        dsimp only
        split
        · exact .inl ⟨false, rfl, rfl⟩
        · exact .inr ⟨⟨_, _⟩, ⟨find_le hit _, find_le (by omega) _⟩, rfl,
            lt_find_find (Nat.lt_of_le_of_ne hs hguard.1), rfl⟩
  · rw [if_neg hguard, dif_neg hguard]
    exact .inl ⟨true, rfl, rfl⟩

theorem InRange.next (h : InRange str route cursors)
    (hround : isInstanceRound str route cursors = .ok (.next cursors')) :
    InRange str route cursors' ∧ cursors.beginStr < cursors'.beginStr := by
  rcases isInstanceRound_cases h with ⟨result, hresult, -⟩ | ⟨cursors'', h', hnext, hlt, -⟩
  · rw [hround] at hresult
    cases hresult
  · rw [hround] at hnext
    cases hnext
    exact ⟨h', hlt⟩

theorem Visits.inRange (h : Visits str route cursors) : InRange str route cursors := by
  induction h with
  | begin => exact ⟨Nat.zero_le _, Nat.zero_le _⟩
  | next _ hround ih => exact (ih.next hround).1

/-- What is left of the template bounds the number of rounds. -/
theorem isInstanceRounds_eq (rounds : Nat) : ∀ {cursors : Cursors} (h : InRange str route cursors),
    str.length - cursors.beginStr < rounds →
      isInstanceRounds str route rounds cursors = .ok (some
        (isInstanceLoop str route cursors.beginStr cursors.beginRoute h.beginStr h.beginRoute)) := by
  induction rounds with
  | zero => exact fun _ hlt => absurd hlt (Nat.not_lt_zero _)
  | succ rounds ih =>
      intro cursors h hlt
      rw [isInstanceRounds]
      rcases isInstanceRound_cases h with ⟨result, hround, hloop⟩ | ⟨cursors', h', hround, hmoves, hloop⟩
      · rw [hround, hloop]
        rfl
      · have hrest := ih h' (by have := h'.beginStr; omega)
        rw [hround, hloop, ← hrest]
        rfl

/-- **The matcher's loop ends and stays in range.** For every template and every route, well formed or
not: whenever the loop comes to its condition, both cursors lie in their strings, no access of the next
round is out of range, and if there is one more, the cursor of the template is further on; and after at
most one round for each character of the template and one more, the loop is left with a result. -/
theorem isInstance_progress (str route : Str) :
    (∀ cursors, Visits str route cursors →
      InRange str route cursors ∧ (∃ round, isInstanceRound str route cursors = .ok round) ∧
        ∀ cursors', isInstanceRound str route cursors = .ok (.next cursors') →
          cursors.beginStr < cursors'.beginStr) ∧
      isInstanceRounds str route (str.length + 1) ⟨0, 0⟩ =
        .ok (some (isInstanceLoop str route 0 0 (Nat.zero_le _) (Nat.zero_le _))) := by
  constructor
  · intro cursors h
    refine ⟨h.inRange, ?_, fun cursors' hround => (h.inRange.next hround).2⟩
    rcases isInstanceRound_cases h.inRange with ⟨result, hround, -⟩ | ⟨cursors', -, hround, -⟩
    · exact ⟨_, hround⟩
    · exact ⟨_, hround⟩
  · exact isInstanceRounds_eq (str.length + 1) ⟨Nat.zero_le _, Nat.zero_le _⟩ (by omega)

/-- A template that begins with a brace and never closes it. -/
example : isInstanceRounds "\x7ba/\x7db/\x7b".toList "x/y/z".toList 8 ⟨0, 0⟩ = .ok (some false) := by decide +kernel

end Fipper

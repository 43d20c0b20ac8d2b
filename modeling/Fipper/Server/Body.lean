import Fipper.Server.Dispatch

/-!
# The body of a request

What `Endpoint<Func>::handleRequest` gives to `Request::deserialize`.

* `requestBody` : the view it makes, `handed` : the view it gives away, if it comes to that;
* `handleRequest_of_handed` : of the deserialisation, only its result on that view matters;
* `TakesBody` : the view is what follows the first empty line, and without one the request is refused;
* `handed_of_none` : what is deserialised without one;
* `takesBody_iff` : for which requests.
-/

namespace Fipper

open Lib

variable {E V : Type} [RouteStringExtractor E V] {B R : Type}

/-- `"\r\n\r\n"`. -/
def emptyLine : Str := "\r\n\r\n".toList

namespace Endpoint

/-- `requestBody`, the view between two iterators of the request. -/
def requestBody (requestString : Str) : Except Fault Str :=
  if bodyBegin requestString ≤ requestString.length then
    .ok (requestString.drop (bodyBegin requestString))
  else .error .undefined

/-- The view that `handleRequest` passes to `Request::deserialize`; `none` when the request is refused
before, or has no body. -/
def handed (endpoint : Endpoint E (Callback V B R)) (comesBack : Bool) (requestString : Str) :
    Except Fault (Option Str) := do
  let requestRoute ← token requestString 1
  match ← endpoint.params comesBack requestRoute with
  | none => return none
  | some _ =>
      match endpoint.callback.deserialize with
      | none => return none
      | some _ => return some (← requestBody requestString)

/-- The request is refused for its parameters. -/
def ParamsRefused (endpoint : Endpoint E (Callback V B R)) (comesBack : Bool) (requestString : Str) :
    Prop :=
  ∃ requestRoute, token requestString 1 = .ok requestRoute ∧
    endpoint.params comesBack requestRoute = .ok none

/-- The parameters are there. -/
def ParamsAccepted (endpoint : Endpoint E (Callback V B R)) (comesBack : Bool) (requestString : Str) :
    Prop :=
  ∃ requestRoute params, token requestString 1 = .ok requestRoute ∧
    endpoint.params comesBack requestRoute = .ok (some params)

/-- The body that is deserialised is the body of the message. -/
structure TakesBody (endpoint : Endpoint E (Callback V B R)) (comesBack : Bool) (requestString : Str) :
    Prop where
  suffix : ∀ i, findText requestString emptyLine = some i →
    endpoint.ParamsAccepted comesBack requestString →
      endpoint.handed comesBack requestString = .ok (some (requestString.drop (i + emptyLine.length)))
  refused : findText requestString emptyLine = none →
    endpoint.handed comesBack requestString = .ok none ∧
      endpoint.handleRequest comesBack requestString = .ok (.sent badRequest)

variable {endpoint : Endpoint E (Callback V B R)} {comesBack : Bool} {requestString : Str}
  {deserialize : Str → Option B}

theorem body_eq (hbody : endpoint.callback.deserialize = some deserialize) :
    endpoint.body requestString =
      (requestBody requestString).map fun view => (deserialize view).map some := by
  unfold body requestBody
  rw [hbody]
  dsimp only
  split
  · rfl
  · rfl

theorem handed_of_accepted (hbody : endpoint.callback.deserialize = some deserialize)
    (h : endpoint.ParamsAccepted comesBack requestString) :
    endpoint.handed comesBack requestString = (requestBody requestString).map some := by
  obtain ⟨requestRoute, params, htoken, hparams⟩ := h
  simp only [handed, htoken, hparams, hbody, bind, Except.bind]
  cases requestBody requestString with
  | error fault => rfl
  | ok view => rfl

/-- A request that is refused for its parameters is answered so, and its body is not looked at. -/
theorem handed_of_refused (h : endpoint.ParamsRefused comesBack requestString) :
    endpoint.handed comesBack requestString = .ok none ∧
      endpoint.handleRequest comesBack requestString = .ok (.sent badRequest) := by
  obtain ⟨requestRoute, htoken, hparams⟩ := h
  simp only [handed, handleRequest, htoken, hparams, bind, Except.bind]
  exact ⟨rfl, rfl⟩

/-- Before the body comes up: undefined behaviour, a refusal, or the parameters. -/
theorem params_cases (endpoint : Endpoint E (Callback V B R)) (comesBack : Bool) (requestString : Str) :
    (∃ fault, endpoint.handed comesBack requestString = .error fault) ∨
      endpoint.ParamsRefused comesBack requestString ∨
      endpoint.ParamsAccepted comesBack requestString := by
  cases htoken : token requestString 1 with
  | error fault =>
      refine .inl ⟨fault, ?_⟩
      simp only [handed, htoken, bind, Except.bind]
  | ok requestRoute =>
      cases hparams : endpoint.params comesBack requestRoute with
      | error fault =>
          refine .inl ⟨fault, ?_⟩
          simp only [handed, htoken, hparams, bind, Except.bind]
      | ok params =>
          cases params with
          | none => exact .inr (.inl ⟨requestRoute, htoken, hparams⟩)
          | some params => exact .inr (.inr ⟨requestRoute, params, htoken, hparams⟩)

/-- With the parameters there, what is handed over is the view that is made. -/
theorem requestBody_of_handed (hbody : endpoint.callback.deserialize = some deserialize)
    (haccepted : endpoint.ParamsAccepted comesBack requestString) {handed : Option Str}
    (h : endpoint.handed comesBack requestString = .ok handed) :
    ∃ view, handed = some view ∧ requestBody requestString = .ok view := by
  rw [handed_of_accepted hbody haccepted] at h
  cases hview : requestBody requestString with
  | error fault =>
      rw [hview] at h
      cases h
  | ok view =>
      rw [hview] at h
      cases h
      exact ⟨view, rfl, rfl⟩

/-- Of a request type with a body, only a refusal keeps the body from being handed over. -/
theorem refused_of_handed (hbody : endpoint.callback.deserialize = some deserialize)
    (h : endpoint.handed comesBack requestString = .ok none) :
    endpoint.ParamsRefused comesBack requestString := by
  rcases params_cases endpoint comesBack requestString with ⟨fault, hfault⟩ | hrefused | haccepted
  · rw [h] at hfault
    cases hfault
  · exact hrefused
  · obtain ⟨view, hview, -⟩ := requestBody_of_handed hbody haccepted h
    cases hview

/-- Of the deserialisation only the result on that view matters: without one the request is refused,
and with one the callback gets it. -/
theorem handleRequest_of_handed (hbody : endpoint.callback.deserialize = some deserialize) {view : Str}
    (h : endpoint.handed comesBack requestString = .ok (some view)) :
    (deserialize view = none →
        endpoint.handleRequest comesBack requestString = .ok (.sent badRequest)) ∧
      ∃ params, ∀ body, deserialize view = some body →
        endpoint.handleRequest comesBack requestString =
          (endpoint.callback.invoke ⟨params, some body⟩).bind fun
            | .code code response => endpoint.respond code response
            | .void response => endpoint.respond .e200 response
            | .async => .ok .driving := by
  rcases params_cases endpoint comesBack requestString with ⟨fault, hfault⟩ | hrefused | haccepted
  · rw [h] at hfault
    cases hfault
  · rw [(handed_of_refused hrefused).1] at h
    cases h
  · obtain ⟨_, heq, hview⟩ := requestBody_of_handed hbody haccepted h
    obtain rfl := Option.some.inj heq
    obtain ⟨requestRoute, params, htoken, hparams⟩ := haccepted
    refine ⟨fun hnone => ?_, params, fun body hsome => ?_⟩
    · simp only [handleRequest, htoken, hparams, body_eq hbody, hview, hnone, bind, Except.bind,
        Except.map, Option.map]
      rfl
    · simp only [handleRequest, htoken, hparams, body_eq hbody, hview, hsome, bind, Except.bind,
        Except.map, Option.map]
      rfl

/-! ## Where the body begins -/

theorem bodyBegin_of_some {i : Nat} (hsize : requestString.length < UInt64.size)
    (h : findText requestString emptyLine = some i) :
    bodyBegin requestString = i + emptyLine.length ∧
      i + emptyLine.length ≤ requestString.length := by
  have hle : i + emptyLine.length ≤ requestString.length := le_of_findText h
  have hbegin : bodyBegin requestString =
      ((findText requestString emptyLine).getD (UInt64.size - 1) + 4) % UInt64.size := rfl
  rw [hbegin, h, Option.getD_some]
  exact ⟨Nat.mod_eq_of_lt (Nat.lt_of_le_of_lt hle hsize), hle⟩

/-- Behind the sentinel of a search that fails the count starts over. -/
theorem bodyBegin_of_none (h : findText requestString emptyLine = none) : bodyBegin requestString = 3 := by
  have hbegin : bodyBegin requestString =
      ((findText requestString emptyLine).getD (UInt64.size - 1) + 4) % UInt64.size := rfl
  rw [hbegin, h, Option.getD_none]
  rfl

/-- Without an empty line, a request with its parameters is taken for its own body, from the fourth
letter on. -/
theorem handed_of_none (hbody : endpoint.callback.deserialize = some deserialize)
    (haccepted : endpoint.ParamsAccepted comesBack requestString)
    (h : findText requestString emptyLine = none) (hlength : 3 ≤ requestString.length) :
    endpoint.handed comesBack requestString = .ok (some (requestString.drop 3)) := by
  rw [handed_of_accepted hbody haccepted, requestBody, bodyBegin_of_none h, if_pos hlength]
  rfl

/-- **When the body of the message is deserialised.** Exactly if the request has an empty line, or is
refused for its parameters before. -/
theorem takesBody_iff (endpoint : Endpoint E (Callback V B R)) (comesBack : Bool) {requestString : Str}
    (hbody : endpoint.callback.deserialize ≠ none) (hsize : requestString.length < UInt64.size) :
    endpoint.TakesBody comesBack requestString ↔
      findText requestString emptyLine ≠ none ∨ endpoint.ParamsRefused comesBack requestString := by
  obtain ⟨deserialize, hbody⟩ := Option.ne_none_iff_exists'.mp hbody
  constructor
  · intro h
    by_cases hnone : findText requestString emptyLine = none
    · exact .inr (refused_of_handed hbody (h.refused hnone).1)
    · exact .inl hnone
  · intro h
    constructor
    · intro i hi haccepted
      obtain ⟨hbegin, hle⟩ := bodyBegin_of_some hsize hi
      rw [handed_of_accepted hbody haccepted, requestBody, hbegin, if_pos hle]
      rfl
    · intro hnone
      exact handed_of_refused (h.resolve_left fun hsome => hsome hnone)

end Endpoint

/-- `POST /note` with a text for a body. -/
def note : Endpoint StringExtractor (Callback Str Str Unit) :=
  ⟨.ePost, .plain ⟨"/note".toList, rfl⟩, some some, fun _ => .void { body := () }, none, false, false⟩

theorem takesBody_note : note.TakesBody true "POST /note HTTP/1.1\r\n\r\nbuy milk".toList :=
  (Endpoint.takesBody_iff note true (Option.some_ne_none _) (by decide)).mpr (.inl (by decide +kernel))

/-- Without an empty line, all but three letters of the request is taken for its body. -/
theorem note_takes_header :
    note.handed true "POST /note HTTP/1.1".toList = .ok (some "T /note HTTP/1.1".toList) ∧
      ¬ note.TakesBody true "POST /note HTTP/1.1".toList := by
  have hhanded : note.handed true "POST /note HTTP/1.1".toList = .ok (some "T /note HTTP/1.1".toList) := by
    rfl
  refine ⟨hhanded, fun h => ?_⟩
  have hrefused := (h.refused (by decide +kernel)).1
  rw [hhanded] at hrefused
  cases hrefused

end Fipper

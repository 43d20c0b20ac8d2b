import Fipper.Route.Extract
import Fipper.Server.Endpoints
import Fipper.Server.Response

/-!
# From the request text to the endpoint

The job of `Server::m_handleRequest` and `Endpoint<Func>::handleRequest`, which split the text of the
request each for itself. A token that the split does not have is a `missingToken` when it is read.

* `Server.handleRequest` : an error message, or the endpoint that gets the request;
* `Endpoint.handleRequest` : parameters, body, callback, response;
* `tokens_defined_iff` : for which requests every token that is read is there.
-/

namespace Fipper

open Lib

variable {E V : Type} [RouteStringExtractor E V] {B R : Type}

/-- `*++...++split.begin()` with `i` increments, on the split of the request at ' '. -/
def token (request : Str) (i : Nat) : Except Fault Str :=
  match (split ' ' request)[i]? with
  | none => .error .missingToken
  | some str => .ok str

/-- `fp::Request`, as the callback gets it: names and values of the parameters, and the body, each if
the request type has them. -/
structure Request (V B : Type) where
  params : Option (List Str × List V)
  body : Option B

/-- What a callback does: it returns a code or nothing, or it is a coroutine. -/
inductive Returned (R : Type)
  | code (code : HttpCode) (response : Response R)
  | void (response : Response R)
  | async

/-- A callback with the operations of its request and response types; `none` where these have no
body. The endpoint has a reference to the object that was registered, and no copy of it. -/
structure Callback (V B R : Type) where
  deserialize : Option (Str → Option B)
  call : Request V B → Returned R
  serialize : Option (R → Option Serialized)
  /-- A call reads the object: it has captured something. -/
  captures : Bool
  /-- The object still exists when requests come; a temporary does not. -/
  alive : Bool

/-- The object is there if a call needs it. -/
def Callback.usable (callback : Callback V B R) : Bool := !callback.captures || callback.alive

/-- `this->m_callback(request, response)`. -/
def Callback.invoke (callback : Callback V B R) (request : Request V B) : Except Fault (Returned R) :=
  if callback.usable then .ok (callback.call request) else .error .undefined

/-- What `handleRequest` leaves: a message sent on the connection, or a coroutine to be driven. -/
inductive Handled
  | sent (message : Str)
  | driving
  deriving DecidableEq, Repr

def badRequest : Str := "HTTP/1.1 400 Bad Request".toList

def notFound : Str := "HTTP/1.1 404 Not Found".toList

def methodNotAllowed : Str := "HTTP/1.1 405 Method Not Allowed".toList

/-! ## `Endpoint<Func>::handleRequest` -/

namespace Endpoint

/-- The parameters, if the request type has any; `none` when they can't be extracted. -/
def params (endpoint : Endpoint E (Callback V B R)) (comesBack : Bool) (requestRoute : Str) :
    Except Fault (Option (Option (List Str × List V))) :=
  match endpoint.route with
  | .plain _ => .ok (some none)
  | .params routeString => do
      match ← routeString.extractParamsFromInstance comesBack requestRoute with
      | none => return none
      | some params => return some (some (routeString.paramNames, params))

/-- `requestString.find("\r\n\r\n") + 4` in 64 bits; `npos`, when nothing is found, is the last of
their numbers. -/
def bodyBegin (requestString : Str) : Nat :=
  ((findText requestString "\r\n\r\n".toList).getD (UInt64.size - 1) + 4) % UInt64.size

/-- The body, if the request type has one; `none` when it can't be deserialised. -/
def body (endpoint : Endpoint E (Callback V B R)) (requestString : Str) :
    Except Fault (Option (Option B)) :=
  match endpoint.callback.deserialize with
  | none => .ok (some none)
  | some deserialize =>
      if bodyBegin requestString ≤ requestString.length then
        .ok ((deserialize (requestString.drop (bodyBegin requestString))).map some)
      else .error .undefined

/-- The response of a synchronous callback. -/
def respond (endpoint : Endpoint E (Callback V B R)) (code : HttpCode) (response : Response R) :
    Except Fault Handled :=
  match endpoint.callback.serialize with
  | none => .ok (.sent (responseData code))
  | some serialize => do
      let (data, contentType) ← response.serialize serialize
      return .sent (responseDataWithBody code contentType data)

def handleRequest (endpoint : Endpoint E (Callback V B R)) (comesBack : Bool) (requestString : Str) :
    Except Fault Handled := do
  let requestRoute ← token requestString 1
  match ← endpoint.params comesBack requestRoute with
  | none => return .sent badRequest
  | some params =>
      match ← endpoint.body requestString with
      | none => return .sent badRequest
      | some body =>
          match ← endpoint.callback.invoke ⟨params, body⟩ with
          | .code code response => endpoint.respond code response
          | .void response => endpoint.respond .e200 response
          | .async => return .driving

end Endpoint

/-! ## `Server::m_handleRequest` -/

/-- `methodMap`. -/
def methodMap (methodString : Str) : Option HttpMethod :=
  if methodString = "GET".toList then some .eGet
  else if methodString = "PUT".toList then some .ePut
  else if methodString = "POST".toList then some .ePost
  else if methodString = "PATCH".toList then some .ePatch
  else if methodString = "DELETE".toList then some .eDelete
  else none

/-- What the job does with the request: it sends a message, or an endpoint handles it. -/
inductive Dispatched (E : Type) {V : Type} [RouteStringExtractor E V] (C : Type)
  | send (message : Str)
  | handle (endpoint : Endpoint E C)

namespace Server

/-- The search of the job for an endpoint. -/
def dispatch {C : Type} (endpoints : List (Entry E C)) (request : Str) :
    Except Fault (Dispatched E C) := do
  let methodString ← token request 0
  match methodMap methodString with
  | none => return .send badRequest
  | some method =>
      let routeString ← token request 1
      match lookup endpoints method routeString with
      | .notFound => return .send notFound
      | .methodNotAllowed => return .send methodNotAllowed
      | .found endpoint => return .handle endpoint

/-- The job that `m_handleRequest` pushes: what is done, and which endpoint it is handed to. -/
def handleRequest (endpoints : List (Entry E (Callback V B R))) (comesBack : Bool) (request : Str) :
    Except Fault (Option (Endpoint E (Callback V B R)) × Handled) := do
  match ← dispatch endpoints request with
  | .send message => return (none, .sent message)
  | .handle endpoint => return (some endpoint, ← endpoint.handleRequest comesBack request)

end Server

/-! ## Which tokens are read -/

/-- Every token that was read is there. -/
def TokensThere {α : Type} (x : Except Fault α) : Prop := x ≠ .error .missingToken

theorem TokensThere.ok {α : Type} (a : α) : TokensThere (.ok a) := nofun

theorem TokensThere.undefined {α : Type} : TokensThere (.error .undefined : Except Fault α) := nofun

theorem TokensThere.bind {α β : Type} {x : Except Fault α} {f : α → Except Fault β}
    (hx : TokensThere x) (hf : ∀ a, TokensThere (f a)) : TokensThere (x >>= f) := by
  cases x with
  | error fault => exact fun h => hx (by cases h; rfl)
  | ok a => exact hf a

theorem TokensThere.ite {α : Type} {p : Prop} [Decidable p] {x y : Except Fault α}
    (hx : TokensThere x) (hy : TokensThere y) : TokensThere (if p then x else y) := by
  split
  · exact hx
  · exact hy

theorem tokensThere_search (b : Buffers) (first last : Iterator) (c : Char) :
    TokensThere (b.search first last c) := by
  unfold Buffers.search
  split
  · exact .ite (.ite (.ok _) .undefined) (.ite (.ok _) .undefined)
  · exact .undefined

theorem tokensThere_extractParam (b : Buffers)
    (beginTemplate endTemplate beginInstance endInstance : Iterator) (extractors : List E) :
    TokensThere (extractParam b beginTemplate endTemplate beginInstance endInstance extractors :
      Except Fault (Option (List V))) := by
  by_cases hone : extractors.length = 1
  swap
  · rw [extractParam_illFormed _ _ _ _ _ hone]
    nofun
  obtain ⟨extractor, rfl⟩ := List.length_eq_one_iff.mp hone
  unfold extractParam
  refine .bind (tokensThere_search b _ _ _) fun it => .bind ?_ fun length => .bind ?_
    fun beginInstance => .bind (tokensThere_search b _ _ _) fun it => .bind ?_ fun str => ?_
  · unfold Buffers.distance
    split
    · exact .ite (.ok _) .undefined
    · exact .undefined
  · unfold Buffers.advance
    split
    · exact .ite (.ok _) .undefined
    · exact .undefined
  · unfold Buffers.view
    split
    · exact .ite (.ok _) .undefined
    · exact .undefined
  · split
    · exact .ok _
    · exact .bind (tokensThere_search b _ _ _) fun beginTemplate => .ok _

theorem tokensThere_respond (endpoint : Endpoint E (Callback V B R)) (code : HttpCode)
    (response : Response R) : TokensThere (endpoint.respond code response) := by
  unfold Endpoint.respond
  split
  · exact .ok _
  · refine .bind ?_ fun data => .ok _
    unfold Response.serialize
    split
    · exact .undefined
    · exact .ok _

/-- The endpoint reads the second token and no other. -/
theorem tokensThere_handleRequest (endpoint : Endpoint E (Callback V B R)) (comesBack : Bool)
    {request : Str} (h : TokensThere (token request 1)) :
    TokensThere (endpoint.handleRequest comesBack request) := by
  unfold Endpoint.handleRequest
  refine .bind h fun requestRoute => .bind ?_ fun params => ?_
  · unfold Endpoint.params
    split
    · exact .ok _
    · refine .bind (tokensThere_extractParam _ _ _ _ _ _) fun params => ?_
      split <;> exact .ok _
  · split
    · exact .ok _
    · refine .bind ?_ fun body => ?_
      · unfold Endpoint.body
        split
        · exact .ok _
        · exact .ite (.ok _) .undefined
      · split
        · exact .ok _
        · refine .bind (.ite (.ok _) .undefined) fun returned => ?_
          split
          · exact tokensThere_respond _ _ _
          · exact tokensThere_respond _ _ _
          · exact .ok _

theorem space_notMem_of_methodMap {str : Str} {method : HttpMethod} (h : methodMap str = some method) :
    ' ' ∉ str := by
  unfold methodMap at h
  split_ifs at h with h1 h2 h3 h4 h5
  all_goals subst_vars; decide

theorem tokensThere_of_space (endpoints : List (Entry E (Callback V B R))) (comesBack : Bool)
    {request : Str} (h : ' ' ∈ request) :
    TokensThere (Server.handleRequest endpoints comesBack request) := by
  obtain ⟨first, second, rest, hsplit⟩ := split_of_mem h
  have hfirst : token request 0 = .ok first := by rw [token, hsplit]; rfl
  have hsecond : token request 1 = .ok second := by rw [token, hsplit]; rfl
  unfold Server.handleRequest Server.dispatch
  rw [hfirst, hsecond]
  refine .bind (.bind (.ok _) fun methodString => ?_) fun dispatched => ?_
  · split
    · exact .ok _
    · refine .bind (.ok _) fun routeString => ?_
      split <;> exact .ok _
  · split
    · exact .ok _
    · refine .bind (tokensThere_handleRequest _ comesBack ?_) fun handled => .ok _
      rw [hsecond]
      exact .ok _

/-- A request of one token is refused, unless it is the name of a method. -/
theorem handleRequest_oneToken (endpoints : List (Entry E (Callback V B R))) (comesBack : Bool)
    {request : Str} (hnil : request ≠ []) (hspace : ' ' ∉ request) :
    Server.handleRequest endpoints comesBack request =
      match methodMap request with
      | none => .ok (none, .sent badRequest)
      | some _ => .error .missingToken := by
  have hsplit := split_of_notMem hnil hspace
  have hfirst : token request 0 = .ok request := by rw [token, hsplit]; rfl
  have hsecond : token request 1 = .error .missingToken := by rw [token, hsplit]; rfl
  unfold Server.handleRequest Server.dispatch
  rw [hfirst, hsecond]
  cases hmethod : methodMap request with
  | none =>
      simp only [bind, Except.bind, hmethod]
      rfl
  | some method => simp only [bind, Except.bind, hmethod]

/-- **When dispatch is defined.** Only tokens that the split has are read, and a request with fewer
than two is answered with an error, exactly when it is neither empty nor just the name of a method. -/
theorem tokens_defined_iff (endpoints : List (Entry E (Callback V B R))) (comesBack : Bool)
    (request : Str) :
    (TokensThere (Server.handleRequest endpoints comesBack request) ∧
        ((split ' ' request).length < 2 →
          ∃ message ∈ [badRequest, notFound, methodNotAllowed],
            Server.handleRequest endpoints comesBack request = .ok (none, .sent message))) ↔
      request ≠ [] ∧ methodMap request = none := by
  by_cases hnil : request = []
  · subst hnil
    have hempty : Server.handleRequest endpoints comesBack [] = .error .missingToken := rfl
    exact ⟨fun h => absurd hempty h.1, fun h => absurd rfl h.1⟩
  by_cases hspace : ' ' ∈ request
  · have hmethod : methodMap request = none := by
      cases h : methodMap request with
      | none => rfl
      | some method => exact absurd hspace (space_notMem_of_methodMap h)
    refine iff_of_true ⟨tokensThere_of_space endpoints comesBack hspace, fun hlen => ?_⟩
      ⟨hnil, hmethod⟩
    obtain ⟨first, second, rest, hsplit⟩ := split_of_mem hspace
    rw [hsplit, List.length_cons, List.length_cons] at hlen
    omega
  · rw [handleRequest_oneToken endpoints comesBack hnil hspace]
    cases hmethod : methodMap request with
    | none => exact iff_of_true ⟨.ok _, fun _ => ⟨_, List.mem_cons_self, rfl⟩⟩ ⟨hnil, rfl⟩
    | some method => exact iff_of_false (fun h => h.1 rfl) fun h => nomatch h.2

/-- The request `GET` has no second token to read. -/
theorem get_missingToken :
    ¬ TokensThere (Server.handleRequest ([] : List (Entry StringExtractor (Callback Str Unit Unit)))
      true "GET".toList) :=
  fun h => h rfl

end Fipper

import Fipper.Lib.Numeral
import Fipper.Server.Dispatch

/-!
# The messages of a request

What is sent on the connection while a request is handled. `Sending` keeps the messages in the order of
the calls of `Socket::send`; `serve` are the same functions as in the module before, with these calls.

* `serve_eq` : one message is sent for a synchronous endpoint, the one that `handleRequest` gives;
* `Complete` : a status line, headers, an empty line, a body;
* `serve_complete_iff` : which requests are answered with such a message.
-/

namespace Fipper

open Lib

variable {E V : Type} [RouteStringExtractor E V] {B R : Type}

/-- A computation that sends messages. -/
abbrev Sending := StateT (List Str) (Except Fault)

/-- `Socket::send`. -/
def send (message : Str) : Sending Unit := modify (· ++ [message])

/-- The messages sent so far, when a request is handled. -/
def Handled.messages : Handled → List Str
  | .sent message => [message]
  | .driving => []

namespace Endpoint

/-- The end of `Endpoint<Func>::handleRequest`. -/
def sendResponse (endpoint : Endpoint E (Callback V B R)) (code : HttpCode) (response : Response R) :
    Sending Unit := do
  match endpoint.callback.serialize with
  | none => send (responseData code)
  | some serialize =>
      let (data, contentType) ← response.serialize serialize
      send (responseDataWithBody code contentType data)

/-- `Endpoint<Func>::handleRequest`; a coroutine sends nothing before it is suspended. -/
def serve (endpoint : Endpoint E (Callback V B R)) (comesBack : Bool) (requestString : Str) :
    Sending Unit := do
  let requestRoute ← token requestString 1
  match ← endpoint.params comesBack requestRoute with
  | none => send badRequest
  | some params =>
      match ← endpoint.body requestString with
      | none => send badRequest
      | some body =>
          match ← endpoint.callback.invoke ⟨params, body⟩ with
          | .code code response => endpoint.sendResponse code response
          | .void response => endpoint.sendResponse .e200 response
          | .async => return

end Endpoint

namespace Server

/-- The job that `m_handleRequest` pushes. -/
def serve (endpoints : List (Entry E (Callback V B R))) (comesBack : Bool) (request : Str) :
    Sending Unit := do
  let methodString ← token request 0
  match methodMap methodString with
  | none => send badRequest
  | some method =>
      let routeString ← token request 1
      match lookup endpoints method routeString with
      | .notFound => send notFound
      | .methodNotAllowed => send methodNotAllowed
      | .found endpoint => endpoint.serve comesBack request

end Server

/-! ## One message -/

/-- What is appended to the messages. -/
def appending (log : List Str) (x : Except Fault Handled) : Except Fault (Unit × List Str) :=
  x.map fun handled => ((), log ++ handled.messages)

theorem appending_bind {α : Type} (log : List Str) (x : Except Fault α) {f : α → Sending Unit}
    {g : α → Except Fault Handled} (h : ∀ a, (f a).run log = appending log (g a)) :
    ((liftM x : Sending α) >>= f).run log = appending log (x >>= g) := by
  cases x with
  | error fault => rfl
  | ok a => exact h a

theorem sendResponse_eq (endpoint : Endpoint E (Callback V B R)) (code : HttpCode)
    (response : Response R) (log : List Str) :
    (endpoint.sendResponse code response).run log = appending log (endpoint.respond code response) := by
  unfold Endpoint.sendResponse Endpoint.respond
  cases endpoint.callback.serialize with
  | none => rfl
  | some serialize =>
      apply appending_bind
      intro serialized
      rfl

theorem Endpoint.serve_eq (endpoint : Endpoint E (Callback V B R)) (comesBack : Bool) (request : Str)
    (log : List Str) :
    (endpoint.serve comesBack request).run log =
      appending log (endpoint.handleRequest comesBack request) := by
  unfold serve handleRequest
  apply appending_bind
  intro requestRoute
  apply appending_bind
  intro params
  cases params with
  | none => rfl
  | some params =>
      apply appending_bind
      intro body
      cases body with
      | none => rfl
      | some body =>
          apply appending_bind
          intro returned
          cases returned with
          | code code response => exact sendResponse_eq endpoint code response log
          | void response => exact sendResponse_eq endpoint .e200 response log
          | async => exact congrArg (fun log => Except.ok ((), log)) (List.append_nil log).symm

/-- The job, without the endpoint it hands the request to. -/
theorem Server.handleRequest_map_snd (endpoints : List (Entry E (Callback V B R))) (comesBack : Bool)
    (request : Str) :
    (Server.handleRequest endpoints comesBack request).map Prod.snd = (do
      match ← dispatch endpoints request with
      | .send message => return .sent message
      | .handle endpoint => endpoint.handleRequest comesBack request) := by
  unfold Server.handleRequest
  cases dispatch endpoints request with
  | error fault => rfl
  | ok dispatched =>
      cases dispatched with
      | send message => rfl
      | handle endpoint =>
          show (Except.map Prod.snd (do return (some endpoint, ← endpoint.handleRequest comesBack request)))
            = endpoint.handleRequest comesBack request
          cases endpoint.handleRequest comesBack request <;> rfl

/-- What is sent is what `handleRequest` gives. -/
theorem Server.serve_eq (endpoints : List (Entry E (Callback V B R))) (comesBack : Bool) (request : Str)
    (log : List Str) :
    (Server.serve endpoints comesBack request).run log =
      appending log ((Server.handleRequest endpoints comesBack request).map Prod.snd) := by
  rw [handleRequest_map_snd]
  unfold Server.serve dispatch
  rw [bind_assoc]
  apply appending_bind
  intro methodString
  cases methodMap methodString with
  | none => rfl
  | some method =>
      dsimp only
      rw [bind_assoc]
      apply appending_bind
      intro routeString
      cases lookup endpoints method routeString with
      | notFound => rfl
      | methodNotAllowed => rfl
      | found endpoint => exact Endpoint.serve_eq endpoint comesBack request log

/-- A call that is defined gives what the callback returns. -/
theorem Callback.invoke_eq_ok {callback : Callback V B R} {request : Request V B} {returned : Returned R} :
    callback.invoke request = .ok returned ↔ callback.usable = true ∧ callback.call request = returned := by
  unfold invoke
  split
  · next husable => simp [husable]
  · next husable => simp [husable]

/-- A callback that is no coroutine sends a message. -/
theorem sent_of_sync {endpoint : Endpoint E (Callback V B R)} {comesBack : Bool} {request : Str}
    (hsync : ∀ r, endpoint.callback.call r ≠ .async) {handled : Handled}
    (h : endpoint.handleRequest comesBack request = .ok handled) :
    ∃ message, handled = .sent message := by
  have hrespond : ∀ {code response}, endpoint.respond code response = .ok handled →
      ∃ message, handled = .sent message := by
    intro code response hrespond
    unfold Endpoint.respond at hrespond
    split at hrespond
    · cases hrespond
      exact ⟨_, rfl⟩
    · obtain ⟨serialized, -, hsent⟩ := exists_of_bind_eq_ok hrespond
      cases hsent
      exact ⟨_, rfl⟩
  unfold Endpoint.handleRequest at h
  obtain ⟨requestRoute, -, h⟩ := exists_of_bind_eq_ok h
  obtain ⟨params, -, h⟩ := exists_of_bind_eq_ok h
  cases params with
  | none =>
      cases h
      exact ⟨_, rfl⟩
  | some params =>
      obtain ⟨body, -, h⟩ := exists_of_bind_eq_ok h
      cases body with
      | none =>
          cases h
          exact ⟨_, rfl⟩
      | some body =>
          obtain ⟨returned, hinvoke, h⟩ := exists_of_bind_eq_ok h
          cases returned with
          | code code response => exact hrespond h
          | void response => exact hrespond h
          | async => exact absurd (Callback.invoke_eq_ok.mp hinvoke).2 (hsync _)

/-! ## Complete responses -/

def crlf : Str := "\r\n".toList

/-- No line break in the text. -/
def Line (s : Str) : Prop := '\r' ∉ s ∧ '\n' ∉ s

/-- `HTTP/1.1 code reason`, with three digits for the code. -/
def IsStatusLine (line : Str) : Prop :=
  ∃ code reason, line = "HTTP/1.1 ".toList ++ code ++ " ".toList ++ reason ∧
    code.length = 3 ∧ (∀ c ∈ code, c.isDigit = true) ∧ Line reason

/-- `name: value`. -/
def IsHeader (line : Str) : Prop :=
  ∃ name value, line = name ++ ": ".toList ++ value ∧ (name ≠ [] ∧ ':' ∉ name ∧ Line name) ∧ Line value

/-- A status line and headers, each ended by CRLF, an empty line, and a body. -/
def Complete (message : Str) : Prop :=
  ∃ (status : Str) (headers : List Str) (body : Str), message = status ++ crlf ++ headers.flatMap (· ++ crlf) ++ crlf ++ body ∧
    IsStatusLine status ∧ ∀ header ∈ headers, IsHeader header

theorem Complete.mem {message : Str} (h : Complete message) : '\n' ∈ message := by
  obtain ⟨status, headers, body, rfl, -, -⟩ := h
  apply List.mem_append_left
  apply List.mem_append_right
  decide

theorem isDigit_of_mem_decimal {n : Nat} {c : Char} (h : c ∈ decimal n) : c.isDigit = true :=
  isDigit_of_mem_repr h

theorem line_decimal (n : Nat) : Line (decimal n) := by
  refine ⟨fun h => ?_, fun h => ?_⟩
  · exact absurd (isDigit_of_mem_decimal h) (by decide)
  · exact absurd (isDigit_of_mem_decimal h) (by decide)

theorem line_reason (code : HttpCode) : Line ((getHttpCodeString code).getD "").toList := by
  unfold Line
  cases code <;> decide +kernel

theorem line_contentType (contentType : ContentType) : Line (getContentTypeString contentType).toList := by
  unfold Line
  cases contentType <;> decide +kernel

theorem length_code (code : HttpCode) : (decimal code.toInt).length = 3 := by
  cases code <;> rfl

theorem isStatusLine_statusLine (code : HttpCode) : IsStatusLine (statusLine code) :=
  ⟨decimal code.toInt, _, rfl, length_code code, fun _ => isDigit_of_mem_decimal, line_reason code⟩

/-- A status line on its own has no line break. -/
theorem not_complete_responseData (code : HttpCode) : ¬Complete (responseData code) := by
  intro h
  have hmem : '\n' ∈ "HTTP/1.1 ".toList ++ decimal code.toInt ++ " ".toList ++
      ((getHttpCodeString code).getD "").toList := h.mem
  simp only [List.mem_append, (line_decimal code.toInt).2, (line_reason code).2, or_false] at hmem
  revert hmem
  decide

theorem not_complete_error {message : Str} (h : message ∈ [badRequest, notFound, methodNotAllowed]) :
    ¬Complete message := by
  have hline : ∀ message ∈ [badRequest, notFound, methodNotAllowed], '\n' ∉ message := by decide
  exact fun hcomplete => hline message h hcomplete.mem

/-- The response with a body is complete. -/
theorem complete_responseDataWithBody (code : HttpCode) (contentType : ContentType) (data : Str) :
    Complete (responseDataWithBody code contentType data) := by
  have hname : ∀ name ∈ ["Content-Type".toList, "Content-Length".toList],
      name ≠ [] ∧ ':' ∉ name ∧ '\r' ∉ name ∧ '\n' ∉ name := by decide
  refine ⟨statusLine code, ["Content-Type: ".toList ++ (getContentTypeString contentType).toList,
    "Content-Length: ".toList ++ decimal data.length], data, ?_, isStatusLine_statusLine code, ?_⟩
  · simp only [responseDataWithBody, crlf, List.flatMap_cons, List.flatMap_nil, List.append_nil,
      List.append_assoc]
    rfl
  · intro header hheader
    simp only [List.mem_cons, List.not_mem_nil, or_false] at hheader
    rcases hheader with rfl | rfl
    · exact ⟨"Content-Type".toList, _, rfl, hname _ (by simp), line_contentType contentType⟩
    · exact ⟨"Content-Length".toList, _, rfl, hname _ (by simp), line_decimal _⟩

/-! ## Which requests are answered completely -/

/-- The response a callback leaves. -/
def Returned.response : Returned R → Option (Response R)
  | .code _ response => some response
  | .void response => some response
  | .async => none

/-- Nothing goes wrong: parameters and body are there, and the callback, which is there too, leaves a response
whose body can be serialised. -/
def Endpoint.Answers (endpoint : Endpoint E (Callback V B R)) (comesBack : Bool) (request route : Str) :
    Prop :=
  ∃ params body response serialize, endpoint.params comesBack route = .ok (some params) ∧
    endpoint.body request = .ok (some body) ∧ endpoint.callback.usable = true ∧
    (endpoint.callback.call ⟨params, body⟩).response = some response ∧
    endpoint.callback.serialize = some serialize ∧ (serialize response.body).isSome = true

theorem not_sent_complete {message : Str} (h : ¬Complete message) :
    ¬∃ message', (.ok (.sent message) : Except Fault Handled) = .ok (.sent message') ∧
      Complete message' := by
  rintro ⟨message', heq, hcomplete⟩
  cases heq
  exact h hcomplete

/-- A response is complete if its type has a body. -/
theorem respond_complete_iff (endpoint : Endpoint E (Callback V B R)) (code : HttpCode)
    (response : Response R) :
    (∃ message, endpoint.respond code response = .ok (.sent message) ∧ Complete message) ↔
      ∃ serialize, endpoint.callback.serialize = some serialize ∧
        (serialize response.body).isSome = true := by
  unfold Endpoint.respond
  cases endpoint.callback.serialize with
  | none =>
      exact iff_of_false (not_sent_complete (not_complete_responseData code)) nofun
  | some serialize =>
      dsimp only
      unfold Response.serialize
      cases hdata : serialize response.body with
      | none =>
          refine ⟨nofun, ?_⟩
          rintro ⟨serialize', heq, hsome⟩
          cases heq
          rw [hdata] at hsome
          cases hsome
      | some data =>
          refine iff_of_true ⟨_, rfl, complete_responseDataWithBody _ _ _⟩ ⟨serialize, rfl, ?_⟩
          rw [hdata]
          rfl

theorem call_complete_iff (endpoint : Endpoint E (Callback V B R)) (returned : Returned R) :
    (∃ message, (match returned with
      | .code code response => endpoint.respond code response
      | .void response => endpoint.respond .e200 response
      | .async => .ok .driving) = .ok (.sent message) ∧ Complete message) ↔
      ∃ response serialize, returned.response = some response ∧
        endpoint.callback.serialize = some serialize ∧ (serialize response.body).isSome = true := by
  cases returned with
  | code code response => simpa [Returned.response] using respond_complete_iff endpoint code response
  | void response => simpa [Returned.response] using respond_complete_iff endpoint .e200 response
  | async => simp [Returned.response]

theorem handleRequest_complete_iff (endpoint : Endpoint E (Callback V B R)) (comesBack : Bool)
    {request route : Str} (hroute : token request 1 = .ok route) :
    (∃ message, endpoint.handleRequest comesBack request = .ok (.sent message) ∧ Complete message) ↔
      endpoint.Answers comesBack request route := by
  have hbad : ¬Complete badRequest := not_complete_error List.mem_cons_self
  unfold Endpoint.handleRequest Endpoint.Answers
  rw [hroute]
  show (∃ message, (endpoint.params comesBack route).bind _ = _ ∧ _) ↔ _
  cases endpoint.params comesBack route with
  | error fault => simp [Except.bind]
  | ok params =>
      cases params with
      | none => exact iff_of_false (not_sent_complete hbad) (by simp)
      | some params =>
          show (∃ message, (endpoint.body request).bind _ = _ ∧ _) ↔ _
          cases endpoint.body request with
          | error fault => simp [Except.bind]
          | ok body =>
              cases body with
              | none => exact iff_of_false (not_sent_complete hbad) (by simp)
              | some body =>
                  show (∃ message, (endpoint.callback.invoke _).bind _ = _ ∧ _) ↔ _
                  unfold Callback.invoke
                  cases endpoint.callback.usable with
                  | false => simp [Except.bind]
                  | true =>
                      refine (call_complete_iff endpoint (endpoint.callback.call ⟨params, body⟩)).trans ?_
                      simp only [Except.ok.injEq, Option.some.injEq, exists_and_left, exists_eq_left', true_and]

/-- A request with its first two tokens is refused, or handed to the endpoint that is found. -/
theorem handled_cases (endpoints : List (Entry E (Callback V B R))) (comesBack : Bool)
    {request methodString routeString : Str} {rest : List Str}
    (htokens : split ' ' request = methodString :: routeString :: rest) :
    (∃ message ∈ [badRequest, notFound, methodNotAllowed],
      (Server.handleRequest endpoints comesBack request).map Prod.snd = .ok (.sent message) ∧
        ¬∃ method endpoint, methodMap methodString = some method ∧
          lookup endpoints method routeString = .found endpoint) ∨
      ∃ method endpoint, methodMap methodString = some method ∧
        lookup endpoints method routeString = .found endpoint ∧
        (Server.handleRequest endpoints comesBack request).map Prod.snd =
          endpoint.handleRequest comesBack request := by
  have hfirst : token request 0 = .ok methodString := by rw [token, htokens]; rfl
  have hsecond : token request 1 = .ok routeString := by rw [token, htokens]; rfl
  rw [Server.handleRequest_map_snd]
  unfold Server.dispatch
  rw [hfirst, hsecond]
  simp only [bind, Except.bind]
  cases methodMap methodString with
  | none =>
      refine .inl ⟨badRequest, by simp, rfl, ?_⟩
      rintro ⟨method, endpoint, hmethod, -⟩
      cases hmethod
  | some method =>
      dsimp only
      have hnone : (∀ endpoint, lookup endpoints method routeString ≠ .found endpoint) →
          ¬∃ method' endpoint, some method = some method' ∧
            lookup endpoints method' routeString = .found endpoint := by
        rintro h ⟨method', endpoint, hmethod, hfound⟩
        cases hmethod
        exact h endpoint hfound
      cases hlookup : lookup endpoints method routeString with
      | notFound =>
          refine .inl ⟨notFound, by simp, rfl, hnone fun endpoint hfound => ?_⟩
          rw [hlookup] at hfound
          cases hfound
      | methodNotAllowed =>
          refine .inl ⟨methodNotAllowed, by simp, rfl, hnone fun endpoint hfound => ?_⟩
          rw [hlookup] at hfound
          cases hfound
      | found endpoint => exact .inr ⟨method, endpoint, rfl, hlookup, rfl⟩

theorem appending_nil_iff {x : Except Fault Handled} {messages : List Str} :
    appending [] x = .ok ((), messages) ↔ ∃ handled, x = .ok handled ∧ messages = handled.messages := by
  cases x with
  | error fault => exact ⟨nofun, nofun⟩
  | ok handled =>
      simp only [appending, Except.map, List.nil_append, Except.ok.injEq, Prod.mk.injEq, true_and,
        exists_eq_left']
      exact eq_comm

/-- **Which requests get one complete response.** A request with a method and a route, for which no
coroutine is found, gets no other number of messages than one, and gets a complete response exactly when
the method is known, an endpoint is found, its callback is still there if it needs to be, its response type
has a body, and the parameters, the request body and the response body are read and written without
failure. -/
theorem serve_complete_iff (endpoints : List (Entry E (Callback V B R))) (comesBack : Bool)
    (request methodString routeString : Str) (rest : List Str)
    (htokens : split ' ' request = methodString :: routeString :: rest)
    (hsync : ∀ method endpoint, lookup endpoints method routeString = .found endpoint →
      ∀ r, endpoint.callback.call r ≠ .async) :
    (∀ messages, (Server.serve endpoints comesBack request).run [] = .ok ((), messages) →
        ∃ message, messages = [message]) ∧
      ((∃ message, (Server.serve endpoints comesBack request).run [] = .ok ((), [message]) ∧
          Complete message) ↔
        ∃ method endpoint, methodMap methodString = some method ∧
          lookup endpoints method routeString = .found endpoint ∧
          endpoint.Answers comesBack request routeString) := by
  have hroute : token request 1 = .ok routeString := by rw [token, htokens]; rfl
  simp only [Server.serve_eq, appending_nil_iff]
  rcases handled_cases endpoints comesBack htokens with
    ⟨message, hmem, hhandled, hnone⟩ | ⟨method, endpoint, hmethod, hfound, hhandled⟩
  · rw [hhandled]
    refine ⟨?_, iff_of_false ?_ ?_⟩
    · rintro messages ⟨handled, heq, rfl⟩
      cases heq
      exact ⟨message, rfl⟩
    · rintro ⟨message', ⟨handled, heq, hsent⟩, hcomplete⟩
      cases heq
      cases hsent
      exact not_complete_error hmem hcomplete
    · rintro ⟨method, endpoint, hmethod, hfound, -⟩
      exact hnone ⟨method, endpoint, hmethod, hfound⟩
  · have hsent : ∀ {handled}, endpoint.handleRequest comesBack request = .ok handled →
        ∃ message, handled = .sent message := sent_of_sync (hsync method endpoint hfound)
    rw [hhandled]
    constructor
    · rintro messages ⟨handled, heq, rfl⟩
      obtain ⟨message, rfl⟩ := hsent heq
      exact ⟨message, rfl⟩
    · have hcomplete := handleRequest_complete_iff endpoint comesBack hroute
      constructor
      · rintro ⟨message, ⟨handled, heq, hmessage⟩, hmessage'⟩
        obtain ⟨message', rfl⟩ := hsent heq
        cases hmessage
        exact ⟨method, endpoint, hmethod, hfound, hcomplete.mp ⟨_, heq, hmessage'⟩⟩
      · rintro ⟨method', endpoint', hmethod', hfound', hanswers⟩
        obtain rfl := Option.some.inj (hmethod.symm.trans hmethod')
        rw [hfound] at hfound'
        cases hfound'
        obtain ⟨message, heq, hmessage⟩ := hcomplete.mpr hanswers
        exact ⟨message, ⟨_, heq, rfl⟩, hmessage⟩

/-- `GET /`, with a text for a response. -/
def root : Endpoint StringExtractor (Callback Str Unit Str) :=
  ⟨.eGet, .plain ⟨"/".toList, rfl⟩, none, fun _ => .void { body := "Hello".toList },
    some fun body => some ⟨body, .ePlain⟩, false, false⟩

theorem lookup_root {method : HttpMethod} {endpoint : Endpoint StringExtractor (Callback Str Unit Str)}
    (h : lookup (build [root]) method "/".toList = .found endpoint) : endpoint = root := by
  cases method <;> cases h
  rfl

theorem serve_root :
    ∃ message, (Server.serve (build [root]) true "GET / HTTP/1.1\r\n\r\n".toList).run [] =
        .ok ((), [message]) ∧ Complete message := by
  refine (serve_complete_iff (build [root]) true _ "GET".toList "/".toList ["HTTP/1.1\r\n\r\n".toList]
    (by decide) ?_).2.mpr ⟨.eGet, root, rfl, rfl, none, none, _, _, rfl, rfl, rfl, rfl, rfl, rfl⟩
  intro method endpoint hfound
  rw [lookup_root hfound]
  nofun

/-- An unknown method, an unknown route and an unknown method of a route are answered with a status line
that is not ended. -/
theorem serve_incomplete :
    ((Server.serve (build [root]) true "FOO / HTTP/1.1".toList).run [] = .ok ((), [badRequest]) ∧
        ¬Complete badRequest) ∧
      ((Server.serve (build [root]) true "GET /x HTTP/1.1".toList).run [] = .ok ((), [notFound]) ∧
        ¬Complete notFound) ∧
      (Server.serve (build [root]) true "PUT / HTTP/1.1".toList).run [] = .ok ((), [methodNotAllowed]) ∧
        ¬Complete methodNotAllowed :=
  ⟨⟨rfl, not_complete_error (by simp)⟩, ⟨rfl, not_complete_error (by simp)⟩, rfl,
    not_complete_error (by simp)⟩

end Fipper

import Fipper.Lib.Sequence
import Fipper.Route.Parse
import Fipper.Server.Decode
import Fipper.Server.Threads

/-!
# A request and its response

What a client gets for a request that it writes, from the text of the one to the text of the other.

* `ClientRequest` : a method, a path, headers and a body; `text` : how they are written;
* `Server.answer` : what is done with a request, in terms of these;
* `handleRequest_text` : the code does so with the text, whatever the headers are;
* `lookup_newest` : when the dispatcher finds a registration;
* `exchange` : the value in the path and the body go to the callback, and its response to the client.
-/

namespace Fipper

open Lib

variable {E V : Type} [RouteStringExtractor E V] {B R : Type}

/-- The name of a method, as `methodMap` has it. -/
def HttpMethod.name : HttpMethod → Str
  | .eGet => "GET".toList
  | .ePost => "POST".toList
  | .ePut => "PUT".toList
  | .ePatch => "PATCH".toList
  | .eDelete => "DELETE".toList

theorem methodMap_name (method : HttpMethod) : methodMap method.name = some method := by
  cases method <;> decide

theorem HttpMethod.word_name (method : HttpMethod) : ' ' ∉ method.name ∧ Line method.name := by
  unfold Line
  cases method <;> decide

/-- A request as a client has it: the path is one word, and no line break is in the request line or in the
headers. -/
structure ClientRequest where
  method : HttpMethod
  path : Str
  version : Str
  headers : List (Str × Str)
  body : Str
  word_path : ' ' ∉ path
  line_path : Line path
  line_version : Line version
  line_headers : ∀ header ∈ headers, Line header.1 ∧ Line header.2

namespace ClientRequest

def requestLine (r : ClientRequest) : Str :=
  r.method.name ++ ' ' :: (r.path ++ ' ' :: r.version)

def headerLines (r : ClientRequest) : Str := r.headers.flatMap fun header => headerLine header.1 header.2

/-- What it sends. -/
def text (r : ClientRequest) : Str := r.requestLine ++ (r.headerLines ++ (emptyLine ++ r.body))

theorem line_requestLine (r : ClientRequest) : Line r.requestLine := by
  have hspace : Line [' '] := by unfold Line; decide
  have happend : r.requestLine = r.method.name ++ ([' '] ++ (r.path ++ ([' '] ++ r.version))) := rfl
  rw [happend]
  exact r.method.word_name.2.append (hspace.append (r.line_path.append (hspace.append r.line_version)))

/-- No empty line begins with a header. -/
theorem findText_headers {headers : List (Str × Str)} (h : ∀ header ∈ headers, Line header.1 ∧ Line header.2)
    (body : Str) :
    findText (headers.flatMap (fun header => headerLine header.1 header.2) ++ (emptyLine ++ body)) emptyLine =
      some (headers.flatMap fun header => headerLine header.1 header.2).length := by
  induction headers with
  | nil => exact findText_of_prefix (List.prefix_append _ _)
  | cons header headers ih =>
      obtain ⟨name, value⟩ := header
      obtain ⟨hname, hvalue⟩ := h (name, value) List.mem_cons_self
      have hcolon : Line ": ".toList := by unfold Line; decide
      have hline : Line (name ++ ": ".toList ++ value) := (hname.append hcolon).append hvalue
      -- what follows the line break of a header is no line break
      obtain ⟨c, rest, hcons, hc⟩ : ∃ c rest, name ++ ": ".toList ++ value = c :: rest ∧ '\r' ≠ c := by
        cases name with
        | nil => exact ⟨':', ' ' :: value, rfl, by decide⟩
        | cons c name => exact ⟨c, _, rfl, fun heq => hname.1 (heq ▸ List.mem_cons_self)⟩
      have hthird : ∀ t, (headerLine name value ++ t)[2]? = some c := by
        intro t
        have hheader : headerLine name value = '\r' :: '\n' :: (name ++ ": ".toList ++ value) := by
          simp only [headerLine, crlf, List.append_assoc]
          rfl
        rw [hheader, hcons]
        rfl
      have hrest := ih fun header hmem => h header (List.mem_cons_of_mem _ hmem)
      rw [List.flatMap_cons, List.append_assoc, List.length_append]
      exact findText_headerLine "\n\r\n".toList hline (not_prefix_of_ne 2 rfl (hthird _) hc) hrest

/-- The first empty line is the one before the body. -/
theorem findText_text (r : ClientRequest) :
    findText r.text emptyLine = some (r.requestLine ++ r.headerLines).length := by
  rw [List.length_append]
  exact findText_append_of_notMem r.line_requestLine.1 (findText_headers r.line_headers r.body)

theorem requestBody_text (r : ClientRequest) (hsize : r.text.length < UInt64.size) :
    Endpoint.requestBody r.text = .ok r.body := by
  obtain ⟨hbegin, hle⟩ := Endpoint.bodyBegin_of_some hsize r.findText_text
  have hdrop : r.text.drop ((r.requestLine ++ r.headerLines).length + emptyLine.length) = r.body := by
    rw [text, ← List.append_assoc, ← List.drop_drop, List.drop_left, List.drop_left]
  rw [Endpoint.requestBody, hbegin, if_pos hle, hdrop]

/-- The first two tokens are the method and the path. -/
theorem split_text (r : ClientRequest) : ∃ rest, split ' ' r.text = r.method.name :: r.path :: rest := by
  have happend : r.text = r.method.name ++ ' ' :: (r.path ++ ' ' :: (r.version ++
      (r.headerLines ++ (emptyLine ++ r.body)))) := by
    simp only [text, requestLine, List.append_assoc, List.cons_append]
  rw [happend, split, if_neg (by simp), List.splitOn_append_cons_self_of_not_mem r.method.word_name.1,
    List.splitOn_append_cons_self_of_not_mem r.word_path]
  exact ⟨_, rfl⟩

theorem token_method (r : ClientRequest) : token r.text 0 = .ok r.method.name := by
  obtain ⟨rest, hsplit⟩ := r.split_text
  rw [token, hsplit]
  rfl

theorem token_path (r : ClientRequest) : token r.text 1 = .ok r.path := by
  obtain ⟨rest, hsplit⟩ := r.split_text
  rw [token, hsplit]
  rfl

end ClientRequest

/-! ## What is done with it -/

/-- The body that the callback gets, if its request type has one; `none` when it can't be deserialised. -/
def Callback.takes (callback : Callback V B R) (body : Str) : Option (Option B) :=
  match callback.deserialize with
  | none => some none
  | some deserialize => (deserialize body).map some

/-- What an endpoint does with a path and a body. -/
def Endpoint.answer (endpoint : Endpoint E (Callback V B R)) (comesBack : Bool) (path body : Str) :
    Except Fault Handled := do
  match ← endpoint.params comesBack path with
  | none => return .sent badRequest
  | some params =>
      match endpoint.callback.takes body with
      | none => return .sent badRequest
      | some body =>
          match ← endpoint.callback.invoke ⟨params, body⟩ with
          | .code code response => endpoint.respond code response
          | .void response => endpoint.respond .e200 response
          | .async => return .driving

/-- What a server does with a method, a path and a body. -/
def Server.answer (endpoints : List (Entry E (Callback V B R))) (comesBack : Bool) (method : HttpMethod)
    (path body : Str) : Except Fault (Option (Endpoint E (Callback V B R)) × Handled) :=
  match lookup endpoints method path with
  | .notFound => .ok (none, .sent notFound)
  | .methodNotAllowed => .ok (none, .sent methodNotAllowed)
  | .found endpoint => (endpoint.answer comesBack path body).map fun handled => (some endpoint, handled)

theorem Endpoint.body_text (endpoint : Endpoint E (Callback V B R)) {r : ClientRequest}
    (hsize : r.text.length < UInt64.size) :
    endpoint.body r.text = .ok (endpoint.callback.takes r.body) := by
  unfold Callback.takes
  cases hdeserialize : endpoint.callback.deserialize with
  | none =>
      unfold body
      rw [hdeserialize]
  | some deserialize =>
      rw [body_eq hdeserialize, r.requestBody_text hsize]
      rfl

theorem Endpoint.handleRequest_text (endpoint : Endpoint E (Callback V B R)) (comesBack : Bool)
    {r : ClientRequest} (hsize : r.text.length < UInt64.size) :
    endpoint.handleRequest comesBack r.text = endpoint.answer comesBack r.path r.body := by
  unfold handleRequest answer
  rw [r.token_path, endpoint.body_text hsize]
  rfl

/-- **Reading undoes writing.** The job of a request that a client wrote does with its text what is to be done
with its method, its path and its body; the version and the headers make no difference. -/
theorem Server.handleRequest_text (endpoints : List (Entry E (Callback V B R))) (comesBack : Bool)
    (r : ClientRequest) (hsize : r.text.length < UInt64.size) :
    Server.handleRequest endpoints comesBack r.text = Server.answer endpoints comesBack r.method r.path r.body := by
  unfold handleRequest dispatch answer
  rw [r.token_method, r.token_path]
  simp only [bind, Except.bind, methodMap_name]
  cases lookup endpoints r.method r.path with
  | notFound => rfl
  | methodNotAllowed => rfl
  | found endpoint =>
      show (endpoint.handleRequest comesBack r.text).bind _ =
        (endpoint.answer comesBack r.path r.body).map fun handled => (some endpoint, handled)
      rw [endpoint.handleRequest_text comesBack hsize]
      cases endpoint.answer comesBack r.path r.body with
      | error fault => rfl
      | ok handled => rfl

/-- The messages that are sent for a request that a client wrote are those for its method, its path and its
body. -/
theorem Server.serve_text (endpoints : List (Entry E (Callback V B R))) (comesBack : Bool) (r : ClientRequest)
    (hsize : r.text.length < UInt64.size) :
    (Server.serve endpoints comesBack r.text).run [] =
      (Server.answer endpoints comesBack r.method r.path r.body).map fun result => ((), result.2.messages) := by
  rw [Server.serve_eq, handleRequest_text endpoints comesBack r hsize]
  cases Server.answer endpoints comesBack r.method r.path r.body <;> rfl

/-- `POST /hello/Ann` with a text. -/
def postHello : ClientRequest where
  method := .ePost
  path := "/hello/Ann".toList
  version := "HTTP/1.1".toList
  headers := [("Host".toList, "localhost".toList), ([], "GET / HTTP/1.1".toList)]
  body := "\r\n\r\nhow are you".toList
  word_path := by decide
  line_path := by unfold Line; decide
  line_version := by unfold Line; decide
  line_headers := by unfold Line; decide

/-- The route has a `GET`. -/
theorem serve_text_postHello :
    (Server.serve (build [root]) true postHello.text).run [] = .ok ((), [notFound]) := by
  rw [Server.serve_text (build [root]) true postHello (by decide +kernel)]
  rfl

/-! ## Which endpoint is found -/

/-- A registration is found for a path, unless a route that the path is an instance of too is shorter, or is of
the same length and registered later. -/
theorem lookup_newest {C : Type} {before after : List (Endpoint E C)} {endpoint : Endpoint E C} {path : Str}
    (hmatch : endpoint.route.isInstance path = true)
    (hbefore : ∀ e ∈ before, e.route.isInstance path = true → endpoint.size ≤ e.size)
    (hafter : ∀ e ∈ after, e.route.isInstance path = true → endpoint.size < e.size) :
    lookup (build (before ++ endpoint :: after)) endpoint.method path = .found endpoint := by
  have hmem : endpoint ∈ before ++ endpoint :: after := List.mem_append_right _ List.mem_cons_self
  have hshortest : shortest (before ++ endpoint :: after) path = some endpoint.size := by
    cases hshortest : shortest (before ++ endpoint :: after) path with
    | none =>
        have hnone := shortest_eq_none hshortest endpoint hmem
        rw [hmatch] at hnone
        cases hnone
    | some n =>
        obtain ⟨⟨e, he, hmatch', rfl⟩, hle⟩ := shortest_eq_some hshortest
        congr 1
        apply Nat.le_antisymm (hle endpoint hmem hmatch)
        rcases List.mem_append.mp he with he | he
        · exact hbefore e he hmatch'
        · rcases List.mem_cons.mp he with rfl | he
          · exact le_refl _
          · exact Nat.le_of_lt (hafter e he hmatch')
  -- those that were registered later are skipped
  have hskip : ∀ e ∈ after.reverse.filter (·.size = endpoint.size), (!e.route.isInstance path) = true := by
    intro e he
    obtain ⟨he, hsize⟩ := List.mem_filter.mp he
    rw [Bool.not_eq_true', Bool.eq_false_iff]
    intro hmatch'
    have hlt := hafter e (List.mem_reverse.mp he) hmatch'
    have hsize := of_decide_eq_true hsize
    omega
  have hgroup : group (before ++ endpoint :: after) endpoint.size =
      after.reverse.filter (·.size = endpoint.size) ++
        endpoint :: before.reverse.filter (·.size = endpoint.size) := by
    simp [group, List.filter_append]
  have hblock : newestBlock (before ++ endpoint :: after) path =
      endpoint :: sameRoute endpoint (before.reverse.filter (·.size = endpoint.size)) := by
    have hdrop : (group (before ++ endpoint :: after) endpoint.size).dropWhile
        (fun e => !e.route.isInstance path) =
          endpoint :: before.reverse.filter (·.size = endpoint.size) := by
      rw [hgroup, List.dropWhile_append_of_pos hskip, List.dropWhile_cons, hmatch]
      rfl
    rw [newestBlock, hshortest]
    dsimp only
    rw [block, hdrop]
  rw [lookup_eq_found_iff, hblock, List.find?_cons, decide_eq_true rfl]

/-! ## The exchange -/

/-- A route with one parameter. -/
structure SingleParam where
  head : Str
  param : Param
  last : Str
  plainText : PlainText head [(param, last)]
  name : ':' ∉ param.name

namespace SingleParam

def template (route : SingleParam) : Template :=
  ⟨route.head, [(route.param, route.last)], List.cons_ne_nil _ _, route.plainText⟩

/-- The text that is registered. -/
def text (route : SingleParam) : Str := route.template.render

/-- The path for a value. -/
def path (route : SingleParam) (v : Str) : Str := route.template.fill [v]

/-- The constructor accepts the route; `extractor` is then the one of its parameter. -/
structure Accepts (route : SingleParam) (initial extractor : E) (R : RouteString E) : Prop where
  constructed : RouteString.construct route.text [initial] (List.cons_ne_nil _ _) = .ok R
  instantiated : RouteStringExtractor.instantiate initial (route.param.spec.getD []) = .ok extractor

variable {route : SingleParam} {initial extractor : E} {R : RouteString E} {v : Str}

theorem Accepts.str (h : route.Accepts initial extractor R) : R.str = route.text :=
  (RouteString.construct_eq_ok h.constructed).1

/-- What the constructor records. -/
theorem Accepts.recorded (h : route.Accepts initial extractor R) :
    R.paramNames = [route.param.name] ∧ R.extractors = [extractor] := by
  have hlit := (route.plainText.literal route.head List.mem_cons_self).1
  have hparam := (route.plainText.param route.param List.mem_cons_self).2.2
  have hgen : generateRouteString (around [] route.head route.param.text route.last) ([] : Str).length [initial] =
      .ok (R.paramNames, R.extractors) := (RouteString.construct_eq_ok h.constructed).2
  obtain ⟨-, -, extractor', names, extractors, hext, hresult, hrest⟩ := generateRouteString_cons hlit hparam hgen
  have hnil : ([], []) = (names, extractors) := Except.ok.inj hrest
  rw [Param.onward_text route.name, h.instantiated] at hext
  obtain rfl := Except.ok.inj hext
  rw [← (Prod.mk.inj hnil).1, ← (Prod.mk.inj hnil).2, Param.upTo_text route.name] at hresult
  exact Prod.mk.inj hresult

theorem Accepts.isInstance_path (h : route.Accepts initial extractor R) (hv : '/' ∉ v) :
    R.isInstance (route.path v) = true := by
  have hvalues : Values route.template.tail [v] := ⟨rfl, fun v' hv' => (List.mem_singleton.mp hv') ▸ hv⟩
  have hlength : [initial].length = route.template.tail.length := rfl
  exact (isInstance_render_iff hlength h.constructed _).mpr (.inr (.inl ⟨[v], hvalues, rfl⟩))

/-- The value in the path is what the extractor gets. -/
theorem Accepts.extract_path (h : route.Accepts initial extractor R) (hv : '/' ∉ v) :
    R.extractParamsFromInstance true (route.path v) =
      .ok ((RouteStringExtractor.extract extractor v).map fun value => [value]) := by
  have hlength : [initial].length = route.template.tail.length := rfl
  obtain ⟨-, hslashed, -⟩ := Template.slashed hlength h.constructed
  have hlit := (route.plainText.literal route.head List.mem_cons_self).1
  have hfirst := @extractParam_first _ _ _ true route.head route.param.text route.last v _ hlit hv
    (fillFrom_head [] hslashed.2.1) extractor
  have hstr : R.str = around [] route.head route.param.text route.last := h.str
  have hpath : route.path v = route.head ++ v ++ fillFrom route.last [] [] := rfl
  rw [RouteString.extractParamsFromInstance, hstr, h.recorded.2, hpath, hfirst]
  cases RouteStringExtractor.extract extractor v <;> rfl

end SingleParam

/-- The parameter of the callback's request. -/
theorem Endpoint.params_path {route : SingleParam} {initial extractor : E} {R : RouteString E} {v : Str}
    {S : Type} {endpoint : Endpoint E (Callback V B S)} (h : route.Accepts initial extractor R)
    (hroute : endpoint.route = .params R) (hv : '/' ∉ v) :
    endpoint.params true (route.path v) =
      .ok ((RouteStringExtractor.extract extractor v).map fun value => some ([route.param.name], [value])) := by
  unfold Endpoint.params
  rw [hroute]
  simp only [h.extract_path hv, bind, Except.bind, h.recorded.1]
  cases RouteStringExtractor.extract extractor v <;> rfl

section Exchange
variable {S : Type} {route : SingleParam} {initial extractor : E} {R : RouteString E}
variable {callback : Callback V B S} {r : ClientRequest} {v : Str} {value : V} {body : Option B}
variable {code : HttpCode} {response : Response S} {serialize : S → Option Serialized} {serialized : Serialized}
variable {before after : List (Endpoint E (Callback V B S))}

/-- No shorter route takes the path, and none of this length that is registered later. -/
def Foremost (before after : List (Endpoint E (Callback V B S))) (size : Nat) (path : Str) : Prop :=
  (∀ e ∈ before, e.route.isInstance path = true → size ≤ e.size) ∧
    ∀ e ∈ after, e.route.isInstance path = true → size < e.size

/-- The callback of a route is called with the value in the path, and its response is sent. -/
theorem handleRequest_path (hroute : route.Accepts initial extractor R) (hpath : r.path = route.path v)
    (hslash : '/' ∉ v) (hvalue : RouteStringExtractor.extract extractor v = some value)
    (hsize : r.text.length < UInt64.size) (hforemost : Foremost before after route.text.length r.path)
    (hbody : callback.takes r.body = some body) (husable : callback.usable = true)
    (hcall : callback.call ⟨some ([route.param.name], [value]), body⟩ = .code code response)
    (hserialize : callback.serialize = some serialize) (hserialized : serialize response.body = some serialized) :
    (Server.handleRequest (build (before ++ ⟨r.method, .params R, callback⟩ :: after)) true r.text).map Prod.snd =
      .ok (.sent (responseDataWithBody code (response.sentType serialized) serialized.data)) := by
  have hlookup : lookup (build (before ++ ⟨r.method, .params R, callback⟩ :: after)) r.method r.path =
      .found ⟨r.method, .params R, callback⟩ := by
    rw [← hroute.str] at hforemost
    refine @lookup_newest _ _ _ _ before after ⟨r.method, .params R, callback⟩ _ ?_ hforemost.1 hforemost.2
    rw [hpath]
    exact hroute.isInstance_path hslash
  have hparams : Endpoint.params ⟨r.method, .params R, callback⟩ true (route.path v) =
      .ok (some (some ([route.param.name], [value]))) := by
    rw [Endpoint.params_path hroute rfl hslash, hvalue]
    rfl
  have hrespond : Endpoint.respond ⟨r.method, .params R, callback⟩ code response =
      .ok (.sent (responseDataWithBody code (response.sentType serialized) serialized.data)) := by
    unfold Endpoint.respond
    simp only [hserialize, Response.serialize, hserialized, bind, Except.bind]
    rfl
  have hanswer : Endpoint.answer ⟨r.method, .params R, callback⟩ true r.path r.body =
      .ok (.sent (responseDataWithBody code (response.sentType serialized) serialized.data)) := by
    unfold Endpoint.answer
    rw [hpath, hparams]
    simp only [bind, Except.bind, hbody, Callback.invoke, husable, if_true, hcall]
    exact hrespond
  rw [Server.handleRequest_text _ _ _ hsize]
  unfold Server.answer
  rw [hlookup]
  dsimp only
  rw [hanswer]
  rfl

/-- **From the client to the callback and back.** What is read from a connection is a request to a path that is made
from a route with one parameter and a value that its extractor takes; the callback is still there, if it has
captured anything. Whatever the other routes are, if this one is the foremost for the path, and whatever the threads
of the server do: once the job of the connection has ended, the one message on it is the response of the callback to
the value and the body, and the client reads its code, type, length and data. -/
theorem exchange (endpoints : List (Entry E (Callback V B S)))
    (hendpoints : endpoints = build (before ++ ⟨r.method, .params R, callback⟩ :: after))
    (hroute : route.Accepts initial extractor R) (hpath : r.path = route.path v) (hslash : '/' ∉ v)
    (hvalue : RouteStringExtractor.extract extractor v = some value)
    (hsize : r.text.length < UInt64.size) (hforemost : Foremost before after route.text.length r.path)
    (hbody : callback.takes r.body = some body) (husable : callback.usable = true)
    (hcall : callback.call ⟨some ([route.param.name], [value]), body⟩ = .code code response)
    (hserialize : callback.serialize = some serialize) (hserialized : serialize response.body = some serialized)
    (as : List ServerThreads.Action) (s : ServerThreads)
    (h : run (ServerThreads.step endpoints true) ServerThreads.start as = some s) {connection : Nat}
    (hsent : bytesOf (ServerThreads.received endpoints true as) connection = r.text)
    (hended : .request connection ∈ s.scheduler.log.executed) :
    ∃ message, s.handled.filter (·.1 = connection) = [(connection, .sent message)] ∧
      decode message =
        some ⟨code.toInt, (getContentTypeString (response.sentType serialized)).toList,
          serialized.data.length, serialized.data⟩ := by
  have hinv := ServerThreads.inv_run h
  refine ⟨_, ?_, decode_responseDataWithBody _ _ _⟩
  obtain ⟨⟨key, handled⟩, hmem, rfl⟩ := List.mem_map.mp ((hinv.mem_handled_iff connection).mpr hended)
  obtain ⟨request, hrequest, hanswer⟩ := hinv.answers key handled hmem
  obtain rfl : r.text = request := hsent.symm.trans ((ServerThreads.heard_run h).handed key request hrequest)
  rw [hendpoints, handleRequest_path hroute hpath hslash hvalue hsize hforemost hbody husable hcall hserialize
    hserialized] at hanswer
  obtain rfl := Except.ok.inj hanswer
  exact filter_key hinv.handled_nodup hmem

end Exchange

/-- `/hello/{name:not_empty}`. -/
def hello : SingleParam where
  head := "/hello/".toList
  param := ⟨"name".toList, some "not_empty".toList⟩
  last := []
  plainText := ⟨by decide, by decide⟩
  name := by decide

def helloRoute : RouteString StringExtractor where
  str := "/hello/{name:not_empty}".toList
  paramNames := ["name".toList]
  extractors := [⟨true⟩]
  constructed := ⟨[{}], nofun, rfl⟩

/-- It says the name and the text. -/
def sayHello : Callback Str Str Str where
  deserialize := some some
  call request :=
    .code .e201 { body := (request.params.elim [] fun params => params.2.flatten) ++ request.body.getD [] }
  serialize := some fun body => some ⟨body, .ePlain⟩
  captures := true
  alive := true

theorem accepts_hello : hello.Accepts {} ⟨true⟩ helloRoute := ⟨rfl, rfl⟩

def getHello : Endpoint StringExtractor (Callback Str Str Str) := ⟨.eGet, .plain ⟨"/hello".toList, rfl⟩, sayHello⟩

def sayHelloTo : Endpoint StringExtractor (Callback Str Str Str) := ⟨.ePost, .params helloRoute, sayHello⟩

/-- Ann is greeted. -/
theorem exchange_hello : ∃ s message,
    run (ServerThreads.step (build [getHello, sayHelloTo]) true) ServerThreads.start
        (ServerThreads.answering postHello.text) = some s ∧
      s.handled.filter (·.1 = 0) = [(0, .sent message)] ∧
      decode message = some ⟨201, "text/plain".toList, 18, "Ann\r\n\r\nhow are you".toList⟩ := by
  have hview : (run (ServerThreads.step (build [getHello, sayHelloTo]) true) ServerThreads.start
      (ServerThreads.answering postHello.text)).map (fun s => s.handled.map Prod.fst) = some [0] := by
    decide +kernel
  obtain ⟨s, hrun, hhandled⟩ := Option.map_eq_some_iff.mp hview
  have hsent : bytesOf (ServerThreads.received (build [getHello, sayHelloTo]) true
      (ServerThreads.answering postHello.text)) 0 = postHello.text := by decide +kernel
  have hended : .request 0 ∈ s.scheduler.log.executed := by
    apply ((ServerThreads.inv_run hrun).mem_handled_iff 0).mp
    rw [hhandled]
    exact List.mem_cons_self
  have hforemost : Foremost [getHello] [] hello.text.length postHello.path := by
    unfold Foremost
    decide +kernel
  have hpath : postHello.path = hello.path "Ann".toList := rfl
  obtain ⟨message, hmessage, hdecode⟩ := exchange (build [getHello, sayHelloTo]) rfl accepts_hello hpath
    (by decide) rfl (by decide +kernel) hforemost rfl rfl rfl rfl rfl _ s hrun hsent hended
  exact ⟨s, message, hrun, hmessage, hdecode⟩

end Fipper

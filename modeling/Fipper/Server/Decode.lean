import Fipper.Server.Body
import Fipper.Server.Message

/-!
# Reading a response

What a client gets from a response with a body, when it cuts the message at the first empty line.

* `decode` : the status, the content type and the length from the header part, and the body;
* `headerLine` : a header with the line break before it; `responseDataWithBody_eq` : the message in
  these terms;
* `respond_decodes` : what `Endpoint<Func>::handleRequest` sends is read as it was meant.
-/

namespace Fipper

open Lib

variable {E V : Type} [RouteStringExtractor E V] {B R : Type}

structure Decoded where
  status : Nat
  contentType : Str
  contentLength : Nat
  body : Str
  deriving DecidableEq, Repr

/-- The value of the first header with this name. -/
def field (name header : Str) : Option Str :=
  let key := crlf ++ name ++ ": ".toList
  (findText header key).map fun i => upTo '\r' (header.drop (i + key.length))

/-- The second word of the status line. -/
def status (header : Str) : Option Nat := number (upTo ' ' ((onward ' ' header).drop 1))

def decode (message : Str) : Option Decoded := do
  let i ← findText message emptyLine
  let header := message.take i
  let status ← status header
  let contentType ← field "Content-Type".toList header
  let contentLength ← (field "Content-Length".toList header).bind number
  return ⟨status, contentType, contentLength, message.drop (i + emptyLine.length)⟩

/-! ## The header part -/

def headerLine (name value : Str) : Str := crlf ++ name ++ ": ".toList ++ value

/-- The message before the empty line. -/
def headerPart (code : HttpCode) (contentType : ContentType) (data : Str) : Str :=
  statusLine code ++ (headerLine "Content-Type".toList (getContentTypeString contentType).toList ++
    headerLine "Content-Length".toList (decimal data.length))

theorem responseDataWithBody_eq (code : HttpCode) (contentType : ContentType) (data : Str) :
    responseDataWithBody code contentType data =
      headerPart code contentType data ++ (emptyLine ++ data) := by
  simp only [responseDataWithBody, headerPart, headerLine, emptyLine, List.append_assoc]
  rfl

theorem Line.append {s t : Str} (hs : Line s) (ht : Line t) : Line (s ++ t) := by
  unfold Line
  rw [List.mem_append, List.mem_append, not_or, not_or]
  exact ⟨⟨hs.1, ht.1⟩, hs.2, ht.2⟩

theorem line_statusLine (code : HttpCode) : Line (statusLine code) := by
  have hversion : Line "HTTP/1.1 ".toList := by unfold Line; decide
  have hspace : Line " ".toList := by unfold Line; decide
  exact ((hversion.append (line_decimal _)).append hspace).append (line_reason code)

theorem line_contentTypeHeader (contentType : ContentType) :
    Line ("Content-Type".toList ++ ": ".toList ++ (getContentTypeString contentType).toList) := by
  have hname : Line ("Content-Type".toList ++ ": ".toList) := by unfold Line; decide
  exact hname.append (line_contentType contentType)

theorem line_contentLengthHeader (n : Nat) :
    Line ("Content-Length".toList ++ ": ".toList ++ decimal n) := by
  have hname : Line ("Content-Length".toList ++ ": ".toList) := by unfold Line; decide
  exact hname.append (line_decimal n)

/-- A header line is passed over by a search for another text that begins with a line break. -/
theorem findText_headerLine (key : Str) {name value t : Str} {i : Nat} (hline : Line (name ++ ": ".toList ++ value))
    (hother : ¬ '\r' :: key <+: headerLine name value ++ t) (h : findText t ('\r' :: key) = some i) :
    findText (headerLine name value ++ t) ('\r' :: key) =
      some ((headerLine name value).length + i) := by
  have heq : headerLine name value ++ t = '\r' :: (('\n' :: (name ++ ": ".toList ++ value)) ++ t) := by
    simp only [headerLine, List.append_assoc, List.cons_append]
    rfl
  have hrest : '\r' ∉ '\n' :: (name ++ ": ".toList ++ value) := by
    rw [List.mem_cons, not_or]
    exact ⟨by decide, hline.1⟩
  have hskip := findText_cons (heq ▸ hother) (findText_append_of_notMem hrest h)
  rw [heq, hskip]
  simp only [headerLine, crlf, List.length_append, List.length_cons]
  congr 1
  have hbreak : "\r\n".toList.length = 2 := rfl
  omega

/-- Two texts that differ at a place: neither begins with the other there. -/
theorem not_prefix_of_ne {key s : Str} {c d : Char} (n : Nat) (hkey : key[n]? = some c)
    (hs : s[n]? = some d) (hne : c ≠ d) : ¬ key <+: s := by
  rintro ⟨rest, rfl⟩
  rw [List.getElem?_append_left (List.getElem?_eq_some_iff.mp hkey).1, hkey, Option.some.injEq] at hs
  exact hne hs

/-- The header part has no empty line, and ends before one. -/
theorem findText_emptyLine (code : HttpCode) (contentType : ContentType) (data : Str) :
    findText (headerPart code contentType data ++ (emptyLine ++ data)) emptyLine =
      some (headerPart code contentType data).length := by
  have hend : findText (emptyLine ++ data) emptyLine = some 0 :=
    findText_of_prefix (List.prefix_append _ _)
  have hlength := findText_headerLine "\n\r\n".toList (line_contentLengthHeader data.length)
    (not_prefix_of_ne 2 rfl rfl (show '\r' ≠ 'C' by decide)) hend
  have htype := findText_headerLine "\n\r\n".toList (line_contentTypeHeader contentType)
    (not_prefix_of_ne 2 rfl rfl (show '\r' ≠ 'C' by decide)) hlength
  have hstatus := findText_append_of_notMem (line_statusLine code).1 htype
  have happend : headerPart code contentType data ++ (emptyLine ++ data) =
      statusLine code ++ (headerLine "Content-Type".toList (getContentTypeString contentType).toList ++
        (headerLine "Content-Length".toList (decimal data.length) ++ (emptyLine ++ data))) := by
    simp only [headerPart, List.append_assoc]
  rw [happend]
  simp only [headerPart, List.length_append]
  exact hstatus

/-- The value of a header that stands in front. -/
theorem field_headerLine {name value before after : Str}
    (h : findText (before ++ (headerLine name value ++ after)) (crlf ++ name ++ ": ".toList) =
      some before.length) (hvalue : Line value) (hafter : upTo '\r' after = []) :
    field name (before ++ (headerLine name value ++ after)) = some value := by
  have hdrop : (before ++ (headerLine name value ++ after)).drop
      (before.length + (crlf ++ name ++ ": ".toList).length) = value ++ after := by
    rw [← List.drop_drop, List.drop_left, headerLine,
      List.append_assoc (crlf ++ name ++ ": ".toList) value after, List.drop_left]
  rw [field, h, Option.map_some, hdrop, upTo_append hvalue.1, hafter, List.append_nil]

theorem field_contentType (code : HttpCode) (contentType : ContentType) (data : Str) :
    field "Content-Type".toList (headerPart code contentType data) =
      some (getContentTypeString contentType).toList := by
  apply field_headerLine _ (line_contentType contentType) rfl
  have hhere : findText (headerLine "Content-Type".toList (getContentTypeString contentType).toList ++
      headerLine "Content-Length".toList (decimal data.length))
        (crlf ++ "Content-Type".toList ++ ": ".toList) = some 0 := by
    apply findText_of_prefix
    rw [headerLine, List.append_assoc]
    exact List.prefix_append _ _
  have hstatus := findText_append_of_notMem (line_statusLine code).1 hhere
  rwa [Nat.add_zero] at hstatus

theorem field_contentLength (code : HttpCode) (contentType : ContentType) (data : Str) :
    field "Content-Length".toList (headerPart code contentType data) = some (decimal data.length) := by
  have hhere : findText (headerLine "Content-Length".toList (decimal data.length))
      (crlf ++ "Content-Length".toList ++ ": ".toList) = some 0 :=
    findText_of_prefix (List.prefix_append _ _)
  have htype := findText_headerLine "\nContent-Length: ".toList (line_contentTypeHeader contentType)
    (not_prefix_of_ne 10 rfl rfl (show 'L' ≠ 'T' by decide)) hhere
  have hstatus := findText_append_of_notMem (line_statusLine code).1 htype
  have happend : headerPart code contentType data =
      (statusLine code ++ headerLine "Content-Type".toList (getContentTypeString contentType).toList) ++
        (headerLine "Content-Length".toList (decimal data.length) ++ []) := by
    simp only [headerPart, List.append_assoc, List.append_nil]
  rw [happend]
  apply field_headerLine _ (line_decimal _) rfl
  rw [← happend, List.length_append]
  exact hstatus

theorem statusLine_eq (code : HttpCode) :
    statusLine code = "HTTP/1.1".toList ++
      (' ' :: (decimal code.toInt ++ (' ' :: ((getHttpCodeString code).getD "").toList))) := by
  unfold statusLine
  generalize decimal code.toInt = digits
  generalize ((getHttpCodeString code).getD "").toList = reason
  rw [List.append_assoc, List.append_assoc]
  rfl

theorem status_headerPart (code : HttpCode) (contentType : ContentType) (data : Str) :
    status (headerPart code contentType data) = some code.toInt := by
  have hdigits : ' ' ∉ decimal code.toInt := fun h => absurd (isDigit_of_mem_decimal h) (by decide)
  have hversion : ' ' ∉ "HTTP/1.1".toList := by decide
  rw [status, headerPart, statusLine_eq, List.append_assoc, onward_append hversion, List.cons_append,
    onward_cons_self, List.drop_one, List.tail_cons, List.append_assoc, upTo_append hdigits,
    List.cons_append, upTo_cons_self, List.append_nil]
  exact number_repr _

/-- Decoding undoes the building of the message. -/
theorem decode_responseDataWithBody (code : HttpCode) (contentType : ContentType) (data : Str) :
    decode (responseDataWithBody code contentType data) =
      some ⟨code.toInt, (getContentTypeString contentType).toList, data.length, data⟩ := by
  have htake : (headerPart code contentType data ++ (emptyLine ++ data)).take
      (headerPart code contentType data).length = headerPart code contentType data := List.take_left
  have hdrop : (headerPart code contentType data ++ (emptyLine ++ data)).drop
      ((headerPart code contentType data).length + emptyLine.length) = data := by
    rw [← List.drop_drop, List.drop_left, List.drop_left]
  have hnumber : number (decimal data.length) = some data.length := number_repr _
  rw [responseDataWithBody_eq]
  simp only [decode, findText_emptyLine, htake, hdrop, status_headerPart, field_contentType,
    field_contentLength, hnumber, Option.bind_eq_bind, Option.bind_some]
  rfl

/-- The content type that `Response<Body>::serialize` leaves. -/
def Response.sentType (response : Response R) (serialized : Serialized) : ContentType :=
  if response.contentType = .eUnknown then serialized.type else response.contentType

/-- **A response with a body can be read.** Whatever its code, its content type and the bytes of its
body, the message that is sent gives the code, the text of the type, the length and the body. -/
theorem respond_decodes (endpoint : Endpoint E (Callback V B R)) (code : HttpCode)
    (response : Response R) {serialize : R → Option Serialized} {serialized : Serialized}
    (hserialize : endpoint.callback.serialize = some serialize)
    (hbody : serialize response.body = some serialized) :
    ∃ message, endpoint.respond code response = .ok (.sent message) ∧
      decode message =
        some ⟨code.toInt, (getContentTypeString (response.sentType serialized)).toList,
          serialized.data.length, serialized.data⟩ := by
  have hserialized : response.serialize serialize =
      .ok (serialized.data, response.sentType serialized) := by
    rw [Response.serialize, hbody]
    rfl
  refine ⟨responseDataWithBody code (response.sentType serialized) serialized.data, ?_,
    decode_responseDataWithBody _ _ _⟩
  simp only [Endpoint.respond, hserialize, hserialized, bind, Except.bind]
  rfl

/-- A body that looks like a header part. -/
theorem respond_decodes_imitation :
    ∃ message, root.respond .e404 { body := "\r\n\r\nContent-Length: 0\r\n\r\n".toList } =
        .ok (.sent message) ∧
      decode message = some ⟨404, "text/plain".toList, 25,
        "\r\n\r\nContent-Length: 0\r\n\r\n".toList⟩ :=
  respond_decodes root .e404 { body := "\r\n\r\nContent-Length: 0\r\n\r\n".toList } rfl rfl

end Fipper

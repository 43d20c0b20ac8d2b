import Fipper.Basic

/-!
# Responses

Status codes, content types and the text that `Endpoint<Func>::handleRequest` builds from a response.
A body type is a type variable; `fp::serialize` of it is a function, since the serialisation of
reflected structs is not part of this library.
-/

namespace Fipper

/-- `fp::HttpCode`. -/
inductive HttpCode
  | e100 | e101 | e102 | e200 | e201 | e202 | e203 | e204 | e205 | e206 | e207 | e208 | e226
  | e300 | e301 | e302 | e303 | e304 | e307 | e308 | e400 | e401 | e402 | e403 | e404 | e405
  | e406 | e407 | e408 | e409 | e410 | e411 | e412 | e413 | e414 | e415 | e416 | e417 | e418
  | e421 | e422 | e423 | e424 | e426 | e428 | e429 | e431 | e444 | e451 | e499 | e500 | e501
  | e502 | e503 | e504 | e505 | e506 | e507 | e508 | e510 | e511 | e599
  deriving DecidableEq, Repr

/-- `static_cast<std::int32_t>(code)`. -/
def HttpCode.toInt : HttpCode → Nat
  | .e100 => 100 | .e101 => 101 | .e102 => 102 | .e200 => 200 | .e201 => 201 | .e202 => 202
  | .e203 => 203 | .e204 => 204 | .e205 => 205 | .e206 => 206 | .e207 => 207 | .e208 => 208
  | .e226 => 226 | .e300 => 300 | .e301 => 301 | .e302 => 302 | .e303 => 303 | .e304 => 304
  | .e307 => 307 | .e308 => 308 | .e400 => 400 | .e401 => 401 | .e402 => 402 | .e403 => 403
  | .e404 => 404 | .e405 => 405 | .e406 => 406 | .e407 => 407 | .e408 => 408 | .e409 => 409
  | .e410 => 410 | .e411 => 411 | .e412 => 412 | .e413 => 413 | .e414 => 414 | .e415 => 415
  | .e416 => 416 | .e417 => 417 | .e418 => 418 | .e421 => 421 | .e422 => 422 | .e423 => 423
  | .e424 => 424 | .e426 => 426 | .e428 => 428 | .e429 => 429 | .e431 => 431 | .e444 => 444
  | .e451 => 451 | .e499 => 499 | .e500 => 500 | .e501 => 501 | .e502 => 502 | .e503 => 503
  | .e504 => 504 | .e505 => 505 | .e506 => 506 | .e507 => 507 | .e508 => 508 | .e510 => 510
  | .e511 => 511 | .e599 => 599

def getHttpCodeString : HttpCode → Option String
  | .e100 => some "Continue"
  | .e101 => some "Switching Protocols"
  | .e102 => some "Processing"
  | .e200 => some "OK"
  | .e201 => some "Created"
  | .e202 => some "Accepted"
  | .e203 => some "Non-authoritative Information"
  | .e204 => some "No Content"
  | .e205 => some "Reset Content"
  | .e206 => some "Partial Content"
  | .e207 => some "Multi-Status"
  | .e208 => some "Already Reported"
  | .e226 => some "IM Used"
  | .e300 => some "Multiple Choices"
  | .e301 => some "Moved Permanently"
  | .e302 => some "Found"
  | .e303 => some "See Other"
  | .e304 => some "Not Modified"
  | .e307 => some "Temporary Redirect"
  | .e308 => some "Permanent Redirect"
  | .e400 => some "Bad Request"
  | .e401 => some "Unauthorized"
  | .e402 => some "Payment Required"
  | .e403 => some "Forbidden"
  | .e404 => some "Not Found"
  | .e405 => some "Method Not Allowed"
  | .e406 => some "Not Acceptable"
  | .e407 => some "Proxy Authentication Required"
  | .e408 => some "Request Timeout"
  | .e409 => some "Conflict"
  | .e410 => some "Gone"
  | .e411 => some "Length Required"
  | .e412 => some "Precondition Failed"
  | .e413 => some "Payload Too Large"
  | .e414 => some "Request-URI Too Long"
  | .e415 => some "Unsupported Media Type"
  | .e416 => some "Requested Range Not Satisfiable"
  | .e417 => some "Expectation Failed"
  | .e418 => some "I'm a teapot"
  | .e421 => some "Misdirected Request"
  | .e422 => some "Unprocessable Entity"
  | .e423 => some "Locked"
  | .e424 => some "Failed Dependency"
  | .e426 => some "Upgrade Required"
  | .e428 => some "Precondition Required"
  | .e429 => some "Too Many Requests"
  | .e431 => some "Request Header Fields Too Large"
  | .e444 => some "Connection Closed Without Response"
  | .e451 => some "Unavailable For Legal Reasons"
  | .e499 => some "Client Closed Request"
  | .e500 => some "Internal Server Error"
  | .e501 => some "Not Implemented"
  | .e502 => some "Bad Gateway"
  | .e503 => some "Service Unavailable"
  | .e504 => some "Gateway Timeout"
  | .e505 => some "HTTP Version Not Supported"
  | .e506 => some "Variant Also Negotiates"
  | .e507 => some "Insufficient Storage"
  | .e508 => some "Loop Detected"
  | .e510 => some "Not Extended"
  | .e511 => some "Network Authentication Required"
  | .e599 => some "Network Connect Timeout Error"

/-- `fp::ContentType`. -/
inductive ContentType
  | eJson | eMpeg | eOgg | eAvif | eJpeg | ePng | eSvg | eTiff | eObj | ePlain | eCss | eCsv
  | eHtml | eJavascript | eXml | eUnknown
  deriving DecidableEq, Repr

def getContentTypeString : ContentType → String
  | .eJson => "application/json"
  | .eMpeg => "audio/mpeg"
  | .eOgg => "audio/ogg"
  | .eAvif => "image/avif"
  | .eJpeg => "image/jpeg"
  | .ePng => "image/png"
  | .eSvg => "image/svg+xml"
  | .eTiff => "image/tiff"
  | .eObj => "model/obj"
  | .ePlain => "text/plain"
  | .eCss => "text/css"
  | .eCsv => "text/csv"
  | .eHtml => "text/html"
  | .eJavascript => "text/javascript"
  | .eXml => "text/xml"
  | .eUnknown => "unknown"

/-- `fp::Serialized`. -/
structure Serialized where
  data : Str
  type : ContentType := .eJson

/-- `fp::Response<Body>`, as a callback leaves it; for `void` the body carries nothing. -/
structure Response (R : Type) where
  contentType : ContentType := .eUnknown
  body : R

/-- `Response<Body>::serialize`: the serialised body and the content type. -/
def Response.serialize {R : Type} (serialize : R → Option Serialized) (response : Response R) :
    Except Fault (Str × ContentType) :=
  match serialize response.body with
  -- `*fp::serialize<Body>(body)`
  | none => .error .undefined
  | some data =>
      .ok (data.data, if response.contentType = .eUnknown then data.type else response.contentType)

/-- `std::to_string`. -/
def decimal (n : Nat) : Str := (Nat.repr n).toList

/-- `HTTP/1.1 code text`. -/
def statusLine (code : HttpCode) : Str :=
  "HTTP/1.1 ".toList ++ decimal code.toInt ++ " ".toList ++
    ((getHttpCodeString code).getD "").toList

/-- The message for a response without a body. -/
def responseData (code : HttpCode) : Str := statusLine code

/-- The message for a response with a body. -/
def responseDataWithBody (code : HttpCode) (contentType : ContentType) (data : Str) : Str :=
  statusLine code ++ "\r\nContent-Type: ".toList ++ (getContentTypeString contentType).toList ++
    "\r\nContent-Length: ".toList ++ decimal data.length ++ "\r\n\r\n".toList ++ data

end Fipper

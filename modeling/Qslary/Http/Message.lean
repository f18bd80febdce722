import Qslary.Foundation.RankedMap
import Qslary.Foundation.Text

/-!
# HTTP messages

The request and response objects of `http/Http.cc` and what `dump` writes of them.
Headers are kept in a map that compares names with `strcasecmp`; `dump` filters the
name `connection` with a comparison of strings.
-/

namespace Qslary.Http

open Qslary.Foundation

inductive HttpMethod where
  | DELETE | GET | HEAD | POST | PUT | CONNECT | OPTIONS | TRACE | COPY | LOCK | MKCOL | MOVE
  | PROPFIND | PROPPATCH | SEARCH | UNLOCK | BIND | REBIND | UNBIND | ACL | REPORT | MKACTIVITY
  | CHECKOUT | MERGE | MSEARCH | NOTIFY | SUBSCRIBE | UNSUBSCRIBE | PATCH | PURGE | MKCALENDAR
  | LINK | UNLINK | SOURCE | UNKNOW
  deriving DecidableEq, Repr

/-- `HTTP_METHOD_MAP`, in its order. -/
def httpMethodMap : List (HttpMethod × String) :=
  [ (.DELETE, "DELETE"), (.GET, "GET"), (.HEAD, "HEAD"), (.POST, "POST"), (.PUT, "PUT"),
    (.CONNECT, "CONNECT"), (.OPTIONS, "OPTIONS"), (.TRACE, "TRACE"), (.COPY, "COPY"),
    (.LOCK, "LOCK"), (.MKCOL, "MKCOL"), (.MOVE, "MOVE"), (.PROPFIND, "PROPFIND"),
    (.PROPPATCH, "PROPPATCH"), (.SEARCH, "SEARCH"), (.UNLOCK, "UNLOCK"), (.BIND, "BIND"),
    (.REBIND, "REBIND"), (.UNBIND, "UNBIND"), (.ACL, "ACL"), (.REPORT, "REPORT"),
    (.MKACTIVITY, "MKACTIVITY"), (.CHECKOUT, "CHECKOUT"), (.MERGE, "MERGE"),
    (.MSEARCH, "MSEARCH"), (.NOTIFY, "NOTIFY"), (.SUBSCRIBE, "SUBSCRIBE"),
    (.UNSUBSCRIBE, "UNSUBSCRIBE"), (.PATCH, "PATCH"), (.PURGE, "PURGE"),
    (.MKCALENDAR, "MKCALENDAR"), (.LINK, "LINK"), (.UNLINK, "UNLINK"), (.SOURCE, "SOURCE") ]

/-- `HTTP_STATUS_MAP`, in its order. -/
def httpStatusMap : List (UInt32 × String) :=
  [ (100, "CONTINUE"), (101, "SWITCHING_PROTOCOLS"), (102, "PROCESSING"), (200, "OK"),
    (201, "CREATED"), (202, "ACCEPTED"), (203, "NON_AUTHORITATIVE_INFORMATION"),
    (204, "NO_CONTENT"), (205, "RESET_CONTENT"), (206, "PARTIAL_CONTENT"), (207, "MULTI_STATUS"),
    (208, "ALREADY_REPORTED"), (226, "IM_USED"), (300, "MULTIPLE_CHOICES"),
    (301, "MOVED_PERMANENTLY"), (302, "FOUND"), (303, "SEE_OTHER"), (304, "NOT_MODIFIED"),
    (305, "USE_PROXY"), (307, "TEMPORARY_REDIRECT"), (308, "PERMANENT_REDIRECT"),
    (400, "BAD_REQUEST"), (401, "UNAUTHORIZED"), (402, "PAYMENT_REQUIRED"), (403, "FORBIDDEN"),
    (404, "NOT_FOUND"), (405, "METHOD_NOT_ALLOWED"), (406, "NOT_ACCEPTABLE"),
    (407, "PROXY_AUTHENTICATION_REQUIRED"), (408, "REQUEST_TIMEOUT"), (409, "CONFLICT"),
    (410, "GONE"), (411, "LENGTH_REQUIRED"), (412, "PRECONDITION_FAILED"),
    (413, "PAYLOAD_TOO_LARGE"), (414, "URI_TOO_LONG"), (415, "UNSUPPORTED_MEDIA_TYPE"),
    (416, "RANGE_NOT_SATISFIABLE"), (417, "EXPECTATION_FAILED"), (421, "MISDIRECTED_REQUEST"),
    (422, "UNPROCESSABLE_ENTITY"), (423, "LOCKED"), (424, "FAILED_DEPENDENCY"),
    (426, "UPGRADE_REQUIRED"), (428, "PRECONDITION_REQUIRED"), (429, "TOO_MANY_REQUESTS"),
    (431, "REQUEST_HEADER_FIELDS_TOO_LARGE"), (451, "UNAVAILABLE_FOR_LEGAL_REASONS"),
    (500, "INTERNAL_SERVER_ERROR"), (501, "NOT_IMPLEMENTED"), (502, "BAD_GATEWAY"),
    (503, "SERVICE_UNAVAILABLE"), (504, "GATEWAY_TIMEOUT"), (505, "HTTP_VERSION_NOT_SUPPORTED"),
    (506, "VARIANT_ALSO_NEGOTIATES"), (507, "INSUFFICIENT_STORAGE"), (508, "LOOP_DETECTED"),
    (510, "NOT_EXTENDED"), (511, "NETWORK_AUTHENTICATION_REQUIRED") ]

def httpMethodToString (method : HttpMethod) : Bytes :=
  match httpMethodMap.find? fun entry => entry.1 = method with
  | some entry => ascii entry.2
  | none => ascii "UNKNOW"

/-- Statuses are cast from numbers, so that any number can occur. -/
def httpStatusToString (status : UInt32) : Bytes :=
  match httpStatusMap.find? fun entry => entry.1 = status with
  | some entry => ascii entry.2
  | none => ascii "UNKNOW"

/-! ## Headers -/

def toLower (byte : UInt8) : UInt8 :=
  if 65 ≤ byte ∧ byte ≤ 90 then byte + 32 else byte

def lower (text : Bytes) : Bytes := text.map toLower

/-- What `strcasecmp` sees of a string: the bytes before the first NUL, in lower case. -/
def caseKey (text : Bytes) : List Nat :=
  (lower (text.takeWhile (· ≠ 0))).map UInt8.toNat

/-- `strcasecmp(lhs.c_str(), rhs.c_str()) == 0` -/
def strcaseeq (lhs rhs : Bytes) : Bool := caseKey lhs = caseKey rhs

/-- `std::map<std::string, std::string, CaseInsensitiveLess>` -/
abbrev Headers := RankedMap caseKey Bytes

/-- `std::map<std::string, std::string>` -/
abbrev StringMap := RankedMap (fun key : Bytes => key.map UInt8.toNat) Bytes

abbrev crlf : Bytes := [13, 10]

def headerLine (header : Bytes × Bytes) : Bytes := header.1 ++ ascii ": " ++ header.2

def writeLines (lines : List Bytes) : Bytes := lines.flatMap (· ++ crlf)

/-- The major and minor digits of a version byte, as `dump` prints them. -/
def versionText (version : UInt8) : Bytes :=
  ascii "HTTP/" ++ decimal (version.toNat / 16) ++ ascii "." ++ decimal (version.toNat % 16)

/-- The entries that `dump` writes, and the length of a body that is there. -/
def writtenHeaders (headers : Headers) : List (Bytes × Bytes) :=
  headers.entries.filter fun entry => entry.1 ≠ ascii "connection"

def lengthHeader (body : Bytes) : List (Bytes × Bytes) :=
  if body = [] then [] else [(ascii "content-length", decimal body.length)]

/-! ## Requests -/

structure HttpRequest where
  method : HttpMethod
  version : UInt8
  close : Bool
  url : Bytes
  path : Bytes
  query : Bytes
  fragment : Bytes
  body : Bytes
  headers : Headers

namespace HttpRequest

/-- `HttpRequest()` -/
def new : HttpRequest := ⟨.GET, 0, true, [], ascii "/", [], [], [], .empty⟩

def setHeaderEntry (req : HttpRequest) (key value : Bytes) : HttpRequest :=
  { req with headers := req.headers.insert key value }

def requestLine (req : HttpRequest) : Bytes :=
  httpMethodToString req.method ++ ascii " " ++ req.url ++ ascii " " ++ versionText req.version

def dump (req : HttpRequest) : Bytes :=
  writeLines (req.requestLine ::
    (writtenHeaders req.headers ++ lengthHeader req.body).map headerLine) ++ crlf ++ req.body

end HttpRequest

/-! ## Responses -/

structure HttpResponse where
  status : UInt32
  version : UInt8
  close : Bool
  reason : Bytes
  body : Bytes
  headers : Headers

namespace HttpResponse

/-- `HttpResponse()` -/
def new : HttpResponse := ⟨200, 0, true, [], [], .empty⟩

/-- `HttpResponse(status, version, close)` -/
def ofStatus (status : UInt32) (version : UInt8) (close : Bool) : HttpResponse :=
  ⟨status, version, close, [], [], .empty⟩

def setHeaderEntry (rsp : HttpResponse) (key value : Bytes) : HttpResponse :=
  { rsp with headers := rsp.headers.insert key value }

def statusLine (rsp : HttpResponse) : Bytes :=
  versionText rsp.version ++ ascii " " ++ decimal rsp.status.toNat ++ ascii " " ++
    if rsp.reason = [] then httpStatusToString rsp.status else rsp.reason

/-- The header lines that `dump` writes. -/
def fields (rsp : HttpResponse) : List (Bytes × Bytes) :=
  writtenHeaders rsp.headers ++
    [(ascii "connection", if rsp.close then ascii "close" else ascii "keep-alive")] ++
    lengthHeader rsp.body

/-- A body is followed by one more line end. -/
def dump (rsp : HttpResponse) : Bytes :=
  writeLines (rsp.statusLine :: rsp.fields.map headerLine) ++ crlf ++
    if rsp.body = [] then [] else rsp.body ++ crlf

end HttpResponse

end Qslary.Http

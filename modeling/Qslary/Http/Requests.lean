import Qslary.Http.Framing

/-!
# Requests written and read back

`DoRequest` fills in the path, the query and the fragment; `dump` writes the URL and
the version, which nothing has set.  Whatever is asked for, the request line is the
method followed by `"  HTTP/0.0"`, and no reader of the grammar accepts it.
-/

namespace Qslary.Http

open Qslary.Foundation

/-! ## Building -/

/-- What `DoRequest` reads of a `URI`. -/
structure Uri where
  host : Bytes
  path : Bytes
  query : Bytes
  fragment : Bytes

def Uri.getPath (uri : Uri) : Bytes := if uri.path = [] then ascii "/" else uri.path

/-- The loop of `DoRequest` over the headers that are asked for, with `has_host`. -/
def addHeaders : List (Bytes × Bytes) → HttpRequest → Bool → HttpRequest × Bool
  | [], req, hasHost => (req, hasHost)
  | (key, value) :: rest, req, hasHost =>
      if strcaseeq key (ascii "connection") then
        if strcaseeq value (ascii "keep-alive") then
          addHeaders rest { req with close := false } hasHost
        else addHeaders rest req hasHost
      else
        addHeaders rest (req.setHeaderEntry key value)
          (if !hasHost && strcaseeq key (ascii "host") then value ≠ [] else hasHost)

/-- The request that `HttpConnection::DoRequest` builds. -/
def doRequest (method : HttpMethod) (uri : Uri) (headers : StringMap) (body : Bytes) :
    HttpRequest :=
  let req := { HttpRequest.new with
    path := uri.getPath
    method := method
    query := uri.query
    fragment := uri.fragment }
  let (req, hasHost) := addHeaders headers.entries req false
  let req := if hasHost then req else req.setHeaderEntry (ascii "Host") uri.host
  { req with body := body }

/-! ## Reading -/

/-- Method, target and version of a request line, the target in its three parts. -/
structure Requested where
  method : HttpMethod
  path : Bytes
  query : Bytes
  fragment : Bytes
  headers : List (Bytes × Bytes)
  body : Bytes
  deriving DecidableEq

def readMethod (text : Bytes) : Option HttpMethod :=
  (httpMethodMap.find? fun entry => ascii entry.2 = text).map Prod.fst

/-- `METHOD SP target SP HTTP/1.1` or `HTTP/1.0` -/
def readRequestLine (line : Bytes) : Option (HttpMethod × Bytes) := do
  let (word, rest) := splitFirst 32 line
  let (target, version) := splitFirst 32 rest
  let method ← readMethod word
  if version = ascii "HTTP/1.1" ∨ version = ascii "HTTP/1.0" then some (method, target) else none

def readRequest (bytes : Bytes) : Option Requested := do
  let (lines, rest) ← readBlock bytes.length bytes
  match lines with
  | [] => none
  | line :: lines =>
      let (method, target) ← readRequestLine line
      let (target, fragment) := splitFirst 35 target
      let (path, query) := splitFirst 63 target
      let headers ← lines.mapM (cut 58 32)
      let length ← contentLength headers
      if rest.length = length then some ⟨method, path, query, fragment, headers, rest⟩ else none

namespace HttpRequest

/-- The target of the grammar. -/
def target (req : HttpRequest) : Bytes :=
  req.path ++ (if req.query = [] then [] else ascii "?" ++ req.query) ++
    (if req.fragment = [] then [] else ascii "#" ++ req.fragment)

/-- The first line is the one of the grammar, and what is read back is what was asked for. -/
structure Survives (req : HttpRequest) : Prop where
  line : ∃ version ∈ [ascii "HTTP/1.1", ascii "HTTP/1.0"],
    httpMethodToString req.method ++ ascii " " ++ req.target ++ ascii " " ++ version ++ crlf <+:
      req.dump
  read : readRequest req.dump = some ⟨req.method, req.path, req.query, req.fragment,
    req.headers.entries ++ lengthHeader req.body, req.body⟩

end HttpRequest

/-! ## What is written -/

/-- The loop leaves alone what `dump` writes into the request line. -/
theorem addHeaders_line (headers : List (Bytes × Bytes)) (req : HttpRequest) (hasHost : Bool) :
    (addHeaders headers req hasHost).1.requestLine = req.requestLine := by
  induction headers generalizing req hasHost with
  | nil => rfl
  | cons header rest ih =>
      obtain ⟨key, value⟩ := header
      unfold addHeaders
      split
      · split
        · exact ih _ _
        · exact ih _ _
      · exact ih _ _

theorem doRequest_line (method : HttpMethod) (uri : Uri) (headers : StringMap) (body : Bytes) :
    (doRequest method uri headers body).requestLine =
      httpMethodToString method ++ ascii "  HTTP/0.0" := by
  have hloop := addHeaders_line headers.entries { HttpRequest.new with
    path := uri.getPath
    method := method
    query := uri.query
    fragment := uri.fragment } false
  have hnew : HttpRequest.requestLine { HttpRequest.new with
      path := uri.getPath
      method := method
      query := uri.query
      fragment := uri.fragment } = httpMethodToString method ++ ascii "  HTTP/0.0" := by
    simp only [HttpRequest.requestLine, HttpRequest.new, List.append_assoc]
    congr 1
  rw [← hnew, ← hloop]
  unfold doRequest
  dsimp only
  split <;> rfl

theorem httpMethodToString_plain (method : HttpMethod) :
    13 ∉ httpMethodToString method ∧ 32 ∉ httpMethodToString method := by
  cases method <;> decide

/-- The version of the line that is written is not one of the grammar. -/
theorem readRequestLine_none (method : HttpMethod) :
    readRequestLine (httpMethodToString method ++ ascii "  HTTP/0.0") = none := by
  have hspaces : ascii "  HTTP/0.0" = 32 :: ([] ++ 32 :: ascii "HTTP/0.0") := by decide
  have hword := (httpMethodToString_plain method).2
  have hversion :
      ¬ (ascii "HTTP/0.0" = ascii "HTTP/1.1" ∨ ascii "HTTP/0.0" = ascii "HTTP/1.0") := by decide
  simp only [readRequestLine, hspaces, splitFirst_append hword,
    splitFirst_append (List.not_mem_nil (a := (32 : UInt8))), if_neg hversion]
  cases readMethod (httpMethodToString method) <;> rfl

/-- A block begins with what stands before the first line end. -/
theorem head?_of_readBlock {line rest after : Bytes} {lines : List Bytes} {fuel : Nat}
    (hcr : 13 ∉ line) (hne : line ≠ [])
    (h : readBlock fuel (line ++ crlf ++ rest) = some (lines, after)) :
    lines.head? = some line := by
  have hwithin : ¬ [13, 10] <:+: line := fun hin => hcr (hin.subset List.mem_cons_self)
  have hcut : cut 13 10 (line ++ crlf ++ rest) = some (line, rest) := by
    rw [List.append_assoc]
    exact cut_append (by decide) hwithin rest
  cases fuel with
  | zero => cases h
  | succ fuel =>
      cases line with
      | nil => exact absurd rfl hne
      | cons byte line =>
          simp only [readBlock, hcut] at h
          obtain ⟨block, -, heq⟩ := Option.map_eq_some_iff.mp h
          cases heq
          rfl

theorem readRequest_none (method : HttpMethod) (rest : Bytes) :
    readRequest (httpMethodToString method ++ ascii "  HTTP/0.0" ++ crlf ++ rest) = none := by
  have hcr : 13 ∉ httpMethodToString method ++ ascii "  HTTP/0.0" := by
    rw [List.mem_append, not_or]
    exact ⟨(httpMethodToString_plain method).1, by decide⟩
  have hne : httpMethodToString method ++ ascii "  HTTP/0.0" ≠ [] :=
    fun hnil => absurd (List.append_eq_nil_iff.mp hnil).2 (by decide)
  unfold readRequest
  cases hblock : readBlock _ (httpMethodToString method ++ ascii "  HTTP/0.0" ++ crlf ++ rest) with
  | none => rfl
  | some block =>
      obtain ⟨lines, after⟩ := block
      have hhead := head?_of_readBlock hcr hne hblock
      cases lines with
      | nil => cases hhead
      | cons line lines =>
          cases hhead
          simp only [readRequestLine_none, Option.bind_eq_bind, Option.bind_some, Option.bind_none]

theorem request_never_survives (method : HttpMethod) (uri : Uri) (headers : StringMap)
    (body : Bytes) : ¬ (doRequest method uri headers body).Survives := by
  intro h
  have hread := h.read
  have hdump : ∃ rest, (doRequest method uri headers body).dump =
      httpMethodToString method ++ ascii "  HTTP/0.0" ++ crlf ++ rest := by
    simp only [HttpRequest.dump, writeLines, List.flatMap_cons, doRequest_line, List.append_assoc]
    exact ⟨_, rfl⟩
  obtain ⟨rest, hdump⟩ := hdump
  rw [hdump, readRequest_none] at hread
  cases hread

/-- `GET /` without a header: what is written starts `GET  HTTP/0.0`. -/
theorem request_for_root_lost :
    ¬ (doRequest .GET ⟨ascii "qslary", [], [], []⟩ .empty []).Survives := by
  intro h
  have hread := h.read
  revert hread
  decide

end Qslary.Http

import Arws.Server.ReadLoop

/-!
# Parsing a request

What `handle_client` makes of the buffer when its read loop is left: the request line, the checks on
the target, the query, the header fields and the host.  The code works in the buffer and writes a
zero byte where a piece ends; here each piece is the text it then reads as.

`parseRequest` is the whole of it.  It answers 400 with one of five texts, or yields the request;
`HttpRequest` has the fields that the code behind it reads.

`parseRequest_eq_request` and `parseHead_eq_ok` say what a request that goes on was parsed from.
-/

set_option autoImplicit false

namespace Arws
namespace Server

open CString

structure HttpHeader where
  name : Bytes
  value : Bytes
  deriving DecidableEq

structure QueryParam where
  key : Bytes
  value : Bytes
  deriving DecidableEq

structure HttpRequest where
  method : Bytes
  path : Bytes
  /-- What follows the question mark, if there is one. -/
  queryParams : Option Bytes
  parsedQuery : List QueryParam
  headers : List HttpHeader
  host : Bytes
  body : Bytes
  bodyLengthInBuffer : Int
  deriving DecidableEq

/-- `get_header`. -/
def getHeader (req : HttpRequest) (name : Bytes) : Option Bytes :=
  (req.headers.find? fun h => strcaseeq h.name name).map (·.value)

/-! ## The request target -/

def isXDigit (c : UInt8) : Bool := isDigit c || (65 ≤ c && c ≤ 70) || (97 ≤ c && c ≤ 102)

/-- The value of a hexadecimal digit. -/
def xDigitValue (c : UInt8) : UInt8 :=
  let c := if 97 ≤ c then c - 32 else c
  if 65 ≤ c then c - 65 + 10 else c - 48

/-- The byte a percent sign and two digits stand for; a zero byte becomes 1. -/
def decodedByte (a b : UInt8) : UInt8 :=
  let val := xDigitValue a <<< 4 ||| xDigitValue b
  if val == 0 then 1 else val

/-- `url_decode`. -/
def urlDecode : Bytes → Bytes
  | [] => []
  | [c] => [if c == 43 then 32 else c]
  | [c, d] => (if c == 43 then 32 else c) :: urlDecode [d]
  | c :: a :: b :: s =>
    if c == 37 && isXDigit a && isXDigit b then decodedByte a b :: urlDecode s
    else (if c == 43 then 32 else c) :: urlDecode (a :: b :: s)

def contains (pat s : Bytes) : Bool := (strstr pat s).isSome

/-- `server_path_safe`. -/
def serverPathSafe (path : Bytes) : Bool :=
  !path.isEmpty && !contains (ascii "..") path &&
    !contains (ascii "%2e") path && !contains (ascii "%2E") path &&
    !contains (ascii "%2f") path && !contains (ascii "%2F") path &&
    !contains (ascii "%5c") path && !contains (ascii "%5C") path &&
    !path.contains 92 && path.all fun c => !(c < 0x20 || c == 0x7F)

/-- `strtok_r` with the separator `" "`: the token and the text behind it. -/
def strtok (s : Bytes) : Option (Bytes × Bytes) :=
  match s.dropWhile (· == 32) with
  | [] => none
  | t => some (t.takeWhile (· != 32), (t.dropWhile (· != 32)).tail)

/-- How the allocations of the parser go. -/
structure ParseEnv where
  /-- `second_pass` is allocated. -/
  secondPass : Bool
  /-- `q_copy` is allocated. -/
  queryCopy : Bool

/-- The second decoding, of a target that still has a percent sign after the first. -/
def decodeAgain (env : ParseEnv) (fullPath : Bytes) : Except Bytes Bytes :=
  if fullPath.contains 37 && env.secondPass then
    let fullPath := urlDecode fullPath
    if fullPath.contains 37 then .error (ascii "Bad Request (Invalid Encoding)") else .ok fullPath
  else .ok fullPath

/-- The checks on the target and its decoding. -/
def checkTarget (env : ParseEnv) (target : Bytes) : Except Bytes Bytes :=
  if contains (ascii "%00") target || !serverPathSafe target then
    .error (ascii "Bad Request (Null Byte / Malicious Path)")
  else do
    let fullPath ← decodeAgain env (urlDecode target)
    if fullPath.any (· < 0x20) then .error (ascii "Bad Request (Invalid Character)")
    else if !serverPathSafe fullPath then
      .error (ascii "Bad Request (Path Traversal / Malicious Characters)")
    else .ok fullPath

/-- The method and the decoded target of a request line. -/
def parseRequestLine (env : ParseEnv) (line : Bytes) : Except Bytes (Bytes × Bytes) :=
  match strtok line with
  | none => .error (ascii "Bad Request")
  | some (method, rest) =>
    match strtok rest with
    | none => .error (ascii "Bad Request")
    | some (target, _) => (checkTarget env target).map fun fullPath => (method, fullPath)

/-! ## The query -/

def queryParam (piece : Bytes) : QueryParam :=
  match strchr 61 piece with
  | some i => ⟨piece.take i, piece.drop (i + 1)⟩
  | none => ⟨piece, []⟩

/-- The parameters of a query, at most as many as there is room for. -/
def parseQuery : Nat → Bytes → List QueryParam
  | 0, _ => []
  | room + 1, q =>
    if q.isEmpty then []
    else match strchr 38 q with
      | some i => queryParam (q.take i) :: parseQuery room (q.drop (i + 1))
      | none => [queryParam q]

/-- The path and the query of a decoded target.  Without a copy, the query reads as far as the first
zero byte that taking it apart writes. -/
def splitTarget (env : ParseEnv) (fullPath : Bytes) : Bytes × Option Bytes × List QueryParam :=
  match strchr 63 fullPath with
  | none => (fullPath, none, [])
  | some i =>
    let q := fullPath.drop (i + 1)
    (fullPath.take i,
      some (if env.queryCopy then q else q.takeWhile fun c => c != 38 && c != 61),
      parseQuery 50 q)

/-! ## The header fields -/

/-- The fields of the lines, at most as many as there is room for.  A line without a colon is
passed over, and an empty one ends them. -/
def parseHeaders : Nat → List Bytes → List HttpHeader
  | 0, _ => []
  | _, [] => []
  | room + 1, line :: lines =>
    if line.head?.all fun c => c == cr || c == lf then []
    else match strchr 58 line with
      | some i => ⟨line.take i, (line.drop (i + 1)).dropWhile (· == 32)⟩ :: parseHeaders room lines
      | none => parseHeaders (room + 1) lines

/-- `req.host` for a `Host` field: without the port, at most 255 bytes, without dots at the end. -/
def parseHost (value : Bytes) : Bytes :=
  let host := ((value.dropWhile (· == 32)).takeWhile (· != 58)).take 255
  (host.reverse.dropWhile (· == 46)).reverse

/-- The request in a header block and a body. -/
def parseHead (env : ParseEnv) (head body : Bytes) (bodyLength : Int) :
    Except Bytes (Bytes × HttpRequest) :=
  let lines := splitLines head
  (parseRequestLine env (lines.headD [])).map fun (method, fullPath) =>
    let (path, queryParams, parsedQuery) := splitTarget env fullPath
    let req : HttpRequest := ⟨method, path, queryParams, parsedQuery,
      parseHeaders 100 lines.tail, [], body, bodyLength⟩
    (fullPath, { req with host := ((getHeader req (ascii "Host")).map parseHost).getD [] })

/-! ## Behind the read loop -/

/-- What `handle_client` does when the loop is left. -/
inductive Parsed
  /-- There is no header block: the connection is closed without an answer. -/
  | closed
  /-- `body_start` points into a block that was freed. -/
  | undefined
  /-- 400 with this text. -/
  | badRequest (text : Bytes)
  /-- The request goes on, with its decoded target. -/
  | request (fullPath : Bytes) (req : HttpRequest)
  deriving DecidableEq

/-- The body as `req.body` points at it: a zero byte is written behind the declared length where the
buffer has room for it. -/
def bodyInBuffer (s : ReadState) (headerLen : Nat) : Bytes :=
  let body := s.bytes.drop headerLen
  if 0 < s.contentLength ∧ s.contentLength < (s.bufferSize : Int) - headerLen then
    body.set s.contentLength.toNat 0
  else body

/-- `body_start` behind the loop: it is looked for once more if the loop has not found it. -/
def lastBodyStart (s : ReadState) : Option (Nat × Nat) :=
  s.bodyStart.or ((strstr crlfcrlf s.text).map fun off => (s.block, off))

def parseRequest (env : ParseEnv) (s : ReadState) : Parsed :=
  match lastBodyStart s with
  | none => .closed
  | some (block, off) =>
    if block ≠ s.block then .undefined
    else match parseHead env ((s.bytes ++ s.rest).take off) (bodyInBuffer s (off + 4))
        ((s.bytes.length : Int) - (off + 4)) with
      | .error text => .badRequest text
      | .ok (fullPath, req) => .request fullPath req

/-! ## What is parsed -/

/-- **What a head is parsed to**, part by part. -/
theorem parseHead_eq_ok {env : ParseEnv} {head body fullPath : Bytes} {len : Int} {req : HttpRequest}
    (h : parseHead env head body len = .ok (fullPath, req)) :
    parseRequestLine env ((splitLines head).headD []) = .ok (req.method, fullPath) ∧
      splitTarget env fullPath = (req.path, req.queryParams, req.parsedQuery) ∧
      req.headers = parseHeaders 100 (splitLines head).tail ∧
      req.host = ((getHeader req (ascii "Host")).map parseHost).getD [] ∧
      req.body = body ∧ req.bodyLengthInBuffer = len := by
  rw [parseHead] at h
  cases hline : parseRequestLine env ((splitLines head).headD []) with
  | error text =>
    rw [hline] at h
    cases h
  | ok line =>
    rw [hline] at h
    cases h
    exact ⟨rfl, rfl, rfl, rfl, rfl, rfl⟩

/-- **A request that goes on** is parsed from the header block in the buffer, and the body behind it. -/
theorem parseRequest_eq_request {env : ParseEnv} {s : ReadState} {fullPath : Bytes} {req : HttpRequest}
    (h : parseRequest env s = .request fullPath req) :
    ∃ off, lastBodyStart s = some (s.block, off) ∧
      parseHead env ((s.bytes ++ s.rest).take off) (bodyInBuffer s (off + 4))
        ((s.bytes.length : Int) - (off + 4)) = .ok (fullPath, req) := by
  rw [parseRequest] at h
  cases hlast : lastBodyStart s with
  | none =>
    rw [hlast] at h
    cases h
  | some start =>
    obtain ⟨block, off⟩ := start
    rw [hlast] at h
    simp only at h
    split_ifs at h with hblock
    rw [ne_eq, Decidable.not_not] at hblock
    subst hblock
    split at h
    · cases h
    · rename_i hok
      cases h
      exact ⟨off, rfl, hok⟩

end Server
end Arws

import Arws.Library.CharArray
import Arws.Library.Interaction
import Arws.Server.Request

/-!
# A client connection

The record that `pool_worker` keeps of a connection while it is served, and what the server offers
to those who answer a request on it: `server_send_response`, `server_add_header`, `server_redirect`,
`server_serve_file`, `server_conn_write`, `server_conn_read`, `server_get_client_ip`.  Outside of
`server.c` the record is opaque, so whoever answers a request is a program over these calls, and
`server_send_404`, `server_send_json` and the `arws_send_*` functions are such programs.

`client_ip` and `current_path` are always terminated and are modelled by their strings.
`response_headers` and `anon_id` are `CharArray`s: what they hold is not known before they are
written, and a call that reads one without a terminator is undefined.

* `SameStrings` — two records that differ at most behind the terminators of their arrays.
* `perform_related` — a call keeps two sessions with such records alike, and answers both the same.
-/

set_option autoImplicit false

namespace Arws
namespace Server

open CString

/-- `MODE_INSECURE` and `MODE_SECURE`. -/
inductive Mode
  | insecure
  | secure
  deriving DecidableEq

structure ClientConnection where
  mode : Mode
  /-- `ssl` is not null. -/
  ssl : Bool
  clientIp : Bytes
  currentPath : Bytes
  responseHeaders : CharArray 1024
  anonId : CharArray 65
  deriving DecidableEq

/-- What bytes are handed to: `ar_ssl_write`, or `ar_socket_send` and `sendfile`. -/
inductive Wire
  | ssl
  | socket
  deriving DecidableEq

/-- A call of the logger. -/
structure Access where
  ip : Bytes
  path : Bytes
  status : Int
  anonId : Bytes
  deriving DecidableEq

/-- A connection as it is being served, and what came of it so far. -/
structure Session where
  conn : ClientConnection
  /-- The bytes sent, in the order they were handed over. -/
  sent : List (Wire × Bytes)
  /-- The accesses logged. -/
  log : List Access
  /-- The identifier for which the cookie is set, if it is. -/
  setCookie : Option Bytes
  deriving DecidableEq

/-- What the transport and the file system answer, and whether there is a logger. -/
structure Outside where
  /-- `global_logger` is not null. -/
  logger : Bool
  /-- What the last write returns, after all that was sent. -/
  written : List (Wire × Bytes) → Int
  /-- What a read from the client delivers, after all that was sent. -/
  received : List (Wire × Bytes) → Option Bytes
  /-- The file at a path, if it can be opened and measured. -/
  file : Bytes → Option Bytes
  /-- How much of a file `sendfile` passes on, after all that was sent. -/
  fileSent : List (Wire × Bytes) → Bytes → Nat

/-- `track_access`. -/
def trackAccess (out : Outside) (s : Session) (status : Int) : Option Session :=
  if out.logger then
    s.conn.anonId.string?.map fun anonId =>
      { s with log := s.log ++ [⟨s.conn.clientIp, s.conn.currentPath, status, anonId⟩] }
  else some s

/-- The transport that `server_conn_write` and `server_conn_read` use. -/
def ClientConnection.wire (conn : ClientConnection) : Wire :=
  if conn.mode = .secure ∧ conn.ssl = true then .ssl else .socket

/-- `server_conn_write`; the transport sends nothing for a negative count. -/
def serverConnWrite (out : Outside) (s : Session) (buf : Bytes) (num : Int) : Int × Session :=
  let sent := s.sent ++ [(s.conn.wire, buf.take num.toNat)]
  (out.written sent, { s with sent := sent })

def statusText (status : Int) : Bytes :=
  if status = 404 then ascii "Not Found"
  else if status = 500 then ascii "Internal Server Error"
  else ascii "OK"

/-- The header block of `server_send_response`, before it is cut to its buffer. -/
def responseText (status : Int) (contentType : Bytes) (bodyLen : Int) (headers : Bytes) : Bytes :=
  ascii "HTTP/1.1 " ++ printDecimal status ++ ascii " " ++ statusText status ++ crlf ++
    ascii "Content-Type: " ++ contentType ++ crlf ++
    ascii "Content-Length: " ++ printDecimal bodyLen ++ crlf ++
    headers ++ ascii "Connection: close" ++ crlfcrlf

/-- `server_send_response`. -/
def serverSendResponse (out : Outside) (s : Session) (status : Int) (contentType : Bytes)
    (body : Option Bytes) : Option Session :=
  let bodyLen := toInt (body.getD []).length
  s.conn.responseHeaders.string?.bind fun responseHeaders =>
    let headers := (responseText status contentType bodyLen responseHeaders).take 2047
    let (_, s) := serverConnWrite out s headers headers.length
    let s := match body with
      | some body => (serverConnWrite out s body bodyLen).2
      | none => s
    trackAccess out s status

/-- A text without line ends, as far as it fits. -/
def sanitize (room : Nat) (text : Bytes) : Bytes :=
  (text.filter fun c => c != cr && c != lf).take room

/-- `server_add_header`: a line for which there is no room is dropped. -/
def serverAddHeader (s : Session) (headerLine : Bytes) : Option Session :=
  let sanitized := sanitize 1022 headerLine
  s.conn.responseHeaders.string?.bind fun current =>
    if current.length + sanitized.length + 3 < 1024 then
      (s.conn.responseHeaders.store current.length (sanitized ++ crlf ++ [0])).map fun headers =>
        { s with conn := { s.conn with responseHeaders := headers } }
    else some s

/-- `server_redirect`. -/
def serverRedirect (out : Outside) (s : Session) (url : Bytes) : Option Session :=
  s.conn.responseHeaders.string?.map fun responseHeaders =>
    let headers := (ascii "HTTP/1.1 302 Found" ++ crlf ++
      ascii "Location: " ++ sanitize 1023 url ++ crlf ++
      ascii "Content-Length: 0" ++ crlf ++
      responseHeaders ++ ascii "Connection: close" ++ crlfcrlf).take 1023
    (serverConnWrite out s headers headers.length).2

/-- The header block of `server_serve_file`, before it is cut to its buffer. -/
def fileText (contentType : Bytes) (fsize : Nat) (headers : Bytes) : Bytes :=
  ascii "HTTP/1.1 200 OK" ++ crlf ++
    ascii "Content-Type: " ++ contentType ++ crlf ++
    ascii "Content-Length: " ++ printDecimal fsize ++ crlf ++
    headers ++ ascii "Connection: close" ++ crlfcrlf

/-- `server_serve_file` behind its header block.  It writes as many bytes as the block was to have,
which may be more than there are in the buffer. -/
def sendFile (out : Outside) (s : Session) (text content : Bytes) : Option (Bool × Session) :=
  if 1024 < text.length then none
  else
    let headers := text.take 1023 ++ [0]
    let (n, s) := serverConnWrite out s headers text.length
    if n ≤ 0 then some (false, s)
    else
      -- past TLS: the socket itself is written to
      let s := { s with sent := s.sent ++ [(.socket, content.take (out.fileSent s.sent content))] }
      (trackAccess out s 200).map fun s => (true, s)

/-- The header `server_serve_file` adds. -/
def cacheControl : Bytes := ascii "Cache-Control: public, max-age=3600\r\n"

/-- `server_serve_file`. -/
def serverServeFile (out : Outside) (s : Session) (filepath contentType : Bytes) :
    Option (Bool × Session) :=
  if !serverPathSafe filepath then some (false, s)
  else match out.file filepath with
    | none => some (false, s)
    | some content =>
      (serverAddHeader s cacheControl).bind fun s =>
        s.conn.responseHeaders.string?.bind fun headers =>
          sendFile out s (fileText contentType content.length headers) content

/-- **What a response reads of the record**: where it is defined and logged, both arrays are
terminated, and it is the text with the headers of the one and logged for the identifier in the
other. -/
theorem serverSendResponse_eq_some {out : Outside} {s s' : Session} {status : Int}
    {contentType body : Bytes} (hlogger : out.logger = true)
    (h : serverSendResponse out s status contentType (some body) = some s') :
    ∃ headers anonId, s.conn.responseHeaders.string? = some headers ∧
      s.conn.anonId.string? = some anonId ∧ s' = { s with
        sent := s.sent ++
          [(s.conn.wire, (responseText status contentType (toInt body.length) headers).take 2047),
            (s.conn.wire, body.take (toInt body.length).toNat)]
        log := s.log ++ [⟨s.conn.clientIp, s.conn.currentPath, status, anonId⟩] } := by
  obtain ⟨headers, hheaders, h⟩ := Option.bind_eq_some_iff.1 h
  simp only [serverConnWrite, trackAccess, hlogger, if_true] at h
  obtain ⟨anonId, hanon, rfl⟩ := Option.map_eq_some_iff.1 h
  refine ⟨headers, anonId, hheaders, hanon, ?_⟩
  simp only [ClientConnection.wire, Int.toNat_natCast, List.take_length, List.append_assoc,
    List.cons_append, List.nil_append, Option.getD_some]

/-! ## Calls -/

/-- What may be called on a connection. -/
inductive Call
  | sendResponse (status : Int) (contentType : Bytes) (body : Option Bytes)
  | addHeader (headerLine : Bytes)
  | redirect (url : Bytes)
  | serveFile (filepath contentType : Bytes)
  | connWrite (buf : Bytes)
  | connRead
  | getClientIp

def Call.Answer : Call → Type
  | sendResponse _ _ _ => Unit
  | addHeader _ => Unit
  | redirect _ => Unit
  | serveFile _ _ => Bool
  | connWrite _ => Int
  | connRead => Option Bytes
  | getClientIp => Bytes

def Call.perform (out : Outside) : (c : Call) → Session → Option (c.Answer × Session)
  | sendResponse status contentType body, s =>
    (serverSendResponse out s status contentType body).map fun s => ((), s)
  | addHeader headerLine, s => (serverAddHeader s headerLine).map fun s => ((), s)
  | redirect url, s => (serverRedirect out s url).map fun s => ((), s)
  | serveFile filepath contentType, s => serverServeFile out s filepath contentType
  | connWrite buf, s => some (serverConnWrite out s buf buf.length)
  | connRead, s => some (out.received s.sent, s)
  | getClientIp, s => some (s.conn.clientIp, s)

/-- A program that answers a request. -/
abbrev Handler := Program Call Call.Answer

/-- No file is served under a header block that does not fit the buffer for it. -/
def Call.InBounds (out : Outside) : Call → Session → Prop
  | serveFile filepath contentType, s =>
    serverPathSafe filepath = true → ∀ content ∈ out.file filepath,
      ∀ s' ∈ serverAddHeader s cacheControl, ∀ headers ∈ s'.conn.responseHeaders.string?,
        (fileText contentType content.length headers).length ≤ 1024
  | _, _ => True

/-! ## Sessions that are alike -/

/-- Two records that differ at most behind the terminators of their arrays. -/
structure SameStrings (c d : ClientConnection) : Prop where
  mode : c.mode = d.mode
  ssl : c.ssl = d.ssl
  clientIp : c.clientIp = d.clientIp
  currentPath : c.currentPath = d.currentPath
  responseHeaders : c.responseHeaders.Alike d.responseHeaders
  anonId : c.anonId.Alike d.anonId

/-- Two sessions of which the same came so far. -/
structure Session.Agree (s t : Session) : Prop where
  conn : SameStrings s.conn t.conn
  sent : s.sent = t.sent
  log : s.log = t.log
  setCookie : s.setCookie = t.setCookie

namespace Session

variable {out : Outside} {s t : Session}

theorem Agree.wire (h : s.Agree t) : s.conn.wire = t.conn.wire := by
  rw [ClientConnection.wire, ClientConnection.wire, h.conn.mode, h.conn.ssl]

theorem Agree.trackAccess (h : s.Agree t) (status : Int) :
    BothYield Agree (trackAccess out s status) (trackAccess out t status) := by
  rw [Server.trackAccess, Server.trackAccess]
  split_ifs
  · obtain ⟨anonId, hs, ht⟩ := h.conn.anonId
    rw [hs, ht, h.log, h.conn.clientIp, h.conn.currentPath]
    exact .some ⟨h.conn, h.sent, rfl, h.setCookie⟩
  · exact .some h

theorem Agree.connWrite (h : s.Agree t) (buf : Bytes) (num : Int) :
    (serverConnWrite out s buf num).1 = (serverConnWrite out t buf num).1 ∧
      (serverConnWrite out s buf num).2.Agree (serverConnWrite out t buf num).2 := by
  simp only [serverConnWrite, h.sent, h.wire, true_and]
  exact ⟨h.conn, rfl, h.log, h.setCookie⟩

theorem Agree.sendResponse (h : s.Agree t) (status : Int) (contentType : Bytes)
    (body : Option Bytes) :
    BothYield Agree (serverSendResponse out s status contentType body)
      (serverSendResponse out t status contentType body) := by
  obtain ⟨headers, hs, ht⟩ := h.conn.responseHeaders
  simp only [serverSendResponse, hs, ht, Option.bind_some]
  cases body with
  | none => exact (h.connWrite _ _).2.trackAccess status
  | some body => exact ((h.connWrite _ _).2.connWrite _ _).2.trackAccess status

theorem Agree.addHeader (h : s.Agree t) (headerLine : Bytes) :
    BothYield Agree (serverAddHeader s headerLine) (serverAddHeader t headerLine) := by
  obtain ⟨current, hs, ht⟩ := h.conn.responseHeaders
  simp only [serverAddHeader, hs, ht, Option.bind_some]
  split_ifs with hroom
  · have hfit : current.length + (sanitize 1022 headerLine ++ crlf).length + 1 ≤ 1024 := by
      rw [List.length_append, show crlf.length = 2 from rfl]
      omega
    obtain ⟨a, ha, has⟩ := CharArray.string?_store hs hfit
    obtain ⟨b, hb, hbs⟩ := CharArray.string?_store ht hfit
    rw [ha, hb]
    exact .some ⟨⟨h.conn.mode, h.conn.ssl, h.conn.clientIp, h.conn.currentPath, ⟨_, has, hbs⟩,
      h.conn.anonId⟩, h.sent, h.log, h.setCookie⟩
  · exact .some h

theorem Agree.redirect (h : s.Agree t) (url : Bytes) :
    BothYield Agree (serverRedirect out s url) (serverRedirect out t url) := by
  obtain ⟨headers, hs, ht⟩ := h.conn.responseHeaders
  rw [serverRedirect, serverRedirect, hs, ht]
  exact .some (h.connWrite _ _).2

/-- A call answers two sessions the same. -/
abbrev AgreeWith {α : Type} (r q : α × Session) : Prop := r.1 = q.1 ∧ r.2.Agree q.2

theorem Agree.sendFile (h : s.Agree t) {text content : Bytes} (htext : text.length ≤ 1024) :
    BothYield AgreeWith (sendFile out s text content) (sendFile out t text content) := by
  obtain ⟨hn, hw⟩ : AgreeWith (serverConnWrite out s (text.take 1023 ++ [0]) text.length)
    (serverConnWrite out t (text.take 1023 ++ [0]) text.length) := h.connWrite _ _
  simp only [Server.sendFile, if_neg (Nat.not_lt.2 htext), hn]
  split_ifs
  · exact .some ⟨rfl, hw⟩
  · refine BothYield.map (R := Agree) (Agree.trackAccess ?_ 200) fun _ _ h => ⟨rfl, h⟩
    exact ⟨hw.conn, by rw [hw.sent], hw.log, hw.setCookie⟩

theorem Agree.serveFile (h : s.Agree t) {filepath contentType : Bytes}
    (hin : (Call.serveFile filepath contentType).InBounds out s) :
    BothYield AgreeWith (serverServeFile out s filepath contentType)
      (serverServeFile out t filepath contentType) := by
  rw [serverServeFile, serverServeFile]
  split_ifs with hsafe
  · exact .some ⟨rfl, h⟩
  cases hfile : out.file filepath with
  | none => exact .some ⟨rfl, h⟩
  | some content =>
    obtain ⟨s', t', hs, ht, h'⟩ := h.addHeader cacheControl
    obtain ⟨headers, hhs, hht⟩ := h'.conn.responseHeaders
    simp only [hs, ht, hhs, hht, Option.bind_some]
    refine h'.sendFile (hin ?_ content hfile s' hs headers hhs)
    simpa using hsafe

/-- **A call keeps two sessions alike.** -/
theorem perform_related {c : Call} (h : s.Agree t) (hin : c.InBounds out s) :
    BothYield AgreeWith (c.perform out s) (c.perform out t) := by
  cases c with
  | sendResponse status contentType body =>
    exact (h.sendResponse status contentType body).map fun _ _ h => ⟨rfl, h⟩
  | addHeader headerLine => exact (h.addHeader headerLine).map fun _ _ h => ⟨rfl, h⟩
  | redirect url => exact (h.redirect url).map fun _ _ h => ⟨rfl, h⟩
  | serveFile filepath contentType => exact h.serveFile hin
  | connWrite buf => exact .some (h.connWrite _ _)
  | connRead => exact .some ⟨by rw [h.sent], h⟩
  | getClientIp => exact .some ⟨h.conn.clientIp, h⟩

end Session

/-- A call out of bounds is not defined. -/
theorem perform_eq_none {out : Outside} {c : Call} {s : Session} (h : ¬ c.InBounds out s) :
    c.perform out s = none := by
  cases c with
  | serveFile filepath contentType =>
    simp only [Call.InBounds, Classical.not_imp, not_forall, Nat.not_le] at h
    obtain ⟨hsafe, content, hfile, s', hs, headers, hheaders, hlen⟩ := h
    simp only [Call.perform, serverServeFile, hsafe, Bool.not_true, Bool.false_eq_true, if_false,
      Option.mem_def.1 hfile, Option.mem_def.1 hs, Option.mem_def.1 hheaders, Option.bind_some]
    exact if_pos hlen
  | _ => exact absurd trivial h

end Server
end Arws

import Arws.Proxy.StreamProxy
import Arws.Server.HandleClient

/-!
# What goes past TLS

On a connection in `MODE_SECURE`, `server_conn_write` and `server_conn_read` go through TLS.  Two
paths take the descriptor itself: `server_serve_file` passes a file on with `sendfile`, and after a
101 `pipe_data` reads from the client with `recv`.

The machine follows a connection from the handshake on: the read loop of `handle_client`, its answer
or its handler with the calls it makes, and the relay of a response.  Its trace has the operations
that are made on the connection.

* `Sealed` — every one of them goes through TLS.
* `sealed_iff` — the runs that keep to this are those in which no file with something in it is sent
  and the client is silent after a 101.
* `reach_of_handleClient` — the machine makes the runs of `handle_client`.
* `not_sealed` — a 101 is enough for a read in the clear.
-/

set_option autoImplicit false

namespace Arws
namespace Server

open CString Proxy

/-! ## The operations of a call -/

/-- An operation on the client's connection. -/
inductive Transfer
  /-- `ar_ssl_write`, or `ar_socket_send`. -/
  | write (wire : Wire) (buf : Bytes)
  /-- `ar_ssl_read`, or `recv`. -/
  | read (wire : Wire)
  /-- `sendfile` to the socket, with what it passes on. -/
  | sendfile (content : Bytes)

def Transfer.wire : Transfer → Wire
  | write wire _ => wire
  | read wire => wire
  | sendfile _ => .socket

/-- The session and the header block with which `server_serve_file` comes to its write. -/
def fileHeader (s : Session) (contentType content : Bytes) : Option (Session × Bytes) :=
  (serverAddHeader s cacheControl).bind fun s =>
    s.conn.responseHeaders.string?.map fun headers =>
      (s, fileText contentType content.length headers)

/-- The write of the header block. -/
def writeHeader (out : Outside) (s : Session) (text : Bytes) : Int × Session :=
  serverConnWrite out s (text.take 1023 ++ [0]) text.length

/-- The operations of `server_serve_file`.  An empty file is not sent. -/
def serveFileTransfers (out : Outside) (s : Session) (filepath contentType : Bytes) :
    List Transfer :=
  if !serverPathSafe filepath then []
  else match out.file filepath with
    | none => []
    | some content => match fileHeader s contentType content with
      | none => []
      | some (s, text) =>
        let (n, s') := writeHeader out s text
        .write s.conn.wire ((text.take 1023 ++ [0]).take text.length) ::
          if 0 < n ∧ content ≠ [] then [.sendfile (content.take (out.fileSent s'.sent content))]
          else []

/-- The writes from one session to the next. -/
def writesBetween (s t : Session) : List Transfer :=
  (t.sent.drop s.sent.length).map fun p => .write p.1 p.2

/-- The operations of a call. -/
def Call.transfers (out : Outside) (c : Call) (s : Session) : List Transfer :=
  match c with
  | serveFile filepath contentType => serveFileTransfers out s filepath contentType
  | connRead => [.read s.conn.wire]
  | c => ((c.perform out s).map fun r => writesBetween s r.2).getD []

/-! ## A connection behind its handshake -/

/-- Where `handle_client` is. -/
inductive Stage
  | reading (r : ReadState)
  /-- A handler answers the request. -/
  | handling
  /-- In `arws_stream_proxy_forward`, behind the sending of the request. -/
  | relaying (r : RelayState)
  | closed

structure Exchange where
  session : Session
  stage : Stage
  /-- What was done on the connection so far. -/
  trace : List Transfer

/-- What is made of the buffer when the read loop is left. -/
def arrivalOf (parse : ParseEnv) (r : ReadState) : Arrival :=
  match r.phase with
  | .answered 413 => .refused 413 (ascii "Payload Too Large")
  | .answered _ => .refused 500 (ascii "Internal Server Error")
  | _ => match parseRequest parse r with
    | .closed => .dropped
    | .undefined => .undefined
    | .badRequest text => .refused 400 text
    | .request fullPath req => .request fullPath req

/-- What is written when `server_conn_write` is called next. -/
def toSend (r : RelayState) : Bytes :=
  match r.phase with
  | .first buf _ => buf
  | .write _ chunk ws => chunk.drop ws
  | _ => []

namespace Exchange

/-- A turn of the read loop. -/
def read (e : Exchange) (r : ReadState) (turn : Turn) : Option Exchange :=
  (readMachine.step r turn).map fun r' =>
    { e with
      stage := .reading r'
      trace := e.trace ++
        if (doubleBuffer r turn.newBlock).isSome then [.read e.session.conn.wire] else [] }

def call (out : Outside) (e : Exchange) (c : Call) : Option Exchange :=
  (c.perform out e.session).map fun q =>
    { e with session := q.2, trace := e.trace ++ c.transfers out e.session }

/-- Behind the read loop. -/
def arrive (env : Shared) (e : Exchange) (r : ReadState) (parse : ParseEnv) : Option Exchange :=
  if r.phase = .reading then none
  else match arrivalOf parse r with
    | .dropped => some { e with stage := .closed }
    | .undefined => none
    | .refused status text =>
      (e.call env.toOutside (.sendResponse status (ascii "text/plain") (some text))).map fun e =>
        { e with stage := .closed }
    | .request fullPath req =>
      (identify env fullPath req e.session).map fun s => { e with session := s, stage := .handling }

/-- An action of the relay.  What is written is the end of the buffer, and its result is that of
`server_conn_write`; `pipe_data` reads from the descriptor. -/
def relay (out : Outside) (e : Exchange) (r : RelayState) (act : RelayAct) : Option Exchange :=
  (relayStep r act).bind fun r' =>
    match act with
    | .recv _ => some { e with stage := .relaying r' }
    | .write w =>
      let (n, s) := serverConnWrite out e.session (toSend r) (toSend r).length
      if n = w then
        some ⟨s, .relaying r', e.trace ++ [.write e.session.conn.wire (toSend r)]⟩
      else none
    | .pipe _ => some { e with stage := .relaying r', trace := e.trace ++ [.read .socket] }

end Exchange

inductive ExchangeAct
  | read (turn : Turn)
  | arrive (parse : ParseEnv)
  | call (c : Call)
  | forward
  | relay (act : RelayAct)
  | forwarded

def exchangeStep (env : Shared) (e : Exchange) (act : ExchangeAct) : Option Exchange :=
  match e.stage, act with
  | .reading r, .read turn => e.read r turn
  | .reading r, .arrive parse => e.arrive env r parse
  | .handling, .call c => e.call env.toOutside c
  | .handling, .forward => some { e with stage := .relaying .start }
  | .relaying r, .relay act => e.relay env.toOutside r act
  | .relaying r, .forwarded =>
    if r.phase = .done ∨ r.phase = .refused then some { e with stage := .handling } else none
  | _, _ => none

/-- A connection with `MODE_SECURE` and an `ssl` object, from its handshake on. -/
def exchangeMachine (env : Shared) : Machine Exchange ExchangeAct where
  init e := e.session.conn.mode = .secure ∧ e.session.conn.ssl = true ∧ e.session.sent = [] ∧
    e.stage = .reading .start ∧ e.trace = []
  step := exchangeStep env

/-- **Nothing goes past TLS**: no operation, and no byte that was sent. -/
structure Sealed (e : Exchange) : Prop where
  trace : ∀ t ∈ e.trace, t.wire = .ssl
  sent : ∀ p ∈ e.session.sent, p.1 = .socket → p.2 = []

/-- `server_serve_file` gets to its `sendfile`: the file is there and has something in it, and its
header was written. -/
def SendsFile (out : Outside) (s : Session) (filepath contentType : Bytes) : Prop :=
  serverPathSafe filepath = true ∧ ∃ content ∈ out.file filepath, content ≠ [] ∧
    ∃ p ∈ fileHeader s contentType content, 0 < (writeHeader out p.1 p.2).1

/-- No file is sent, and the client is silent after a 101. -/
def Guarded (env : Shared) (e : Exchange) : ExchangeAct → Prop
  | .call (.serveFile filepath contentType) =>
    ¬ SendsFile env.toOutside e.session filepath contentType
  | .relay (.pipe _) => False
  | _ => True

/-! ## What calls write -/

/-- The logger is not on the connection. -/
theorem trackAccess_fixed {out : Outside} {s t : Session} {status : Int}
    (h : trackAccess out s status = some t) : t.conn.wire = s.conn.wire ∧ t.sent = s.sent := by
  rw [trackAccess] at h
  split_ifs at h
  · obtain ⟨anonId, -, rfl⟩ := Option.map_eq_some_iff.1 h
    exact ⟨rfl, rfl⟩
  · cases h
    exact ⟨rfl, rfl⟩

/-- All that was written between two sessions of a connection went through its own transport. -/
structure WritesOn (s t : Session) : Prop where
  wire : t.conn.wire = s.conn.wire
  sent : ∃ new, t.sent = s.sent ++ new ∧ ∀ p ∈ new, p.1 = s.conn.wire

namespace WritesOn

variable {out : Outside} {s t u : Session}

/-- Nothing was written. -/
theorem of_eq (hwire : t.conn.wire = s.conn.wire) (hsent : t.sent = s.sent) : WritesOn s t :=
  ⟨hwire, [], by rw [hsent, List.append_nil], fun _ hp => absurd hp List.not_mem_nil⟩

theorem trans (h : WritesOn s t) (h' : WritesOn t u) : WritesOn s u := by
  obtain ⟨new, hnew, hall⟩ := h.sent
  obtain ⟨new', hnew', hall'⟩ := h'.sent
  refine ⟨h'.wire.trans h.wire, new ++ new', by rw [hnew', hnew, List.append_assoc], fun p hp => ?_⟩
  obtain hp | hp := List.mem_append.1 hp
  · exact hall p hp
  · exact (hall' p hp).trans h.wire

theorem connWrite (out : Outside) (s : Session) (buf : Bytes) (num : Int) :
    WritesOn s (serverConnWrite out s buf num).2 :=
  ⟨rfl, _, rfl, fun _ hp => List.mem_singleton.1 hp ▸ rfl⟩

theorem trackAccess {status : Int} (h : trackAccess out s status = some t) : WritesOn s t := by
  obtain ⟨hwire, hsent⟩ := trackAccess_fixed h
  exact .of_eq hwire hsent

theorem addHeader {headerLine : Bytes} (h : serverAddHeader s headerLine = some t) :
    WritesOn s t := by
  obtain ⟨current, -, h⟩ := Option.bind_eq_some_iff.1 h
  split_ifs at h
  · obtain ⟨headers, -, rfl⟩ := Option.map_eq_some_iff.1 h
    exact .of_eq rfl rfl
  · cases h
    exact .of_eq rfl rfl

theorem sendResponse {status : Int} {contentType : Bytes} {body : Option Bytes}
    (h : serverSendResponse out s status contentType body = some t) : WritesOn s t := by
  obtain ⟨headers, -, h⟩ := Option.bind_eq_some_iff.1 h
  have hhead := WritesOn.connWrite out s
    ((responseText status contentType (toInt (body.getD []).length) headers).take 2047)
    ((responseText status contentType (toInt (body.getD []).length) headers).take 2047).length
  cases body with
  | none => exact hhead.trans (.trackAccess h)
  | some body => exact (hhead.trans (.connWrite _ _ _ _)).trans (.trackAccess h)

theorem redirect {url : Bytes} (h : serverRedirect out s url = some t) : WritesOn s t := by
  obtain ⟨headers, -, rfl⟩ := Option.map_eq_some_iff.1 h
  exact .connWrite _ _ _ _

theorem identify {env : Shared} {fullPath : Bytes} {req : HttpRequest}
    (h : identify env fullPath req s = some t) : WritesOn s t := by
  simp only [Server.identify, assignAnonId] at h
  split at h
  · split at h
    · cases h
      exact .of_eq rfl rfl
    · obtain ⟨anonId, -, h⟩ := Option.bind_eq_some_iff.1 h
      obtain ⟨id, -, h⟩ := Option.bind_eq_some_iff.1 h
      obtain ⟨responseHeaders, -, rfl⟩ := Option.map_eq_some_iff.1 h
      exact .of_eq rfl rfl
  · cases h
    exact .of_eq rfl rfl

/-- **A call writes through the connection's own transport**, unless it serves a file. -/
theorem perform {c : Call} (hc : ∀ filepath contentType, c ≠ .serveFile filepath contentType)
    {r : c.Answer × Session} (h : c.perform out s = some r) : WritesOn s r.2 := by
  cases c with
  | sendResponse status contentType body =>
    obtain ⟨t, ht, rfl⟩ := Option.map_eq_some_iff.1 h
    exact .sendResponse ht
  | addHeader headerLine =>
    obtain ⟨t, ht, rfl⟩ := Option.map_eq_some_iff.1 h
    exact .addHeader ht
  | redirect url =>
    obtain ⟨t, ht, rfl⟩ := Option.map_eq_some_iff.1 h
    exact .redirect ht
  | serveFile filepath contentType => exact absurd rfl (hc filepath contentType)
  | connWrite buf =>
    cases h
    exact .connWrite _ _ _ _
  | connRead =>
    cases h
    exact .of_eq rfl rfl
  | getClientIp =>
    cases h
    exact .of_eq rfl rfl

end WritesOn

/-! ## What a served file adds -/

theorem serverServeFile_eq (out : Outside) (s : Session) (filepath contentType : Bytes) :
    serverServeFile out s filepath contentType =
      if !serverPathSafe filepath then some (false, s)
      else match out.file filepath with
        | none => some (false, s)
        | some content =>
          (fileHeader s contentType content).bind fun p => sendFile out p.1 p.2 content := by
  rw [serverServeFile]
  split_ifs
  · rfl
  · cases out.file filepath with
    | none => rfl
    | some content =>
      simp only [fileHeader, Option.bind_assoc, Option.bind_map]
      rfl

/-- Behind the header only the file goes past TLS. -/
theorem sendFile_sent {out : Outside} {s : Session} {text content : Bytes} {r : Bool × Session}
    (hwire : s.conn.wire = .ssl) (h : sendFile out s text content = some r) :
    r.2.conn.wire = .ssl ∧ ∃ new, r.2.sent = s.sent ++ new ∧
      (¬ (0 < (writeHeader out s text).1 ∧ content ≠ []) →
        ∀ p ∈ new, p.1 = .socket → p.2 = []) := by
  rw [sendFile] at h
  split_ifs at h
  change (if (writeHeader out s text).1 ≤ 0 then some (false, (writeHeader out s text).2)
    else _) = _ at h
  have hhead : WritesOn s (writeHeader out s text).2 := .connWrite _ _ _ _
  obtain ⟨new, hnew, hall⟩ := hhead.sent
  have hssl : ∀ p ∈ new, p.1 = .socket → p.2 = [] := fun p hp hsocket =>
    absurd (hsocket.symm.trans ((hall p hp).trans hwire)) (by decide)
  split_ifs at h with hn
  · cases h
    exact ⟨hhead.wire.trans hwire, new, hnew, fun _ => hssl⟩
  · obtain ⟨t, ht, rfl⟩ := Option.map_eq_some_iff.1 h
    obtain ⟨hwire', hsent⟩ := trackAccess_fixed ht
    refine ⟨(hwire'.trans hhead.wire).trans hwire, new ++ [(.socket, content.take _)],
      by rw [hsent, ← List.append_assoc, ← hnew]; rfl, fun hnot p hp => ?_⟩
    obtain hp | hp := List.mem_append.1 hp
    · exact hssl p hp
    · have hempty : content = [] := by
        by_contra hne
        exact hnot ⟨Int.not_le.1 hn, hne⟩
      rw [List.mem_singleton.1 hp, hempty]
      exact fun _ => List.take_nil

theorem sendsFile_iff {out : Outside} {s s' : Session} {filepath contentType content text : Bytes}
    (hsafe : serverPathSafe filepath = true) (hfile : out.file filepath = some content)
    (hheader : fileHeader s contentType content = some (s', text)) :
    SendsFile out s filepath contentType ↔ 0 < (writeHeader out s' text).1 ∧ content ≠ [] := by
  constructor
  · rintro ⟨-, content', hcontent', hne, p, hp, hn⟩
    cases hfile.symm.trans hcontent'
    cases hheader.symm.trans hp
    exact ⟨hn, hne⟩
  · rintro ⟨hn, hne⟩
    exact ⟨hsafe, content, hfile, hne, _, hheader, hn⟩

theorem writesOn_fileHeader {s s' : Session} {contentType content text : Bytes}
    (h : fileHeader s contentType content = some (s', text)) : WritesOn s s' := by
  obtain ⟨s'', hadd, hstring⟩ := Option.bind_eq_some_iff.1 h
  obtain ⟨headers, -, heq⟩ := Option.map_eq_some_iff.1 hstring
  cases heq
  exact .addHeader hadd

/-- **Where a served file goes past TLS**: in its operations, and in its bytes. -/
theorem serveFile_adds {out : Outside} {s : Session} {filepath contentType : Bytes}
    {r : Bool × Session} (hwire : s.conn.wire = .ssl)
    (h : serverServeFile out s filepath contentType = some r) :
    ((∀ t ∈ serveFileTransfers out s filepath contentType, t.wire = .ssl) ↔
      ¬ SendsFile out s filepath contentType) ∧
    r.2.conn.wire = .ssl ∧ ∃ new, r.2.sent = s.sent ++ new ∧
      (¬ SendsFile out s filepath contentType → ∀ p ∈ new, p.1 = .socket → p.2 = []) := by
  have hnothing : s.conn.wire = .ssl ∧ ∃ new, s.sent = s.sent ++ new ∧
      (¬ SendsFile out s filepath contentType → ∀ p ∈ new, p.1 = .socket → p.2 = []) :=
    ⟨hwire, [], (List.append_nil _).symm, fun _ p hp => absurd hp List.not_mem_nil⟩
  rw [serverServeFile_eq] at h
  rw [serveFileTransfers]
  split_ifs at h ⊢ with hsafe
  · cases h
    rw [Bool.not_eq_true'] at hsafe
    exact ⟨iff_of_true (fun t ht => absurd ht List.not_mem_nil)
      fun hs => absurd (hsafe.symm.trans hs.1) (by decide), hnothing⟩
  · rw [Bool.not_eq_true', Bool.not_eq_false] at hsafe
    cases hfile : out.file filepath with
    | none =>
      rw [hfile] at h
      cases h
      refine ⟨iff_of_true (fun t ht => absurd ht List.not_mem_nil) ?_, hnothing⟩
      rintro ⟨-, content, hcontent, -⟩
      cases hfile.symm.trans hcontent
    | some content =>
      rw [hfile] at h
      obtain ⟨⟨s', text⟩, hheader, h⟩ := Option.bind_eq_some_iff.1 h
      have hhead : WritesOn s s' := writesOn_fileHeader hheader
      have hsent : ∃ new, s'.sent = s.sent ++ new ∧ ∀ p ∈ new, p.1 = s.conn.wire := hhead.sent
      obtain ⟨before, hbefore, hssl⟩ := hsent
      obtain ⟨hwire', new, hnew, hall⟩ := sendFile_sent (hhead.wire.trans hwire) h
      rw [sendsFile_iff hsafe hfile hheader]
      refine ⟨?_, hwire', before ++ new, by rw [hnew, hbefore, List.append_assoc],
        fun hnot p hp hsocket => ?_⟩
      · simp only [hheader, List.forall_mem_cons]
        refine (and_iff_right (hhead.wire.trans hwire)).trans ?_
        split_ifs with hsends
        · exact iff_of_false (fun hall => absurd (hall _ (List.mem_singleton_self _)) nofun)
            (not_not_intro hsends)
        · exact iff_of_true (fun t ht => absurd ht List.not_mem_nil) hsends
      · obtain hp | hp := List.mem_append.1 hp
        · exact absurd (hsocket.symm.trans ((hssl p hp).trans hwire)) (by decide)
        · exact hall hnot p hp hsocket

/-! ## What a step adds -/

/-- What a step adds to the past of a connection; if it is guarded, nothing past TLS. -/
structure Adds (guarded : Prop) (e e' : Exchange) : Prop where
  wire : e'.session.conn.wire = .ssl
  trace : ∃ new, e'.trace = e.trace ++ new ∧ ((∀ t ∈ new, t.wire = .ssl) ↔ guarded)
  sent : ∃ new, e'.session.sent = e.session.sent ++ new ∧
    (guarded → ∀ p ∈ new, p.1 = .socket → p.2 = [])

variable {env : Shared} {e e' : Exchange}

/-- A step that writes through TLS. -/
theorem Adds.of_writesOn {guarded : Prop} {new : List Transfer} (hguarded : guarded)
    (hwire : e.session.conn.wire = .ssl) (hwrites : WritesOn e.session e'.session)
    (htrace : e'.trace = e.trace ++ new) (hnew : ∀ t ∈ new, t.wire = .ssl) :
    Adds guarded e e' := by
  obtain ⟨bytes, hbytes, hall⟩ := hwrites.sent
  exact ⟨hwrites.wire.trans hwire, ⟨new, htrace, iff_of_true hnew hguarded⟩, bytes, hbytes,
    fun _ p hp hsocket => absurd (hsocket.symm.trans ((hall p hp).trans hwire)) (by decide)⟩

/-- A step that does nothing on the connection. -/
theorem Adds.of_eq {guarded : Prop} (hguarded : guarded) (hwire : e.session.conn.wire = .ssl)
    (hsession : e'.session = e.session) (htrace : e'.trace = e.trace) : Adds guarded e e' :=
  have hnothing : e'.trace = e.trace ++ [] := by rw [htrace, List.append_nil]
  .of_writesOn hguarded hwire (.of_eq (by rw [hsession]) (by rw [hsession])) hnothing
    fun _ ht => absurd ht List.not_mem_nil

theorem wire_of_mem_writesBetween {s t : Session} (h : WritesOn s t) :
    ∀ x ∈ writesBetween s t, x.wire = s.conn.wire := by
  obtain ⟨new, hnew, hall⟩ := h.sent
  rw [writesBetween, hnew, List.drop_left]
  exact List.forall_mem_map.2 hall

/-- A call that does not serve a file. -/
theorem adds_call {out : Outside} {c : Call} {guarded : Prop} (hguarded : guarded)
    (hc : ∀ filepath contentType, c ≠ .serveFile filepath contentType)
    (hwire : e.session.conn.wire = .ssl) (h : e.call out c = some e') : Adds guarded e e' := by
  obtain ⟨q, hq, rfl⟩ := Option.map_eq_some_iff.1 h
  have hwrites := WritesOn.perform hc hq
  refine .of_writesOn hguarded hwire hwrites rfl ?_
  have hbetween : ∀ t ∈ writesBetween e.session q.2, t.wire = .ssl := fun t ht =>
    (wire_of_mem_writesBetween hwrites t ht).trans hwire
  cases c with
  | serveFile filepath contentType => exact absurd rfl (hc filepath contentType)
  | connRead => exact List.forall_mem_singleton.2 hwire
  | _ => simpa only [Call.transfers, hq, Option.map_some, Option.getD_some] using hbetween

theorem adds_serveFile {out : Outside} {filepath contentType : Bytes}
    (hwire : e.session.conn.wire = .ssl)
    (h : e.call out (.serveFile filepath contentType) = some e') :
    Adds (¬ SendsFile out e.session filepath contentType) e e' := by
  obtain ⟨q, hq, rfl⟩ := Option.map_eq_some_iff.1 h
  obtain ⟨htrace, hwire', hsent⟩ := serveFile_adds hwire hq
  exact ⟨hwire', ⟨_, rfl, htrace⟩, hsent⟩

theorem adds_relay {out : Outside} {r : RelayState} {act : RelayAct}
    (hwire : e.session.conn.wire = .ssl) (h : e.relay out r act = some e') :
    Adds (∀ ok, act ≠ .pipe ok) e e' := by
  obtain ⟨r', -, h⟩ := Option.bind_eq_some_iff.1 h
  cases act with
  | recv data =>
    cases h
    exact .of_eq nofun hwire rfl rfl
  | write w =>
    obtain ⟨-, h⟩ := Option.ite_none_right_eq_some.1 h
    cases h
    exact .of_writesOn nofun hwire (.connWrite out e.session (toSend r) (toSend r).length) rfl
      (List.forall_mem_singleton.2 hwire)
  | pipe ok =>
    cases h
    refine ⟨hwire, ⟨_, rfl, iff_of_false ?_ fun hno => hno ok rfl⟩, [], (List.append_nil _).symm,
      fun _ p hp => absurd hp List.not_mem_nil⟩
    exact fun hall => absurd (hall _ (List.mem_singleton_self _)) nofun

theorem adds_read {r : ReadState} {turn : Turn} {guarded : Prop} (hguarded : guarded)
    (hwire : e.session.conn.wire = .ssl) (h : e.read r turn = some e') : Adds guarded e e' := by
  obtain ⟨r', -, rfl⟩ := Option.map_eq_some_iff.1 h
  refine .of_writesOn hguarded hwire (.of_eq rfl rfl) rfl ?_
  split_ifs
  · exact List.forall_mem_singleton.2 hwire
  · exact fun _ ht => absurd ht List.not_mem_nil

theorem adds_arrive {r : ReadState} {parse : ParseEnv} {guarded : Prop} (hguarded : guarded)
    (hwire : e.session.conn.wire = .ssl) (h : e.arrive env r parse = some e') :
    Adds guarded e e' := by
  obtain ⟨-, h⟩ := Option.ite_none_left_eq_some.1 h
  cases harrival : arrivalOf parse r with
  | dropped =>
    rw [harrival] at h
    cases h
    exact .of_eq hguarded hwire rfl rfl
  | undefined =>
    rw [harrival] at h
    cases h
  | refused status text =>
    rw [harrival] at h
    obtain ⟨answered, hcall, rfl⟩ := Option.map_eq_some_iff.1 h
    obtain ⟨hwire', htrace, hsent⟩ := adds_call hguarded (fun _ _ h => by cases h) hwire hcall
    exact ⟨hwire', htrace, hsent⟩
  | request fullPath req =>
    rw [harrival] at h
    obtain ⟨s, hs, rfl⟩ := Option.map_eq_some_iff.1 h
    have hnothing : e.trace = e.trace ++ [] := (List.append_nil _).symm
    exact .of_writesOn hguarded hwire (.identify hs) hnothing
      fun _ ht => absurd ht List.not_mem_nil

/-- **What a step adds**: only one that is not guarded adds something past TLS. -/
theorem adds_of_step {act : ExchangeAct} (hwire : e.session.conn.wire = .ssl)
    (h : exchangeStep env e act = some e') : Adds (Guarded env e act) e e' := by
  unfold exchangeStep at h
  split at h
  · exact adds_read trivial hwire h
  · exact adds_arrive trivial hwire h
  · rename_i c _
    cases c with
    | serveFile filepath contentType => exact adds_serveFile hwire h
    | _ => exact adds_call trivial (fun _ _ h => by cases h) hwire h
  · cases h
    exact .of_eq trivial hwire rfl rfl
  · rename_i r act _
    obtain ⟨hwire', ⟨new, htrace, hiff⟩, sent, hsent, hall⟩ := adds_relay hwire h
    have hguarded : (∀ ok, act ≠ .pipe ok) ↔ Guarded env e (.relay act) := by
      cases act with
      | pipe ok => exact iff_of_false (fun hno => hno ok rfl) id
      | _ => exact iff_of_true (fun _ hp => by cases hp) trivial
    exact ⟨hwire', ⟨new, htrace, hiff.trans hguarded⟩, sent, hsent, fun hg => hall (hguarded.2 hg)⟩
  · obtain ⟨-, h⟩ := Option.ite_none_right_eq_some.1 h
    cases h
    exact .of_eq trivial hwire rfl rfl
  · cases h

/-- **The runs in which nothing goes past TLS** are those in which no file with something in it is
sent and the client is silent after a 101. -/
theorem sealed_iff (env : Shared) (e : Exchange) :
    (exchangeMachine env).ReachUnder (Guarded env) e ↔
      (exchangeMachine env).Reach e ∧ Sealed e := by
  refine Machine.reachUnder_iff_reach_and (I := fun e => e.session.conn.wire = .ssl) ?_ ?_ ?_
  · rintro e ⟨hmode, hssl, hsent, -, htrace⟩
    refine ⟨if_pos ⟨hmode, hssl⟩, fun t ht => ?_, fun p hp => ?_⟩
    · exact absurd (htrace ▸ ht) List.not_mem_nil
    · exact absurd (hsent ▸ hp) List.not_mem_nil
  · exact fun e act e' hwire hs => (adds_of_step hwire hs).wire
  · intro e act e' hwire hs
    obtain ⟨-, ⟨new, htrace, hiff⟩, bytes, hbytes, hall⟩ := adds_of_step hwire hs
    constructor
    · rintro ⟨ht, hp⟩
      rw [htrace, List.forall_mem_append] at ht
      rw [hbytes, List.forall_mem_append] at hp
      exact ⟨⟨ht.1, hp.1⟩, hiff.1 ht.2⟩
    · rintro ⟨⟨ht, hp⟩, hguarded⟩
      refine ⟨?_, ?_⟩
      · rw [htrace, List.forall_mem_append]
        exact ⟨ht, hiff.2 hguarded⟩
      · rw [hbytes, List.forall_mem_append]
        exact ⟨hp, hall hguarded⟩

/-! ## The runs of `handle_client` -/

/-- The calls of a program are steps. -/
theorem reach_of_run {handler : Handler} {s t : Session} {trace : List Transfer}
    (h : (exchangeMachine env).Reach ⟨s, .handling, trace⟩) (ht : handler.runIn env s = some t) :
    ∃ e, (exchangeMachine env).Reach e ∧ e.session = t := by
  induction handler generalizing s trace with
  | done =>
    cases ht
    exact ⟨_, h, rfl⟩
  | call c next ih =>
    obtain ⟨q, hq, ht⟩ := Option.bind_eq_some_iff.1 ht
    have hstep : (exchangeMachine env).step ⟨s, .handling, trace⟩ (.call c) =
        some ⟨q.2, .handling, trace ++ c.transfers env.toOutside s⟩ :=
      Option.map_eq_some_iff.2 ⟨q, hq, rfl⟩
    exact ih q.1 (.next h trivial hstep) ht

/-- The turns of the read loop are steps. -/
theorem exists_reading (env : Shared) {s : Session} (hmode : s.conn.mode = .secure) (hssl : s.conn.ssl = true)
    (hsent : s.sent = []) {r : ReadState} (h : readMachine.Reach r) :
    ∃ trace, (exchangeMachine env).Reach ⟨s, .reading r, trace⟩ := by
  induction h with
  | start h =>
    exact ⟨[], .start ⟨hmode, hssl, hsent, by rw [show _ = ReadState.start from h], rfl⟩⟩
  | next _ _ hs ih =>
    obtain ⟨trace, htrace⟩ := ih
    exact ⟨_, .next htrace trivial (a := .read _) (Option.map_eq_some_iff.2 ⟨_, hs, rfl⟩)⟩

theorem arrival_eq (job : Job) : job.arrival =
    if !job.buffer then .dropped else arrivalOf job.parse job.received.state := rfl

/-- **The machine makes the runs of `handle_client`.** -/
theorem reach_of_handleClient {job : Job} {s t : Session} (hmode : s.conn.mode = .secure)
    (hssl : s.conn.ssl = true) (hsent : s.sent = []) (h : handleClient env job s = some t) :
    ∃ e, (exchangeMachine env).Reach e ∧ e.session = t := by
  obtain ⟨trace, hread⟩ := exists_reading env hmode hssl hsent job.received.reached
  have harrive : ∀ e, (Exchange.mk s (.reading job.received.state) trace).arrive env
      job.received.state job.parse = some e → (exchangeMachine env).Reach e :=
    fun e he => .next hread trivial (a := .arrive job.parse) he
  rw [handleClient, arrival_eq] at h
  by_cases hbuffer : job.buffer = true
  · rw [if_neg (by rw [hbuffer]; decide)] at h
    cases harrival : arrivalOf job.parse job.received.state with
    | dropped =>
      rw [harrival] at h
      cases h
      exact ⟨_, hread, rfl⟩
    | undefined =>
      rw [harrival] at h
      cases h
    | refused status text =>
      rw [harrival] at h
      replace h := (runIn_answerWith env status (ascii "text/plain") text s).symm.trans h
      refine ⟨_, harrive ⟨t, .closed, trace ++ Call.transfers env.toOutside
        (.sendResponse status (ascii "text/plain") (some text)) s⟩ ?_, rfl⟩
      rw [Exchange.arrive, if_neg job.received.left, harrival]
      simp only [Exchange.call, Call.perform, h, Option.map_some]
    | request fullPath req =>
      rw [harrival] at h
      obtain ⟨s', hs', h⟩ := Option.bind_eq_some_iff.1 h
      have hhandling : (exchangeMachine env).Reach ⟨s', .handling, trace⟩ := by
        refine harrive _ ?_
        rw [Exchange.arrive, if_neg job.received.left, harrival]
        exact Option.map_eq_some_iff.2 ⟨s', hs', rfl⟩
      exact reach_of_run hhandling h
  · rw [if_pos (by rw [Bool.not_eq_true] at hbuffer; rw [hbuffer]; decide)] at h
    cases h
    exact ⟨_, hread, rfl⟩

/-- What the upstream answers. -/
private def switching : Bytes := ascii "HTTP/1.1 101 Switching Protocols" ++ crlfcrlf

/-- A server that writes all of that, and has no random bytes. -/
private def proxying : Shared where
  logger := false
  written _ := 36
  received _ := none
  file _ := none
  fileSent _ _ := 0
  trustedProxies := []
  behindCf := false
  random := none
  ratelimitCheck _ _ _ := true
  apiHandler := none

/-- The relay when the upstream has answered. -/
private def switched : RelayState := ⟨.loop .websocket, switching, switching, false⟩

/-- Nothing was sent yet. -/
private def openedSession : Session :=
  ⟨⟨.secure, true, [], [], .ofString 1023 [], .ofString 64 []⟩, [], [], none⟩

private theorem exists_identify (fullPath : Bytes) (req : HttpRequest) (s : Session) :
    ∃ t, identify proxying fullPath req s = some t := by
  simp only [identify, assignAnonId, proxying]
  split
  · exact ⟨_, rfl⟩
  · exact ⟨_, rfl⟩

private theorem exists_handling :
    ∃ s trace, (exchangeMachine proxying).Reach ⟨s, .handling, trace⟩ := by
  obtain ⟨r, hread, hleft, harrival⟩ : ∃ r, readMachine.Reach r ∧ r.phase ≠ .reading ∧
      arrivalOf ⟨true, true⟩ r =
        .request (ascii "/") ⟨ascii "GET", ascii "/", none, [], [], [], [], 0⟩ :=
    ⟨readTurn .start ⟨none, some (ascii "GET / HTTP/1.1\r\n\r\n"), true, 0⟩,
      .next (.start rfl) trivial (if_pos ⟨rfl, by decide +kernel⟩), by decide +kernel,
      by decide +kernel⟩
  obtain ⟨trace, hreading⟩ := exists_reading proxying (s := openedSession) rfl rfl rfl hread
  obtain ⟨t, ht⟩ := exists_identify (ascii "/") ⟨ascii "GET", ascii "/", none, [], [], [], [], 0⟩
    openedSession
  refine ⟨t, trace, .next hreading trivial (a := .arrive ⟨true, true⟩) ?_⟩
  change Exchange.arrive proxying ⟨openedSession, .reading r, trace⟩ r ⟨true, true⟩ = _
  rw [Exchange.arrive, if_neg hleft, harrival]
  exact Option.map_eq_some_iff.2 ⟨t, ht, rfl⟩

/-- A step of the relay. -/
private theorem relay_reach {s : Session} {r : RelayState} {trace : List Transfer} (act : RelayAct)
    (h : (exchangeMachine proxying).Reach ⟨s, .relaying r, trace⟩)
    (hs : (Exchange.mk s (.relaying r) trace).relay proxying.toOutside r act = some e) :
    (exchangeMachine proxying).Reach e :=
  .next h trivial (a := .relay act) hs

/-- **After a 101 the client is read from in the clear.** -/
theorem not_sealed : ¬ ∀ env e, (exchangeMachine env).Reach e → Sealed e := by
  intro h
  obtain ⟨s, trace, hreach⟩ := exists_handling
  have hforward : (exchangeMachine proxying).Reach ⟨s, .relaying .start, trace⟩ :=
    .next hreach trivial (a := .forward) rfl
  have hrecv : relayStep .start (.recv (some switching)) =
      some ⟨.first switching 36, switching, [], false⟩ := by decide +kernel
  have hwrite : relayStep ⟨.first switching 36, switching, [], false⟩ (.write 36) =
      some switched := by decide +kernel
  have hpipe : relayStep switched (.pipe true) = some switched := by decide +kernel
  have hreceived := relay_reach (.recv (some switching)) hforward
    (by rw [Exchange.relay, hrecv]; rfl)
  have hwritten := relay_reach (.write 36) hreceived
    (by rw [Exchange.relay, hwrite]; rfl)
  have hpiped := relay_reach (.pipe true) hwritten (by rw [Exchange.relay, hpipe]; rfl)
  exact absurd ((h _ _ hpiped).trace _ (List.mem_append_right _ (List.mem_singleton_self _))) nofun

end Server
end Arws

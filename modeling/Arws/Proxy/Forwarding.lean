import Arws.Library.Ledger
import Arws.Proxy.NodeTarget
import Arws.Proxy.StreamProxy
import Arws.Server.RequestBuffer

/-!
# Forwarding a request

`arws_stream_proxy_forward` from its first line to its last: the connection to the upstream, the request, a
second connection if the first one breaks, the relay of the response, and what is cleaned up on each of its
paths.  What the calls return are the actions of the machine, and the calls that it has made are its trace.

* `cleared_of_returned` — every socket and buffer is released exactly once, on every path, and nothing is used
  that is not held.
* `request_once` — no connection but the last is sent the whole request, and the one that answers was sent it
  exactly once.
-/

set_option autoImplicit false

namespace Arws
namespace Proxy

open CString Ledger Server

/-! ## Calls -/

/-- What is acquired and released: the socket of the first connection and of the second, and two buffers. -/
inductive Resource
  | socket (again : Bool)
  | rawBuf
  | respBuf
  deriving DecidableEq

/-- A call that was made, with what it came to. -/
inductive Call
  | create (again : Bool)
  | connect (again : Bool)
  | alloc (buffer : Resource)
  | free (buffer : Resource)
  /-- What `ar_socket_send` took of the request. -/
  | send (again : Bool) (data : Bytes)
  | recv (again : Bool) (data : Bytes)
  | close (again : Bool)
  /-- What `pipe_data` read from the client, and what `ar_socket_send` took of it. -/
  | clientRecv (data : Bytes)
  | pass (again : Bool) (data : Bytes)
  /-- What `server_conn_write` took. -/
  | clientWrite (data : Bytes)
  /-- `arws_send_502`. -/
  | page (text : Bytes)
  deriving DecidableEq

/-- What a call does with the resources. -/
def Call.uses : Call → List (Use Resource)
  | create again => [.acquire (.socket again)]
  | connect again => [.access (.socket again)]
  | alloc buffer => [.acquire buffer]
  | free buffer => [.release buffer]
  | send again _ => [.access (.socket again), .access .rawBuf]
  | recv again _ => [.access (.socket again), .access .respBuf]
  | close again => [.release (.socket again)]
  | pass again _ => [.access (.socket again)]
  | clientWrite _ => [.access .respBuf]
  | clientRecv _ | page _ => []

def usesOf (trace : List Call) : List (Use Resource) := trace.flatMap Call.uses

/-- What was sent of the request to a connection. -/
def sentTo (trace : List Call) (again : Bool) : Bytes :=
  trace.flatMap fun
    | .send again' data => if again' = again then data else []
    | _ => []

/-- The connections that something was received from. -/
def heardFrom (trace : List Call) : List Bool :=
  trace.flatMap fun
    | .recv again _ => [again]
    | _ => []

/-- What was received from the upstream, and what the client was sent of it. -/
def receivedOf (trace : List Call) : Bytes :=
  trace.flatMap fun
    | .recv _ data => data
    | _ => []

def deliveredOf (trace : List Call) : Bytes :=
  trace.flatMap fun
    | .clientWrite data => data
    | _ => []

/-- What `pipe_data` read from the client, and what the upstream was sent of it. -/
def fromClient (trace : List Call) : Bytes :=
  trace.flatMap fun
    | .clientRecv data => data
    | _ => []

def passedOn (trace : List Call) : Bytes :=
  trace.flatMap fun
    | .pass _ data => data
    | _ => []

/-- The error pages that the client was sent. -/
def pagesOf (trace : List Call) : List Bytes :=
  trace.flatMap fun
    | .page text => [text]
    | _ => []

/-! ## The machine -/

inductive ForwardPhase
  /-- `ar_socket_create` is called next, for the first connection or again. -/
  | create (again : Bool)
  | connect (again : Bool)
  /-- The buffer of the request is allocated. -/
  | allocRaw
  | send (again : Bool) (sent : ℕ)
  /-- The request has been sent; the socket of the client is looked up. -/
  | clientFd (again : Bool)
  | allocResp (again : Bool)
  | relay (again : Bool) (r : RelayState)
  /-- `pipe_data` sends on what it read from the client. -/
  | pipe (again : Bool) (r : RelayState) (chunk : Bytes) (sent : ℕ)
  /-- Everything is released, and the client is sent an error page. -/
  | answer (text : Bytes)
  | returned (result : Int)
  deriving DecidableEq

structure ForwardState where
  phase : ForwardPhase
  trace : List Call
  deriving DecidableEq

/-- What the calls return. -/
inductive ForwardAct
  /-- `ar_socket_create`, `ar_socket_connect`, `ar_mem_alloc` or `server_conn_get_fd`. -/
  | call (ok : Bool)
  | send (n : Int)
  /-- `recv` from the upstream, and `server_conn_write`. -/
  | relay (act : RelayAct)
  /-- `recv` from the client, `none` for an error, a timeout or the end of the stream. -/
  | clientRecv (data : Option Bytes)
  /-- `arws_send_502` is done. -/
  | page

/-- The arguments. -/
structure Forwarding where
  targetUrl : Bytes
  clientIp : Bytes
  req : HttpRequest

/-- The request for the upstream, in a buffer that has room for the body and 64 KiB. -/
def Forwarding.request (f : Forwarding) : Except BuildError Bytes :=
  (arwsBuildHttpRequest f.clientIp f.req (f.req.bodyLengthInBuffer.toNat + 65536)).map fun r => r.1 ++ r.2

/-- Behind a step of the relay: it goes on, or there is no header block, or it is over. -/
def relayed (calls : List Call) (again : Bool) (r : RelayState) : List Call × ForwardPhase :=
  match r.phase with
  | .refused =>
    (calls ++ [.free .respBuf, .close again], .answer (ascii "Upstream error (No Response Headers)"))
  | .done => (calls ++ [.free .respBuf, .close again], .returned 0)
  | _ => (calls, .relay again r)

/-- The call that a step of the relay makes. -/
def relayCalls (again : Bool) (r r' : RelayState) : RelayAct → List Call
  | .recv data => [.recv again (data.getD [])]
  | .write _ => [.clientWrite (r'.delivered.drop r.delivered.length)]
  | .pipe _ => []

/-- A call that only succeeds or fails.  Where `arws_build_http_request` writes beyond its buffer there is no
next state: of such a run nothing is said from there on. -/
def callTurn (f : Forwarding) : ForwardPhase → Bool → Option (List Call × ForwardPhase)
  | .create again, true => some ([.create again], .connect again)
  | .create false, false => some ([], .answer (ascii "Bad Gateway"))
  | .create true, false => some ([.free .rawBuf], .answer (ascii "Bad Gateway (Upstream Connect Failed)"))
  | .connect false, true => some ([.connect false], .allocRaw)
  | .connect true, true => some ([.connect true], .send true 0)
  | .connect false, false => some ([.connect false, .close false], .answer (ascii "Bad Gateway"))
  | .connect true, false =>
    some ([.connect true, .close true, .free .rawBuf],
      .answer (ascii "Bad Gateway (Upstream Connect Failed)"))
  | .allocRaw, true =>
    match f.request with
    | .ok _ => some ([.alloc .rawBuf], .send false 0)
    | .error .failed =>
      some ([.alloc .rawBuf, .free .rawBuf, .close false],
        .answer (ascii "Bad Gateway (Build Request Failed)"))
    -- the code is undefined there
    | .error .undefined => none
  | .allocRaw, false => some ([.close false], .answer (ascii "Bad Gateway (OOM)"))
  | .clientFd again, true => some ([], .allocResp again)
  | .clientFd again, false => some ([.close again], .answer (ascii "Bad Gateway (Invalid Client FD)"))
  | .allocResp again, true => some ([.alloc .respBuf], .relay again .start)
  | .allocResp again, false => some ([.close again], .answer (ascii "Bad Gateway (OOM)"))
  | _, _ => none

/-- A turn of the loops that send the request, with what `ar_socket_send` returns. -/
def sendTurn (raw : Bytes) (again : Bool) (sent : ℕ) (n : Int) : Option (List Call × ForwardPhase) :=
  if n ≤ 0 then
    if again then
      some ([.send true [], .free .rawBuf, .close true], .answer (ascii "Bad Gateway (Upstream Send Failed)"))
    else some ([.send false [], .close false], .create true)
  else if sent + n.toNat < raw.length then
    some ([.send again ((raw.drop sent).take n.toNat)], .send again (sent + n.toNat))
  else if sent + n.toNat = raw.length then
    some ([.send again (raw.drop sent), .free .rawBuf], .clientFd again)
  else none

/-- A turn of the loop of `pipe_data`. -/
def pipeTurn (again : Bool) (r : RelayState) (chunk : Bytes) (sent : ℕ) (n : Int) :
    Option (List Call × ForwardPhase) :=
  if n ≤ 0 then (relayStep r (.pipe false)).map (relayed [.pass again []] again)
  else if sent + n.toNat < chunk.length then
    some ([.pass again ((chunk.drop sent).take n.toNat)], .pipe again r chunk (sent + n.toNat))
  else if sent + n.toNat = chunk.length then
    (relayStep r (.pipe true)).map (relayed [.pass again (chunk.drop sent)] again)
  else none

/-- `arws_stream_proxy_forward`: the calls up to the next one whose result it looks at. -/
def forwardTurn (f : Forwarding) : ForwardPhase → ForwardAct → Option (List Call × ForwardPhase)
  | phase, .call ok => callTurn f phase ok
  | .send again sent, .send n => f.request.toOption.bind fun raw => sendTurn raw again sent n
  | .pipe again r chunk sent, .send n => pipeTurn again r chunk sent n
  | .relay _ _, .relay (.pipe _) => none
  | .relay again r, .relay act => (relayStep r act).map fun r' => relayed (relayCalls again r r' act) again r'
  | .relay again r, .clientRecv none => (relayStep r (.pipe false)).map (relayed [.clientRecv []] again)
  | .relay again r, .clientRecv (some data) =>
    if r.phase = .loop .websocket ∧ data ≠ [] ∧ data.length ≤ arwsStreamBufSize then
      some ([.clientRecv data], .pipe again r data 0)
    else none
  | .answer text, .page => some ([.page text], .returned (-1))
  | _, _ => none

def forwardStep (f : Forwarding) (s : ForwardState) (act : ForwardAct) : Option ForwardState :=
  (forwardTurn f s.phase act).map fun (calls, phase) => ⟨phase, s.trace ++ calls⟩

def Forwarding.start (f : Forwarding) : ForwardState :=
  match parseTarget f.targetUrl 256 with
  | some _ => ⟨.create false, []⟩
  | none => ⟨.answer (ascii "Bad Gateway"), []⟩

def forwardMachine (f : Forwarding) : Machine ForwardState ForwardAct where
  init s := s = f.start
  step := forwardStep f

/-! ## What a turn can be -/

/-- The turns, with the calls that they make. -/
inductive ForwardsTo (f : Forwarding) : ForwardPhase → List Call → ForwardPhase → Prop
  | create (again : Bool) : ForwardsTo f (.create again) [.create again] (.connect again)
  | createFailed : ForwardsTo f (.create false) [] (.answer (ascii "Bad Gateway"))
  | createFailedAgain :
      ForwardsTo f (.create true) [.free .rawBuf] (.answer (ascii "Bad Gateway (Upstream Connect Failed)"))
  | connect : ForwardsTo f (.connect false) [.connect false] .allocRaw
  | connectAgain : ForwardsTo f (.connect true) [.connect true] (.send true 0)
  | connectFailed :
      ForwardsTo f (.connect false) [.connect false, .close false] (.answer (ascii "Bad Gateway"))
  | connectFailedAgain : ForwardsTo f (.connect true) [.connect true, .close true, .free .rawBuf]
      (.answer (ascii "Bad Gateway (Upstream Connect Failed)"))
  | build {raw : Bytes} (h : f.request = .ok raw) : ForwardsTo f .allocRaw [.alloc .rawBuf] (.send false 0)
  | buildFailed (text : Bytes) : ForwardsTo f .allocRaw [.alloc .rawBuf, .free .rawBuf, .close false]
      (.answer text)
  | allocFailed (text : Bytes) : ForwardsTo f .allocRaw [.close false] (.answer text)
  | clientFd (again : Bool) : ForwardsTo f (.clientFd again) [] (.allocResp again)
  | clientFdFailed (again : Bool) (text : Bytes) :
      ForwardsTo f (.clientFd again) [.close again] (.answer text)
  | allocResp (again : Bool) : ForwardsTo f (.allocResp again) [.alloc .respBuf] (.relay again .start)
  | allocRespFailed (again : Bool) (text : Bytes) :
      ForwardsTo f (.allocResp again) [.close again] (.answer text)
  | send {raw : Bytes} (again : Bool) (sent n : ℕ) (h : f.request = .ok raw) (hn : sent + n < raw.length) :
      ForwardsTo f (.send again sent) [.send again ((raw.drop sent).take n)] (.send again (sent + n))
  | sendAll {raw : Bytes} (again : Bool) (sent : ℕ) (h : f.request = .ok raw) :
      ForwardsTo f (.send again sent) [.send again (raw.drop sent), .free .rawBuf] (.clientFd again)
  | sendFailed (sent : ℕ) : ForwardsTo f (.send false sent) [.send false [], .close false] (.create true)
  | sendFailedAgain (sent : ℕ) (text : Bytes) :
      ForwardsTo f (.send true sent) [.send true [], .free .rawBuf, .close true] (.answer text)
  | relay (again : Bool) {r r' : RelayState} {act : RelayAct} {calls : List Call} {phase : ForwardPhase}
      (h : relayStep r act = some r') (hact : ∀ ok, act ≠ .pipe ok)
      (hend : relayed (relayCalls again r r' act) again r' = (calls, phase)) :
      ForwardsTo f (.relay again r) calls phase
  | clientRecv (again : Bool) {r : RelayState} {data : Bytes} (h : r.phase = .loop .websocket) (hd : data ≠ []) :
      ForwardsTo f (.relay again r) [.clientRecv data] (.pipe again r data 0)
  | clientRecvFailed (again : Bool) {r r' : RelayState} {calls : List Call} {phase : ForwardPhase}
      (h : relayStep r (.pipe false) = some r') (hend : relayed [.clientRecv []] again r' = (calls, phase)) :
      ForwardsTo f (.relay again r) calls phase
  | pass (again : Bool) (r : RelayState) {chunk : Bytes} {sent n : ℕ} (hn : sent + n < chunk.length) :
      ForwardsTo f (.pipe again r chunk sent) [.pass again ((chunk.drop sent).take n)]
        (.pipe again r chunk (sent + n))
  | passAll (again : Bool) {r r' : RelayState} {chunk : Bytes} {sent : ℕ} {calls : List Call}
      {phase : ForwardPhase} (h : relayStep r (.pipe true) = some r')
      (hend : relayed [.pass again (chunk.drop sent)] again r' = (calls, phase)) :
      ForwardsTo f (.pipe again r chunk sent) calls phase
  | passFailed (again : Bool) {r r' : RelayState} {chunk : Bytes} {sent : ℕ} {calls : List Call}
      {phase : ForwardPhase} (h : relayStep r (.pipe false) = some r')
      (hend : relayed [.pass again []] again r' = (calls, phase)) :
      ForwardsTo f (.pipe again r chunk sent) calls phase
  | page (text : Bytes) : ForwardsTo f (.answer text) [.page text] (.returned (-1))

variable {f : Forwarding} {s t : ForwardState} {phase phase' : ForwardPhase} {calls : List Call}

theorem forwardsTo_callTurn {ok : Bool} (h : callTurn f phase ok = some (calls, phase')) :
    ForwardsTo f phase calls phase' := by
  unfold callTurn at h
  split at h
  case h_8 =>
    split at h
    · cases h
      exact .build ‹_›
    · cases h
      exact .buildFailed _
    · cases h
  all_goals cases h <;> constructor

theorem forwardsTo_sendTurn {raw : Bytes} {again : Bool} {sent : ℕ} {n : Int} (hraw : f.request = .ok raw)
    (h : sendTurn raw again sent n = some (calls, phase')) : ForwardsTo f (.send again sent) calls phase' := by
  rw [sendTurn] at h
  split_ifs at h with hn hagain hmore hall
  · subst hagain
    cases h
    exact .sendFailedAgain sent _
  · rw [Bool.not_eq_true] at hagain
    subst hagain
    cases h
    exact .sendFailed sent
  · cases h
    exact .send again sent _ hraw hmore
  · cases h
    exact .sendAll again sent hraw

theorem forwardsTo_pipeTurn {again : Bool} {r : RelayState} {chunk : Bytes} {sent : ℕ} {n : Int}
    (h : pipeTurn again r chunk sent n = some (calls, phase')) :
    ForwardsTo f (.pipe again r chunk sent) calls phase' := by
  rw [pipeTurn] at h
  split_ifs at h with hn hmore hall
  · obtain ⟨r', hr, h⟩ := Option.map_eq_some_iff.1 h
    exact .passFailed again hr h
  · cases h
    exact .pass again r hmore
  · obtain ⟨r', hr, h⟩ := Option.map_eq_some_iff.1 h
    exact .passAll again hr h

/-- **Every turn** is one of these. -/
theorem forwardsTo_of_turn {act : ForwardAct} (h : forwardTurn f phase act = some (calls, phase')) :
    ForwardsTo f phase calls phase' := by
  unfold forwardTurn at h
  split at h
  · exact forwardsTo_callTurn h
  · obtain ⟨raw, hraw, h⟩ := Option.bind_eq_some_iff.1 h
    refine forwardsTo_sendTurn ?_ h
    cases hf : f.request with
    | ok raw' =>
      rw [hf] at hraw
      cases hraw
      rfl
    | error e =>
      rw [hf] at hraw
      cases hraw
  · exact forwardsTo_pipeTurn h
  · cases h
  · rename_i act hact
    obtain ⟨r', hr, h⟩ := Option.map_eq_some_iff.1 h
    exact .relay _ hr (fun ok hok => hact ok hok) h
  · obtain ⟨r', hr, h⟩ := Option.map_eq_some_iff.1 h
    exact .clientRecvFailed _ hr h
  · split_ifs at h with hws
    cases h
    exact .clientRecv _ hws.1 hws.2.1
  · cases h
    exact .page _
  · cases h

/-- How a step of the relay ends. -/
theorem relayed_cases {again : Bool} {r : RelayState} {cs : List Call}
    (h : relayed cs again r = (calls, phase)) :
    (r.phase = .refused ∧ calls = cs ++ [.free .respBuf, .close again] ∧ ∃ text, phase = .answer text) ∨
      (r.phase = .done ∧ calls = cs ++ [.free .respBuf, .close again] ∧ phase = .returned 0) ∨
        (r.phase ≠ .done ∧ calls = cs ∧ phase = .relay again r) := by
  unfold relayed at h
  split at h
  · cases h
    exact .inl ⟨‹_›, rfl, _, rfl⟩
  · cases h
    exact .inr (.inl ⟨‹_›, rfl, rfl⟩)
  · cases h
    exact .inr (.inr ⟨‹_›, rfl, rfl⟩)

/-- A run leads from the start by turns. -/
theorem reach_forward {I : ForwardPhase → List Call → Prop} (hstart : I f.start.phase [])
    (hturn : ∀ {phase phase' calls trace}, ForwardsTo f phase calls phase' → I phase trace →
      I phase' (trace ++ calls)) (h : (forwardMachine f).Reach s) : I s.phase s.trace := by
  refine h.invariant (I := fun s => I s.phase s.trace) ?_ ?_
  · rintro s rfl
    have htrace : f.start.trace = [] := by
      rw [Forwarding.start]
      split <;> rfl
    rw [htrace]
    exact hstart
  · rintro s act t hI - hs
    obtain ⟨⟨calls, phase⟩, hturn', rfl⟩ := Option.map_eq_some_iff.1 hs
    exact hturn (forwardsTo_of_turn hturn') hI

theorem start_phase (f : Forwarding) :
    f.start.phase = .create false ∨ f.start.phase = .answer (ascii "Bad Gateway") := by
  rw [Forwarding.start]
  split
  · exact .inl rfl
  · exact .inr rfl

/-! ## Sockets and buffers -/

/-- What is held in a phase. -/
def ForwardPhase.held : ForwardPhase → List Resource
  | .create again => if again then [.rawBuf] else []
  | .connect again => if again then [.socket true, .rawBuf] else [.socket false]
  | .allocRaw => [.socket false]
  | .send again _ => if again then [.socket true, .rawBuf] else [.rawBuf, .socket false]
  | .clientFd again | .allocResp again => [.socket again]
  | .relay again _ | .pipe again _ _ _ => [.respBuf, .socket again]
  | .answer _ | .returned _ => []

theorem usesOf_append (trace calls : List Call) : usesOf (trace ++ calls) = usesOf trace ++ usesOf calls :=
  List.flatMap_append

/-- The calls of the relay only access what is held. -/
theorem run_relayCalls (again : Bool) (r r' : RelayState) (act : RelayAct) :
    run [.respBuf, .socket again] (usesOf (relayCalls again r r' act)) = some [.respBuf, .socket again] := by
  cases act <;> cases again <;> rfl

theorem run_relayed {again : Bool} {r : RelayState} {cs : List Call}
    (h : relayed cs again r = (calls, phase))
    (hcs : run [.respBuf, .socket again] (usesOf cs) = some [.respBuf, .socket again]) :
    run [.respBuf, .socket again] (usesOf calls) = some phase.held := by
  have hclean : run [.respBuf, .socket again] (usesOf [.free .respBuf, .close again]) = some [] := by
    cases again <;> rfl
  obtain ⟨-, rfl, text, rfl⟩ | ⟨-, rfl, rfl⟩ | ⟨-, rfl, rfl⟩ := relayed_cases h
  · rw [usesOf_append, run_append, hcs]
    exact hclean
  · rw [usesOf_append, run_append, hcs]
    exact hclean
  · exact hcs

/-- **A turn** uses what is held, and leaves what the next phase holds. -/
theorem run_held (h : ForwardsTo f phase calls phase') : run phase.held (usesOf calls) = some phase'.held := by
  cases h with
  | create again | clientFd again | clientFdFailed again | allocResp again | allocRespFailed again
    | clientRecv again | pass again | send again | sendAll again => cases again <;> rfl
  | relay again h hact hend => exact run_relayed hend (run_relayCalls ..)
  | clientRecvFailed again h hend | passAll again h hend | passFailed again h hend =>
    exact run_relayed hend (by cases again <;> rfl)
  | _ => rfl

/-- **Every socket and every buffer** is released as often as it was acquired when
`arws_stream_proxy_forward` returns, on every path, and nothing was used that was not held. -/
theorem cleared_of_returned (h : (forwardMachine f).Reach s) :
    Disciplined (usesOf s.trace) ∧ ∀ result, s.phase = .returned result → Cleared (usesOf s.trace) ∧
      ∀ r, (usesOf s.trace).count (.release r) = (usesOf s.trace).count (.acquire r) := by
  have hheld : run [] (usesOf s.trace) = some s.phase.held := by
    refine reach_forward (I := fun phase trace => run [] (usesOf trace) = some phase.held) ?_ ?_ h
    · obtain hstart | hstart := start_phase f
      · rw [hstart]
        rfl
      · rw [hstart]
        rfl
    · intro phase phase' calls trace hturn hI
      rw [usesOf_append, run_append, hI]
      exact run_held hturn
  refine ⟨?_, fun result hresult => ?_⟩
  · rw [Disciplined, hheld]
    rfl
  · have hcleared : Cleared (usesOf s.trace) := by
      rw [Cleared, hheld, hresult]
      rfl
    exact ⟨hcleared, hcleared.count_release⟩

/-- A request without header fields. -/
def plainRequest : Forwarding where
  targetUrl := ascii "http://a"
  clientIp := ascii "10.0.0.1"
  req := ⟨ascii "GET", ascii "/", none, [], [], [], [], 0⟩

/-- The first connection breaks behind five bytes of the request, and the second one answers. -/
def brokenOnce : List ForwardAct :=
  [.call true, .call true, .call true, .send 5, .send (-1), .call true, .call true, .send 64, .call true,
    .call true, .relay (.recv (some (ascii "HTTP/1.1 200 OK\r\nContent-Length: 0\r\n\r\n"))),
    .relay (.write 38)]

theorem reach_brokenOnce : ∃ s, (forwardMachine plainRequest).Reach s ∧ s.phase = .returned 0 ∧
    s.trace.length = 15 := by
  obtain ⟨s, hs, hphase⟩ := Option.map_eq_some_iff.1
    (show ((forwardMachine plainRequest).runUnder (fun _ _ => True) plainRequest.start brokenOnce).map
      (fun s => (s.phase, s.trace.length)) = some (.returned 0, 15) by decide +kernel)
  exact ⟨s, Machine.reachUnder_of_runUnder (.start rfl) hs, congrArg Prod.fst hphase,
    congrArg Prod.snd hphase⟩

/-- With both sockets and both buffers. -/
theorem cleared_after_retry : ∃ s : ForwardState, s.trace.length = 15 ∧ Cleared (usesOf s.trace) := by
  obtain ⟨s, hs, hphase, hlength⟩ := reach_brokenOnce
  exact ⟨s, hlength, ((cleared_of_returned hs).2 0 hphase).1⟩

/-! ## The request -/

/-- The bytes of the request, if it could be built. -/
def Forwarding.raw (f : Forwarding) : Bytes := f.request.toOption.getD []

theorem raw_eq {raw : Bytes} (h : f.request = .ok raw) : f.raw = raw := by
  rw [Forwarding.raw, h]
  rfl

/-- A part of the request, and not all of it. -/
def Part (raw sent : Bytes) : Prop := sent <+: raw ∧ (raw ≠ [] → sent ≠ raw)

/-- One connection was sent the whole request, and the other one was not. -/
def SentOnce (raw : Bytes) (sent : Bool → Bytes) (again : Bool) : Prop :=
  sent again = raw ∧ Part raw (sent !again)

/-- Both connections were sent a part of the request, and at most one the whole, which is the only one that
was heard. -/
def AtMostOnce (raw : Bytes) (sent : Bool → Bytes) (heard : List Bool) : Prop :=
  (∃ again, Part raw (sent again) ∧ sent (!again) <+: raw) ∧ ∀ again ∈ heard, SentOnce raw sent again

/-- What was sent of the request, and heard, when a phase begins. -/
def ForwardPhase.Sent (raw : Bytes) (sent : Bool → Bytes) (heard : List Bool) : ForwardPhase → Prop
  | .create again | .connect again =>
    Part raw (sent false) ∧ (if again then 0 < raw.length else sent false = []) ∧ sent true = [] ∧ heard = []
  | .allocRaw => (∀ again, sent again = []) ∧ heard = []
  | .send again n =>
    sent again = raw.take n ∧ n < raw.length ∧ Part raw (sent !again) ∧ (again = false → sent true = []) ∧
      heard = []
  | .clientFd again | .allocResp again | .relay again _ | .pipe again _ _ _ =>
    SentOnce raw sent again ∧ ∀ a ∈ heard, a = again
  | .answer _ => AtMostOnce raw sent heard
  | .returned result => AtMostOnce raw sent heard ∧ (result = 0 → ∃ again, SentOnce raw sent again)

theorem part_nil (raw : Bytes) : Part raw [] := ⟨List.nil_prefix, fun h => h.symm⟩

theorem part_take {raw : Bytes} {n : ℕ} (h : n < raw.length) : Part raw (raw.take n) := by
  refine ⟨List.take_prefix n raw, fun _ heq => ?_⟩
  have hlength := congrArg List.length heq
  rw [List.length_take] at hlength
  omega

theorem SentOnce.atMostOnce {raw : Bytes} {sent : Bool → Bytes} {heard : List Bool} {again : Bool}
    (hs : SentOnce raw sent again) (hheard : ∀ a ∈ heard, a = again) : AtMostOnce raw sent heard := by
  refine ⟨⟨!again, hs.2, ?_⟩, fun a ha => ?_⟩
  · rw [Bool.not_not, hs.1]
  · rw [hheard a ha]
    exact hs

theorem atMostOnce_nil {raw : Bytes} {sent : Bool → Bytes} (hfirst : Part raw (sent false))
    (hsecond : sent true <+: raw) : AtMostOnce raw sent [] :=
  ⟨⟨false, hfirst, hsecond⟩, fun _ h => nomatch h⟩

theorem sentTo_append (trace calls : List Call) (again : Bool) :
    sentTo (trace ++ calls) again = sentTo trace again ++ sentTo calls again := List.flatMap_append

theorem heardFrom_append (trace calls : List Call) :
    heardFrom (trace ++ calls) = heardFrom trace ++ heardFrom calls := List.flatMap_append

/-- Calls that send nothing of the request. -/
theorem sentTo_quiet {calls : List Call} (h : sentTo calls = fun _ => []) (trace : List Call) :
    sentTo (trace ++ calls) = sentTo trace := funext fun again => by
  rw [sentTo_append, h, List.append_nil]

/-- Calls that send nothing of the request and hear nothing. -/
theorem sent_quiet (phase : ForwardPhase) {raw : Bytes} {trace : List Call} (calls : List Call)
    (hs : phase.Sent raw (sentTo trace) (heardFrom trace)) (hsent : sentTo calls = fun _ => [])
    (hheard : heardFrom calls = []) : phase.Sent raw (sentTo (trace ++ calls)) (heardFrom (trace ++ calls)) := by
  rwa [sentTo_quiet hsent, heardFrom_append, hheard, List.append_nil]

theorem atMostOnce_of_create {raw : Bytes} {sent : Bool → Bytes} {heard : List Bool} {again : Bool}
    (hs : (ForwardPhase.create again).Sent raw sent heard) : AtMostOnce raw sent heard := by
  obtain ⟨hfirst, -, hsecond, rfl⟩ := hs
  refine atMostOnce_nil hfirst ?_
  rw [hsecond]
  exact List.nil_prefix

theorem atMostOnce_of_allocRaw {raw : Bytes} {sent : Bool → Bytes} {heard : List Bool}
    (hs : ForwardPhase.allocRaw.Sent raw sent heard) : AtMostOnce raw sent heard := by
  obtain ⟨hsent, rfl⟩ := hs
  refine atMostOnce_nil ?_ ?_
  · rw [hsent]
    exact part_nil raw
  · rw [hsent]
    exact List.nil_prefix

/-- A request that was built is not empty. -/
theorem request_ne_nil {raw : Bytes} (h : f.request = .ok raw) : raw ≠ [] := by
  rw [Forwarding.request] at h
  cases hbuilt : arwsBuildHttpRequest f.clientIp f.req (f.req.bodyLengthInBuffer.toNat + 65536) with
  | error e =>
    rw [hbuilt] at h
    cases h
  | ok built =>
    rw [hbuilt] at h
    cases h
    have hpos := length_buildHead_pos (arwsBuildHttpRequest_eq_ok hbuilt).1
    exact List.append_ne_nil_of_left_ne_nil (List.ne_nil_of_length_pos hpos) _

/-- What a connection is sent is added to what it was sent. -/
theorem sentTo_send {more : List Call} (hmore : sentTo more = fun _ => []) (trace : List Call) (again : Bool)
    (data : Bytes) :
    sentTo (trace ++ .send again data :: more) again = sentTo trace again ++ data ∧
      sentTo (trace ++ .send again data :: more) (!again) = sentTo trace !again := by
  have hcalls : ∀ a, sentTo (.send again data :: more) a = if again = a then data else [] := fun a => by
    refine (List.flatMap_cons ..).trans ?_
    rw [show more.flatMap _ = [] from congrFun hmore a, List.append_nil]
  constructor
  · rw [sentTo_append, hcalls, if_pos rfl]
  · rw [sentTo_append, hcalls, if_neg (by cases again <;> decide), List.append_nil]

/-- The relay hears from the connection that was sent the request. -/
theorem sent_relayed {raw : Bytes} {trace cs : List Call} {again : Bool} {r : RelayState}
    (h : relayed cs again r = (calls, phase)) (hcs : sentTo cs = fun _ => [])
    (hheard : ∀ a ∈ heardFrom cs, a = again)
    (hs : SentOnce raw (sentTo trace) again ∧ ∀ a ∈ heardFrom trace, a = again) :
    phase.Sent raw (sentTo (trace ++ calls)) (heardFrom (trace ++ calls)) := by
  have hone : SentOnce raw (sentTo (trace ++ cs)) again := by
    rw [sentTo_quiet hcs]
    exact hs.1
  have hall : ∀ a ∈ heardFrom (trace ++ cs), a = again := by
    rw [heardFrom_append]
    exact fun a ha => (List.mem_append.1 ha).elim (hs.2 a) (hheard a)
  have hreturned : (ForwardPhase.returned 0).Sent raw (sentTo (trace ++ cs)) (heardFrom (trace ++ cs)) :=
    ⟨hone.atMostOnce hall, fun _ => ⟨again, hone⟩⟩
  obtain ⟨-, rfl, text, rfl⟩ | ⟨-, rfl, rfl⟩ | ⟨-, rfl, rfl⟩ := relayed_cases h
  · rw [← List.append_assoc]
    exact sent_quiet (.answer text) _ hreturned.1 rfl rfl
  · rw [← List.append_assoc]
    exact sent_quiet _ _ hreturned rfl rfl
  · exact ⟨hone, hall⟩

theorem sentTo_relayCalls (again : Bool) (r r' : RelayState) (act : RelayAct) :
    sentTo (relayCalls again r r' act) = fun _ => [] := by
  cases act <;> rfl

theorem heardFrom_relayCalls (again : Bool) (r r' : RelayState) (act : RelayAct) :
    ∀ a ∈ heardFrom (relayCalls again r r' act), a = again := by
  cases act with
  | recv data => exact fun a ha => List.mem_singleton.1 ha
  | _ => exact fun a ha => nomatch ha

/-- **A turn** sends the request on, on one connection after the other. -/
theorem sent_turn {trace : List Call} (h : ForwardsTo f phase calls phase')
    (hs : phase.Sent f.raw (sentTo trace) (heardFrom trace)) :
    phase'.Sent f.raw (sentTo (trace ++ calls)) (heardFrom (trace ++ calls)) := by
  cases h with
  | create again => exact sent_quiet (.connect again) _ hs rfl rfl
  | createFailed | createFailedAgain | connectFailed | connectFailedAgain =>
    exact sent_quiet (.answer []) _ (atMostOnce_of_create hs) rfl rfl
  | connect =>
    obtain ⟨-, hfirst, hsecond, hheard⟩ := hs
    exact sent_quiet .allocRaw _ ⟨Bool.forall_bool.2 ⟨hfirst, hsecond⟩, hheard⟩ rfl rfl
  | connectAgain =>
    obtain ⟨hfirst, hpos, hsecond, hheard⟩ := hs
    exact sent_quiet (.send true 0) _ ⟨hsecond, hpos, hfirst, Bool.noConfusion, hheard⟩ rfl rfl
  | build hraw =>
    obtain ⟨hsent, hheard⟩ := hs
    have hpos : 0 < f.raw.length := by
      rw [raw_eq hraw]
      exact List.length_pos_of_ne_nil (request_ne_nil hraw)
    refine sent_quiet (.send false 0) _ ⟨hsent false, hpos, ?_, fun _ => hsent true, hheard⟩ rfl rfl
    rw [hsent]
    exact part_nil _
  | buildFailed text | allocFailed text =>
    exact sent_quiet (.answer text) _ (atMostOnce_of_allocRaw hs) rfl rfl
  | clientFd again => exact sent_quiet (.allocResp again) _ hs rfl rfl
  | clientFdFailed again text => exact sent_quiet (.answer text) _ (hs.1.atMostOnce hs.2) rfl rfl
  | allocResp again => exact sent_quiet (.relay again .start) _ hs rfl rfl
  | allocRespFailed again text => exact sent_quiet (.answer text) _ (hs.1.atMostOnce hs.2) rfl rfl
  | @send raw again m n hraw hn =>
    obtain ⟨hsent, -, hother, hfirst, hheard⟩ := hs
    obtain ⟨hnow, hthen⟩ := @sentTo_send [] rfl trace again ((raw.drop m).take n)
    rw [raw_eq hraw] at hsent hother ⊢
    refine ⟨?_, hn, ?_, fun h => ?_, ?_⟩
    · rw [hnow, hsent, List.take_add]
    · rw [hthen]
      exact hother
    · subst h
      rw [← hfirst rfl]
      exact hthen
    · rw [heardFrom_append, hheard]
      rfl
  | @sendAll raw again m hraw =>
    obtain ⟨hsent, -, hother, hfirst, hheard⟩ := hs
    obtain ⟨hnow, hthen⟩ := @sentTo_send [.free .rawBuf] rfl trace again (raw.drop m)
    rw [raw_eq hraw] at hsent hother ⊢
    refine ⟨⟨?_, ?_⟩, ?_⟩
    · rw [hnow, hsent, List.take_append_drop]
    · rw [hthen]
      exact hother
    · rw [heardFrom_append, hheard]
      exact fun a h => nomatch h
  | sendFailed m =>
    obtain ⟨hsent, hm, -, hsecond, hheard⟩ := hs
    have hpart : Part f.raw (sentTo trace false) := by
      rw [hsent]
      exact part_take hm
    refine sent_quiet (.create true) _ ⟨hpart, Nat.zero_lt_of_lt hm, hsecond rfl, hheard⟩ ?_ rfl
    exact funext (Bool.forall_bool.2 ⟨rfl, rfl⟩)
  | sendFailedAgain m text =>
    obtain ⟨hsent, -, hfirst, -, hheard⟩ := hs
    have hone : AtMostOnce f.raw (sentTo trace) (heardFrom trace) := by
      rw [hheard]
      refine atMostOnce_nil hfirst ?_
      rw [hsent]
      exact List.take_prefix ..
    exact sent_quiet (.answer text) _ hone (funext (Bool.forall_bool.2 ⟨rfl, rfl⟩)) rfl
  | relay again h hact hend =>
    exact sent_relayed hend (sentTo_relayCalls again _ _ _) (heardFrom_relayCalls again _ _ _) hs
  | @clientRecv again r data hws hd => exact sent_quiet (.pipe again r data 0) _ hs rfl rfl
  | clientRecvFailed again h hend | passAll again h hend | passFailed again h hend =>
    exact sent_relayed hend rfl (fun _ h => nomatch h) hs
  | @pass again r chunk sent n hn => exact sent_quiet (.pipe again r chunk (sent + n)) _ hs rfl rfl
  | page text => exact sent_quiet (.returned (-1)) _ ⟨hs, fun h => absurd h (by decide)⟩ rfl rfl

theorem ForwardPhase.Sent.atMostOnce {raw : Bytes} {sent : Bool → Bytes} {heard : List Bool}
    (hs : phase.Sent raw sent heard) : AtMostOnce raw sent heard := by
  cases phase with
  | create again | connect again => exact atMostOnce_of_create hs
  | allocRaw => exact atMostOnce_of_allocRaw hs
  | send again m =>
    obtain ⟨hsent, -, hother, -, rfl⟩ := hs
    refine ⟨⟨!again, hother, ?_⟩, fun _ h => nomatch h⟩
    rw [Bool.not_not, hsent]
    exact List.take_prefix ..
  | clientFd again | allocResp again | relay again _ | pipe again _ _ _ => exact hs.1.atMostOnce hs.2
  | answer text => exact hs
  | returned result => exact hs.1

/-- **The request is sent once**: at most one connection was sent the whole of it, and only such a one was
heard; and there is one if the response was relayed. -/
theorem request_once (h : (forwardMachine f).Reach s) :
    AtMostOnce f.raw (sentTo s.trace) (heardFrom s.trace) ∧
      (s.phase = .returned 0 → ∃ again, SentOnce f.raw (sentTo s.trace) again) := by
  have hs : s.phase.Sent f.raw (sentTo s.trace) (heardFrom s.trace) := by
    refine reach_forward (I := fun phase trace => phase.Sent f.raw (sentTo trace) (heardFrom trace)) ?_
      (fun hturn hI => sent_turn hturn hI) h
    obtain hstart | hstart := start_phase f
    · rw [hstart]
      exact ⟨part_nil _, rfl, rfl, rfl⟩
    · rw [hstart]
      exact atMostOnce_nil (part_nil _) List.nil_prefix
  refine ⟨hs.atMostOnce, fun hreturned => ?_⟩
  rw [hreturned] at hs
  exact hs.2 rfl

/-- The request is sent again. -/
theorem request_once_retry : ∃ s : ForwardState, s.trace.length = 15 ∧
    ∃ again, SentOnce plainRequest.raw (sentTo s.trace) again := by
  obtain ⟨s, hs, hphase, hlength⟩ := reach_brokenOnce
  exact ⟨s, hlength, (request_once hs).2 hphase⟩

end Proxy
end Arws

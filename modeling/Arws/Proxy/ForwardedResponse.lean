import Arws.Proxy.Forwarding

/-!
# What the client and the upstream get of each other

The streams of a forwarded request: what is received from the upstream and delivered to the client, what is
read from the client of a tunnel and passed on, and the error pages.

* `answered_once` — the client gets one error page and nothing from the upstream, or no error page.
* `relay_of_reach` — the relay is the machine of `relayMachine`, with the streams of the forwarded request.
* `tunnel_gapless` — what is passed on to the upstream is the beginning of what was read from the client, all
  of it where the tunnel goes on; and nothing is read from the client unless the upstream has answered 101.
-/

set_option autoImplicit false

namespace Arws
namespace Proxy

open CString

/-! ## The relay -/

variable {r r' : RelayState} {act : RelayAct}

/-- What is received in a step, and nothing is delivered in it. -/
theorem streams_recv (data : Option Bytes) (hroom : 0 < r.room) :
    (r.recv data).received = r.received ++ data.getD [] ∧ (r.recv data).delivered = r.delivered := by
  obtain ⟨phase, received, delivered, lost⟩ := r
  cases data with
  | none =>
    rw [Option.getD_none, List.append_nil]
    cases phase <;> exact ⟨rfl, rfl⟩
  | some data =>
    cases phase with
    | head buf | loop mode => exact ⟨rfl, rfl⟩
    | _ => exact absurd hroom (lt_irrefl 0)

theorem streams_write (r : RelayState) (w : Int) :
    (r.write w).received = r.received ∧ ∃ data, (r.write w).delivered = r.delivered ++ data := by
  obtain ⟨phase, received, delivered, lost⟩ := r
  cases phase with
  | first buf headerEnd => exact ⟨rfl, _, rfl⟩
  | write mode chunk ws =>
    simp only [RelayState.write]
    split_ifs
    · exact ⟨rfl, [], (List.append_nil _).symm⟩
    · exact ⟨rfl, _, rfl⟩
    · exact ⟨rfl, _, rfl⟩
  | _ => exact ⟨rfl, [], (List.append_nil _).symm⟩

/-- What a step of the relay adds to its streams is what its call reads and writes. -/
theorem streams_relayCalls (again : Bool) (h : relayStep r act = some r') :
    r.received ++ receivedOf (relayCalls again r r' act) = r'.received ∧
      r.delivered ++ deliveredOf (relayCalls again r r' act) = r'.delivered := by
  cases act with
  | recv data =>
    obtain ⟨⟨hroom, -⟩, h⟩ := Option.ite_none_right_eq_some.1 h
    cases h
    obtain ⟨hreceived, hdelivered⟩ := streams_recv data hroom
    rw [hreceived, hdelivered]
    exact ⟨congrArg (r.received ++ ·) (List.append_nil _), List.append_nil _⟩
  | write w =>
    obtain ⟨-, h⟩ := Option.ite_none_right_eq_some.1 h
    cases h
    obtain ⟨hreceived, data, hdelivered⟩ := streams_write r w
    refine ⟨(List.append_nil _).trans hreceived.symm, ?_⟩
    show r.delivered ++ ((r.write w).delivered.drop r.delivered.length ++ []) = _
    rw [List.append_nil, hdelivered, List.drop_left]
  | pipe ok =>
    obtain ⟨-, h⟩ := Option.ite_none_right_eq_some.1 h
    cases h
    cases ok <;> exact ⟨List.append_nil _, List.append_nil _⟩

/-! ## The streams of a forwarded request -/

/-- What the calls read from and wrote to the client and the upstream, behind the request. -/
structure Streams where
  pages : List Bytes
  received : Bytes
  delivered : Bytes
  read : Bytes
  passed : Bytes

def streamsOf (trace : List Call) : Streams :=
  ⟨pagesOf trace, receivedOf trace, deliveredOf trace, fromClient trace, passedOn trace⟩

/-- What was passed on is the beginning of what was read, and nothing was read without an upgrade. -/
structure Streams.Tunnelled (s : Streams) : Prop where
  passed : s.passed <+: s.read
  upgraded : s.read ≠ [] → switchingProtocols <+: s.received

/-- The streams of a relay, with what is read and not passed on yet. -/
structure Streams.Relaying (s : Streams) (r : RelayState) (unsent : Bytes) : Prop where
  pages : s.pages = []
  received : s.received = r.received
  delivered : s.delivered = r.delivered
  passed : s.passed ++ unsent = s.read
  upgraded : s.read ≠ [] → switchingProtocols <+: r.received
  reach : relayMachine.Reach r

/-- What the client gets. -/
inductive Streams.Answers (s : Streams) : Int → Prop
  | page (text : Bytes) (hpages : s.pages = [text]) (hdelivered : s.delivered = []) : Answers s (-1)
  | relayed (hpages : s.pages = []) : Answers s 0

/-- The streams when a phase begins. -/
def ForwardPhase.Streams (s : Streams) : ForwardPhase → Prop
  | .relay _ r => s.Relaying r []
  | .pipe _ r chunk sent => s.Relaying r (chunk.drop sent) ∧ r.phase = .loop .websocket
  | .answer _ => s.pages = [] ∧ s.delivered = [] ∧ s.Tunnelled
  | .returned result => s.Tunnelled ∧ s.Answers result
  | _ => s = ⟨[], [], [], [], []⟩

def Streams.append (s t : Streams) : Streams :=
  ⟨s.pages ++ t.pages, s.received ++ t.received, s.delivered ++ t.delivered, s.read ++ t.read,
    s.passed ++ t.passed⟩

theorem streamsOf_append (trace calls : List Call) :
    streamsOf (trace ++ calls) = (streamsOf trace).append (streamsOf calls) := by
  simp only [streamsOf, Streams.append, pagesOf, receivedOf, deliveredOf, fromClient, passedOn,
    List.flatMap_append]

theorem streamsOf_quiet {calls : List Call} (h : streamsOf calls = ⟨[], [], [], [], []⟩) (trace : List Call) :
    streamsOf (trace ++ calls) = streamsOf trace := by
  rw [streamsOf_append, h]
  simp only [Streams.append, List.append_nil]

variable {f : Forwarding} {s : ForwardState} {phase phase' : ForwardPhase} {calls : List Call}

theorem Streams.Relaying.tunnelled {t : Streams} {unsent : Bytes} (h : t.Relaying r unsent) : t.Tunnelled where
  passed := ⟨unsent, h.passed⟩
  upgraded hread := by
    rw [h.received]
    exact h.upgraded hread

theorem streams_quiet (phase : ForwardPhase) {trace : List Call} (calls : List Call)
    (h : phase.Streams (streamsOf trace)) (hcalls : streamsOf calls = ⟨[], [], [], [], []⟩) :
    phase.Streams (streamsOf (trace ++ calls)) := by
  rwa [streamsOf_quiet hcalls]

/-- Nothing was read or written behind the request yet. -/
theorem streams_answer {t : Streams} (h : t = ⟨[], [], [], [], []⟩) (text : Bytes) :
    (ForwardPhase.answer text).Streams t := by
  subst h
  exact ⟨rfl, rfl, List.prefix_rfl, fun h => absurd rfl h⟩

/-- Behind a step of the relay. -/
theorem streams_relayed {trace cs : List Call} {again : Bool} {unsent : Bytes}
    (h : relayed cs again r = (calls, phase)) (hs : (streamsOf (trace ++ cs)).Relaying r unsent)
    (hunsent : unsent = [] ∨ r.phase = .done) : phase.Streams (streamsOf (trace ++ calls)) := by
  obtain ⟨hrefused, rfl, text, rfl⟩ | ⟨-, rfl, rfl⟩ | ⟨hgoes, rfl, rfl⟩ := relayed_cases h
  · have hbegins := begins_of_reach hs.reach
    rw [RelayState.Begins, hrefused] at hbegins
    rw [← List.append_assoc]
    exact streams_quiet (.answer text) _ ⟨hs.pages, hs.delivered.trans hbegins, hs.tunnelled⟩ rfl
  · rw [← List.append_assoc]
    exact streams_quiet (.returned 0) _ ⟨hs.tunnelled, .relayed hs.pages⟩ rfl
  · obtain rfl := hunsent.resolve_right hgoes
    exact hs

/-- A step of the relay. -/
theorem Streams.Relaying.step {trace : List Call} (hs : (streamsOf trace).Relaying r []) (again : Bool)
    (h : relayStep r act = some r') : (streamsOf (trace ++ relayCalls again r r' act)).Relaying r' [] := by
  obtain ⟨hreceived, hdelivered⟩ := streams_relayCalls again h
  have hcalls : pagesOf (relayCalls again r r' act) = [] ∧ fromClient (relayCalls again r r' act) = [] ∧
      passedOn (relayCalls again r r' act) = [] := by
    cases act <;> exact ⟨rfl, rfl, rfl⟩
  obtain ⟨hpages, hread, hpassed⟩ := hcalls
  rw [streamsOf_append]
  refine ⟨?_, ?_, ?_, ?_, ?_, .next hs.reach trivial h⟩
  · exact List.append_eq_nil_iff.2 ⟨hs.pages, hpages⟩
  · rw [← hreceived, ← hs.received]
    rfl
  · rw [← hdelivered, ← hs.delivered]
    rfl
  · show (passedOn trace ++ passedOn (relayCalls again r r' act)) ++ [] =
      fromClient trace ++ fromClient (relayCalls again r r' act)
    rw [hpassed, hread, List.append_nil (passedOn trace), List.append_nil (fromClient trace)]
    exact hs.passed
  · show fromClient trace ++ fromClient (relayCalls again r r' act) ≠ [] → _
    rw [hread, List.append_nil, ← hreceived]
    exact fun h => (hs.upgraded h).trans (List.prefix_append ..)

/-- The tunnel passes on some of what it read, and goes on or ends. -/
theorem Streams.Relaying.pass {trace : List Call} {unsent : Bytes} (hs : (streamsOf trace).Relaying r unsent)
    (again : Bool) (n : ℕ) :
    (streamsOf (trace ++ [.pass again (unsent.take n)])).Relaying r (unsent.drop n) := by
  rw [streamsOf_append]
  refine ⟨?_, ?_, ?_, ?_, ?_, hs.reach⟩
  · exact (List.append_nil _).trans hs.pages
  · exact (List.append_nil _).trans hs.received
  · exact (List.append_nil _).trans hs.delivered
  · show (passedOn trace ++ (unsent.take n ++ [])) ++ unsent.drop n = fromClient trace ++ []
    rw [List.append_nil, List.append_nil, List.append_assoc, List.take_append_drop]
    exact hs.passed
  · show fromClient trace ++ [] ≠ [] → _
    rw [List.append_nil]
    exact hs.upgraded

/-- The tunnel reads from the client. -/
theorem Streams.Relaying.read {trace : List Call} (hs : (streamsOf trace).Relaying r []) {data : Bytes}
    (hdata : data ≠ [] → switchingProtocols <+: r.received) :
    (streamsOf (trace ++ [.clientRecv data])).Relaying r data := by
  have hpassed : passedOn trace = fromClient trace := (List.append_nil _).symm.trans hs.passed
  rw [streamsOf_append]
  refine ⟨?_, ?_, ?_, ?_, ?_, hs.reach⟩
  · exact (List.append_nil _).trans hs.pages
  · exact (List.append_nil _).trans hs.received
  · exact (List.append_nil _).trans hs.delivered
  · show (passedOn trace ++ []) ++ data = fromClient trace ++ (data ++ [])
    rw [List.append_nil, List.append_nil, hpassed]
  · show fromClient trace ++ (data ++ []) ≠ [] → _
    intro hread
    by_cases hnone : fromClient trace = []
    · rw [hnone, List.nil_append, List.append_nil] at hread
      exact hdata hread
    · exact hs.upgraded hnone

/-- A tunnel ends, or goes on. -/
theorem Streams.Relaying.piped {t : Streams} {unsent : Bytes} (hs : t.Relaying r unsent) {ok : Bool}
    (h : relayStep r (.pipe ok) = some r') : t.Relaying r' unsent ∧ (ok = false → r'.phase = .done) := by
  have hreach : relayMachine.Reach r' := .next hs.reach trivial (a := .pipe ok) h
  obtain ⟨-, h⟩ := Option.ite_none_right_eq_some.1 h
  cases h
  cases ok with
  | true => exact ⟨⟨hs.pages, hs.received, hs.delivered, hs.passed, hs.upgraded, hreach⟩, Bool.noConfusion⟩
  | false => exact ⟨⟨hs.pages, hs.received, hs.delivered, hs.passed, hs.upgraded, hreach⟩, fun _ => rfl⟩

/-- **A turn** keeps the streams in order. -/
theorem streams_turn {trace : List Call} (h : ForwardsTo f phase calls phase')
    (hs : phase.Streams (streamsOf trace)) : phase'.Streams (streamsOf (trace ++ calls)) := by
  cases h with
  | create again => exact streams_quiet (.connect again) _ hs rfl
  | createFailed | createFailedAgain | connectFailed | connectFailedAgain | buildFailed | allocFailed
    | clientFdFailed | allocRespFailed => exact streams_quiet (.answer []) _ (streams_answer hs []) rfl
  | connect => exact streams_quiet .allocRaw _ hs rfl
  | connectAgain => exact streams_quiet (.send true 0) _ hs rfl
  | build => exact streams_quiet (.send false 0) _ hs rfl
  | clientFd again => exact streams_quiet (.allocResp again) _ hs rfl
  | allocResp again =>
    refine streams_quiet (.relay again .start) _ ?_ rfl
    rw [hs]
    exact ⟨rfl, rfl, rfl, rfl, fun h => absurd rfl h, .start rfl⟩
  | send again m n => exact streams_quiet (.send again (m + n)) _ hs rfl
  | sendAll again m => exact streams_quiet (.clientFd again) _ hs rfl
  | sendFailed m => exact streams_quiet (.create true) _ hs rfl
  | sendFailedAgain m text => exact streams_quiet (.answer []) _ (streams_answer hs []) rfl
  | relay again h hact hend => exact streams_relayed hend (hs.step again h) (.inl rfl)
  | clientRecv again hws hd =>
    refine ⟨hs.read fun _ => ?_, hws⟩
    have hbegins := begins_of_reach hs.reach
    rwa [RelayState.Begins, hws] at hbegins
  | clientRecvFailed again h hend =>
    obtain ⟨hs', -⟩ := (hs.read fun h => absurd rfl h).piped h
    exact streams_relayed hend hs' (.inl rfl)
  | @pass again r chunk m n hn =>
    have hpass := hs.1.pass again n
    rw [List.drop_drop] at hpass
    exact ⟨hpass, hs.2⟩
  | @passAll again r r' chunk m calls phase h hend =>
    have hpass := hs.1.pass again (chunk.drop m).length
    rw [List.take_length, List.drop_length] at hpass
    obtain ⟨hs', -⟩ := hpass.piped h
    exact streams_relayed hend hs' (.inl rfl)
  | passFailed again h hend =>
    obtain ⟨hs', hdone⟩ := (hs.1.pass again 0).piped h
    exact streams_relayed hend hs' (.inr (hdone rfl))
  | page text =>
    obtain ⟨hpages, hdelivered, htunnelled⟩ := hs
    have hpage : streamsOf (trace ++ [.page text]) =
        (streamsOf trace).append ⟨[text], [], [], [], []⟩ := streamsOf_append _ _
    rw [hpage]
    simp only [Streams.append, hpages, hdelivered, List.append_nil, List.nil_append]
    exact ⟨⟨htunnelled.passed, htunnelled.upgraded⟩, .page text rfl rfl⟩

theorem streams_of_reach (h : (forwardMachine f).Reach s) : s.phase.Streams (streamsOf s.trace) := by
  refine reach_forward (I := fun phase trace => phase.Streams (streamsOf trace)) ?_
    (fun hturn hI => streams_turn hturn hI) h
  obtain hstart | hstart := start_phase f
  · rw [hstart]
    exact rfl
  · rw [hstart]
    exact streams_answer rfl _

/-- **The relay** of a forwarded request is the machine of `relayMachine`. -/
theorem relay_of_reach (h : (forwardMachine f).Reach s) {again : Bool} (hphase : s.phase = .relay again r) :
    relayMachine.Reach r ∧ receivedOf s.trace = r.received ∧ deliveredOf s.trace = r.delivered := by
  have hs := streams_of_reach h
  rw [hphase] at hs
  exact ⟨hs.reach, hs.received, hs.delivered⟩

/-- **The client gets one answer**: an error page and nothing from the upstream, or no error page; and the
result tells which. -/
theorem answered_once (h : (forwardMachine f).Reach s) :
    (pagesOf s.trace = [] ∨ ∃ text, pagesOf s.trace = [text] ∧ deliveredOf s.trace = []) ∧
      ∀ result, s.phase = .returned result → (result = 0 ∧ pagesOf s.trace = []) ∨
        (result = -1 ∧ ∃ text, pagesOf s.trace = [text] ∧ deliveredOf s.trace = []) := by
  have hs := streams_of_reach h
  cases hphase : s.phase with
  | returned result =>
    rw [hphase] at hs
    cases hs.2 with
    | page text hpages hdelivered =>
      refine ⟨.inr ⟨text, hpages, hdelivered⟩, fun result hresult => .inr ?_⟩
      cases hresult
      exact ⟨rfl, text, hpages, hdelivered⟩
    | relayed hpages =>
      refine ⟨.inl hpages, fun result hresult => .inl ?_⟩
      cases hresult
      exact ⟨rfl, hpages⟩
  | relay again r | answer text =>
    rw [hphase] at hs
    exact ⟨.inl hs.1, fun result hresult => nomatch hresult⟩
  | pipe again r chunk m =>
    rw [hphase] at hs
    exact ⟨.inl hs.1.pages, fun result hresult => nomatch hresult⟩
  | _ =>
    rw [hphase] at hs
    exact ⟨.inl (congrArg Streams.pages hs), fun result hresult => nomatch hresult⟩

/-- One answer behind a retry. -/
theorem answered_once_retry : ∃ s : ForwardState, s.trace.length = 15 ∧
    (pagesOf s.trace = [] ∨ ∃ text, pagesOf s.trace = [text] ∧ deliveredOf s.trace = []) := by
  obtain ⟨s, hs, -, hlength⟩ := reach_brokenOnce
  exact ⟨s, hlength, (answered_once hs).1⟩

/-- **The tunnel** passes on what it reads from the client, from the beginning and without a gap, and it reads
nothing unless the upstream has switched protocols. -/
theorem tunnel_gapless (h : (forwardMachine f).Reach s) :
    passedOn s.trace <+: fromClient s.trace ∧
      (∀ again r, s.phase = .relay again r → passedOn s.trace = fromClient s.trace) ∧
        (fromClient s.trace ≠ [] → switchingProtocols <+: receivedOf s.trace) := by
  have hs := streams_of_reach h
  have htunnelled : (streamsOf s.trace).Tunnelled := by
    cases hphase : s.phase with
    | returned result =>
      rw [hphase] at hs
      exact hs.1
    | relay again r =>
      rw [hphase] at hs
      exact hs.tunnelled
    | answer text =>
      rw [hphase] at hs
      exact hs.2.2
    | pipe again r chunk m =>
      rw [hphase] at hs
      exact hs.1.tunnelled
    | _ =>
      rw [hphase] at hs
      exact (streams_answer hs []).2.2
  refine ⟨htunnelled.passed, fun again r hphase => ?_, htunnelled.upgraded⟩
  rw [hphase] at hs
  exact (List.append_nil _).symm.trans hs.passed

/-- An upgrade, and four bytes from the client, of which the upstream takes three. -/
def upgraded : List ForwardAct :=
  [.call true, .call true, .call true, .send 64, .call true, .call true,
    .relay (.recv (some (ascii "HTTP/1.1 101 Switching Protocols\r\n\r\n"))), .relay (.write 36),
    .clientRecv (some (ascii "abcd")), .send 3, .send (-1)]

/-- What was passed on when the tunnel broke. -/
theorem tunnel_gapless_upgraded : ∃ s : ForwardState, fromClient s.trace = ascii "abcd" ∧
    passedOn s.trace <+: fromClient s.trace := by
  obtain ⟨s, hs, hread⟩ := Option.map_eq_some_iff.1
    (show ((forwardMachine plainRequest).runUnder (fun _ _ => True) plainRequest.start upgraded).map
      (fun s => fromClient s.trace) = some (ascii "abcd") by decide +kernel)
  exact ⟨s, hread, (tunnel_gapless (Machine.reachUnder_of_runUnder (.start rfl) hs)).1⟩

end Proxy
end Arws

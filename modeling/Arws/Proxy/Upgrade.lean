import Arws.Proxy.StreamProxy
import Arws.Server.HeaderLines

/-!
# Asking for an upgrade

A client asks for a WebSocket with a `Connection` field that names the token `Upgrade` and an `Upgrade`
field, and an upstream that agrees answers 101, upon which `arws_stream_proxy_forward` relays in both
directions.  `arws_build_http_request` writes `Connection: close` in the place of every `Connection`
field, so the request that is forwarded does not ask for it.

* `value_of_connection` — every `Connection` field that is forwarded is `close`.
* `Entered.begins` — the relay in both directions is entered only behind a 101.
* `upgrade_not_passed` — no handshake is forwarded as one, and with an upstream that answers 101 to
  handshakes alone the relay in both directions is never entered.
-/

set_option autoImplicit false

namespace Arws
namespace Proxy

open CString Server

/-! ## Handshakes -/

/-- The members of a list that is written with commas. -/
def tokens (value : Bytes) : List Bytes := (value.splitOn 44).map Http.trim

/-- A `Connection` field names the token `Upgrade`. -/
def NamesUpgrade (fields : List HttpHeader) : Prop :=
  ∃ h ∈ fields, strcaseeq h.name (ascii "Connection") = true ∧
    ∃ t ∈ tokens h.value, strcaseeq t (ascii "Upgrade") = true

/-- An `Upgrade` field names the protocol. -/
def NamesWebsocket (fields : List HttpHeader) : Prop :=
  ∃ h ∈ fields, strcaseeq h.name (ascii "Upgrade") = true ∧
    strcaseeq (Http.trim h.value) (ascii "websocket") = true

/-- The fields of a WebSocket handshake. -/
def IsHandshake (fields : List HttpHeader) : Prop := NamesUpgrade fields ∧ NamesWebsocket fields

instance (fields : List HttpHeader) : Decidable (NamesUpgrade fields) :=
  inferInstanceAs (Decidable (∃ h ∈ fields, _))

instance (fields : List HttpHeader) : Decidable (NamesWebsocket fields) :=
  inferInstanceAs (Decidable (∃ h ∈ fields, _))

instance (fields : List HttpHeader) : Decidable (IsHandshake fields) :=
  inferInstanceAs (Decidable (_ ∧ _))

/-- An upstream answers 101 to handshakes, and to nothing else. -/
def AnswersHandshakes (answer : Bytes → Bytes) : Prop :=
  ∀ m, switchingProtocols <+: answer m ↔ IsHandshake (fieldsOf (messageLines m))

/-- The relay in both directions was entered and not yet left. -/
def Entered (s : RelayState) : Prop :=
  s.phase = .loop .websocket ∨ ∃ chunk ws, s.phase = .write .websocket chunk ws

/-! ## The fields that are forwarded -/

variable {s : ReadState} {env : ParseEnv} {fullPath : Bytes} {req : HttpRequest}
  {clientIp head body : Bytes} {bufsize : Nat}

/-- **Every `Connection` field that is forwarded is `close`.** -/
theorem value_of_connection (hwritten : Written req) {h : HttpHeader}
    (hmem : h ∈ sentFields clientIp req) (hname : strcaseeq h.name (ascii "Connection") = true) :
    h.value = ascii "close" := by
  rw [sentFields_eq hwritten, List.mem_append, List.mem_map, List.mem_cons] at hmem
  obtain ⟨x, -, rfl⟩ | rfl | hmem := hmem
  · rw [copied] at hname ⊢
    split_ifs at hname ⊢ with hconn
    · rfl
    · rw [isConnection, hname, Bool.true_or] at hconn
      exact absurd rfl hconn
  · have hfor : ¬ strcaseeq (ascii "X-Forwarded-For") (ascii "Connection") = true := by rw [ascii_eq rfl]; decide
    exact absurd hname hfor
  · split_ifs at hmem
    · exact absurd hmem List.not_mem_nil
    · rw [List.mem_singleton.1 hmem]

/-- What is forwarded does not name the token. -/
theorem not_namesUpgrade (hwritten : Written req) : ¬ NamesUpgrade (sentFields clientIp req) := by
  rintro ⟨h, hmem, hname, t, ht, hupgrade⟩
  have hclose : ∀ t ∈ tokens (ascii "close"), ¬ strcaseeq t (ascii "Upgrade") = true := by
    decide +kernel
  rw [value_of_connection hwritten hmem hname] at ht
  exact hclose t ht hupgrade

/-! ## The relay -/

variable {t : RelayState}

/-- **The relay in both directions** is entered only behind a 101. -/
theorem Entered.begins (hr : relayMachine.Reach t) (h : Entered t) : switchingProtocols <+: t.received := by
  have hbegins := begins_of_reach hr
  obtain hphase | ⟨chunk, ws, hphase⟩ := h
  · rw [RelayState.Begins, hphase] at hbegins
    exact hbegins
  · rw [RelayState.Begins, hphase] at hbegins
    exact hbegins

/-! ## The handshake on its way -/

/-- **No handshake is forwarded as one**: the token is gone from the `Connection` fields, whatever the
client sent, an upstream that answers 101 to handshakes alone does not, and the relay of its answer
never comes to the loop in both directions. -/
theorem upgrade_not_passed {trusted : List TrustedNet} {behindCf : Bool} {addr : UInt32}
    (h : readMachine.Reach s) (hreq : parseRequest env s = .request fullPath req)
    (hbuild : arwsBuildHttpRequest (resolvedIp trusted behindCf req (inetNtop addr)) req bufsize =
      .ok (head, body)) :
    ¬ NamesUpgrade (fieldsOf (messageLines (head ++ body))) ∧
      ∀ answer, AnswersHandshakes answer → ¬ switchingProtocols <+: answer (head ++ body) ∧
        ∀ t, relayMachine.Reach t → t.received <+: answer (head ++ body) → ¬ Entered t := by
  have hwritten := written_of_parseRequest h hreq
  have hnot : ¬ NamesUpgrade (fieldsOf (messageLines (head ++ body))) := by
    rw [fieldsOf_messageLines hwritten le_of_mem_resolvedIp hbuild]
    exact not_namesUpgrade hwritten
  have hrefused : ∀ answer, AnswersHandshakes answer → ¬ switchingProtocols <+: answer (head ++ body) :=
    fun answer hanswer hbegins => hnot ((hanswer _).1 hbegins).1
  refine ⟨hnot, fun answer hanswer => ⟨hrefused answer hanswer, fun t ht hreceived hentered => ?_⟩⟩
  exact hrefused answer hanswer ((hentered.begins ht).trans hreceived)

/-- An upstream that agrees to handshakes. -/
def agrees (m : Bytes) : Bytes :=
  if IsHandshake (fieldsOf (messageLines m)) then switchingProtocols ++ ascii "Switching Protocols" ++ crlfcrlf
  else ascii "HTTP/1.1 400 Bad Request" ++ crlfcrlf

theorem answersHandshakes_agrees : AnswersHandshakes agrees := by
  intro m
  have hbad : ¬ switchingProtocols <+: ascii "HTTP/1.1 400 Bad Request" ++ crlfcrlf := by rw [ascii_eq rfl]; decide
  rw [agrees]
  split_ifs with hshake
  · exact iff_of_true ((List.prefix_append _ _).trans (List.prefix_append _ _)) hshake
  · exact iff_of_false hbad hshake

/-- The request comes with one read. -/
private def handshakeRead : Turn :=
  ⟨none, some (ascii "GET / HTTP/1.1\r\nHost: a\r\nConnection: keep-alive, Upgrade\r\n" ++
    ascii "Upgrade: websocket\r\n\r\n"), true, 0⟩

private def handshakeFields : List HttpHeader :=
  [⟨ascii "Host", ascii "a"⟩, ⟨ascii "Connection", ascii "keep-alive, Upgrade"⟩,
    ⟨ascii "Upgrade", ascii "websocket"⟩]

private def handshakeSent : Bytes :=
  ascii "GET / HTTP/1.1\r\nHost: a\r\nConnection: close\r\nUpgrade: websocket\r\n" ++
    ascii "X-Forwarded-For: 9.9.9.9\r\n\r\n"

private theorem reach_handshakeRead : readMachine.Reach (readTurn .start handshakeRead) := by
  refine .next (.start rfl) trivial (if_pos ⟨rfl, ?_⟩)
  rw [handshakeRead]
  repeat rw [ascii_eq rfl]
  decide +kernel

private theorem parseRequest_handshakeRead :
    parseRequest ⟨true, true⟩ (readTurn .start handshakeRead) = .request (ascii "/")
      ⟨ascii "GET", ascii "/", none, [], handshakeFields, ascii "a", [], 0⟩ := by
  rw [handshakeRead, handshakeFields]
  repeat rw [ascii_eq rfl]
  decide +kernel

private theorem build_handshakeRead :
    arwsBuildHttpRequest (resolvedIp [] false
      ⟨ascii "GET", ascii "/", none, [], handshakeFields, ascii "a", [], 0⟩ (inetNtop 0x09090909))
      ⟨ascii "GET", ascii "/", none, [], handshakeFields, ascii "a", [], 0⟩ 65536 =
        .ok (handshakeSent, []) := by
  rw [handshakeFields, handshakeSent]
  repeat rw [ascii_eq rfl]
  decide +kernel

/-- The handshake of a browser, with an upstream that agrees to handshakes. -/
theorem upgrade_not_passed_browser : ∃ s req head body, readMachine.Reach s ∧
    parseRequest ⟨true, true⟩ s = .request (ascii "/") req ∧ IsHandshake (fieldsOf (headerLines s)) ∧
      arwsBuildHttpRequest (resolvedIp [] false req (inetNtop 0x09090909)) req 65536 =
        .ok (head, body) ∧
      ¬ NamesUpgrade (fieldsOf (messageLines (head ++ body))) ∧
        ∀ t, relayMachine.Reach t → t.received <+: agrees (head ++ body) → ¬ Entered t := by
  obtain ⟨hnot, hall⟩ := upgrade_not_passed reach_handshakeRead parseRequest_handshakeRead
    build_handshakeRead
  exact ⟨_, _, _, _, reach_handshakeRead, parseRequest_handshakeRead, by decide +kernel,
    build_handshakeRead, hnot, (hall agrees answersHandshakes_agrees).2⟩

/-- **The handshake is not forwarded**: its `Connection` field is closed. -/
theorem not_upgrade_passed : ¬ ∀ s env fullPath req trusted behindCf addr head body bufsize,
    readMachine.Reach s → parseRequest env s = .request fullPath req →
      arwsBuildHttpRequest (resolvedIp trusted behindCf req (inetNtop addr)) req bufsize =
        .ok (head, body) →
      IsHandshake (fieldsOf (headerLines s)) → IsHandshake (fieldsOf (messageLines (head ++ body))) := by
  intro h
  have hpassed := h _ _ _ _ _ _ _ _ _ _ reach_handshakeRead parseRequest_handshakeRead
    build_handshakeRead (by decide +kernel)
  revert hpassed
  decide +kernel

end Proxy
end Arws

import Arws.Library.HttpMessage
import Arws.Library.Transition

/-!
# Relaying a response

Once the request has been sent, `arws_stream_proxy_forward` reads from the upstream until it has the
header block, writes all it has read to the client, and then relays in one of three loops: in both
directions after a 101, up to the declared length, or until the upstream closes.

What `recv` and `server_conn_write` return are the actions of the machine; a timeout of `select` ends
a loop like the end of the stream does.

* `Gapless` — what the client got is the beginning of what the upstream sent.
* `gapless_of_unbroken` — so it is in the runs in which no write succeeds after one that fell short and
  did not end the relay.
* `not_gapless` — a failed write until the upstream closes is followed by further ones.
-/

set_option autoImplicit false

namespace Arws
namespace Proxy

open CString

/-- `ARWS_STREAM_BUF_SIZE`. -/
def arwsStreamBufSize : Nat := 65536

/-! ## The header block -/

/-- The lines `parse_response_headers` comes to: each goes up to a CR, and the byte behind it is
skipped. -/
def crLines : Bytes → List Bytes
  | [] => []
  | [c] => if c == cr then [[]] else []
  | c :: d :: s =>
    if c == cr then [] :: crLines s
    else match crLines (d :: s) with
      | line :: lines => (c :: line) :: lines
      | [] => []

structure ResponseHeaders where
  isWebsocket : Bool
  isChunked : Bool
  contentLength : Int
  deriving DecidableEq

/-- A turn of the loop of `parse_response_headers`. -/
def ResponseHeaders.readLine (h : ResponseHeaders) (line : Bytes) : ResponseHeaders :=
  match strchr 58 line with
  | none => h
  | some i =>
    let val := (line.drop (i + 1)).dropWhile (· == 32)
    if strcaseeq (line.take i) (ascii "Content-Length") then
      { h with contentLength := atoi (val.take 31) }
    else if strcaseeq (line.take i) (ascii "Transfer-Encoding") then
      if strcaseeq (val.take 7) (ascii "chunked") then { h with isChunked := true } else h
    else h

/-- `parse_response_headers`. -/
def parseResponseHeaders (hdr : Bytes) : ResponseHeaders :=
  ((crLines hdr).takeWhile fun line => !line.isEmpty).foldl ResponseHeaders.readLine
    ⟨(ascii "HTTP/1.1 101 ").isPrefixOf hdr, false, -1⟩

theorem isWebsocket_readLine (h : ResponseHeaders) (line : Bytes) :
    (h.readLine line).isWebsocket = h.isWebsocket := by
  rw [ResponseHeaders.readLine]
  split
  · rfl
  · simp only
    split_ifs <;> rfl

/-- The first line alone says whether it is a WebSocket. -/
theorem isWebsocket_parseResponseHeaders (hdr : Bytes) :
    (parseResponseHeaders hdr).isWebsocket = (ascii "HTTP/1.1 101 ").isPrefixOf hdr := by
  rw [parseResponseHeaders]
  generalize (crLines hdr).takeWhile (fun line => !line.isEmpty) = lines
  have hfold : ∀ h : ResponseHeaders,
      (lines.foldl ResponseHeaders.readLine h).isWebsocket = h.isWebsocket := by
    induction lines with
    | nil => exact fun h => rfl
    | cons line lines ih => exact fun h => (ih _).trans (isWebsocket_readLine h line)
  exact hfold _

/-- The search for the header end behind a `recv`, from three bytes before what is new. -/
def searchHeaderEnd (buf : Bytes) (newly : Nat) : Option Nat :=
  (strstr crlfcrlf (buf.drop (newly - 3))).map (· + (newly - 3) + 4)

/-! ## The relay -/

inductive RelayMode
  | websocket
  | sized (contentLength bodyDone : Int)
  | untilClose
  deriving DecidableEq

inductive RelayPhase
  /-- The header block is read into the buffer. -/
  | head (buf : Bytes)
  /-- There is none, and the client is sent a 502. -/
  | refused
  /-- What was read is about to be written. -/
  | first (buf : Bytes) (headerEnd : Nat)
  | loop (mode : RelayMode)
  /-- `ws` bytes of a chunk are written. -/
  | write (mode : RelayMode) (chunk : Bytes) (ws : Nat)
  | done
  deriving DecidableEq

structure RelayState where
  phase : RelayPhase
  /-- What the upstream sent and `recv` returned. -/
  received : Bytes
  /-- What `server_conn_write` took of it. -/
  delivered : Bytes
  /-- A write fell short, and the rest of what it was to write is given up. -/
  lost : Bool
  deriving DecidableEq

/-- The head of the loop of a mode. -/
def RelayMode.top : RelayMode → RelayPhase
  | sized contentLength bodyDone =>
    if bodyDone < contentLength then .loop (sized contentLength bodyDone) else .done
  | mode => .loop mode

/-- The mode for a response of which the header block and `body` more bytes were read. -/
def RelayMode.ofHeaders (h : ResponseHeaders) (body : Nat) : RelayMode :=
  if h.isWebsocket then websocket
  else if 0 ≤ h.contentLength then sized h.contentLength body
  else untilClose

/-- How much of what was read is to be written. -/
def RelayMode.toWrite : RelayMode → Bytes → Bytes
  | sized contentLength bodyDone, data => data.take (contentLength - bodyDone).toNat
  | _, data => data

/-- The mode behind a chunk. -/
def RelayMode.advance : RelayMode → Nat → RelayMode
  | sized contentLength bodyDone, n => sized contentLength (bodyDone + n)
  | mode, _ => mode

/-- A write failed: two of the loops are left. -/
def RelayMode.failed : RelayMode → RelayPhase
  | untilClose => .loop untilClose
  | _ => .done

/-- What `recv` returns, `none` for an error, a timeout or the end of the stream. -/
def RelayState.recv (s : RelayState) : Option Bytes → RelayState
  | none =>
    match s.phase with
    | .head _ => { s with phase := .refused }
    | .loop _ => { s with phase := .done }
    | _ => s
  | some data =>
    match s.phase with
    | .head buf =>
      let phase := match searchHeaderEnd (buf ++ data) buf.length with
        | some headerEnd => .first (buf ++ data) headerEnd
        | none =>
          if (buf ++ data).length < arwsStreamBufSize then .head (buf ++ data) else .refused
      { s with phase := phase, received := s.received ++ data }
    | .loop mode =>
      { s with phase := .write mode (mode.toWrite data) 0, received := s.received ++ data }
    | _ => s

/-- What `server_conn_write` returns. -/
def RelayState.write (s : RelayState) (w : Int) : RelayState :=
  match s.phase with
  | .first buf headerEnd =>
    -- the result is not looked at
    { s with
      phase := (RelayMode.ofHeaders (parseResponseHeaders (buf.take headerEnd))
        (buf.length - headerEnd)).top
      delivered := s.delivered ++ buf.take w.toNat
      lost := s.lost || decide (w < buf.length) }
  | .write mode chunk ws =>
    if w ≤ 0 then { s with phase := mode.failed, lost := true }
    else
      { s with
        phase := if ws + w.toNat < chunk.length then .write mode chunk (ws + w.toNat)
          else (mode.advance chunk.length).top
        delivered := s.delivered ++ (chunk.drop ws).take w.toNat }
  | _ => s

/-- What there is room for, if `recv` is called next. -/
def RelayState.room (s : RelayState) : Nat :=
  match s.phase with
  | .head buf => arwsStreamBufSize - buf.length
  | .loop _ => arwsStreamBufSize
  | _ => 0

/-- How much is to be written, if `server_conn_write` is called next. -/
def RelayState.asked (s : RelayState) : Nat :=
  match s.phase with
  | .first buf _ => buf.length
  | .write _ chunk ws => chunk.length - ws
  | _ => 0

inductive RelayAct
  | recv (data : Option Bytes)
  | write (w : Int)
  /-- `pipe_data` passes on what the client sends, and returns whether it could. -/
  | pipe (ok : Bool)

def relayStep (s : RelayState) : RelayAct → Option RelayState
  | .recv data =>
    if 0 < s.room ∧ ∀ d ∈ data, d ≠ [] ∧ d.length ≤ s.room then some (s.recv data) else none
  | .write w => if 0 < s.asked ∧ w ≤ s.asked then some (s.write w) else none
  | .pipe ok =>
    if s.phase = .loop .websocket then some (if ok then s else { s with phase := .done }) else none

def RelayState.start : RelayState := ⟨.head [], [], [], false⟩

/-- `arws_stream_proxy_forward`, from the moment the request has been sent. -/
def relayMachine : Machine RelayState RelayAct where
  init s := s = .start
  step := relayStep

/-- **What the relay is for**: the client gets the beginning of what the upstream sent. -/
def Gapless (s : RelayState) : Prop := s.delivered <+: s.received

/-- No write succeeds once something is given up. -/
def Unbroken (s : RelayState) : RelayAct → Prop
  | .write w => s.lost = true → w ≤ 0
  | _ => True

/-! ## What the relay keeps -/

variable {s t : RelayState}

/-- Nothing is given up: what was received is delivered, or about to be, or behind the end. -/
def RelayState.Whole (s : RelayState) : Prop :=
  match s.phase with
  | .head buf => s.delivered ++ buf = s.received
  | .first buf _ => s.delivered ++ buf = s.received
  | .loop _ => s.delivered = s.received
  | .write mode chunk ws => ∃ rest, s.delivered ++ (chunk.drop ws ++ rest) = s.received ∧
      (rest = [] ∨ (mode.advance chunk.length).top = .done)
  | .refused => s.delivered <+: s.received
  | .done => s.delivered <+: s.received

theorem RelayState.Whole.gapless (h : s.Whole) : Gapless s := by
  rw [Whole] at h
  split at h
  · exact ⟨_, h⟩
  · exact ⟨_, h⟩
  · exact ⟨[], by rw [List.append_nil, h]⟩
  · obtain ⟨rest, hrest, -⟩ := h
    exact ⟨_, hrest⟩
  · exact h
  · exact h

/-- The loop of a mode is entered or not, with everything delivered. -/
theorem RelayState.whole_top {mode : RelayMode} {received delivered : Bytes} {lost : Bool}
    (h : delivered = received ∨ mode.top = .done ∧ delivered <+: received) :
    RelayState.Whole ⟨mode.top, received, delivered, lost⟩ := by
  obtain h | ⟨hdone, h⟩ := h
  · cases mode with
    | sized contentLength bodyDone =>
      rw [RelayMode.top]
      split_ifs
      · exact h
      · exact h.symm ▸ List.prefix_rfl
    | _ => exact h
  · rw [hdone]
    exact h

/-- What a mode does not write of a chunk is behind the end of the response. -/
theorem toWrite_eq (mode : RelayMode) (data : Bytes) :
    ∃ rest, mode.toWrite data ++ rest = data ∧
      (rest = [] ∨ (mode.advance (mode.toWrite data).length).top = .done) := by
  cases mode with
  | sized contentLength bodyDone =>
    refine ⟨data.drop (contentLength - bodyDone).toNat, List.take_append_drop _ _, ?_⟩
    by_cases hlen : data.length ≤ (contentLength - bodyDone).toNat
    · exact Or.inl (List.drop_eq_nil_of_le hlen)
    · refine Or.inr (if_neg ?_)
      rw [RelayMode.toWrite, List.length_take]
      omega
  | _ => exact ⟨[], List.append_nil _, Or.inl rfl⟩

theorem whole_recv (h : s.Whole) (data : Option Bytes) : (s.recv data).Whole := by
  obtain ⟨phase, received, delivered, lost⟩ := s
  cases data with
  | none =>
    cases phase with
    | head buf => exact (h.gapless :)
    | loop mode => exact (h.gapless :)
    | _ => exact h
  | some data =>
    cases phase with
    | head buf =>
      have hall : delivered ++ (buf ++ data) = received ++ data := by
        rw [← List.append_assoc]
        exact congrArg (· ++ data) h
      simp only [RelayState.recv]
      split
      · exact hall
      · split_ifs
        · exact hall
        · exact ⟨_, hall⟩
    | loop mode =>
      obtain ⟨rest, hrest, hend⟩ := toWrite_eq mode data
      refine ⟨rest, ?_, hend⟩
      rw [List.drop_zero, hrest]
      exact congrArg (· ++ data) h
    | _ => exact h

/-- A write: everything goes on, or something is given up behind what the client has. -/
theorem whole_write (h : s.Whole) {w : Int} (hw : w ≤ s.asked) :
    Gapless (s.write w) ∧ ((s.write w).lost = false → (s.write w).Whole) := by
  obtain ⟨phase, received, delivered, lost⟩ := s
  cases phase with
  | first buf headerEnd =>
    have hall : delivered ++ buf = received := h
    refine ⟨?_, fun hlost => RelayState.whole_top (Or.inl ?_)⟩
    · refine ⟨buf.drop w.toNat, ?_⟩
      rw [← hall]
      simp only [RelayState.write, List.append_assoc, List.take_append_drop]
    · have hfull : w = buf.length := by
        simp only [RelayState.write, Bool.or_eq_false_iff, decide_eq_false_iff_not] at hlost
        simp only [RelayState.asked] at hw
        omega
      rw [hfull, Int.toNat_natCast, List.take_length, hall]
  | write mode chunk ws =>
    obtain ⟨rest, (hrest : delivered ++ (chunk.drop ws ++ rest) = received), hend⟩ := h
    replace hw : w ≤ (chunk.length - ws : Nat) := hw
    simp only [RelayState.write]
    split_ifs with hzero hmore
    · exact ⟨⟨_, hrest⟩, fun hlost => absurd hlost (by decide)⟩
    · have hall : delivered ++ (chunk.drop ws).take w.toNat ++ (chunk.drop (ws + w.toNat) ++ rest) =
          received := by
        rw [← hrest, ← List.drop_drop, List.append_assoc, ← List.append_assoc (List.take _ _),
          List.take_append_drop]
      exact ⟨⟨_, hall⟩, fun _ => ⟨rest, hall, hend⟩⟩
    · have hall : delivered ++ (chunk.drop ws).take w.toNat ++ rest = received := by
        rw [← hrest, List.append_assoc, List.take_of_length_le (by rw [List.length_drop]; omega)]
      refine ⟨⟨_, hall⟩, fun _ => RelayState.whole_top ?_⟩
      obtain rfl | hdone := hend
      · exact Or.inl (by rw [← hall, List.append_nil])
      · exact Or.inr ⟨hdone, _, hall⟩
  | _ => exact ⟨RelayState.Whole.gapless h, fun _ => h⟩

/-- What an action does to the state, where it is possible. -/
theorem relayStep_cases {act : RelayAct} (h : relayStep s act = some t) :
    (∃ data, act = .recv data ∧ t = s.recv data) ∨
      (∃ w, act = .write w ∧ w ≤ s.asked ∧ t = s.write w) ∨
        ∃ ok, act = .pipe ok ∧ t = if ok then s else { s with phase := .done } := by
  cases act with
  | recv data =>
    obtain ⟨-, h⟩ := Option.ite_none_right_eq_some.1 h
    exact Or.inl ⟨data, rfl, (Option.some.inj h).symm⟩
  | write w =>
    obtain ⟨⟨-, hw⟩, h⟩ := Option.ite_none_right_eq_some.1 h
    exact Or.inr (Or.inl ⟨w, rfl, hw, (Option.some.inj h).symm⟩)
  | pipe ok =>
    obtain ⟨-, h⟩ := Option.ite_none_right_eq_some.1 h
    exact Or.inr (Or.inr ⟨ok, rfl, (Option.some.inj h).symm⟩)

theorem whole_step {act : RelayAct} (h : s.Whole) (hs : relayStep s act = some t) :
    Gapless t ∧ (t.lost = false → t.Whole) := by
  obtain ⟨data, -, rfl⟩ | ⟨w, -, hw, rfl⟩ | ⟨ok, -, rfl⟩ := relayStep_cases hs
  · exact ⟨(whole_recv h data).gapless, fun _ => whole_recv h data⟩
  · exact whole_write h hw
  · split_ifs
    · exact ⟨h.gapless, fun _ => h⟩
    · exact ⟨h.gapless, fun _ => h.gapless⟩

/-- What is received and given up only grows, and the client has what it had. -/
structure Broken (s t : RelayState) : Prop where
  lost : s.lost = true → t.lost = true
  delivered : t.delivered = s.delivered
  received : s.received <+: t.received

theorem broken_recv (s : RelayState) (data : Option Bytes) : Broken s (s.recv data) := by
  cases data with
  | none =>
    rw [RelayState.recv]
    split <;> exact ⟨id, rfl, List.prefix_rfl⟩
  | some data =>
    rw [RelayState.recv]
    split
    · exact ⟨id, rfl, List.prefix_append _ _⟩
    · exact ⟨id, rfl, List.prefix_append _ _⟩
    · exact ⟨id, rfl, List.prefix_rfl⟩

theorem broken_write (s : RelayState) {w : Int} (hw : w ≤ 0) : Broken s (s.write w) := by
  rw [RelayState.write]
  split
  · refine ⟨fun hlost => Bool.or_eq_true_iff.2 (Or.inl hlost), ?_, List.prefix_rfl⟩
    simp only [Int.toNat_of_nonpos hw, List.take_zero, List.append_nil]
  · rw [if_pos hw]
    exact ⟨fun _ => rfl, rfl, List.prefix_rfl⟩
  · exact ⟨id, rfl, List.prefix_rfl⟩

/-- Once something is given up, an action without a successful write leaves the client with what it
has. -/
theorem broken_step {act : RelayAct} (hlost : s.lost = true) (hc : Unbroken s act)
    (hs : relayStep s act = some t) : Broken s t := by
  obtain ⟨data, -, rfl⟩ | ⟨w, rfl, -, rfl⟩ | ⟨ok, -, rfl⟩ := relayStep_cases hs
  · exact broken_recv s data
  · exact broken_write s (hc hlost)
  · split_ifs <;> exact ⟨id, rfl, List.prefix_rfl⟩

/-- What every run has, in which nothing is written behind a gap. -/
theorem whole_of_reach (h : relayMachine.ReachUnder Unbroken s) :
    Gapless s ∧ (s.lost = false → s.Whole) := by
  refine h.invariant (I := fun s => Gapless s ∧ (s.lost = false → s.Whole)) ?_ ?_
  · rintro s rfl
    exact ⟨List.prefix_rfl, fun _ => rfl⟩
  · intro s act t ⟨hgap, hwhole⟩ hc hs
    cases hlost : s.lost with
    | false => exact whole_step (hwhole hlost) hs
    | true =>
      have hb : Broken s t := broken_step hlost hc hs
      refine ⟨?_, fun hf => absurd ((hb.lost hlost).symm.trans hf) (by decide)⟩
      rw [Gapless, hb.delivered]
      exact hgap.trans hb.received

/-- **The client gets the beginning of the stream**, as long as nothing is written behind a gap. -/
theorem gapless_of_unbroken {s : RelayState} (h : relayMachine.ReachUnder Unbroken s) :
    Gapless s := (whole_of_reach h).1

instance (s : RelayState) : ∀ act, Decidable (Unbroken s act)
  | .write w => inferInstanceAs (Decidable (s.lost = true → w ≤ 0))
  | .recv _ => isTrue trivial
  | .pipe _ => isTrue trivial

/-- A response without a length, and two pieces of its body. -/
def unsizedRun (results : List Int) : List RelayAct :=
  .recv (some (ascii "HTTP/1.1 200 OK" ++ crlfcrlf)) :: .write 19 ::
    .recv (some (ascii "ab")) :: results.map .write ++ [.recv (some (ascii "cd")), .write 2]

/-- A short count is made up for. -/
theorem gapless_of_short_count : ∃ s : RelayState,
    s.delivered = ascii "HTTP/1.1 200 OK" ++ crlfcrlf ++ ascii "abcd" ∧ Gapless s := by
  obtain ⟨s, hs, hd⟩ : ∃ s, relayMachine.runUnder Unbroken .start (unsizedRun [1, 1]) = some s ∧
      s.delivered = ascii "HTTP/1.1 200 OK" ++ crlfcrlf ++ ascii "abcd" := by
    refine ⟨⟨.loop .untilClose, ascii "HTTP/1.1 200 OK" ++ crlfcrlf ++ ascii "abcd",
      ascii "HTTP/1.1 200 OK" ++ crlfcrlf ++ ascii "abcd", false⟩, ?_, rfl⟩
    rw [unsizedRun]
    repeat rw [ascii_eq rfl]
    decide +kernel
  exact ⟨s, hd, gapless_of_unbroken (Machine.reachUnder_of_runUnder (.start rfl) hs)⟩

/-- **A failed write leaves a gap**: the relay until the upstream closes goes on behind it. -/
theorem not_gapless : ¬ ∀ s, relayMachine.Reach s → Gapless s := by
  intro h
  obtain ⟨s, hs, hgap⟩ : ∃ s, relayMachine.runUnder (fun _ _ => True) .start (unsizedRun [-1]) =
      some s ∧ s.delivered.isPrefixOf s.received = false := by
    refine ⟨⟨.loop .untilClose, ascii "HTTP/1.1 200 OK" ++ crlfcrlf ++ ascii "abcd",
      ascii "HTTP/1.1 200 OK" ++ crlfcrlf ++ ascii "cd", true⟩, ?_, ?_⟩
    · rw [unsizedRun]
      repeat rw [ascii_eq rfl]
      decide +kernel
    · repeat rw [ascii_eq rfl]
      decide +kernel
  have hbegins := List.isPrefixOf_iff_prefix.2 (h s (Machine.reachUnder_of_runUnder (.start rfl) hs))
  exact absurd (hgap.symm.trans hbegins) (by decide)

/-! ## The relay in both directions -/

/-- The status line of an upgrade. -/
def switchingProtocols : Bytes := ascii "HTTP/1.1 101 "

/-- Nothing is delivered before the header block is read, and a tunnel begins with an upgrade. -/
def RelayState.Begins (s : RelayState) : Prop :=
  match s.phase with
  | .head buf | .first buf _ => s.received = buf ∧ s.delivered = []
  | .refused => s.delivered = []
  | .loop .websocket | .write .websocket _ _ => switchingProtocols <+: s.received
  | _ => True

theorem begins_top {mode : RelayMode} {received delivered : Bytes} {lost : Bool}
    (h : mode = .websocket → switchingProtocols <+: received) :
    RelayState.Begins ⟨mode.top, received, delivered, lost⟩ := by
  cases mode with
  | websocket => exact h rfl
  | sized contentLength bodyDone =>
    rw [RelayMode.top]
    split_ifs <;> exact trivial
  | untilClose => exact trivial

theorem begins_recv (h : s.Begins) (data : Option Bytes) : (s.recv data).Begins := by
  obtain ⟨phase, received, delivered, lost⟩ := s
  cases data with
  | none =>
    cases phase with
    | head buf => exact h.2
    | loop mode => exact trivial
    | _ => exact h
  | some data =>
    cases phase with
    | head buf =>
      obtain ⟨hbuf, hnone⟩ := h
      have hall : received ++ data = buf ++ data := congrArg (· ++ data) hbuf
      simp only [RelayState.recv]
      split
      · exact ⟨hall, hnone⟩
      · split_ifs
        · exact ⟨hall, hnone⟩
        · exact hnone
    | loop mode =>
      cases mode with
      | websocket => exact h.trans (List.prefix_append ..)
      | _ => exact trivial
    | _ => exact h

theorem begins_write (h : s.Begins) (w : Int) : (s.write w).Begins := by
  obtain ⟨phase, received, delivered, lost⟩ := s
  cases phase with
  | first buf headerEnd =>
    refine begins_top fun hmode => ?_
    have hbuf : received = buf := h.1
    rw [RelayMode.ofHeaders] at hmode
    split_ifs at hmode with hws
    rw [isWebsocket_parseResponseHeaders, List.isPrefixOf_iff_prefix] at hws
    rw [hbuf]
    exact hws.trans (List.take_prefix ..)
  | write mode chunk ws =>
    have hmode : mode = .websocket → switchingProtocols <+: received := by
      rintro rfl
      exact h
    simp only [RelayState.write]
    split_ifs
    · cases mode <;> exact trivial
    · cases mode with
      | websocket => exact hmode rfl
      | _ => exact trivial
    · refine begins_top fun hadvance => hmode ?_
      cases mode with
      | websocket => rfl
      | _ => cases hadvance
  | _ => exact h

theorem begins_of_reach (h : relayMachine.Reach s) : s.Begins := by
  refine h.invariant (I := RelayState.Begins) ?_ ?_
  · rintro s rfl
    exact ⟨rfl, rfl⟩
  · rintro s act t h - hs
    obtain ⟨data, -, rfl⟩ | ⟨w, -, -, rfl⟩ | ⟨ok, -, rfl⟩ := relayStep_cases hs
    · exact begins_recv h data
    · exact begins_write h w
    · split_ifs
      · exact h
      · exact trivial

end Proxy
end Arws

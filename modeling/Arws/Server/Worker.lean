import Arws.Server.HandleClient

/-!
# A pool worker

A thread of the pool serves one connection after another.  For each it builds a `ClientConnection`
in the same slot of its stack: the mode, the address and the path are written, `response_headers`
and `anon_id` are not, and hold what the slot held.  That is what an earlier connection left, or
whatever the frame was used for in between; at the start it is arbitrary.

So what a connection is sent may depend on those before it.

* `isolated_iff` — two histories of a worker cannot be told apart by any later connection just when
  the strings they leave in the two arrays are the same, and terminated.
* `not_isolated` — after a visitor that was given an identifier, the next connection of the worker
  is sent the `Set-Cookie` header of that visitor, and is logged as that visitor.
-/

set_option autoImplicit false

namespace Arws
namespace Server

open CString

/-- The two arrays in the slot of the stack. -/
structure Slot where
  responseHeaders : CharArray 1024
  anonId : CharArray 65
  deriving DecidableEq

/-- The record that `pool_worker` builds in the slot. -/
def Slot.connection (slot : Slot) (job : Job) : ClientConnection where
  mode := job.mode
  ssl := decide (job.mode = .secure) && job.ssl
  clientIp := job.clientIp.take 63
  currentPath := []
  responseHeaders := slot.responseHeaders
  anonId := slot.anonId

def Slot.session (slot : Slot) (job : Job) : Session := ⟨slot.connection job, [], [], none⟩

/-- The connection gets as far as `handle_client`. -/
def Job.opened (job : Job) : Bool := job.mode == .insecure || job.ssl && job.handshake

/-- A turn of `pool_worker`: a connection is served from the slot. -/
def serve (env : Shared) (job : Job) (slot : Slot) : Option Session :=
  if job.opened then handleClient env job (slot.session job) else some (slot.session job)

/-- What the slot holds when the connection is closed. -/
def Session.slot (s : Session) : Slot := ⟨s.conn.responseHeaders, s.conn.anonId⟩

inductive Event
  /-- A connection is served. -/
  | serve (env : Shared) (job : Job)
  /-- The frame is used for something else. -/
  | overwrite (slot : Slot)

/-- What happens to the slot of a worker. -/
def poolWorker : Machine Slot Event where
  init _ := True
  step
    | slot, .serve env job => (serve env job slot).map (·.slot)
    | _, .overwrite slot => some slot

/-! ## Isolation -/

/-- What the world sees of a connection. -/
structure Outcome where
  sent : List (Wire × Bytes)
  log : List Access
  setCookie : Option Bytes
  deriving DecidableEq

def Session.outcome (s : Session) : Outcome := ⟨s.sent, s.log, s.setCookie⟩

/-- The same comes of the connection in both slots. -/
def SameOutcome (env : Shared) (job : Job) (slot₁ slot₂ : Slot) : Prop :=
  ∃ o, (serve env job slot₁).map Session.outcome = some o ∧
    (serve env job slot₂).map Session.outcome = some o

/-- Nothing else is read out of bounds while the connection is served. -/
def Slot.InBounds (env : Shared) (job : Job) (slot : Slot) : Prop :=
  job.opened = true → Server.InBounds env job (slot.session job)

/-- The same strings are in both slots. -/
def Slot.Alike (slot₁ slot₂ : Slot) : Prop :=
  slot₁.responseHeaders.Alike slot₂.responseHeaders ∧ slot₁.anonId.Alike slot₂.anonId

/-- What went on in a worker: what the slot held when it started, and what happened since. -/
structure History where
  start : Slot
  events : List Event

/-- The slot after the history, if everything in it was defined. -/
def History.slot (h : History) : Option Slot :=
  poolWorker.runUnder (fun _ _ => True) h.start h.events

/-- **What a worker is meant to keep**: no later connection can tell the histories apart. -/
def Isolated (h₁ h₂ : History) : Prop :=
  ∀ slot₁ ∈ h₁.slot, ∀ slot₂ ∈ h₂.slot, ∀ env job, slot₁.InBounds env job →
    SameOutcome env job slot₁ slot₂

/-- The histories leave the same strings in the slot. -/
def LeaveAlike (h₁ h₂ : History) : Prop :=
  ∀ slot₁ ∈ h₁.slot, ∀ slot₂ ∈ h₂.slot, slot₁.Alike slot₂

theorem Slot.Alike.agree {slot₁ slot₂ : Slot} (h : slot₁.Alike slot₂) (job : Job) :
    (slot₁.session job).Agree (slot₂.session job) :=
  ⟨⟨rfl, rfl, rfl, rfl, h.1, h.2⟩, rfl, rfl, rfl⟩

theorem Session.Agree.outcome {s t : Session} (h : s.Agree t) : s.outcome = t.outcome := by
  rw [Session.outcome, Session.outcome, h.sent, h.log, h.setCookie]

/-- From slots that are alike, a connection is served alike, if it is served at all. -/
theorem sameOutcome_iff_inBounds {slot₁ slot₂ : Slot} (h : slot₁.Alike slot₂) (env : Shared)
    (job : Job) : SameOutcome env job slot₁ slot₂ ↔ slot₁.InBounds env job := by
  constructor
  · rintro ⟨o, ho, -⟩ hopened
    by_contra hout
    rw [serve, if_pos hopened, handleClient_eq_none hout] at ho
    cases ho
  · intro hin
    rw [SameOutcome, serve, serve]
    by_cases hopened : job.opened = true
    · obtain ⟨s, t, hs, ht, hst⟩ := handleClient_related (h.agree job) (hin hopened)
      rw [if_pos hopened, if_pos hopened, hs, ht]
      exact ⟨s.outcome, rfl, congrArg some hst.outcome.symm⟩
    · rw [if_neg hopened, if_neg hopened]
      exact ⟨_, rfl, rfl⟩

/-! ## The connection that tells two slots apart -/

/-- A buffer that one read filled with a whole header block. -/
private def received (text : String) : ReadState := readTurn .start (.whole text)

/-- A client without TLS whose request comes in one read. -/
private def client (ip : String) (state : ReadState) (reached : readMachine.Reach state)
    (left : state.phase ≠ .reading) : Job where
  mode := .insecure
  clientIp := ascii ip
  ssl := false
  handshake := false
  buffer := true
  received := ⟨state, reached, left⟩
  parse := ⟨true, true⟩

/-- Everything is logged, nobody handles requests, and random bytes are all the same. -/
private def serving (random : UInt8) : Shared where
  logger := true
  written _ := 1
  received _ := none
  file _ := none
  fileSent _ _ := 0
  trustedProxies := []
  behindCf := false
  random := some (Vector.replicate 16 random)
  ratelimitCheck _ _ _ := true
  apiHandler := none

/-- An empty header block, which is answered 400. -/
private def emptyRequest : Job :=
  client "192.0.2.1" (received "\r\n\r\n")
    (.next (.start rfl) trivial (if_pos ⟨rfl, by decide +kernel⟩)) (by decide +kernel)

private theorem emptyRequest_arrival :
    emptyRequest.arrival = .refused 400 (ascii "Bad Request") := by
  decide +kernel

/-- The answer to the empty request carries the headers of the slot, and is logged for its
identifier. -/
private theorem emptyRequest_outcome {slot : Slot} {o : Outcome}
    (h : (serve (serving 0) emptyRequest slot).map Session.outcome = some o) :
    ∃ headers anonId, slot.responseHeaders.string? = some headers ∧
      slot.anonId.string? = some anonId ∧
      o = ⟨[(.socket, (responseText 400 (ascii "text/plain") 11 headers).take 2047),
          (.socket, ascii "Bad Request")],
        [⟨ascii "192.0.2.1", [], 400, anonId⟩], none⟩ := by
  obtain ⟨s, hs, rfl⟩ := Option.map_eq_some_iff.1 h
  rw [serve, if_pos (by decide), handleClient, emptyRequest_arrival] at hs
  simp only [runIn_answerWith] at hs
  obtain ⟨headers, anonId, hheaders, hanon, rfl⟩ := serverSendResponse_eq_some rfl hs
  have hlen : toInt (ascii "Bad Request").length = 11 := by decide +kernel
  have htake : (ascii "Bad Request").take (11 : Int).toNat = ascii "Bad Request" := by
    decide +kernel
  refine ⟨headers, anonId, hheaders, hanon, ?_⟩
  rw [hlen, htake]
  rfl

/-- The header block of that answer is not cut, so it shows the headers it was made with. -/
private theorem responseText_inj {headers headers' : Bytes} (hlt : headers.length < 1024)
    (hlt' : headers'.length < 1024)
    (h : (responseText 400 (ascii "text/plain") 11 headers).take 2047 =
      (responseText 400 (ascii "text/plain") 11 headers').take 2047) : headers = headers' := by
  have hlen (t : Bytes) : (responseText 400 (ascii "text/plain") 11 t).length =
      (responseText 400 (ascii "text/plain") 11 []).length + t.length := by
    simp only [responseText, List.length_append, List.length_nil]
    omega
  have hnil : (responseText 400 (ascii "text/plain") 11 []).length ≤ 1000 := by decide +kernel
  rw [List.take_of_length_le (by rw [hlen]; omega),
    List.take_of_length_le (by rw [hlen]; omega)] at h
  simpa only [responseText, List.append_cancel_left_eq, List.append_cancel_right_eq] using h

/-- Slots that no connection tells apart are alike. -/
theorem alike_of_sameOutcome {slot₁ slot₂ : Slot}
    (h : ∀ env job, slot₁.InBounds env job → SameOutcome env job slot₁ slot₂) :
    slot₁.Alike slot₂ := by
  have hin : slot₁.InBounds (serving 0) emptyRequest := fun _ =>
    inBounds_of_no_handler rfl (by rw [emptyRequest_arrival]; nofun) _
  obtain ⟨o, h₁, h₂⟩ := h _ _ hin
  obtain ⟨headers, anonId, hheaders, hanon, ho⟩ := emptyRequest_outcome h₁
  obtain ⟨headers', anonId', hheaders', hanon', ho'⟩ := emptyRequest_outcome h₂
  have hsame := ho.symm.trans ho'
  simp only [Outcome.mk.injEq, List.cons.injEq, Prod.mk.injEq, Access.mk.injEq, and_true,
    true_and] at hsame
  obtain ⟨htext, rfl⟩ := hsame
  obtain rfl := responseText_inj (CharArray.length_lt_of_string? hheaders)
    (CharArray.length_lt_of_string? hheaders') htext
  exact ⟨⟨headers, hheaders, hheaders'⟩, anonId, hanon, hanon'⟩

/-- **No later connection can tell two histories of a worker apart just when they leave the same
terminated strings in `response_headers` and `anon_id`**; and then every connection is served the
same, as long as nothing else is read out of bounds. -/
theorem isolated_iff (h₁ h₂ : History) :
    (Isolated h₁ h₂ ↔ LeaveAlike h₁ h₂) ∧
      (LeaveAlike h₁ h₂ → ∀ slot₁ ∈ h₁.slot, ∀ slot₂ ∈ h₂.slot, ∀ env job,
        SameOutcome env job slot₁ slot₂ ↔ slot₁.InBounds env job) := by
  refine ⟨⟨fun h slot₁ hs₁ slot₂ hs₂ => ?_, fun h slot₁ hs₁ slot₂ hs₂ env job => ?_⟩,
    fun h slot₁ hs₁ slot₂ hs₂ env job => ?_⟩
  · exact alike_of_sameOutcome (h slot₁ hs₁ slot₂ hs₂)
  · exact (sameOutcome_iff_inBounds (h slot₁ hs₁ slot₂ hs₂) env job).2
  · exact sameOutcome_iff_inBounds (h slot₁ hs₁ slot₂ hs₂) env job

/-! ## A visitor before -/

/-- A slot with both strings empty. -/
private def cleared : Slot := ⟨.ofString 1023 [], .ofString 64 []⟩

/-- A visitor without a cookie. -/
private def visitor (ip : String) : Job :=
  client ip (received "GET / HTTP/1.1\r\n\r\n")
    (.next (.start rfl) trivial (if_pos ⟨rfl, by decide +kernel⟩)) (by decide +kernel)

/-- A worker that has served nobody. -/
private def unused : History := ⟨cleared, []⟩

/-- The same worker after a visitor who was given an identifier. -/
private def visited : History := ⟨cleared, [.serve (serving 0xA5) (visitor "198.51.100.7")]⟩

/-- What comes of the next visitor. -/
private def nextVisitor (h : History) : Option Outcome :=
  h.slot.bind fun slot =>
    (serve (serving 0x5C) (visitor "192.0.2.1") slot).map Session.outcome

/-- The identifier made of the random bytes of the next visitor. -/
private def id5C : Bytes := ascii "5c5c5c5c5c5c5c5c5c5c5c5c5c5c5c5c"

private theorem setCookie_unused : (nextVisitor unused).map Outcome.setCookie = some (some id5C) := by
  decide +kernel

private theorem setCookie_visited : (nextVisitor visited).map Outcome.setCookie = some none := by
  decide +kernel

/-- **The next visitor is taken for the one before**: the same request of the same client is given an
identifier by a worker that served nobody, and none by one that served somebody. -/
theorem not_isolated : ¬ Isolated unused visited := by
  intro h
  have hvisited := setCookie_visited
  obtain ⟨o', ho', hnone⟩ := Option.map_eq_some_iff.1 hvisited
  obtain ⟨slot, hslot, hserve⟩ := Option.bind_eq_some_iff.1 ho'
  have hin : cleared.InBounds (serving 0x5C) (visitor "192.0.2.1") := fun _ =>
    inBounds_of_no_handler rfl (by decide +kernel) _
  obtain ⟨o, ho, hsame⟩ := h cleared rfl slot hslot _ _ hin
  have hunused : nextVisitor unused = some o := ho
  have hcookie := setCookie_unused
  rw [hserve, Option.some.injEq] at hsame
  rw [hunused, ← hsame, Option.map_some, hnone] at hcookie
  exact absurd hcookie (by simp)

end Server
end Arws

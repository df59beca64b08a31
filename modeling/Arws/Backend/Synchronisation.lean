import Arws.Backend.Response

/-!
# Staying in step with a backend

A backend answers every request on one socket, so each dispatch has to read its response to the last
byte and not further: a byte too few or too many shifts all responses after it.

The model has the bytes of the socket that are unread, and the responses the backend sent.

* `Synchronised` — what the reads returned are the responses, one each and in order, and between two
  dispatches the next unread byte is the first of the next response.
* `synchronised_of_framed` — so it is when each response fits the buffer and each `recv` ends where
  the loop can tell how far the response is.
* `not_synchronised_of_early` — a `recv` in the middle of a response that leaves the loop with
  no length to wait for ends the synchronisation.
-/

set_option autoImplicit false

namespace Arws
namespace Backend

open CString

structure SyncState where
  /-- The responses of the backend, in order. -/
  sent : List Bytes
  /-- What is unread on the socket. -/
  unread : Bytes
  /-- The loop of `read_http_response`, with what its buffer held before. -/
  reader : Option (Bytes × RecvState)
  /-- What `arws_backend_read_response` returned with a positive length. -/
  returned : List Bytes
  deriving DecidableEq

inductive SyncAct
  /-- `arws_dispatch` sends a request, which the backend answers with `r`, and begins to read into a
  buffer that holds `buf`. -/
  | dispatch (r : Http.Response) (buf : Bytes)
  /-- `recv` returns the next bytes, or fails. -/
  | recv (data : Option Bytes)
  /-- The loop is over and the read returns. -/
  | finish

/-- The socket after a `recv`. -/
def takeUnread (unread : Bytes) : Option Bytes → Bytes
  | none => unread
  | some data => unread.drop data.length

def syncStep (maxlen : Nat) (s : SyncState) : SyncAct → Option SyncState
  | .dispatch r buf =>
    match s.reader with
    | none => some { s with
        sent := s.sent ++ [r.bytes]
        unread := s.unread ++ r.bytes
        reader := some (buf, .start maxlen) }
    | some _ => none
  | .recv data =>
    match s.reader with
    | some (buf, r) =>
      if r.waiting = true ∧ Receivable maxlen r data ∧ ∀ d ∈ data, d <+: s.unread then
        some { s with
          unread := takeUnread s.unread data, reader := some (buf, recvTurn maxlen buf r data) }
      else none
    | none => none
  | .finish =>
    match s.reader with
    | some (_, r) =>
      if r.waiting = true then none
      else some { s with
        reader := none
        returned := if 0 < r.bytes.length then s.returned ++ [r.bytes] else s.returned }
    | none => none

def SyncState.start : SyncState := ⟨[], [], none, []⟩

/-- The dispatches to one backend. -/
def syncMachine (maxlen : Nat) : Machine SyncState SyncAct where
  init s := s = .start
  step := syncStep maxlen

/-- **In step**: the reads returned the first so many responses, and between two dispatches what is
unread is the responses after them. -/
def Synchronised (s : SyncState) : Prop :=
  ∃ k, s.returned = s.sent.take k ∧ (s.reader = none → s.unread = (s.sent.drop k).flatten)

/-- A `recv` the loop can make sense of, where `due` is the response that it reads: it delivers
nothing behind the response; if it completes the header block it ends with it; and behind the header
block the loop recognises a length that is not reached as long as the response is not complete. -/
structure FramedRecv (buf : Bytes) (r : RecvState) (due data : Bytes) : Prop where
  within : (r.bytes ++ data).length ≤ due.length
  boundary : ∀ h ∈ Http.headerEnd (r.bytes ++ data), Http.headerEnd r.bytes = none →
    (r.bytes ++ data).length = h
  incomplete : r.bytes ++ data ≠ due → ∀ h ∈ Http.headerEnd (r.bytes ++ data),
    ∃ n ∈ recognisedLength (memory buf (r.bytes ++ data)) h, ((r.bytes ++ data).length : Int) < h + n
  complete : r.bytes ++ data = due → ∀ h ∈ Http.headerEnd (r.bytes ++ data),
    ∀ n ∈ recognisedLength (memory buf (r.bytes ++ data)) h, (h : Int) + n ≤ (r.bytes ++ data).length

/-- The response that is to be returned next. -/
def SyncState.due (s : SyncState) : Option Bytes := s.sent[s.returned.length]?

/-- Responses fit the buffer, each `recv` is one the loop can make sense of, and `recv` fails only
before the first byte of a response. -/
def Framed (maxlen : Nat) (s : SyncState) : SyncAct → Prop
  | .dispatch r _ => r.bytes.length ≤ maxlen
  | .recv (some data) => ∀ p ∈ s.reader, ∀ due ∈ s.due, FramedRecv p.1 p.2 due data
  | .recv none => ∀ p ∈ s.reader, p.2.bytes = []
  | .finish => True

/-! ## One response -/

/-- The loop is at a point of the response `due` that it knows. -/
structure Reading (maxlen : Nat) (due : Bytes) (r : RecvState) : Prop where
  isPrefix : r.bytes <+: due
  headerEnd : r.headerEnd = Http.headerEnd r.bytes
  fits : due.length ≤ maxlen
  unfinished : r.waiting = true → r.bytes ≠ due
  finished : r.waiting = false → r.bytes = due ∨ r.bytes = []

theorem waiting_recvTurn_of_none {maxlen : Nat} {buf data : Bytes} {r : RecvState}
    (h : (recvTurn maxlen buf r (some data)).headerEnd = none) :
    (recvTurn maxlen buf r (some data)).waiting = decide ((r.bytes ++ data).length < maxlen) := by
  change r.headerEnd.or (searchHeaderEnd (r.bytes ++ data)) = none at h
  simp [recvTurn, h]

/-- **A `recv` that makes sense** leads to another point of the response. -/
theorem Reading.recv {maxlen : Nat} {buf due data : Bytes} {r : RecvState}
    (h : Reading maxlen due r) (hpre : r.bytes ++ data <+: due)
    (hdue : ∃ n, Http.headerEnd due = some n) (hf : FramedRecv buf r due data) :
    Reading maxlen due (recvTurn maxlen buf r (some data)) := by
  have hbytes : (recvTurn maxlen buf r (some data)).bytes = r.bytes ++ data := rfl
  have hheader := (headerEnd_recvTurn_iff maxlen buf data h.headerEnd).2 hf.boundary
  have hlt : r.bytes ++ data ≠ due → (r.bytes ++ data).length < maxlen := fun hne =>
    Nat.lt_of_lt_of_le
      (Nat.lt_of_le_of_ne hpre.length_le fun heq => hne (hpre.eq_of_length heq)) h.fits
  refine ⟨hpre, hheader, h.fits, ?_, ?_⟩
  · rw [hbytes]
    rintro hw heq
    obtain ⟨n, hn⟩ := hdue
    have hn' : (recvTurn maxlen buf r (some data)).headerEnd = some n := by rw [hheader, heq, hn]
    rw [(waiting_recvTurn_iff hn').2 fun _ => hf.complete heq n (by rw [heq, hn]; rfl)] at hw
    cases hw
  · rw [hbytes]
    intro hw
    by_contra hne
    rw [not_or] at hne
    cases hh : Http.headerEnd (r.bytes ++ data) with
    | none =>
      rw [waiting_recvTurn_of_none (hheader.trans hh), decide_eq_true (hlt hne.1)] at hw
      cases hw
    | some n =>
      obtain ⟨len, hlen, hgt⟩ := hf.incomplete hne.1 n hh
      have := (waiting_recvTurn_iff (hheader.trans hh)).1 hw (hlt hne.1) len hlen
      omega

theorem Reading.start {maxlen h : Nat} {due : Bytes} (hfits : due.length ≤ maxlen)
    (hdue : Http.headerEnd due = some h) : Reading maxlen due (.start maxlen) where
  isPrefix := List.nil_prefix
  headerEnd := rfl
  fits := hfits
  unfinished _ heq := by
    rw [← show ([] : Bytes) = due from heq] at hdue
    cases hdue
  finished _ := Or.inr rfl

/-! ## All dispatches -/

/-- The invariant: after `k` responses, the bytes read so far and the unread bytes are the responses
from the next one on. -/
structure InStep (maxlen : Nat) (s : SyncState) : Prop where
  headers : ∀ m ∈ s.sent, (∃ h, Http.headerEnd m = some h) ∧ m.length ≤ maxlen
  returned : s.returned = s.sent.take s.returned.length
  between : s.reader = none → s.unread = (s.sent.drop s.returned.length).flatten
  reading : ∀ p ∈ s.reader, ∃ due rest, s.sent.drop s.returned.length = due :: rest ∧
    Reading maxlen due p.2 ∧ p.2.bytes ++ s.unread = due ++ rest.flatten

theorem InStep.synchronised {maxlen : Nat} {s : SyncState} (h : InStep maxlen s) :
    Synchronised s :=
  ⟨s.returned.length, h.returned, h.between⟩

theorem InStep.start (maxlen : Nat) : InStep maxlen .start where
  headers _ h := nomatch h
  returned := rfl
  between _ := rfl
  reading _ h := nomatch h

variable {maxlen : Nat} {s t : SyncState}

theorem InStep.length_le (h : InStep maxlen s) : s.returned.length ≤ s.sent.length := by
  have := congrArg List.length h.returned
  rw [List.length_take] at this
  omega

theorem InStep.dispatch (h : InStep maxlen s) {r : Http.Response} {buf : Bytes}
    (hfits : r.bytes.length ≤ maxlen) (hs : syncStep maxlen s (.dispatch r buf) = some t) :
    InStep maxlen t := by
  rw [syncStep] at hs
  split at hs
  · rename_i hreader
    cases hs
    obtain ⟨e, he, -⟩ := r.exists_headerEnd
    have hunread := h.between hreader
    have hle := h.length_le
    refine ⟨?_, ?_, nofun, ?_⟩
    · intro m hm
      rcases List.mem_append.1 hm with hm | hm
      · exact h.headers m hm
      · rw [List.mem_singleton.1 hm]
        exact ⟨⟨e, he⟩, hfits⟩
    · simp only
      rw [List.take_append_of_le_length hle]
      exact h.returned
    · rintro _ ⟨⟩
      simp only
      rw [List.drop_append_of_le_length hle]
      cases hdrop : s.sent.drop s.returned.length with
      | nil =>
        refine ⟨r.bytes, [], rfl, .start hfits he, ?_⟩
        rw [hunread, hdrop]
        simp [RecvState.start]
      | cons due rest =>
        obtain ⟨⟨e', he'⟩, hfits'⟩ := h.headers due
          (List.mem_of_mem_drop (hdrop ▸ List.mem_cons_self))
        refine ⟨due, rest ++ [r.bytes], rfl, .start hfits' he', ?_⟩
        rw [hunread, hdrop]
        simp [RecvState.start]
  · cases hs

theorem due_eq_of_drop {due : Bytes} {rest : List Bytes}
    (h : s.sent.drop s.returned.length = due :: rest) : s.due = some due := by
  rw [SyncState.due, ← List.head?_drop, h]
  rfl

theorem InStep.recv (h : InStep maxlen s) {data : Option Bytes}
    (hc : Framed maxlen s (.recv data)) (hs : syncStep maxlen s (.recv data) = some t) :
    InStep maxlen t := by
  rw [syncStep] at hs
  split at hs
  · rename_i buf r hreader
    split at hs
    · rename_i hpossible
      obtain ⟨-, -, hnext⟩ := hpossible
      cases hs
      obtain ⟨due, rest, hdrop, hreading, hbytes⟩ := h.reading _ hreader
      refine ⟨h.headers, h.returned, nofun, ?_⟩
      rintro _ ⟨⟩
      refine ⟨due, rest, hdrop, ?_⟩
      cases data with
      | none =>
        have hempty : r.bytes = [] := hc _ hreader
        exact ⟨⟨hreading.isPrefix, hreading.headerEnd, hreading.fits, nofun,
          fun _ => Or.inr hempty⟩, hbytes⟩
      | some d =>
        have hframed : FramedRecv buf r due d := hc _ hreader due (due_eq_of_drop hdrop)
        obtain ⟨u, hu⟩ := hnext d rfl
        have hall : r.bytes ++ d ++ u = due ++ rest.flatten := by
          rw [List.append_assoc, hu]
          exact hbytes
        have hpre : r.bytes ++ d <+: due :=
          List.prefix_of_prefix_length_le ⟨u, hall⟩ (List.prefix_append _ _) hframed.within
        have hdue := (h.headers due (List.mem_of_mem_drop (hdrop ▸ List.mem_cons_self))).1
        refine ⟨hreading.recv hpre hdue hframed, ?_⟩
        simp only [takeUnread]
        rw [← hu, List.drop_left]
        exact hall
    · cases hs
  · cases hs

theorem InStep.finish (h : InStep maxlen s) (hs : syncStep maxlen s .finish = some t) :
    InStep maxlen t := by
  rw [syncStep] at hs
  split at hs
  · rename_i buf r hreader
    split at hs
    · cases hs
    · rename_i hwaiting
      cases hs
      obtain ⟨due, rest, hdrop, hreading, hbytes⟩ := h.reading _ hreader
      have hmem : due ∈ s.sent := List.mem_of_mem_drop (hdrop ▸ List.mem_cons_self)
      rcases hreading.finished (Bool.eq_false_iff.2 hwaiting) with hall | hnone
      · -- the whole response was read
        obtain ⟨⟨e, he⟩, -⟩ := h.headers due hmem
        have hpos : 0 < due.length := Nat.lt_of_lt_of_le (Http.headerEnd_pos he) (Http.headerEnd_le he)
        have hreturned : (if 0 < r.bytes.length then s.returned ++ [r.bytes] else s.returned) =
            s.returned ++ [due] := by
          rw [show r.bytes = due from hall, if_pos hpos]
        have hunread : s.unread = rest.flatten := by
          rw [hall] at hbytes
          exact List.append_cancel_left hbytes
        refine ⟨h.headers, ?_, fun _ => ?_, nofun⟩
        · simp only [hreturned, List.length_append, List.length_singleton]
          rw [List.take_add_one, show s.sent[s.returned.length]? = some due from due_eq_of_drop hdrop,
            ← h.returned]
          rfl
        · simp only [hreturned, List.length_append, List.length_singleton]
          rw [← List.drop_drop, hdrop]
          exact hunread
      · -- nothing was read
        have hreturned : (if 0 < r.bytes.length then s.returned ++ [r.bytes] else s.returned) =
            s.returned := by
          rw [show r.bytes = [] from hnone]
          rfl
        rw [hnone] at hbytes
        refine ⟨h.headers, ?_, fun _ => ?_, nofun⟩
        · simp only [hreturned]
          exact h.returned
        · simp only [hreturned, hdrop]
          exact hbytes
  · cases hs

/-- **The reads stay in step with the responses** in every run in which the responses fit the buffer
and every `recv` is one the loop can make sense of. -/
theorem synchronised_of_framed {s : SyncState}
    (h : (syncMachine maxlen).ReachUnder (Framed maxlen) s) : Synchronised s := by
  refine (h.invariant (I := InStep maxlen) ?_ ?_).synchronised
  · rintro s rfl
    exact .start maxlen
  · intro s act t hi hc hs
    cases act with
    | dispatch r buf => exact hi.dispatch hc hs
    | recv data => exact hi.recv hc hs
    | finish => exact hi.finish hs

instance (buf : Bytes) (r : RecvState) (due data : Bytes) : Decidable (FramedRecv buf r due data) :=
  decidable_of_iff
    ((r.bytes ++ data).length ≤ due.length ∧
      (∀ h ∈ Http.headerEnd (r.bytes ++ data), Http.headerEnd r.bytes = none →
        (r.bytes ++ data).length = h) ∧
      (r.bytes ++ data ≠ due → ∀ h ∈ Http.headerEnd (r.bytes ++ data),
        ∃ n ∈ recognisedLength (memory buf (r.bytes ++ data)) h,
          ((r.bytes ++ data).length : Int) < h + n) ∧
      (r.bytes ++ data = due → ∀ h ∈ Http.headerEnd (r.bytes ++ data),
        ∀ n ∈ recognisedLength (memory buf (r.bytes ++ data)) h,
          (h : Int) + n ≤ (r.bytes ++ data).length))
    ⟨fun h => ⟨h.1, h.2.1, h.2.2.1, h.2.2.2⟩,
      fun h => ⟨h.within, h.boundary, h.incomplete, h.complete⟩⟩

instance (maxlen : Nat) : ∀ (s : SyncState) (act : SyncAct), Decidable (Framed maxlen s act)
  | _, .dispatch r _ => inferInstanceAs (Decidable (r.bytes.length ≤ maxlen))
  | s, .recv (some data) =>
    inferInstanceAs (Decidable (∀ p ∈ s.reader, ∀ due ∈ s.due, FramedRecv p.1 p.2 due data))
  | s, .recv none => inferInstanceAs (Decidable (∀ p ∈ s.reader, p.2.bytes = []))
  | _, .finish => isTrue trivial

private def lengthHead : Bytes := ascii "HTTP/1.1 200 OK\r\nContent-Length: 2\r\n\r\n"

private def lengthResponse : Http.Response := ⟨lengthHead ++ ascii "ok", Or.inl (by decide +kernel)⟩

/-- A response with a length, read in two pieces. -/
theorem synchronised_two_recvs :
    ∃ s, (syncMachine 65536).runUnder (Framed 65536) .start
        [.dispatch lengthResponse [], .recv (some lengthHead), .recv (some (ascii "ok")), .finish] =
          some s ∧
      s.returned = [lengthHead ++ ascii "ok"] ∧ Synchronised s := by
  have hrun : (syncMachine 65536).runUnder (Framed 65536) .start
      [.dispatch lengthResponse [], .recv (some lengthHead), .recv (some (ascii "ok")), .finish] =
        some ⟨[lengthHead ++ ascii "ok"], [], none, [lengthHead ++ ascii "ok"]⟩ := by decide +kernel
  exact ⟨_, hrun, rfl, synchronised_of_framed (Machine.reachUnder_of_runUnder (.start rfl) hrun)⟩

/-! ## Responses that are cut -/

/-- Results that are no prefix of the responses are out of step. -/
theorem not_synchronised_of_returned {m due : Bytes} (hret : t.returned = s.returned ++ [m])
    (hsent : t.sent = s.sent) (hdue : s.due = some due) (hne : m ≠ due) : ¬ Synchronised t := by
  rintro ⟨k, hk, -⟩
  rw [hret, hsent] at hk
  have hlen := congrArg List.length hk
  rw [List.length_append, List.length_singleton, List.length_take] at hlen
  have hget := congrArg (·[s.returned.length]?) hk
  simp only [List.getElem?_concat_length] at hget
  rw [List.getElem?_take_of_lt (by omega), show s.sent[s.returned.length]? = some due from hdue]
    at hget
  exact hne (Option.some.inj hget)

/-- **A response without a length to wait for is cut**: if the header end is known and no recognised
length is beyond what was received, the loop is over, and what it returns is not the response. -/
theorem not_synchronised_of_early {buf data due : Bytes} {r : RecvState} {e : Nat} {u : SyncState}
    (hreader : s.reader = some (buf, r)) (hdue : s.due = some due)
    (he : (recvTurn maxlen buf r (some data)).headerEnd = some e)
    (hlen : ∀ n ∈ recognisedLength (memory buf (r.bytes ++ data)) e,
      (e : Int) + n ≤ (r.bytes ++ data).length)
    (hne : r.bytes ++ data ≠ due) (hs : syncStep maxlen s (.recv (some data)) = some u) :
    ∃ t, syncStep maxlen u .finish = some t ∧ ¬ Synchronised t := by
  simp only [syncStep, hreader, Option.ite_none_right_eq_some, Option.some_inj] at hs
  obtain ⟨⟨-, hrecv, -⟩, rfl⟩ := hs
  have hwait : (recvTurn maxlen buf r (some data)).waiting = false :=
    (waiting_recvTurn_iff he).2 fun _ => hlen
  have hpos : 0 < (recvTurn maxlen buf r (some data)).bytes.length := by
    change 0 < (r.bytes ++ data).length
    have := (hrecv data rfl).1
    rw [List.length_append]
    omega
  simp only [syncStep, hwait, Bool.false_eq_true, if_false, if_pos hpos]
  exact ⟨_, rfl, not_synchronised_of_returned rfl rfl hdue hne⟩

private def chunkedHead : Bytes := ascii "HTTP/1.1 200 OK\r\nTransfer-Encoding: chunked\r\n\r\n"

private def chunkedBody : Bytes := ascii "2\r\nhi\r\n0\r\n\r\n"

private theorem chunked_chunkedBody : Http.Chunked chunkedBody := by
  have hlast : Http.Chunked (ascii "0" ++ crlf ++ ([] : List Bytes).flatMap (· ++ crlf) ++ crlf) :=
    .last (by decide) nofun
  have hsize : Http.hexadecimal (ascii "2") = some (ascii "hi").length := by decide
  exact .chunk hsize (by decide) hlast

private def chunkedResponse : Http.Response :=
  ⟨chunkedHead ++ chunkedBody, Or.inr ⟨47, by decide +kernel,
    ⟨ascii "chunked", by decide +kernel, by decide⟩, chunked_chunkedBody⟩⟩

/-- **A chunked response is returned without its body**, which the next read then begins with. -/
theorem not_synchronised : ¬ ∀ s, (syncMachine 65536).Reach s → Synchronised s := by
  intro h
  have hrun : (syncMachine 65536).runUnder (fun _ _ => True) .start
      [.dispatch chunkedResponse [], .recv (some chunkedHead), .finish] =
        some ⟨[chunkedHead ++ chunkedBody], chunkedBody, none, [chunkedHead]⟩ := by decide +kernel
  obtain ⟨k, hk, -⟩ := h _ (Machine.reachUnder_of_runUnder (.start rfl) hrun)
  cases k with
  | zero => cases hk
  | succ k =>
    rw [List.take_succ_cons] at hk
    exact absurd (List.cons.inj hk).1 (by decide +kernel)

end Backend
end Arws

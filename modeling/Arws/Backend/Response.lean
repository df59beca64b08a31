import Arws.Library.Transition
import Arws.Library.HttpMessage

/-!
# Reading a response

`read_http_response` reads the response of a backend and `arws_proxy_forward` that of an upstream,
with the same loop: after each `recv` they look for the end of the header block, and once they have
it they stop when the body is as long as a `Content-Length` field says, or at once if they see no
such field.  The search looks at the last four bytes received and at no others.

* `Exact` — what the loop takes to be the header end is the header end, and a complete response is
  returned without a further `recv`.
* `exact_of_clean` — so it is when the `recv` that completes the header block ends with it, and no
  length is recognised in it that exceeds the one it declares.
* `exact_recvTurn_iff` — both are needed, at each `recv`.
-/

set_option autoImplicit false

namespace Arws
namespace Backend

open CString

structure RecvState where
  /-- What was received: the first `total` bytes of the buffer. -/
  bytes : Bytes
  /-- `header_end`, `none` for `-1`. -/
  headerEnd : Option Nat
  /-- The loop goes on to a further `recv`. -/
  waiting : Bool
  deriving DecidableEq

/-- The loop that looks for the header end, from `total - 4` on. -/
def searchHeaderEnd (bytes : Bytes) : Option Nat :=
  let total := bytes.length
  let first := if total > 4 then total - 4 else 0
  ((List.range' first (total - 3 - first)).find? fun i => crlfcrlf.isPrefixOf (bytes.drop i)).map
    (· + 4)

/-- The buffer, which `buf` was the content of before: what was not overwritten is still there. -/
def memory (buf bytes : Bytes) : Bytes := bytes ++ buf.drop bytes.length

/-- The first of three spellings that is found anywhere in the buffer, as an offset. -/
def contentLengthField (text : Bytes) : Option Nat :=
  (strstr (ascii "Content-Length: ") text).or
    ((strstr (ascii "content-length: ") text).or (strstr (ascii "Content-length: ") text))

/-- The length that is taken from a field before the header end. -/
def recognisedLength (mem : Bytes) (headerEnd : Nat) : Option Int :=
  (contentLengthField (cstr mem)).bind fun cl =>
    if cl < headerEnd then some (atoi ((cstr mem).drop (cl + 16))) else none

/-- The test on the body, once the header end is known. -/
def bodyComplete (buf bytes : Bytes) (headerEnd : Nat) : Bool :=
  match recognisedLength (memory buf bytes) headerEnd with
  | some contentLength => decide ((bytes.length : Int) - headerEnd ≥ contentLength)
  | none => true

/-- One turn of the loop, for what `recv` returns: `none` for an error or the end of the stream. -/
def recvTurn (maxlen : Nat) (buf : Bytes) (s : RecvState) : Option Bytes → RecvState
  | none => { s with waiting := false }
  | some data =>
    let bytes := s.bytes ++ data
    let headerEnd := s.headerEnd.or (searchHeaderEnd bytes)
    ⟨bytes, headerEnd,
      !headerEnd.any (bodyComplete buf bytes) && decide (bytes.length < maxlen)⟩

def RecvState.start (maxlen : Nat) : RecvState := ⟨[], none, decide (0 < maxlen)⟩

/-- `recv` returns at least a byte and no more than there is room for. -/
def Receivable (maxlen : Nat) (s : RecvState) (recv : Option Bytes) : Prop :=
  ∀ data ∈ recv, 0 < data.length ∧ s.bytes.length + data.length ≤ maxlen

instance (maxlen : Nat) (s : RecvState) (recv : Option Bytes) :
    Decidable (Receivable maxlen s recv) :=
  inferInstanceAs (Decidable (∀ data ∈ recv,
    0 < data.length ∧ s.bytes.length + data.length ≤ maxlen))

/-- The loop of `read_http_response`. -/
def readHttpResponse (maxlen : Nat) (buf : Bytes) : Machine RecvState (Option Bytes) where
  init s := s = .start maxlen
  step s recv :=
    if s.waiting = true ∧ Receivable maxlen s recv then some (recvTurn maxlen buf s recv) else none

/-- The loop of `arws_proxy_forward`, which waits for the socket with `select` first. -/
def arwsProxyForward (maxlen : Nat) (buf : Bytes) : Machine RecvState (Bool × Option Bytes) where
  init s := s = .start maxlen
  step s := fun (ready, recv) =>
    if s.waiting = true ∧ Receivable maxlen s recv then
      some (if ready then recvTurn maxlen buf s recv else { s with waiting := false })
    else none

theorem step_readHttpResponse {maxlen : Nat} {buf : Bytes} {s : RecvState} {recv : Option Bytes}
    (hs : s.waiting = true) (hfits : Receivable maxlen s recv) :
    (readHttpResponse maxlen buf).step s recv = some (recvTurn maxlen buf s recv) := by
  simp only [readHttpResponse]
  exact if_pos ⟨hs, hfits⟩

theorem step_arwsProxyForward {maxlen : Nat} {buf : Bytes} {s : RecvState} {recv : Option Bytes}
    (hs : s.waiting = true) (hfits : Receivable maxlen s recv) :
    (arwsProxyForward maxlen buf).step s (true, recv) = some (recvTurn maxlen buf s recv) := by
  simp only [arwsProxyForward]
  exact if_pos ⟨hs, hfits⟩

/-! ## The header end -/

/-- **What the loop is meant to know**: the header end as soon as it has it, and that a response
with a length is complete. -/
structure Exact (s : RecvState) : Prop where
  headerEnd : s.headerEnd = Http.headerEnd s.bytes
  complete : Http.LengthFramed s.bytes → s.waiting = false

/-- The `recv` that completes the header block ends with it; and when a response is complete, no
length is recognised in it that exceeds the one it declares. -/
structure Clean (maxlen : Nat) (buf : Bytes) (s : RecvState) (recv : Option Bytes) : Prop where
  boundary : ∀ data ∈ recv, ∀ h ∈ Http.headerEnd (s.bytes ++ data),
    Http.headerEnd s.bytes = none → (s.bytes ++ data).length = h
  length : ∀ data ∈ recv, Http.LengthFramed (s.bytes ++ data) →
    (s.bytes ++ data).length < maxlen → ∀ h ∈ Http.headerEnd (s.bytes ++ data),
      ∀ n ∈ recognisedLength (memory buf (s.bytes ++ data)) h,
        (h : Int) + n ≤ (s.bytes ++ data).length

theorem isPrefixOf_drop_iff_suffix {bytes : Bytes} (h : 4 ≤ bytes.length) :
    crlfcrlf.isPrefixOf (bytes.drop (bytes.length - 4)) = true ↔ crlfcrlf <:+ bytes := by
  rw [List.isPrefixOf_iff_prefix]
  have hlen : (bytes.drop (bytes.length - 4)).length = crlfcrlf.length := by
    rw [List.length_drop, crlfcrlf]
    simp only [List.length_cons, List.length_nil]
    omega
  constructor
  · intro hp
    rw [hp.eq_of_length hlen.symm]
    exact List.drop_suffix _ _
  · intro hs
    rw [List.suffix_iff_eq_drop.1 hs]
    exact List.prefix_refl _

/-- **The search sees a header end only at the very end** of what was received. -/
theorem searchHeaderEnd_eq (bytes : Bytes) :
    searchHeaderEnd bytes = if crlfcrlf <:+ bytes then some bytes.length else none := by
  by_cases hlen : 4 ≤ bytes.length
  · have hrange : List.range' (if bytes.length > 4 then bytes.length - 4 else 0)
        (bytes.length - 3 - if bytes.length > 4 then bytes.length - 4 else 0) =
          [bytes.length - 4] := by
      split
      · rw [show bytes.length - 3 - (bytes.length - 4) = 1 by omega]
        rfl
      · rw [show bytes.length = 4 by omega]
        rfl
    simp only [searchHeaderEnd, hrange, List.find?_cons, List.find?_nil]
    by_cases hs : crlfcrlf <:+ bytes
    · rw [(isPrefixOf_drop_iff_suffix hlen).2 hs, if_pos hs]
      simp only [Option.map_some]
      rw [Nat.sub_add_cancel hlen]
    · rw [Bool.eq_false_iff.2 fun h => hs ((isPrefixOf_drop_iff_suffix hlen).1 h), if_neg hs]
      rfl
  · have hs : ¬ crlfcrlf <:+ bytes := fun hs => hlen hs.length_le
    rw [if_neg hs, searchHeaderEnd]
    simp only [if_neg (show ¬ bytes.length > 4 by omega), show bytes.length - 3 - 0 = 0 by omega]
    rfl

/-- A search at the end of the header block finds it there, and any other search that finds the
header end of the whole is one. -/
theorem searchHeaderEnd_eq_headerEnd_iff (bytes : Bytes) :
    searchHeaderEnd bytes = Http.headerEnd bytes ↔ ∀ h ∈ Http.headerEnd bytes, bytes.length = h := by
  rw [searchHeaderEnd_eq]
  constructor
  · intro he h hh
    rw [hh] at he
    split at he <;> cases he
    rfl
  · intro hall
    cases hh : Http.headerEnd bytes with
    | none =>
      refine if_neg fun hs => ?_
      obtain ⟨n, hn, -⟩ := Http.headerEnd_of_suffix hs
      rw [hh] at hn
      cases hn
    | some h =>
      have hlen := hall h hh
      have hs := Http.suffix_of_headerEnd hh
      rw [← hlen, List.take_length] at hs
      rw [if_pos hs, hlen]

/-- Once the header end is known it is the header end of all that follows. -/
theorem headerEnd_recvTurn_iff (maxlen : Nat) (buf data : Bytes) {s : RecvState}
    (h : s.headerEnd = Http.headerEnd s.bytes) :
    (recvTurn maxlen buf s (some data)).headerEnd = Http.headerEnd (s.bytes ++ data) ↔
      ∀ h ∈ Http.headerEnd (s.bytes ++ data), Http.headerEnd s.bytes = none →
        (s.bytes ++ data).length = h := by
  change s.headerEnd.or (searchHeaderEnd (s.bytes ++ data)) = _ ↔ _
  rw [h]
  cases hs : Http.headerEnd s.bytes with
  | none =>
    rw [Option.none_or, searchHeaderEnd_eq_headerEnd_iff]
    exact ⟨fun hall h hh _ => hall h hh, fun hall h hh => hall h hh rfl⟩
  | some n =>
    rw [Option.some_or, Http.headerEnd_mono (List.prefix_append _ data) hs]
    exact iff_of_true rfl fun _ _ => nofun

/-- The loop goes on behind a known header end as long as a recognised length is not reached. -/
theorem waiting_recvTurn_iff {maxlen h : Nat} {buf data : Bytes} {s : RecvState}
    (hh : (recvTurn maxlen buf s (some data)).headerEnd = some h) :
    (recvTurn maxlen buf s (some data)).waiting = false ↔
      ((s.bytes ++ data).length < maxlen →
        ∀ n ∈ recognisedLength (memory buf (s.bytes ++ data)) h,
          (h : Int) + n ≤ (s.bytes ++ data).length) := by
  have hwait : (recvTurn maxlen buf s (some data)).waiting =
      (!bodyComplete buf (s.bytes ++ data) h && decide ((s.bytes ++ data).length < maxlen)) := by
    change s.headerEnd.or (searchHeaderEnd (s.bytes ++ data)) = some h at hh
    simp only [recvTurn, hh, Option.any_some]
  rw [hwait, bodyComplete]
  cases recognisedLength (memory buf (s.bytes ++ data)) h with
  | none => simp
  | some n =>
    simp only [Bool.and_eq_false_iff, Bool.not_eq_false', decide_eq_true_eq, decide_eq_false_iff_not,
      Option.mem_some_iff, forall_eq']
    omega

/-- **What a turn needs**: from a state where the loop knows what it is meant to know, it knows it
after a turn exactly if the turn is clean. -/
theorem exact_recvTurn_iff {maxlen : Nat} {buf : Bytes} {s : RecvState} {recv : Option Bytes}
    (h : Exact s) : Exact (recvTurn maxlen buf s recv) ↔ Clean maxlen buf s recv := by
  cases recv with
  | none => exact iff_of_true ⟨h.headerEnd, fun _ => rfl⟩ ⟨nofun, nofun⟩
  | some data =>
    have hend := headerEnd_recvTurn_iff maxlen buf data h.headerEnd
    constructor
    · intro ht
      refine ⟨?_, ?_⟩
      · rintro _ ⟨⟩
        exact hend.1 ht.headerEnd
      · rintro _ ⟨⟩ hframed hlt n hn
        exact (waiting_recvTurn_iff (ht.headerEnd.trans hn)).1 (ht.complete hframed) hlt
    · intro hc
      have hheader := hend.2 (hc.boundary data rfl)
      refine ⟨hheader, fun hframed => ?_⟩
      have hlength := hc.length data rfl hframed
      obtain ⟨n, hn, -⟩ := hframed
      exact (waiting_recvTurn_iff (hheader.trans hn)).2 fun hlt => hlength hlt n hn

theorem Exact.start (maxlen : Nat) : Exact (.start maxlen) where
  headerEnd := rfl
  complete := by
    rintro ⟨h, hh, -⟩
    cases hh

/-- **The header end is found exactly, and a complete response is returned at its last byte**, by
both functions, in every run all of whose turns are clean. -/
theorem exact_of_clean (maxlen : Nat) (buf : Bytes) :
    (∀ s, (readHttpResponse maxlen buf).ReachUnder (Clean maxlen buf) s → Exact s) ∧
      ∀ s, (arwsProxyForward maxlen buf).ReachUnder
        (fun s turn => turn.1 = true → Clean maxlen buf s turn.2) s → Exact s := by
  constructor
  · intro s h
    refine h.invariant (I := Exact) ?_ ?_
    · rintro s rfl
      exact .start maxlen
    · rintro s recv t hexact hclean hs
      simp only [readHttpResponse, Option.ite_none_right_eq_some, Option.some_inj] at hs
      obtain ⟨-, rfl⟩ := hs
      exact (exact_recvTurn_iff hexact).2 hclean
  · intro s h
    refine h.invariant (I := Exact) ?_ ?_
    · rintro s rfl
      exact .start maxlen
    · rintro s ⟨ready, recv⟩ t hexact hclean hs
      simp only [arwsProxyForward, Option.ite_none_right_eq_some, Option.some_inj] at hs
      obtain ⟨-, rfl⟩ := hs
      split
      · rename_i hready
        exact (exact_recvTurn_iff hexact).2 (hclean hready)
      · exact ⟨hexact.headerEnd, fun _ => rfl⟩

instance (maxlen : Nat) (buf : Bytes) (s : RecvState) (recv : Option Bytes) :
    Decidable (Clean maxlen buf s recv) :=
  decidable_of_iff
    ((∀ data ∈ recv, ∀ h ∈ Http.headerEnd (s.bytes ++ data),
      Http.headerEnd s.bytes = none → (s.bytes ++ data).length = h) ∧
    ∀ data ∈ recv, Http.LengthFramed (s.bytes ++ data) → (s.bytes ++ data).length < maxlen →
      ∀ h ∈ Http.headerEnd (s.bytes ++ data),
        ∀ n ∈ recognisedLength (memory buf (s.bytes ++ data)) h,
          (h : Int) + n ≤ (s.bytes ++ data).length)
    ⟨fun h => ⟨h.1, h.2⟩, fun h => ⟨h.boundary, h.length⟩⟩

private def okHead : Bytes := ascii "HTTP/1.1 200 OK\r\nContent-Length: 2\r\n\r\n"

/-- A response whose header block and body come in one `recv` each. -/
theorem exact_of_two_recvs :
    ∃ s, (readHttpResponse 65536 []).runUnder (Clean 65536 []) (.start 65536)
        [some okHead, some (ascii "ok")] = some s ∧ s.waiting = false ∧ Exact s := by
  have hrun : (readHttpResponse 65536 []).runUnder (Clean 65536 []) (.start 65536)
      [some okHead, some (ascii "ok")] =
        some ⟨okHead ++ ascii "ok", some 38, false⟩ := by decide +kernel
  exact ⟨_, hrun, rfl,
    (exact_of_clean 65536 []).1 _ (Machine.reachUnder_of_runUnder (.start rfl) hrun)⟩

/-- **One `recv` is too few**: if the header block and the body come together, the header end is not
found, and both functions wait for more. -/
theorem not_exact :
    (¬ ∀ s, (readHttpResponse 65536 []).Reach s → Exact s) ∧
      ¬ ∀ s, (arwsProxyForward 65536 []).Reach s → Exact s := by
  have hmissed : ¬ Exact (recvTurn 65536 [] (.start 65536) (some (okHead ++ ascii "ok"))) :=
    fun h => absurd h.headerEnd (by decide +kernel)
  have hfits : Receivable 65536 (.start 65536) (some (okHead ++ ascii "ok")) := by decide +kernel
  constructor
  · exact fun h => hmissed (h _ (.next (.start rfl) trivial (step_readHttpResponse rfl hfits)))
  · exact fun h => hmissed (h _ (.next (.start rfl) trivial (step_arwsProxyForward rfl hfits)))

end Backend
end Arws

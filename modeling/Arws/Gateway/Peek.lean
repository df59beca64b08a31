import Arws.Backend.Response

/-!
# Frames and responses on one socket

A backend's socket has two readers: `client_handler_loop`, which waits for IPC frames, and a worker in
`arws_backend_read_response`, which waits for an HTTP response.  The handler takes what it sees for a
frame if the first five bytes could be the header of one, and reads it.

* `notEaten_iff` — the handler takes no part of a response for a frame exactly if no five bytes of the
  response, as far as the worker's buffer goes, look like the header of one.
* `notEaten_of_no_zero` — so it is with a response without a zero byte, and frames below 16 MiB.
-/

set_option autoImplicit false

namespace Arws
namespace Gateway

open CString Backend

/-- `frame_len`. -/
def frameLen (b₀ b₁ b₂ b₃ : UInt8) : Nat :=
  b₀.toNat * 2 ^ 24 + b₁.toNat * 2 ^ 16 + b₂.toNat * 2 ^ 8 + b₃.toNat

/-- `peek_is_ipc_frame` on an open socket, for the bytes that have arrived and were not read;
`bufSize` is `AR_IPC_BUF_SIZE`. -/
def peekIsIpcFrame (bufSize : Nat) : Bytes → Int
  | b₀ :: b₁ :: b₂ :: b₃ :: type :: _ =>
    if frameLen b₀ b₁ b₂ b₃ ≤ bufSize ∧ 1 ≤ type ∧ type ≤ 25 then 1 else 0
  | _ => 0

/-- What is received is what the backend has written next. -/
def FromSocket (resp : Bytes) (s : RecvState) (recv : Option Bytes) : Prop :=
  ∀ data ∈ recv, s.bytes ++ data <+: resp

/-- **Nothing of the response is taken for a frame**: before the first read of the worker and after
each one, the last included, and however much of the rest has arrived. -/
def NotEaten (bufSize maxlen : Nat) (buf resp : Bytes) : Prop :=
  ∀ s, (readHttpResponse maxlen buf).ReachUnder (FromSocket resp) s →
    ∀ arrived, arrived <+: resp.drop s.bytes.length → peekIsIpcFrame bufSize arrived ≠ 1

/-- Five bytes that look like the header of a frame. -/
def LooksLikeFrame (bufSize : Nat) (rest : Bytes) : Prop :=
  ∃ b₀ b₁ b₂ b₃ type, [b₀, b₁, b₂, b₃, type] <+: rest ∧ frameLen b₀ b₁ b₂ b₃ ≤ bufSize ∧
    1 ≤ type ∧ type ≤ 25

theorem peekIsIpcFrame_eq_one_iff {bufSize : Nat} {unread : Bytes} :
    peekIsIpcFrame bufSize unread = 1 ↔ LooksLikeFrame bufSize unread := by
  constructor
  · intro h
    unfold peekIsIpcFrame at h
    split at h
    · rename_i b₀ b₁ b₂ b₃ type rest
      split at h
      · rename_i hframe
        exact ⟨b₀, b₁, b₂, b₃, type, ⟨rest, rfl⟩, hframe⟩
      · cases h
    · cases h
  · rintro ⟨b₀, b₁, b₂, b₃, type, ⟨rest, rfl⟩, hframe⟩
    exact if_pos hframe

theorem LooksLikeFrame.mono {bufSize : Nat} {a b : Bytes} (h : LooksLikeFrame bufSize a)
    (hab : a <+: b) : LooksLikeFrame bufSize b := by
  obtain ⟨b₀, b₁, b₂, b₃, type, hp, hframe⟩ := h
  exact ⟨b₀, b₁, b₂, b₃, type, hp.trans hab, hframe⟩

/-- What the worker has read begins the response and fits its buffer. -/
theorem read_of_reach {maxlen : Nat} {buf resp : Bytes} {s : RecvState}
    (h : (readHttpResponse maxlen buf).ReachUnder (FromSocket resp) s) :
    s.bytes <+: resp ∧ s.bytes.length ≤ maxlen := by
  refine h.invariant (I := fun s => s.bytes <+: resp ∧ s.bytes.length ≤ maxlen) ?_ ?_
  · rintro s rfl
    exact ⟨List.nil_prefix, Nat.zero_le _⟩
  · rintro s recv t ⟨hread, hlen⟩ hsocket hs
    simp only [readHttpResponse, Option.ite_none_right_eq_some, Option.some_inj] at hs
    obtain ⟨⟨-, hfits⟩, rfl⟩ := hs
    cases recv with
    | none => exact ⟨hread, hlen⟩
    | some data =>
      refine ⟨hsocket data rfl, ?_⟩
      have := (hfits data rfl).2
      rwa [recvTurn, List.length_append]

/-- The worker may read any first part of a response at once. -/
theorem reach_take {maxlen k : Nat} (buf : Bytes) {resp : Bytes} (hk : k ≤ maxlen)
    (hlen : k ≤ resp.length) :
    ∃ s, (readHttpResponse maxlen buf).ReachUnder (FromSocket resp) s ∧ s.bytes = resp.take k := by
  obtain rfl | hpos := Nat.eq_zero_or_pos k
  · exact ⟨.start maxlen, .start rfl, rfl⟩
  · refine ⟨_, .next (a := some (resp.take k)) (.start rfl) ?_ (step_readHttpResponse ?_ ?_), rfl⟩
    · rintro data ⟨rfl⟩
      exact List.take_prefix _ _
    · exact decide_eq_true (hpos.trans_le hk)
    · rintro data ⟨rfl⟩
      rw [List.length_take_of_le hlen]
      exact ⟨hpos, (Nat.zero_add k).symm ▸ hk⟩

theorem LooksLikeFrame.five_le {bufSize k : Nat} {resp : Bytes}
    (h : LooksLikeFrame bufSize (resp.drop k)) : k + 5 ≤ resp.length := by
  obtain ⟨b₀, b₁, b₂, b₃, type, hp, -⟩ := h
  have hlen := hp.length_le
  rw [List.length_drop] at hlen
  simp only [List.length_cons, List.length_nil] at hlen
  omega

/-- What looks like a frame is taken for one when the worker has read what is before it. -/
theorem not_notEaten_of_looksLikeFrame {bufSize maxlen k : Nat} {buf resp : Bytes} (hk : k ≤ maxlen)
    (h : LooksLikeFrame bufSize (resp.drop k)) : ¬ NotEaten bufSize maxlen buf resp := by
  intro hnot
  have hlen : k ≤ resp.length := (Nat.le_add_right k 5).trans h.five_le
  obtain ⟨s, hs, hbytes⟩ := reach_take buf hk hlen
  refine hnot s hs (resp.drop k) ?_ (peekIsIpcFrame_eq_one_iff.2 h)
  rw [hbytes, List.length_take_of_le hlen]

theorem notEaten_of_not_looksLikeFrame {bufSize maxlen : Nat} {buf resp : Bytes}
    (h : ∀ k ≤ maxlen, ¬ LooksLikeFrame bufSize (resp.drop k)) :
    NotEaten bufSize maxlen buf resp := by
  intro s hs arrived harrived hpeek
  exact h _ (read_of_reach hs).2 ((peekIsIpcFrame_eq_one_iff.1 hpeek).mono harrived)

/-- **The handler takes nothing for a frame exactly if nothing looks like one**, at the offsets that
the worker's reads can end at. -/
theorem notEaten_iff (bufSize maxlen : Nat) (buf : Bytes) (resp : Http.Response) :
    NotEaten bufSize maxlen buf resp.bytes ↔
      ∀ k ≤ maxlen, ¬ LooksLikeFrame bufSize (resp.bytes.drop k) :=
  ⟨fun h _ hk hlooks => not_notEaten_of_looksLikeFrame hk hlooks h, notEaten_of_not_looksLikeFrame⟩

/-- The length of a frame below 16 MiB starts with a zero byte. -/
theorem notEaten_of_no_zero {bufSize : Nat} (hsize : bufSize < 2 ^ 24) (maxlen : Nat) (buf : Bytes)
    {resp : Http.Response} (hzero : (0 : UInt8) ∉ resp.bytes) :
    NotEaten bufSize maxlen buf resp.bytes := by
  apply notEaten_of_not_looksLikeFrame
  rintro k - ⟨b₀, b₁, b₂, b₃, type, hp, hlen, -⟩
  have hb₀ : b₀ ∈ resp.bytes := List.mem_of_mem_drop (hp.subset List.mem_cons_self)
  have hpos : b₀.toNat ≠ 0 := fun h =>
    hzero ((UInt8.toNat_inj.1 (h.trans rfl) : b₀ = 0) ▸ hb₀)
  rw [frameLen] at hlen
  omega

/-- A response whose body is the header of a frame. -/
private def frameResponse : Http.Response :=
  ⟨ascii "HTTP/1.1 200 OK\r\nContent-Length: 5\r\n\r\n" ++ [0, 0, 0, 1, 1], Or.inl (by decide +kernel)⟩

/-- **A body can be taken for a frame**, when the worker has read the header block, whatever the
size of a frame may be. -/
theorem not_notEaten : ¬ ∃ bufSize, 0 < bufSize ∧ ∀ (maxlen : Nat) (buf : Bytes)
    (resp : Http.Response), NotEaten bufSize maxlen buf resp.bytes := by
  rintro ⟨bufSize, hpos, h⟩
  have hlooks : LooksLikeFrame bufSize (frameResponse.bytes.drop 38) :=
    ⟨0, 0, 0, 1, 1, by decide +kernel, hpos, by decide, by decide⟩
  exact not_notEaten_of_looksLikeFrame (by decide) hlooks (h 65536 [] frameResponse)

end Gateway
end Arws

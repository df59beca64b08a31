import Mathlib.Logic.Function.Iterate
import Arws.Gateway.Peek

/-!
# The end of a handler's loop

`client_handler_loop` looks at the bytes of its peer before it reads any.  It leaves the loop when
`peek_is_ipc_frame` sees the end of the stream, which it sees only when no byte is left, or when
`ar_ipc_recv_frame` fails; when the peek sees no header of a frame, the loop sleeps and looks again,
whether more bytes may come or not.

What reads from the socket is outside of the repository: a `FrameReader` tells how many bytes a frame
takes, and how many more `ar_ipc_recv_raw` takes where the frame is a query of an app for itself.

* `EndsAfterClose` — once the peer has closed, the loop is left within finitely many turns.
* `endsAfterClose_iff` — so it is exactly if the bytes sent are frames that the peek accepts, the last
  of which may be cut short.
-/

set_option autoImplicit false

namespace Arws
namespace Gateway

open CString

/-- What the handler reads of the bytes that are there and that still come. -/
structure FrameReader where
  /-- `ar_ipc_recv_frame`: the bytes of the frame, or nothing if the stream ends before it does. -/
  recvFrame : Bytes → Option Nat
  /-- What `ar_ipc_recv_raw` takes while a frame is handled, after so many frames. -/
  recvRaw : Nat → Bytes → Nat
  recvFrame_bounds : ∀ b n, recvFrame b = some n → 0 < n ∧ n ≤ b.length
  recvRaw_le : ∀ k b, recvRaw k b ≤ b.length

structure LoopState where
  /-- What has arrived and was not read. -/
  unread : Bytes
  /-- What the peer has sent and has not arrived. -/
  coming : Bytes
  /-- The end of the stream has arrived. -/
  closed : Bool
  /-- The frames handled. -/
  frames : Nat
  idleRounds : Nat
  /-- The loop was left, and what follows cleans up. -/
  left : Bool
  deriving DecidableEq

/-- The peer has connected, and will send these bytes. -/
def LoopState.start (sent : Bytes) : LoopState := ⟨[], sent, false, 0, 0, false⟩

/-- `peek_is_ipc_frame` on the socket: without a byte and without an end of the stream, `select` finds
nothing to read. -/
def LoopState.peek (bufSize : Nat) (s : LoopState) : Int :=
  if s.unread.isEmpty then if s.closed then -1 else 0 else peekIsIpcFrame bufSize s.unread

/-- Bytes are read, and those are waited for that have not arrived. -/
def LoopState.take (s : LoopState) (n : Nat) : LoopState :=
  { s with unread := s.unread.drop n, coming := s.coming.drop (n - s.unread.length) }

/-- A frame is received and handled. -/
def recvAndHandle (reader : FrameReader) (s : LoopState) : LoopState :=
  let b := s.unread ++ s.coming
  match reader.recvFrame b with
  | none => { s with left := true }
  | some n =>
    { s.take (n + reader.recvRaw s.frames (b.drop n)) with frames := s.frames + 1, idleRounds := 0 }

/-- One turn of the loop, while the gateway runs. -/
def loopTurn (bufSize : Nat) (reader : FrameReader) (s : LoopState) : LoopState :=
  if s.left then s
  else if s.peek bufSize < 0 then { s with left := true }
  else if s.peek bufSize = 0 then { s with idleRounds := s.idleRounds + 1 }
  else recvAndHandle reader s

inductive LoopAct
  /-- So many bytes arrive. -/
  | arrive (n : Nat)
  /-- The end of the stream arrives. -/
  | close
  | turn

def loopStep (bufSize : Nat) (reader : FrameReader) (s : LoopState) : LoopAct → Option LoopState
  | .arrive n => if 0 < n ∧ n ≤ s.coming.length then
      some { s with unread := s.unread ++ s.coming.take n, coming := s.coming.drop n } else none
  | .close => if s.coming = [] then some { s with closed := true } else none
  | .turn => some (loopTurn bufSize reader s)

/-- The handler of a peer that sends these bytes and closes, and that nobody else reads from. -/
def loopMachine (bufSize : Nat) (reader : FrameReader) (sent : Bytes) : Machine LoopState LoopAct where
  init s := s = .start sent
  step := loopStep bufSize reader

/-- The loop is left within finitely many turns. -/
def Ends (bufSize : Nat) (reader : FrameReader) (s : LoopState) : Prop :=
  ∃ n, ((loopTurn bufSize reader)^[n] s).left = true

/-- **The loop ends after the peer has closed**, however its bytes arrived. -/
def EndsAfterClose (bufSize : Nat) (reader : FrameReader) (sent : Bytes) : Prop :=
  ∀ s, (loopMachine bufSize reader sent).Reach s → s.closed = true → Ends bufSize reader s

/-- The bytes are frames that the peek accepts, behind so many others, without what is read raw; the
last may be cut short. -/
inductive Framed (bufSize : Nat) (reader : FrameReader) : Nat → Bytes → Prop
  | nil (k : Nat) : Framed bufSize reader k []
  | cut {k : Nat} {b : Bytes} (hpeek : peekIsIpcFrame bufSize b = 1)
      (hcut : reader.recvFrame b = none) : Framed bufSize reader k b
  | frame {k n : Nat} {b : Bytes} (hpeek : peekIsIpcFrame bufSize b = 1)
      (hframe : reader.recvFrame b = some n)
      (hrest : Framed bufSize reader (k + 1) (b.drop (n + reader.recvRaw k (b.drop n)))) :
      Framed bufSize reader k b

variable {bufSize : Nat} {reader : FrameReader}

theorem peekIsIpcFrame_eq_zero_or_one (bufSize : Nat) (b : Bytes) :
    peekIsIpcFrame bufSize b = 0 ∨ peekIsIpcFrame bufSize b = 1 := by
  unfold peekIsIpcFrame
  split
  · split
    · exact Or.inr rfl
    · exact Or.inl rfl
  · exact Or.inl rfl

/-- A frame that the peek accepts is read. -/
theorem loopTurn_of_frame {s : LoopState} (hleft : s.left = false)
    (hpeek : peekIsIpcFrame bufSize s.unread = 1) :
    loopTurn bufSize reader s = recvAndHandle reader s := by
  have hne : s.unread ≠ [] := by
    intro hempty
    rw [hempty] at hpeek
    cases hpeek
  have h : s.peek bufSize = 1 := by
    rw [LoopState.peek, List.isEmpty_eq_false_iff.2 hne, if_neg (by decide), hpeek]
  rw [loopTurn, if_neg (by rw [hleft]; decide), h]
  rfl

/-- The end of the stream is seen where no byte is left. -/
theorem loopTurn_of_end {s : LoopState} (hleft : s.left = false) (hempty : s.unread = [])
    (hclosed : s.closed = true) : loopTurn bufSize reader s = { s with left := true } := by
  have h : s.peek bufSize = -1 := by
    rw [LoopState.peek, hempty, hclosed]
    rfl
  rw [loopTurn, if_neg (by rw [hleft]; decide), h]
  rfl

/-- What a turn does: the end of the stream is seen, or nothing is, or a frame is read. -/
theorem loopTurn_cases (bufSize : Nat) (reader : FrameReader) {s : LoopState} (hleft : s.left = false) :
    s.unread = [] ∧ s.closed = true ∧ loopTurn bufSize reader s = { s with left := true } ∨
      loopTurn bufSize reader s = { s with idleRounds := s.idleRounds + 1 } ∨
      peekIsIpcFrame bufSize s.unread = 1 ∧ loopTurn bufSize reader s = recvAndHandle reader s := by
  obtain hzero | hone := peekIsIpcFrame_eq_zero_or_one bufSize s.unread
  · by_cases hend : s.unread = [] ∧ s.closed = true
    · exact Or.inl ⟨hend.1, hend.2, loopTurn_of_end hleft hend.1 hend.2⟩
    · have h : s.peek bufSize = 0 := by
        rw [LoopState.peek, hzero]
        split_ifs with hempty hclosed
        · exact absurd ⟨List.isEmpty_iff.1 hempty, hclosed⟩ hend
        · rfl
        · rfl
      refine Or.inr (Or.inl ?_)
      rw [loopTurn, if_neg (by rw [hleft]; decide), h]
      rfl
  · exact Or.inr (Or.inr ⟨hone, loopTurn_of_frame hleft hone⟩)

/-! ## What is still to be read -/

/-- The bytes that the handler has not read. -/
def LoopState.stream (s : LoopState) : Bytes := s.unread ++ s.coming

theorem stream_take (s : LoopState) (n : Nat) : (s.take n).stream = s.stream.drop n := by
  rw [LoopState.stream, LoopState.stream, List.drop_append]
  rfl

/-- The loop was left, or it has still frames to read and nothing else. -/
def OnFrames (bufSize : Nat) (reader : FrameReader) (s : LoopState) : Prop :=
  s.left = true ∨ Framed bufSize reader s.frames s.stream

theorem onFrames_iff {s : LoopState} (hleft : s.left = false) :
    OnFrames bufSize reader s ↔ Framed bufSize reader s.frames s.stream :=
  or_iff_right (by rw [hleft]; decide)

/-- What has arrived decides for the whole stream. -/
theorem peek_stream {s : LoopState} (h : peekIsIpcFrame bufSize s.unread = 1) :
    peekIsIpcFrame bufSize s.stream = 1 :=
  peekIsIpcFrame_eq_one_iff.2 ((peekIsIpcFrame_eq_one_iff.1 h).mono (List.prefix_append _ _))

theorem framed_iff_of_frame {k n : Nat} {b : Bytes} (hpeek : peekIsIpcFrame bufSize b = 1)
    (hframe : reader.recvFrame b = some n) : Framed bufSize reader k b ↔
      Framed bufSize reader (k + 1) (b.drop (n + reader.recvRaw k (b.drop n))) := by
  refine ⟨fun h => ?_, .frame hpeek hframe⟩
  cases h with
  | nil => cases hpeek
  | cut _ hcut => cases hframe.symm.trans hcut
  | frame _ hframe' hrest =>
    cases hframe.symm.trans hframe'
    exact hrest

/-- A frame is read exactly from a stream that begins with one. -/
theorem onFrames_recvAndHandle_iff {s : LoopState} (hleft : s.left = false)
    (hpeek : peekIsIpcFrame bufSize s.stream = 1) :
    OnFrames bufSize reader (recvAndHandle reader s) ↔ OnFrames bufSize reader s := by
  rw [onFrames_iff hleft, recvAndHandle]
  cases hrecv : reader.recvFrame (s.unread ++ s.coming) with
  | none => exact iff_of_true (Or.inl rfl) (.cut hpeek hrecv)
  | some n =>
    have hnext : ∀ m, OnFrames bufSize reader
        { s.take m with frames := s.frames + 1, idleRounds := 0 } ↔
          Framed bufSize reader (s.frames + 1) (s.stream.drop m) := fun m => by
      rw [← stream_take]
      exact onFrames_iff hleft
    exact (hnext _).trans (framed_iff_of_frame hpeek hrecv).symm

/-- **A turn keeps it, and leads to it from nowhere else.** -/
theorem onFrames_loopTurn_iff {s : LoopState} (hclosed : s.closed = true → s.coming = []) :
    OnFrames bufSize reader (loopTurn bufSize reader s) ↔ OnFrames bufSize reader s := by
  cases hleft : s.left with
  | true => rw [loopTurn, if_pos hleft]
  | false =>
    obtain ⟨hempty, hc, he⟩ | he | ⟨hpeek, he⟩ := loopTurn_cases bufSize reader hleft
    · rw [he]
      refine iff_of_true (Or.inl rfl) (Or.inr ?_)
      rw [LoopState.stream, hempty, hclosed hc]
      exact .nil _
    · rw [he]
      rfl
    · rw [he]
      exact onFrames_recvAndHandle_iff hleft (peek_stream hpeek)

/-! ## Runs -/

/-- The end of the stream arrives behind its bytes. -/
theorem coming_loopTurn {s : LoopState} (h : s.closed = true → s.coming = []) :
    (loopTurn bufSize reader s).closed = true → (loopTurn bufSize reader s).coming = [] := by
  cases hleft : s.left with
  | true =>
    rw [loopTurn, if_pos hleft]
    exact h
  | false =>
    obtain ⟨-, -, he⟩ | he | ⟨-, he⟩ := loopTurn_cases bufSize reader hleft
    · rw [he]
      exact h
    · rw [he]
      exact h
    · rw [he, recvAndHandle]
      split
      · exact h
      · intro hclosed
        have hnil : s.coming = [] := h hclosed
        simp only [LoopState.take, hnil, List.drop_nil]

/-- What holds in every state of the handler: the stream is what it was sent, as far as frames go. -/
theorem onFrames_iff_of_reach {sent : Bytes} {s : LoopState}
    (h : (loopMachine bufSize reader sent).Reach s) :
    (s.closed = true → s.coming = []) ∧
      (OnFrames bufSize reader s ↔ Framed bufSize reader 0 sent) := by
  refine h.invariant (I := fun s => (s.closed = true → s.coming = []) ∧
    (OnFrames bufSize reader s ↔ Framed bufSize reader 0 sent)) ?_ ?_
  · rintro s rfl
    exact ⟨nofun, onFrames_iff rfl⟩
  · rintro s act t ⟨hclosed, hiff⟩ - hs
    cases act with
    | arrive n =>
      obtain ⟨⟨hpos, hle⟩, hs⟩ := Option.ite_none_right_eq_some.1 hs
      cases hs
      refine ⟨fun hc => ?_, ?_⟩
      · rw [hclosed hc] at hle
        exact absurd hle (by simp only [List.length_nil]; omega)
      · rw [← hiff, OnFrames, OnFrames]
        simp only [LoopState.stream, List.append_assoc, List.take_append_drop]
    | close =>
      obtain ⟨hnil, hs⟩ := Option.ite_none_right_eq_some.1 hs
      cases hs
      exact ⟨fun _ => hnil, hiff⟩
    | turn =>
      cases hs
      exact ⟨coming_loopTurn hclosed, (onFrames_loopTurn_iff hclosed).trans hiff⟩

theorem onFrames_iterate_iff {s : LoopState} (hclosed : s.closed = true → s.coming = []) (n : Nat) :
    OnFrames bufSize reader ((loopTurn bufSize reader)^[n] s) ↔ OnFrames bufSize reader s := by
  induction n generalizing s with
  | zero => rfl
  | succ n ih =>
    rw [Function.iterate_succ_apply]
    exact (ih (coming_loopTurn hclosed)).trans (onFrames_loopTurn_iff hclosed)

/-- A loop that is left is left at once, or in the turns that follow the first one. -/
theorem Ends.of_turn {s : LoopState} (h : Ends bufSize reader (loopTurn bufSize reader s)) :
    Ends bufSize reader s := by
  obtain ⟨n, hn⟩ := h
  exact ⟨n + 1, by rwa [Function.iterate_succ_apply]⟩

/-- Frame by frame, the loop comes to the end. -/
theorem ends_of_framed {k : Nat} {b : Bytes} (h : Framed bufSize reader k b) {s : LoopState}
    (hclosed : s.closed = true) (hcoming : s.coming = []) (hk : s.frames = k)
    (hb : s.unread = b) : Ends bufSize reader s := by
  induction h generalizing s with
  | nil k =>
    cases hleft : s.left with
    | true => exact ⟨0, hleft⟩
    | false => exact .of_turn ⟨0, by rw [loopTurn_of_end hleft hb hclosed]; rfl⟩
  | @cut k b hpeek hcut =>
    cases hleft : s.left with
    | true => exact ⟨0, hleft⟩
    | false =>
      refine .of_turn ⟨0, ?_⟩
      rw [loopTurn_of_frame hleft (hb ▸ hpeek), recvAndHandle, hb, hcoming, List.append_nil, hcut]
      rfl
  | @frame k n b hpeek hframe _ ih =>
    cases hleft : s.left with
    | true => exact ⟨0, hleft⟩
    | false =>
      apply Ends.of_turn
      rw [loopTurn_of_frame hleft (hb ▸ hpeek), recvAndHandle, hb, hcoming, List.append_nil, hframe]
      refine ih hclosed ?_ ?_ ?_
      · simp only [LoopState.take, hcoming, List.drop_nil]
      · simp only [hk]
      · simp only [LoopState.take, hb, hk]

/-- A loop that ends has had frames to read. -/
theorem framed_of_ends {sent : Bytes} (h : EndsAfterClose bufSize reader sent) :
    Framed bufSize reader 0 sent := by
  obtain ⟨s, hs, hclosed⟩ : ∃ s, (loopMachine bufSize reader sent).Reach s ∧ s.closed = true := by
    obtain rfl | hne := eq_or_ne sent []
    · exact ⟨_, .next (a := .close) (.start rfl) trivial rfl, rfl⟩
    · have harrive : (loopMachine bufSize reader sent).Reach
          { LoopState.start sent with unread := sent, coming := [] } := by
        refine .next (a := .arrive sent.length) (.start rfl) trivial ?_
        refine (if_pos ⟨List.length_pos_iff.2 hne, le_refl _⟩).trans ?_
        simp only [LoopState.start, List.nil_append, List.take_length, List.drop_length]
      exact ⟨_, .next (a := .close) harrive trivial rfl, rfl⟩
  obtain ⟨hcoming, hiff⟩ := onFrames_iff_of_reach hs
  obtain ⟨n, hn⟩ := h s hs hclosed
  exact hiff.1 ((onFrames_iterate_iff hcoming n).1 (Or.inl hn))

/-- **The loop ends after the peer has closed exactly if nothing but frames was sent.** -/
theorem endsAfterClose_iff (bufSize : Nat) (reader : FrameReader) (sent : Bytes) :
    EndsAfterClose bufSize reader sent ↔ Framed bufSize reader 0 sent := by
  refine ⟨framed_of_ends, fun h s hs hclosed => ?_⟩
  obtain ⟨hcoming, hiff⟩ := onFrames_iff_of_reach hs
  obtain hleft | hframed := hiff.2 h
  · exact ⟨0, hleft⟩
  · refine ends_of_framed hframed hclosed (hcoming hclosed) rfl ?_
    rw [LoopState.stream, hcoming hclosed, List.append_nil]

/-- A frame is a header of five bytes and as many bytes as it says. -/
private def plainFrame : Bytes → Option Nat
  | b₀ :: b₁ :: b₂ :: b₃ :: _ :: rest =>
    if frameLen b₀ b₁ b₂ b₃ ≤ rest.length then some (5 + frameLen b₀ b₁ b₂ b₃) else none
  | _ => none

private theorem plainFrame_bounds (b : Bytes) (n : Nat) (h : plainFrame b = some n) :
    0 < n ∧ n ≤ b.length := by
  unfold plainFrame at h
  split at h
  · split at h
    · rename_i hle
      cases h
      simp only [List.length_cons]
      omega
    · cases h
  · cases h

/-- Frames are read, and nothing raw. -/
private def plainReader : FrameReader :=
  ⟨plainFrame, fun _ _ => 0, plainFrame_bounds, fun _ _ => Nat.zero_le _⟩

/-- A frame with one byte, and the first bytes of another one. -/
theorem endsAfterClose_of_cut_frame :
    EndsAfterClose 4096 plainReader [0, 0, 0, 1, 5, 65, 0, 0, 0, 9, 7, 66] := by
  have hrest : Framed 4096 plainReader 1 [0, 0, 0, 9, 7, 66] := .cut (by decide) (by decide)
  exact (endsAfterClose_iff _ _ _).2 (.frame (n := 6) (by decide) (by decide) hrest)

/-- **One byte is enough to keep the handler in its loop**: the peer sends it and closes. -/
theorem not_endsAfterClose : ¬ ∀ (bufSize : Nat) (reader : FrameReader) (sent : Bytes),
    EndsAfterClose bufSize reader sent := by
  intro h
  have hframed := framed_of_ends (h 4096 plainReader [0])
  cases hframed with
  | cut hpeek _ => cases hpeek
  | frame hpeek _ _ => cases hpeek

end Gateway
end Arws

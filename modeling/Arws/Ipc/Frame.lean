import Arws.Library.ByteStream
import Arws.Library.CString

/-!
# Frames on a control connection

`ipc_pipe.c`: a frame is a header of five bytes, which are the length of the payload with the highest byte
first and the type, and the payload.  The connection gives and takes bytes in pieces of any size.  The
length is an `int` on both sides.

* `recvFrame_split` — what a frame that is received takes from the stream.
* `frames_iff` — a frame comes back as it was sent exactly if the `int` behind its length is no overflow,
  and a frame that is received is one of the stream exactly if its header is no negative `int`.
* `recvFrames_sent` — frames that were sent one behind another are received one behind another.
* `not_frameRight` — a header with the highest bit set is an empty frame.
-/

set_option autoImplicit false

namespace Arws
namespace Ipc

open CString ByteStream

/-! ## Sending -/

/-- The header `ipc_send_frame` writes. -/
def frameHeader (type length : Int) : Bytes :=
  [UInt8.ofInt (length >>> (24 : Nat)), UInt8.ofInt (length >>> (16 : Nat)),
    UInt8.ofInt (length >>> (8 : Nat)), UInt8.ofInt length, UInt8.ofInt type]

/-- The loop that writes the payload, for how much the calls of `ar_socket_send` take: what is written, and
what is returned. -/
def sendLoop (data : Bytes) : List Nat → Bytes × Int
  | [] => ([], if data = [] then 0 else -1)
  | n :: takes =>
    if data = [] then ([], 0)
    else if n = 0 then ([], -1)
    else
      let loop := sendLoop (data.drop n) takes
      (data.take n ++ loop.1, loop.2)

/-- `ipc_send_frame`, for how much the calls of `ar_socket_send` take. -/
def ipcSendFrame (type : Int) (data : Option Bytes) (length : Int) : List Nat → Bytes × Int
  | [] => ([], -1)
  | n :: takes =>
    if n < 5 then ((frameHeader type length).take n, -1)
    else
      match data with
      | none => (frameHeader type length, 0)
      | some data =>
        if 0 < length then
          let loop := sendLoop (data.take length.toNat) takes
          (frameHeader type length ++ loop.1, loop.2)
        else (frameHeader type length, 0)

/-! ## Receiving -/

/-- `IpcFrame`; `data` is the block that was allocated. -/
structure IpcFrame where
  type : Int
  length : Int
  data : Option Bytes

/-- The payload: the first `length` bytes of the block. -/
def IpcFrame.payload (frame : IpcFrame) : Bytes := (frame.data.getD []).take frame.length.toNat

/-- `ipc_recv_frame`: the frame and what is left of the stream if it returns 0, and nothing if it returns
-1.  `arMemAlloc` tells which requests are granted; the `int` is converted to `size_t`. -/
def ipcRecvFrame (arMemAlloc : Nat → Bool) (stream : List Bytes) : Option (IpcFrame × List Bytes) :=
  match readAll 5 stream with
  | some ([a, b, c, d, type], stream) =>
    let length := toInt ↑(a.toNat <<< 24 ||| b.toNat <<< 16 ||| c.toNat <<< 8 ||| d.toNat)
    if 0 < length then
      if arMemAlloc (toInt (length + 1) % 2 ^ 64).toNat then
        (readAll length.toNat stream).map fun r => (⟨type.toNat, length, some (r.1 ++ [0])⟩, r.2)
      else none
    else some (⟨type.toNat, length, none⟩, stream)
  | _ => none

/-! ## What is sent -/

variable {type length : Int} {data payload sent : Bytes} {takes : List Nat} {arMemAlloc : Nat → Bool}
  {stream stream' : List Bytes} {frame : IpcFrame}

theorem sendLoop_eq (h : (sendLoop data takes).2 = 0) : (sendLoop data takes).1 = data := by
  induction takes generalizing data with
  | nil =>
    by_contra hne
    exact absurd h (by rw [sendLoop, if_neg fun hnil => hne hnil.symm]; decide)
  | cons n takes ih =>
    rw [sendLoop] at h ⊢
    split_ifs at h ⊢ with hnil hzero
    · exact hnil.symm
    · cases h
    · simp only [ih h, List.take_append_drop]

/-- **What is sent** when 0 is returned: the header and the payload. -/
theorem sendFrame_eq (h : ipcSendFrame type (some payload) payload.length takes = (sent, 0)) :
    sent = frameHeader type payload.length ++ payload := by
  cases takes with
  | nil => cases (Prod.mk.inj h).2
  | cons n takes =>
    rw [ipcSendFrame] at h
    split_ifs at h with hhead hpos
    · cases (Prod.mk.inj h).2
    · obtain ⟨rfl, hresult⟩ := Prod.mk.inj h
      rw [sendLoop_eq hresult, Int.toNat_natCast, List.take_length]
    · have hnil : payload = [] := List.length_eq_zero_iff.1 (by omega)
      rw [← (Prod.mk.inj h).1, hnil, List.append_nil]

/-- It is sent where all of it is taken. -/
theorem sendFrame_whole (type : Int) (payload : Bytes) :
    ipcSendFrame type (some payload) payload.length [5, payload.length] =
      (frameHeader type payload.length ++ payload, 0) := by
  rw [ipcSendFrame, if_neg (by decide)]
  split_ifs with hpos
  · have hne : payload ≠ [] := List.ne_nil_of_length_pos (by omega)
    have hlen : payload.length ≠ 0 := by omega
    simp only [Int.toNat_natCast, List.take_length, sendLoop, if_neg hne, if_neg hlen, List.drop_length,
      List.append_nil, if_true]
  · have hnil : payload = [] := List.length_eq_zero_iff.1 (by omega)
    rw [hnil, List.append_nil]

/-! ## What is received -/

/-- **What a frame that is received takes from the stream**: the five bytes of its header, and as many as
the header says, if the `int` is positive. -/
theorem recvFrame_split (h : ipcRecvFrame arMemAlloc stream = some (frame, stream')) :
    ∃ a b c d t, stream.flatten = [a, b, c, d, t] ++ frame.payload ++ stream'.flatten ∧
      frame.type = t.toNat ∧ frame.length = toInt (bigEndian [a, b, c, d]) ∧
      frame.payload.length = frame.length.toNat := by
  rw [ipcRecvFrame] at h
  split at h
  · rename_i a b c d t rest hread
    obtain ⟨-, hflat⟩ := readAll_eq_some hread
    rw [or_shiftLeft_eq_bigEndian] at h
    simp only at h
    split_ifs at h with hpos halloc
    · obtain ⟨⟨got, left⟩, hgot, he⟩ := Option.map_eq_some_iff.1 h
      obtain ⟨rfl, rfl⟩ := Prod.mk.inj he
      obtain ⟨hlen, hrest⟩ := readAll_eq_some hgot
      have hpayload : (IpcFrame.mk t.toNat (toInt (bigEndian [a, b, c, d])) (some (got ++ [0]))).payload =
          got := by
        rw [IpcFrame.payload, Option.getD_some, ← hlen, List.take_left]
      refine ⟨a, b, c, d, t, ?_, rfl, rfl, ?_⟩
      · rw [hflat, hrest, hpayload, List.append_assoc]
      · rw [hpayload, hlen]
    · obtain ⟨rfl, rfl⟩ := Prod.mk.inj (Option.some.inj h)
      have hpayload : (IpcFrame.mk t.toNat (toInt (bigEndian [a, b, c, d])) none).payload = [] :=
        List.take_nil
      refine ⟨a, b, c, d, t, ?_, rfl, rfl, ?_⟩
      · rw [hflat, hpayload, List.append_nil]
      · rw [hpayload, Int.toNat_eq_zero.2 (Int.not_lt.1 hpos), List.length_nil]
  · cases h

/-- **A frame whose bytes come is received**, however they are cut. -/
theorem recvFrame_of_flatten {a b c d t : UInt8} {rest : Bytes} (hflows : Flows stream)
    (hlen : (payload.length : Int) = toInt (bigEndian [a, b, c, d]))
    (halloc : 0 < payload.length →
      arMemAlloc (toInt ((payload.length : Int) + 1) % 2 ^ 64).toNat = true)
    (hflat : stream.flatten = [a, b, c, d, t] ++ payload ++ rest) :
    ∃ frame stream', ipcRecvFrame arMemAlloc stream = some (frame, stream') ∧ frame.type = t.toNat ∧
      frame.length = payload.length ∧ frame.payload = payload ∧ stream'.flatten = rest ∧
      Flows stream' := by
  rw [List.append_assoc] at hflat
  obtain ⟨left, hread, hleft, hleftFlows⟩ := readAll_of_flatten hflows hflat
  rw [ipcRecvFrame, show 5 = [a, b, c, d, t].length from rfl, hread]
  simp only [or_shiftLeft_eq_bigEndian, ← hlen]
  split_ifs with hpos hgranted
  · obtain ⟨left', hread', hleft', hleftFlows'⟩ := readAll_of_flatten hleftFlows hleft
    rw [Int.toNat_natCast, hread']
    refine ⟨_, _, rfl, rfl, rfl, ?_, hleft', hleftFlows'⟩
    rw [IpcFrame.payload, Option.getD_some, Int.toNat_natCast, List.take_left]
  · exact absurd (halloc (by omega)) hgranted
  · have hnil : payload = [] := List.length_eq_zero_iff.1 (by omega)
    subst hnil
    exact ⟨_, _, rfl, rfl, rfl, rfl, hleft, hleftFlows⟩

/-! ## Frames that come back -/

/-- What was sent is received as it was sent, whatever of it the calls take at a time and however it is
cut on the way, and the stream is left at what follows. -/
def RoundTrip (arMemAlloc : Nat → Bool) (type : Nat) (payload : Bytes) : Prop :=
  ∀ takes sent, ipcSendFrame type (some payload) payload.length takes = (sent, 0) →
    ∀ stream rest, Flows stream → stream.flatten = sent ++ rest →
      ∃ frame stream', ipcRecvFrame arMemAlloc stream = some (frame, stream') ∧ frame.type = type ∧
        frame.length = payload.length ∧ frame.payload = payload ∧ stream'.flatten = rest

/-- **A frame that is received is one of the stream.** -/
structure FrameRight (stream : List Bytes) (frame : IpcFrame) (stream' : List Bytes) : Prop where
  nonneg : 0 ≤ frame.length
  header : frame.length = bigEndian (stream.flatten.take 4)
  payload : frame.payload.length = frame.length
  consumed : ∃ header, header.length = 5 ∧
    stream.flatten = header ++ frame.payload ++ stream'.flatten

/-- The memory: what is no more than an `int` is granted, and nothing can have half of the addresses. -/
structure Grants (arMemAlloc : Nat → Bool) : Prop where
  small : ∀ n < 2 ^ 31, arMemAlloc n = true
  huge : ∀ n, 2 ^ 63 ≤ n → arMemAlloc n = false

theorem ofInt_natCast (n : Nat) : UInt8.ofInt n = n.toUInt8 := by
  apply UInt8.toNat_inj.1
  simp only [UInt8.ofInt, Nat.toUInt8, UInt8.toNat_ofNat']
  omega

theorem frameHeader_eq (type : Nat) (n : Nat) : frameHeader type n =
    [(n / 2 ^ 24).toUInt8, (n / 2 ^ 16).toUInt8, (n / 2 ^ 8).toUInt8, n.toUInt8, type.toUInt8] := by
  have hdiv : ∀ k : Nat, (n : Int) / (2 ^ k : Nat) = (n / 2 ^ k : Nat) := fun _ => rfl
  simp only [frameHeader, Int.shiftRight_eq_div_pow, hdiv, ofInt_natCast]

/-- **A frame that was sent is received** if the `int` behind the length of the payload is no overflow. -/
theorem recvFrame_sent (halloc : Grants arMemAlloc) {type : Nat} (htype : type < 256)
    (hlen : payload.length + 1 < 2 ^ 31) {rest : Bytes} (hflows : Flows stream)
    (hflat : stream.flatten = frameHeader type payload.length ++ payload ++ rest) :
    ∃ frame stream', ipcRecvFrame arMemAlloc stream = some (frame, stream') ∧ frame.type = type ∧
      frame.length = payload.length ∧ frame.payload = payload ∧ stream'.flatten = rest ∧
      Flows stream' := by
  have hvalue := bigEndian_bytes (n := payload.length) (by omega)
  have hgranted : arMemAlloc (toInt ((payload.length : Int) + 1) % 2 ^ 64).toNat = true := by
    have hcast := toInt_natCast hlen
    push_cast at hcast
    rw [hcast]
    exact halloc.small _ (by omega)
  rw [frameHeader_eq] at hflat
  obtain ⟨frame, stream', hrecv, htype', hleft⟩ := recvFrame_of_flatten hflows
    (by rw [hvalue, toInt_natCast (by omega)]) (fun _ => hgranted) hflat
  refine ⟨frame, stream', hrecv, ?_, hleft⟩
  rw [htype', Nat.toUInt8, UInt8.toNat_ofNat', Nat.mod_eq_of_lt htype]

theorem roundTrip_of_lt (halloc : Grants arMemAlloc) {type : Nat} (htype : type < 256)
    (hlen : payload.length + 1 < 2 ^ 31) : RoundTrip arMemAlloc type payload := by
  intro takes sent hsent stream rest hflows hflat
  rw [sendFrame_eq hsent] at hflat
  obtain ⟨frame, stream', hrecv, htype', hlength, hpayload, hrest, -⟩ :=
    recvFrame_sent halloc htype hlen hflows hflat
  exact ⟨frame, stream', hrecv, htype', hlength, hpayload, hrest⟩

/-- No memory is granted for the longest payload. -/
theorem not_roundTrip (halloc : Grants arMemAlloc) {type : Nat}
    (hlen : payload.length + 1 = 2 ^ 31) : ¬ RoundTrip arMemAlloc type payload := by
  intro h
  have hpos : payload ≠ [] := List.ne_nil_of_length_pos (by omega)
  have hvalue := bigEndian_bytes (n := payload.length) (by omega)
  have hbytes := frameHeader_eq type payload.length
  obtain ⟨frame, stream', hrecv, -⟩ := h _ _ (sendFrame_whole type payload)
    [frameHeader type payload.length, payload] [] (by simp [Flows, hbytes, hpos]) (by simp)
  have hread := readAll_piece (frameHeader type payload.length) (by simp [hbytes]) [payload]
  rw [ipcRecvFrame, show 5 = (frameHeader type payload.length).length from rfl, hread, hbytes] at hrecv
  simp only [or_shiftLeft_eq_bigEndian, hvalue, toInt_natCast (show payload.length < 2 ^ 31 by omega)]
    at hrecv
  have hover : toInt ((payload.length : Int) + 1) = -2 ^ 31 := by
    simp only [toInt]
    omega
  rw [if_pos (by omega), hover, halloc.huge _ (by decide), if_neg (by decide)] at hrecv
  cases hrecv

/-- A frame that is received is one of the stream exactly if its header is no negative `int`. -/
theorem frameRight_iff (h : ipcRecvFrame arMemAlloc stream = some (frame, stream')) :
    FrameRight stream frame stream' ↔ bigEndian (stream.flatten.take 4) < 2 ^ 31 := by
  obtain ⟨a, b, c, d, t, hflat, -, hlength, hpayload⟩ := recvFrame_split h
  have hfour : stream.flatten.take 4 = [a, b, c, d] := by
    rw [hflat]
    rfl
  have hlt := bigEndian_four_lt a b c d
  constructor
  · intro hright
    have hheader := hright.header
    rw [hfour, hlength] at hheader
    rw [hfour]
    simp only [toInt] at hheader
    omega
  · intro hsmall
    rw [hfour] at hsmall
    rw [toInt_natCast hsmall] at hlength
    refine ⟨by omega, by rw [hfour, hlength], by omega, [a, b, c, d, t], rfl, hflat⟩

/-- **Frames that decode to what was sent, and nothing else.** -/
theorem frames_iff (arMemAlloc : Nat → Bool) (halloc : Grants arMemAlloc) :
    (∀ type < 256, ∀ payload : Bytes, payload.length < 2 ^ 31 →
      (RoundTrip arMemAlloc type payload ↔ payload.length + 1 < 2 ^ 31)) ∧
      ∀ stream frame stream', ipcRecvFrame arMemAlloc stream = some (frame, stream') →
        (FrameRight stream frame stream' ↔ bigEndian (stream.flatten.take 4) < 2 ^ 31) := by
  refine ⟨fun type htype payload hlen => ⟨fun h => ?_, roundTrip_of_lt halloc htype⟩,
    fun _ _ _ => frameRight_iff⟩
  by_contra hlong
  exact not_roundTrip halloc (by omega) h

/-- The memory of 64 bits. -/
def half (n : Nat) : Bool := n < 2 ^ 63

theorem grants_half : Grants half where
  small n hn := decide_eq_true (by omega)
  huge n hn := decide_eq_false (by omega)

theorem frames_half : (∀ type < 256, ∀ payload : Bytes, payload.length < 2 ^ 31 →
      (RoundTrip half type payload ↔ payload.length + 1 < 2 ^ 31)) ∧
      ∀ stream frame stream', ipcRecvFrame half stream = some (frame, stream') →
        (FrameRight stream frame stream' ↔ bigEndian (stream.flatten.take 4) < 2 ^ 31) :=
  frames_iff half grants_half

/-- A header with the highest bit set is an empty frame, and the payload is taken for the next header. -/
theorem not_frameRight : ∃ frame stream',
    ipcRecvFrame half [[0x80, 0, 0, 0, 1], [104, 105]] = some (frame, stream') ∧
      ¬ FrameRight [[0x80, 0, 0, 0, 1], [104, 105]] frame stream' := by
  have hread := readAll_piece [(0x80 : UInt8), 0, 0, 0, 1] (by decide) [[104, 105]]
  have hlength : toInt (bigEndian [0x80, 0, 0, 0]) = -2 ^ 31 := by decide
  have hrecv : ipcRecvFrame half [[0x80, 0, 0, 0, 1], [104, 105]] =
      some (⟨1, -2 ^ 31, none⟩, [[104, 105]]) := by
    rw [ipcRecvFrame, show 5 = [(0x80 : UInt8), 0, 0, 0, 1].length from rfl, hread]
    simp only [or_shiftLeft_eq_bigEndian, hlength]
    rfl
  exact ⟨_, _, hrecv, fun h => absurd ((frameRight_iff hrecv).1 h) (by decide)⟩

/-! ## A stream of frames -/

/-- Frames received one behind another. -/
def recvFrames (arMemAlloc : Nat → Bool) : Nat → List Bytes → Option (List (Int × Bytes) × List Bytes)
  | 0, stream => some ([], stream)
  | n + 1, stream => (ipcRecvFrame arMemAlloc stream).bind fun first =>
      (recvFrames arMemAlloc n first.2).map fun r => ((first.1.type, first.1.payload) :: r.1, r.2)

/-- **Frames that were sent one behind another are received one behind another.** -/
theorem recvFrames_sent (halloc : Grants arMemAlloc) (frames : List (Nat × Bytes)) {rest : Bytes}
    (hframes : ∀ f ∈ frames, f.1 < 256 ∧ f.2.length + 1 < 2 ^ 31) (hflows : Flows stream)
    (hflat : stream.flatten = (frames.flatMap fun f => frameHeader f.1 f.2.length ++ f.2) ++ rest) :
    ∃ stream', recvFrames arMemAlloc frames.length stream =
      some (frames.map fun f => ((f.1 : Int), f.2), stream') ∧ stream'.flatten = rest := by
  induction frames generalizing stream with
  | nil => exact ⟨stream, rfl, hflat⟩
  | cons f frames ih =>
    obtain ⟨htype, hlen⟩ := hframes f List.mem_cons_self
    rw [List.flatMap_cons, List.append_assoc] at hflat
    obtain ⟨frame, stream', hrecv, htype', -, hpayload, hrest, hflows'⟩ :=
      recvFrame_sent halloc htype hlen hflows hflat
    obtain ⟨last, hrecvs, hlast⟩ := ih (fun g hg => hframes g (List.mem_cons_of_mem _ hg)) hflows' hrest
    refine ⟨last, ?_, hlast⟩
    rw [List.length_cons, recvFrames, hrecv, Option.bind_some, hrecvs, Option.map_some, htype', hpayload]
    rfl

end Ipc
end Arws

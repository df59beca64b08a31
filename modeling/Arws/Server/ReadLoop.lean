import Arws.Library.Transition
import Arws.Library.CString

/-!
# Reading a request

The loop at the head of `handle_client`.  It reads into a buffer that it doubles when it is full,
looks for the end of the header block after each read, takes the length of the body from a
`Content-Length` header when it finds the end, makes room for the declared size at once, and reads
on until the declared body is there.

The buffer moves when it grows, so the model says of `body_start` which block it points into:
blocks are numbered as they are allocated, and a pointer is a block and an offset.

* `Sound` — the declared size is computed without overflow, is answered 413 when it is beyond the
  limit, and once it is known the buffer is not doubled any more, so `body_start` stays good.
* `sound_of_sizeFits` — so it is as long as the declared size fits a `long`.
* `not_sound_of_not_sizeFits` — otherwise the size computed is another one.
-/

set_option autoImplicit false

namespace Arws
namespace Server

open CString

/-- The limit on the size of a buffer. -/
def maxBufferSize : Nat := 10485760

/-- `Content-Length:` or, if that is nowhere in the buffer, `content-length:`, as an offset. -/
def contentLengthField (text : Bytes) : Option Nat :=
  match strstr (ascii "Content-Length:") text with
  | some cl => some cl
  | none => strstr (ascii "content-length:") text

/-- The value read from a field that stands before the end of the header block. -/
def declaredLength (text : Bytes) (bodyStart : Nat) : Option Int :=
  (contentLengthField text).bind fun cl =>
    if cl < bodyStart then some (strtol (text.drop (cl + 15))) else none

/-- How far the loop is. -/
inductive ReadPhase
  | reading
  /-- The loop was left by `break`. -/
  | finished
  /-- `handle_client` has answered with this status and returned. -/
  | answered (status : Nat)
  deriving DecidableEq

structure ReadState where
  phase : ReadPhase
  /-- The number of the block `buffer` points to. -/
  block : Nat
  bufferSize : Nat
  /-- What was received: the first `total_read` bytes of the buffer. -/
  bytes : Bytes
  /-- What stands in the buffer behind it. -/
  rest : Bytes
  /-- `body_start`: a block and an offset in it. -/
  bodyStart : Option (Nat × Nat)
  contentLength : Int
  headersParsed : Bool
  /-- `required_size`, once it was computed. -/
  requiredSize : Option Int

def ReadState.start : ReadState where
  phase := .reading
  block := 0
  bufferSize := 65536
  bytes := []
  rest := [0]
  bodyStart := none
  contentLength := 0
  headersParsed := false
  requiredSize := none

/-- What the environment does in one turn of the loop. -/
structure Turn where
  /-- The allocation that doubles the buffer, if one is made: `none` if it fails, else what stands
  in the new block behind the bytes copied. -/
  newBlock : Option Bytes
  /-- What `server_conn_read` delivers, `none` for an error or the end of the stream. -/
  read : Option Bytes
  /-- Whether the allocation for the declared size succeeds, if it is made. -/
  grow : Bool
  /-- `(body_start + 4) - buffer` for a `body_start` that points into another block. -/
  stray : Int

/-- The buffer as `strstr` sees it. -/
def ReadState.text (s : ReadState) : Bytes := cstr (s.bytes ++ s.rest)

/-- The test at the top of the loop. -/
def ReadState.full (s : ReadState) : Bool := decide (s.bufferSize - 1 ≤ s.bytes.length)

/-- The top of the loop: a full buffer is doubled; `none` for `break`. -/
def doubleBuffer (s : ReadState) (newBlock : Option Bytes) : Option ReadState :=
  if s.full then
    if s.bufferSize * 2 > maxBufferSize then none
    else newBlock.map fun rest =>
      { s with block := s.block + 1, bufferSize := s.bufferSize * 2, rest := rest }
  else some s

/-- Bytes arrive, and a zero is written behind them. -/
def ReadState.receive (s : ReadState) (data : Bytes) : ReadState :=
  { s with bytes := s.bytes ++ data, rest := [0] }

/-- `long required_size = header_len + content_length + 1` and what follows from it. -/
def makeRoom (s : ReadState) (headerLen : Nat) (grow : Bool) : ReadState :=
  let required := toLong (headerLen + s.contentLength + 1)
  let s := { s with requiredSize := some required }
  if required > maxBufferSize then { s with phase := .answered 413 }
  else if required > s.bufferSize then
    if grow then
      { s with
        block := s.block + 1
        bufferSize := required.toNat
        bodyStart := (strstr crlfcrlf s.text).map fun off => (s.block + 1, off) }
    else { s with phase := .answered 500 }
  else s

/-- The header end is looked for, and the declared length taken when it is found. -/
def findHeaderEnd (s : ReadState) (grow : Bool) : ReadState :=
  if s.headersParsed then s
  else match strstr crlfcrlf s.text with
    | none => { s with bodyStart := none }
    | some off =>
      let s := { s with headersParsed := true, bodyStart := some (s.block, off) }
      match declaredLength s.text off with
      | none => s
      | some n => makeRoom { s with contentLength := n } (off + 4) grow

/-- `(body_start + 4) - buffer`. -/
def headerLen (s : ReadState) (stray : Int) : Option Int :=
  s.bodyStart.map fun (block, off) => if block = s.block then (off : Int) + 4 else stray

/-- The test at the bottom of the loop. -/
def leaveIfComplete (s : ReadState) (stray : Int) : ReadState :=
  match headerLen s stray with
  | some len =>
    if s.phase = .reading ∧ s.headersParsed = true ∧ (s.bytes.length : Int) - len ≥ s.contentLength
    then { s with phase := .finished } else s
  | none => s

/-- One turn of the loop. -/
def readTurn (s : ReadState) (turn : Turn) : ReadState :=
  match doubleBuffer s turn.newBlock with
  | none => { s with phase := .finished }
  | some s =>
    match turn.read with
    | none => { s with phase := .finished }
    | some data => leaveIfComplete (findHeaderEnd (s.receive data) turn.grow) turn.stray

/-- A read delivers at least a byte and at most as many as there is room for. -/
def Turn.Possible (turn : Turn) (s : ReadState) : Prop :=
  ∀ s' ∈ doubleBuffer s turn.newBlock, ∀ data ∈ turn.read,
    0 < data.length ∧ s'.bytes.length + data.length ≤ s'.bufferSize - 1

instance (turn : Turn) (s : ReadState) : Decidable (turn.Possible s) :=
  inferInstanceAs (Decidable (∀ s' ∈ doubleBuffer s turn.newBlock, ∀ data ∈ turn.read,
    0 < data.length ∧ s'.bytes.length + data.length ≤ s'.bufferSize - 1))

/-- The loop, over all streams and all ways they are split. -/
def readMachine : Machine ReadState Turn where
  init s := s = .start
  step s turn := if s.phase = .reading ∧ turn.Possible s then some (readTurn s turn) else none

theorem readMachine_step_eq_some {s t : ReadState} {turn : Turn} :
    readMachine.step s turn = some t ↔
      (s.phase = .reading ∧ turn.Possible s) ∧ readTurn s turn = t := by
  simp only [readMachine, Option.ite_none_right_eq_some, Option.some_inj]

/-- One read delivers the whole text. -/
def Turn.whole (text : String) : Turn := ⟨none, some (ascii text), true, 0⟩

theorem reach_whole {text : String} (h : (Turn.whole text).Possible .start) :
    readMachine.Reach (readTurn .start (.whole text)) :=
  .next (.start rfl) trivial (if_pos ⟨rfl, h⟩)

/-! ## The declared size -/

/-- **What the loop is meant to keep.** -/
structure Sound (s : ReadState) : Prop where
  /-- `required_size` is the declared size. -/
  exact : ∀ r ∈ s.requiredSize, ∀ p ∈ s.bodyStart, r = p.2 + 4 + s.contentLength + 1
  /-- A declared size beyond the limit is answered 413. -/
  tooLarge : s.requiredSize.isSome = true → ∀ p ∈ s.bodyStart,
    (maxBufferSize : Int) < p.2 + 4 + s.contentLength + 1 → s.phase = .answered 413
  /-- Behind the header block, the buffer is not doubled at the top of the next turn. -/
  notDoubled : s.headersParsed = true → s.phase = .reading → s.full = false
  /-- Behind the header block, `body_start` is the header end in the buffer there is. -/
  inBuffer : s.headersParsed = true → (∀ status, s.phase ≠ .answered status) →
    ∃ off, s.bodyStart = some (s.block, off) ∧ strstr crlfcrlf (cstr s.bytes) = some off

/-- The turn reads no header block that declares a size beyond a `long`. -/
def SizeFits (s : ReadState) (turn : Turn) : Prop :=
  s.headersParsed = false → ∀ data ∈ turn.read,
    ∀ off ∈ strstr crlfcrlf (cstr (s.bytes ++ data)),
      ∀ n ∈ declaredLength (cstr (s.bytes ++ data)) off, (off : Int) + 4 + n + 1 ≤ longMax

@[simp] theorem text_receive (s : ReadState) (data : Bytes) :
    (s.receive data).text = cstr (s.bytes ++ data) :=
  cstr_append_terminator _

theorem le_declaredLength {text : Bytes} {off : Nat} {n : Int}
    (h : declaredLength text off = some n) : longMin ≤ n := by
  obtain ⟨cl, -, hcl⟩ := Option.bind_eq_some_iff.1 h
  split at hcl <;> cases hcl
  exact le_strtol _

/-- The doubling changes only the buffer. -/
theorem doubleBuffer_cases {s s' : ReadState} {newBlock : Option Bytes}
    (h : doubleBuffer s newBlock = some s') :
    s.full = false ∧ s' = s ∨ s.full = true ∧ s.bufferSize * 2 ≤ maxBufferSize ∧
      ∃ rest, s' = { s with
        block := s.block + 1, bufferSize := s.bufferSize * 2, rest := rest } := by
  rw [doubleBuffer] at h
  split_ifs at h with hfull hmax
  · obtain ⟨rest, -, rfl⟩ := Option.map_eq_some_iff.1 h
    exact Or.inr ⟨hfull, Nat.not_lt.1 hmax, rest, rfl⟩
  · cases h
    exact Or.inl ⟨Bool.eq_false_iff.2 hfull, rfl⟩

/-- What the search for the header end does: nothing, or it finds the end, and takes a length or
not. -/
theorem findHeaderEnd_cases {s : ReadState} (hs : s.headersParsed = false) (grow : Bool) :
    strstr crlfcrlf s.text = none ∧ findHeaderEnd s grow = { s with bodyStart := none } ∨
      ∃ off, strstr crlfcrlf s.text = some off ∧
        (declaredLength s.text off = none ∧
          findHeaderEnd s grow =
            { s with headersParsed := true, bodyStart := some (s.block, off) } ∨
          ∃ n, declaredLength s.text off = some n ∧ findHeaderEnd s grow =
            makeRoom { s with
              headersParsed := true, bodyStart := some (s.block, off), contentLength := n }
              (off + 4) grow) := by
  rw [findHeaderEnd, if_neg (by rw [hs]; decide)]
  cases hoff : strstr crlfcrlf s.text with
  | none => exact Or.inl ⟨rfl, rfl⟩
  | some off =>
    refine Or.inr ⟨off, rfl, ?_⟩
    cases hn : declaredLength s.text off with
    | none => exact Or.inl ⟨rfl, by simp only [ReadState.text] at hn ⊢; rw [hn]⟩
    | some n => exact Or.inr ⟨n, rfl, by simp only [ReadState.text] at hn ⊢; rw [hn]⟩

/-- What is shown of the search in each of its cases holds behind it. -/
theorem findHeaderEnd_rule {P : ReadState → Prop} {s : ReadState} {grow : Bool}
    (parsed : s.headersParsed = true → P s)
    (unseen : s.headersParsed = false → strstr crlfcrlf s.text = none →
      P { s with bodyStart := none })
    (found : s.headersParsed = false → ∀ off, strstr crlfcrlf s.text = some off →
      P { s with headersParsed := true, bodyStart := some (s.block, off) })
    (declared : s.headersParsed = false → ∀ off, strstr crlfcrlf s.text = some off →
      ∀ n, declaredLength s.text off = some n → P (makeRoom { s with
        headersParsed := true, bodyStart := some (s.block, off), contentLength := n }
        (off + 4) grow)) :
    P (findHeaderEnd s grow) := by
  cases hparsed : s.headersParsed with
  | true =>
    rw [findHeaderEnd, if_pos hparsed]
    exact parsed hparsed
  | false =>
    obtain ⟨hnone, he⟩ | ⟨off, hoff, ⟨-, he⟩ | ⟨n, hn, he⟩⟩ := findHeaderEnd_cases hparsed grow
    · rw [he]
      exact unseen hparsed hnone
    · rw [he]
      exact found hparsed off hoff
    · rw [he]
      exact declared hparsed off hoff n hn

/-- What is shown of a turn in each of its cases holds behind it. -/
theorem readTurn_rule {P : ReadState → Prop} {s : ReadState} {turn : Turn}
    (full : doubleBuffer s turn.newBlock = none → P { s with phase := .finished })
    (ended : ∀ s', doubleBuffer s turn.newBlock = some s' → turn.read = none →
      P { s' with phase := .finished })
    (read : ∀ s', doubleBuffer s turn.newBlock = some s' → ∀ data, turn.read = some data →
      P (leaveIfComplete (findHeaderEnd (s'.receive data) turn.grow) turn.stray)) :
    P (readTurn s turn) := by
  rw [readTurn]
  cases hdouble : doubleBuffer s turn.newBlock with
  | none => exact full hdouble
  | some s' =>
    cases hread : turn.read with
    | none => exact ended s' hdouble hread
    | some data => exact read s' hdouble data hread

/-- What the invariant of the loop says of every state. -/
structure Good (s : ReadState) : Prop where
  fits : s.bytes.length + 1 ≤ s.bufferSize
  unparsed : s.headersParsed = false →
    s.bodyStart = none ∧ s.requiredSize = none ∧ s.contentLength = 0
  exact : ∀ r ∈ s.requiredSize, ∀ p ∈ s.bodyStart, r = p.2 + 4 + s.contentLength + 1
  tooLarge : s.requiredSize.isSome = true → ∀ p ∈ s.bodyStart,
    (maxBufferSize : Int) < p.2 + 4 + s.contentLength + 1 → s.phase = .answered 413
  parsed : s.headersParsed = true → (∀ status, s.phase ≠ .answered status) →
    ∃ off, s.bodyStart = some (s.block, off) ∧ strstr crlfcrlf (cstr s.bytes) = some off ∧
      (0 < s.contentLength → (off : Int) + 4 + s.contentLength + 1 ≤ s.bufferSize)

/-- The declared body is not there yet. -/
def Short (s : ReadState) : Prop :=
  s.headersParsed = true → s.phase = .reading → ∀ p ∈ s.bodyStart,
    (s.bytes.length : Int) - (p.2 + 4) < s.contentLength

theorem le_length_of_strstr_cstr {pat bytes : Bytes} {off : Nat}
    (h : strstr pat (cstr bytes) = some off) : off + pat.length ≤ bytes.length :=
  Nat.le_trans (strstr_add_le h) (cstr_isPrefix bytes).length_le

/-- While the body is not there yet, there is room for it. -/
theorem Good.not_full {s : ReadState} (h : Good s) (hshort : Short s)
    (hparsed : s.headersParsed = true) (hphase : s.phase = .reading) : s.full = false := by
  obtain ⟨off, hbody, hoff, hroom⟩ := h.parsed hparsed (by rw [hphase]; nofun)
  have hlt := hshort hparsed hphase _ hbody
  have hle : off + 4 ≤ s.bytes.length := le_length_of_strstr_cstr hoff
  have hroom := hroom (by simp only at hlt; omega)
  rw [ReadState.full, decide_eq_false_iff_not]
  simp only at hlt
  omega

theorem Good.sound {s : ReadState} (h : Good s) (hshort : Short s) : Sound s where
  exact := h.exact
  tooLarge := h.tooLarge
  notDoubled := h.not_full hshort
  inBuffer hparsed hphase := by
    obtain ⟨off, hbody, hoff, -⟩ := h.parsed hparsed hphase
    exact ⟨off, hbody, hoff⟩

/-! ## The parts of a turn -/

theorem Good.finish {s : ReadState} (h : Good s) (hphase : s.phase = .reading) :
    Good { s with phase := .finished } where
  fits := h.fits
  unparsed := h.unparsed
  exact := h.exact
  tooLarge hr p hp hlt := by
    have := h.tooLarge hr p hp hlt
    rw [hphase] at this
    cases this
  parsed hparsed _ := h.parsed hparsed (by rw [hphase]; nofun)

theorem Good.double {s s' : ReadState} {newBlock : Option Bytes} (h : Good s) (hshort : Short s)
    (hphase : s.phase = .reading) (hs : doubleBuffer s newBlock = some s') : Good s' := by
  obtain ⟨-, rfl⟩ | ⟨hfull, -, rest, rfl⟩ := doubleBuffer_cases hs
  · exact h
  · have hparsed : s.headersParsed = false := by
      by_contra hp
      have := h.not_full hshort (by simpa using hp) hphase
      rw [hfull] at this
      cases this
    refine ⟨?_, h.unparsed, h.exact, h.tooLarge, fun hp => ?_⟩
    · have := h.fits
      simp only
      omega
    · rw [hparsed] at hp
      cases hp

theorem Good.receive {s : ReadState} {data : Bytes} (h : Good s)
    (hlen : s.bytes.length + data.length + 1 ≤ s.bufferSize) : Good (s.receive data) where
  fits := by simpa [ReadState.receive] using hlen
  unparsed := h.unparsed
  exact := h.exact
  tooLarge := h.tooLarge
  parsed hparsed hphase := by
    obtain ⟨off, hbody, hoff, hroom⟩ := h.parsed hparsed hphase
    exact ⟨off, hbody,
      strstr_mono (cstr_mono (List.prefix_append _ _)) hoff, hroom⟩

/-- The declared size is computed as it is meant, and there is room for it afterwards or the request
is answered. -/
theorem Good.makeRoom {s : ReadState} {off : Nat} {grow : Bool}
    (hfits : s.bytes.length + 1 ≤ s.bufferSize) (hparsed : s.headersParsed = true)
    (hbody : s.bodyStart = some (s.block, off))
    (hoff : strstr crlfcrlf (cstr s.bytes) = some off) (htext : s.text = cstr s.bytes)
    (hlo : longMin ≤ s.contentLength) (hhi : (off : Int) + 4 + s.contentLength + 1 ≤ longMax) :
    Good (Server.makeRoom s (off + 4) grow) := by
  have hreq : toLong ((off + 4 : Nat) + s.contentLength + 1) = off + 4 + s.contentLength + 1 := by
    rw [Int.natCast_add]
    refine toLong_eq_self ?_ hhi
    simp only [longMin] at hlo ⊢
    omega
  have hle : off + 4 ≤ s.bytes.length := le_length_of_strstr_cstr hoff
  simp only [Server.makeRoom, hreq]
  split_ifs with hmax hroom hgrow
  · -- too large: answered 413
    refine ⟨hfits, fun h => absurd (hparsed.symm.trans h) (by decide), ?_, fun _ _ _ _ => rfl,
      fun _ h => absurd rfl (h 413)⟩
    rintro r ⟨⟩ p hp
    rw [hbody] at hp
    cases hp
    rfl
  · -- a new block of the declared size
    have hcast : (((off : Int) + 4 + s.contentLength + 1).toNat : Int) =
        off + 4 + s.contentLength + 1 := by omega
    have hnew : (strstr crlfcrlf s.text).map (fun off => (s.block + 1, off)) =
        some (s.block + 1, off) := by rw [htext, hoff]; rfl
    refine ⟨?_, fun h => absurd (hparsed.symm.trans h) (by decide), ?_, ?_, fun _ _ => ?_⟩
    · simp only
      omega
    · rintro r ⟨⟩ p hp
      cases hnew.symm.trans hp
      rfl
    · intro _ p hp hlt
      cases hnew.symm.trans hp
      exact absurd hlt hmax
    · refine ⟨off, hnew, hoff, fun _ => ?_⟩
      simp only [hcast]
      exact Int.le_refl _
  · -- no memory: answered 500
    refine ⟨hfits, fun h => absurd (hparsed.symm.trans h) (by decide), ?_, ?_,
      fun _ h => absurd rfl (h 500)⟩
    · rintro r ⟨⟩ p hp
      rw [hbody] at hp
      cases hp
      rfl
    · intro _ p hp hlt
      rw [hbody] at hp
      cases hp
      exact absurd hlt hmax
  · -- there is room already
    refine ⟨hfits, fun h => absurd (hparsed.symm.trans h) (by decide), ?_, ?_, fun _ _ => ?_⟩
    · rintro r ⟨⟩ p hp
      rw [hbody] at hp
      cases hp
      rfl
    · intro _ p hp hlt
      rw [hbody] at hp
      cases hp
      exact absurd hlt hmax
    · exact ⟨off, hbody, hoff, fun _ => Int.not_lt.1 hroom⟩

theorem Good.findHeaderEnd {s : ReadState} {grow : Bool} (h : Good s)
    (htext : s.text = cstr s.bytes)
    (hsize : s.headersParsed = false → ∀ off ∈ strstr crlfcrlf s.text,
      ∀ n ∈ declaredLength s.text off, (off : Int) + 4 + n + 1 ≤ longMax) :
    Good (Server.findHeaderEnd s grow) := by
  refine findHeaderEnd_rule (fun _ => h) (fun hparsed _ => ?_) (fun hparsed off hoff => ?_)
    fun hparsed off hoff n hn => ?_
  · rw [← (h.unparsed hparsed).1]
    exact h
  · obtain ⟨-, hreq, hzero⟩ := h.unparsed hparsed
    refine ⟨h.fits, nofun, ?_, ?_, fun _ _ => ⟨off, rfl, htext ▸ hoff, ?_⟩⟩
    · rw [hreq]
      nofun
    · rw [hreq]
      nofun
    · rw [hzero]
      nofun
  · exact Good.makeRoom h.fits rfl rfl (htext ▸ hoff) htext (le_declaredLength hn)
      (hsize hparsed off hoff n hn)

/-- The turn ends with the loop left, or with the body not there yet. -/
theorem leaveIfComplete_cases (s : ReadState) (stray : Int) :
    (s.phase = .reading ∧ s.headersParsed = true) ∧
        leaveIfComplete s stray = { s with phase := .finished } ∨
      leaveIfComplete s stray = s ∧
        (s.phase = .reading → s.headersParsed = true → ∀ len ∈ headerLen s stray,
          (s.bytes.length : Int) - len < s.contentLength) := by
  rw [leaveIfComplete]
  cases hlen : headerLen s stray with
  | none => exact Or.inr ⟨rfl, fun _ _ _ h => nomatch h⟩
  | some len =>
    by_cases h : s.phase = .reading ∧ s.headersParsed = true ∧
        (s.bytes.length : Int) - len ≥ s.contentLength
    · exact Or.inl ⟨⟨h.1, h.2.1⟩, if_pos h⟩
    · refine Or.inr ⟨if_neg h, fun hphase hparsed len' hlen' => ?_⟩
      cases hlen'
      exact Int.not_le.1 fun hge => h ⟨hphase, hparsed, hge⟩

theorem Good.leave {s : ReadState} (h : Good s) (stray : Int) :
    Good (leaveIfComplete s stray) ∧ Short (leaveIfComplete s stray) := by
  obtain ⟨⟨hphase, -⟩, he⟩ | ⟨he, hshort⟩ := leaveIfComplete_cases s stray
  · rw [he]
    exact ⟨h.finish hphase, fun _ hr => nomatch hr⟩
  · rw [he]
    refine ⟨h, fun hparsed hphase p hp => ?_⟩
    obtain ⟨off, hbody, -⟩ := h.parsed hparsed (by rw [hphase]; nofun)
    rw [hbody] at hp
    cases hp
    exact hshort hphase hparsed (off + 4) (by rw [headerLen, hbody]; simp)

theorem doubleBuffer_fixed {s s' : ReadState} {newBlock : Option Bytes}
    (h : doubleBuffer s newBlock = some s') :
    s'.phase = s.phase ∧ s'.headersParsed = s.headersParsed ∧ s'.bytes = s.bytes := by
  obtain ⟨-, rfl⟩ | ⟨-, -, rest, rfl⟩ := doubleBuffer_cases h <;> exact ⟨rfl, rfl, rfl⟩

/-- **Every turn keeps the invariant.** -/
theorem Good.readTurn {s : ReadState} {turn : Turn} (h : Good s) (hshort : Short s)
    (hphase : s.phase = .reading) (hpossible : turn.Possible s) (hsize : SizeFits s turn) :
    Good (Server.readTurn s turn) ∧ Short (Server.readTurn s turn) := by
  refine readTurn_rule (P := fun t => Good t ∧ Short t) (fun _ => ?_) (fun s' hdouble _ => ?_)
    fun s' hdouble data hread => ?_
  · exact ⟨h.finish hphase, fun _ hr => nomatch hr⟩
  · have hphase' := (doubleBuffer_fixed hdouble).1.trans hphase
    exact ⟨(h.double hshort hphase hdouble).finish hphase', fun _ hr => nomatch hr⟩
  · obtain ⟨-, hparsed', hbytes'⟩ := doubleBuffer_fixed hdouble
    obtain ⟨hpos, hlen⟩ := hpossible s' hdouble data hread
    have hgood : Good (s'.receive data) := (h.double hshort hphase hdouble).receive (by omega)
    refine (hgood.findHeaderEnd (text_receive s' data) ?_).leave turn.stray
    rw [text_receive, hbytes']
    intro hparsed
    exact hsize (hparsed'.symm.trans hparsed) data hread

theorem good_of_sizeFits {s : ReadState} (h : readMachine.ReachUnder SizeFits s) :
    Good s ∧ Short s := by
  refine h.invariant (I := fun s => Good s ∧ Short s) ?_ ?_
  · rintro s rfl
    exact ⟨⟨by decide, fun _ => ⟨rfl, rfl, rfl⟩, nofun, nofun, nofun⟩, nofun⟩
  · rintro s turn t ⟨hgood, hshort⟩ hsize hs
    obtain ⟨⟨hphase, hpossible⟩, rfl⟩ := readMachine_step_eq_some.1 hs
    exact hgood.readTurn hshort hphase hpossible hsize

/-- **The declared size is handled as it is meant** in every run whose header block declares a size
that fits a `long`. -/
theorem sound_of_sizeFits {s : ReadState} (h : readMachine.ReachUnder SizeFits s) : Sound s := by
  obtain ⟨hgood, hshort⟩ := good_of_sizeFits h
  exact hgood.sound hshort

instance (s : ReadState) (turn : Turn) : Decidable (SizeFits s turn) :=
  inferInstanceAs (Decidable (s.headersParsed = false → ∀ data ∈ turn.read,
    ∀ off ∈ strstr crlfcrlf (cstr (s.bytes ++ data)),
      ∀ n ∈ declaredLength (cstr (s.bytes ++ data)) off, (off : Int) + 4 + n + 1 ≤ longMax))

/-- A request that declares five bytes and has sent two of them. -/
theorem sound_of_waiting :
    ∃ s, readMachine.runUnder SizeFits .start
        [.whole "POST / HTTP/1.1\r\nContent-Length: 5\r\n\r\nab"] = some s ∧
      s.requiredSize = some 44 ∧ Sound s := by
  have hrun : (readMachine.runUnder SizeFits .start
      [.whole "POST / HTTP/1.1\r\nContent-Length: 5\r\n\r\nab"]).map (·.requiredSize) =
        some (some 44) := by decide +kernel
  obtain ⟨s, hs, hreq⟩ := Option.map_eq_some_iff.1 hrun
  exact ⟨s, hs, hreq, sound_of_sizeFits (Machine.reachUnder_of_runUnder (.start rfl) hs)⟩

/-! ## Sizes beyond a `long` -/

theorem makeRoom_fields (grow : Bool) {s : ReadState} {off : Nat}
    (hbody : s.bodyStart = some (s.block, off)) (hoff : strstr crlfcrlf s.text = some off) :
    (makeRoom s (off + 4) grow).requiredSize =
        some (toLong ((off + 4 : Nat) + s.contentLength + 1)) ∧
      (makeRoom s (off + 4) grow).contentLength = s.contentLength ∧
      ∃ b, (makeRoom s (off + 4) grow).bodyStart = some (b, off) := by
  simp only [makeRoom]
  split_ifs
  · exact ⟨rfl, rfl, _, hbody⟩
  · refine ⟨rfl, rfl, s.block + 1, ?_⟩
    have hnew : (strstr crlfcrlf s.text).map (fun off => (s.block + 1, off)) =
        some (s.block + 1, off) := by rw [hoff]; rfl
    exact hnew
  · exact ⟨rfl, rfl, _, hbody⟩
  · exact ⟨rfl, rfl, _, hbody⟩

/-- What a turn reads that does not meet the condition. -/
theorem read_of_not_sizeFits {s s' : ReadState} {turn : Turn} (h : ¬ SizeFits s turn)
    (hdouble : doubleBuffer s turn.newBlock = some s') :
    s'.headersParsed = false ∧ ∃ data off n, turn.read = some data ∧
      strstr crlfcrlf (s'.receive data).text = some off ∧
      declaredLength (s'.receive data).text off = some n ∧ longMax < (off : Int) + 4 + n + 1 ∧
      findHeaderEnd (s'.receive data) turn.grow = makeRoom { s'.receive data with
        headersParsed := true, bodyStart := some (s'.block, off), contentLength := n }
        (off + 4) turn.grow := by
  simp only [SizeFits, not_forall, Int.not_le] at h
  obtain ⟨hparsed, data, hread, off, hoff, n, hn, hsize⟩ := h
  obtain ⟨-, hparsed', hbytes'⟩ := doubleBuffer_fixed hdouble
  rw [hparsed] at hparsed'
  have hoff' : strstr crlfcrlf (s'.receive data).text = some off := by
    rw [text_receive, hbytes']
    exact hoff
  have hn' : declaredLength (s'.receive data).text off = some n := by
    rw [text_receive, hbytes']
    exact hn
  refine ⟨hparsed', data, off, n, hread, hoff', hn', hsize, ?_⟩
  obtain ⟨hnone, -⟩ | ⟨off', hoff'', ⟨hnone, -⟩ | ⟨n', hn'', he⟩⟩ :=
    findHeaderEnd_cases (s := s'.receive data) hparsed' turn.grow
  · cases hnone.symm.trans hoff'
  · cases hoff'.symm.trans hoff''
    cases hnone.symm.trans hn'
  · cases hoff'.symm.trans hoff''
    cases hn'.symm.trans hn''
    exact he

/-- In front of the header end, the buffer was only doubled, and no length was taken. -/
theorem bufferSize_le_of_reach {s : ReadState} (h : readMachine.Reach s) :
    s.headersParsed = false → s.bufferSize ≤ maxBufferSize ∧ s.contentLength = 0 := by
  refine h.invariant (I := fun s : ReadState => s.headersParsed = false →
    s.bufferSize ≤ maxBufferSize ∧ s.contentLength = 0) ?_ ?_
  · rintro s rfl -
    exact ⟨by decide, rfl⟩
  · rintro s turn t hI - hs
    obtain ⟨-, rfl⟩ := readMachine_step_eq_some.1 hs
    have hdoubled : ∀ s', doubleBuffer s turn.newBlock = some s' → s'.headersParsed = false →
        s'.bufferSize ≤ maxBufferSize ∧ s'.contentLength = 0 := by
      intro s' hdouble hparsed
      obtain ⟨-, rfl⟩ | ⟨-, hmax, rest, rfl⟩ := doubleBuffer_cases hdouble
      · exact hI hparsed
      · exact ⟨Nat.mul_comm 2 _ ▸ hmax, (hI hparsed).2⟩
    refine readTurn_rule (P := fun t : ReadState => t.headersParsed = false →
      t.bufferSize ≤ maxBufferSize ∧ t.contentLength = 0) (fun _ => hI)
      (fun s' hdouble _ => hdoubled s' hdouble) fun s' hdouble data _ => ?_
    have hfound : (findHeaderEnd (s'.receive data) turn.grow).headersParsed = false →
        (findHeaderEnd (s'.receive data) turn.grow).bufferSize ≤ maxBufferSize ∧
          (findHeaderEnd (s'.receive data) turn.grow).contentLength = 0 := by
      refine findHeaderEnd_rule (P := fun t : ReadState => t.headersParsed = false →
        t.bufferSize ≤ maxBufferSize ∧ t.contentLength = 0) (fun hp hn => ?_)
        (fun hn _ _ => hdoubled s' hdouble hn) (fun _ _ _ hn => nomatch hn) fun _ off _ n _ hn => ?_
      · exact absurd (hp.symm.trans hn) (by decide)
      · rw [makeRoom] at hn
        split_ifs at hn
    obtain ⟨-, he⟩ | ⟨he, -⟩ := leaveIfComplete_cases (findHeaderEnd (s'.receive data) turn.grow) turn.stray
    · rw [he]
      exact hfound
    · rw [he]
      exact hfound

/-- Behind the header end, the length stays. -/
theorem contentLength_readTurn {s : ReadState} (h : s.headersParsed = true) (turn : Turn) :
    (readTurn s turn).contentLength = s.contentLength := by
  have hdoubled : ∀ s', doubleBuffer s turn.newBlock = some s' →
      s'.headersParsed = true ∧ s'.contentLength = s.contentLength := by
    intro s' hdouble
    obtain ⟨-, rfl⟩ | ⟨-, -, rest, rfl⟩ := doubleBuffer_cases hdouble
    · exact ⟨h, rfl⟩
    · exact ⟨h, rfl⟩
  refine readTurn_rule (P := fun t : ReadState => t.contentLength = s.contentLength) (fun _ => rfl)
    (fun s' hdouble _ => (hdoubled s' hdouble).2) fun s' hdouble data _ => ?_
  obtain ⟨hparsed, hlen⟩ := hdoubled s' hdouble
  have hfound : findHeaderEnd (s'.receive data) turn.grow = s'.receive data := if_pos hparsed
  rw [hfound]
  obtain ⟨-, he⟩ | ⟨he, -⟩ := leaveIfComplete_cases (s'.receive data) turn.stray
  · rw [he]
    exact hlen
  · rw [he]
    exact hlen

/-- **A run to a length that is an `int` has read no size beyond a `long`.** -/
theorem reachUnder_sizeFits {s : ReadState} (h : readMachine.Reach s) :
    s.contentLength ≤ 2 ^ 31 → readMachine.ReachUnder SizeFits s := by
  induction h with
  | start h => exact fun _ => .start h
  | @next s t turn hr _ hs ih =>
    intro hsmall
    obtain ⟨⟨hphase, hpossible⟩, rfl⟩ := readMachine_step_eq_some.1 hs
    cases hparsed : s.headersParsed with
    | true =>
      rw [contentLength_readTurn hparsed] at hsmall
      exact .next (ih hsmall) (fun hn => absurd (hparsed.symm.trans hn) (by decide)) hs
    | false =>
      obtain ⟨hbuffer, hzero⟩ := bufferSize_le_of_reach hr hparsed
      have hreach := ih (by rw [hzero]; decide)
      by_cases hfits : SizeFits s turn
      · exact .next hreach hfits hs
      · cases hdouble : doubleBuffer s turn.newBlock with
        | none =>
          -- the loop is left in front of the read, whatever there is to be read
          have hturn : readTurn s { turn with read := none } = readTurn s turn := by
            rw [readTurn, readTurn, hdouble]
          exact .next (a := { turn with read := none }) hreach (fun _ data hd => nomatch hd)
            (readMachine_step_eq_some.2 ⟨⟨hphase, fun _ _ data hd => nomatch hd⟩, hturn⟩)
        | some s' =>
          obtain ⟨-, data, off, n, hread, hoff, hn, hsize, he⟩ := read_of_not_sizeFits hfits hdouble
          obtain ⟨-, hroom⟩ := hpossible s' hdouble data hread
          have hoff' : off + 4 ≤ s'.bytes.length + data.length := by
            rw [text_receive] at hoff
            have hle := le_length_of_strstr_cstr hoff
            rwa [List.length_append] at hle
          have hsize' : s'.bufferSize ≤ maxBufferSize := by
            obtain ⟨-, rfl⟩ | ⟨-, hmax, rest, rfl⟩ := doubleBuffer_cases hdouble
            · exact hbuffer
            · exact Nat.mul_comm 2 _ ▸ hmax
          have hlength : (readTurn s turn).contentLength = n := by
            have hmade := (makeRoom_fields turn.grow (s := { s'.receive data with
              headersParsed := true, bodyStart := some (s'.block, off), contentLength := n }) rfl hoff).2.1
            rw [readTurn, hdouble, hread]
            simp only
            obtain ⟨-, hleave⟩ | ⟨hleave, -⟩ :=
              leaveIfComplete_cases (findHeaderEnd (s'.receive data) turn.grow) turn.stray
            · rw [hleave, he]
              exact hmade
            · rw [hleave, he]
              exact hmade
          rw [hlength] at hsmall
          simp only [maxBufferSize, longMax] at hsize' hsize
          omega

/-- **A size beyond a `long` is computed wrong**: the condition of `sound_of_sizeFits` is needed at
every turn. -/
theorem not_sound_of_not_sizeFits {s : ReadState} {turn : Turn} (h : ¬ SizeFits s turn)
    (hdouble : (doubleBuffer s turn.newBlock).isSome = true) : ¬ Sound (readTurn s turn) := by
  obtain ⟨s', hs'⟩ := Option.isSome_iff_exists.1 hdouble
  obtain ⟨-, data, off, n, hread, hoff, hn, hsize, he⟩ := read_of_not_sizeFits h hs'
  have hturn : readTurn s turn =
      leaveIfComplete (findHeaderEnd (s'.receive data) turn.grow) turn.stray := by
    rw [readTurn, hs', hread]
  rw [hturn]
  intro hsound
  have hexact : ∀ r ∈ (findHeaderEnd (s'.receive data) turn.grow).requiredSize,
      ∀ p ∈ (findHeaderEnd (s'.receive data) turn.grow).bodyStart,
        r = p.2 + 4 + (findHeaderEnd (s'.receive data) turn.grow).contentLength + 1 := by
    obtain ⟨-, he⟩ | ⟨he, -⟩ :=
      leaveIfComplete_cases (findHeaderEnd (s'.receive data) turn.grow) turn.stray <;>
      rw [he] at hsound <;> exact hsound.exact
  obtain ⟨hreq, hlen, b, hbody⟩ := makeRoom_fields turn.grow (s := { s'.receive data with
    headersParsed := true, bodyStart := some (s'.block, off), contentLength := n }) rfl hoff
  have := hexact _ ((congrArg ReadState.requiredSize he).trans hreq) _
    ((congrArg ReadState.bodyStart he).trans hbody)
  rw [(congrArg ReadState.contentLength he).trans hlen] at this
  refine Int.not_le.2 hsize (Int.le_trans (Int.le_of_eq ?_) (toLong_le ((off + 4 : Nat) + n + 1)))
  exact this.symm

/-- **Not every run is sound**: `Content-Length: 9223372036854775807` is enough. -/
theorem not_sound : ¬ ∀ s, readMachine.Reach s → Sound s := by
  intro h
  have hsize : ¬ SizeFits .start
      (.whole "POST / HTTP/1.1\r\nContent-Length: 9223372036854775807\r\n\r\n") := by
    decide +kernel
  exact not_sound_of_not_sizeFits hsize rfl (h _ (.next (.start rfl) trivial
    (if_pos ⟨rfl, by decide +kernel⟩)))

end Server
end Arws

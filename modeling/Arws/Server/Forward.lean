import Arws.Server.Request

/-!
# The body that is forwarded

`arws_build_http_request` writes a request for an upstream or a backend and appends the body bytes
that are in the buffer: `body_length_in_buffer` of them, as far as there is room.  That number is
what was received behind the header block, while the request declares a length of its own.

* `ForwardsDeclared` — no byte behind the declared body is forwarded.
* `forwardsDeclared_iff` — the last read decides: it must not deliver a byte from behind the
  declared end.
-/

set_option autoImplicit false

namespace Arws
namespace Server

open CString

/-! ## Building the request -/

inductive BuildError
  /-- `-1` is returned. -/
  | failed
  /-- The code goes on with `pos = -1` and writes before the buffer. -/
  | undefined
  deriving DecidableEq

/-- `append_str`, for the text the format makes. -/
def appendStr (bufsize : Nat) (buf text : Bytes) : Except BuildError Bytes :=
  if buf.length + text.length < bufsize then .ok (buf ++ text) else .error .failed

def isConnection (name : Bytes) : Bool :=
  strcaseeq name (ascii "Connection") || strcaseeq name (ascii "Proxy-Connection")

def connectionClose : Bytes := ascii "Connection: close" ++ crlf

/-- One turn of the loop over the header fields.  The result of the `append_str` for a `Connection`
field is not checked. -/
def appendHeader (bufsize : Nat) (buf : Bytes) (h : HttpHeader) : Except BuildError Bytes :=
  if isConnection h.name then
    match appendStr bufsize buf connectionClose with
    | .ok buf => .ok buf
    | .error _ => .error .undefined
  else appendStr bufsize buf (h.name ++ ascii ": " ++ h.value ++ crlf)

/-- The request without its body. -/
def buildHead (clientIp : Bytes) (req : HttpRequest) (bufsize : Nat) : Except BuildError Bytes := do
  let buf ← appendStr bufsize [] (req.method ++ ascii " " ++ req.path)
  let query := req.queryParams.getD []
  let buf ← if query.isEmpty then .ok buf else appendStr bufsize buf (ascii "?" ++ query)
  let buf ← appendStr bufsize buf (ascii " HTTP/1.1" ++ crlf)
  let buf ← req.headers.foldlM (appendHeader bufsize) buf
  let hasHost := req.headers.any fun h => strcaseeq h.name (ascii "Host")
  let buf ← if !hasHost && !req.host.isEmpty then
      appendStr bufsize buf (ascii "Host: " ++ req.host ++ crlf)
    else .ok buf
  let buf ← appendStr bufsize buf (ascii "X-Forwarded-For: " ++ clientIp ++ crlf)
  let buf ← if req.headers.any fun h => isConnection h.name then .ok buf
    else appendStr bufsize buf connectionClose
  appendStr bufsize buf crlf

/-- The body bytes that are copied behind a head of this length. -/
def copiedBody (req : HttpRequest) (rem : Nat) : Bytes :=
  if 0 < req.bodyLengthInBuffer then req.body.take (min req.bodyLengthInBuffer.toNat rem) else []

/-- `arws_build_http_request`: the head and the body bytes of the request it builds. -/
def arwsBuildHttpRequest (clientIp : Bytes) (req : HttpRequest) (bufsize : Nat) :
    Except BuildError (Bytes × Bytes) :=
  (buildHead clientIp req bufsize).map fun head => (head, copiedBody req (bufsize - head.length))

theorem arwsBuildHttpRequest_eq_ok {clientIp head body : Bytes} {req : HttpRequest} {bufsize : Nat}
    (h : arwsBuildHttpRequest clientIp req bufsize = .ok (head, body)) :
    buildHead clientIp req bufsize = .ok head ∧ body = copiedBody req (bufsize - head.length) := by
  cases hhead : buildHead clientIp req bufsize with
  | error e =>
    rw [arwsBuildHttpRequest, hhead] at h
    cases h
  | ok head' =>
    rw [arwsBuildHttpRequest, hhead] at h
    cases h
    exact ⟨rfl, rfl⟩

/-! ## The declared body -/

/-- The length a request declares: what was taken from `Content-Length`, 0 when it is absent or
negative. -/
def framingLength (s : ReadState) : Nat := s.contentLength.toNat

/-- **Only the declared body is forwarded**: the request has at most the declared length in its
buffer, and what is copied behind a head is a prefix of the declared body. -/
def ForwardsDeclared (s : ReadState) (req : HttpRequest) : Prop :=
  req.bodyLengthInBuffer ≤ framingLength s ∧
    ∀ clientIp bufsize head body, arwsBuildHttpRequest clientIp req bufsize = .ok (head, body) →
      ∀ p ∈ lastBodyStart s, body <+: (s.bytes.drop (p.2 + 4)).take (framingLength s)

/-- Where the declared body ends in the stream, as far as it is known once `data` is read. -/
def declaredEnd (s : ReadState) (data : Bytes) : Option Nat :=
  if s.headersParsed then s.bodyStart.map fun p => p.2 + 4 + framingLength s
  else
    let text := cstr (s.bytes ++ data)
    (strstr crlfcrlf text).map fun off => off + 4 + ((declaredLength text off).getD 0).toNat

/-- The read of the turn, if it comes to one, delivers no byte from behind the declared end. -/
def WithinDeclared (s : ReadState) (turn : Turn) : Prop :=
  ∀ s' ∈ doubleBuffer s turn.newBlock, ∀ data ∈ turn.read, ∀ e ∈ declaredEnd s' data,
    (s'.bytes ++ data).length ≤ e

/-! ## What the loop has seen -/

/-- While the loop reads, the buffer ends behind the bytes received, and a header end in them was
found. -/
structure Scanned (s : ReadState) : Prop where
  rest : s.phase = .reading → s.rest = [0]
  unseen : s.headersParsed = false → strstr crlfcrlf (cstr s.bytes) = none

theorem makeRoom_fixed (s : ReadState) (len : Nat) (grow : Bool) :
    (makeRoom s len grow).bytes = s.bytes ∧ (makeRoom s len grow).rest = s.rest ∧
      (makeRoom s len grow).headersParsed = s.headersParsed := by
  simp only [makeRoom]
  split_ifs <;> exact ⟨rfl, rfl, rfl⟩

theorem Scanned.findHeaderEnd {s : ReadState} {grow : Bool} (h : s.rest = [0])
    (htext : s.text = cstr s.bytes) : Scanned (findHeaderEnd s grow) := by
  refine findHeaderEnd_rule (fun hparsed => ?_) (fun _ hnone => ?_) (fun _ off _ => ?_)
    fun _ off _ n _ => ?_
  · exact ⟨fun _ => h, fun hp => absurd (hparsed.symm.trans hp) (by decide)⟩
  · exact ⟨fun _ => h, fun _ => htext ▸ hnone⟩
  · exact ⟨fun _ => h, fun hfalse => by cases hfalse⟩
  · obtain ⟨-, hrest, hp⟩ := makeRoom_fixed { s with
      headersParsed := true, bodyStart := some (s.block, off), contentLength := n } (off + 4) grow
    exact ⟨fun _ => hrest.trans h, fun hfalse => by cases hp.symm.trans hfalse⟩

/-- Once the loop is left, it does not matter what stands behind the bytes received. -/
theorem Scanned.finish {s : ReadState}
    (h : s.headersParsed = false → strstr crlfcrlf (cstr s.bytes) = none) :
    Scanned { s with phase := .finished } where
  rest hreading := by cases hreading
  unseen := h

theorem Scanned.leave {s : ReadState} (h : Scanned s) (stray : Int) :
    Scanned (leaveIfComplete s stray) := by
  obtain ⟨-, he⟩ | ⟨he, -⟩ := leaveIfComplete_cases s stray <;> rw [he]
  · exact .finish h.unseen
  · exact h

theorem Scanned.readTurn {s : ReadState} (h : Scanned s) (turn : Turn) :
    Scanned (readTurn s turn) := by
  refine readTurn_rule (fun _ => .finish h.unseen) (fun s' hdouble _ => ?_) fun s' _ data _ => ?_
  · obtain ⟨-, hparsed, hbytes⟩ := doubleBuffer_fixed hdouble
    exact .finish (by rw [hparsed, hbytes]; exact h.unseen)
  · exact (Scanned.findHeaderEnd rfl (text_receive s' data)).leave turn.stray

/-- The room for the declared body is made, or the request is answered. -/
theorem makeRoom_phase {s : ReadState} (len : Nat) (grow : Bool) (hphase : s.phase = .reading) :
    (makeRoom s len grow).phase ≠ .finished := by
  simp only [makeRoom]
  split_ifs <;> simp [hphase]

/-- The search for the header end leaves the loop only by an answer. -/
theorem findHeaderEnd_phase {s : ReadState} (grow : Bool) (hphase : s.phase = .reading) :
    (findHeaderEnd s grow).phase ≠ .finished := by
  have hreading : s.phase ≠ .finished := by rw [hphase]; decide
  exact findHeaderEnd_rule (P := fun t => t.phase ≠ .finished) (fun _ => hreading)
    (fun _ _ => hreading) (fun _ _ _ => hreading) fun _ _ _ _ _ => makeRoom_phase _ grow hphase

/-- The declared end is where the loop takes it to be. -/
theorem declaredEnd_findHeaderEnd {s : ReadState} {data : Bytes} {grow : Bool} {p : Nat × Nat}
    (h : Good s) (hp : (findHeaderEnd (s.receive data) grow).bodyStart = some p) :
    declaredEnd s data =
      some (p.2 + 4 + framingLength (findHeaderEnd (s.receive data) grow)) := by
  cases hparsed : s.headersParsed with
  | true =>
    have he : findHeaderEnd (s.receive data) grow = s.receive data := by
      rw [findHeaderEnd]
      exact if_pos hparsed
    rw [he] at hp ⊢
    rw [declaredEnd, if_pos hparsed, show s.bodyStart = some p from hp]
    rfl
  | false =>
    obtain ⟨-, -, hzero⟩ := h.unparsed hparsed
    rw [declaredEnd, if_neg (by rw [hparsed]; decide)]
    obtain ⟨-, he⟩ | ⟨off, hoff, ⟨hn, he⟩ | ⟨n, hn, he⟩⟩ :=
      findHeaderEnd_cases (s := s.receive data) hparsed grow
    · rw [he] at hp
      cases hp
    · rw [text_receive] at hoff hn
      rw [he] at hp ⊢
      cases hp
      simp only [hoff, hn, Option.map_some, Option.getD_none, framingLength]
      rw [show (s.receive data).contentLength = 0 from hzero]
    · obtain ⟨-, hlen, b, hbody⟩ := makeRoom_fields grow (s := { s.receive data with
        headersParsed := true, bodyStart := some (s.block, off), contentLength := n }) rfl hoff
      rw [text_receive] at hoff hn
      cases (congrArg ReadState.bodyStart he).symm.trans hp |>.symm.trans hbody
      simp only [hoff, hn, Option.map_some, Option.getD_some, framingLength]
      rw [(congrArg ReadState.contentLength he).trans hlen]

theorem scanned_of_reach {s : ReadState} (h : readMachine.Reach s) : Scanned s := by
  refine h.invariant (I := Scanned) ?_ ?_
  · rintro s rfl
    exact ⟨fun _ => rfl, fun _ => rfl⟩
  · rintro s turn t hscanned - hs
    obtain ⟨-, rfl⟩ := readMachine_step_eq_some.1 hs
    exact hscanned.readTurn turn

/-- The buffer holds what was received, and is not beyond the limit. -/
structure Bounded (s : ReadState) : Prop where
  fits : s.bytes.length + 1 ≤ s.bufferSize
  limit : s.bufferSize ≤ maxBufferSize

theorem Bounded.double {s s' : ReadState} {newBlock : Option Bytes} (h : Bounded s)
    (hs : doubleBuffer s newBlock = some s') : Bounded s' := by
  obtain ⟨-, rfl⟩ | ⟨-, hmax, rest, rfl⟩ := doubleBuffer_cases hs
  · exact h
  · have := h.fits
    exact ⟨by simp only; omega, hmax⟩

theorem Bounded.makeRoom {s : ReadState} (h : Bounded s) (headerLen : Nat) (grow : Bool) :
    Bounded (makeRoom s headerLen grow) := by
  have := h.fits
  simp only [Server.makeRoom]
  split_ifs with hmax hroom
  · exact ⟨h.fits, h.limit⟩
  · exact ⟨by simp only; omega, by simp only; omega⟩
  · exact ⟨h.fits, h.limit⟩
  · exact ⟨h.fits, h.limit⟩

theorem Bounded.findHeaderEnd {s : ReadState} (h : Bounded s) (grow : Bool) :
    Bounded (findHeaderEnd s grow) := by
  refine findHeaderEnd_rule (fun _ => h) (fun _ _ => ⟨h.fits, h.limit⟩)
    (fun _ _ _ => ⟨h.fits, h.limit⟩) fun _ off _ n _ => ?_
  have h' : Bounded { s with
      headersParsed := true, bodyStart := some (s.block, off), contentLength := n } :=
    ⟨h.fits, h.limit⟩
  exact h'.makeRoom _ _

theorem Bounded.leave {s : ReadState} (h : Bounded s) (stray : Int) :
    Bounded (leaveIfComplete s stray) := by
  obtain ⟨-, he⟩ | ⟨he, -⟩ := leaveIfComplete_cases s stray <;> rw [he]
  · exact ⟨h.fits, h.limit⟩
  · exact h

theorem Bounded.receive {s : ReadState} {data : Bytes} (h : Bounded s)
    (hlen : s.bytes.length + data.length ≤ s.bufferSize - 1) : Bounded (s.receive data) := by
  have := h.fits
  exact ⟨by simp only [ReadState.receive, List.length_append]; omega, h.limit⟩

theorem Bounded.readTurn {s : ReadState} {turn : Turn} (h : Bounded s)
    (hpossible : turn.Possible s) : Bounded (readTurn s turn) := by
  refine readTurn_rule (fun _ => ⟨h.fits, h.limit⟩) (fun s' hdouble _ => ?_)
    fun s' hdouble data hread => ?_
  · have h' := h.double hdouble
    exact ⟨h'.fits, h'.limit⟩
  · have h' := (h.double hdouble).receive (hpossible s' hdouble data hread).2
    exact (h'.findHeaderEnd turn.grow).leave turn.stray

theorem bounded_of_reach {s : ReadState} (h : readMachine.Reach s) : Bounded s := by
  refine h.invariant (I := Bounded) ?_ ?_
  · rintro s rfl
    exact ⟨by decide, by decide⟩
  · rintro s turn t hbounded - hs
    obtain ⟨⟨-, hpossible⟩, rfl⟩ := readMachine_step_eq_some.1 hs
    exact hbounded.readTurn hpossible

/-! ## Sizes beyond a long -/

/-- A length was declared that is more than the buffer ever holds. -/
structure Beyond (s : ReadState) : Prop where
  parsed : s.headersParsed = true
  large : (maxBufferSize : Int) ≤ s.contentLength

theorem Beyond.length_le {s : ReadState} (h : Beyond s) (hb : Bounded s) :
    s.bytes.length ≤ framingLength s := by
  have := h.large
  have := hb.fits
  have := hb.limit
  rw [framingLength]
  omega

theorem Beyond.leave {s : ReadState} (h : Beyond s) (stray : Int) :
    Beyond (leaveIfComplete s stray) := by
  obtain ⟨-, he⟩ | ⟨he, -⟩ := leaveIfComplete_cases s stray <;> rw [he]
  · exact ⟨h.parsed, h.large⟩
  · exact h

theorem Beyond.double {s s' : ReadState} {newBlock : Option Bytes} (h : Beyond s)
    (hs : doubleBuffer s newBlock = some s') : Beyond s' := by
  obtain ⟨-, rfl⟩ | ⟨-, -, rest, rfl⟩ := doubleBuffer_cases hs
  · exact h
  · exact ⟨h.parsed, h.large⟩

theorem Beyond.findHeaderEnd {s : ReadState} (h : Beyond s) (data : Bytes) (grow : Bool) :
    Beyond (findHeaderEnd (s.receive data) grow) := by
  rw [Server.findHeaderEnd, if_pos (show (s.receive data).headersParsed = true from h.parsed)]
  exact ⟨h.parsed, h.large⟩

theorem Beyond.readTurn {s : ReadState} (h : Beyond s) (turn : Turn) : Beyond (readTurn s turn) := by
  refine readTurn_rule (fun _ => ⟨h.parsed, h.large⟩) (fun s' hdouble _ => ?_)
    fun s' hdouble data _ => ?_
  · have h' := h.double hdouble
    exact ⟨h'.parsed, h'.large⟩
  · exact ((h.double hdouble).findHeaderEnd data turn.grow).leave turn.stray

/-- A turn that reads a size beyond a `long` has no room made for it. -/
theorem beyond_of_not_sizeFits {s s' : ReadState} {turn : Turn} (h : ¬ SizeFits s turn)
    (hdouble : doubleBuffer s turn.newBlock = some s') (hb : Bounded s')
    (hpossible : turn.Possible s) :
    ∃ data, turn.read = some data ∧
      (∀ e ∈ declaredEnd s' data, (s'.bytes ++ data).length ≤ e) ∧
      Beyond (findHeaderEnd (s'.receive data) turn.grow) := by
  obtain ⟨hparsed, data, off, n, hread, hoff, hn, hsize, he⟩ := read_of_not_sizeFits h hdouble
  have hlen := (hpossible s' hdouble data hread).2
  have hle := le_length_of_strstr_cstr (text_receive s' data ▸ hoff)
  have hfits := hb.fits
  have hlimit := hb.limit
  have hmax : longMax = 2 ^ 63 - 1 := rfl
  have hmax' : maxBufferSize = 10485760 := rfl
  rw [List.length_append, show crlfcrlf.length = 4 from rfl] at hle
  have hlarge : (maxBufferSize : Int) ≤ n := by omega
  refine ⟨data, hread, fun e hdecl => ?_, ?_⟩
  · rw [text_receive] at hoff hn
    rw [declaredEnd, if_neg (by rw [hparsed]; decide)] at hdecl
    simp only [hoff, hn, Option.map_some, Option.getD_some, Option.mem_some_iff] at hdecl
    rw [List.length_append]
    omega
  · obtain ⟨-, hcontent, -⟩ := makeRoom_fields turn.grow (s := { s'.receive data with
      headersParsed := true, bodyStart := some (s'.block, off), contentLength := n }) rfl hoff
    rw [he]
    exact ⟨(makeRoom_fixed _ _ _).2.2, by rw [hcontent]; exact hlarge⟩

/-- Every run keeps the invariant of the loop or has declared a length beyond its buffer. -/
theorem good_or_beyond {s : ReadState} (h : readMachine.Reach s) :
    Good s ∧ Short s ∨ Beyond s := by
  induction h with
  | start h =>
    obtain rfl := h
    exact Or.inl (good_of_sizeFits (.start rfl))
  | @next s t turn hr _ hs ih =>
    obtain ⟨⟨hphase, hpossible⟩, rfl⟩ := readMachine_step_eq_some.1 hs
    obtain ⟨hgood, hshort⟩ | hbeyond := ih
    · by_cases hsize : SizeFits s turn
      · exact Or.inl (hgood.readTurn hshort hphase hpossible hsize)
      · rw [readTurn]
        cases hdouble : doubleBuffer s turn.newBlock with
        | none => exact Or.inl ⟨hgood.finish hphase, fun _ hr => by cases hr⟩
        | some s' =>
          obtain ⟨data, hread, -, hbeyond⟩ :=
            beyond_of_not_sizeFits hsize hdouble ((bounded_of_reach hr).double hdouble) hpossible
          simp only [hread]
          exact Or.inr (hbeyond.leave turn.stray)
    · exact Or.inr (hbeyond.readTurn turn)

/-! ## What is forwarded -/

/-- A request that goes on has a header block in the buffer, and the body behind it. -/
theorem parseRequest_body {env : ParseEnv} {s : ReadState} {fullPath : Bytes} {req : HttpRequest}
    (h : parseRequest env s = .request fullPath req) :
    ∃ off, lastBodyStart s = some (s.block, off) ∧
      req.body = bodyInBuffer s (off + 4) ∧
      req.bodyLengthInBuffer = (s.bytes.length : Int) - (off + 4) := by
  obtain ⟨off, hlast, hok⟩ := parseRequest_eq_request h
  obtain ⟨-, -, -, -, hbody, hlen⟩ := parseHead_eq_ok hok
  exact ⟨off, hlast, hbody, hlen⟩

/-- A body that is not longer than it declares is as it was received. -/
theorem bodyInBuffer_eq {s : ReadState} {headerLen : Nat}
    (h : s.bytes.length - headerLen ≤ framingLength s) :
    bodyInBuffer s headerLen = s.bytes.drop headerLen := by
  simp only [bodyInBuffer]
  split
  · exact List.set_eq_of_length_le (by rw [List.length_drop]; exact h)
  · rfl

/-- What is copied behind a head is part of the declared body, if no more than that is there. -/
theorem copiedBody_isPrefix {s : ReadState} {req : HttpRequest} {off rem : Nat}
    (hbody : req.body = bodyInBuffer s (off + 4))
    (hlen : req.bodyLengthInBuffer = (s.bytes.length : Int) - (off + 4))
    (hle : s.bytes.length ≤ off + 4 + framingLength s) :
    copiedBody req rem <+: (s.bytes.drop (off + 4)).take (framingLength s) := by
  rw [copiedBody]
  split
  · rw [hbody, bodyInBuffer_eq (by omega)]
    refine List.prefix_take_iff.2 ⟨List.take_prefix _ _, ?_⟩
    rw [List.length_take, List.length_drop]
    omega
  · exact List.nil_prefix

theorem forwardsDeclared_iff_length {s : ReadState} {req : HttpRequest} {off : Nat}
    (hp : ∀ p ∈ lastBodyStart s, p.2 = off) (hbody : req.body = bodyInBuffer s (off + 4))
    (hlen : req.bodyLengthInBuffer = (s.bytes.length : Int) - (off + 4)) :
    ForwardsDeclared s req ↔ s.bytes.length ≤ off + 4 + framingLength s := by
  constructor
  · rintro ⟨hle, -⟩
    rw [hlen] at hle
    omega
  · intro hle
    refine ⟨by rw [hlen]; omega, fun clientIp bufsize head body hbuild p hpb => ?_⟩
    rw [hp p hpb, (arwsBuildHttpRequest_eq_ok hbuild).2]
    exact copiedBody_isPrefix hbody hlen hle

/-- A header end that is in sight only with what stands behind the bytes received is not all in
them. -/
theorem length_lt_of_unseen {bytes rest : Bytes} {off : Nat}
    (hnone : strstr crlfcrlf (cstr bytes) = none)
    (h : strstr crlfcrlf (cstr (bytes ++ rest)) = some off) : bytes.length < off + 4 := by
  by_contra hlt
  have hzero : (0 : UInt8) ∉ bytes := by
    intro hmem
    rw [cstr_append_of_mem hmem, hnone] at h
    cases h
  rw [cstr_append hzero] at h
  have := strstr_take h (m := bytes.length) (by simpa [crlfcrlf] using Nat.not_lt.1 hlt)
  rw [List.take_left, ← cstr_eq_self hzero, hnone] at this
  cases this

theorem findHeaderEnd_bytes (s : ReadState) (grow : Bool) :
    (findHeaderEnd s grow).bytes = s.bytes :=
  findHeaderEnd_rule (P := fun t => t.bytes = s.bytes) (fun _ => rfl) (fun _ _ => rfl)
    (fun _ _ _ => rfl) fun _ _ _ _ _ => (makeRoom_fixed _ _ _).1

/-- A loop that was left by a read has found the header end, and the declared end is where it takes
it to be. -/
theorem finished_by_read {s t : ReadState} {data : Bytes} {grow : Bool} {stray : Int} (h : Good s)
    (ht : leaveIfComplete (findHeaderEnd (s.receive data) grow) stray = t) (hgood : Good t)
    (hphase : s.phase = .reading) (hfin : t.phase = .finished) :
    t.bytes = s.bytes ++ data ∧ ∃ off, t.bodyStart = some (t.block, off) ∧
      declaredEnd s data = some (off + 4 + framingLength t) := by
  obtain ⟨⟨-, hparsed⟩, he⟩ | ⟨he, -⟩ :=
    leaveIfComplete_cases (findHeaderEnd (s.receive data) grow) stray
  · rw [he] at ht
    subst ht
    obtain ⟨off, hbody, -⟩ := hgood.parsed hparsed fun status h => by cases h
    exact ⟨findHeaderEnd_bytes (s.receive data) grow, off, hbody, declaredEnd_findHeaderEnd h hbody⟩
  · rw [he] at ht
    subst ht
    exact absurd hfin (findHeaderEnd_phase grow hphase)

theorem lastBodyStart_of_some {s : ReadState} {p : Nat × Nat} (h : s.bodyStart = some p) :
    lastBodyStart s = some p := by
  rw [lastBodyStart, h, Option.some_or]

/-- Without a header block in sight, `body_start` is looked for in the whole buffer. -/
theorem strstr_of_lastBodyStart {s : ReadState} {off : Nat} (h : s.bodyStart = none)
    (hlast : lastBodyStart s = some (s.block, off)) : strstr crlfcrlf s.text = some off := by
  rw [lastBodyStart, h, Option.none_or, Option.map_eq_some_iff] at hlast
  obtain ⟨off', hoff', heq⟩ := hlast
  cases heq
  exact hoff'

/-- While the loop reads, nothing is in sight that it has not found. -/
theorem lastBodyStart_eq_none {s : ReadState} (hgood : Good s) (hscanned : Scanned s)
    (hphase : s.phase = .reading) (hparsed : s.headersParsed = false) :
    lastBodyStart s = none := by
  rw [lastBodyStart, (hgood.unparsed hparsed).1, Option.none_or, ReadState.text,
    hscanned.rest hphase, cstr_append_terminator, hscanned.unseen hparsed]
  rfl

/-- A buffer that cannot be doubled any more has no header block that was not found. -/
theorem lastBodyStart_of_no_double {s : ReadState} {newBlock : Option Bytes} (hgood : Good s)
    (hshort : Short s) (hscanned : Scanned s) (hphase : s.phase = .reading)
    (hdouble : doubleBuffer s newBlock = none) : lastBodyStart s = none := by
  cases hparsed : s.headersParsed with
  | true =>
    -- only a full buffer is doubled, and behind the header block it is never full
    rw [doubleBuffer, if_neg (by rw [hgood.not_full hshort hparsed hphase]; decide)] at hdouble
    cases hdouble
  | false => exact lastBodyStart_eq_none hgood hscanned hphase hparsed

/-- A turn that reads nothing leaves no byte behind the declared end. -/
theorem length_le_of_no_read {s s' : ReadState} {newBlock : Option Bytes} {off : Nat}
    (hgood : Good s) (hshort : Short s) (hscanned : Scanned s) (hphase : s.phase = .reading)
    (hdouble : doubleBuffer s newBlock = some s')
    (hlast : lastBodyStart s' = some (s'.block, off)) :
    s'.bytes.length ≤ off + 4 + framingLength s' := by
  obtain ⟨-, rfl⟩ | ⟨hfull, -, rest, rfl⟩ := doubleBuffer_cases hdouble
  · cases hparsed : s'.headersParsed with
    | true =>
      obtain ⟨off', hbody, -⟩ := hgood.parsed hparsed fun status h => by cases hphase.symm.trans h
      cases (lastBodyStart_of_some hbody).symm.trans hlast
      have := hshort hparsed hphase _ hbody
      simp only at this
      rw [framingLength]
      omega
    | false =>
      rw [lastBodyStart_eq_none hgood hscanned hphase hparsed] at hlast
      cases hlast
  · have hparsed : s.headersParsed = false := by
      by_contra hp
      rw [hgood.not_full hshort (by simpa using hp) hphase] at hfull
      cases hfull
    -- the new block is not zeroed, so a header end may be seen that begins in the bytes received
    have hseen := strstr_of_lastBodyStart (s := { s with
      block := s.block + 1, bufferSize := s.bufferSize * 2, rest := rest })
      (hgood.unparsed hparsed).1 hlast
    have := length_lt_of_unseen (hscanned.unseen hparsed) hseen
    simp only
    omega

/-- The last turn of a run that kept the invariant of the loop. -/
theorem length_le_iff_withinDeclared {s t : ReadState} {turn : Turn} {off : Nat}
    (h : readMachine.Reach s) (hgood : Good s) (hshort : Short s) (hsize : SizeFits s turn)
    (hs : readMachine.step s turn = some t) (hfin : t.phase = .finished)
    (hlast : lastBodyStart t = some (t.block, off)) :
    t.bytes.length ≤ off + 4 + framingLength t ↔ WithinDeclared s turn := by
  have hscanned := scanned_of_reach h
  obtain ⟨⟨hphase, hpossible⟩, rfl⟩ := readMachine_step_eq_some.1 hs
  have hgoodt := (hgood.readTurn hshort hphase hpossible hsize).1
  rw [readTurn] at hfin hlast hgoodt ⊢
  cases hdouble : doubleBuffer s turn.newBlock with
  | none =>
    rw [hdouble] at hlast
    cases (lastBodyStart_of_no_double hgood hshort hscanned hphase hdouble).symm.trans hlast
  | some s' =>
    rw [hdouble] at hfin hlast hgoodt
    have hphase' : s'.phase = .reading := (doubleBuffer_fixed hdouble).1.trans hphase
    cases hread : turn.read with
    | none =>
      rw [hread] at hlast
      have hle := length_le_of_no_read hgood hshort hscanned hphase hdouble hlast
      exact iff_of_true hle fun _ _ data hdata => by cases hread.symm.trans hdata
    | some data =>
      rw [hread] at hfin hlast hgoodt
      obtain ⟨hbytes, off', hbody', hend⟩ := finished_by_read
        (hgood.double hshort hphase hdouble) rfl hgoodt hphase' hfin
      cases (lastBodyStart_of_some hbody').symm.trans hlast
      simp only [WithinDeclared, hdouble, hread, Option.mem_some_iff, forall_eq', hend]
      rw [hbytes]

/-- A declared length beyond the buffer is not reached by any read. -/
theorem Beyond.withinDeclared {s : ReadState} {turn : Turn} (h : Beyond s) (hb : Bounded s)
    (hpossible : turn.Possible s) : WithinDeclared s turn := by
  intro s' hdouble data hread e he
  have h' := h.double hdouble
  have hlen := (((hb.double hdouble).receive (hpossible s' hdouble data hread).2).fits)
  have hlimit := (hb.double hdouble).limit
  have hlarge := h'.large
  rw [declaredEnd, if_pos h'.parsed] at he
  obtain ⟨p, -, rfl⟩ := Option.map_eq_some_iff.1 he
  simp only [ReadState.receive] at hlen
  rw [framingLength]
  omega

/-- **Exactly the declared body is forwarded** when the read that completes a request ends at or
before the declared end: of every request that goes on, no byte behind the declared body reaches an
upstream if and only if the last turn of the loop delivers none. -/
theorem forwardsDeclared_iff {s t : ReadState} {turn : Turn} {env : ParseEnv} {fullPath : Bytes}
    {req : HttpRequest} (h : readMachine.Reach s) (hs : readMachine.step s turn = some t)
    (hfin : t.phase = .finished) (hreq : parseRequest env t = .request fullPath req) :
    ForwardsDeclared t req ↔ WithinDeclared s turn := by
  obtain ⟨off, hlast, hbody, hlen⟩ := parseRequest_body hreq
  rw [forwardsDeclared_iff_length (fun p hp => by cases hlast.symm.trans hp; rfl) hbody hlen]
  have ht : readMachine.Reach t := .next h trivial hs
  have hbeyond : Beyond t → t.bytes.length ≤ off + 4 + framingLength t := fun hb =>
    Nat.le_add_left_of_le (hb.length_le (bounded_of_reach ht))
  obtain ⟨hgood, hshort⟩ | hs' := good_or_beyond h
  · by_cases hsize : SizeFits s turn
    · exact length_le_iff_withinDeclared h hgood hshort hsize hs hfin hlast
    · -- the size read is beyond a long, so all that comes is within it
      obtain ⟨⟨hphase, hpossible⟩, rfl⟩ := readMachine_step_eq_some.1 hs
      rw [readTurn] at hlast hbeyond ⊢
      cases hdouble : doubleBuffer s turn.newBlock with
      | none =>
        rw [hdouble] at hlast
        cases (lastBodyStart_of_no_double hgood hshort (scanned_of_reach h) hphase
          hdouble).symm.trans hlast
      | some s' =>
        obtain ⟨data, hread, hwithin, hb⟩ :=
          beyond_of_not_sizeFits hsize hdouble ((bounded_of_reach h).double hdouble) hpossible
        simp only [hdouble, hread] at hbeyond ⊢
        refine iff_of_true (hbeyond (hb.leave turn.stray)) ?_
        simpa only [WithinDeclared, hdouble, hread, Option.mem_some_iff, forall_eq'] using hwithin
  · obtain ⟨⟨-, hpossible⟩, rfl⟩ := readMachine_step_eq_some.1 hs
    exact iff_of_true (hbeyond (hs'.readTurn turn))
      (hs'.withinDeclared (bounded_of_reach h) hpossible)

private theorem step_whole (text : String) (h : (Turn.whole text).Possible .start) :
    readMachine.step .start (.whole text) = some (readTurn .start (.whole text)) :=
  if_pos ⟨rfl, h⟩

instance (s : ReadState) (turn : Turn) : Decidable (WithinDeclared s turn) :=
  inferInstanceAs (Decidable (∀ s' ∈ doubleBuffer s turn.newBlock, ∀ data ∈ turn.read,
    ∀ e ∈ declaredEnd s' data, (s'.bytes ++ data).length ≤ e))

/-- A request with the one byte of body that it declares. -/
theorem forwardsDeclared_of_one_byte :
    ∃ t req, readMachine.step .start
        (.whole "POST / HTTP/1.1\r\nContent-Length: 1\r\n\r\na") = some t ∧
      parseRequest ⟨true, true⟩ t = .request (ascii "/") req ∧ ForwardsDeclared t req := by
  have hstep := step_whole "POST / HTTP/1.1\r\nContent-Length: 1\r\n\r\na"
    (by decide +kernel)
  have hreq : parseRequest ⟨true, true⟩ (readTurn .start
      (.whole "POST / HTTP/1.1\r\nContent-Length: 1\r\n\r\na")) =
        .request (ascii "/") ⟨ascii "POST", ascii "/", none, [], [⟨ascii "Content-Length", ascii "1"⟩],
          [], ascii "a", 1⟩ := by decide +kernel
  exact ⟨_, _, hstep, hreq, (forwardsDeclared_iff (.start rfl) hstep (by decide +kernel) hreq).2
    (by decide +kernel)⟩

/-- **A pipelined request is forwarded** with the request before it, as its body: the read that
delivers the first request delivers the second one too. -/
theorem not_forwardsDeclared :
    ¬ ∀ s t turn env fullPath req, readMachine.Reach s → readMachine.step s turn = some t →
      t.phase = .finished → parseRequest env t = .request fullPath req → ForwardsDeclared t req := by
  intro h
  have hstep := step_whole "GET / HTTP/1.1\r\n\r\nGET /x HTTP/1.1\r\n\r\n"
    (by decide +kernel)
  have hreq : parseRequest ⟨true, true⟩ (readTurn .start
      (.whole "GET / HTTP/1.1\r\n\r\nGET /x HTTP/1.1\r\n\r\n")) =
        .request (ascii "/") ⟨ascii "GET", ascii "/", none, [], [], [],
          ascii "GET /x HTTP/1.1\r\n\r\n", 19⟩ := by decide +kernel
  have := (h _ _ _ _ _ _ (.start rfl) hstep (by decide +kernel) hreq).1
  exact absurd this (by decide +kernel)

end Server
end Arws

import Arws.Library.AppendBuffer
import Arws.Server.ForwardedFor

/-!
# The request in its buffer

`arws_build_http_request` once more, over the memory it writes to: `append_str` with the position it is
called at, and what the caller does with a -1.  The loop over the header fields goes on after a
`Connection` field that does not fit, and the next `append_str` is called at -1.

* `built_buildHead`, `arwsBuildHttpRequest_raw` — the builder of `buildHead` is what the code does in
  memory, and it is undefined where an `append_str` is called before the buffer.
* `exists_buildHead_iff`, `buildHead_eq_undefined_iff` — which heads are built, and which are undefined.
* `allOrNothing_iff` — all is written or nothing, if and only if no `Connection` field is `Cramped`.
-/

set_option autoImplicit false

namespace Arws
namespace Server

open AppendBuffer CString

/-! ## The code over memory -/

namespace Raw

/-- `append_str`, for the text the format makes. -/
def appendStr (bufsize : Nat) (w : Writer UInt8) (text : Bytes) : Writer UInt8 :=
  append 0 bufsize w text

/-- `append_str` and the test behind it.  The error is what is there when -1 is returned. -/
def appendOrReturn (bufsize : Nat) (w : Writer UInt8) (text : Bytes) :
    Except (Writer UInt8) (Writer UInt8) :=
  let w := appendStr bufsize w text
  if w.pos < 0 then .error w else .ok w

/-- One turn of the loop over the header fields. -/
def appendHeader (bufsize : Nat) (w : Writer UInt8) (h : HttpHeader) :
    Except (Writer UInt8) (Writer UInt8) :=
  if isConnection h.name then .ok (appendStr bufsize w connectionClose)
  else appendOrReturn bufsize w (h.name ++ ascii ": " ++ h.value ++ crlf)

/-- The request without its body. -/
def buildHead (clientIp : Bytes) (req : HttpRequest) (bufsize : Nat) :
    Except (Writer UInt8) (Writer UInt8) := do
  let w ← appendOrReturn bufsize .start (req.method ++ ascii " " ++ req.path)
  let query := req.queryParams.getD []
  let w ← if query.isEmpty then .ok w else appendOrReturn bufsize w (ascii "?" ++ query)
  let w ← appendOrReturn bufsize w (ascii " HTTP/1.1" ++ crlf)
  let w ← req.headers.foldlM (appendHeader bufsize) w
  let hasHost := req.headers.any fun h => strcaseeq h.name (ascii "Host")
  let w ← if !hasHost && !req.host.isEmpty then
      appendOrReturn bufsize w (ascii "Host: " ++ req.host ++ crlf)
    else .ok w
  let w ← appendOrReturn bufsize w (ascii "X-Forwarded-For: " ++ clientIp ++ crlf)
  let w ← if req.headers.any fun h => isConnection h.name then .ok w
    else appendOrReturn bufsize w connectionClose
  appendOrReturn bufsize w crlf

/-- The body bytes are copied, as far as there is room. -/
def copyBody (req : HttpRequest) (bufsize : Nat) (w : Writer UInt8) : Writer UInt8 :=
  let rem := bufsize - w.pos
  if 0 < req.bodyLengthInBuffer ∧ 0 < rem then
    let toCopy := min req.bodyLengthInBuffer rem
    { w with mem := store w.mem w.pos (req.body.take toCopy.toNat), pos := w.pos + toCopy }
  else w

/-- `arws_build_http_request`: the buffer behind it, and what it returns. -/
def arwsBuildHttpRequest (clientIp : Bytes) (req : HttpRequest) (bufsize : Nat) :
    Writer UInt8 × Int :=
  match buildHead clientIp req bufsize with
  | .error w => (w, -1)
  | .ok w =>
    let w := copyBody req bufsize w
    (w, if w.pos > 0 then w.pos else -1)

end Raw

/-! ## What is built -/

/-- The undefined goes astray, now or at the next append. -/
def GoesAstray : Except (Writer UInt8) (Writer UInt8) → Prop
  | .ok w => Astray w ∨ w.pos < 0
  | .error w => Astray w

/-- What the code in memory does where a builder of bytes comes to this.  On a failure, it returns from
within the buffer. -/
def Built (bufsize : Nat) (x : Except BuildError Bytes) (y : Except (Writer UInt8) (Writer UInt8)) :
    Prop :=
  match x with
  | .ok buf => ∃ w, y = .ok w ∧ Filled bufsize w buf
  | .error .failed => ∃ w, y = .error w ∧ Within bufsize w
  | .error .undefined => GoesAstray y

/-- A part of the code in memory does what a builder of bytes does, and has no way back. -/
structure Follows (bufsize : Nat) (f : Bytes → Except BuildError Bytes)
    (g : Writer UInt8 → Except (Writer UInt8) (Writer UInt8)) : Prop where
  built : ∀ buf w, Filled bufsize w buf → Built bufsize (f buf) (g w)
  astray : ∀ w, Astray w ∨ w.pos < 0 → GoesAstray (g w)

section Follows

variable {bufsize : Nat} {f f' k : Bytes → Except BuildError Bytes}
  {g g' l : Writer UInt8 → Except (Writer UInt8) (Writer UInt8)}

theorem GoesAstray.bind {y : Except (Writer UInt8) (Writer UInt8)} (h : GoesAstray y)
    (hl : ∀ w, Astray w ∨ w.pos < 0 → GoesAstray (l w)) : GoesAstray (y >>= l) := by
  cases y with
  | error w => exact h
  | ok w => exact hl w h

theorem Follows.bind (h : Follows bufsize f g) (hk : Follows bufsize k l) :
    Follows bufsize (fun buf => f buf >>= k) (fun w => g w >>= l) where
  built buf w hw := by
    match f buf, h.built buf w hw with
    | .ok buf', ⟨w', hg, hw'⟩ =>
      rw [hg]
      exact hk.built buf' w' hw'
    | .error .failed, ⟨w', hg, hw'⟩ =>
      rw [hg]
      exact ⟨w', rfl, hw'⟩
    | .error .undefined, hastray => exact GoesAstray.bind hastray hk.astray
  astray w hw := (h.astray w hw).bind hk.astray

theorem Follows.ite_bind {c : Prop} [Decidable c] (h : Follows bufsize f g) (h' : Follows bufsize f' g')
    (hk : Follows bufsize k l) : Follows bufsize (fun buf => if c then f buf >>= k else f' buf >>= k)
      (fun w => if c then g w >>= l else g' w >>= l) := by
  split_ifs
  · exact h.bind hk
  · exact h'.bind hk

theorem follows_ok : Follows bufsize .ok .ok where
  built _ w h := ⟨w, rfl, h⟩
  astray _ h := h

/-- An append with the test behind it. -/
theorem follows_append (text : Bytes) :
    Follows bufsize (appendStr bufsize · text) (Raw.appendOrReturn bufsize · text) where
  built buf w h := by
    rw [appendStr, Raw.appendOrReturn, Raw.appendStr]
    by_cases hfit : buf.length + text.length < bufsize
    · have hw : Filled bufsize (append 0 bufsize w text) (buf ++ text) := h.append hfit
      have hpos := hw.pos
      rw [if_pos hfit, if_neg (by omega)]
      exact ⟨_, rfl, hw⟩
    · obtain ⟨hpos, hw⟩ : (append 0 bufsize w text).pos = -1 ∧
          Within bufsize (append 0 bufsize w text) := h.append_full (Nat.not_lt.1 hfit)
      rw [if_neg hfit, if_pos (by omega)]
      exact ⟨_, rfl, hw⟩
  astray w h := by
    have hw : Astray (Raw.appendStr bufsize w text) := Astray.append h text
    rw [Raw.appendOrReturn]
    split_ifs
    · exact hw
    · exact Or.inl hw

theorem follows_appendHeader (x : HttpHeader) :
    Follows bufsize (appendHeader bufsize · x) (Raw.appendHeader bufsize · x) := by
  simp only [appendHeader, Raw.appendHeader]
  split_ifs
  · refine ⟨fun buf w h => ?_, fun w h => Or.inl (Astray.append h connectionClose)⟩
    rw [appendStr, Raw.appendStr]
    by_cases hfit : buf.length + connectionClose.length < bufsize
    · rw [if_pos hfit]
      exact ⟨_, rfl, h.append hfit⟩
    · -- the position is -1, and the loop goes on
      have hpos : (append 0 bufsize w connectionClose).pos = -1 :=
        (h.append_full (Nat.not_lt.1 hfit)).1
      rw [if_neg hfit]
      exact Or.inr (by omega)
  · exact follows_append _

theorem follows_appendHeaders (hs : List HttpHeader) :
    Follows bufsize (hs.foldlM (appendHeader bufsize)) (hs.foldlM (Raw.appendHeader bufsize)) := by
  induction hs with
  | nil => exact follows_ok
  | cons x hs ih => exact (follows_appendHeader x).bind ih

end Follows

/-- **The builder of bytes is what the code does in memory**. -/
theorem built_buildHead (clientIp : Bytes) (req : HttpRequest) (bufsize : Nat) :
    Built bufsize (buildHead clientIp req bufsize) (Raw.buildHead clientIp req bufsize) :=
  (Follows.bind (follows_append _) <| .ite_bind follows_ok (follows_append _) <|
    .bind (follows_append _) <| .bind (follows_appendHeaders _) <|
    .ite_bind (follows_append _) follows_ok <| .bind (follows_append _) <|
    .ite_bind follows_ok (follows_append _) (follows_append _)).built [] .start filled_start

/-! ## What the code does in memory -/

/-- The position is not lost. -/
def Settled (y : Except (Writer UInt8) (Writer UInt8)) : Prop := ∀ w, y = .ok w → 0 ≤ w.pos

theorem settled_append (bufsize : Nat) (w : Writer UInt8) (text : Bytes) :
    Settled (Raw.appendOrReturn bufsize w text) := by
  intro w' h
  rw [Raw.appendOrReturn] at h
  split_ifs at h with hneg
  cases h
  exact Int.not_lt.1 hneg

theorem Settled.bind {y : Except (Writer UInt8) (Writer UInt8)}
    {l : Writer UInt8 → Except (Writer UInt8) (Writer UInt8)} (h : ∀ w, Settled (l w)) :
    Settled (y >>= l) := by
  cases y with
  | error w => exact fun w' hw' => by cases hw'
  | ok w => exact h w

theorem Settled.ite_bind {c : Prop} [Decidable c] {y y' : Except (Writer UInt8) (Writer UInt8)}
    {l : Writer UInt8 → Except (Writer UInt8) (Writer UInt8)} (h : ∀ w, Settled (l w)) :
    Settled (if c then y >>= l else y' >>= l) := by
  split_ifs
  · exact .bind h
  · exact .bind h

/-- The last append is tested. -/
theorem settled_buildHead (clientIp : Bytes) (req : HttpRequest) (bufsize : Nat) :
    Settled (Raw.buildHead clientIp req bufsize) :=
  .bind fun _ => .ite_bind fun _ => .bind fun _ => .bind fun _ => .ite_bind fun _ => .bind fun _ =>
    .ite_bind fun w => settled_append bufsize w crlf

variable {bufsize : Nat} {clientIp : Bytes} {req : HttpRequest}

/-- The body is copied behind the head. -/
theorem filled_copyBody {w : Writer UInt8} {head : Bytes}
    (h : req.bodyLengthInBuffer ≤ req.body.length) (hw : Filled bufsize w head) :
    Filled bufsize (Raw.copyBody req bufsize w) (head ++ copiedBody req (bufsize - head.length)) := by
  have hpos := hw.pos
  rw [Raw.copyBody, copiedBody]
  by_cases hbody : 0 < req.bodyLengthInBuffer
  · by_cases hrem : 0 < bufsize - w.pos
    · have hcopy : (min req.bodyLengthInBuffer (bufsize - w.pos)).toNat =
          min req.bodyLengthInBuffer.toNat (bufsize - head.length) := by omega
      have hlen : (req.body.take (min req.bodyLengthInBuffer.toNat (bufsize - head.length))).length =
          min req.bodyLengthInBuffer.toNat (bufsize - head.length) := by
        rw [List.length_take]
        omega
      have hfilled := hw.copy (t := req.body.take (min req.bodyLengthInBuffer.toNat
        (bufsize - head.length))) (by omega)
      rw [hlen, ← hcopy, Int.toNat_of_nonneg (by omega), hcopy] at hfilled
      rw [if_pos ⟨hbody, hrem⟩, if_pos hbody]
      simp only [hcopy]
      exact hfilled
    · rw [if_neg (fun hall => hrem hall.2), if_pos hbody, show bufsize - head.length = 0 by omega,
        Nat.min_zero, List.take_zero, List.append_nil]
      exact hw
  · rw [if_neg (fun hall => hbody hall.1), if_neg hbody, List.append_nil]
    exact hw

theorem length_buildHead_pos {head : Bytes} (h : buildHead clientIp req bufsize = .ok head) :
    0 < head.length := by
  rw [buildHead_eq_ok h, List.length_append]
  exact Nat.lt_add_left _ (by decide)

/-- **What the code does in memory**: what is built is in the buffer, and its length is returned; a
failure is a -1; and the undefined calls `append_str` before the buffer. -/
theorem arwsBuildHttpRequest_raw (h : req.bodyLengthInBuffer ≤ req.body.length) :
    match arwsBuildHttpRequest clientIp req bufsize with
    | .ok (head, body) =>
      Filled bufsize (Raw.arwsBuildHttpRequest clientIp req bufsize).1 (head ++ body) ∧
        (Raw.arwsBuildHttpRequest clientIp req bufsize).2 = (head ++ body).length
    | .error .failed => Within bufsize (Raw.arwsBuildHttpRequest clientIp req bufsize).1 ∧
        (Raw.arwsBuildHttpRequest clientIp req bufsize).2 = -1
    | .error .undefined => Astray (Raw.arwsBuildHttpRequest clientIp req bufsize).1 := by
  have hbuilt := built_buildHead clientIp req bufsize
  have hsettled := settled_buildHead clientIp req bufsize
  rw [arwsBuildHttpRequest]
  cases hhead : buildHead clientIp req bufsize with
  | ok head =>
    rw [hhead] at hbuilt
    obtain ⟨w, hw, hfilled⟩ := hbuilt
    have hcopied := filled_copyBody h hfilled
    have hpos := hcopied.pos
    have hlen := length_buildHead_pos hhead
    have hne : (Raw.copyBody req bufsize w).pos > 0 := by
      rw [hpos, List.length_append]
      omega
    rw [Raw.arwsBuildHttpRequest, hw]
    exact ⟨hcopied, (if_pos hne).trans hpos⟩
  | error e =>
    rw [hhead] at hbuilt
    cases e with
    | failed =>
      obtain ⟨w, hw, hwithin⟩ := hbuilt
      rw [Raw.arwsBuildHttpRequest, hw]
      exact ⟨hwithin, rfl⟩
    | undefined =>
      change Astray _
      rw [Raw.arwsBuildHttpRequest]
      cases hraw : Raw.buildHead clientIp req bufsize with
      | error w =>
        rw [hraw] at hbuilt
        exact hbuilt
      | ok w =>
        rw [hraw] at hbuilt
        have hpos := hsettled w hraw
        obtain ⟨p, hp, hneg⟩ := hbuilt.resolve_right (by omega)
        refine ⟨p, ?_, hneg⟩
        change p ∈ (Raw.copyBody req bufsize w).calls
        rw [Raw.copyBody]
        split_ifs
        · exact hp
        · exact hp

/-! ## Which heads are built -/

/-- **The head of a request**: the request line, the fields and the empty line. -/
def wholeHead (clientIp : Bytes) (req : HttpRequest) : Bytes :=
  Http.block (requestLine req :: (sentFields clientIp req).map lineOf) ++ crlf

/-- The part of the head before a field of the client. -/
def headBefore (req : HttpRequest) (i : Nat) : Bytes :=
  Http.block (requestLine req :: ((req.headers.take i).map copied).map lineOf)

/-- A `Connection` field has some room behind what is before it, and not enough. -/
def Cramped (req : HttpRequest) (bufsize : Nat) : Prop :=
  ∃ i, ∃ _ : i < req.headers.length, isConnection req.headers[i].name = true ∧
    (headBefore req i).length < bufsize ∧
      bufsize ≤ (headBefore req i).length + connectionClose.length

instance (req : HttpRequest) (bufsize : Nat) : Decidable (Cramped req bufsize) :=
  inferInstanceAs (Decidable (∃ i, ∃ _ : i < req.headers.length, _))

/-- Two appends are one. -/
theorem appendStr_bind (bufsize : Nat) (buf s t : Bytes) (k : Bytes → Except BuildError Bytes) :
    (appendStr bufsize buf s >>= fun buf => appendStr bufsize buf t >>= k) =
      appendStr bufsize buf (s ++ t) >>= k := by
  simp only [appendStr, List.length_append]
  by_cases hs : buf.length + s.length < bufsize
  · rw [if_pos hs]
    change (if _ then _ else _) >>= k = _
    rw [List.length_append, List.append_assoc, Nat.add_assoc]
  · rw [if_neg hs, if_neg (by omega)]
    rfl

theorem appendStr_bind_unless {c : Prop} [Decidable c] (bufsize : Nat) (buf s t : Bytes)
    (k : Bytes → Except BuildError Bytes) :
    (appendStr bufsize buf s >>= fun buf =>
        if c then .ok buf >>= k else appendStr bufsize buf t >>= k) =
      appendStr bufsize buf (s ++ if c then [] else t) >>= k := by
  split_ifs
  · rw [List.append_nil]
    rfl
  · exact appendStr_bind bufsize buf s t k

theorem if_appendStr_bind {c : Prop} [Decidable c] (bufsize : Nat) (buf s t : Bytes)
    (k : Bytes → Except BuildError Bytes) :
    (if c then appendStr bufsize buf s >>= fun buf => appendStr bufsize buf t >>= k
      else .ok buf >>= fun buf => appendStr bufsize buf t >>= k) =
      appendStr bufsize buf ((if c then s else []) ++ t) >>= k := by
  split_ifs
  · exact appendStr_bind bufsize buf s t k
  · rfl

/-- The line that is written for a field. -/
def copiedLine (h : HttpHeader) : Bytes := lineOf (copied h) ++ crlf

theorem copiedLine_connection {h : HttpHeader} (hconn : isConnection h.name = true) :
    copiedLine h = connectionClose := by
  rw [copiedLine, copied, if_pos hconn]
  rfl

theorem appendHeader_eq (bufsize : Nat) (buf : Bytes) (h : HttpHeader) :
    appendHeader bufsize buf h =
      if buf.length + (copiedLine h).length < bufsize then .ok (buf ++ copiedLine h)
      else .error (if isConnection h.name then .undefined else .failed) := by
  rw [appendHeader]
  split_ifs with hconn hfit hfit
  · rw [copiedLine_connection hconn] at hfit ⊢
    rw [appendStr, if_pos hfit]
  · rw [copiedLine_connection hconn] at hfit
    rw [appendStr, if_neg hfit]
  all_goals rw [copiedLine, copied, if_neg hconn, lineOf] at *
  · rw [appendStr, if_pos hfit]
  · rw [appendStr, if_neg hfit]

/-- The fields before one of them, as they are written. -/
def linesBefore (hs : List HttpHeader) (i : Nat) : Bytes :=
  Http.block (((hs.take i).map copied).map lineOf)

theorem length_linesBefore_succ (h : HttpHeader) (hs : List HttpHeader) (i : Nat) :
    (linesBefore (h :: hs) (i + 1)).length = (copiedLine h).length + (linesBefore hs i).length := by
  rw [linesBefore, List.take_succ_cons, List.map_cons, List.map_cons, Http.block_cons,
    List.length_append, copiedLine, linesBefore]

/-- **The loop over the fields** writes all of them, if they fit. -/
theorem appendHeaders_ok {bufsize : Nat} (hs : List HttpHeader) (buf : Bytes)
    (hbuf : buf.length < bufsize) :
    (∃ out, hs.foldlM (appendHeader bufsize) buf = .ok out) ↔
      buf.length + (linesBefore hs hs.length).length < bufsize := by
  induction hs generalizing buf with
  | nil => exact iff_of_true ⟨buf, rfl⟩ hbuf
  | cons h hs ih =>
    rw [List.foldlM_cons, appendHeader_eq, List.length_cons, length_linesBefore_succ]
    by_cases hfit : buf.length + (copiedLine h).length < bufsize
    · have hnext := ih (buf ++ copiedLine h) (by rwa [List.length_append])
      rw [List.length_append, Nat.add_assoc] at hnext
      rw [if_pos hfit]
      exact hnext
    · rw [if_neg hfit]
      refine iff_of_false ?_ (by omega)
      rintro ⟨out, hout⟩
      cases hout

/-- Behind a text of some length, a `Connection` field has some room and not enough. -/
def CrampedBehind (bufsize len : Nat) (hs : List HttpHeader) : Prop :=
  ∃ i, ∃ _ : i < hs.length, isConnection hs[i].name = true ∧
    len + (linesBefore hs i).length < bufsize ∧
      bufsize ≤ len + (linesBefore hs i).length + connectionClose.length

theorem crampedBehind_cons {bufsize len : Nat} (h : HttpHeader) (hs : List HttpHeader) :
    CrampedBehind bufsize len (h :: hs) ↔
      (isConnection h.name = true ∧ len < bufsize ∧ bufsize ≤ len + connectionClose.length) ∨
        CrampedBehind bufsize (len + (copiedLine h).length) hs := by
  constructor
  · rintro ⟨i, hi, hconn, hlt, hle⟩
    cases i with
    | zero => exact Or.inl ⟨hconn, hlt, hle⟩
    | succ i =>
      rw [length_linesBefore_succ, ← Nat.add_assoc] at hlt hle
      exact Or.inr ⟨i, Nat.lt_of_succ_lt_succ hi, hconn, hlt, hle⟩
  · rintro (⟨hconn, hlt, hle⟩ | ⟨i, hi, hconn, hlt, hle⟩)
    · exact ⟨0, Nat.succ_pos _, hconn, hlt, hle⟩
    · refine ⟨i + 1, Nat.succ_lt_succ hi, hconn, ?_⟩
      rw [length_linesBefore_succ, ← Nat.add_assoc]
      exact ⟨hlt, hle⟩

theorem CrampedBehind.lt {bufsize len : Nat} {hs : List HttpHeader}
    (h : CrampedBehind bufsize len hs) : len < bufsize := by
  obtain ⟨i, -, -, hlt, -⟩ := h
  omega

/-- **It is undefined** where a `Connection` field is the first that does not fit. -/
theorem appendHeaders_undefined {bufsize : Nat} (hs : List HttpHeader) (buf : Bytes)
    (hbuf : buf.length < bufsize) :
    hs.foldlM (appendHeader bufsize) buf = .error .undefined ↔
      CrampedBehind bufsize buf.length hs := by
  induction hs generalizing buf with
  | nil => exact iff_of_false (fun h => by cases h) fun ⟨_, hi, _⟩ => absurd hi (Nat.not_lt_zero _)
  | cons h hs ih =>
    rw [List.foldlM_cons, appendHeader_eq, crampedBehind_cons]
    by_cases hfit : buf.length + (copiedLine h).length < bufsize
    · have hnext := ih (buf ++ copiedLine h) (by rwa [List.length_append])
      rw [List.length_append] at hnext
      rw [if_pos hfit]
      refine hnext.trans ⟨Or.inr, fun hcramped => hcramped.resolve_left ?_⟩
      rintro ⟨hconn, -, hle⟩
      rw [copiedLine_connection hconn] at hfit
      omega
    · have hbehind : ¬ CrampedBehind bufsize (buf.length + (copiedLine h).length) hs :=
        fun hcramped => hfit hcramped.lt
      rw [if_neg hfit, or_iff_left hbehind]
      by_cases hconn : isConnection h.name = true
      · rw [copiedLine_connection hconn] at hfit
        rw [if_pos hconn]
        exact iff_of_true rfl ⟨hconn, hbuf, by omega⟩
      · rw [if_neg hconn]
        exact iff_of_false (fun hout => by cases hout) fun hcramped => hconn hcramped.1

/-- What is written behind the fields of the client. -/
def headBehind (clientIp : Bytes) (req : HttpRequest) : Bytes :=
  Http.block (((sentFields clientIp req).drop req.headers.length).map lineOf) ++ crlf

/-- The fields of the client come first. -/
theorem sentFields_split (clientIp : Bytes) (req : HttpRequest) :
    sentFields clientIp req =
      req.headers.map copied ++ (sentFields clientIp req).drop req.headers.length := by
  rw [sentFields, List.drop_left' (List.length_map _)]

theorem wholeHead_eq (clientIp : Bytes) (req : HttpRequest) :
    wholeHead clientIp req = requestLine req ++ crlf ++
      (linesBefore req.headers req.headers.length ++ headBehind clientIp req) := by
  rw [wholeHead, headBehind, Http.block_cons, linesBefore, List.take_length]
  conv_lhs => rw [sentFields_split]
  simp only [Http.block, List.map_append, List.flatMap_append, List.append_assoc]

theorem headBehind_eq (clientIp : Bytes) (req : HttpRequest) :
    headBehind clientIp req =
      (if (!req.headers.any fun h => strcaseeq h.name (ascii "Host")) && !req.host.isEmpty then
          ascii "Host: " ++ req.host ++ crlf else []) ++
        (ascii "X-Forwarded-For: " ++ clientIp ++ crlf) ++
          (if req.headers.any fun h => isConnection h.name then [] else connectionClose) ++ crlf := by
  have hhost : ascii "Host: " = ascii "Host" ++ ascii ": " := rfl
  have hfor : ascii "X-Forwarded-For: " = ascii "X-Forwarded-For" ++ ascii ": " := rfl
  have hclose : connectionClose = ascii "Connection" ++ ascii ": " ++ ascii "close" ++ crlf := rfl
  rw [headBehind, sentFields, List.drop_left' (List.length_map _), hhost, hfor, hclose]
  simp only [Http.block, List.map_append, List.map_cons, List.flatMap_cons, List.flatMap_append,
    List.append_assoc]
  split_ifs <;> simp only [List.map_cons, List.map_nil, List.flatMap_cons, List.flatMap_nil, lineOf,
    List.append_assoc, List.nil_append]

theorem bind_ok {α : Type} (x : Except BuildError α) : (x >>= .ok) = x := by
  cases x <;> rfl

/-- **The builder of bytes**: an append, the loop, and an append. -/
theorem buildHead_eq (clientIp : Bytes) (req : HttpRequest) (bufsize : Nat) :
    buildHead clientIp req bufsize =
      (appendStr bufsize [] (requestLine req ++ crlf) >>= fun buf =>
        req.headers.foldlM (appendHeader bufsize) buf >>= fun buf =>
          appendStr bufsize buf (headBehind clientIp req)) := by
  have hline : requestLine req ++ crlf = req.method ++ ascii " " ++ req.path ++
      (if (req.queryParams.getD []).isEmpty then [] else ascii "?" ++ req.queryParams.getD []) ++
        (ascii " HTTP/1.1" ++ crlf) := by
    rw [requestLine, List.append_assoc _ (ascii " HTTP/1.1")]
  rw [buildHead, hline, headBehind_eq]
  refine (appendStr_bind_unless bufsize [] _ _ _).trans ?_
  refine (appendStr_bind bufsize [] _ _ _).trans ?_
  refine congrArg _ (funext fun buf => congrArg _ (funext fun buf => ?_))
  refine (if_appendStr_bind bufsize buf _ _ _).trans ?_
  refine (appendStr_bind_unless bufsize buf _ _ _).trans ?_
  have hlast := appendStr_bind bufsize buf ((if (!req.headers.any fun h =>
    strcaseeq h.name (ascii "Host")) && !req.host.isEmpty then ascii "Host: " ++ req.host ++ crlf
      else []) ++ (ascii "X-Forwarded-For: " ++ clientIp ++ crlf) ++
        if req.headers.any fun h => isConnection h.name then [] else connectionClose) crlf .ok
  simpa only [bind_ok] using hlast

variable {bufsize : Nat} {clientIp : Bytes} {req : HttpRequest}

theorem length_headBefore (req : HttpRequest) (i : Nat) :
    (headBefore req i).length =
      (requestLine req ++ crlf).length + (linesBefore req.headers i).length := by
  rw [headBefore, Http.block_cons, List.length_append, linesBefore]

theorem cramped_iff :
    Cramped req bufsize ↔ CrampedBehind bufsize (requestLine req ++ crlf).length req.headers := by
  simp only [Cramped, CrampedBehind, length_headBefore]

theorem length_wholeHead (clientIp : Bytes) (req : HttpRequest) :
    (wholeHead clientIp req).length = (requestLine req ++ crlf).length +
      (linesBefore req.headers req.headers.length).length + (headBehind clientIp req).length := by
  rw [wholeHead_eq, List.length_append, @List.length_append _ (linesBefore _ _), Nat.add_assoc]

/-- The request line does not fit. -/
theorem buildHead_of_le (h : bufsize ≤ (requestLine req ++ crlf).length) :
    buildHead clientIp req bufsize = .error .failed := by
  rw [buildHead_eq, appendStr, if_neg (by rw [List.length_nil]; omega)]
  rfl

/-- The request line fits, and the loop over the fields decides. -/
theorem buildHead_of_lt (h : (requestLine req ++ crlf).length < bufsize) :
    buildHead clientIp req bufsize =
      (req.headers.foldlM (appendHeader bufsize) (requestLine req ++ crlf) >>= fun buf =>
        appendStr bufsize buf (headBehind clientIp req)) := by
  rw [buildHead_eq, appendStr, if_pos (by rw [List.length_nil]; omega)]
  rfl

/-- **A head is built** if all of it fits, with a byte to spare for the terminator. -/
theorem exists_buildHead_iff : (∃ head, buildHead clientIp req bufsize = .ok head) ↔
    (wholeHead clientIp req).length < bufsize := by
  rw [length_wholeHead]
  by_cases hline : (requestLine req ++ crlf).length < bufsize
  · have hok := appendHeaders_ok req.headers (requestLine req ++ crlf) hline
    rw [buildHead_of_lt hline]
    cases hfold : req.headers.foldlM (appendHeader bufsize) (requestLine req ++ crlf) with
    | error e =>
      rw [hfold] at hok
      have hfull := mt hok.2 (by rintro ⟨out, hout⟩; cases hout)
      exact iff_of_false (by rintro ⟨out, hout⟩; cases hout) (by omega)
    | ok out =>
      have hlen : out.length = (requestLine req ++ crlf).length +
          (linesBefore req.headers req.headers.length).length := by
        rw [appendHeaders_eq_ok hfold, List.length_append, linesBefore, List.take_length]
      change (∃ head, appendStr bufsize out (headBehind clientIp req) = .ok head) ↔ _
      rw [appendStr, hlen]
      split_ifs with hfit
      · exact iff_of_true ⟨_, rfl⟩ hfit
      · exact iff_of_false (by rintro ⟨head, hhead⟩; cases hhead) hfit
  · rw [buildHead_of_le (Nat.not_lt.1 hline)]
    exact iff_of_false (by rintro ⟨out, hout⟩; cases hout) (by omega)

/-- **It is undefined** if a `Connection` field is cramped. -/
theorem buildHead_eq_undefined_iff :
    buildHead clientIp req bufsize = .error .undefined ↔ Cramped req bufsize := by
  rw [cramped_iff]
  by_cases hline : (requestLine req ++ crlf).length < bufsize
  · rw [buildHead_of_lt hline, ← appendHeaders_undefined req.headers _ hline]
    cases req.headers.foldlM (appendHeader bufsize) (requestLine req ++ crlf) with
    | error e => exact Iff.rfl
    | ok out =>
      change appendStr bufsize out (headBehind clientIp req) = _ ↔ _
      rw [appendStr]
      split_ifs <;> exact iff_of_false (fun h => by cases h) fun h => by cases h
  · rw [buildHead_of_le (Nat.not_lt.1 hline)]
    exact iff_of_false (fun h => by cases h) fun h => hline h.lt

/-! ## All or nothing -/

/-- **All is written or nothing**: `append_str` is not called before the buffer, nothing is written
outside it, and -1 is returned or the length of the head, which the buffer begins with. -/
def AllOrNothing (clientIp : Bytes) (req : HttpRequest) (bufsize : Nat) : Prop :=
  Within bufsize (Raw.arwsBuildHttpRequest clientIp req bufsize).1 ∧
    ((Raw.arwsBuildHttpRequest clientIp req bufsize).2 = -1 ∨
      (Raw.arwsBuildHttpRequest clientIp req bufsize).2 = (wholeHead clientIp req).length ∧
        Holds (Raw.arwsBuildHttpRequest clientIp req bufsize).1.mem (wholeHead clientIp req))

theorem astray_of_cramped (hbody : req.bodyLengthInBuffer ≤ req.body.length)
    (h : Cramped req bufsize) : Astray (Raw.arwsBuildHttpRequest clientIp req bufsize).1 := by
  have hraw := @arwsBuildHttpRequest_raw bufsize clientIp req hbody
  rw [arwsBuildHttpRequest, buildHead_eq_undefined_iff.2 h] at hraw
  exact hraw

/-- **All is written or nothing** of a request without a body, if and only if no `Connection` field is
cramped. -/
theorem allOrNothing_iff (h : req.bodyLengthInBuffer ≤ 0) :
    AllOrNothing clientIp req bufsize ↔ ¬ Cramped req bufsize := by
  have hbody : req.bodyLengthInBuffer ≤ req.body.length := by omega
  refine ⟨fun hall hcramped => (astray_of_cramped hbody hcramped).not_within hall.1, fun hfree => ?_⟩
  have hraw := @arwsBuildHttpRequest_raw bufsize clientIp req hbody
  rw [arwsBuildHttpRequest] at hraw
  cases hhead : buildHead clientIp req bufsize with
  | ok head =>
    have hnone : copiedBody req (bufsize - head.length) = [] := if_neg (by omega)
    have hwhole : head = wholeHead clientIp req := buildHead_eq_ok hhead
    rw [hhead] at hraw
    change Filled bufsize _ (head ++ copiedBody req _) ∧ _ = _ at hraw
    rw [hnone, List.append_nil, hwhole] at hraw
    exact ⟨hraw.1.toWithin, Or.inr ⟨hraw.2, hraw.1.holds⟩⟩
  | error e =>
    rw [hhead] at hraw
    cases e with
    | failed => exact ⟨hraw.1, Or.inl hraw.2⟩
    | undefined => exact absurd (buildHead_eq_undefined_iff.1 hhead) hfree

/-- A request line and a field, of a request without a body. -/
private def withFields (headers : List HttpHeader) : HttpRequest :=
  ⟨ascii "GET", ascii "/", none, [], headers, [], [], 0⟩

/-- A `Connection` field in a buffer with room for it. -/
theorem allOrNothing_of_room :
    AllOrNothing (ascii "9.9.9.9") (withFields [⟨ascii "Connection", ascii "keep-alive"⟩]) 32768 :=
  (allOrNothing_iff (by decide)).2 (by decide +kernel)

/-- **A `Connection` field behind 32761 bytes** does not fit into 32768, and the next `append_str` is
called before the buffer. -/
theorem not_allOrNothing : ¬ ∀ clientIp req bufsize, req.bodyLengthInBuffer ≤ 0 → 1 ≤ bufsize →
    AllOrNothing clientIp req bufsize := by
  intro h
  have hcramped : ∀ value : Bytes, value.length = 32735 →
      Cramped (withFields [⟨ascii "Cookie", value⟩, ⟨ascii "Connection", ascii "close"⟩]) 32768 := by
    intro value hvalue
    have hline : ∀ hs, (requestLine (withFields hs) ++ crlf).length = 16 := fun hs =>
      show (requestLine (withFields []) ++ crlf).length = 16 by decide +kernel
    have hname : (ascii "Cookie" ++ ascii ": ").length = 8 := by decide +kernel
    have hcookie : ¬ isConnection (ascii "Cookie") = true := by decide +kernel
    have hconnection : isConnection (ascii "Connection") = true := by decide +kernel
    have hclose : connectionClose.length = 19 := by decide +kernel
    have hlen : (headBefore (withFields [⟨ascii "Cookie", value⟩,
        ⟨ascii "Connection", ascii "close"⟩]) 1).length = 32761 := by
      rw [length_headBefore, hline, withFields, length_linesBefore_succ, copiedLine, copied,
        if_neg hcookie, lineOf, List.length_append, List.length_append, hname, hvalue]
      rfl
    refine ⟨1, Nat.lt_succ_self 1, hconnection, ?_, ?_⟩
    · rw [hlen]
      decide
    · rw [hlen, hclose]
      decide
  have hlong := hcramped (List.replicate 32735 97) List.length_replicate
  exact (astray_of_cramped (Int.le_refl 0) hlong).not_within
    (h (ascii "9.9.9.9") _ 32768 (Int.le_refl 0) (by decide)).1

end Server
end Arws

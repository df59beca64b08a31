import Arws.Proxy.StreamProxy

/-!
# Relaying a response with a length

`arws_stream_proxy_forward` sends what it has read by the time it has the header block, and then as
much as it takes the length to be: what `atoi` makes of the first 31 characters of the last field.

* `delivered_relay` — what the client is sent, for every response with a length, in whatever segments
  it arrives.
* `relay_exact_iff` — so it is the header block and the declared length exactly if the header block
  fits the buffer and the larger of the two, the length taken and what was read behind the header
  block, is the declared length; or if the length taken is negative and nothing else is sent.
* `not_relay_exact` — one byte more than the length, read with the header block.
-/

set_option autoImplicit false

namespace Arws
namespace Proxy

open CString

/-! ## Responses with a length -/

/-- The value of a field with a name. -/
def fieldValue? (name line : Bytes) : Option Bytes :=
  (strchr 58 line).bind fun i =>
    if strcaseeq (line.take i) name then some (line.drop (i + 1)) else none

/-- What `atoi` makes of the first 31 characters of a value. -/
def takenLength (v : Bytes) : Int := atoi ((v.dropWhile (· == 32)).take 31)

/-- A header block: a status line and fields. -/
structure ResponseHead where
  statusLine : Bytes
  fields : List Bytes
  isHttp : ascii "HTTP/" <+: statusLine
  ne_nil : ∀ field ∈ fields, field ≠ []
  noCr : ∀ line ∈ statusLine :: fields, cr ∉ line

namespace ResponseHead

def lines (head : ResponseHead) : List Bytes := head.statusLine :: head.fields

def bytes (head : ResponseHead) : Bytes := Http.block head.lines ++ crlf

/-- The value of the last field with the name. -/
def lengthField (head : ResponseHead) : Option Bytes :=
  (head.fields.filterMap (fieldValue? (ascii "Content-Length"))).getLast?

/-- The length taken, -1 without a field. -/
def takenLength (head : ResponseHead) : Int :=
  (head.lengthField.map Proxy.takenLength).getD (-1)

def Declares (head : ResponseHead) (length : Nat) : Prop :=
  ∃ v ∈ head.lengthField, Http.decimal (Http.trim v) = some length

end ResponseHead


/-- How much is read with the first `n` bytes, when they come in segments. -/
def readWith : Nat → List Bytes → Nat
  | _, [] => 0
  | n, d :: ds => if n ≤ d.length then d.length else d.length + readWith (n - d.length) ds

/-- `recv`, and a write of all that is to be written. -/
def relayTurn (s : RelayState) (data : Option Bytes) : RelayState :=
  if 0 < s.room then
    let t := s.recv data
    if 0 < t.asked then t.write t.asked else t
  else s

/-- The segments are what `recv` may return, as long as it is called. -/
def Segments : RelayState → List Bytes → Prop
  | _, [] => True
  | s, d :: ds => (0 < s.room → d ≠ [] ∧ d.length ≤ s.room) ∧ Segments (relayTurn s (some d)) ds

/-- The relay of what comes in segments, behind which the upstream closes. -/
def relay (s : RelayState) (segs : List Bytes) : RelayState :=
  relayTurn (segs.foldl (fun s d => relayTurn s (some d)) s) none

/-- A turn is what the relay may do. -/
theorem reach_relayTurn {s : RelayState} {data : Option Bytes} (h : relayMachine.Reach s)
    (hdata : 0 < s.room → ∀ d ∈ data, d ≠ [] ∧ d.length ≤ s.room) :
    relayMachine.Reach (relayTurn s data) := by
  rw [relayTurn]
  split_ifs with hroom
  · have hrecv : relayMachine.Reach (s.recv data) :=
      .next h trivial (a := .recv data) (if_pos ⟨hroom, hdata hroom⟩)
    dsimp only
    split_ifs with hasked
    · exact .next hrecv trivial (a := .write _) (if_pos ⟨hasked, Int.le_refl _⟩)
    · exact hrecv
  · exact h

/-- **The relay is a run of the machine**, with complete writes. -/
theorem reach_relay {segs : List Bytes} {s : RelayState} (h : relayMachine.Reach s)
    (hsegs : Segments s segs) : relayMachine.Reach (relay s segs) := by
  induction segs generalizing s with
  | nil => exact reach_relayTurn h fun _ d hd => absurd hd (by simp)
  | cons d ds ih =>
    refine ih (reach_relayTurn h fun hroom d' hd' => ?_) hsegs.2
    cases hd'
    exact hsegs.1 hroom

instance : ∀ s segs, Decidable (Segments s segs)
  | _, [] => isTrue trivial
  | s, d :: ds =>
    have := instDecidableSegments (relayTurn s (some d)) ds
    inferInstanceAs (Decidable ((0 < s.room → d ≠ [] ∧ d.length ≤ s.room) ∧
      Segments (relayTurn s (some d)) ds))

/-! ## The length -/

theorem contentLength_readLine (h : ResponseHeaders) (line : Bytes) :
    (h.readLine line).contentLength =
      ((fieldValue? (ascii "Content-Length") line).map takenLength).getD h.contentLength := by
  rw [ResponseHeaders.readLine, fieldValue?]
  cases strchr 58 line with
  | none => rfl
  | some i =>
    simp only [Option.bind_some]
    split_ifs <;> rfl

/-- The last field is the one that counts. -/
theorem contentLength_readLines (h : ResponseHeaders) (lines : List Bytes) :
    (lines.foldl ResponseHeaders.readLine h).contentLength =
      ((lines.filterMap (fieldValue? (ascii "Content-Length"))).getLast?.map takenLength).getD
        h.contentLength := by
  induction lines generalizing h with
  | nil => rfl
  | cons line lines ih =>
    rw [List.foldl_cons, ih, contentLength_readLine, List.filterMap_cons]
    cases fieldValue? (ascii "Content-Length") line with
    | none => rfl
    | some v =>
      rw [List.getLast?_cons]
      cases (lines.filterMap (fieldValue? (ascii "Content-Length"))).getLast? <;> rfl

theorem crLines_cons {c : UInt8} {s line : Bytes} {lines : List Bytes} (hc : c ≠ cr)
    (hs : crLines s = line :: lines) : crLines (c :: s) = (c :: line) :: lines := by
  cases s with
  | nil => cases hs
  | cons d s => rw [crLines, if_neg (by simpa using hc), hs]

theorem crLines_line {line : Bytes} (h : cr ∉ line) (rest : Bytes) :
    crLines (line ++ crlf ++ rest) = line :: crLines rest := by
  induction line with
  | nil => rfl
  | cons c line ih =>
    rw [List.mem_cons, not_or] at h
    exact crLines_cons (fun he => h.1 he.symm) (ih h.2)

theorem crLines_block {lines : List Bytes} (h : ∀ line ∈ lines, cr ∉ line) (rest : Bytes) :
    crLines (Http.block lines ++ rest) = lines ++ crLines rest := by
  induction lines with
  | nil => rfl
  | cons line lines ih =>
    rw [Http.block_cons, List.append_assoc, crLines_line (h line (List.mem_cons_self ..)),
      ih fun l hl => h l (List.mem_cons_of_mem _ hl)]
    rfl

namespace ResponseHead

variable (head : ResponseHead)

theorem exists_statusLine : ∃ rest, head.statusLine = 72 :: rest := by
  obtain ⟨rest, hrest⟩ := head.isHttp
  rw [ascii_eq rfl] at hrest
  exact ⟨_, hrest.symm⟩

/-- The status line is no field. -/
theorem fieldValue?_statusLine :
    fieldValue? (ascii "Content-Length") head.statusLine = none := by
  obtain ⟨rest, hrest⟩ := head.exists_statusLine
  rw [fieldValue?, hrest, Option.bind_eq_none_iff]
  intro i _
  refine if_neg ?_
  rw [strcaseeq, ascii_eq rfl]
  cases i with
  | zero =>
    rw [List.take_zero]
    decide
  | succ i =>
    rw [List.take_succ_cons, List.map_cons]
    intro h
    rw [beq_iff_eq] at h
    exact absurd (List.cons_eq_cons.1 h).1 (by decide)

theorem lines_ne_nil (line : Bytes) (h : line ∈ head.lines) : line ≠ [] := by
  obtain rfl | hl := List.mem_cons.1 h
  · obtain ⟨rest, hrest⟩ := head.exists_statusLine
    rw [hrest]
    exact List.cons_ne_nil _ _
  · exact head.ne_nil line hl

theorem takeWhile_lines : (crLines head.bytes).takeWhile (fun line => !line.isEmpty) = head.lines := by
  have hlines : crLines head.bytes = head.lines ++ [[]] := crLines_block head.noCr crlf
  rw [hlines, List.takeWhile_append_of_pos, List.takeWhile_cons_of_neg (by decide), List.append_nil]
  intro line hl
  rw [List.isEmpty_eq_false_iff.2 (head.lines_ne_nil line hl)]
  rfl

theorem contentLength_parse :
    (parseResponseHeaders head.bytes).contentLength = head.takenLength := by
  rw [parseResponseHeaders, takeWhile_lines, contentLength_readLines, lines, List.filterMap_cons,
    fieldValue?_statusLine]
  rfl

theorem isWebsocket_parse (h : ¬ ascii "HTTP/1.1 101 " <+: head.statusLine) :
    (parseResponseHeaders head.bytes).isWebsocket = false := by
  rw [isWebsocket_parseResponseHeaders, ← Bool.not_eq_true, List.isPrefixOf_iff_prefix]
  intro hp
  have hbytes : head.bytes = head.statusLine ++ cr :: (lf :: Http.block head.fields ++ crlf) := by
    rw [bytes, lines, Http.block_cons]
    simp [crlf]
  refine h (prefix_of_notMem ?_ (hbytes ▸ hp))
  rw [ascii_eq rfl]
  decide

/-- The length taken is no more than the one declared. -/
theorem Declares.takenLength_le {length : Nat} (h : head.Declares length) :
    head.takenLength ≤ length := by
  obtain ⟨v, hv, h⟩ := h
  rw [takenLength, Option.mem_def.1 hv]
  obtain ⟨hnonneg, hle⟩ := Http.strtol_le_of_decimal (s := (v.dropWhile (· == 32)).take 31) h
    (dropWhile_isSpace_spaces v ▸ dropWhile_take_prefix isSpace _ 31)
  exact Int.le_trans (toInt_le hnonneg) hle

end ResponseHead

/-! ## The header block arrives -/

/-- Where there was no header end, the search finds what a search of the whole buffer does. -/
theorem searchHeaderEnd_eq {buf : Bytes} (h : Http.headerEnd buf = none) (data : Bytes) :
    searchHeaderEnd (buf ++ data) buf.length = Http.headerEnd (buf ++ data) := by
  have hnone : ∀ j, j < buf.length - 3 → ¬ crlfcrlf <+: (buf ++ data).drop j := by
    intro j hj hp
    have hbuf : crlfcrlf <+: buf.drop j := by
      have := prefix_drop_take hp (m := buf.length) (show j + 4 ≤ buf.length by omega)
      rwa [List.take_left] at this
    obtain ⟨i, -, hi⟩ := strstr_isSome_of_prefix_drop (by omega) hbuf
    rw [Http.headerEnd, hi] at h
    cases h
  rw [Http.headerEnd, strstr_drop (by rw [List.length_append]; omega) hnone, searchHeaderEnd,
    Option.map_map]
  rfl

namespace ResponseHead

variable (head : ResponseHead)

theorem headerEnd_bytes (body : Bytes) :
    Http.headerEnd (head.bytes ++ body) = some head.bytes.length := by
  have hlines : ∀ line ∈ head.lines, line ≠ [] ∧ ¬ crlf <:+: line := fun line hl =>
    ⟨head.lines_ne_nil line hl, fun hi => head.noCr line hl (hi.subset (List.mem_cons_self ..))⟩
  have hlen : head.bytes.length = (Http.block head.lines).length + 2 := List.length_append
  have htwo : 2 ≤ (Http.block head.lines).length := by
    rw [lines, Http.block_cons, List.length_append, List.length_append, show crlf.length = 2 from rfl]
    omega
  rw [Http.headerEnd, bytes, Http.strstr_crlfcrlf_block hlines (List.cons_ne_nil _ _) body,
    ← bytes, Option.map_some]
  congr 1
  omega

/-- The header end is found with the first piece that goes as far. -/
theorem searchHeaderEnd_bytes {body buf data rest : Bytes} (hbuf : buf.length < head.bytes.length)
    (hresp : buf ++ data ++ rest = head.bytes ++ body) :
    searchHeaderEnd (buf ++ data) buf.length =
      if head.bytes.length ≤ (buf ++ data).length then some head.bytes.length else none := by
  have hshort : ∀ m : Bytes, m <+: head.bytes ++ body → m.length < head.bytes.length →
      Http.headerEnd m = none := by
    intro m hm hlt
    rw [Option.eq_none_iff_forall_ne_some]
    intro n hn
    have hle := Http.headerEnd_le hn
    rw [Option.some.inj ((Http.headerEnd_mono hm hn).symm.trans (head.headerEnd_bytes body))] at hle
    omega
  rw [searchHeaderEnd_eq (hshort buf ⟨data ++ rest, by rw [← hresp, List.append_assoc]⟩ hbuf)]
  split_ifs with hle
  · obtain ⟨more, hmore⟩ : head.bytes <+: buf ++ data :=
      List.prefix_of_prefix_length_le ⟨body, rfl⟩ ⟨rest, hresp⟩ hle
    rw [← hmore, headerEnd_bytes]
  · exact hshort _ ⟨rest, hresp⟩ (by omega)

end ResponseHead

/-! ## The loops -/

theorem relayTurn_of_ended {s : RelayState} (h : s.phase = .done ∨ s.phase = .refused)
    (data : Option Bytes) : relayTurn s data = s := by
  have hroom : s.room = 0 := by
    obtain h | h := h <;> rw [RelayState.room, h]
  rw [relayTurn, hroom, if_neg (Nat.lt_irrefl 0)]

theorem relay_of_ended {s : RelayState} (h : s.phase = .done ∨ s.phase = .refused)
    (segs : List Bytes) : relay s segs = s := by
  induction segs with
  | nil => exact relayTurn_of_ended h none
  | cons d ds ih =>
    rw [relay, List.foldl_cons, relayTurn_of_ended h]
    exact ih

theorem room_loop {s : RelayState} {mode : RelayMode} (hs : s.phase = .loop mode) : 0 < s.room := by
  rw [RelayState.room, hs]
  show 0 < arwsStreamBufSize
  decide

/-- A turn of a loop: what is to be written is delivered. -/
theorem relayTurn_loop {s : RelayState} {mode : RelayMode} (hs : s.phase = .loop mode) {d : Bytes}
    (hd : mode.toWrite d ≠ []) : relayTurn s (some d) =
      ⟨(mode.advance (mode.toWrite d).length).top, s.received ++ d, s.delivered ++ mode.toWrite d,
        s.lost⟩ := by
  have hroom := room_loop hs
  obtain ⟨phase, received, delivered, lost⟩ := s
  cases hs
  have hpos := List.length_pos_of_ne_nil hd
  have hle : ¬ ((mode.toWrite d).length : Int) ≤ 0 := by omega
  rw [relayTurn, if_pos hroom]
  simp only [RelayState.recv, RelayState.asked, RelayState.write, Nat.sub_zero, if_pos hpos,
    if_neg hle, Int.toNat_natCast, Nat.zero_add, Nat.lt_irrefl, if_false, List.drop_zero,
    List.take_length]

theorem relayTurn_loop_none {s : RelayState} {mode : RelayMode} (hs : s.phase = .loop mode) :
    (relayTurn s none).delivered = s.delivered := by
  rw [relayTurn, if_pos (room_loop hs)]
  obtain ⟨phase, received, delivered, lost⟩ := s
  cases hs
  rfl

/-- The relay of as much as the length taken. -/
theorem delivered_sized {c bd : Int} {segs : List Bytes} {s : RelayState}
    (hs : s.phase = (RelayMode.sized c bd).top) (hsegs : Segments s segs) :
    (relay s segs).delivered = s.delivered ++ segs.flatten.take (c - bd).toNat := by
  induction segs generalizing s bd with
  | nil =>
    rw [List.flatten_nil, List.take_nil, List.append_nil]
    by_cases hlt : bd < c
    · exact relayTurn_loop_none (hs.trans (if_pos hlt))
    · rw [relay_of_ended (Or.inl (hs.trans (if_neg hlt)))]
  | cons d ds ih =>
    by_cases hlt : bd < c
    · have hphase : s.phase = .loop (.sized c bd) := hs.trans (if_pos hlt)
      obtain ⟨hd, -⟩ := hsegs.1 (room_loop hphase)
      have hchunk : (RelayMode.sized c bd).toWrite d ≠ [] := by
        rw [← List.length_pos_iff] at hd ⊢
        rw [RelayMode.toWrite, List.length_take]
        omega
      have hturn := relayTurn_loop hphase hchunk
      have hnext := ih (congrArg RelayState.phase hturn) hsegs.2
      rw [relay, List.foldl_cons]
      refine hnext.trans ?_
      rw [hturn, List.append_assoc, List.flatten_cons, List.take_append]
      congr 3
      rw [RelayMode.toWrite, List.length_take]
      omega
    · rw [relay_of_ended (Or.inl (hs.trans (if_neg hlt))), Int.toNat_of_nonpos (by omega),
        List.take_zero, List.append_nil]

/-- The relay until the upstream closes. -/
theorem delivered_untilClose {segs : List Bytes} {s : RelayState} (hs : s.phase = .loop .untilClose)
    (hsegs : Segments s segs) : (relay s segs).delivered = s.delivered ++ segs.flatten := by
  induction segs generalizing s with
  | nil =>
    rw [List.flatten_nil, List.append_nil]
    exact relayTurn_loop_none hs
  | cons d ds ih =>
    have hturn := relayTurn_loop hs (hsegs.1 (room_loop hs)).1
    have hnext := ih (congrArg RelayState.phase hturn) hsegs.2
    rw [relay, List.foldl_cons]
    refine hnext.trans ?_
    rw [hturn, List.append_assoc, List.flatten_cons]
    rfl

/-! ## The whole response -/

namespace ResponseHead

variable (head : ResponseHead)

/-- How much of a response is sent, if `n` bytes of it are read with the header block. -/
def sentLength (n length : Nat) : Nat :=
  if head.takenLength < 0 then length
  else max n (head.bytes.length + head.takenLength.toNat)

/-- From the write of what was read with the header block. -/
theorem delivered_first (h101 : ¬ ascii "HTTP/1.1 101 " <+: head.statusLine) {buf body : Bytes}
    {segs : List Bytes} {s : RelayState} (hlen : head.bytes.length ≤ buf.length)
    (hresp : buf ++ segs.flatten = head.bytes ++ body)
    (hphase : s.phase = (RelayMode.ofHeaders (parseResponseHeaders (buf.take head.bytes.length))
      (buf.length - head.bytes.length)).top)
    (hdelivered : s.delivered = buf) (hsegs : Segments s segs) :
    (relay s segs).delivered = (head.bytes ++ body).take
      (head.sentLength buf.length (head.bytes ++ body).length) := by
  have htake : buf.take head.bytes.length = head.bytes := by
    have := congrArg (List.take head.bytes.length) hresp
    rwa [List.take_append_of_le_length hlen, List.take_left] at this
  rw [htake, RelayMode.ofHeaders, head.isWebsocket_parse h101, if_neg (by decide),
    contentLength_parse] at hphase
  rw [← hresp, sentLength]
  split_ifs at hphase ⊢ with hsized hneg
  · omega
  · rw [delivered_untilClose hphase hsegs, hdelivered, List.take_length]
  · rw [delivered_sized hphase hsegs, hdelivered, List.take_append,
      List.take_of_length_le (Nat.le_max_left ..)]
    congr 2
    omega
  · omega

/-- The turn that reads the end of the header block writes what was read so far. -/
theorem relayTurn_head_of_some {buf d : Bytes} {end_ : Nat} (hfull : buf.length < arwsStreamBufSize)
    (hfind : searchHeaderEnd (buf ++ d) buf.length = some end_) (hread : 0 < (buf ++ d).length) :
    relayTurn ⟨.head buf, buf, [], false⟩ (some d) =
      ⟨(RelayMode.ofHeaders (parseResponseHeaders ((buf ++ d).take end_))
        ((buf ++ d).length - end_)).top, buf ++ d, buf ++ d, false⟩ := by
  have hroom : 0 < (RelayState.mk (.head buf) buf [] false).room := Nat.sub_pos_of_lt hfull
  rw [relayTurn, if_pos hroom]
  simp only [RelayState.recv, hfind, RelayState.asked, RelayState.write, if_pos hread,
    Int.toNat_natCast, List.take_length, List.nil_append, Int.lt_irrefl, decide_false, Bool.or_false]

theorem relayTurn_head_of_none {buf d : Bytes} (hfull : buf.length < arwsStreamBufSize)
    (hfind : searchHeaderEnd (buf ++ d) buf.length = none) :
    relayTurn ⟨.head buf, buf, [], false⟩ (some d) =
      ⟨if (buf ++ d).length < arwsStreamBufSize then .head (buf ++ d) else .refused, buf ++ d,
        [], false⟩ := by
  have hroom : 0 < (RelayState.mk (.head buf) buf [] false).room := Nat.sub_pos_of_lt hfull
  rw [relayTurn, if_pos hroom]
  simp only [RelayState.recv, hfind]
  split_ifs <;> rfl

/-- From the reading of the header block. -/
theorem delivered_head (h101 : ¬ ascii "HTTP/1.1 101 " <+: head.statusLine) {body : Bytes}
    {segs : List Bytes} {buf : Bytes} (hbuf : buf.length < head.bytes.length)
    (hfull : buf.length < arwsStreamBufSize) (hresp : buf ++ segs.flatten = head.bytes ++ body)
    (hsegs : Segments ⟨.head buf, buf, [], false⟩ segs) :
    (relay ⟨.head buf, buf, [], false⟩ segs).delivered =
      if head.bytes.length ≤ arwsStreamBufSize then
        (head.bytes ++ body).take (head.sentLength
          (buf.length + readWith (head.bytes.length - buf.length) segs) (head.bytes ++ body).length)
      else [] := by
  induction segs generalizing buf with
  | nil =>
    have := congrArg List.length hresp
    rw [List.length_append, List.length_append, List.flatten_nil, List.length_nil] at this
    omega
  | cons d ds ih =>
    rw [List.flatten_cons, ← List.append_assoc] at hresp
    obtain ⟨-, hd⟩ := hsegs.1 (Nat.sub_pos_of_lt hfull)
    replace hd : d.length ≤ arwsStreamBufSize - buf.length := hd
    have hlen : (buf ++ d).length = buf.length + d.length := List.length_append
    have hfind := head.searchHeaderEnd_bytes hbuf hresp
    by_cases hle : head.bytes.length ≤ (buf ++ d).length
    · rw [if_pos hle] at hfind
      have hturn := relayTurn_head_of_some hfull hfind (by omega)
      have hfirst := head.delivered_first h101 hle hresp (congrArg RelayState.phase hturn)
        (congrArg RelayState.delivered hturn) hsegs.2
      rw [if_pos (by omega), readWith, if_pos (by omega), ← hlen]
      exact hfirst
    · rw [if_neg hle] at hfind
      have hturn := relayTurn_head_of_none hfull hfind
      have hnext := hsegs.2
      rw [relay, List.foldl_cons]
      rw [hturn] at hnext ⊢
      by_cases hmore : (buf ++ d).length < arwsStreamBufSize
      · rw [if_pos hmore] at hnext ⊢
        have hread : readWith (head.bytes.length - buf.length) (d :: ds) =
            d.length + readWith (head.bytes.length - buf.length - d.length) ds := by
          rw [readWith, if_neg (by omega)]
        refine (ih (by omega) hmore hresp hnext).trans ?_
        rw [hread, hlen, Nat.add_assoc, Nat.sub_sub]
      · rw [if_neg hmore, if_neg (by omega)]
        exact congrArg RelayState.delivered (relay_of_ended (Or.inr rfl) ds)

end ResponseHead

variable {head : ResponseHead} {body : Bytes} {segs : List Bytes}

theorem readWith_le (n : Nat) (segs : List Bytes) : readWith n segs ≤ segs.flatten.length := by
  induction segs generalizing n with
  | nil => exact Nat.le_refl 0
  | cons d ds ih =>
    rw [readWith, List.flatten_cons, List.length_append]
    have := ih (n - d.length)
    split_ifs <;> omega

theorem le_readWith {n : Nat} {segs : List Bytes} (h : n ≤ segs.flatten.length) :
    n ≤ readWith n segs := by
  induction segs generalizing n with
  | nil => exact h
  | cons d ds ih =>
    rw [List.flatten_cons, List.length_append] at h
    rw [readWith]
    split_ifs with hle
    · exact hle
    · have := ih (n := n - d.length) (by omega)
      omega

/-- **What the client is sent** of a response that comes in segments. -/
theorem delivered_relay (h101 : ¬ ascii "HTTP/1.1 101 " <+: head.statusLine)
    (hsegs : Segments .start segs) (hresp : segs.flatten = head.bytes ++ body) :
    (relay .start segs).delivered = if head.bytes.length ≤ arwsStreamBufSize then
      (head.bytes ++ body).take
        (head.sentLength (readWith head.bytes.length segs) (head.bytes ++ body).length)
      else [] := by
  have hpos : 0 < head.bytes.length := by
    rw [ResponseHead.bytes, List.length_append]
    exact Nat.add_pos_right _ (by decide)
  have hnone : ([] : Bytes).length < head.bytes.length := hpos
  have h := head.delivered_head h101 hnone (by decide) hresp hsegs
  rwa [List.length_nil, Nat.zero_add, Nat.sub_zero] at h

/-- **The header block and the declared length are what is sent**, exactly if the header block fits
the buffer and the larger of the length taken and what was read behind the header block is the
declared length; or if the length taken is negative and no more is there. -/
theorem relay_exact_iff {length : Nat} (hdecl : head.Declares length)
    (h101 : ¬ ascii "HTTP/1.1 101 " <+: head.statusLine) (hbody : length ≤ body.length)
    (hsegs : Segments .start segs) (hresp : segs.flatten = head.bytes ++ body) :
    (relay .start segs).delivered = head.bytes ++ body.take length ↔
      head.bytes.length ≤ arwsStreamBufSize ∧
        if head.takenLength < 0 then body.length = length
        else max (readWith head.bytes.length segs - head.bytes.length) head.takenLength.toNat =
          length := by
  have htaken := hdecl.takenLength_le
  have hall : (head.bytes ++ body).length = head.bytes.length + body.length := List.length_append
  have hread := readWith_le head.bytes.length segs
  have hread' : head.bytes.length ≤ readWith head.bytes.length segs :=
    le_readWith (by rw [hresp]; omega)
  rw [hresp] at hread
  have hpos : 0 < head.bytes.length := by
    rw [ResponseHead.bytes, List.length_append]
    exact Nat.add_pos_right _ (by decide)
  have hbegins : ∀ n, head.bytes.length ≤ n → n ≤ head.bytes.length + body.length →
      ((head.bytes ++ body).take n = head.bytes ++ body.take length ↔
        n - head.bytes.length = length) := by
    intro n hle hn
    rw [List.take_append, List.take_of_length_le hle, List.append_cancel_left_eq,
      List.take_eq_take_iff]
    omega
  rw [delivered_relay h101 hsegs hresp]
  by_cases hfits : head.bytes.length ≤ arwsStreamBufSize
  · rw [if_pos hfits, ResponseHead.sentLength]
    split_ifs with hneg
    · rw [hbegins _ (by omega) (by omega)]
      omega
    · rw [hbegins _ (by omega) (by omega)]
      omega
  · rw [if_neg hfits]
    refine iff_of_false (fun h => ?_) fun h => hfits h.1
    have := congrArg List.length h
    rw [List.length_nil, List.length_append] at this
    omega

/-- The header block of a response with a length of two. -/
def twoBytesHead : ResponseHead where
  statusLine := ascii "HTTP/1.1 200 OK"
  fields := [ascii "content-length: 2"]
  isHttp := ⟨ascii "1.1 200 OK", rfl⟩
  ne_nil := by
    rw [ascii_eq rfl]
    decide
  noCr := by
    repeat rw [ascii_eq rfl]
    decide

theorem twoBytesHead_bytes : twoBytesHead.bytes =
    ascii "HTTP/1.1 200 OK" ++ crlf ++ (ascii "content-length: 2" ++ crlf) ++ crlf := rfl

theorem twoBytesHead_lengthField : twoBytesHead.lengthField = some (ascii " 2") := by
  show ([ascii "content-length: 2"].filterMap (fieldValue? (ascii "Content-Length"))).getLast? = _
  repeat rw [ascii_eq rfl]
  decide +kernel

theorem twoBytesHead_declares : twoBytesHead.Declares 2 := by
  refine ⟨_, twoBytesHead_lengthField, ?_⟩
  rw [ascii_eq rfl]
  decide +kernel

theorem twoBytesHead_not_101 : ¬ ascii "HTTP/1.1 101 " <+: twoBytesHead.statusLine := by
  show ¬ ascii "HTTP/1.1 101 " <+: ascii "HTTP/1.1 200 OK"
  repeat rw [ascii_eq rfl]
  decide

/-- Two of three bytes are sent, when they come in two pieces. -/
theorem relay_exact_of_pieces :
    (relay .start [twoBytesHead.bytes ++ ascii "a", ascii "bc"]).delivered =
      twoBytesHead.bytes ++ (ascii "abc").take 2 := by
  refine (relay_exact_iff twoBytesHead_declares twoBytesHead_not_101 ?_ ?_ ?_).2 ?_
  · decide +kernel
  · rw [twoBytesHead_bytes]
    repeat rw [ascii_eq rfl]
    decide +kernel
  · simp [ascii_eq rfl]
  · rw [ResponseHead.takenLength, twoBytesHead_lengthField, twoBytesHead_bytes]
    repeat rw [ascii_eq rfl]
    decide +kernel

/-- **All three are sent when they come with the header block**, a byte more than was declared. -/
theorem not_relay_exact : ¬ ∀ (head : ResponseHead) (body : Bytes) (length : Nat) (segs : List Bytes),
    head.Declares length → length ≤ 2 ^ 63 - 1 → ¬ ascii "HTTP/1.1 101 " <+: head.statusLine →
      length ≤ body.length → Segments .start segs → segs.flatten = head.bytes ++ body →
        (relay .start segs).delivered = head.bytes ++ body.take length := by
  intro h
  have hsegs : Segments .start [twoBytesHead.bytes ++ ascii "abc"] := by
    rw [twoBytesHead_bytes]
    repeat rw [ascii_eq rfl]
    decide +kernel
  have h := h twoBytesHead (ascii "abc") 2 _ twoBytesHead_declares (by decide) twoBytesHead_not_101
    (by decide +kernel) hsegs (List.append_nil _)
  rw [twoBytesHead_bytes] at h
  repeat rw [ascii_eq rfl] at h
  revert h
  decide +kernel

end Proxy
end Arws

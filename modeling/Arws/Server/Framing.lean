import Arws.Library.Decimals
import Arws.Server.Forward

/-!
# Two readings of Content-Length

The read loop of `handle_client` takes the length of the body from the first of two spellings of the
name that it finds anywhere in what it has received, if that is before the header end.  Behind the
loop the header lines are parsed, and `get_header` finds the first field with the name, in any
spelling, among the first hundred.

* `FramingAgrees` — the length of the loop is the number in the field that `get_header` returns.
* `FramedRead.Matched` — what the text has to look like: the line of the field, the spelling that stands
  first, and the digits behind each.
* `framingAgrees_iff` — the two agree exactly there: if the spelling found is the name on the line of the
  field, and otherwise only if both numbers happen to be the same.
* `not_framingAgrees` — a name in capitals is enough to tell the two apart.
-/

set_option autoImplicit false

namespace Arws
namespace Server

open CString

/-! ## The text in which the header end is found -/

/-- The loop, and the text in which it has found the header end. -/
structure FramedRead where
  state : ReadState
  seen : Option Bytes

def framedMachine : Machine FramedRead Turn where
  init f := f = ⟨.start, none⟩
  step f turn := (readMachine.step f.state turn).map fun s =>
    ⟨s, f.seen.or (if s.headersParsed then some (cstr s.bytes) else none)⟩

/-- Every run of the loop has its text beside it. -/
theorem exists_seen_of_reach {s : ReadState} (h : readMachine.Reach s) :
    ∃ seen, framedMachine.Reach ⟨s, seen⟩ := by
  induction h with
  | start h => exact ⟨none, .start (by rw [show _ = ReadState.start from h]; rfl)⟩
  | next _ _ hs ih =>
    obtain ⟨seen, hseen⟩ := ih
    exact ⟨_, .next hseen trivial (Option.map_eq_some_iff.2 ⟨_, hs, rfl⟩)⟩

namespace FramedRead

/-- The text the header block is in. -/
def text (f : FramedRead) : Bytes := f.seen.getD f.state.text

def headEnd (f : FramedRead) : Nat := (strstr crlfcrlf f.text).getD 0

/-- The spelling of the name that the loop finds. -/
def spelling (f : FramedRead) : Option Nat :=
  f.seen.bind fun text => (contentLengthField text).filter (· < f.headEnd)

/-- Behind the spelling stands `n`, or a number beyond every `long` and `n` is the last of these; or no
number stands there, or there is no spelling, and `n` is 0. -/
def Spells (f : FramedRead) (n : Nat) : Prop :=
  match f.spelling with
  | none => n = 0
  | some cl => (∃ x, Http.NumberStands (f.text.drop (cl + 15)) x ∧ min longMax x = n) ∨
      n = 0 ∧ ∀ x, ¬ Http.NumberStands (f.text.drop (cl + 15)) x

end FramedRead

/-- **The loop and the parser agree**: the length of the loop is the number in the field that is
returned for the name, and 0 without one. -/
def FramingAgrees (contentLength : Int) (req : HttpRequest) : Prop :=
  match getHeader req (ascii "Content-Length") with
  | none => contentLength = 0
  | some v => ∃ n, Http.decimal (Http.trim v) = some n ∧ contentLength = n

/-- The line of the first field with the name, and where it begins: the lines count from a place on, up
to an empty one and to as many with a colon as there is room for. -/
def fieldLine (name : Bytes) : Nat → Nat → List Bytes → Option (Nat × Bytes)
  | 0, _, _ => none
  | _, _, [] => none
  | room + 1, place, line :: lines =>
    if line.head?.all fun c => c == cr || c == lf then none
    else match strchr 58 line with
      | some i =>
        if strcaseeq (line.take i) name then some (place, line)
        else fieldLine name room (place + (line.length + 2)) lines
      | none => fieldLine name (room + 1) (place + (line.length + 2)) lines

/-- The line of the field in the header block, behind the request line. -/
def FramedRead.field (f : FramedRead) : Option (Nat × Bytes) :=
  match splitLines (f.text.take f.headEnd) with
  | [] => none
  | line :: lines => fieldLine (ascii "Content-Length") 100 (line.length + 2) lines

/-- **Where the two agree**: without a line of the field, 0 stands behind the spelling, or nothing; and
with one, the field is a decimal number, and the spelling is its name, if the number fits a `long`, or
the same number stands behind it. -/
def FramedRead.Matched (f : FramedRead) : Prop :=
  match f.field with
  | none => f.Spells 0
  | some (p, line) => ∃ n, Http.FieldNumber line n ∧
      if f.spelling = some p then (n : Int) ≤ longMax else f.Spells n

/-! ## The loop knows the header end -/

/-- No header end was found. -/
structure Unseen (s : ReadState) : Prop where
  parsed : s.headersParsed = false
  bodyStart : s.bodyStart = none
  contentLength : s.contentLength = 0

/-- The header end was found in a text. -/
structure SeenIn (s : ReadState) (text : Bytes) : Prop where
  parsed : s.headersParsed = true
  zero : (0 : UInt8) ∉ text
  received : text <+: s.bytes
  headEnd : ∃ off b, strstr crlfcrlf text = some off ∧ s.bodyStart = some (b, off) ∧
    s.contentLength = (declaredLength text off).getD 0

/-- The header end is in the text that is kept. -/
def FramedRead.Known (f : FramedRead) : Prop :=
  Unseen f.state ∧ f.seen = none ∨ ∃ text, f.seen = some text ∧ SeenIn f.state text

/-- Whether the header end was found now. -/
def SeenNow (s : ReadState) : Prop := Unseen s ∨ SeenIn s (cstr s.bytes)

theorem SeenNow.finish {s : ReadState} (h : SeenNow s) : SeenNow { s with phase := .finished } :=
  h.imp (fun h => ⟨h.parsed, h.bodyStart, h.contentLength⟩)
    fun h => ⟨h.parsed, h.zero, h.received, h.headEnd⟩

theorem Unseen.double {s s' : ReadState} {newBlock : Option Bytes} (h : Unseen s)
    (hs : doubleBuffer s newBlock = some s') : Unseen s' := by
  obtain ⟨-, rfl⟩ | ⟨-, -, rest, rfl⟩ := doubleBuffer_cases hs
  · exact h
  · exact ⟨h.parsed, h.bodyStart, h.contentLength⟩

theorem SeenIn.makeRoom {s : ReadState} {off : Nat} (grow : Bool) (hparsed : s.headersParsed = true)
    (hbody : s.bodyStart = some (s.block, off)) (htext : s.text = cstr s.bytes)
    (hoff : strstr crlfcrlf (cstr s.bytes) = some off)
    (hn : declaredLength (cstr s.bytes) off = some s.contentLength) :
    SeenIn (makeRoom s (off + 4) grow) (cstr (makeRoom s (off + 4) grow).bytes) := by
  obtain ⟨-, hlen, b, hbody'⟩ := makeRoom_fields grow hbody (htext ▸ hoff)
  obtain ⟨hbytes, -, hparsed'⟩ := makeRoom_fixed s (off + 4) grow
  rw [hbytes]
  refine ⟨hparsed'.trans hparsed, zero_notMem_cstr _, hbytes ▸ cstr_isPrefix _, off, b, hoff, hbody', ?_⟩
  rw [hlen, hn]
  rfl

/-- The search finds the header end in all that was received, or does not find it. -/
theorem Unseen.findHeaderEnd {s : ReadState} {data : Bytes} (h : Unseen s) (grow : Bool) :
    SeenNow (findHeaderEnd (s.receive data) grow) := by
  have hparsed : (s.receive data).headersParsed = false := h.parsed
  obtain ⟨-, he⟩ | ⟨off, hoff, ⟨hn, he⟩ | ⟨n, hn, he⟩⟩ := findHeaderEnd_cases hparsed grow <;> rw [he]
  · exact Or.inl ⟨h.parsed, rfl, h.contentLength⟩
  · rw [text_receive] at hoff hn
    refine Or.inr ⟨rfl, zero_notMem_cstr _, cstr_isPrefix _, off, _, hoff, rfl, ?_⟩
    rw [show cstr (s.receive data).bytes = cstr (s.bytes ++ data) from rfl, hn]
    exact h.contentLength
  · have htext := text_receive s data
    rw [htext] at hoff hn
    exact Or.inr (SeenIn.makeRoom grow rfl rfl htext hoff hn)

theorem SeenNow.leave {s : ReadState} (h : SeenNow s) (stray : Int) :
    SeenNow (leaveIfComplete s stray) := by
  obtain ⟨-, he⟩ | ⟨he, -⟩ := leaveIfComplete_cases s stray <;> rw [he]
  · exact h.finish
  · exact h

theorem Unseen.readTurn {s : ReadState} (h : Unseen s) (turn : Turn) : SeenNow (readTurn s turn) := by
  refine readTurn_rule (fun _ => ?_) (fun s' hdouble _ => ?_) fun s' hdouble data _ => ?_
  · exact SeenNow.finish (Or.inl h)
  · exact SeenNow.finish (Or.inl (h.double hdouble))
  · exact ((h.double hdouble).findHeaderEnd turn.grow).leave turn.stray

/-- More bytes leave the header end where it is. -/
theorem SeenIn.readTurn {s : ReadState} {text : Bytes} (h : SeenIn s text) (turn : Turn) :
    SeenIn (readTurn s turn) text := by
  have hfields : ∀ t : ReadState, t.headersParsed = s.headersParsed → s.bytes <+: t.bytes →
      t.bodyStart = s.bodyStart → t.contentLength = s.contentLength → SeenIn t text := by
    intro t hparsed hbytes hbody hlen
    exact ⟨hparsed.trans h.parsed, h.zero, h.received.trans hbytes, by rw [hbody, hlen]; exact h.headEnd⟩
  have hdoubled : ∀ s', doubleBuffer s turn.newBlock = some s' → s'.headersParsed = s.headersParsed ∧
      s'.bytes = s.bytes ∧ s'.bodyStart = s.bodyStart ∧ s'.contentLength = s.contentLength := by
    intro s' hdouble
    obtain ⟨-, rfl⟩ | ⟨-, -, rest, rfl⟩ := doubleBuffer_cases hdouble
    · exact ⟨rfl, rfl, rfl, rfl⟩
    · exact ⟨rfl, rfl, rfl, rfl⟩
  refine readTurn_rule (P := fun t => SeenIn t text) (fun _ => ?_) (fun s' hdouble _ => ?_)
    fun s' hdouble data _ => ?_
  · exact hfields _ rfl List.prefix_rfl rfl rfl
  · obtain ⟨hparsed, hbytes, hbody, hlen⟩ := hdoubled s' hdouble
    exact hfields _ hparsed (hbytes ▸ List.prefix_rfl) hbody hlen
  · obtain ⟨hparsed, hbytes, hbody, hlen⟩ := hdoubled s' hdouble
    have hfound : findHeaderEnd (s'.receive data) turn.grow = s'.receive data := by
      rw [findHeaderEnd]
      exact if_pos (hparsed.trans h.parsed)
    have hbegins : s.bytes <+: (s'.receive data).bytes := hbytes ▸ List.prefix_append _ _
    rw [hfound]
    obtain ⟨-, he⟩ | ⟨he, -⟩ := leaveIfComplete_cases (s'.receive data) turn.stray <;> rw [he]
    · exact hfields _ hparsed hbegins hbody hlen
    · exact hfields _ hparsed hbegins hbody hlen

theorem known_of_reach {f : FramedRead} (h : framedMachine.Reach f) : f.Known := by
  refine h.invariant (I := FramedRead.Known) ?_ ?_
  · rintro f rfl
    exact Or.inl ⟨⟨rfl, rfl, rfl⟩, rfl⟩
  · rintro ⟨s, seen⟩ turn g hknown - hs
    obtain ⟨t, ht, rfl⟩ := Option.map_eq_some_iff.1 hs
    obtain ⟨-, rfl⟩ := readMachine_step_eq_some.1 ht
    obtain ⟨hunseen, rfl⟩ | ⟨text, rfl, hseen⟩ := hknown
    · obtain hunseen' | hseen := hunseen.readTurn turn
      · exact Or.inl ⟨hunseen', by rw [hunseen'.parsed]; rfl⟩
      · exact Or.inr ⟨_, by rw [hseen.parsed]; rfl, hseen⟩
    · exact Or.inr ⟨text, rfl, hseen.readTurn turn⟩

/-! ## The parser goes by the same text -/

theorem take_of_isPrefix {a b : Bytes} (h : a <+: b) {n : Nat} (hn : n ≤ a.length) :
    b.take n = a.take n := by
  obtain ⟨t, rfl⟩ := h
  exact List.take_append_of_le_length hn

/-- What is read behind the spelling, and 0 without one. -/
def FramedRead.spelledLength (f : FramedRead) : Int :=
  (f.spelling.map fun cl => strtol (f.text.drop (cl + 15))).getD 0

theorem FramedRead.spelledLength_eq_iff {f : FramedRead} {n : Nat} : f.spelledLength = n ↔ f.Spells n := by
  rw [spelledLength, Spells]
  cases f.spelling with
  | none => exact ⟨fun h => (Int.natCast_eq_zero.1 h.symm), fun h => h ▸ rfl⟩
  | some cl => exact Http.strtol_eq_natCast_iff

/-- The length of the loop is the number behind the spelling it finds. -/
theorem FramedRead.Known.contentLength {f : FramedRead} (h : f.Known) :
    f.state.contentLength = f.spelledLength := by
  obtain ⟨s, seen⟩ := f
  obtain ⟨hunseen, rfl⟩ | ⟨text, rfl, hseen⟩ := h
  · exact hunseen.contentLength
  · obtain ⟨off, b, hoff, -, hlen⟩ := hseen.headEnd
    have hend : (FramedRead.mk s (some text)).headEnd = off := by
      rw [FramedRead.headEnd, FramedRead.text, Option.getD_some, hoff]
      rfl
    rw [hlen, declaredLength, FramedRead.spelledLength, FramedRead.spelling, Option.bind_some, hend,
      FramedRead.text, Option.getD_some]
    cases contentLengthField text with
    | none => rfl
    | some cl =>
      rw [Option.bind_some]
      by_cases hlt : cl < off
      · rw [if_pos hlt, Option.filter_some, if_pos (decide_eq_true hlt)]
        rfl
      · rw [if_neg hlt, Option.filter_some, if_neg (by rwa [decide_eq_true_eq])]
        rfl

/-- A request that goes on is parsed from the header block of the text. -/
theorem FramedRead.Known.parseHead {f : FramedRead} {env : ParseEnv} {fullPath : Bytes}
    {req : HttpRequest} (h : f.Known) (hreq : parseRequest env f.state = .request fullPath req) :
    (0 : UInt8) ∉ f.text ∧ strstr crlfcrlf f.text = some f.headEnd ∧
      ∃ body len, parseHead env (f.text.take f.headEnd) body len = .ok (fullPath, req) := by
  obtain ⟨s, seen⟩ := f
  obtain ⟨off, hlast, hok⟩ := parseRequest_eq_request hreq
  obtain ⟨hzero, hoff, hbegins⟩ : (0 : UInt8) ∉ (FramedRead.mk s seen).text ∧
      strstr crlfcrlf (FramedRead.mk s seen).text = some off ∧
      (FramedRead.mk s seen).text <+: s.bytes ++ s.rest := by
    obtain ⟨hunseen, rfl⟩ | ⟨text, rfl, hseen⟩ := h
    · exact ⟨zero_notMem_cstr _, strstr_of_lastBodyStart hunseen.bodyStart hlast, cstr_isPrefix _⟩
    · obtain ⟨off', b, hoff, hbody, -⟩ := hseen.headEnd
      cases (lastBodyStart_of_some hbody).symm.trans hlast
      exact ⟨hseen.zero, hoff, hseen.received.trans (List.prefix_append _ _)⟩
  have hend : (FramedRead.mk s seen).headEnd = off := by
    rw [FramedRead.headEnd, hoff]
    rfl
  have hle := strstr_add_le hoff
  rw [take_of_isPrefix hbegins (by omega)] at hok
  rw [hend]
  exact ⟨hzero, hoff, _, _, hok⟩

/-! ## The line of a field -/

theorem find?_of_fieldLine_eq_none {name : Bytes} {room place : Nat} {lines : List Bytes}
    (h : fieldLine name room place lines = none) :
    (parseHeaders room lines).find? (fun h => strcaseeq h.name name) = none := by
  fun_induction fieldLine name room place lines with
  | case1 =>
    rw [parseHeaders]
    rfl
  | case2 room place hroom =>
    rw [parseHeaders]
    · rfl
    · exact hroom
  | case3 room place line lines hend => rw [parseHeaders, if_pos hend]; rfl
  | case4 room place line lines hend i hi hname => cases h
  | case5 room place line lines hend i hi hname ih =>
    rw [parseHeaders, if_neg hend, hi]
    exact (List.find?_cons_of_neg (p := fun h : HttpHeader => strcaseeq h.name name) hname).trans (ih h)
  | case6 room place line lines hend hi ih =>
    rw [parseHeaders, if_neg hend, hi]
    exact ih h

/-- The field that is found is on the line, and the line is at its place. -/
theorem find?_of_fieldLine_eq_some {name : Bytes} {room place p : Nat} {lines : List Bytes} {line : Bytes}
    (h : fieldLine name room place lines = some (p, line)) :
    ∃ pre post i, lines = pre ++ line :: post ∧ p = place + (Http.block pre).length ∧
      strchr 58 line = some i ∧
      (parseHeaders room lines).find? (fun h => strcaseeq h.name name) =
        some ⟨line.take i, (line.drop (i + 1)).dropWhile (· == 32)⟩ := by
  fun_induction fieldLine name room place lines with
  | case1 => cases h
  | case2 => cases h
  | case3 => cases h
  | case4 room place line lines hend i hi hname =>
    cases h
    refine ⟨[], lines, i, rfl, rfl, hi, ?_⟩
    rw [parseHeaders, if_neg hend, hi]
    exact List.find?_cons_of_pos hname
  | case5 room place line lines hend i hi hname ih =>
    obtain ⟨pre, post, j, rfl, rfl, hj, hfind⟩ := ih h
    refine ⟨_ :: pre, post, j, rfl, ?_, hj, ?_⟩
    · rw [Http.block_cons, List.length_append, List.length_append, Nat.add_assoc]
      rfl
    · rw [parseHeaders, if_neg hend, hi]
      exact (List.find?_cons_of_neg (p := fun h : HttpHeader => strcaseeq h.name name) hname).trans hfind
  | case6 room place line lines hend hi ih =>
    obtain ⟨pre, post, j, rfl, rfl, hj, hfind⟩ := ih h
    refine ⟨_ :: pre, post, j, rfl, ?_, hj, ?_⟩
    · rw [Http.block_cons, List.length_append, List.length_append, Nat.add_assoc]
      rfl
    · rw [parseHeaders, if_neg hend, hi]
      exact hfind

/-! ## The two readings -/

variable {f : FramedRead} {env : ParseEnv} {fullPath : Bytes} {req : HttpRequest}

/-- Without a line of the field there is no field. -/
theorem getHeader_of_field_eq_none (h : f.Known)
    (hreq : parseRequest env f.state = .request fullPath req) (hfield : f.field = none) :
    getHeader req (ascii "Content-Length") = none := by
  obtain ⟨-, -, body, len, hok⟩ := h.parseHead hreq
  rw [getHeader, (parseHead_eq_ok hok).2.2.1]
  rw [FramedRead.field] at hfield
  cases hlines : splitLines (f.text.take f.headEnd) with
  | nil => rfl
  | cons line lines =>
    rw [hlines] at hfield
    rw [List.tail_cons, find?_of_fieldLine_eq_none hfield, Option.map_none]

/-- The line of a field stands in the text, and the field is what is returned. -/
theorem getHeader_of_field_eq_some (h : f.Known)
    (hreq : parseRequest env f.state = .request fullPath req) {p : Nat} {line : Bytes}
    (hfield : f.field = some (p, line)) :
    ∃ i rest, f.text.drop p = line ++ crlf ++ rest ∧ strchr 58 line = some i ∧
      getHeader req (ascii "Content-Length") =
        some ((line.drop (i + 1)).dropWhile (· == 32)) := by
  obtain ⟨-, hoff, body, len, hok⟩ := h.parseHead hreq
  rw [getHeader, (parseHead_eq_ok hok).2.2.1]
  rw [FramedRead.field] at hfield
  cases hlines : splitLines (f.text.take f.headEnd) with
  | nil =>
    rw [hlines] at hfield
    cases hfield
  | cons first lines =>
    rw [hlines] at hfield
    obtain ⟨pre, post, i, rfl, rfl, hi, hfind⟩ := find?_of_fieldLine_eq_some hfield
    obtain ⟨-, ⟨rest, hrest⟩, -⟩ := strstr_eq_some_iff.1 hoff
    have htext : f.text = Http.block (first :: (pre ++ line :: post)) ++ (crlf ++ rest) := by
      rw [← hlines, Http.block_splitLines, List.append_assoc, ← List.append_assoc crlf crlf,
        show crlf ++ crlf = crlfcrlf from rfl, hrest, List.take_append_drop]
    have hsplit : Http.block (first :: (pre ++ line :: post)) ++ (crlf ++ rest) =
        (first ++ crlf ++ Http.block pre) ++
          (line ++ crlf ++ (Http.block post ++ (crlf ++ rest))) := by
      simp only [Http.block, List.flatMap_cons, List.flatMap_append, List.append_assoc]
    refine ⟨i, Http.block post ++ (crlf ++ rest), ?_, hi, ?_⟩
    · rw [htext, hsplit]
      exact List.drop_left' (by simp only [List.length_append, show crlf.length = 2 from rfl])
    · rw [List.tail_cons, hfind, Option.map_some]

/-- The spelling that is found is a name and a colon. -/
theorem contentLengthField_eq_some {text : Bytes} {cl : Nat} (h : contentLengthField text = some cl) :
    ∃ name : Bytes, name.length = 14 ∧ 58 ∉ name ∧ cr ∉ name ++ [58] ∧
      name ++ [58] <+: text.drop cl := by
  rw [contentLengthField] at h
  split at h
  · rename_i cl' hcl
    cases h
    refine ⟨ascii "Content-Length", ?_, ?_, ?_, (strstr_eq_some_iff.1 hcl).2.1⟩
    all_goals
      rw [ascii_eq rfl]
      decide
  · refine ⟨ascii "content-length", ?_, ?_, ?_, (strstr_eq_some_iff.1 h).2.1⟩
    all_goals
      rw [ascii_eq rfl]
      decide

/-- A field under the name that is looked for is read where the parser reads it. -/
theorem spelledLength_of_own_name (h : f.Known)
    (hreq : parseRequest env f.state = .request fullPath req) {p : Nat} {line : Bytes}
    (hfield : f.field = some (p, line)) (hspelling : f.spelling = some p) {n : Nat}
    (hn : Http.FieldNumber line n) : f.spelledLength = min longMax n := by
  obtain ⟨i, rest, hdrop, hi, -⟩ := getHeader_of_field_eq_some h hreq hfield
  obtain ⟨text, hseen, hspelled⟩ := Option.bind_eq_some_iff.1 hspelling
  have htext : f.text = text := by rw [FramedRead.text, hseen, Option.getD_some]
  obtain ⟨name, hlen, hcolon, hcr, hname⟩ :=
    contentLengthField_eq_some (Option.filter_eq_some_iff.1 hspelled).1
  rw [← htext, hdrop, List.append_assoc] at hname
  obtain ⟨raw, rfl⟩ := prefix_of_notMem hcr hname
  rw [List.append_assoc, List.singleton_append, strchr_append hcolon] at hi
  obtain rfl := Option.some.inj hi
  have hraw : (name ++ [58] ++ raw).drop (name.length + 1) = raw :=
    List.drop_left' (by rw [List.length_append]; rfl)
  have hbehind : f.text.drop (p + 15) = raw ++ crlf ++ rest := by
    rw [← List.drop_drop, hdrop, List.append_assoc, List.append_assoc (name ++ [58]),
      List.drop_left' (by rw [List.length_append, hlen]; rfl), ← List.append_assoc]
  have hcolon' : strchr 58 (name ++ [58] ++ raw) = some name.length := by
    rw [List.append_assoc, List.singleton_append, strchr_append hcolon]
  rw [Http.fieldNumber_iff hcolon', hraw, ← Http.decimal_trim_iff] at hn
  rw [FramedRead.spelledLength, hspelling, Option.map_some, Option.getD_some, hbehind]
  exact Http.strtol_of_decimal hn rest

/-- **Where the loop and the parser agree.** -/
theorem framingAgrees_iff (h : framedMachine.Reach f)
    (hreq : parseRequest env f.state = .request fullPath req) :
    FramingAgrees f.state.contentLength req ↔ f.Matched := by
  have hknown := known_of_reach h
  rw [hknown.contentLength, FramingAgrees, FramedRead.Matched]
  cases hfield : f.field with
  | none =>
    rw [getHeader_of_field_eq_none hknown hreq hfield]
    exact FramedRead.spelledLength_eq_iff (n := 0)
  | some field =>
    obtain ⟨p, line⟩ := field
    obtain ⟨i, rest, -, hi, hget⟩ := getHeader_of_field_eq_some hknown hreq hfield
    simp only [hget, Http.trim_dropWhile_spaces, Http.decimal_trim_iff, ← Http.fieldNumber_iff hi]
    refine exists_congr fun n => and_congr_right fun hn => ?_
    split_ifs with hspelling
    · rw [spelledLength_of_own_name hknown hreq hfield hspelling hn]
      omega
    · exact FramedRead.spelledLength_eq_iff

/-- The loop behind the read, with what it has seen. -/
private def framedBy (text : String) : FramedRead :=
  let s := readTurn .start (.whole text)
  ⟨s, if s.headersParsed then some (cstr s.bytes) else none⟩

private theorem reach_framedBy {text : String} (h : (Turn.whole text).Possible .start) :
    framedMachine.Reach (framedBy text) :=
  .next (.start rfl) trivial (Option.map_eq_some_iff.2 ⟨_, if_pos ⟨rfl, h⟩, rfl⟩)

/-- A field that is spelled as the loop looks for it. -/
theorem framingAgrees_of_spelled_name : ∃ f req, framedMachine.Reach f ∧
    parseRequest ⟨true, true⟩ f.state = .request (ascii "/") req ∧
      f.state.contentLength = 1 ∧ FramingAgrees f.state.contentLength req := by
  have hreach : framedMachine.Reach (framedBy "POST / HTTP/1.1\r\nContent-Length: 1\r\n\r\na") :=
    reach_framedBy (by decide +kernel)
  have hreq : parseRequest ⟨true, true⟩
      (framedBy "POST / HTTP/1.1\r\nContent-Length: 1\r\n\r\na").state =
        .request (ascii "/") ⟨ascii "POST", ascii "/", none, [], [⟨ascii "Content-Length", ascii "1"⟩],
          [], ascii "a", 1⟩ := by
    rw [framedBy]
    repeat rw [ascii_eq rfl]
    decide +kernel
  refine ⟨_, _, hreach, hreq, by decide +kernel, (framingAgrees_iff hreach hreq).2 ?_⟩
  have hfield : (framedBy "POST / HTTP/1.1\r\nContent-Length: 1\r\n\r\na").field =
      some (17, ascii "Content-Length: 1") := by decide +kernel
  have hspelling : (framedBy "POST / HTTP/1.1\r\nContent-Length: 1\r\n\r\na").spelling = some 17 := by
    decide +kernel
  rw [FramedRead.Matched, hfield]
  refine ⟨1, ⟨ascii "Content-Length", ascii " 1", by decide, by decide, [32], [49], [], by decide, by decide,
    by decide, by decide, by decide, by decide⟩, ?_⟩
  rw [if_pos hspelling]
  decide

/-- **A name in capitals is a field to the parser, and nothing to the loop.** -/
theorem not_framingAgrees : ¬ ∀ f env fullPath req, framedMachine.Reach f →
    f.state.phase = .finished → parseRequest env f.state = .request fullPath req →
      FramingAgrees f.state.contentLength req := by
  intro h
  have hreq : parseRequest ⟨true, true⟩
      (framedBy "POST / HTTP/1.1\r\nCONTENT-LENGTH: 1\r\n\r\n").state =
        .request (ascii "/") ⟨ascii "POST", ascii "/", none, [], [⟨ascii "CONTENT-LENGTH", ascii "1"⟩],
          [], [], 0⟩ := by decide +kernel
  obtain ⟨n, hn, hlen⟩ := h _ _ _ _ (reach_framedBy (by decide +kernel)) (by decide +kernel) hreq
  have hone : Http.decimal (Http.trim (ascii "1")) = some 1 := by decide
  cases hone.symm.trans hn
  revert hlen
  decide +kernel

end Server
end Arws

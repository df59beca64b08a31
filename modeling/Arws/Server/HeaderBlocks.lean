import Arws.Library.HeaderBlock
import Arws.Server.HandleClient

/-!
# The header blocks of responses

`server_send_response`, `server_redirect` and `server_serve_file` format what is in `response_headers`,
with more text around it, into buffers of 2048 and 1024 bytes.  The field is filled by
`server_add_header` and by the `Set-Cookie` line of `handle_client`.

* `reachUnder_tidy_iff` — the field is made of lines in exactly the runs in which no line without text is
  added and the cookie is not cut between its CR and its LF.
* `headersComplete_iff` — the blocks of all three are complete if and only if it is, the content type is
  made of lines as well, and the texts of the last two fit their buffers.
* `not_headersComplete` — a redirect to a long address.
-/

set_option autoImplicit false

namespace Arws
namespace Server

open CString Http

/-! ## The field -/

inductive HeaderOp
  | addHeader (headerLine : Bytes)
  | assignAnonId (random : Option (Vector UInt8 16))

def headerStep (s : Session) : HeaderOp → Option Session
  | .addHeader headerLine => if (0 : UInt8) ∈ headerLine then none else serverAddHeader s headerLine
  | .assignAnonId random => assignAnonId random s

/-- The headers of a response, from an empty field on. -/
def headerMachine : Machine Session HeaderOp where
  init s := s.conn.responseHeaders.string? = some [] ∧ ∃ anonId, s.conn.anonId.string? = some anonId
  step := headerStep

/-- A line that is added has text in it, if there is room for its end; and the cookie is not cut between
its CR and its LF. -/
def Tidy (s : Session) : HeaderOp → Prop
  | .addHeader headerLine => ∀ headers ∈ s.conn.responseHeaders.string?, headers.length < 1021 →
      ∃ c ∈ headerLine, c ≠ cr ∧ c ≠ lf
  | .assignAnonId random => s.conn.anonId.bytes.head? = some 0 → random.isSome = true →
      ∀ headers ∈ s.conn.responseHeaders.string?, headers.length ≠ 926

instance (s : Session) : ∀ op, Decidable (Tidy s op)
  | .addHeader headerLine => inferInstanceAs (Decidable
      (∀ headers ∈ s.conn.responseHeaders.string?, headers.length < 1021 →
        ∃ c ∈ headerLine, c ≠ cr ∧ c ≠ lf))
  | .assignAnonId random => inferInstanceAs (Decidable
      (s.conn.anonId.bytes.head? = some 0 → random.isSome = true →
        ∀ headers ∈ s.conn.responseHeaders.string?, headers.length ≠ 926))

/-- The line behind the headers. -/
def closing : Bytes := ascii "Connection: close" ++ crlf

/-- The headers, and the line behind them, are lines. -/
def Lined (s : Session) : Prop :=
  ∃ headers, s.conn.responseHeaders.string? = some headers ∧ WellFormed (headers ++ closing)

/-- A text ends with a line, or it is empty. -/
def Ended (s : Bytes) : Prop := s = [] ∨ ∃ x, s = x ++ crlf

/-- Both strings are terminated, and the headers end with a line or the field is full. -/
structure InField (s : Session) (headers : Bytes) : Prop where
  string : s.conn.responseHeaders.string? = some headers
  anonId : ∃ anonId, s.conn.anonId.string? = some anonId
  ended : Ended headers ∨ headers.length = 1023

variable {s t : Session} {headers line : Bytes}

theorem Ended.wellFormed_append (h : Ended headers) (rest : Bytes) :
    WellFormed (headers ++ rest) ↔ WellFormed headers ∧ WellFormed rest := by
  obtain rfl | ⟨x, rfl⟩ := h
  · exact ⟨fun h => ⟨wellFormed_nil, h⟩, fun h => h.2⟩
  · exact wellFormed_append_iff

theorem wellFormed_closing : WellFormed closing := wellFormed_line (by rw [ascii_eq rfl]; decide)

/-! ## A header line -/

theorem oneLine_sanitize (room : Nat) (text : Bytes) : OneLine (sanitize room text) := by
  intro c hc
  have hmem := List.mem_filter.1 ((List.take_sublist _ _).subset hc)
  simpa using hmem.2

theorem sanitize_eq_nil_iff {room : Nat} (hroom : 0 < room) (text : Bytes) :
    sanitize room text = [] ↔ ¬ ∃ c ∈ text, c ≠ cr ∧ c ≠ lf := by
  rw [sanitize, List.take_eq_nil_iff, List.filter_eq_nil_iff]
  constructor
  · rintro (h | h)
    · omega
    · rintro ⟨c, hc, hne⟩
      exact h c hc (by simpa using hne)
  · intro h
    exact Or.inr fun c hc hne => h ⟨c, hc, by simpa using hne⟩

/-- **What `server_add_header` does**: the line goes to the end of the field, or there is no room. -/
theorem serverAddHeader_cases (h : InField s headers) (hzero : (0 : UInt8) ∉ line)
    (hs : serverAddHeader s line = some t) :
    (1024 ≤ headers.length + (sanitize 1022 line).length + 3 ∧ t = s) ∨
      headers.length + (sanitize 1022 line).length + 3 < 1024 ∧
        InField t (headers ++ (sanitize 1022 line ++ crlf)) := by
  simp only [serverAddHeader, h.string, Option.bind_some] at hs
  split_ifs at hs with hroom
  · obtain ⟨array, harray, rfl⟩ := Option.map_eq_some_iff.1 hs
    have hnone : (0 : UInt8) ∉ sanitize 1022 line ++ crlf := by
      rw [List.mem_append, not_or]
      refine ⟨fun hmem => hzero ?_, by decide⟩
      exact (List.mem_filter.1 ((List.take_sublist _ _).subset hmem)).1
    obtain ⟨array', harray', hstring⟩ := CharArray.string?_store h.string
      (t := sanitize 1022 line ++ crlf) (by rw [List.length_append, show crlf.length = 2 from rfl]; omega)
    obtain rfl : array = array' := Option.some.inj (harray.symm.trans harray')
    rw [cstr_eq_self hnone] at hstring
    exact Or.inr ⟨hroom, hstring, h.anonId, Or.inl (Or.inr ⟨_, (List.append_assoc ..).symm⟩)⟩
  · exact Or.inl ⟨Nat.not_lt.1 hroom, (Option.some.inj hs).symm⟩

theorem lined_iff (h : InField s headers) : Lined s ↔ WellFormed (headers ++ closing) := by
  constructor
  · rintro ⟨headers', hstring, hwell⟩
    rw [h.string, Option.some.injEq] at hstring
    rwa [hstring]
  · exact fun hwell => ⟨headers, h.string, hwell⟩

theorem tidy_addHeader_iff (h : InField s headers) : Tidy s (.addHeader line) ↔
    (headers.length < 1021 → sanitize 1022 line ≠ []) := by
  rw [Ne, sanitize_eq_nil_iff (by decide), not_not, Tidy, h.string]
  exact ⟨fun htidy => htidy headers rfl, fun htidy _ hmem => by cases hmem; exact htidy⟩

/-- One `server_add_header` keeps to lines if and only if its own line is one. -/
theorem lined_addHeader (h : InField s headers) (hzero : (0 : UInt8) ∉ line)
    (hs : serverAddHeader s line = some t) :
    (∃ headers', InField t headers') ∧ (Lined t ↔ Lined s ∧ Tidy s (.addHeader line)) := by
  rw [tidy_addHeader_iff h]
  obtain ⟨hfull, rfl⟩ | ⟨hroom, ht⟩ := serverAddHeader_cases h hzero hs
  · refine ⟨⟨headers, h⟩, (and_iff_left fun hlt hnil => ?_).symm⟩
    rw [hnil, List.length_nil] at hfull
    omega
  · have hended : Ended headers := h.ended.resolve_right (by omega)
    refine ⟨⟨_, ht⟩, ?_⟩
    rw [lined_iff h, lined_iff ht, List.append_assoc, hended.wellFormed_append,
      hended.wellFormed_append, wellFormed_append_iff, wellFormed_line_iff (oneLine_sanitize 1022 line)]
    exact ⟨fun ⟨hwell, hne, hclosing⟩ => ⟨⟨hwell, hclosing⟩, fun _ => hne⟩,
      fun ⟨⟨hwell, hclosing⟩, hne⟩ => ⟨hwell, hne (by omega), hclosing⟩⟩

/-! ## The cookie -/

theorem hexDigit_visible : ∀ c : UInt8, hexDigit (c >>> 4) ≠ 0 ∧ hexDigit (c >>> 4) ≠ cr ∧
    hexDigit (c >>> 4) ≠ lf ∧ hexDigit (c &&& 15) ≠ 0 ∧ hexDigit (c &&& 15) ≠ cr ∧
      hexDigit (c &&& 15) ≠ lf :=
  forall_byte (by decide +kernel)

theorem mem_hexText {raw : Vector UInt8 16} {c : UInt8} (h : c ∈ hexText raw) :
    c ≠ 0 ∧ c ≠ cr ∧ c ≠ lf := by
  obtain ⟨x, -, hc⟩ := List.mem_flatMap.1 h
  obtain ⟨h0, hcr, hlf, h0', hcr', hlf'⟩ := hexDigit_visible x
  rw [List.mem_cons, List.mem_singleton] at hc
  obtain rfl | rfl := hc
  · exact ⟨h0, hcr, hlf⟩
  · exact ⟨h0', hcr', hlf'⟩

/-- The cookie without its line end. -/
def cookieText (anonId : Bytes) : Bytes :=
  ascii "Set-Cookie: ARC_ANON_ID=" ++ anonId ++ ascii "; Path=/; HttpOnly; SameSite=Lax; Secure"

theorem setCookieLine_eq (anonId : Bytes) : setCookieLine anonId = cookieText anonId ++ crlf := by
  have hend : ascii "; Path=/; HttpOnly; SameSite=Lax; Secure\r\n" =
      ascii "; Path=/; HttpOnly; SameSite=Lax; Secure" ++ crlf := by
    rw [ascii_eq rfl, ascii_eq rfl]
    decide
  rw [setCookieLine, cookieText, hend, List.append_assoc _ _ crlf]

theorem isLine_cookieText (raw : Vector UInt8 16) : IsLine (cookieText (hexText raw)) :=
  ⟨by simp [cookieText, ascii], oneLine_append.2 ⟨oneLine_append.2 ⟨by rw [ascii_eq rfl]; decide,
    fun _ hc => (mem_hexText hc).2⟩, by rw [ascii_eq rfl]; decide⟩⟩

theorem length_cookieText (raw : Vector UInt8 16) : (cookieText (hexText raw)).length = 96 := by
  rw [cookieText, List.length_append, List.length_append, length_hexText]
  decide +kernel

theorem zero_notMem_setCookieLine (raw : Vector UInt8 16) :
    (0 : UInt8) ∉ setCookieLine (hexText raw) := by
  rw [setCookieLine, List.mem_append, List.mem_append, not_or, not_or]
  exact ⟨⟨by rw [ascii_eq rfl]; decide, fun h => (mem_hexText h).1 rfl⟩,
    by rw [ascii_eq rfl]; decide⟩

/-- **What the cookie does to the field**: as much of its line as there is room for goes to the end, or
there is an identifier already, or none. -/
theorem assignAnonId_cases {random : Option (Vector UInt8 16)} (h : InField s headers)
    (hs : assignAnonId random s = some t) :
    (¬ (s.conn.anonId.bytes.head? = some 0 ∧ random.isSome = true) ∧ t = s) ∨
      s.conn.anonId.bytes.head? = some 0 ∧ ∃ raw, random = some raw ∧
        t.conn.responseHeaders.string? =
          some (headers ++ (setCookieLine (hexText raw)).take (1023 - headers.length)) ∧
        ∃ anonId, t.conn.anonId.string? = some anonId := by
  obtain ⟨anonId, hanon⟩ := h.anonId
  rw [assignAnonId.eq_def] at hs
  split_ifs at hs with hempty
  · cases random with
    | none => exact Or.inl ⟨fun hall => absurd hall.2 (by decide), (Option.some.inj hs).symm⟩
    | some raw =>
      have hnil : anonId = [] := (CharArray.head?_eq_zero_iff hanon).1 hempty
      rw [hnil] at hanon
      have hid : (0 : UInt8) ∉ hexText raw := fun hmem => (mem_hexText hmem).1 rfl
      obtain ⟨a, ha, has⟩ := CharArray.string?_store hanon (t := hexText raw)
        (by rw [length_hexText]; decide)
      rw [List.nil_append, cstr_eq_self hid] at has
      obtain ⟨b, hb, hbs⟩ := CharArray.string?_appendText h.string (setCookieLine (hexText raw))
      have hline : (0 : UInt8) ∉ (setCookieLine (hexText raw)).take (1023 - headers.length) :=
        fun hmem => zero_notMem_setCookieLine raw (List.mem_of_mem_take hmem)
      rw [show 1024 - headers.length - 1 = 1023 - headers.length by omega, cstr_eq_self hline] at hbs
      have ha' : s.conn.anonId.store 0 (hexText raw ++ [0]) = some a := ha
      simp only [ha', has, hb, Option.bind_some, Option.map_some, Option.some.injEq] at hs
      subst hs
      exact Or.inr ⟨hempty, raw, rfl, hbs, _, has⟩
  · exact Or.inl ⟨fun hall => hempty hall.1, (Option.some.inj hs).symm⟩

/-- The cookie, cut, and the line behind it. -/
theorem wellFormed_cookie (raw : Vector UInt8 16) {n : Nat} (hn : 0 < n) :
    WellFormed ((setCookieLine (hexText raw)).take n ++ closing) ↔ n ≠ 97 := by
  obtain ⟨hne, hone⟩ := isLine_cookieText raw
  have hlen := length_cookieText raw
  rw [setCookieLine_eq]
  obtain hlt | rfl | hge : n ≤ 96 ∨ n = 97 ∨ 98 ≤ n := by omega
  · -- one line is left of both
    have hline : OneLine ((cookieText (hexText raw)).take n ++ ascii "Connection: close") :=
      oneLine_append.2 ⟨hone.sublist (List.take_sublist _ _), by rw [ascii_eq rfl]; decide⟩
    rw [List.take_append_of_le_length (by omega), closing, ← List.append_assoc,
      wellFormed_line_iff hline]
    exact iff_of_true (by simp [ascii]) (by omega)
  · -- the CR stands alone
    refine iff_of_false ?_ (by decide)
    have hcut : (cookieText (hexText raw) ++ crlf).take 97 = cookieText (hexText raw) ++ [cr] := by
      rw [show 97 = (cookieText (hexText raw)).length + 1 by omega, List.take_length_add_append]
      rfl
    rw [hcut, List.append_assoc]
    exact not_wellFormed_cr hone (by decide)
  · rw [List.take_of_length_le (by rw [List.length_append, hlen]; exact hge)]
    exact iff_of_true ((wellFormed_line ⟨hne, hone⟩).append wellFormed_closing) (by omega)

/-- The cookie keeps to lines if and only if it is not cut between its CR and its LF. -/
theorem lined_assignAnonId {random : Option (Vector UInt8 16)} (h : InField s headers)
    (hs : assignAnonId random s = some t) :
    (∃ headers', InField t headers') ∧ (Lined t ↔ Lined s ∧ Tidy s (.assignAnonId random)) := by
  obtain ⟨hno, rfl⟩ | ⟨hempty, raw, rfl, hstring, hanon⟩ := assignAnonId_cases h hs
  · exact ⟨⟨headers, h⟩, (and_iff_left fun hempty hsome => absurd ⟨hempty, hsome⟩ hno).symm⟩
  · have htidy : Tidy s (.assignAnonId (some raw)) ↔ headers.length ≠ 926 := by
      rw [Tidy, h.string]
      exact ⟨fun hall => hall hempty rfl headers rfl, fun hne _ _ _ hmem => by cases hmem; exact hne⟩
    have hlt := CharArray.length_lt_of_string? h.string
    by_cases hfull : headers.length = 1023
    · rw [hfull, Nat.sub_self, List.take_zero, List.append_nil] at hstring
      have ht : InField t headers := ⟨hstring, hanon, Or.inr hfull⟩
      rw [lined_iff h, lined_iff ht, htidy]
      exact ⟨⟨headers, ht⟩, (and_iff_left (by omega)).symm⟩
    · have hended := h.ended.resolve_right hfull
      have ht : InField t (headers ++ (setCookieLine (hexText raw)).take (1023 - headers.length)) := by
        have hlen : (setCookieLine (hexText raw)).length = 98 := by
          rw [setCookieLine_eq, List.length_append, length_cookieText]
          rfl
        refine ⟨hstring, hanon, ?_⟩
        by_cases hfits : 98 ≤ 1023 - headers.length
        · rw [List.take_of_length_le (by omega), setCookieLine_eq, ← List.append_assoc]
          exact Or.inl (Or.inr ⟨_, rfl⟩)
        · refine Or.inr ?_
          rw [List.length_append, List.length_take]
          omega
      refine ⟨⟨_, ht⟩, ?_⟩
      rw [lined_iff h, lined_iff ht, htidy, List.append_assoc, hended.wellFormed_append,
        hended.wellFormed_append, wellFormed_cookie raw (by omega), and_iff_left wellFormed_closing]
      exact and_congr_right fun _ => by omega

/-! ## All runs -/

theorem lined_step {op : HeaderOp} (h : InField s headers) (hs : headerStep s op = some t) :
    (∃ headers', InField t headers') ∧ (Lined t ↔ Lined s ∧ Tidy s op) := by
  cases op with
  | addHeader line =>
    obtain ⟨hzero, hs⟩ := Option.ite_none_left_eq_some.1 hs
    exact lined_addHeader h hzero hs
  | assignAnonId random => exact lined_assignAnonId h hs

theorem inField_of_init (h : headerMachine.init s) : InField s [] := ⟨h.1, h.2, Or.inl (Or.inl rfl)⟩

theorem inField_of_reach (h : headerMachine.Reach s) : ∃ headers, InField s headers :=
  h.invariant (I := fun s => ∃ headers, InField s headers) (fun _ hs => ⟨[], inField_of_init hs⟩)
    fun _ _ _ ⟨_, hI⟩ _ hs => (lined_step hI hs).1

/-- **The field is made of lines** in exactly the runs in which no line without text is added and the
cookie is not cut between its CR and its LF. -/
theorem reachUnder_tidy_iff : headerMachine.ReachUnder Tidy s ↔ headerMachine.Reach s ∧ Lined s := by
  refine Machine.reachUnder_iff_reach_and (I := fun s => ∃ headers, InField s headers) ?_ ?_ ?_
  · exact fun s hs => ⟨⟨[], inField_of_init hs⟩, [], hs.1, wellFormed_closing⟩
  · exact fun s op t ⟨_, hI⟩ hs => (lined_step hI hs).1
  · exact fun s op t ⟨_, hI⟩ hs => (lined_step hI hs).2

/-! ## The blocks -/

/-- The first bytes that a call hands over. -/
def Handed (s t : Session) (block : Bytes) : Prop :=
  ∃ more, t.sent = s.sent ++ (s.conn.wire, block) :: more

/-- A header block of which no more is sent than there is room for, and it is complete. -/
def Complete (room : Nat) (block : Bytes) : Prop := block.length ≤ room ∧ IsHeaderBlock block

/-- **What the three are to hand over**: complete header blocks, within their buffers. -/
structure HeadersComplete (out : Outside) (s : Session) (status : Int) (contentType : Bytes)
    (body : Option Bytes) (url filepath : Bytes) : Prop where
  response : ∃ t block, serverSendResponse out s status contentType body = some t ∧
    Handed s t block ∧ Complete 2048 block
  redirect : ∃ t block, serverRedirect out s url = some t ∧ Handed s t block ∧ Complete 1024 block
  file : serverPathSafe filepath = true → ∀ content ∈ out.file filepath, ∃ sent t block,
    serverServeFile out s filepath contentType = some (sent, t) ∧ Handed s t block ∧ Complete 1024 block

/-- The text of a redirect fits its buffer. -/
def RedirectFits (s : Session) (url : Bytes) : Prop :=
  ∀ headers ∈ s.conn.responseHeaders.string?, (sanitize 1023 url).length + headers.length ≤ 951

/-- The header text of a file fits its buffer, with the line that is added. -/
def FileFits (out : Outside) (s : Session) (contentType filepath : Bytes) : Prop :=
  serverPathSafe filepath = true → ∀ content ∈ out.file filepath,
    ∀ headers ∈ s.conn.responseHeaders.string?,
      contentType.length + (printDecimal content.length).length + headers.length +
        (if headers.length < 986 then 37 else 0) ≤ 951

/-- What the three blocks have in common: three lines of their own, the headers, and the end. -/
def blockText (first second third headers : Bytes) : Bytes :=
  first ++ crlf ++ (second ++ crlf ++ (third ++ crlf ++ (headers ++ closing))) ++ crlf

theorem isHeaderBlock_blockText {first second third : Bytes} (hfirst : IsLine first)
    (hthird : IsLine third) : IsHeaderBlock (blockText first second third headers) ↔
      WellFormed (second ++ crlf) ∧ WellFormed (headers ++ closing) := by
  rw [blockText, isHeaderBlock_append_iff (by simp [hfirst.1]), wellFormed_append_iff,
    wellFormed_append_iff, wellFormed_append_iff, and_iff_right (wellFormed_line hfirst),
    and_iff_right (wellFormed_line hthird)]

theorem length_blockText (first second third headers : Bytes) :
    (blockText first second third headers).length =
      first.length + second.length + third.length + headers.length + 27 := by
  simp only [blockText, closing, List.length_append, show crlf.length = 2 from rfl,
    show (ascii "Connection: close").length = 17 from length_ascii rfl]
  omega

/-- A block that is cut is not a block. -/
theorem isHeaderBlock_take_iff {text : Bytes} (h : IsHeaderBlock text) {n : Nat} :
    IsHeaderBlock (text.take n) ↔ text.length ≤ n := by
  constructor
  · intro hcut
    have hlen := congrArg List.length (hcut.eq_of_isPrefix h (List.take_prefix n text))
    rw [List.length_take] at hlen
    omega
  · intro hfits
    rwa [List.take_of_length_le hfits]

theorem oneLine_printDecimal (n : Int) : OneLine (printDecimal n) := by
  intro c hc
  obtain rfl | ⟨hlo, -⟩ := mem_printDecimal hc
  · decide
  · constructor <;>
    · rintro rfl
      exact absurd hlo (by decide)

theorem statusText_line (status : Int) :
    OneLine (statusText status) ∧ (statusText status).length ≤ 21 := by
  rw [statusText]
  split_ifs <;> decide +kernel

/-- The length field of a block. -/
def lengthLine (n : Int) : Bytes := ascii "Content-Length: " ++ printDecimal n

theorem isLine_lengthLine (n : Int) : IsLine (lengthLine n) :=
  ⟨by simp [lengthLine, ascii], oneLine_append.2 ⟨by rw [ascii_eq rfl]; decide, oneLine_printDecimal n⟩⟩

def statusLine (status : Int) : Bytes :=
  ascii "HTTP/1.1 " ++ printDecimal status ++ ascii " " ++ statusText status

theorem isLine_statusLine (status : Int) : IsLine (statusLine status) :=
  ⟨by simp [statusLine, ascii], oneLine_append.2 ⟨oneLine_append.2 ⟨oneLine_append.2
    ⟨by rw [ascii_eq rfl]; decide, oneLine_printDecimal status⟩, by rw [ascii_eq rfl]; decide⟩,
      (statusText_line status).1⟩⟩

theorem responseText_eq (status : Int) (contentType : Bytes) (bodyLen : Int) (headers : Bytes) :
    responseText status contentType bodyLen headers =
      blockText (statusLine status) (ascii "Content-Type: " ++ contentType) (lengthLine bodyLen)
        headers := by
  simp only [responseText, blockText, statusLine, lengthLine, closing, crlfcrlf, crlf, List.append_assoc,
    List.cons_append, List.nil_append]

theorem fileText_eq (contentType : Bytes) (fsize : Nat) (headers : Bytes) :
    fileText contentType fsize headers =
      blockText (ascii "HTTP/1.1 200 OK") (ascii "Content-Type: " ++ contentType) (lengthLine fsize)
        headers := by
  simp only [fileText, blockText, lengthLine, closing, crlfcrlf, crlf, List.append_assoc,
    List.cons_append, List.nil_append]

/-! ## What is handed over -/

variable {out : Outside} {status : Int} {contentType url filepath : Bytes} {body : Option Bytes}

theorem Handed.unique {a b : Bytes} (ha : Handed s t a) (hb : Handed s t b) : a = b := by
  obtain ⟨more, ha⟩ := ha
  obtain ⟨more', hb⟩ := hb
  have heq := List.append_cancel_left (ha.symm.trans hb)
  exact (Prod.mk.inj (List.cons.inj heq).1).2

/-- With the identifier terminated, an access is logged. -/
theorem exists_trackAccess (out : Outside) (status : Int) {anonId : Bytes}
    (h : s.conn.anonId.string? = some anonId) :
    ∃ t, trackAccess out s status = some t ∧ t.sent = s.sent := by
  rw [trackAccess]
  split_ifs
  · rw [h]
    exact ⟨_, rfl, rfl⟩
  · exact ⟨s, rfl, rfl⟩

theorem exists_serverSendResponse (h : InField s headers) (out : Outside) (status : Int)
    (contentType : Bytes) (body : Option Bytes) :
    ∃ t, serverSendResponse out s status contentType body = some t ∧
      Handed s t ((responseText status contentType (toInt (body.getD []).length) headers).take 2047) := by
  obtain ⟨anonId, hanon⟩ := h.anonId
  rw [serverSendResponse, h.string, Option.bind_some]
  generalize (responseText status contentType (toInt (body.getD []).length) headers).take 2047 = block
  cases body with
  | none =>
    obtain ⟨t, ht, hsent⟩ := exists_trackAccess (s := (serverConnWrite out s block block.length).2)
      out status hanon
    refine ⟨t, ht, [], hsent.trans ?_⟩
    simp [serverConnWrite]
  | some body =>
    obtain ⟨t, ht, hsent⟩ := exists_trackAccess (s := (serverConnWrite out
      (serverConnWrite out s block block.length).2 body (toInt body.length)).2) out status hanon
    refine ⟨t, ht, [(s.conn.wire, body.take (toInt body.length).toNat)], hsent.trans ?_⟩
    simp only [serverConnWrite, ClientConnection.wire, Int.toNat_natCast, List.take_length, List.append_assoc,
      List.cons_append, List.nil_append]

/-- The redirect, cut to its buffer. -/
theorem serverRedirect_handed (h : InField s headers) (out : Outside) (url : Bytes) :
    ∃ t, serverRedirect out s url = some t ∧
      Handed s t ((blockText (ascii "HTTP/1.1 302 Found") (ascii "Location: " ++ sanitize 1023 url)
        (ascii "Content-Length: 0") headers).take 1023) := by
  refine ⟨_, by rw [serverRedirect, h.string]; rfl, [], ?_⟩
  simp only [serverConnWrite, Int.toNat_natCast, List.take_length, blockText, closing, crlfcrlf, crlf,
    List.append_assoc, List.cons_append, List.nil_append]

/-! ### Files -/

/-- The headers of a file, with the line that `server_serve_file` adds. -/
def fileHeaders (headers : Bytes) : Bytes :=
  if headers.length < 986 then headers ++ (ascii "Cache-Control: public, max-age=3600" ++ crlf) else headers

theorem exists_serverAddHeader (h : InField s headers) (line : Bytes) :
    ∃ t, serverAddHeader s line = some t ∧ t.sent = s.sent ∧ t.conn.wire = s.conn.wire := by
  rw [serverAddHeader, h.string, Option.bind_some]
  split_ifs with hroom
  · obtain ⟨array, harray, -⟩ := CharArray.string?_store h.string (t := sanitize 1022 line ++ crlf)
      (by rw [List.length_append, show crlf.length = 2 from rfl]; omega)
    rw [harray]
    exact ⟨_, rfl, rfl, rfl⟩
  · exact ⟨s, rfl, rfl, rfl⟩

/-- The line is added, if there is room for it. -/
theorem exists_addCacheControl (h : InField s headers) :
    ∃ t, serverAddHeader s cacheControl = some t ∧ t.sent = s.sent ∧ t.conn.wire = s.conn.wire ∧
      InField t (fileHeaders headers) := by
  have hline : sanitize 1022 cacheControl = ascii "Cache-Control: public, max-age=3600" := by
    decide +kernel
  have hlen : (ascii "Cache-Control: public, max-age=3600").length = 35 := length_ascii rfl
  obtain ⟨t, ht, hsent, hwire⟩ := exists_serverAddHeader h cacheControl
  refine ⟨t, ht, hsent, hwire, ?_⟩
  have hcases := serverAddHeader_cases h (by decide +kernel) ht
  rw [hline, hlen] at hcases
  rw [fileHeaders]
  obtain ⟨hfull, rfl⟩ | ⟨hroom, hfield⟩ := hcases
  · rwa [if_neg (by omega)]
  · rwa [if_pos (by omega)]

theorem length_fileHeaders (headers : Bytes) : (fileHeaders headers).length =
    headers.length + if headers.length < 986 then 37 else 0 := by
  rw [fileHeaders]
  split_ifs
  · rw [List.length_append, List.length_append, show crlf.length = 2 from rfl,
      show (ascii "Cache-Control: public, max-age=3600").length = 35 from length_ascii rfl]
  · rfl

/-- The line that is added is a line. -/
theorem wellFormed_fileHeaders (h : InField s headers) :
    WellFormed (fileHeaders headers ++ closing) ↔ WellFormed (headers ++ closing) := by
  have hcache : WellFormed (ascii "Cache-Control: public, max-age=3600" ++ crlf) :=
    wellFormed_line (by rw [ascii_eq rfl]; decide)
  rw [fileHeaders]
  split_ifs with hroom
  · have hended := h.ended.resolve_right (by omega)
    rw [List.append_assoc, hended.wellFormed_append, hended.wellFormed_append, wellFormed_append_iff,
      and_iff_right hcache]
  · rfl

/-- What `server_serve_file` hands over, if it does not read on behind its buffer. -/
theorem exists_sendFile (h : InField s headers) (out : Outside) {text : Bytes} (content : Bytes)
    (htext : text.length ≤ 1024) : ∃ sent t, sendFile out s text content = some (sent, t) ∧
      Handed s t ((text.take 1023 ++ [0]).take text.length) := by
  obtain ⟨anonId, hanon⟩ := h.anonId
  rw [sendFile, if_neg (Nat.not_lt.2 htext)]
  dsimp only
  split_ifs
  · exact ⟨_, _, rfl, [], rfl⟩
  · obtain ⟨t, ht, hsent⟩ := exists_trackAccess (s := { (serverConnWrite out s (text.take 1023 ++ [0])
      text.length).2 with sent := (serverConnWrite out s (text.take 1023 ++ [0]) text.length).2.sent ++
        [(.socket, content.take (out.fileSent (serverConnWrite out s (text.take 1023 ++ [0])
          text.length).2.sent content))] }) out 200 hanon
    refine ⟨true, t, by rw [ht]; rfl, _, hsent.trans (List.append_assoc _ _ _)⟩

/-- A block ends with an LF. -/
theorem not_isHeaderBlock_zero (text : Bytes) : ¬ IsHeaderBlock (text ++ [0]) := by
  rintro ⟨lines, -, -, h⟩
  have hlast := congrArg List.getLast? h
  rw [show block lines ++ crlf = (block lines ++ [cr]) ++ [lf] by simp [crlf],
    List.getLast?_concat, List.getLast?_concat] at hlast
  exact absurd hlast (by decide)

/-- **A file's header block is complete** if and only if its text is one and fits the buffer. -/
theorem fileComplete_iff (h : InField s headers) (out : Outside) (text content : Bytes) :
    (∃ sent t block, sendFile out s text content = some (sent, t) ∧ Handed s t block ∧
        Complete 1024 block) ↔ text.length ≤ 1023 ∧ IsHeaderBlock text := by
  by_cases hbounds : text.length ≤ 1024
  · obtain ⟨sent, t, ht, hhanded⟩ := exists_sendFile h out content hbounds
    obtain hfits | hfull : text.length ≤ 1023 ∨ text.length = 1024 := by omega
    · rw [List.take_of_length_le hfits, List.take_left] at hhanded
      constructor
      · rintro ⟨sent', t', block, ht', hhanded', -, hblock⟩
        obtain ⟨rfl, rfl⟩ := Prod.mk.inj (Option.some.inj (ht.symm.trans ht'))
        rw [hhanded'.unique hhanded] at hblock
        exact ⟨hfits, hblock⟩
      · rintro ⟨-, hblock⟩
        exact ⟨sent, t, text, ht, hhanded, hbounds, hblock⟩
    · refine iff_of_false ?_ (by omega)
      rintro ⟨sent', t', block, ht', hhanded', -, hblock⟩
      obtain ⟨rfl, rfl⟩ := Prod.mk.inj (Option.some.inj (ht.symm.trans ht'))
      rw [hhanded'.unique hhanded, List.take_of_length_le (by simp; omega)] at hblock
      exact not_isHeaderBlock_zero _ hblock
  · refine iff_of_false ?_ (by omega)
    rintro ⟨sent, t, block, hsend, -⟩
    rw [sendFile, if_pos (by omega)] at hsend
    cases hsend

/-! ## When they are complete -/

/-- **A response** is never cut. -/
theorem responseComplete_iff (h : InField s headers) (out : Outside) (hlo : -2 ^ 31 ≤ status)
    (hhi : status < 2 ^ 31) (hshort : contentType.length < 128) (body : Option Bytes) :
    (∃ t block, serverSendResponse out s status contentType body = some t ∧ Handed s t block ∧
        Complete 2048 block) ↔
      WellFormed (ascii "Content-Type: " ++ contentType ++ crlf) ∧ WellFormed (headers ++ closing) := by
  have hfits : (responseText status contentType (toInt (body.getD []).length) headers).length ≤ 2047 := by
    have hheaders := CharArray.length_lt_of_string? h.string
    have hstatus := length_printDecimal_int hlo hhi
    have htext := (statusText_line status).2
    have hbody : (printDecimal (toInt (body.getD []).length)).length ≤ 11 :=
      length_printDecimal_int (by rw [toInt]; omega) (by rw [toInt]; omega)
    rw [responseText_eq, length_blockText]
    simp only [statusLine, lengthLine, List.length_append,
      show (ascii "HTTP/1.1 ").length = 9 from rfl, show (ascii " ").length = 1 from rfl,
      show (ascii "Content-Type: ").length = 14 from length_ascii rfl,
      show (ascii "Content-Length: ").length = 16 from length_ascii rfl]
    omega
  obtain ⟨t, ht, hhanded⟩ := exists_serverSendResponse h out status contentType body
  rw [List.take_of_length_le hfits] at hhanded
  rw [← isHeaderBlock_blockText (isLine_statusLine status)
    (isLine_lengthLine (toInt (body.getD []).length)), ← responseText_eq]
  constructor
  · rintro ⟨t', block, ht', hhanded', -, hblock⟩
    obtain rfl := Option.some.inj (ht.symm.trans ht')
    rwa [hhanded'.unique hhanded] at hblock
  · exact fun hblock => ⟨t, _, ht, hhanded, by omega, hblock⟩

/-- **A redirect** is complete, if its lines are, if and only if it fits its buffer. -/
theorem redirectComplete_iff (h : InField s headers) (hwell : WellFormed (headers ++ closing))
    (out : Outside) (url : Bytes) :
    (∃ t block, serverRedirect out s url = some t ∧ Handed s t block ∧ Complete 1024 block) ↔
      RedirectFits s url := by
  have hlocation : OneLine (ascii "Location: " ++ sanitize 1023 url) :=
    oneLine_append.2 ⟨by rw [ascii_eq rfl]; decide, oneLine_sanitize 1023 url⟩
  have hblock : IsHeaderBlock (blockText (ascii "HTTP/1.1 302 Found")
      (ascii "Location: " ++ sanitize 1023 url) (ascii "Content-Length: 0") headers) :=
    (isHeaderBlock_blockText (by rw [ascii_eq rfl]; decide) (by rw [ascii_eq rfl]; decide)).2
      ⟨wellFormed_line ⟨by simp [ascii], hlocation⟩, hwell⟩
  have hlen := length_blockText (ascii "HTTP/1.1 302 Found")
    (ascii "Location: " ++ sanitize 1023 url) (ascii "Content-Length: 0") headers
  rw [List.length_append, show (ascii "HTTP/1.1 302 Found").length = 18 from length_ascii rfl,
    show (ascii "Location: ").length = 10 from length_ascii rfl,
    show (ascii "Content-Length: 0").length = 17 from length_ascii rfl] at hlen
  have hfits : RedirectFits s url ↔ (sanitize 1023 url).length + headers.length ≤ 951 := by
    rw [RedirectFits, h.string]
    exact ⟨fun hall => hall headers rfl, fun hle _ hmem => by cases hmem; exact hle⟩
  obtain ⟨t, ht, hhanded⟩ := serverRedirect_handed h out url
  rw [hfits]
  constructor
  · rintro ⟨t', block, ht', hhanded', -, hcut⟩
    obtain rfl := Option.some.inj (ht.symm.trans ht')
    rw [hhanded'.unique hhanded, isHeaderBlock_take_iff hblock] at hcut
    omega
  · intro hle
    refine ⟨t, _, ht, hhanded, ?_, (isHeaderBlock_take_iff hblock).2 (by omega)⟩
    rw [List.length_take]
    omega

/-- **A file's header block** is complete, if its lines are, if and only if it fits its buffer. -/
theorem serveFileComplete_iff (h : InField s headers) (hwell : WellFormed (headers ++ closing))
    (htype : WellFormed (ascii "Content-Type: " ++ contentType ++ crlf)) (out : Outside)
    (filepath : Bytes) :
    (serverPathSafe filepath = true → ∀ content ∈ out.file filepath, ∃ sent t block,
        serverServeFile out s filepath contentType = some (sent, t) ∧ Handed s t block ∧
          Complete 1024 block) ↔ FileFits out s contentType filepath := by
  have hfits : FileFits out s contentType filepath ↔ (serverPathSafe filepath = true →
      ∀ content ∈ out.file filepath,
        contentType.length + (printDecimal content.length).length + headers.length +
          (if headers.length < 986 then 37 else 0) ≤ 951) := by
    rw [FileFits, h.string]
    exact ⟨fun hall hsafe content hfile => hall hsafe content hfile headers rfl,
      fun hall hsafe content hfile _ hmem => by cases hmem; exact hall hsafe content hfile⟩
  rw [hfits]
  refine forall_congr' fun hsafe => forall_congr' fun content => forall_congr' fun hfile => ?_
  obtain ⟨u, hu, hsent, hwire, hfield⟩ := exists_addCacheControl h
  have hcall : serverServeFile out s filepath contentType =
      sendFile out u (fileText contentType content.length (fileHeaders headers)) content := by
    rw [serverServeFile, hsafe, Option.mem_def.1 hfile]
    simp only [hu, hfield.string, Option.bind_some, Bool.not_true, Bool.false_eq_true, if_false]
  have hhanded : ∀ t block, Handed s t block ↔ Handed u t block := fun t block => by
    rw [Handed, Handed, hsent, hwire]
  have hblock : IsHeaderBlock (fileText contentType content.length (fileHeaders headers)) := by
    rw [fileText_eq, isHeaderBlock_blockText (by rw [ascii_eq rfl]; decide) (isLine_lengthLine _)]
    exact ⟨htype, (wellFormed_fileHeaders h).2 hwell⟩
  have hlen : (fileText contentType content.length (fileHeaders headers)).length =
      contentType.length + (printDecimal content.length).length + headers.length +
        (if headers.length < 986 then 37 else 0) + 72 := by
    rw [fileText_eq, length_blockText, length_fileHeaders, lengthLine, List.length_append,
      List.length_append, show (ascii "HTTP/1.1 200 OK").length = 15 from length_ascii rfl,
      show (ascii "Content-Type: ").length = 14 from length_ascii rfl,
      show (ascii "Content-Length: ").length = 16 from length_ascii rfl]
    omega
  simp only [hcall, hhanded]
  rw [fileComplete_iff hfield, and_iff_left hblock, hlen]
  omega

/-- **The header blocks are complete** if and only if no header line without text was added, the cookie
was not cut between its CR and its LF, the content type is made of lines, and the redirect and the file's
header text fit. -/
theorem headersComplete_iff (h : headerMachine.Reach s) (hlo : -2 ^ 31 ≤ status)
    (hhi : status < 2 ^ 31) (hshort : contentType.length < 128) (out : Outside) (body : Option Bytes)
    (url filepath : Bytes) :
    HeadersComplete out s status contentType body url filepath ↔
      headerMachine.ReachUnder Tidy s ∧
        WellFormed (ascii "Content-Type: " ++ contentType ++ crlf) ∧
          RedirectFits s url ∧ FileFits out s contentType filepath := by
  obtain ⟨headers, hfield⟩ := inField_of_reach h
  rw [reachUnder_tidy_iff, and_iff_right h, lined_iff hfield]
  constructor
  · rintro ⟨hresponse, hredirect, hfile⟩
    obtain ⟨htype, hwell⟩ := (responseComplete_iff hfield out hlo hhi hshort body).1 hresponse
    exact ⟨hwell, htype, (redirectComplete_iff hfield hwell out url).1 hredirect,
      (serveFileComplete_iff hfield hwell htype out filepath).1 hfile⟩
  · rintro ⟨hwell, htype, hredirect, hfile⟩
    exact ⟨(responseComplete_iff hfield out hlo hhi hshort body).2 ⟨htype, hwell⟩,
      (redirectComplete_iff hfield hwell out url).2 hredirect,
      (serveFileComplete_iff hfield hwell htype out filepath).2 hfile⟩

/-- A connection that was just accepted. -/
private def justAccepted : Session :=
  ⟨⟨.insecure, false, ascii "10.0.0.1", ascii "/", .ofString 1023 [], .ofString 64 []⟩, [], [], none⟩

private theorem init_accepted : headerMachine.init justAccepted :=
  ⟨by decide +kernel, [], by decide +kernel⟩

/-- A small file, and a client that takes everything. -/
private def smallFile : Outside where
  logger := false
  written _ := 1
  received _ := none
  file _ := some (ascii "hello")
  fileSent _ content := content.length

/-- Two lines, and the cookie of a client that has none. -/
private def linesAndCookie : List HeaderOp :=
  [.addHeader (ascii "X-Frame-Options: DENY"), .assignAnonId (some (.replicate 16 171)),
    .addHeader (ascii "X-Cache: MISS")]

/-- With two lines and the cookie of a client that has none. -/
theorem headersComplete_iff_added : ∃ s headers, s.conn.responseHeaders.string? = some headers ∧
    headers.length = 136 ∧
    HeadersComplete smallFile s 200 (ascii "text/plain") (some (ascii "hello")) (ascii "/start")
      (ascii "web/hello.txt") := by
  obtain ⟨s, headers, hrun, hheaders, hlength⟩ : ∃ s headers,
      headerMachine.runUnder Tidy justAccepted linesAndCookie = some s ∧
        s.conn.responseHeaders.string? = some headers ∧ headers.length = 136 := by
    have hsome : ((headerMachine.runUnder Tidy justAccepted linesAndCookie).bind
        (·.conn.responseHeaders.string?)).map List.length = some 136 := by decide +kernel
    obtain ⟨headers, hbind, hlength⟩ := Option.map_eq_some_iff.1 hsome
    obtain ⟨s, hrun, hheaders⟩ := Option.bind_eq_some_iff.1 hbind
    exact ⟨s, headers, hrun, hheaders, hlength⟩
  have hreach := Machine.reachUnder_of_runUnder (.start init_accepted) hrun
  refine ⟨s, headers, hheaders, hlength, (headersComplete_iff (hreach.mono fun _ _ _ => trivial)
    (by decide) (by decide) (by rw [ascii_eq rfl]; decide) _ _ _ _).2
      ⟨hreach, wellFormed_line (by rw [ascii_eq rfl]; decide), ?_, ?_⟩⟩
  · intro headers' hmem
    obtain rfl := Option.some.inj (hheaders.symm.trans hmem)
    have haddress : (sanitize 1023 (ascii "/start")).length = 6 := by decide +kernel
    omega
  · intro _ content hfile headers' hmem
    obtain rfl := Option.some.inj (hheaders.symm.trans hmem)
    obtain rfl := Option.some.inj hfile
    have htype : (ascii "text/plain").length = 10 := length_ascii rfl
    have hsize : (printDecimal (ascii "hello").length).length = 1 := by decide +kernel
    rw [if_pos (by omega)]
    omega

/-- **A long address** cuts off the end of a redirect. -/
theorem not_headersComplete : ¬ ∀ s out status contentType body url filepath, headerMachine.Reach s →
    -2 ^ 31 ≤ status → status < 2 ^ 31 → contentType.length < 128 →
      HeadersComplete out s status contentType body url filepath := by
  intro h
  have hcomplete := (h justAccepted smallFile 200 (ascii "text/plain") none (47 :: List.replicate 951 97)
    (ascii "web/hello.txt") (.start init_accepted) (by decide) (by decide)
      (by rw [ascii_eq rfl]; decide)).redirect
  have hfits := (redirectComplete_iff (inField_of_init init_accepted) wellFormed_closing _ _).1 hcomplete
  have hlong : (sanitize 1023 (47 :: List.replicate 951 97)).length = 952 := by decide +kernel
  have hle := hfits [] init_accepted.1
  rw [hlong] at hle
  exact absurd hle (by decide)

end Server
end Arws

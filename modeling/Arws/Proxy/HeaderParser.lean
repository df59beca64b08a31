import Arws.Proxy.StreamProxy

/-!
# The header parser by its indices

`parse_response_headers` with its pointers as indices into the buffer, and with what it reads, computes and
copies noted on the way.  A function of the library is noted with as many bytes as it is given to read.

* `parser_safe` — whatever the bytes are, the loop ends, all reads are in front of `header_end`, no length is
  negative, and no more is copied than `cl_buf` has room for.
* `parserLoop_headers` — what it finds is what is found line by line.
-/

set_option autoImplicit false

namespace Arws
namespace Proxy

open CString

/-! ## The parser -/

/-- The bytes from an index up to another one. -/
def between (buf : Bytes) (i j : ℕ) : Bytes := (buf.drop i).take (j - i)

/-- `memchr` on the bytes from an index up to another one. -/
def memchr (buf : Bytes) (i j : ℕ) (c : UInt8) : Option ℕ :=
  ((between buf i j).findIdx? (· == c)).map (i + ·)

/-- The loop that skips blanks: what it reads, and where it ends. -/
def skipSpaces (buf : Bytes) (headerEnd val : ℕ) : List (ℕ × ℕ) × ℕ :=
  if val < headerEnd then
    if buf[val]? = some 32 then
      let rest := skipSpaces buf headerEnd (val + 1)
      ((val, 1) :: rest.1, rest.2)
    else ([(val, 1)], val)
  else ([], val)
termination_by headerEnd - val

structure HeaderParser where
  pos : ℕ
  headers : ResponseHeaders
  /-- What was read: an index, and how many bytes from it on. -/
  reads : List (ℕ × ℕ)
  /-- The values of `hn_len` and `hv_len`. -/
  lengths : List Int
  /-- The sizes that were passed to `memcpy`. -/
  copies : List ℕ

def HeaderParser.reading (s : HeaderParser) (reads : List (ℕ × ℕ)) : HeaderParser :=
  { s with reads := s.reads ++ reads }

/-- What is passed to `memcpy`: `cln`, converted to `size_t`. -/
def copySize (hvLen : Int) : ℕ := ((if hvLen < 31 then hvLen else 31) % 2 ^ 64).toNat

/-- What is done with the value of a field. -/
def HeaderParser.value (buf : Bytes) (s : HeaderParser) (hnLen hvLen : Int) (val : ℕ) : HeaderParser :=
  if hnLen = 14 ∧ strcaseeq (between buf s.pos (s.pos + 14)) (ascii "Content-Length") then
    { s.reading [(val, copySize hvLen)] with
      copies := s.copies ++ [copySize hvLen]
      headers := { s.headers with contentLength := atoi (between buf val (val + copySize hvLen)) } }
  else if hnLen = 17 ∧ strcaseeq (between buf s.pos (s.pos + 17)) (ascii "Transfer-Encoding") then
    if 7 ≤ hvLen then
      if strcaseeq (between buf val (val + 7)) (ascii "chunked") then
        { s.reading [(val, 7)] with headers := { s.headers with isChunked := true } }
      else s.reading [(val, 7)]
    else s
  else s

/-- A line with a colon. -/
def HeaderParser.field (buf : Bytes) (headerEnd lineEnd colon : ℕ) (s : HeaderParser) : HeaderParser :=
  let hnLen : Int := colon - s.pos
  let spaces := skipSpaces buf headerEnd (colon + 1)
  let hvLen : Int := lineEnd - spaces.2
  let s := s.reading (spaces.1 ++ (if hnLen = 14 then [(s.pos, 14)] else []) ++
    (if hnLen = 17 then [(s.pos, 17)] else []))
  HeaderParser.value buf { s with lengths := s.lengths ++ [hnLen, hvLen] } hnLen hvLen spaces.2

/-- A line that is not empty. -/
def HeaderParser.line (buf : Bytes) (headerEnd lineEnd : ℕ) (s : HeaderParser) : HeaderParser :=
  let t := s.reading [(s.pos, lineEnd - s.pos)]
  match memchr buf s.pos lineEnd 58 with
  | none => t
  | some colon => t.field buf headerEnd lineEnd colon

/-- A turn of the loop, and whether it goes on. -/
def HeaderParser.turn (buf : Bytes) (headerEnd : ℕ) (s : HeaderParser) : HeaderParser × Bool :=
  let t := s.reading [(s.pos, headerEnd - s.pos)]
  match memchr buf s.pos headerEnd cr with
  | none => (t, false)
  | some lineEnd =>
    if lineEnd - s.pos = 0 then (t, false)
    else ({ t.line buf headerEnd lineEnd with pos := lineEnd + 2 }, decide (lineEnd + 2 < headerEnd))

/-- The loop of `parse_response_headers`, for at most so many tests of its condition. -/
def parserLoop (buf : Bytes) (headerEnd : ℕ) : ℕ → HeaderParser → Option HeaderParser
  | 0, _ => none
  | fuel + 1, s =>
    if s.pos < headerEnd then
      let (t, more) := s.turn buf headerEnd
      if more then parserLoop buf headerEnd fuel t else some t
    else some s

/-- What is set before the loop. -/
def HeaderParser.start (buf : Bytes) (headerEnd : ℕ) : HeaderParser where
  pos := 0
  headers := ⟨decide (13 ≤ headerEnd) && between buf 0 13 == ascii "HTTP/1.1 101 ", false, -1⟩
  reads := if 13 ≤ headerEnd then [(0, 13)] else []
  lengths := []
  copies := []

/-! ## What it is not to do -/

structure HeaderParser.Safe (headerEnd : ℕ) (s : HeaderParser) : Prop where
  reads : ∀ r ∈ s.reads, ∀ k < r.2, r.1 + k < headerEnd
  lengths : ∀ n ∈ s.lengths, 0 ≤ n
  copies : ∀ n ∈ s.copies, n ≤ 31

variable {buf : Bytes} {headerEnd lineEnd colon val i j : ℕ} {c : UInt8} {s : HeaderParser}

theorem HeaderParser.Safe.reading (h : s.Safe headerEnd) (reads : List (ℕ × ℕ))
    (hreads : ∀ r ∈ reads, r.1 + r.2 ≤ headerEnd) : (s.reading reads).Safe headerEnd := by
  refine ⟨fun r hr k hk => ?_, h.lengths, h.copies⟩
  rcases List.mem_append.1 hr with hr | hr
  · exact h.reads r hr k hk
  · have := hreads r hr
    omega

/-! ### Bytes between two indices -/

theorem between_self (buf : Bytes) (i : ℕ) : between buf i i = [] := by
  rw [between, Nat.sub_self, List.take_zero]

theorem between_of_le (h : j ≤ i) : between buf i j = [] := by
  rw [between, Nat.sub_eq_zero_of_le h, List.take_zero]

theorem between_succ (hij : i < j) (hget : buf[i]? = some c) :
    between buf i j = c :: between buf (i + 1) j := by
  obtain ⟨hlt, rfl⟩ := List.getElem?_eq_some_iff.1 hget
  rw [between, between, List.drop_eq_getElem_cons hlt, show j - i = j - (i + 1) + 1 by omega,
    List.take_succ_cons]

theorem length_between (hj : j ≤ buf.length) : (between buf i j).length = j - i := by
  rw [between, List.length_take, List.length_drop]
  omega

theorem between_take {k : ℕ} (hij : i + k ≤ j) : (between buf i j).take k = between buf i (i + k) := by
  rw [between, between, List.take_take]
  congr 1
  omega

theorem between_drop (k : ℕ) : (between buf i j).drop k = between buf (i + k) j := by
  rw [between, between, List.drop_take, List.drop_drop]
  congr 1
  omega

theorem getElem?_between {k : ℕ} (hk : i + k < j) : (between buf i j)[k]? = buf[i + k]? := by
  rw [between, List.getElem?_take_of_lt (by omega), List.getElem?_drop]

/-- `memchr` finds the byte in front of the end. -/
theorem memchr_eq_some (h : memchr buf i j c = some val) :
    ∃ k, (between buf i j).findIdx? (· == c) = some k ∧ val = i + k ∧ val < j ∧ buf[val]? = some c := by
  obtain ⟨k, hk, rfl⟩ := Option.map_eq_some_iff.1 h
  obtain ⟨hlt, hc, -⟩ := List.findIdx?_eq_some_iff_getElem.1 hk
  have hlen : (between buf i j).length ≤ j - i := List.length_take_le _ _
  have hget := List.getElem?_eq_getElem hlt
  rw [getElem?_between (by omega), beq_iff_eq.1 hc] at hget
  exact ⟨k, hk, rfl, by omega, hget⟩

/-- **The blanks end in front of the CR**: it is none. -/
theorem skipSpaces_spec (hval : val ≤ lineEnd) (hline : lineEnd < headerEnd)
    (hcr : buf[lineEnd]? = some cr) :
    (∀ r ∈ (skipSpaces buf headerEnd val).1, r.1 + r.2 ≤ headerEnd) ∧
      (skipSpaces buf headerEnd val).2 ≤ lineEnd ∧
      between buf (skipSpaces buf headerEnd val).2 lineEnd =
        (between buf val lineEnd).dropWhile (· == 32) := by
  induction val using skipSpaces.induct buf headerEnd with
  | case1 val hlt hspace ih =>
    have hne : val ≠ lineEnd := by
      rintro rfl
      rw [hspace] at hcr
      exact absurd (Option.some.inj hcr) (by decide)
    obtain ⟨hreads, hle, htext⟩ := ih (by omega)
    rw [skipSpaces, if_pos hlt, if_pos hspace, between_succ (by omega) hspace]
    refine ⟨fun r hr => ?_, hle, htext⟩
    rcases List.mem_cons.1 hr with rfl | hr
    · exact hlt
    · exact hreads r hr
  | case2 val hlt hspace =>
    rw [skipSpaces, if_pos hlt, if_neg hspace]
    refine ⟨fun r hr => ?_, hval, ?_⟩
    · rw [List.mem_singleton.1 hr]
      exact hlt
    · by_cases hend : val = lineEnd
      · rw [hend, between_self]
        rfl
      · have hin : val < buf.length := by
          have := (List.getElem?_eq_some_iff.1 hcr).1
          omega
        have hget := List.getElem?_eq_getElem hin
        have hno : (buf[val] == 32) = false := by
          rw [beq_eq_false_iff_ne]
          exact fun h => hspace (h ▸ hget)
        rw [between_succ (by omega) hget, List.dropWhile_cons_of_neg (by rw [hno]; decide)]
  | case3 val hlt => omega

/-! ### A turn -/

theorem HeaderParser.Safe.readingOne (h : s.Safe headerEnd) {n : ℕ} (hn : i + n ≤ headerEnd) :
    (s.reading [(i, n)]).Safe headerEnd :=
  h.reading [(i, n)] fun r hr => by rwa [List.mem_singleton.1 hr]

/-- No more than the value is copied, and no more than the array has room for. -/
theorem copySize_le {hvLen : Int} (h : 0 ≤ hvLen) : copySize hvLen ≤ 31 ∧ copySize hvLen ≤ hvLen := by
  rw [copySize]
  split_ifs <;> omega

theorem HeaderParser.Safe.value (h : s.Safe headerEnd) {hnLen hvLen : Int}
    (hval : (val : Int) + hvLen ≤ headerEnd) (hpos : 0 ≤ hvLen) :
    (HeaderParser.value buf s hnLen hvLen val).Safe headerEnd := by
  obtain ⟨hroom, hcopied⟩ := copySize_le hpos
  rw [HeaderParser.value]
  split_ifs with hlength hencoding hseven hchunked
  · have hsafe := h.readingOne (i := val) (n := copySize hvLen) (by omega)
    refine ⟨hsafe.reads, hsafe.lengths, fun n hcopy => ?_⟩
    rcases List.mem_append.1 hcopy with hcopy | hcopy
    · exact h.copies n hcopy
    · rwa [List.mem_singleton.1 hcopy]
  · have hsafe := h.readingOne (i := val) (n := 7) (by omega)
    exact ⟨hsafe.reads, hsafe.lengths, hsafe.copies⟩
  · exact h.readingOne (by omega)
  · exact h
  · exact h

theorem HeaderParser.Safe.field (h : s.Safe headerEnd) (hpos : s.pos ≤ colon) (hcolon : colon < lineEnd)
    (hline : lineEnd < headerEnd) (hcr : buf[lineEnd]? = some cr) :
    (s.field buf headerEnd lineEnd colon).Safe headerEnd := by
  obtain ⟨hspaces, hle, -⟩ := skipSpaces_spec (show colon + 1 ≤ lineEnd from hcolon) hline hcr
  have hname : ∀ n : ℕ, ∀ r ∈ (if ((colon : Int) - s.pos) = n then [(s.pos, n)] else []),
      r.1 + r.2 ≤ headerEnd := by
    intro n r hr
    split_ifs at hr with hn
    · rw [List.mem_singleton.1 hr]
      simp only
      omega
    · cases hr
  rw [HeaderParser.field]
  have hsafe := h.reading ((skipSpaces buf headerEnd (colon + 1)).1 ++
      (if ((colon : Int) - s.pos) = 14 then [(s.pos, 14)] else []) ++
      (if ((colon : Int) - s.pos) = 17 then [(s.pos, 17)] else [])) fun r hr => by
    rcases List.mem_append.1 hr with hr | hr
    · rcases List.mem_append.1 hr with hr | hr
      · exact hspaces r hr
      · exact hname 14 r hr
    · exact hname 17 r hr
  refine HeaderParser.Safe.value ?_ (by omega) (by omega)
  refine ⟨hsafe.reads, fun n hn => ?_, hsafe.copies⟩
  rcases List.mem_append.1 hn with hn | hn
  · exact h.lengths n hn
  · simp only [List.mem_cons, List.not_mem_nil, or_false] at hn
    rcases hn with rfl | rfl
    · omega
    · omega

theorem HeaderParser.Safe.line (h : s.Safe headerEnd) (hpos : s.pos < lineEnd)
    (hline : lineEnd < headerEnd) (hcr : buf[lineEnd]? = some cr) :
    (s.line buf headerEnd lineEnd).Safe headerEnd := by
  have hread := h.readingOne (i := s.pos) (n := lineEnd - s.pos) (by omega)
  rw [HeaderParser.line]
  cases hfind : memchr buf s.pos lineEnd 58 with
  | none => exact hread
  | some colon =>
    obtain ⟨k, -, rfl, hcolon, -⟩ := memchr_eq_some hfind
    exact hread.field (Nat.le_add_right _ _) hcolon hline hcr

/-- **A turn is safe**, and where the loop goes on it has come on. -/
theorem HeaderParser.Safe.turn (buf : Bytes) (h : s.Safe headerEnd) (hpos : s.pos < headerEnd) :
    (s.turn buf headerEnd).1.Safe headerEnd ∧
      ((s.turn buf headerEnd).2 = true → s.pos < (s.turn buf headerEnd).1.pos) := by
  have hread := h.readingOne (i := s.pos) (n := headerEnd - s.pos) (by omega)
  rw [HeaderParser.turn]
  cases hfind : memchr buf s.pos headerEnd cr with
  | none => exact ⟨hread, fun hmore => by cases hmore⟩
  | some lineEnd =>
    obtain ⟨k, -, rfl, hline, hcr⟩ := memchr_eq_some hfind
    dsimp only
    split_ifs with hempty
    · exact ⟨hread, fun hmore => by cases hmore⟩
    · have hsafe := hread.line (show s.pos < s.pos + k by omega) hline hcr
      exact ⟨⟨hsafe.reads, hsafe.lengths, hsafe.copies⟩, fun _ => show s.pos < s.pos + k + 2 by omega⟩

theorem HeaderParser.safe_start (buf : Bytes) (headerEnd : ℕ) :
    (HeaderParser.start buf headerEnd).Safe headerEnd := by
  refine ⟨fun r hr k hk => ?_, fun n hn => (by cases hn), fun n hn => (by cases hn)⟩
  simp only [HeaderParser.start] at hr
  split_ifs at hr with hlong
  · rw [List.mem_singleton.1 hr] at hk ⊢
    simp only at hk ⊢
    omega
  · cases hr

/-! ## The loop -/

/-- **The loop ends, and is safe**, with more tests of its condition than bytes to go. -/
theorem parserLoop_safe (h : s.Safe headerEnd) {fuel : ℕ} (hfuel : headerEnd - s.pos < fuel) :
    ∃ p, parserLoop buf headerEnd fuel s = some p ∧ p.Safe headerEnd := by
  induction fuel generalizing s with
  | zero => exact absurd hfuel (Nat.not_lt_zero _)
  | succ fuel ih =>
    rw [parserLoop]
    split_ifs with hpos
    · obtain ⟨hsafe, hon⟩ := h.turn buf hpos
      dsimp only
      split_ifs with hmore
      · have := hon hmore
        exact ih hsafe (by omega)
      · exact ⟨_, rfl, hsafe⟩
    · exact ⟨s, rfl, h⟩

/-- **The header parser is safe on arbitrary bytes**: its loop ends after at most one test of its condition for
each byte and one more, every byte it reads is in front of `header_end`, no length is negative, and at most 31
bytes are copied. -/
theorem parser_safe (buf : Bytes) (headerEnd : ℕ) :
    ∃ p, parserLoop buf headerEnd (headerEnd + 1) (.start buf headerEnd) = some p ∧ p.Safe headerEnd :=
  parserLoop_safe (HeaderParser.safe_start buf headerEnd) (Nat.lt_succ_self _)

/-! ## Line by line -/

theorem crLines_cons_of_ne {t : Bytes} (hc : ¬ (c == cr) = true) :
    crLines (c :: t) = match crLines t with
      | line :: lines => (c :: line) :: lines
      | [] => [] := by
  cases t with
  | nil => exact if_neg hc
  | cons d t => exact if_neg hc

/-- The lines of a text, by the first CR in it. -/
theorem crLines_eq (t : Bytes) : crLines t =
    match t.findIdx? (· == cr) with
    | none => []
    | some k => t.take k :: crLines (t.drop (k + 2)) := by
  induction t with
  | nil => rfl
  | cons c t ih =>
    rw [List.findIdx?_cons]
    by_cases hc : (c == cr) = true
    · rw [if_pos hc]
      cases t with
      | nil => rw [crLines, if_pos hc]; rfl
      | cons d t => rw [crLines, if_pos hc]; rfl
    · rw [crLines_cons_of_ne hc, if_neg hc, ih]
      cases t.findIdx? (· == cr) with
      | none => rfl
      | some k => rfl

/-- A name that is compared where its length is the right one is compared as a whole. -/
theorem name_iff {n k : ℕ} (name : Bytes) (hname : name.length = n) (hk : i + k ≤ buf.length) :
    ((k : Int) = n ∧ strcaseeq (between buf i (i + n)) name = true) ↔
      strcaseeq (between buf i (i + k)) name = true := by
  by_cases h : k = n
  · subst h
    exact and_iff_right rfl
  · refine iff_of_false (fun hh => h (Int.ofNat.inj hh.1)) fun hsame => ?_
    have hlen := length_eq_of_strcaseeq hsame
    rw [length_between hk, hname] at hlen
    omega

/-- As much of the value as is copied. -/
theorem between_copied (hval : val ≤ lineEnd) :
    between buf val (val + copySize ((lineEnd : Int) - val)) = (between buf val lineEnd).take 31 := by
  have hsize : copySize ((lineEnd : Int) - val) = min 31 (lineEnd - val) := by
    rw [copySize]
    split_ifs <;> omega
  rw [hsize, between, between, Nat.add_sub_cancel_left, List.take_take]

/-- A value that begins with a word is as long as the word. -/
theorem chunked_iff (hval : val ≤ lineEnd) (hlen : lineEnd ≤ buf.length) :
    ((7 : Int) ≤ lineEnd - val ∧ strcaseeq (between buf val (val + 7)) (ascii "chunked") = true) ↔
      strcaseeq ((between buf val lineEnd).take 7) (ascii "chunked") = true := by
  by_cases h : val + 7 ≤ lineEnd
  · rw [between_take h]
    exact and_iff_right (by omega)
  · refine iff_of_false (fun hh => h (by omega)) fun hsame => ?_
    have hseven := length_eq_of_strcaseeq hsame
    rw [List.length_take, length_between hlen, length_ascii rfl] at hseven
    simp only [List.length_cons, List.length_nil] at hseven
    omega

theorem headers_value {k : ℕ} (hname : s.pos + k ≤ buf.length) (hval : val ≤ lineEnd)
    (hlen : lineEnd ≤ buf.length) :
    (HeaderParser.value buf s k ((lineEnd : Int) - val) val).headers =
      if strcaseeq (between buf s.pos (s.pos + k)) (ascii "Content-Length") then
        { s.headers with contentLength := atoi ((between buf val lineEnd).take 31) }
      else if strcaseeq (between buf s.pos (s.pos + k)) (ascii "Transfer-Encoding") then
        if strcaseeq ((between buf val lineEnd).take 7) (ascii "chunked") then
          { s.headers with isChunked := true }
        else s.headers
      else s.headers := by
  have hlength : (k : Int) = 14 ∧ _ ↔ _ :=
    name_iff (n := 14) (ascii "Content-Length") (length_ascii rfl) hname
  have hencoding : (k : Int) = 17 ∧ _ ↔ _ :=
    name_iff (n := 17) (ascii "Transfer-Encoding") (length_ascii rfl) hname
  have hchunked := chunked_iff hval hlen
  rw [HeaderParser.value]
  by_cases hcl : strcaseeq (between buf s.pos (s.pos + k)) (ascii "Content-Length") = true
  · rw [if_pos (hlength.2 hcl), if_pos hcl, between_copied hval]
  · rw [if_neg (mt hlength.1 hcl), if_neg hcl]
    by_cases hte : strcaseeq (between buf s.pos (s.pos + k)) (ascii "Transfer-Encoding") = true
    · rw [if_pos (hencoding.2 hte), if_pos hte]
      by_cases hword : strcaseeq ((between buf val lineEnd).take 7) (ascii "chunked") = true
      · rw [if_pos (hchunked.2 hword).1, if_pos (hchunked.2 hword).2, if_pos hword]
      · rw [if_neg hword]
        by_cases hseven : (7 : Int) ≤ lineEnd - val
        · rw [if_pos hseven, if_neg fun h => hword (hchunked.1 ⟨hseven, h⟩)]
          rfl
        · rw [if_neg hseven]
    · rw [if_neg (mt hencoding.1 hte), if_neg hte]

/-- **A line is taken as it is line by line.** -/
theorem headers_line (hline : lineEnd < headerEnd)
    (hcr : buf[lineEnd]? = some cr) :
    (s.line buf headerEnd lineEnd).headers = s.headers.readLine (between buf s.pos lineEnd) := by
  have hlen : lineEnd < buf.length := (List.getElem?_eq_some_iff.1 hcr).1
  rw [HeaderParser.line, ResponseHeaders.readLine]
  cases hfind : memchr buf s.pos lineEnd 58 with
  | none =>
    rw [memchr, Option.map_eq_none_iff] at hfind
    rw [show strchr 58 _ = none from hfind]
    rfl
  | some colon =>
    obtain ⟨k, hk, rfl, hcolon, -⟩ := memchr_eq_some hfind
    obtain ⟨-, hle, htext⟩ := skipSpaces_spec (show s.pos + k + 1 ≤ lineEnd from hcolon) hline hcr
    have hname : (between buf s.pos lineEnd).take k = between buf s.pos (s.pos + k) :=
      between_take (Nat.le_of_lt hcolon)
    have hval : ((between buf s.pos lineEnd).drop (k + 1)).dropWhile (· == 32) =
        between buf (skipSpaces buf headerEnd (s.pos + k + 1)).2 lineEnd := by
      rw [htext, between_drop, Nat.add_assoc]
    have hlength : ((s.pos + k : ℕ) : Int) - s.pos = k := by omega
    rw [show strchr 58 _ = some k from hk]
    dsimp only
    rw [hname, hval, HeaderParser.field]
    simp only [HeaderParser.reading, hlength]
    rw [headers_value (by dsimp only; omega) hle (Nat.le_of_lt hlen)]

/-- **A turn takes the first line**, and leaves the others. -/
theorem headers_turn (buf : Bytes) (headerEnd : ℕ) (s : HeaderParser) :
    ((crLines (between buf s.pos headerEnd)).takeWhile fun line => !line.isEmpty).foldl
        ResponseHeaders.readLine s.headers =
      if (s.turn buf headerEnd).2 then
        ((crLines (between buf (s.turn buf headerEnd).1.pos headerEnd)).takeWhile
          fun line => !line.isEmpty).foldl ResponseHeaders.readLine (s.turn buf headerEnd).1.headers
      else (s.turn buf headerEnd).1.headers := by
  rw [crLines_eq]
  cases hfind : memchr buf s.pos headerEnd cr with
  | none =>
    have hturn : s.turn buf headerEnd = (s.reading [(s.pos, headerEnd - s.pos)], false) := by
      rw [HeaderParser.turn, hfind]
    rw [memchr, Option.map_eq_none_iff] at hfind
    rw [hturn, hfind]
    rfl
  | some lineEnd =>
    obtain ⟨k, hk, rfl, hline, hcr⟩ := memchr_eq_some hfind
    have htake : (between buf s.pos headerEnd).take k = between buf s.pos (s.pos + k) :=
      between_take (Nat.le_of_lt hline)
    have hdrop : (between buf s.pos headerEnd).drop (k + 2) = between buf (s.pos + k + 2) headerEnd := by
      rw [between_drop, Nat.add_assoc]
    rw [hk]
    dsimp only
    rw [htake, hdrop]
    by_cases hempty : s.pos + k - s.pos = 0
    · have hturn : s.turn buf headerEnd = (s.reading [(s.pos, headerEnd - s.pos)], false) := by
        rw [HeaderParser.turn, hfind]
        exact if_pos hempty
      have hnil : between buf s.pos (s.pos + k) = [] := between_of_le (by omega)
      rw [hturn, hnil, List.takeWhile_cons_of_neg (by decide)]
      rfl
    · have hturn : s.turn buf headerEnd =
          ({ (s.reading [(s.pos, headerEnd - s.pos)]).line buf headerEnd (s.pos + k) with
            pos := s.pos + k + 2 }, decide (s.pos + k + 2 < headerEnd)) := by
        rw [HeaderParser.turn, hfind]
        exact if_neg hempty
      have hlen := (List.getElem?_eq_some_iff.1 hcr).1
      have hne : (!(between buf s.pos (s.pos + k)).isEmpty) = true := by
        rw [Bool.not_eq_true', List.isEmpty_eq_false_iff, ← List.length_pos_iff,
          length_between (Nat.le_of_lt hlen)]
        omega
      have hfirst := List.takeWhile_cons_of_pos (p := fun line : Bytes => !line.isEmpty)
        (l := crLines (between buf (s.pos + k + 2) headerEnd)) hne
      rw [hturn, hfirst, List.foldl_cons]
      dsimp only
      rw [headers_line (s := s.reading [(s.pos, headerEnd - s.pos)]) hline hcr]
      by_cases hmore : s.pos + k + 2 < headerEnd
      · rw [if_pos (decide_eq_true hmore)]
        rfl
      · rw [between_of_le (Nat.le_of_not_lt hmore), if_neg (by simpa using hmore)]
        rfl

/-- **The loop finds what is found line by line.** -/
theorem headers_loop {fuel : ℕ} {p : HeaderParser} (h : parserLoop buf headerEnd fuel s = some p) :
    p.headers = ((crLines (between buf s.pos headerEnd)).takeWhile fun line => !line.isEmpty).foldl
      ResponseHeaders.readLine s.headers := by
  induction fuel generalizing s with
  | zero => cases h
  | succ fuel ih =>
    rw [parserLoop] at h
    split_ifs at h with hpos
    · dsimp only at h
      rw [headers_turn]
      split_ifs at h ⊢ with hmore
      · exact ih h
      · rw [Option.some.inj h]
    · cases h
      rw [between_of_le (Nat.le_of_not_lt hpos)]
      rfl

/-- **The parser by its indices finds what the parser by its lines finds.** -/
theorem parserLoop_headers {fuel : ℕ} {p : HeaderParser}
    (hp : parserLoop buf headerEnd fuel (.start buf headerEnd) = some p) :
    p.headers = parseResponseHeaders (buf.take headerEnd) := by
  have hall : between buf 0 headerEnd = buf.take headerEnd := by
    rw [between, List.drop_zero, Nat.sub_zero]
  have hfirst : (decide (13 ≤ headerEnd) && between buf 0 13 == ascii "HTTP/1.1 101 ") =
      (ascii "HTTP/1.1 101 ").isPrefixOf (buf.take headerEnd) := by
    have hlen : (ascii "HTTP/1.1 101 ").length = 13 := length_ascii rfl
    rw [Bool.eq_iff_iff, Bool.and_eq_true, decide_eq_true_eq, beq_iff_eq, List.isPrefixOf_iff_prefix,
      List.prefix_iff_eq_take, hlen, List.take_take, eq_comm (a := ascii _)]
    by_cases hlong : 13 ≤ headerEnd
    · rw [Nat.min_eq_left hlong]
      exact and_iff_right hlong
    · refine iff_of_false (fun hh => hlong hh.1) fun hh => ?_
      have := congrArg List.length hh
      rw [List.length_take, hlen] at this
      omega
  rw [headers_loop hp, parseResponseHeaders, ← hfirst, ← hall]
  rfl

end Proxy
end Arws

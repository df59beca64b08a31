import Arws.Library.CString

/-!
# HTTP messages

What a complete message is, in the terms of the protocol: a header block up to the first empty line,
and a body whose extent the header block tells, by a length (`LengthFramed`) or by chunks
(`ChunkFramed`).  Field names are compared without regard to letter case and values are taken
without the blanks around them.  Nothing here says how a program finds this out.

A `Response` carries the proof that it is complete.
-/

set_option autoImplicit false

namespace Http

open CString

/-- The offset behind the header block. -/
def headerEnd (m : Bytes) : Option Nat := (strstr crlfcrlf m).map (· + 4)

theorem headerEnd_eq_some_iff {m : Bytes} {h : Nat} :
    headerEnd m = some h ↔ ∃ off, strstr crlfcrlf m = some off ∧ off + 4 = h := by
  rw [headerEnd, Option.map_eq_some_iff]

theorem headerEnd_le {m : Bytes} {h : Nat} (he : headerEnd m = some h) : h ≤ m.length := by
  obtain ⟨off, hoff, rfl⟩ := headerEnd_eq_some_iff.1 he
  exact strstr_add_le hoff

theorem headerEnd_pos {m : Bytes} {h : Nat} (he : headerEnd m = some h) : 0 < h := by
  obtain ⟨off, -, rfl⟩ := headerEnd_eq_some_iff.1 he
  exact Nat.succ_pos _

/-- More bytes leave the header block as it is. -/
theorem headerEnd_mono {a b : Bytes} {h : Nat} (hab : a <+: b) (he : headerEnd a = some h) :
    headerEnd b = some h := by
  obtain ⟨off, hoff, rfl⟩ := headerEnd_eq_some_iff.1 he
  exact headerEnd_eq_some_iff.2 ⟨off, strstr_mono hab hoff, rfl⟩

/-- A message that ends with an empty line has a header block that ends there or before. -/
theorem headerEnd_of_suffix {m : Bytes} (h : crlfcrlf <:+ m) :
    ∃ n, headerEnd m = some n ∧ n ≤ m.length := by
  obtain ⟨a, rfl⟩ := h
  have hend : crlfcrlf <+: (a ++ crlfcrlf).drop a.length := by rw [List.drop_left]
  obtain ⟨j, -, hj⟩ := strstr_isSome_of_prefix_drop (by simp) hend
  exact ⟨j + 4, headerEnd_eq_some_iff.2 ⟨j, hj, rfl⟩, strstr_add_le hj⟩

/-- The bytes up to the end of the header block end with an empty line. -/
theorem suffix_of_headerEnd {m : Bytes} {h : Nat} (he : headerEnd m = some h) :
    crlfcrlf <:+ m.take h := by
  obtain ⟨off, hoff, rfl⟩ := headerEnd_eq_some_iff.1 he
  obtain ⟨-, hp, -⟩ := strstr_eq_some_iff.1 hoff
  obtain ⟨rest, hrest⟩ := hp
  have hm : m = m.take off ++ crlfcrlf ++ rest := by
    rw [List.append_assoc, hrest, List.take_append_drop]
  have hlen : (m.take off ++ crlfcrlf).length = off + 4 := by
    have := strstr_add_le hoff
    rw [List.length_append, List.length_take]
    simp only [crlfcrlf, List.length_cons, List.length_nil] at this ⊢
    omega
  refine ⟨m.take off, ?_⟩
  conv_rhs => rw [hm, ← hlen, List.take_left]

/-! ## Lines -/

/-- Lines, each with its line end. -/
def block (lines : List Bytes) : Bytes := lines.flatMap (· ++ crlf)

@[simp] theorem block_cons (line : Bytes) (lines : List Bytes) :
    block (line :: lines) = line ++ crlf ++ block lines := List.flatMap_cons

/-- No line end comes before that of the line. -/
theorem not_crlf_isPrefix {line : Bytes} (h : ¬ crlf <:+: line) (hne : line ≠ []) (rest : Bytes) :
    ¬ crlf <+: line ++ crlf ++ rest := by
  intro hp
  obtain ⟨c, line, rfl⟩ := List.exists_cons_of_ne_nil hne
  obtain ⟨rfl, htail⟩ := List.cons_prefix_cons.1 hp
  cases line with
  | nil =>
    obtain ⟨heq, -⟩ := List.cons_prefix_cons.1 htail
    exact absurd heq (by decide)
  | cons d line =>
    obtain ⟨rfl, -⟩ := List.cons_prefix_cons.1 htail
    exact h ⟨[], line, rfl⟩

theorem not_crlf_infix_tail {c : UInt8} {line : Bytes} (h : ¬ crlf <:+: c :: line) :
    ¬ crlf <:+: line := fun hi => h (hi.trans (List.suffix_cons c line).isInfix)

/-- Behind a line, only its own end can be the first of the two of an empty line. -/
theorem strstr_crlfcrlf_line {line : Bytes} (h : ¬ crlf <:+: line) (rest : Bytes) :
    strstr crlfcrlf (line ++ crlf ++ rest) =
      if crlf <+: rest then some line.length
      else (strstr crlfcrlf rest).map (· + (line.length + 2)) := by
  induction line with
  | nil =>
    have hlf : ¬ crlfcrlf.isPrefixOf (lf :: rest) = true := by
      rw [List.isPrefixOf_iff_prefix]
      intro hp
      obtain ⟨heq, -⟩ := List.cons_prefix_cons.1 hp
      exact absurd heq (by decide)
    have hcr : crlfcrlf.isPrefixOf (cr :: lf :: rest) = true ↔ crlf <+: rest := by
      rw [List.isPrefixOf_iff_prefix]
      simp only [crlfcrlf, crlf, List.cons_prefix_cons, true_and]
    show strstr crlfcrlf (cr :: lf :: rest) = _
    by_cases hrest : crlf <+: rest
    · rw [strstr, if_pos (hcr.2 hrest), if_pos hrest]
      rfl
    · rw [strstr, if_neg (mt hcr.1 hrest), if_neg hrest, strstr, if_neg hlf, Option.map_map]
      rfl
  | cons c line ih =>
    have hc : ¬ crlfcrlf.isPrefixOf (c :: line ++ crlf ++ rest) = true := by
      rw [List.isPrefixOf_iff_prefix]
      exact fun hp => not_crlf_isPrefix h (List.cons_ne_nil c line) rest
        (List.IsPrefix.trans ⟨crlf, rfl⟩ hp)
    rw [List.cons_append, List.cons_append] at hc ⊢
    rw [strstr, if_neg hc, ih (not_crlf_infix_tail h)]
    split_ifs
    · rfl
    · rw [Option.map_map]
      rfl

theorem splitLines_cons {c : UInt8} {s line : Bytes} {lines : List Bytes}
    (hc : ¬ crlf <+: c :: s) (hs : splitLines s = line :: lines) :
    splitLines (c :: s) = (c :: line) :: lines := by
  cases s with
  | nil =>
    cases hs
    rfl
  | cons d s =>
    have hcd : ¬ (c == cr && d == lf) = true := fun hp => by
      rw [Bool.and_eq_true, beq_iff_eq, beq_iff_eq] at hp
      obtain ⟨rfl, rfl⟩ := hp
      exact hc ⟨s, rfl⟩
    rw [splitLines, if_neg hcd, hs]

theorem splitLines_line {line : Bytes} (h : ¬ crlf <:+: line) (rest : Bytes) :
    splitLines (line ++ crlf ++ rest) = line :: splitLines rest := by
  induction line with
  | nil => rfl
  | cons c line ih =>
    exact splitLines_cons (not_crlf_isPrefix h (List.cons_ne_nil c line) rest)
      (ih (not_crlf_infix_tail h))

theorem splitLines_single {line : Bytes} (h : ¬ crlf <:+: line) : splitLines line = [line] := by
  induction line with
  | nil => rfl
  | cons c line ih =>
    exact splitLines_cons (fun hp => h hp.isInfix) (ih (not_crlf_infix_tail h))

/-- The lines of a text, each with its line end, are the text with a line end behind it. -/
theorem block_splitLines (s : Bytes) : block (splitLines s) = s ++ crlf := by
  fun_induction splitLines s with
  | case1 => rfl
  | case2 => rfl
  | case3 c d s hcd ih =>
    rw [Bool.and_eq_true, beq_iff_eq, beq_iff_eq] at hcd
    obtain ⟨rfl, rfl⟩ := hcd
    rw [block_cons, ih]
    rfl
  | case4 c d s hcd line lines hlines ih =>
    rw [hlines] at ih
    rw [block_cons] at ih ⊢
    rw [List.cons_append, List.cons_append, ih]
    rfl
  | case5 c d s hcd hnil ih =>
    rw [hnil] at ih
    cases ih

/-- No line has a line end in it. -/
theorem not_crlf_infix_of_mem_splitLines (s : Bytes) :
    ∀ line ∈ splitLines s, ¬ crlf <:+: line := by
  fun_induction splitLines s with
  | case1 => exact List.forall_mem_singleton.2 fun hi => absurd hi.length_le (by decide)
  | case2 c => exact List.forall_mem_singleton.2 fun hi => absurd hi.length_le (by simp [crlf])
  | case3 c d s hcd ih =>
    exact List.forall_mem_cons.2 ⟨fun hi => absurd hi.length_le (by decide), ih⟩
  | case4 c d s hcd line lines hlines ih =>
    rw [hlines] at ih
    obtain ⟨hline, hrest⟩ := List.forall_mem_cons.1 ih
    refine List.forall_mem_cons.2 ⟨?_, hrest⟩
    rw [List.infix_cons_iff]
    rintro (hp | hi)
    · -- then the text itself has a line end there
      obtain ⟨rfl, hlf⟩ := List.cons_prefix_cons.1 hp
      obtain ⟨rest, rfl⟩ := hlf
      have hblock := block_splitLines (d :: s)
      rw [hlines, block_cons] at hblock
      obtain ⟨rfl, -⟩ := List.cons_eq_cons.1 hblock
      exact hcd (by decide)
    · exact hline hi
  | case5 c d s hcd hnil ih =>
    have := block_splitLines (d :: s)
    rw [hnil] at this
    cases this

/-- **The first empty line is the one behind the lines.** -/
theorem strstr_crlfcrlf_block {lines : List Bytes}
    (h : ∀ line ∈ lines, line ≠ [] ∧ ¬ crlf <:+: line) (hne : lines ≠ []) (rest : Bytes) :
    strstr crlfcrlf (block lines ++ crlf ++ rest) = some ((block lines).length - 2) := by
  induction lines with
  | nil => exact absurd rfl hne
  | cons line lines ih =>
    have hline := (h line (List.mem_cons_self ..)).2
    rw [block_cons, List.append_assoc, List.append_assoc, strstr_crlfcrlf_line hline]
    cases lines with
    | nil =>
      rw [if_pos ⟨rest, rfl⟩]
      simp [block, crlf]
    | cons next lines =>
      obtain ⟨hnext, hnext'⟩ := h next (List.mem_cons_of_mem _ (List.mem_cons_self ..))
      have hrest : ¬ crlf <+: block (next :: lines) ++ (crlf ++ rest) := by
        rw [block_cons, List.append_assoc _ (block lines)]
        exact not_crlf_isPrefix hnext' hnext _
      rw [if_neg hrest, ← List.append_assoc,
        ih (fun l hl => h l (List.mem_cons_of_mem _ hl)) (List.cons_ne_nil _ _), Option.map_some]
      simp only [block_cons, List.length_append, show crlf.length = 2 from rfl]
      congr 1
      omega

/-- The lines are read back from the block. -/
theorem splitLines_take_block {lines : List Bytes} (h : ∀ line ∈ lines, ¬ crlf <:+: line)
    (hne : lines ≠ []) : splitLines ((block lines).take ((block lines).length - 2)) = lines := by
  induction lines with
  | nil => exact absurd rfl hne
  | cons line lines ih =>
    have hline := h line (List.mem_cons_self ..)
    have hlen : (line ++ crlf).length = line.length + 2 := List.length_append
    rw [block_cons]
    cases lines with
    | nil =>
      have htake : (line ++ crlf ++ block []).take ((line ++ crlf ++ block []).length - 2) = line := by
        simp [block, crlf]
      rw [htake, splitLines_single hline]
    | cons next lines =>
      have htake : (line ++ crlf ++ block (next :: lines)).take
          ((line ++ crlf ++ block (next :: lines)).length - 2) =
            line ++ crlf ++ (block (next :: lines)).take ((block (next :: lines)).length - 2) := by
        rw [List.take_append, List.take_of_length_le (l := line ++ crlf), List.length_append]
        · congr 2
          simp only [block_cons, List.length_append, show crlf.length = 2 from rfl]
          omega
        · simp only [block_cons, List.length_append, show crlf.length = 2 from rfl]
          omega
      rw [htake, splitLines_line hline,
        ih (fun l hl => h l (List.mem_cons_of_mem _ hl)) (List.cons_ne_nil _ _)]

/-! ## Fields and framing -/

def trim (v : Bytes) : Bytes :=
  ((v.dropWhile isSpace).reverse.dropWhile isSpace).reverse

/-- The value of the first field with the name. -/
def fieldValue (name m : Bytes) : Option Bytes :=
  (strstr crlfcrlf m).bind fun off =>
    (splitLines (m.take off)).tail.findSome? fun line =>
      (strchr 58 line).bind fun i =>
        if strcaseeq (line.take i) name then some (trim (line.drop (i + 1))) else none

def decimal (v : Bytes) : Option Nat :=
  if !v.isEmpty && v.all isDigit then some (digitsValue v) else none

def contentLength (m : Bytes) : Option Nat :=
  (fieldValue (ascii "Content-Length") m).bind decimal

theorem trim_append (v : Bytes) :
    ∃ blanks, v.dropWhile isSpace = trim v ++ blanks ∧ ∀ c ∈ blanks, isSpace c = true := by
  refine ⟨((v.dropWhile isSpace).reverse.takeWhile isSpace).reverse, ?_, fun c hc => ?_⟩
  · rw [trim, ← List.reverse_append, List.takeWhile_append_dropWhile, List.reverse_reverse]
  · exact List.mem_takeWhile_imp (List.mem_reverse.1 hc)

theorem decimal_eq_some {v : Bytes} {n : Nat} (h : decimal v = some n) :
    v ≠ [] ∧ (∀ c ∈ v, isDigit c = true) ∧ digitsValue v = n := by
  obtain ⟨hv, h⟩ := Option.ite_none_right_eq_some.1 h
  rw [Bool.and_eq_true, List.all_eq_true] at hv
  exact ⟨by simpa using hv.1, hv.2, Option.some.inj h⟩

/-- **What is read of a field's value is no more than the number it is**, whatever it is cut to. -/
theorem strtol_le_of_decimal {v s : Bytes} {n : Nat} (hv : decimal (trim v) = some n)
    (hs : s.dropWhile isSpace <+: v.dropWhile isSpace) : 0 ≤ strtol s ∧ strtol s ≤ n := by
  obtain ⟨hne, hdigits, rfl⟩ := decimal_eq_some hv
  obtain ⟨blanks, hblanks, hspace⟩ := trim_append v
  have hdigit : ∀ c ∈ (s.dropWhile isSpace).head?, isDigit c = true := by
    intro c hc
    obtain ⟨t, ht⟩ : ∃ t, s.dropWhile isSpace = c :: t := by
      rw [Option.mem_def, List.head?_eq_some_iff] at hc
      exact hc
    obtain ⟨d, w, hw⟩ := List.exists_cons_of_ne_nil hne
    rw [ht, hblanks, hw, List.cons_append] at hs
    rw [(List.cons_prefix_cons.1 hs).1]
    exact hdigits d (hw ▸ List.mem_cons_self ..)
  rw [strtol_of_unsigned (fun h => absurd (hdigit 45 h) (by decide))
    (fun h => absurd (hdigit 43 h) (by decide))]
  have hbegins : (s.dropWhile isSpace).takeWhile isDigit <+: trim v := by
    have hnone : blanks.takeWhile isDigit = [] := by
      cases blanks with
      | nil => rfl
      | cons c blanks =>
        rw [List.takeWhile_cons_of_neg]
        rw [isDigit_of_isSpace (hspace c (List.mem_cons_self ..))]
        decide
    have h := takeWhile_prefix_of_prefix isDigit hs
    rwa [hblanks, List.takeWhile_append_of_pos hdigits, hnone, List.append_nil] at h
  have := digitsValue_mono hbegins
  rw [longMax]
  omega

/-- **What is read of a field with a number is the number**, as far as it fits. -/
theorem strtol_of_decimal {v : Bytes} {n : Nat} (hv : decimal (trim v) = some n) (rest : Bytes) :
    strtol (v ++ crlf ++ rest) = min longMax n := by
  obtain ⟨hne, hdigits, rfl⟩ := decimal_eq_some hv
  obtain ⟨blanks, hblanks, hspace⟩ := trim_append v
  obtain ⟨c, digits, hc⟩ := List.exists_cons_of_ne_nil hne
  have hdrop : (v ++ crlf ++ rest).dropWhile isSpace = trim v ++ (blanks ++ crlf ++ rest) := by
    have hfull : ¬ (v.dropWhile isSpace).isEmpty = true := by
      rw [hblanks, hc]
      exact Bool.false_ne_true
    rw [List.append_assoc, List.dropWhile_append, if_neg hfull, hblanks]
    simp only [List.append_assoc]
  have hcdigit : isDigit c = true := hdigits c (hc ▸ List.mem_cons_self ..)
  have hhead : ((v ++ crlf ++ rest).dropWhile isSpace).head? = some c := by
    rw [hdrop, hc]
    rfl
  rw [strtol_of_unsigned]
  · have hnone : (blanks ++ crlf ++ rest).takeWhile isDigit = [] := by
      cases blanks with
      | nil => rfl
      | cons d blanks =>
        refine List.takeWhile_cons_of_neg ?_
        rw [isDigit_of_isSpace (hspace d (List.mem_cons_self ..))]
        decide
    rw [hdrop, List.takeWhile_append_of_pos hdigits, hnone, List.append_nil]
  · rw [hhead]
    rintro ⟨⟩
    exact absurd hcdigit (by decide)
  · rw [hhead]
    rintro ⟨⟩
    exact absurd hcdigit (by decide)

/-- The message is complete, and its body has the length its header block declares. -/
def LengthFramed (m : Bytes) : Prop :=
  ∃ h ∈ headerEnd m, ∃ n ∈ contentLength m, m.length = h + n

instance (m : Bytes) : Decidable (LengthFramed m) :=
  inferInstanceAs (Decidable (∃ h ∈ headerEnd m, ∃ n ∈ contentLength m, m.length = h + n))

def hexDigit (c : UInt8) : Option Nat :=
  if 48 ≤ c && c ≤ 57 then some (c.toNat - 48)
  else if 65 ≤ c && c ≤ 70 then some (c.toNat - 55)
  else if 97 ≤ c && c ≤ 102 then some (c.toNat - 87)
  else none

/-- The number a chunk begins with. -/
def hexadecimal (v : Bytes) : Option Nat :=
  if v.isEmpty then none
  else v.foldl (fun n c => n.bind fun n => (hexDigit c).map (16 * n + ·)) (some 0)

/-- A body in chunks, with trailer fields or none behind the last one. -/
inductive Chunked : Bytes → Prop
  | last {size : Bytes} {trailer : List Bytes} (hsize : hexadecimal size = some 0)
      (htrailer : ∀ line ∈ trailer, line ≠ [] ∧ cr ∉ line) :
      Chunked (size ++ crlf ++ trailer.flatMap (· ++ crlf) ++ crlf)
  | chunk {size data rest : Bytes} (hsize : hexadecimal size = some data.length)
      (hdata : data ≠ []) (hrest : Chunked rest) : Chunked (size ++ crlf ++ data ++ crlf ++ rest)

/-- The message is complete, and its body is in chunks. -/
def ChunkFramed (m : Bytes) : Prop :=
  ∃ h ∈ headerEnd m, (∃ v ∈ fieldValue (ascii "Transfer-Encoding") m,
    strcaseeq v (ascii "chunked") = true) ∧ Chunked (m.drop h)

/-- **A complete response.** -/
structure Response where
  bytes : Bytes
  framed : LengthFramed bytes ∨ ChunkFramed bytes

theorem Response.exists_headerEnd (r : Response) :
    ∃ h, headerEnd r.bytes = some h ∧ h ≤ r.bytes.length := by
  rcases r.framed with ⟨h, he, -⟩ | ⟨h, he, -⟩ <;> exact ⟨h, he, headerEnd_le he⟩

end Http

import Arws.Json.ReadStrings
import Arws.Json.RoundTrip

/-!
# What the parser accepts

Every text in which `cJSON_Parse` finds an item has one: a byte order mark or none, blanks, a text of the item,
and anything behind it.  That holds of the items whose strings have no zero byte, for `parse_hex4` takes four bytes
that are no digits for zero.  An item is nested no deeper than the limit, and no larger than its text, in any case.
The texts are those of `Denotes`, which has more than JSON: all that the parser takes for blanks, for strings and
for numbers.

* `parseValue_accepts` — a value, from every buffer, and with it the elements and the members.
* `cJsonParse_accepts` — whole texts.
-/

set_option autoImplicit false

namespace Arws
namespace Json

open CString Checked

variable {D : Type} {ops : Doubles D}

/-! ## Items -/

mutual

/-- The strings and the names of an item are C strings. -/
def Item.ZeroFree : Item D → Prop
  | .string s | .raw s => (0 : UInt8) ∉ s
  | .array child => ZeroFreeElements child
  | .object child => ZeroFreeMembers child
  | .null | .false | .true | .number _ => True

def ZeroFreeElements : List (Item D) → Prop
  | [] => True
  | element :: rest => element.ZeroFree ∧ ZeroFreeElements rest

def ZeroFreeMembers : List (Bytes × Item D) → Prop
  | [] => True
  | (name, value) :: rest => (0 : UInt8) ∉ name ∧ value.ZeroFree ∧ ZeroFreeMembers rest

end

mutual

/-- How long a text of an item is at least. -/
def Item.size : Item D → ℕ
  | .null | .true => 4
  | .false => 5
  | .number _ => 1
  | .string s | .raw s => s.length + 2
  | .array child => sizeOfElements child + 2
  | .object child => sizeOfMembers child + 2

def sizeOfElements : List (Item D) → ℕ
  | [] => 0
  | [element] => element.size
  | element :: rest => element.size + 1 + sizeOfElements rest

def sizeOfMembers : List (Bytes × Item D) → ℕ
  | [] => 0
  | [(name, value)] => name.length + 3 + value.size
  | (name, value) :: rest => name.length + 3 + value.size + 1 + sizeOfMembers rest

end

theorem sizeOfElements_cons (v : Item D) {l : List (Item D)} (hl : l ≠ []) :
    sizeOfElements (v :: l) = v.size + 1 + sizeOfElements l := by
  obtain ⟨u, l, rfl⟩ := List.exists_cons_of_ne_nil hl
  rw [sizeOfElements]
  simp

theorem sizeOfMembers_cons (s : Bytes) (v : Item D) {l : List (Bytes × Item D)} (hl : l ≠ []) :
    sizeOfMembers ((s, v) :: l) = s.length + 3 + v.size + 1 + sizeOfMembers l := by
  obtain ⟨u, l, rfl⟩ := List.exists_cons_of_ne_nil hl
  rw [sizeOfMembers]
  simp

/-! ## What is taken from the buffer -/

/-- A text is taken from the buffer. -/
structure Takes (b : ParseBuffer) (t : Bytes) (b' : ParseBuffer) : Prop where
  rest : b.rest = t ++ b'.rest
  eq : b' = b.advance t.length

variable {b b₁ b₂ : ParseBuffer} {t u : Bytes}

theorem takes_of_rest {tail : Bytes} (h : b.rest = t ++ tail) : Takes b t (b.advance t.length) :=
  ⟨by rw [ParseBuffer.rest_advance h, h], rfl⟩

theorem Takes.trans (h₁ : Takes b t b₁) (h₂ : Takes b₁ u b₂) : Takes b (t ++ u) b₂ where
  rest := by rw [h₁.rest, h₂.rest, List.append_assoc]
  eq := by rw [h₂.eq, h₁.eq, ParseBuffer.advance_advance, List.length_append]

theorem Takes.depth (h : Takes b t b₁) : b₁.depth = b.depth := by
  rw [h.eq]
  rfl

theorem takes_skip (b : ParseBuffer) : ∃ w, Blank w ∧ Takes b w (bufferSkipWhitespace b) := by
  have hblank : ∀ n, Blank ((b.rest.takeWhile (· ≤ 32)).take n) := fun n c hc => by
    simpa using List.mem_takeWhile_imp (List.mem_of_mem_take hc)
  have htakes : ∀ n ≤ (b.rest.takeWhile (· ≤ 32)).length, ∃ w, Blank w ∧ Takes b w (b.advance n) := by
    intro n hn
    obtain ⟨tail, htail⟩ := (List.take_prefix n _).trans (List.takeWhile_prefix (l := b.rest) (· ≤ 32))
    have h := takes_of_rest htail.symm
    rw [List.length_take_of_le hn] at h
    exact ⟨_, hblank n, h⟩
  rw [bufferSkipWhitespace]
  by_cases hin : b.canAccessAtIndex 0
  · rw [if_pos hin]
    simp only
    split_ifs with hend
    · -- at the end of the text the last blank is left
      have hlt : b.offset < b.content.length := hin
      change b.offset + _ = b.content.length at hend
      have heq : ({ b.advance (b.rest.takeWhile (· ≤ 32)).length with
          offset := (b.advance (b.rest.takeWhile (· ≤ 32)).length).offset - 1 } : ParseBuffer) =
          b.advance ((b.rest.takeWhile (· ≤ 32)).length - 1) := by
        simp only [ParseBuffer.advance, ParseBuffer.mk.injEq, true_and, and_true]
        omega
      rw [heq]
      exact htakes _ (Nat.sub_le _ _)
    · exact htakes _ le_rfl
  · rw [if_neg hin]
    exact ⟨[], blank_nil, rfl, rfl⟩

theorem rest_of_readsByte {c : UInt8} (h : b.readsByte c = .ok true) : ∃ tail, b.rest = c :: tail := by
  rw [ParseBuffer.readsByte] at h
  by_cases hin : b.canAccessAtIndex 0
  · rw [if_pos hin] at h
    cases hread : b.read 0 with
    | error e =>
      rw [hread] at h
      cases h
    | ok d =>
      rw [hread] at h
      obtain rfl : d = c := beq_iff_eq.1 (Except.ok.inj h)
      exact cons_of_readAt hread
  · rw [if_neg hin] at h
    cases h

theorem takes_byte {c : UInt8} {tail : Bytes} (h : b.rest = c :: tail) : Takes b [c] (b.advance 1) :=
  takes_of_rest (t := [c]) h

theorem takes_word {word : Bytes} (h : b.readsWord word) : Takes b word (b.advance word.length) := by
  obtain ⟨tail, htail⟩ := List.take_prefix word.length b.rest
  rw [h.2] at htail
  exact takes_of_rest htail.symm

/-! ## Values -/

/-- A text stands for an item in front of what follows it.  A number may be followed by what could belong to it, if
`strtod` does not take it. -/
def Stands (ops : Doubles D) (v : Item D) (t tail : Bytes) : Prop :=
  match v with
  | .number d => (∃ c u, t = c :: u ∧ (c = 45 ∨ 48 ≤ c ∧ c ≤ 57)) ∧
      ops.strtod ((t ++ tail).takeWhile isNumberChar) = some (d, t.length)
  | v => Denotes ops v t

theorem Stands.denotes {v : Item D} {tail : Bytes} (h : Stands ops v t tail) (hend : NumberEnds tail) :
    Denotes ops v t := by
  cases v with
  | null | false | true | string s | raw s | array l | object l => exact h
  | number d =>
    obtain ⟨hhead, hread⟩ := h
    have hchars : ∀ c ∈ t, isNumberChar c = true := by
      have hle := (ops.strtod_taken _ _ _ hread).2
      have hpre : t <+: (t ++ tail).takeWhile isNumberChar :=
        List.prefix_of_prefix_length_le (List.prefix_append t tail) (List.takeWhile_prefix _) hle
      exact fun c hc => List.mem_takeWhile_imp (hpre.subset hc)
    rw [takeWhile_number ⟨hchars, hhead⟩ hend] at hread
    exact .number ⟨hchars, hhead⟩ hread

/-- What `parse_value` accepts from a buffer. -/
structure Accepts (ops : Doubles D) (b : ParseBuffer) (v : Item D) (b' : ParseBuffer) (t : Bytes) : Prop where
  takes : Takes b t b'
  size_le : v.size ≤ t.length
  depth_le : v.depth + b.depth ≤ nestingLimit
  last : t.getLast? ≠ some 0
  stands : v.ZeroFree → Stands ops v t b'.rest

section Children

variable {α : Type} {closing : UInt8}

theorem parseRest_eq_ok {child : α} {l : List α} {loop : ParseBuffer → Except Stop (List α × ParseBuffer)}
    (h : parseRest closing child b loop = .ok (l, b₁)) :
    (∃ tail l', b.rest = 44 :: tail ∧ loop b = .ok (l', b₁) ∧ l = child :: l') ∨
      ∃ tail, b.rest = closing :: tail ∧ l = [child] ∧ b₁ = b := by
  rw [parseRest] at h
  obtain ⟨comma, hcomma, h⟩ := bind_eq_ok h
  cases comma with
  | true =>
    obtain ⟨tail, htail⟩ := rest_of_readsByte hcomma
    obtain ⟨⟨l', b'⟩, hloop, h⟩ := bind_eq_ok h
    obtain ⟨rfl, rfl⟩ := Prod.mk.inj (Except.ok.inj h)
    exact .inl ⟨tail, l', htail, hloop, rfl⟩
  | false =>
    obtain ⟨closed, hclosed, h⟩ := bind_eq_ok h
    cases closed with
    | true =>
      obtain ⟨tail, htail⟩ := rest_of_readsByte hclosed
      obtain ⟨rfl, rfl⟩ := Prod.mk.inj (Except.ok.inj h)
      exact .inr ⟨tail, htail, rfl, rfl⟩
    | false => cases h

/-- **The children** between their brackets, if the loop accepts those that `P` says. -/
theorem parseChildren_accepts {opened : UInt8} {tail : Bytes} {l : List α} {P : List α → Bytes → Prop}
    {loop : ℕ → ParseBuffer → Except Stop (List α × ParseBuffer)} (hopened : b.rest = opened :: tail)
    (hnil : ∀ w, Blank w → P [] w) (hblank : ∀ w t l, Blank w → P l t → P l (w ++ t))
    (hloop : ∀ n inner l b', inner.depth = b.depth + 1 → loop n inner = .ok (l, b') →
      ∃ t, Takes (inner.advance 1) t b' ∧ (∃ tail, b'.rest = closing :: tail) ∧ P l t)
    (h : parseChildren closing b loop = .ok (l, b₁)) :
    ∃ t, Takes b (opened :: (t ++ [closing])) b₁ ∧ P l t := by
  -- the depth does not matter for what is taken
  have hdepth : ∀ {b₀ b' : ParseBuffer} {t tail : Bytes} (d : ℕ), Takes { b₀ with depth := d } t b' →
      b'.rest = closing :: tail → Takes b₀ (t ++ [closing]) { b'.advance 1 with depth := b₀.depth } := by
    intro b₀ b' t tail d htakes hclosing
    refine ⟨?_, ?_⟩
    · have hrest := htakes.rest
      rw [(takes_byte hclosing).rest] at hrest
      rw [List.append_assoc]
      exact hrest
    · rw [htakes.eq, List.length_append]
      rfl
  obtain ⟨w, hw, hskip⟩ := takes_skip { b.advance 1 with depth := b.depth + 1 }
  rw [parseChildren] at h
  simp only at h
  generalize bufferSkipWhitespace { b.advance 1 with depth := b.depth + 1 } = inner at h hskip
  have hcons : ∀ {t : Bytes} {b' : ParseBuffer}, Takes (b.advance 1) t b' → Takes b (opened :: t) b' :=
    fun h => (takes_byte hopened).trans h
  obtain ⟨empty, hempty, h⟩ := bind_eq_ok h
  cases empty with
  | true =>
    obtain ⟨tail, htail⟩ := rest_of_readsByte hempty
    obtain ⟨rfl, rfl⟩ := Prod.mk.inj (Except.ok.inj h)
    exact ⟨w, hcons (hdepth _ hskip htail), hnil w hw⟩
  | false =>
    rw [if_neg Bool.false_ne_true] at h
    split_ifs at h
    obtain ⟨⟨l', b'⟩, hread, h⟩ := bind_eq_ok h
    obtain ⟨rfl, rfl⟩ := Prod.mk.inj (Except.ok.inj h)
    have hback : ({ inner with offset := inner.offset - 1 } : ParseBuffer).advance 1 = inner := by
      have hoffset : inner.offset = b.offset + 1 + w.length := by rw [hskip.eq]; rfl
      rw [ParseBuffer.advance]
      simp only
      rw [Nat.sub_add_cancel (by omega)]
    obtain ⟨t, htakes, ⟨tail, htail⟩, hP⟩ :=
      hloop _ { inner with offset := inner.offset - 1 } _ _ hskip.depth hread
    rw [hback] at htakes
    exact ⟨w ++ t, hcons (hdepth _ (hskip.trans htakes) htail), hblank w t _ hw hP⟩

end Children

/-- What stands behind a value in an array or an object ends a number. -/
theorem numberEnds_of_takes {w tail : Bytes} {c : UInt8} (hw : Blank w) (h : Takes b w b₁)
    (hrest : b₁.rest = c :: tail)
    (hc : isNumberChar c = Bool.false) : NumberEnds b.rest := by
  rw [h.rest, hrest]
  exact numberEnds_blank hw (numberEnds_cons hc tail)

section Loops

variable {parse : ParseBuffer → Except Stop (Item D × ParseBuffer)} {depth : ℕ}

/-- The values of a depth are accepted. -/
def AcceptsAt (ops : Doubles D) (parse : ParseBuffer → Except Stop (Item D × ParseBuffer)) (depth : ℕ) : Prop :=
  ∀ b v b', b.depth = depth → parse b = .ok (v, b') → ∃ t, Accepts ops b v b' t

/-- What the loop of `parse_array` accepts. -/
structure AcceptsElements (ops : Doubles D) (depth : ℕ) (l : List (Item D)) (t : Bytes) : Prop where
  size_le : sizeOfElements l ≤ t.length
  depth_le : depthOfElements l + depth ≤ nestingLimit
  denotes : ZeroFreeElements l → DenotesElements ops l t

theorem parseElements_accepts (hparse : AcceptsAt ops parse depth) {turns : ℕ} {l : List (Item D)}
    (hdepth : b.depth = depth) (h : parseElements parse turns b = .ok (l, b₂)) :
    ∃ t, Takes (b.advance 1) t b₂ ∧ (∃ tail, b₂.rest = 93 :: tail) ∧ l ≠ [] ∧ AcceptsElements ops depth l t := by
  induction turns generalizing b l with
  | zero => cases h
  | succ turns ih =>
    rw [parseElements] at h
    obtain ⟨⟨v, b'⟩, hvalue, h⟩ := bind_eq_ok h
    obtain ⟨w, hw, hskip⟩ := takes_skip (b.advance 1)
    obtain ⟨t, haccepts⟩ := hparse _ v b' (hskip.depth.trans hdepth) hvalue
    obtain ⟨w', hw', hskip'⟩ := takes_skip b'
    have htakes := hskip.trans (haccepts.takes.trans hskip')
    have hdepth' := haccepts.depth_le
    rw [hskip.depth.trans hdepth] at hdepth'
    have hsize := haccepts.size_le
    obtain ⟨tail, l', hcomma, hloop, rfl⟩ | ⟨tail, hclosing, rfl, rfl⟩ := parseRest_eq_ok h
    · obtain ⟨u, htakes', hend, hne, helements⟩ := ih (htakes.depth.trans hdepth) hloop
      refine ⟨w ++ (t ++ (w' ++ 44 :: u)), ?_, hend, List.cons_ne_nil _ _, ?_, ?_, fun hzero => ?_⟩
      · have hall := htakes.trans ((takes_byte hcomma).trans htakes')
        simpa using hall
      · have hsize' := helements.size_le
        simp only [sizeOfElements_cons v hne, List.length_append, List.length_cons]
        omega
      · have hdepth'' := helements.depth_le
        rw [depthOfElements]
        omega
      · have hends := numberEnds_of_takes hw' hskip' hcomma rfl
        exact .more hw ((haccepts.stands hzero.1).denotes hends) hw' hne (helements.denotes hzero.2)
    · refine ⟨w ++ (t ++ w'), htakes, ⟨tail, hclosing⟩, List.cons_ne_nil _ _, ?_, ?_, fun hzero => ?_⟩
      · simp only [sizeOfElements, List.length_append]
        omega
      · rw [depthOfElements, depthOfElements]
        omega
      · have hends := numberEnds_of_takes hw' hskip' hclosing rfl
        exact .last hw ((haccepts.stands hzero.1).denotes hends) hw'

/-- What the loop of `parse_object` accepts. -/
structure AcceptsMembers (ops : Doubles D) (depth : ℕ) (l : List (Bytes × Item D)) (t : Bytes) : Prop where
  size_le : sizeOfMembers l ≤ t.length
  depth_le : depthOfMembers l + depth ≤ nestingLimit
  denotes : ZeroFreeMembers l → DenotesMembers ops l t

theorem parseMembers_accepts (hparse : AcceptsAt ops parse depth) {turns : ℕ} {l : List (Bytes × Item D)}
    (hdepth : b.depth = depth) (h : parseMembers parse turns b = .ok (l, b₂)) :
    ∃ t, Takes (b.advance 1) t b₂ ∧ (∃ tail, b₂.rest = 125 :: tail) ∧ l ≠ [] ∧ AcceptsMembers ops depth l t := by
  induction turns generalizing b l with
  | zero => cases h
  | succ turns ih =>
    rw [parseMembers] at h
    split_ifs at h
    obtain ⟨⟨s, b₃⟩, hstring, h⟩ := bind_eq_ok h
    obtain ⟨w, hw, hskip⟩ := takes_skip (b.advance 1)
    obtain ⟨name, tail, hname, rfl, hlength, hreads⟩ := parseString_read hstring
    have htext : (bufferSkipWhitespace (b.advance 1)).rest =
        (JsonText.quote :: (name ++ [JsonText.quote])) ++ tail := by
      rw [hname]
      simp
    have hquoted := takes_of_rest htext
    rw [List.length_cons, List.length_append, List.length_singleton] at hquoted
    obtain ⟨w₁, hw₁, hskip₁⟩ := takes_skip ((bufferSkipWhitespace (b.advance 1)).advance (name.length + 2))
    obtain ⟨colon, hcolon, h⟩ := bind_eq_ok h
    cases colon with
    | false => cases h
    | true =>
      obtain ⟨tail₁, hcolon⟩ := rest_of_readsByte hcolon
      rw [if_pos rfl] at h
      obtain ⟨⟨v, b'⟩, hvalue, h⟩ := bind_eq_ok h
      obtain ⟨w₂, hw₂, hskip₂⟩ := takes_skip
        ((bufferSkipWhitespace ((bufferSkipWhitespace (b.advance 1)).advance (name.length + 2))).advance 1)
      have hupTo := hskip.trans (hquoted.trans (hskip₁.trans ((takes_byte hcolon).trans hskip₂)))
      obtain ⟨t, haccepts⟩ := hparse _ v b' (hupTo.depth.trans hdepth) hvalue
      obtain ⟨w', hw', hskip'⟩ := takes_skip b'
      have htakes := hupTo.trans (haccepts.takes.trans hskip')
      have hdepth' := haccepts.depth_le
      rw [hupTo.depth.trans hdepth] at hdepth'
      have hsize := haccepts.size_le
      obtain ⟨tail₂, l', hcomma, hloop, rfl⟩ | ⟨tail₂, hclosing, rfl, rfl⟩ := parseRest_eq_ok h
      · obtain ⟨u, htakes', hend, hne, hmembers⟩ := ih (htakes.depth.trans hdepth) hloop
        refine ⟨w ++ (JsonText.quote :: (name ++ JsonText.quote ::
          ((w₁ ++ 58 :: w₂) ++ (t ++ (w' ++ 44 :: u))))), ?_,
          hend, List.cons_ne_nil _ _, ?_, ?_, fun hzero => ?_⟩
        · have hall := htakes.trans ((takes_byte hcomma).trans htakes')
          simpa using hall
        · have hsize' := hmembers.size_le
          simp only [sizeOfMembers_cons s v hne, List.length_append, List.length_cons]
          omega
        · have hdepth'' := hmembers.depth_le
          rw [depthOfMembers]
          omega
        · have hends := numberEnds_of_takes hw' hskip' hcomma rfl
          exact .more hw (hreads hzero.1) (.mk hw₁ hw₂) ((haccepts.stands hzero.2.1).denotes hends) hw' hne
            (hmembers.denotes hzero.2.2)
      · refine ⟨w ++ (JsonText.quote :: (name ++ JsonText.quote :: ((w₁ ++ 58 :: w₂) ++ (t ++ w')))), ?_,
          ⟨tail₂, hclosing⟩, List.cons_ne_nil _ _, ?_, ?_, fun hzero => ?_⟩
        · simpa using htakes
        · simp only [sizeOfMembers, List.length_append, List.length_cons]
          omega
        · rw [depthOfMembers, depthOfMembers]
          omega
        · have hends := numberEnds_of_takes hw' hskip' hclosing rfl
          exact .last hw (hreads hzero.1) (.mk hw₁ hw₂) ((haccepts.stands hzero.2.1).denotes hends) hw'

end Loops

/-! ## The kinds of values -/

theorem accepts_word {v : Item D} {word : Bytes} (h : b.readsWord word) (hv : Denotes ops v word)
    (hsize : v.size ≤ word.length) (hlevel : v.depth = 0) (hlast : word.getLast? ≠ some 0)
    (hnumber : ∀ d, v ≠ .number d) (hdepth : b.depth ≤ nestingLimit) :
    Accepts ops b v (b.advance word.length) word where
  takes := takes_word h
  size_le := hsize
  depth_le := by omega
  last := hlast
  stands _ := by
    cases v with
    | number d => exact absurd rfl (hnumber d)
    | null | false | true | string s | raw s | array l | object l => exact hv

theorem parseNumber_accepts {v : Item D} {c : UInt8} {tail : Bytes} (hrest : b.rest = c :: tail)
    (hc : c = 45 ∨ 48 ≤ c ∧ c ≤ 57) (hdepth : b.depth ≤ nestingLimit) (h : parseNumber ops b = .ok (v, b₁)) :
    ∃ t, Accepts ops b v b₁ t := by
  rw [parseNumber] at h
  cases hread : ops.strtod (b.rest.takeWhile isNumberChar) with
  | none =>
    rw [hread] at h
    cases h
  | some r =>
    obtain ⟨d, taken⟩ := r
    rw [hread] at h
    obtain ⟨rfl, rfl⟩ := Prod.mk.inj (Except.ok.inj h)
    obtain ⟨hpos, hle⟩ := ops.strtod_taken _ _ _ hread
    have hlength : (b.rest.take taken).length = taken :=
      List.length_take_of_le (hle.trans (List.takeWhile_prefix _).length_le)
    have htakes := takes_of_rest (List.take_append_drop taken b.rest).symm
    rw [hlength] at htakes
    have hchars : ∀ c ∈ b.rest.take taken, isNumberChar c = true := by
      have hpre : b.rest.take taken <+: b.rest.takeWhile isNumberChar :=
        List.prefix_of_prefix_length_le (List.take_prefix _ _) (List.takeWhile_prefix _) (hlength.trans_le hle)
      exact fun c hc => List.mem_takeWhile_imp (hpre.subset hc)
    refine ⟨b.rest.take taken, htakes, ?_, by rw [Item.depth]; omega, fun hzero => ?_, fun _ => ⟨?_, ?_⟩⟩
    · rw [Item.size, hlength]
      exact hpos
    · exact absurd (hchars 0 (List.mem_of_getLast? hzero)) (by decide)
    · obtain ⟨n, rfl⟩ := Nat.exists_eq_succ_of_ne_zero hpos.ne'
      rw [hrest, List.take_succ_cons]
      exact ⟨c, _, rfl, hc⟩
    · rw [← htakes.rest, hlength]
      exact hread

theorem last_enclosed {opened closing : UInt8} (h : closing ≠ 0) (t : Bytes) :
    (opened :: (t ++ [closing])).getLast? ≠ some 0 := by
  rw [← List.cons_append, List.getLast?_concat]
  exact fun heq => h (Option.some.inj heq)

theorem parseString_accepts {s : Bytes} (hdepth : b.depth ≤ nestingLimit) (h : parseString b = .ok (s, b₁)) :
    ∃ t, Accepts ops b (.string s) b₁ t := by
  obtain ⟨body, tail, hrest, rfl, hlength, hreads⟩ := parseString_read h
  have htext : b.rest = (JsonText.quote :: (body ++ [JsonText.quote])) ++ tail := by
    rw [hrest]
    simp
  have htakes := takes_of_rest htext
  rw [List.length_cons, List.length_append, List.length_singleton] at htakes
  refine ⟨_, htakes, ?_, by rw [Item.depth]; omega, last_enclosed (by decide) body,
    fun hzero => .string (hreads hzero)⟩
  simp only [Item.size, List.length_cons, List.length_append, List.length_nil]
  omega

section Nested

variable {parse : ParseBuffer → Except Stop (Item D × ParseBuffer)}

theorem parseArray_accepts {v : Item D} {tail : Bytes}
    (hparse : b.depth < nestingLimit → AcceptsAt ops parse (b.depth + 1))
    (hrest : b.rest = 91 :: tail) (h : parseArray parse b = .ok (v, b₁)) : ∃ t, Accepts ops b v b₁ t := by
  obtain ⟨hroom, h⟩ := of_ite_refused h
  obtain ⟨opened, -, h⟩ := bind_eq_ok h
  obtain ⟨-, h⟩ := of_ite_refused h
  obtain ⟨⟨l, b'⟩, hl, h⟩ := bind_eq_ok h
  obtain ⟨rfl, rfl⟩ := Prod.mk.inj (Except.ok.inj h)
  rw [not_le] at hroom
  obtain ⟨t, htakes, helements⟩ := parseChildren_accepts (P := AcceptsElements ops (b.depth + 1)) hrest
    (fun w hw => ⟨Nat.zero_le _, by rw [depthOfElements]; omega, fun _ => .nil hw⟩)
    (fun w t l hw h => ⟨h.size_le.trans (by simp), h.depth_le, fun hz => (h.denotes hz).blank hw⟩)
    (fun n inner l b' hd h => by
      obtain ⟨t, htakes, hend, -, helements⟩ := parseElements_accepts (hparse hroom) hd h
      exact ⟨t, htakes, hend, helements⟩) hl
  refine ⟨_, htakes, ?_, ?_, last_enclosed (by decide) t, fun hzero => .array (helements.denotes hzero)⟩
  · have hsize := helements.size_le
    simp only [Item.size, List.length_cons, List.length_append, List.length_nil]
    omega
  · have hdepth := helements.depth_le
    rw [Item.depth]
    omega

theorem parseObject_accepts {v : Item D} {tail : Bytes}
    (hparse : b.depth < nestingLimit → AcceptsAt ops parse (b.depth + 1))
    (hrest : b.rest = 123 :: tail) (h : parseObject parse b = .ok (v, b₁)) : ∃ t, Accepts ops b v b₁ t := by
  obtain ⟨hroom, h⟩ := of_ite_refused h
  rw [ParseBuffer.readsByte_of_cons hrest, ok_bind, if_pos (beq_self_eq_true _)] at h
  obtain ⟨⟨l, b'⟩, hl, h⟩ := bind_eq_ok h
  obtain ⟨rfl, rfl⟩ := Prod.mk.inj (Except.ok.inj h)
  rw [not_le] at hroom
  obtain ⟨t, htakes, hmembers⟩ := parseChildren_accepts (P := AcceptsMembers ops (b.depth + 1)) hrest
    (fun w hw => ⟨Nat.zero_le _, by rw [depthOfMembers]; omega, fun _ => .nil hw⟩)
    (fun w t l hw h => ⟨h.size_le.trans (by simp), h.depth_le, fun hz => (h.denotes hz).blank hw⟩)
    (fun n inner l b' hd h => by
      obtain ⟨t, htakes, hend, -, hmembers⟩ := parseMembers_accepts (hparse hroom) hd h
      exact ⟨t, htakes, hend, hmembers⟩) hl
  refine ⟨_, htakes, ?_, ?_, last_enclosed (by decide) t, fun hzero => .object (hmembers.denotes hzero)⟩
  · have hsize := hmembers.size_le
    simp only [Item.size, List.length_cons, List.length_append, List.length_nil]
    omega
  · have hdepth := hmembers.depth_le
    rw [Item.depth]
    omega

end Nested

/-- **A value** that is accepted, with its children. -/
theorem parseValue_accepts (ops : Doubles D) (calls : ℕ) {v : Item D} (hdepth : b.depth ≤ nestingLimit)
    (h : parseValue ops calls b = .ok (v, b₂)) : ∃ t, Accepts ops b v b₂ t := by
  induction calls generalizing b v b₂ with
  | zero => cases h
  | succ calls ih =>
    have hchildren : b.depth < nestingLimit → AcceptsAt ops (parseValue ops calls) (b.depth + 1) :=
      fun hlt b' v b₂ hd h => ih (by omega) h
    rw [parseValue] at h
    split_ifs at h with hnull hfalse htrue hin
    · obtain ⟨rfl, rfl⟩ := Prod.mk.inj (Except.ok.inj h)
      exact ⟨_, accepts_word hnull .null le_rfl rfl (by decide) (fun _ => nofun) hdepth⟩
    · obtain ⟨rfl, rfl⟩ := Prod.mk.inj (Except.ok.inj h)
      exact ⟨_, accepts_word hfalse .false le_rfl rfl (by decide) (fun _ => nofun) hdepth⟩
    · obtain ⟨rfl, rfl⟩ := Prod.mk.inj (Except.ok.inj h)
      exact ⟨_, accepts_word htrue .true le_rfl rfl (by decide) (fun _ => nofun) hdepth⟩
    obtain ⟨c, hc, h⟩ := bind_eq_ok h
    obtain ⟨tail, hrest⟩ := cons_of_readAt hc
    split_ifs at h with hquote hnumber harray hobject
    · cases hstring : parseString b with
      | error e =>
        rw [hstring] at h
        cases h
      | ok r =>
        rw [hstring] at h
        obtain ⟨rfl, rfl⟩ := Prod.mk.inj (Except.ok.inj h)
        exact parseString_accepts hdepth hstring
    · exact parseNumber_accepts hrest hnumber hdepth h
    · subst harray
      exact parseArray_accepts hchildren hrest h
    · subst hobject
      exact parseObject_accepts hchildren hrest h

/-! ## Whole texts -/

theorem Item.size_pos (v : Item D) : 0 < v.size := by
  cases v with
  | null | false | true | number d | string s | raw s | array l | object l =>
    rw [Item.size]
    omega

theorem takes_skipUtf8Bom (text : Bytes) :
    ∃ mark, (mark = [] ∨ mark = bom) ∧ Takes ⟨text, 0, 0⟩ mark (skipUtf8Bom ⟨text, 0, 0⟩) := by
  rw [skipUtf8Bom]
  split_ifs with h
  · exact ⟨bom, .inr rfl, takes_of_rest (t := bom) (h.2 ▸ (List.take_append_drop 3 text).symm)⟩
  · exact ⟨[], .inl rfl, rfl, rfl⟩

/-- The item that `cJSON_Parse` finds, and where it stands. -/
theorem parse_accepts {text : Bytes} {v : Item D} (h : cJsonParse ops text = .ok v) :
    ∃ mark w t tail, text = mark ++ (w ++ (t ++ tail)) ∧ (mark = [] ∨ mark = bom) ∧ Blank w ∧
      v.depth ≤ nestingLimit ∧ v.size ≤ t.length ∧ (v.ZeroFree → Stands ops v t (tail ++ [0])) := by
  rw [cJsonParse, cJsonParseWithLengthOpts, if_neg (by simp)] at h
  obtain ⟨mark, hmark, hbom⟩ := takes_skipUtf8Bom (text ++ [0])
  obtain ⟨w, hw, hskip⟩ := takes_skip (skipUtf8Bom ⟨text ++ [0], 0, 0⟩)
  have hbefore := hbom.trans hskip
  cases hvalue : parseValue ops (nestingLimit + 1) (bufferSkipWhitespace (skipUtf8Bom ⟨text ++ [0], 0, 0⟩)) with
  | error e =>
    rw [hvalue] at h
    cases h
  | ok r =>
    obtain ⟨v', b'⟩ := r
    rw [hvalue] at h
    obtain rfl : v' = v := Except.ok.inj h
    have hlevel : (bufferSkipWhitespace (skipUtf8Bom ⟨text ++ [0], 0, 0⟩)).depth = 0 := hbefore.depth
    obtain ⟨t, haccepts⟩ := parseValue_accepts ops _ (hlevel.trans_le (Nat.zero_le _)) hvalue
    have hdepth := haccepts.depth_le
    have hsize := haccepts.size_le
    rw [hlevel] at hdepth
    have hpos := v'.size_pos
    have htext : text ++ [0] = mark ++ (w ++ (t ++ b'.rest)) := by
      have hrest := (hbefore.trans haccepts.takes).rest
      rwa [List.append_assoc, List.append_assoc] at hrest
    -- the value ends in front of the terminator
    obtain ⟨tail, hrest⟩ : ∃ tail, b'.rest = tail ++ [0] := by
      have hlast := congrArg List.getLast? htext
      rcases List.eq_nil_or_concat' b'.rest with hnil | ⟨tail, c, hconcat⟩
      · have hne : t ≠ [] := List.ne_nil_of_length_pos (hpos.trans_le hsize)
        obtain ⟨u, c, rfl⟩ := (List.eq_nil_or_concat' t).resolve_left hne
        rw [hnil] at hlast
        simp at hlast
        exact absurd haccepts.last (by simp [← hlast])
      · rw [hconcat] at hlast ⊢
        simp at hlast
        exact ⟨tail, by rw [← hlast]⟩
    rw [hrest] at htext
    have htext' : text = mark ++ (w ++ (t ++ tail)) := by
      simp only [← List.append_assoc] at htext ⊢
      exact (List.append_inj' htext rfl).1
    exact ⟨mark, w, t, tail, htext', hmark, hw, hdepth, hsize, fun hzero => hrest ▸ haccepts.stands hzero⟩

/-- **Whatever `cJSON_Parse` accepts is well formed**: the item is nested no deeper than the limit and no larger
than its text; and if its strings have no zero byte, it stands there, in the grammar of the parser, behind a byte
order mark or none and behind blanks. -/
theorem cJsonParse_accepts {text : Bytes} {v : Item D} (h : cJsonParse ops text = .ok v) :
    v.depth ≤ nestingLimit ∧ v.size ≤ text.length ∧
      (v.ZeroFree → ∃ mark w t tail, text = mark ++ (w ++ (t ++ tail)) ∧ (mark = [] ∨ mark = bom) ∧ Blank w ∧
        Stands ops v t (tail ++ [0])) := by
  obtain ⟨mark, w, t, tail, rfl, hmark, hw, hdepth, hsize, hstands⟩ := parse_accepts h
  refine ⟨hdepth, ?_, fun hzero => ⟨mark, w, t, tail, rfl, hmark, hw, hstands hzero⟩⟩
  simp only [List.length_append]
  omega

/-- An array of a number. -/
theorem cJsonParse_accepts_array : ∃ mark w t tail, ascii "[-17 ]" = mark ++ (w ++ (t ++ tail)) ∧
    (mark = [] ∨ mark = bom) ∧ Blank w ∧ Stands integers (.array [.number (-17)]) t (tail ++ [0]) :=
  (@cJsonParse_accepts _ integers (ascii "[-17 ]") _
    (cJsonParse_text (.array (.last (by decide : Blank [])
      (.number (t := ascii "-17") ⟨by decide, 45, ascii "17", rfl, by decide⟩ rfl) (by decide : Blank [32])))
      (by decide))).2.2 ⟨trivial, trivial⟩

end Json
end Arws

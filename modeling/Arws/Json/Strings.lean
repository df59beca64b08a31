import Arws.Json.ParserSafety
import Arws.Json.PrintedText

/-!
# Strings between quotes

`Reads` says which bytes stand between the quotes for which string: a byte for itself, a short escape, an
escape of a code unit, or of a surrogate pair.  `parse_string` reads them as this string, and what
`print_string_ptr` prints is among them.

* `parseString_reads` — the two loops over what stands between the quotes.
* `reads_printed` — what is printed for a string.
-/

set_option autoImplicit false

namespace Arws
namespace Json

open CString Checked

/-- What stands between the quotes, and the string that it is read as. -/
inductive Reads : Bytes → Bytes → Prop
  | nil : Reads [] []
  | plain {c : UInt8} {t s : Bytes} (hq : c ≠ JsonText.quote) (hb : c ≠ JsonText.backslash) (h : Reads t s) :
      Reads (c :: t) (c :: s)
  | short {e d : UInt8} {t s : Bytes} (he : JsonText.shortEscape e = some d) (h : Reads t s) :
      Reads (JsonText.backslash :: e :: t) (d :: s)
  | unit {h1 h2 h3 h4 : UInt8} {n : ℕ} {bytes t s : Bytes} (hn : JsonText.unitValue [h1, h2, h3, h4] = some n)
      (hsurrogate : ¬ (0xD800 ≤ n ∧ n ≤ 0xDFFF)) (hbytes : encodeUtf8 n = some bytes) (h : Reads t s) :
      Reads (JsonText.unicodeText h1 h2 h3 h4 ++ t) (bytes ++ s)
  | pair {h1 h2 h3 h4 l1 l2 l3 l4 : UInt8} {high low : ℕ} {bytes t s : Bytes}
      (hhigh : JsonText.unitValue [h1, h2, h3, h4] = some high) (hhigh' : 0xD800 ≤ high ∧ high ≤ 0xDBFF)
      (hlow : JsonText.unitValue [l1, l2, l3, l4] = some low) (hlow' : 0xDC00 ≤ low ∧ low ≤ 0xDFFF)
      (hbytes : encodeUtf8 (0x10000 + (((high &&& 0x3FF) <<< 10) ||| (low &&& 0x3FF))) = some bytes)
      (h : Reads t s) :
      Reads (JsonText.unicodeText h1 h2 h3 h4 ++ (JsonText.unicodeText l1 l2 l3 l4 ++ t)) (bytes ++ s)

/-! ## The first loop -/

theorem stringEnd_plain {c : UInt8} (hq : c ≠ JsonText.quote) (hb : c ≠ JsonText.backslash) (t : Bytes) :
    stringEnd (c :: t) = (stringEnd t).map fun r => (r.1 + 1, r.2) := by
  rw [stringEnd.eq_def]
  simp only [if_neg hq, if_neg hb]

theorem stringEnd_escape (e : UInt8) (t : Bytes) :
    stringEnd (JsonText.backslash :: e :: t) = (stringEnd t).map fun r => (r.1 + 2, r.2 + 1) := by
  rw [stringEnd.eq_def]
  simp only [JsonText.backslash, JsonText.quote]
  rfl

theorem hexDigit_plain {c : UInt8} {d : ℕ} (h : JsonText.hexValue c = some d) :
    c ≠ JsonText.quote ∧ c ≠ JsonText.backslash := by
  constructor
  · rintro rfl
    cases h
  · rintro rfl
    cases h

/-- Four digits have values. -/
theorem unitValue_eq_some {h1 h2 h3 h4 : UInt8} {n : ℕ} (h : JsonText.unitValue [h1, h2, h3, h4] = some n) :
    ∃ d1 d2 d3 d4, JsonText.hexValue h1 = some d1 ∧ JsonText.hexValue h2 = some d2 ∧
      JsonText.hexValue h3 = some d3 ∧ JsonText.hexValue h4 = some d4 ∧
      n = 16 * (16 * (16 * d1 + d2) + d3) + d4 := by
  simp only [JsonText.unitValue, List.foldlM_cons, List.foldlM_nil, Option.bind_eq_bind,
    Option.bind_eq_some_iff, Option.map_eq_some_iff, Option.pure_def, Option.some.injEq] at h
  obtain ⟨_, ⟨d1, h1, rfl⟩, _, ⟨d2, h2, rfl⟩, _, ⟨d3, h3, rfl⟩, _, ⟨d4, h4, rfl⟩, rfl⟩ := h
  exact ⟨d1, d2, d3, d4, h1, h2, h3, h4, by omega⟩

theorem stringEnd_unicodeText {h1 h2 h3 h4 : UInt8} {n : ℕ}
    (hn : JsonText.unitValue [h1, h2, h3, h4] = some n) (t : Bytes) :
    stringEnd (JsonText.unicodeText h1 h2 h3 h4 ++ t) = (stringEnd t).map fun r => (r.1 + 6, r.2 + 1) := by
  obtain ⟨d1, d2, d3, d4, hd1, hd2, hd3, hd4, -⟩ := unitValue_eq_some hn
  rw [JsonText.unicodeText]
  simp only [List.cons_append, List.nil_append]
  rw [stringEnd_escape, stringEnd_plain (hexDigit_plain hd1).1 (hexDigit_plain hd1).2,
    stringEnd_plain (hexDigit_plain hd2).1 (hexDigit_plain hd2).2,
    stringEnd_plain (hexDigit_plain hd3).1 (hexDigit_plain hd3).2,
    stringEnd_plain (hexDigit_plain hd4).1 (hexDigit_plain hd4).2]
  simp only [Option.map_map, Function.comp_def]

/-- The first loop finds the quote behind such a text, and leaves room for its string. -/
theorem stringEnd_reads {t s : Bytes} (h : Reads t s) (tail : Bytes) :
    ∃ k, stringEnd (t ++ JsonText.quote :: tail) = some (t.length, k) ∧ s.length + k ≤ t.length := by
  induction h with
  | nil => exact ⟨0, by rw [List.nil_append, stringEnd.eq_def]; exact if_pos rfl, le_rfl⟩
  | plain hq hb h ih =>
    obtain ⟨k, hend, hroom⟩ := ih
    refine ⟨k, ?_, by simp only [List.length_cons]; omega⟩
    rw [List.cons_append, stringEnd_plain hq hb, hend]
    rfl
  | short he h ih =>
    obtain ⟨k, hend, hroom⟩ := ih
    refine ⟨k + 1, ?_, by simp only [List.length_cons]; omega⟩
    rw [List.cons_append, List.cons_append, stringEnd_escape, hend]
    rfl
  | @unit h1 h2 h3 h4 n bytes t s hn _ hbytes h ih =>
    obtain ⟨k, hend, hroom⟩ := ih
    have hfour := (length_encodeUtf8 hbytes).2.1
    refine ⟨k + 1, ?_, ?_⟩
    · rw [List.append_assoc, stringEnd_unicodeText hn, hend, List.length_append, Nat.add_comm]
      rfl
    · rw [List.length_append, List.length_append, JsonText.unicodeText]
      simp only [List.length_cons, List.length_nil]
      omega
  | @pair h1 h2 h3 h4 l1 l2 l3 l4 high low bytes t s hhigh _ hlow _ hbytes h ih =>
    obtain ⟨k, hend, hroom⟩ := ih
    have hfour := (length_encodeUtf8 hbytes).2.1
    refine ⟨k + 2, ?_, ?_⟩
    · rw [List.append_assoc, List.append_assoc, stringEnd_unicodeText hhigh, stringEnd_unicodeText hlow, hend,
        List.length_append, List.length_append, Option.map_some, Option.map_some]
      simp only [JsonText.unicodeText, List.length_cons, List.length_nil]
      congr 2
      omega
    · rw [List.length_append, List.length_append, List.length_append, JsonText.unicodeText,
        JsonText.unicodeText]
      simp only [List.length_cons, List.length_nil]
      omega

/-! ## The second loop -/

theorem parseHex4_eq {h1 h2 h3 h4 : UInt8} {n : ℕ} (hn : JsonText.unitValue [h1, h2, h3, h4] = some n)
    (t : Bytes) : parseHex4 (h1 :: h2 :: h3 :: h4 :: t) = .ok n := by
  obtain ⟨d1, d2, d3, d4, hd1, hd2, hd3, hd4, rfl⟩ := unitValue_eq_some hn
  simp only [parseHex4, parseHexLoop, readAt, List.getElem?_cons_zero, ok_bind, hd1, hd2, hd3, hd4,
    List.drop_succ_cons, List.drop_zero]
  simp only [if_false, if_true, Nat.shiftLeft_eq, Nat.succ_ne_zero]
  congr 1
  omega

/-- A code unit that is no half of a pair. -/
theorem utf16LiteralToUtf8_unit {h1 h2 h3 h4 : UInt8} {n left : ℕ} {bytes : Bytes}
    (hn : JsonText.unitValue [h1, h2, h3, h4] = some n) (hsurrogate : ¬ (0xD800 ≤ n ∧ n ≤ 0xDFFF))
    (hbytes : encodeUtf8 n = some bytes) (hleft : 6 ≤ left) (t : Bytes) :
    utf16LiteralToUtf8 (JsonText.unicodeText h1 h2 h3 h4 ++ t) left = .ok (bytes, 6) := by
  rw [utf16LiteralToUtf8, if_neg (by omega), JsonText.unicodeText]
  simp only [List.cons_append, List.nil_append, List.drop_succ_cons, List.drop_zero]
  rw [parseHex4_eq hn, ok_bind, if_neg (by omega), if_neg (by omega), literalBytes, hbytes]

/-- A surrogate pair. -/
theorem utf16LiteralToUtf8_pair {h1 h2 h3 h4 l1 l2 l3 l4 : UInt8} {high low left : ℕ} {bytes : Bytes}
    (hhigh : JsonText.unitValue [h1, h2, h3, h4] = some high) (hhigh' : 0xD800 ≤ high ∧ high ≤ 0xDBFF)
    (hlow : JsonText.unitValue [l1, l2, l3, l4] = some low) (hlow' : 0xDC00 ≤ low ∧ low ≤ 0xDFFF)
    (hbytes : encodeUtf8 (0x10000 + (((high &&& 0x3FF) <<< 10) ||| (low &&& 0x3FF))) = some bytes)
    (hleft : 12 ≤ left) (t : Bytes) :
    utf16LiteralToUtf8 (JsonText.unicodeText h1 h2 h3 h4 ++ (JsonText.unicodeText l1 l2 l3 l4 ++ t)) left =
      .ok (bytes, 12) := by
  rw [utf16LiteralToUtf8, if_neg (by omega), JsonText.unicodeText, JsonText.unicodeText]
  simp only [List.cons_append, List.nil_append, List.drop_succ_cons, List.drop_zero]
  rw [parseHex4_eq hhigh, ok_bind, if_neg (by omega), if_pos hhigh', secondSequence, if_neg (by omega)]
  simp only [readAt, List.getElem?_cons_zero, List.getElem?_cons_succ, ok_bind, ne_eq, not_true, if_false,
    List.drop_succ_cons, List.drop_zero]
  rw [parseHex4_eq hlow, ok_bind, if_neg (by omega), ok_bind, literalBytes, hbytes]

/-- **The second loop** reads such a text up to the quote. -/
theorem unescapeLoop_reads {t s : Bytes} (h : Reads t s) {room turns : ℕ} {out : Bytes} (tail : Bytes)
    (hturns : t.length < turns) (hroom : out.length + s.length < room) :
    unescapeLoop room turns t.length (t ++ JsonText.quote :: tail) out = .ok (out ++ s) := by
  induction h generalizing turns out with
  | nil =>
    obtain ⟨turns, rfl⟩ : ∃ n, turns = n + 1 := ⟨turns - 1, by omega⟩
    rw [unescapeLoop, List.length_nil, if_pos rfl, put_of_le hroom, ok_bind, List.append_nil]
  | @plain c t s hq hb h ih =>
    obtain ⟨turns, rfl⟩ : ∃ n, turns = n + 1 := ⟨turns - 1, by omega⟩
    simp only [List.length_cons] at hturns hroom ⊢
    have hput : out.length + [c].length ≤ room := by
      rw [List.length_singleton]
      omega
    rw [unescapeLoop, if_neg (Nat.succ_ne_zero _), List.cons_append, readAt_of_eq_some (c := c) rfl, ok_bind,
      if_pos hb, put_of_le hput, ok_bind]
    refine (ih (by omega) ?_).trans ?_
    · rw [List.length_append, List.length_singleton]
      omega
    · rw [List.append_assoc, List.singleton_append]
  | @short e d t s he h ih =>
    obtain ⟨turns, rfl⟩ : ∃ n, turns = n + 1 := ⟨turns - 1, by omega⟩
    simp only [List.length_cons] at hturns hroom ⊢
    have hput : out.length + [d].length ≤ room := by
      rw [List.length_singleton]
      omega
    rw [unescapeLoop, if_neg (Nat.succ_ne_zero _), List.cons_append, List.cons_append,
      readAt_of_eq_some (c := JsonText.backslash) rfl, ok_bind, if_neg (not_not.2 rfl),
      readAt_of_eq_some (c := e) rfl, ok_bind, if_neg (JsonText.shortEscape_ne he), he]
    simp only [put_of_le hput, ok_bind]
    refine (ih (by omega) ?_).trans ?_
    · rw [List.length_append, List.length_singleton]
      omega
    · rw [List.append_assoc, List.singleton_append]
  | @unit h1 h2 h3 h4 n bytes t s hn hsurrogate hbytes h ih =>
    obtain ⟨turns, rfl⟩ : ∃ n, turns = n + 1 := ⟨turns - 1, by omega⟩
    have hlength : (JsonText.unicodeText h1 h2 h3 h4 ++ t).length = t.length + 6 := by
      rw [List.length_append, Nat.add_comm]
      rfl
    rw [List.length_append] at hroom
    have hput : out.length + bytes.length ≤ room := by omega
    rw [hlength] at hturns ⊢
    rw [unescapeLoop, if_neg (Nat.succ_ne_zero _), List.append_assoc,
      readAt_of_eq_some (c := JsonText.backslash) rfl, ok_bind, if_neg (not_not.2 rfl),
      readAt_of_eq_some (c := 117) rfl, ok_bind, if_pos rfl,
      utf16LiteralToUtf8_unit hn hsurrogate hbytes (Nat.le_add_left _ _), ok_bind, put_of_le hput, ok_bind]
    refine (ih (by omega) ?_).trans ?_
    · rw [List.length_append]
      omega
    · rw [List.append_assoc]
  | @pair h1 h2 h3 h4 l1 l2 l3 l4 high low bytes t s hhigh hhigh' hlow hlow' hbytes h ih =>
    obtain ⟨turns, rfl⟩ : ∃ n, turns = n + 1 := ⟨turns - 1, by omega⟩
    have hlength : (JsonText.unicodeText h1 h2 h3 h4 ++ (JsonText.unicodeText l1 l2 l3 l4 ++ t)).length =
        t.length + 12 := by
      rw [List.length_append, List.length_append, JsonText.unicodeText, JsonText.unicodeText]
      simp only [List.length_cons, List.length_nil]
      omega
    rw [List.length_append] at hroom
    have hput : out.length + bytes.length ≤ room := by omega
    rw [hlength] at hturns ⊢
    rw [unescapeLoop, if_neg (Nat.succ_ne_zero _), List.append_assoc, List.append_assoc,
      readAt_of_eq_some (c := JsonText.backslash) rfl, ok_bind, if_neg (not_not.2 rfl),
      readAt_of_eq_some (c := 117) rfl, ok_bind, if_pos rfl,
      utf16LiteralToUtf8_pair hhigh hhigh' hlow hlow' hbytes (Nat.le_add_left _ _), ok_bind, put_of_le hput,
      ok_bind]
    refine (ih (by omega) ?_).trans ?_
    · rw [List.length_append]
      omega
    · rw [List.append_assoc]

/-- **A string** is read as what its text says. -/
theorem parseString_reads {t s tail : Bytes} (h : Reads t s) {b : ParseBuffer}
    (hb : b.rest = JsonText.quote :: (t ++ JsonText.quote :: tail)) :
    parseString b = .ok (s, b.advance (t.length + 2)) := by
  obtain ⟨k, hend, hroom⟩ := stringEnd_reads h tail
  rw [parseString, ParseBuffer.read, hb, readAt_of_eq_some (c := JsonText.quote) rfl, ok_bind,
    if_neg (not_not.2 rfl), List.drop_succ_cons, List.drop_zero, hend]
  simp only
  rw [unescapeLoop_reads h tail (Nat.lt_succ_self _) (by rw [List.length_nil]; omega), ok_bind, List.nil_append]

/-! ## What is printed -/

/-- What is printed for a byte is the byte, a short escape, or the escape of its code unit. -/
def isEscapeOf (c : UInt8) : Bytes → Bool
  | [d] => d == c && d != JsonText.quote && d != JsonText.backslash
  | [b, e] => b == JsonText.backslash && JsonText.shortEscape e == some c
  | [b, u, h1, h2, h3, h4] =>
    [b, u, h1, h2, h3, h4] == JsonText.unicodeText h1 h2 h3 h4 &&
      JsonText.unitValue [h1, h2, h3, h4] == some c.toNat && encodeUtf8 c.toNat == some [c]
  | _ => Bool.false

theorem isEscapeOf_printedByte (c : UInt8) : isEscapeOf c (printedByte c) = Bool.true := by
  revert c
  exact forall_byte (by decide +kernel)

theorem Reads.append_escape {c : UInt8} {escape t s : Bytes} (hescape : isEscapeOf c escape = Bool.true)
    (h : Reads t s) : Reads (escape ++ t) (c :: s) := by
  match escape, hescape with
  | [d], hd =>
    simp only [isEscapeOf, Bool.and_eq_true, beq_iff_eq, bne_iff_ne] at hd
    obtain ⟨⟨rfl, hq⟩, hb⟩ := hd
    exact .plain hq hb h
  | [b, e], he =>
    simp only [isEscapeOf, Bool.and_eq_true, beq_iff_eq] at he
    obtain ⟨rfl, he⟩ := he
    exact .short he h
  | [b, u, h1, h2, h3, h4], hu =>
    simp only [isEscapeOf, Bool.and_eq_true, beq_iff_eq] at hu
    obtain ⟨⟨htext, hn⟩, hbytes⟩ := hu
    rw [htext]
    refine .unit hn (fun hsurrogate => ?_) hbytes h
    have := c.toNat_lt
    omega

/-- **What is printed** for a string is read as the string. -/
theorem reads_printed (s : Bytes) : Reads (s.flatMap printedByte) s := by
  induction s with
  | nil => exact .nil
  | cons c s ih => exact ih.append_escape (isEscapeOf_printedByte c)

end Json
end Arws

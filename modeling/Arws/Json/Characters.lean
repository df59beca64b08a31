import Arws.Json.Strings

/-!
# Unicode characters in strings

A text of Unicode characters can be written between quotes in many ways: each character in UTF-8, as a short
escape, or as the escape of its code unit or of its surrogate pair.  The parser reads each of them as the UTF-8
of the text.

* `encodeUtf8_char` — the bytes of a code point are the UTF-8 of its character.
* `Spells` — the ways to write a text.  `reads_of_spells`: how they are read.
-/

set_option autoImplicit false

namespace Arws
namespace Json

open CString Checked

/-! ## The bytes of a code point -/

/-- A byte behind the first. -/
theorem continuation_eq (n : ℕ) : ((n ||| 0x80) &&& 0xBF).toUInt8 = UInt8.ofNat (n % 64 + 0x80) := by
  have hbyte : ∀ c : UInt8, (c ||| 0x80) &&& 0xBF = UInt8.ofNat (c.toNat % 64 + 0x80) :=
    forall_byte (by decide +kernel)
  show UInt8.ofNat ((n ||| 0x80) &&& 0xBF) = _
  rw [UInt8.ofNat_and, UInt8.ofNat_or]
  refine (hbyte (UInt8.ofNat n)).trans ?_
  rw [UInt8.toNat_ofNat', Nat.mod_mod_of_dvd _ (by decide)]

/-- The first byte, with what tells how many follow it. -/
theorem first_eq {left bits mark : ℕ} (hleft : left < bits)
    (hmark : ∀ n < bits, (n ||| mark) &&& 0xFF = n % bits + mark) :
    ((left ||| mark) &&& 0xFF).toUInt8 = UInt8.ofNat (left % bits + mark) :=
  congrArg UInt8.ofNat (hmark left hleft)

theorem toNat_le (c : Char) : c.toNat ≤ 0x10FFFF := by
  rcases c.valid with h | h
  · change c.toNat < 0xD800 at h
    omega
  · have := h.2
    change c.toNat < 0x110000 at this
    omega

/-- **A code point** becomes the UTF-8 of its character. -/
theorem encodeUtf8_char (c : Char) : encodeUtf8 c.toNat = some (String.utf8EncodeChar c) := by
  have hmax := toNat_le c
  have h6 : c.toNat >>> 6 = c.toNat / 64 := Nat.shiftRight_eq_div_pow ..
  have h12 : (c.toNat / 64) >>> 6 = c.toNat / 4096 :=
    (Nat.shiftRight_eq_div_pow ..).trans (Nat.div_div_eq_div_mul ..)
  have h18 : (c.toNat / 4096) >>> 6 = c.toNat / 262144 :=
    (Nat.shiftRight_eq_div_pow ..).trans (Nat.div_div_eq_div_mul ..)
  rw [encodeUtf8, String.utf8EncodeChar]
  show _ = some (ite (c.toNat ≤ 0x7F) _ (ite (c.toNat ≤ 0x7FF) _ (ite (c.toNat ≤ 0xFFFF) _ _)))
  by_cases hone : c.toNat < 0x80
  · rw [if_pos hone, if_pos (show c.toNat ≤ 0x7F by omega), Nat.and_two_pow_sub_one_eq_mod _ 7,
      Nat.mod_eq_of_lt hone]
    rfl
  rw [if_neg hone, if_neg (show ¬ c.toNat ≤ 0x7F by omega)]
  simp only [continuationBytes, h6, h12, h18, continuation_eq, List.nil_append, List.cons_append]
  by_cases htwo : c.toNat < 0x800
  · rw [if_pos htwo, if_pos (show c.toNat ≤ 0x7FF by omega),
      first_eq (show c.toNat / 64 < 0x20 by omega) (by decide)]
    rfl
  rw [if_neg htwo, if_neg (show ¬ c.toNat ≤ 0x7FF by omega)]
  by_cases hthree : c.toNat < 0x10000
  · rw [if_pos hthree, if_pos (show c.toNat ≤ 0xFFFF by omega),
      first_eq (show c.toNat / 4096 < 0x10 by omega) (by decide)]
    rfl
  · rw [if_neg hthree, if_pos hmax, if_neg (show ¬ c.toNat ≤ 0xFFFF by omega),
      first_eq (show c.toNat / 262144 < 0x08 by omega) (by decide)]
    rfl

/-- The code point of a surrogate pair. -/
theorem surrogatePair_eq {high low : ℕ} (hhigh : 0xD800 ≤ high ∧ high ≤ 0xDBFF)
    (hlow : 0xDC00 ≤ low ∧ low ≤ 0xDFFF) :
    0x10000 + (((high &&& 0x3FF) <<< 10) ||| (low &&& 0x3FF)) =
      0x10000 + (high - 0xD800) * 0x400 + (low - 0xDC00) := by
  rw [Nat.and_two_pow_sub_one_eq_mod _ 10, Nat.and_two_pow_sub_one_eq_mod _ 10,
    ← Nat.shiftLeft_add_eq_or_of_lt (Nat.mod_lt _ (by decide)), Nat.shiftLeft_eq]
  omega

/-! ## The ways to write a text -/

/-- The bytes of a text. -/
def utf8Bytes (s : List Char) : Bytes := s.flatMap String.utf8EncodeChar

/-- A text as it may stand between the quotes. -/
inductive Spells : Bytes → List Char → Prop
  | nil : Spells [] []
  | plain {c : Char} {t : Bytes} {s : List Char} (hc : c ≠ '"' ∧ c ≠ '\\') (h : Spells t s) :
      Spells (String.utf8EncodeChar c ++ t) (c :: s)
  | short {e : UInt8} {c : Char} {t : Bytes} {s : List Char}
      (he : (JsonText.shortEscape e).map UInt8.toNat = some c.toNat) (h : Spells t s) :
      Spells (JsonText.backslash :: e :: t) (c :: s)
  | unit {h1 h2 h3 h4 : UInt8} {c : Char} {t : Bytes} {s : List Char}
      (hn : JsonText.unitValue [h1, h2, h3, h4] = some c.toNat) (h : Spells t s) :
      Spells (JsonText.unicodeText h1 h2 h3 h4 ++ t) (c :: s)
  | pair {h1 h2 h3 h4 l1 l2 l3 l4 : UInt8} {high low : ℕ} {c : Char} {t : Bytes} {s : List Char}
      (hhigh : JsonText.unitValue [h1, h2, h3, h4] = some high) (hhigh' : 0xD800 ≤ high ∧ high ≤ 0xDBFF)
      (hlow : JsonText.unitValue [l1, l2, l3, l4] = some low) (hlow' : 0xDC00 ≤ low ∧ low ≤ 0xDFFF)
      (hc : c.toNat = 0x10000 + (high - 0xD800) * 0x400 + (low - 0xDC00)) (h : Spells t s) :
      Spells (JsonText.unicodeText h1 h2 h3 h4 ++ (JsonText.unicodeText l1 l2 l3 l4 ++ t)) (c :: s)

theorem Reads.append_plain {bytes t s : Bytes}
    (hbytes : ∀ b ∈ bytes, b ≠ JsonText.quote ∧ b ≠ JsonText.backslash) (h : Reads t s) :
    Reads (bytes ++ t) (bytes ++ s) := by
  induction bytes with
  | nil => exact h
  | cons b bytes ih =>
    have hb := hbytes b (List.mem_cons_self ..)
    exact .plain hb.1 hb.2 (ih fun b hb => hbytes b (List.mem_cons_of_mem _ hb))

/-- The bytes of a character that takes more than one are not in ASCII. -/
theorem not_ascii_of_mem {c : Char} (hc : 0x80 ≤ c.toNat) {b : UInt8} (hb : b ∈ String.utf8EncodeChar c) :
    128 ≤ b.toNat := by
  have hbyte : ∀ n mark : ℕ, 128 ≤ mark → n + mark < 256 → 128 ≤ (UInt8.ofNat (n + mark)).toNat := by
    intro n mark hmark hlt
    rw [UInt8.toNat_ofNat', Nat.mod_eq_of_lt hlt]
    omega
  rw [String.utf8EncodeChar] at hb
  change b ∈ ite (c.toNat ≤ 0x7F) _ (ite (c.toNat ≤ 0x7FF) _ (ite (c.toNat ≤ 0xFFFF) _ _)) at hb
  rw [if_neg (by omega)] at hb
  split_ifs at hb
  all_goals
    simp only [List.mem_cons, List.not_mem_nil, or_false] at hb
    rcases hb with rfl | hb
    · exact hbyte _ _ (by decide) (by omega)
    · rcases hb with rfl | rfl | rfl
      all_goals exact hbyte _ _ (by decide) (by omega)

/-- A character that is neither the quote nor the backslash has neither among its bytes. -/
theorem plain_of_mem {c : Char} (hc : c ≠ '"' ∧ c ≠ '\\') {b : UInt8} (hb : b ∈ String.utf8EncodeChar c) :
    b ≠ JsonText.quote ∧ b ≠ JsonText.backslash := by
  by_cases hascii : c.toNat < 0x80
  · have heq : String.utf8EncodeChar c = [UInt8.ofNat c.toNat] := if_pos (Nat.le_of_lt_succ hascii)
    rw [heq, List.mem_singleton] at hb
    have hnat : b.toNat = c.toNat := by
      rw [hb, UInt8.toNat_ofNat', Nat.mod_eq_of_lt (by omega)]
    constructor
    · rintro rfl
      exact hc.1 (Char.toNat_inj.1 hnat.symm)
    · rintro rfl
      exact hc.2 (Char.toNat_inj.1 hnat.symm)
  · have hbig := not_ascii_of_mem (Nat.le_of_not_lt hascii) hb
    constructor
    · rintro rfl
      exact absurd hbig (by decide)
    · rintro rfl
      exact absurd hbig (by decide)

/-- A character is no surrogate. -/
theorem not_surrogate (c : Char) : ¬ (0xD800 ≤ c.toNat ∧ c.toNat ≤ 0xDFFF) := by
  rcases c.valid with h | h
  · intro hc
    change c.toNat < 0xD800 at h
    omega
  · intro hc
    have := h.1
    change 0xDFFF < c.toNat at this
    omega

/-- **Each way** to write a text is read as its UTF-8. -/
theorem reads_of_spells {t : Bytes} {s : List Char} (h : Spells t s) : Reads t (utf8Bytes s) := by
  induction h with
  | nil => exact .nil
  | plain hc h ih => exact ih.append_plain fun b hb => plain_of_mem hc hb
  | @short e c t s he h ih =>
    obtain ⟨d, hd, hdc⟩ := Option.map_eq_some_iff.1 he
    have hbytes : String.utf8EncodeChar c = [d] := by
      have hone : c.toNat ≤ 0x7F := by
        have hshort : ∀ e : UInt8, ∀ d ∈ JsonText.shortEscape e, d.toNat ≤ 0x7F :=
          forall_byte (by decide +kernel)
        rw [← hdc]
        exact hshort e d hd
      refine (if_pos hone).trans ?_
      show [UInt8.ofNat c.toNat] = [d]
      rw [← hdc, UInt8.ofNat_toNat]
    rw [utf8Bytes, List.flatMap_cons, hbytes]
    exact .short hd ih
  | @unit h1 h2 h3 h4 c t s hn h ih =>
    rw [utf8Bytes, List.flatMap_cons]
    exact .unit hn (not_surrogate c) (encodeUtf8_char c) ih
  | @pair h1 h2 h3 h4 l1 l2 l3 l4 high low c t s hhigh hhigh' hlow hlow' hc h ih =>
    rw [utf8Bytes, List.flatMap_cons]
    refine .pair hhigh hhigh' hlow hlow' ?_ ih
    rw [surrogatePair_eq hhigh' hlow', ← hc]
    exact encodeUtf8_char c

end Json
end Arws

import Arws.Library.CString

/-!
# Strings in JSON texts

What stands between the quotes of a string in a JSON text, and the bytes it is read as.  A string is
UTF-8 and is read byte by byte; an escape `\uXXXX` is read as the bytes of its code unit, and those
of surrogates are not read.

* `Body` — the grammar: no quote and no control character stand for themselves, and each backslash
  begins an escape that is complete.
* `unescape` — the reader.  `body_of_unescape`: it refuses everything else.
-/

set_option autoImplicit false

namespace JsonText

open CString

def quote : UInt8 := 34
def backslash : UInt8 := 92

/-- The letters of the short escapes, and what they stand for. -/
def shortEscape (e : UInt8) : Option UInt8 :=
  if e = 34 then some 34
  else if e = 92 then some 92
  else if e = 47 then some 47
  else if e = 98 then some 8
  else if e = 102 then some 12
  else if e = 110 then some 10
  else if e = 114 then some 13
  else if e = 116 then some 9
  else none

def hexValue (c : UInt8) : Option Nat :=
  if 48 ≤ c ∧ c ≤ 57 then some (c.toNat - 48)
  else if 97 ≤ c ∧ c ≤ 102 then some (c.toNat - 87)
  else if 65 ≤ c ∧ c ≤ 70 then some (c.toNat - 55)
  else none

/-- The code unit that four hexadecimal digits denote. -/
def unitValue (digits : List UInt8) : Option Nat :=
  digits.foldlM (fun n c => (hexValue c).map (16 * n + ·)) 0

/-- A code unit in UTF-8. -/
def utf8 (n : Nat) : Option Bytes :=
  if n < 0x80 then some [n.toUInt8]
  else if n < 0x800 then some [(0xC0 + n / 64).toUInt8, (0x80 + n % 64).toUInt8]
  else if 0xD800 ≤ n ∧ n < 0xE000 then none
  else some [(0xE0 + n / 4096).toUInt8, (0x80 + n / 64 % 64).toUInt8, (0x80 + n % 64).toUInt8]

/-- A backslash, the letter `u` and four digits. -/
def unicodeText (h1 h2 h3 h4 : UInt8) : Bytes := [backslash, 117, h1, h2, h3, h4]

/-- What may stand between the quotes. -/
inductive Body : Bytes → Prop
  | nil : Body []
  | plain {c : UInt8} {t : Bytes} (hq : c ≠ quote) (hb : c ≠ backslash) (hc : 0x20 ≤ c)
      (h : Body t) : Body (c :: t)
  | short {e d : UInt8} {t : Bytes} (he : shortEscape e = some d) (h : Body t) :
      Body (backslash :: e :: t)
  | unicode {h1 h2 h3 h4 : UInt8} {t : Bytes} (hn : (unitValue [h1, h2, h3, h4]).isSome = true)
      (h : Body t) : Body (unicodeText h1 h2 h3 h4 ++ t)

/-- The bytes that a text between quotes is read as. -/
def unescape : Bytes → Option Bytes
  | [] => some []
  | c :: t =>
    if c = quote ∨ c < 0x20 then none
    else if c = backslash then
      match t with
      | [] => none
      | e :: t =>
        if e = 117 then
          match t with
          | h1 :: h2 :: h3 :: h4 :: t =>
            ((unitValue [h1, h2, h3, h4]).bind utf8).bind fun bytes => (unescape t).map (bytes ++ ·)
          | _ => none
        else (shortEscape e).bind fun d => (unescape t).map (d :: ·)
    else (unescape t).map (c :: ·)

theorem unescape_plain {c : UInt8} (hq : c ≠ quote) (hb : c ≠ backslash) (hc : 0x20 ≤ c)
    (t : Bytes) : unescape (c :: t) = (unescape t).map (c :: ·) := by
  rw [unescape.eq_def]
  simp [hq, hb, UInt8.not_lt.2 hc]

theorem shortEscape_ne {e d : UInt8} (h : shortEscape e = some d) : e ≠ 117 := by
  rintro rfl
  simp [shortEscape] at h

theorem unescape_short {e d : UInt8} (h : shortEscape e = some d) (t : Bytes) :
    unescape (backslash :: e :: t) = (unescape t).map (d :: ·) := by
  rw [unescape.eq_def]
  simp [shortEscape_ne h, h, quote, backslash]

theorem unescape_unicode {h1 h2 h3 h4 : UInt8} {n : Nat} {bytes : Bytes}
    (hn : unitValue [h1, h2, h3, h4] = some n) (hbytes : utf8 n = some bytes) (t : Bytes) :
    unescape (unicodeText h1 h2 h3 h4 ++ t) = (unescape t).map (bytes ++ ·) := by
  rw [unescape.eq_def]
  simp [unicodeText, hn, hbytes, quote, backslash]

/-- **Only well-formed texts are read.** -/
theorem body_of_unescape {t s : Bytes} (h : unescape t = some s) : Body t := by
  fun_induction unescape t generalizing s with
  | case1 => exact .nil
  | case2 | case3 | case5 => simp at h
  | case4 h1 h2 h3 h4 t _ ih =>
    obtain ⟨bytes, hbytes, h⟩ := Option.bind_eq_some_iff.1 h
    obtain ⟨n, hn, -⟩ := Option.bind_eq_some_iff.1 hbytes
    obtain ⟨s, hs, -⟩ := Option.map_eq_some_iff.1 h
    exact .unicode (Option.isSome_of_eq_some hn) (ih hs)
  | case6 e t _ _ ih =>
    obtain ⟨d, hd, h⟩ := Option.bind_eq_some_iff.1 h
    obtain ⟨s, hs, -⟩ := Option.map_eq_some_iff.1 h
    exact .short hd (ih hs)
  | case7 c t hc hb ih =>
    obtain ⟨s, hs, -⟩ := Option.map_eq_some_iff.1 h
    rw [not_or, UInt8.not_lt] at hc
    exact .plain hc.1 hb hc.2 (ih hs)

end JsonText

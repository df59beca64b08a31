import Arws.Library.Checked
import Arws.Library.JsonText

/-!
# The JSON parser

`cJSON_Parse` and what it calls.  The text is a memory area that is read at the offset of the parse buffer; a
byte read behind its end, and one written behind the area that `parse_string` has allocated, stops the model.

The recursion of `parse_value` is bounded by the nesting limit, and its loops by the length of the text.
The allocator gives what it is asked for: a failing `malloc` would end the parse without an item.
-/

set_option autoImplicit false

namespace Arws
namespace Json

open CString Checked

/-- `CJSON_NESTING_LIMIT`. -/
def nestingLimit : ℕ := 1000

/-- What the C library does with a `double`. -/
structure Doubles (D : Type) where
  /-- `strtod`: the number, and how many bytes it took; nothing if there is none. -/
  strtod : Bytes → Option (D × ℕ)
  strtod_taken : ∀ s d n, strtod s = some (d, n) → 0 < n ∧ n ≤ s.length
  /-- `isnan(d) || isinf(d)`. -/
  notFinite : D → Bool
  /-- `valueint`: the number as an `int`, with saturation. -/
  valueint : D → Int
  valueint_fits : ∀ d, -2 ^ 31 ≤ valueint d ∧ valueint d < 2 ^ 31
  /-- `d == (double) n`. -/
  equals : D → Int → Bool
  /-- What `%1.15g` and `%1.17g` print. -/
  print15 : D → Bytes
  print17 : D → Bytes
  print15_ne_zero : ∀ d, (0 : UInt8) ∉ print15 d
  print17_ne_zero : ∀ d, (0 : UInt8) ∉ print17 d
  /-- `sscanf` with `%lg`. -/
  scan : Bytes → Option D
  /-- `compare_double`. -/
  compareDouble : D → D → Bool

/-- `cJSON`: an item with what its type makes use of.  The children of an object have names. -/
inductive Item (D : Type)
  | null
  | false
  | true
  | number (valuedouble : D)
  | string (valuestring : Bytes)
  | raw (valuestring : Bytes)
  | array (child : List (Item D))
  | object (child : List (Bytes × Item D))

/-! ## The parse buffer -/

structure ParseBuffer where
  content : Bytes
  offset : ℕ
  depth : ℕ

namespace ParseBuffer

/-- What is left to read. -/
def rest (b : ParseBuffer) : Bytes := b.content.drop b.offset

def canRead (b : ParseBuffer) (size : ℕ) : Prop := b.offset + size ≤ b.content.length

def canAccessAtIndex (b : ParseBuffer) (index : ℕ) : Prop := b.offset + index < b.content.length

instance (b : ParseBuffer) (size : ℕ) : Decidable (b.canRead size) :=
  inferInstanceAs (Decidable (_ ≤ _))

instance (b : ParseBuffer) (index : ℕ) : Decidable (b.canAccessAtIndex index) :=
  inferInstanceAs (Decidable (_ < _))

def read (b : ParseBuffer) (index : ℕ) : Except Stop UInt8 := readAt b.rest index

def advance (b : ParseBuffer) (n : ℕ) : ParseBuffer := { b with offset := b.offset + n }

/-- Whether a word stands at the offset. -/
def readsWord (b : ParseBuffer) (word : Bytes) : Prop :=
  b.canRead word.length ∧ b.rest.take word.length = word

instance (b : ParseBuffer) (word : Bytes) : Decidable (b.readsWord word) :=
  inferInstanceAs (Decidable (_ ∧ _))

/-- Whether a byte stands at the offset. -/
def readsByte (b : ParseBuffer) (c : UInt8) : Except Stop Bool :=
  if b.canAccessAtIndex 0 then (b.read 0).map (· == c) else .ok Bool.false

end ParseBuffer

/-- `buffer_skip_whitespace`: it does not leave the text. -/
def bufferSkipWhitespace (b : ParseBuffer) : ParseBuffer :=
  if b.canAccessAtIndex 0 then
    let skipped := b.advance (b.rest.takeWhile (· ≤ 32)).length
    if skipped.offset = skipped.content.length then { skipped with offset := skipped.offset - 1 } else skipped
  else b

/-- `skip_utf8_bom`. -/
def skipUtf8Bom (b : ParseBuffer) : ParseBuffer :=
  if b.canAccessAtIndex 4 ∧ b.rest.take 3 = [0xEF, 0xBB, 0xBF] then b.advance 3 else b

/-! ## Numbers -/

def isNumberChar (c : UInt8) : Bool :=
  (48 ≤ c && c ≤ 57) || c == 43 || c == 45 || c == 101 || c == 69 || c == 46

def parseNumber {D : Type} (ops : Doubles D) (b : ParseBuffer) : Except Stop (Item D × ParseBuffer) :=
  match ops.strtod (b.rest.takeWhile isNumberChar) with
  | none => .error .refused
  | some (number, taken) => .ok (.number number, b.advance taken)

/-! ## Strings -/

/-- The loop of `parse_hex4`, with the digits that are still to be read. -/
def parseHexLoop : ℕ → ℕ → Bytes → Except Stop ℕ
  | 0, h, _ => .ok h
  | digits + 1, h, m => do
    let c ← readAt m 0
    match JsonText.hexValue c with
    | some d => parseHexLoop digits (if digits = 0 then h + d else (h + d) <<< 4) (m.drop 1)
    | none => .ok 0

/-- `parse_hex4`: zero if one of the four is no digit. -/
def parseHex4 (m : Bytes) : Except Stop ℕ := parseHexLoop 4 0 m

/-- The bytes behind the first of a code point in UTF-8, and what is left of it for the first. -/
def continuationBytes : ℕ → ℕ → Bytes × ℕ
  | 0, codepoint => ([], codepoint)
  | n + 1, codepoint =>
    let (bytes, left) := continuationBytes n (codepoint >>> 6)
    (bytes ++ [((codepoint ||| 0x80) &&& 0xBF).toUInt8], left)

/-- A code point in UTF-8, as `utf16_literal_to_utf8` writes it; nothing if it is too large. -/
def encodeUtf8 (codepoint : ℕ) : Option Bytes :=
  if codepoint < 0x80 then some [(codepoint &&& 0x7F).toUInt8]
  else
    let encode := fun n firstByteMark =>
      let (bytes, left) := continuationBytes n codepoint
      some (((left ||| firstByteMark) &&& 0xFF).toUInt8 :: bytes)
    if codepoint < 0x800 then encode 1 0xC0
    else if codepoint < 0x10000 then encode 2 0xE0
    else if codepoint ≤ 0x10FFFF then encode 3 0xF0
    else none

/-- The second half of a surrogate pair: the code unit that it denotes. -/
def secondSequence (m : Bytes) (left : ℕ) : Except Stop ℕ :=
  if left < 6 then .error .refused
  else do
    let c ← readAt m 0
    if c ≠ JsonText.backslash then .error .refused
    else do
      let u ← readAt m 1
      if u ≠ 117 then .error .refused
      else do
        let secondCode ← parseHex4 (m.drop 2)
        if secondCode < 0xDC00 ∨ 0xDFFF < secondCode then .error .refused else .ok secondCode

/-- The bytes of a code point, with how long its literal is. -/
def literalBytes (codepoint sequenceLength : ℕ) : Except Stop (Bytes × ℕ) :=
  match encodeUtf8 codepoint with
  | some bytes => .ok (bytes, sequenceLength)
  | none => .error .refused

/-- `utf16_literal_to_utf8`, on the memory at the backslash and with the distance to the closing quote: the
bytes, and how long the literal is.  It gives up on half a surrogate pair. -/
def utf16LiteralToUtf8 (m : Bytes) (left : ℕ) : Except Stop (Bytes × ℕ) :=
  if left < 6 then .error .refused
  else do
    let firstCode ← parseHex4 (m.drop 2)
    if 0xDC00 ≤ firstCode ∧ firstCode ≤ 0xDFFF then .error .refused
    else if 0xD800 ≤ firstCode ∧ firstCode ≤ 0xDBFF then do
      let secondCode ← secondSequence (m.drop 6) (left - 6)
      literalBytes (0x10000 + (((firstCode &&& 0x3FF) <<< 10) ||| (secondCode &&& 0x3FF))) 12
    else literalBytes firstCode 6

/-- The first loop of `parse_string`: how far the closing quote is, and how many backslashes were skipped. -/
def stringEnd : Bytes → Option (ℕ × ℕ)
  | [] => none
  | c :: t =>
    if c = JsonText.quote then some (0, 0)
    else if c = JsonText.backslash then
      match t with
      | [] => none
      | _ :: t => (stringEnd t).map fun (n, skipped) => (n + 2, skipped + 1)
    else (stringEnd t).map fun (n, skipped) => (n + 1, skipped)

/-- The second loop of `parse_string`: the memory at `input_pointer`, the distance to the closing quote, and
what was written into an output of some room. -/
def unescapeLoop (room : ℕ) : ℕ → ℕ → Bytes → Bytes → Except Stop Bytes
  | 0, _, _, _ => .error .unfinished
  | turns + 1, left, m, out =>
    if left = 0 then do
      let _ ← put room out [0]
      .ok out
    else do
      let c ← readAt m 0
      if c ≠ JsonText.backslash then do
        let out ← put room out [c]
        unescapeLoop room turns (left - 1) (m.drop 1) out
      else do
        let e ← readAt m 1
        if e = 117 then do
          let literal ← utf16LiteralToUtf8 m left
          let out ← put room out literal.1
          unescapeLoop room turns (left - literal.2) (m.drop literal.2) out
        else
          match JsonText.shortEscape e with
          | none => .error .refused
          | some d => do
            let out ← put room out [d]
            unescapeLoop room turns (left - 2) (m.drop 2) out

/-- `parse_string`: what stands between the quotes.  The output has room for what is there less one byte for
each backslash that the first loop has skipped, and for the terminator. -/
def parseString (b : ParseBuffer) : Except Stop (Bytes × ParseBuffer) := do
  let c ← b.read 0
  if c ≠ JsonText.quote then .error .refused
  else
    match stringEnd (b.rest.drop 1) with
    | none => .error .refused
    | some (n, skipped) => do
      let out ← unescapeLoop (n + 1 - skipped + 1) (n + 1) n (b.rest.drop 1) []
      .ok (out, b.advance (n + 2))

/-! ## Arrays and objects -/

section Children

variable {D : Type} (parseValue : ParseBuffer → Except Stop (Item D × ParseBuffer))

/-- What stands behind a child: a comma, and the loop goes on, or the closing byte. -/
def parseRest {α : Type} (closing : UInt8) (child : α) (b : ParseBuffer)
    (loop : ParseBuffer → Except Stop (List α × ParseBuffer)) : Except Stop (List α × ParseBuffer) := do
  let comma ← b.readsByte 44
  if comma then do
    let (children, b) ← loop b
    .ok (child :: children, b)
  else do
    let closed ← b.readsByte closing
    if closed then .ok ([child], b) else .error .refused

/-- The loop of `parse_array`. -/
def parseElements : ℕ → ParseBuffer → Except Stop (List (Item D) × ParseBuffer)
  | 0, _ => .error .unfinished
  | turns + 1, b => do
    let (element, b) ← parseValue (bufferSkipWhitespace (b.advance 1))
    parseRest 93 element (bufferSkipWhitespace b) (parseElements turns)

/-- The loop of `parse_object`. -/
def parseMembers : ℕ → ParseBuffer → Except Stop (List (Bytes × Item D) × ParseBuffer)
  | 0, _ => .error .unfinished
  | turns + 1, b =>
    if b.canAccessAtIndex 1 then do
      let (name, b) ← parseString (bufferSkipWhitespace (b.advance 1))
      let b := bufferSkipWhitespace b
      let colon ← b.readsByte 58
      if colon then do
        let (value, b) ← parseValue (bufferSkipWhitespace (b.advance 1))
        parseRest 125 (name, value) (bufferSkipWhitespace b) (parseMembers turns)
      else .error .refused
    else .error .refused

/-- What `parse_array` and `parse_object` have in common behind the opening byte: no children, or the loop,
from the byte in front of the first. -/
def parseChildren {α : Type} (closing : UInt8) (b : ParseBuffer)
    (loop : ℕ → ParseBuffer → Except Stop (List α × ParseBuffer)) :
    Except Stop (List α × ParseBuffer) := do
  let inner := bufferSkipWhitespace { b.advance 1 with depth := b.depth + 1 }
  let empty ← inner.readsByte closing
  if empty then .ok ([], { inner.advance 1 with depth := b.depth })
  else if inner.canAccessAtIndex 0 then do
    let (children, inner) ← loop inner.content.length { inner with offset := inner.offset - 1 }
    .ok (children, { inner.advance 1 with depth := b.depth })
  else .error .refused

def parseArray (b : ParseBuffer) : Except Stop (Item D × ParseBuffer) :=
  if nestingLimit ≤ b.depth then .error .refused
  else do
    let c ← b.read 0
    if c ≠ 91 then .error .refused
    else do
      let (elements, b) ← parseChildren 93 b (parseElements parseValue)
      .ok (.array elements, b)

def parseObject (b : ParseBuffer) : Except Stop (Item D × ParseBuffer) :=
  if nestingLimit ≤ b.depth then .error .refused
  else do
    let opened ← b.readsByte 123
    if opened then do
      let (members, b) ← parseChildren 125 b (parseMembers parseValue)
      .ok (.object members, b)
    else .error .refused

end Children

/-! ## Values -/

variable {D : Type}

/-- `parse_value`, for a number of nested calls. -/
def parseValue (ops : Doubles D) : ℕ → ParseBuffer → Except Stop (Item D × ParseBuffer)
  | 0, _ => .error .unfinished
  | calls + 1, b =>
    if b.readsWord (ascii "null") then .ok (.null, b.advance 4)
    else if b.readsWord (ascii "false") then .ok (.false, b.advance 5)
    else if b.readsWord (ascii "true") then .ok (.true, b.advance 4)
    else if b.canAccessAtIndex 0 then do
      let c ← b.read 0
      if c = JsonText.quote then (parseString b).map fun (s, b) => (.string s, b)
      else if c = 45 ∨ 48 ≤ c ∧ c ≤ 57 then parseNumber ops b
      else if c = 91 then parseArray (parseValue ops calls) b
      else if c = 123 then parseObject (parseValue ops calls) b
      else .error .refused
    else .error .refused

/-- `cJSON_ParseWithLengthOpts`: the item, and where the text goes on. -/
def cJsonParseWithLengthOpts (ops : Doubles D) (value : Bytes) (requireNullTerminated : Bool) :
    Except Stop (Item D × ParseBuffer) :=
  if value.length = 0 then .error .refused
  else do
    let (item, b) ← parseValue ops (nestingLimit + 1) (bufferSkipWhitespace (skipUtf8Bom ⟨value, 0, 0⟩))
    if requireNullTerminated then do
      let b := bufferSkipWhitespace b
      let terminated ← b.readsByte 0
      if terminated then .ok (item, b) else .error .refused
    else .ok (item, b)

/-- `cJSON_Parse`, on a C string: `value` is what stands in front of the terminator that `strlen` finds, and so
has no zero byte.  (A string of the item can have one, from `\u0000`; C functions see it end there.) -/
def cJsonParse (ops : Doubles D) (value : Bytes) : Except Stop (Item D) :=
  (cJsonParseWithLengthOpts ops (value ++ [0]) Bool.false).map (·.1)

end Json
end Arws

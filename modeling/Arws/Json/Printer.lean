import Mathlib.Algebra.GroupWithZero.Nat
import Arws.Json.Parser

/-!
# The JSON printer

`print_value` and what it calls, on the print buffer: what stands in front of its offset, what was written
behind it, and for how much there is room.  `ensure` makes room; a byte that is written without room, and an
offset that passes bytes that nobody has written, stop the model.

A value is printed behind the offset, and the caller's `update_offset` moves the offset behind it.  The
allocator gives what it is asked for: a failing `malloc` or `realloc` would end the print without a text.
-/

set_option autoImplicit false

namespace Arws
namespace Json

open CString Checked

/-- `INT_MAX`. -/
def intMax : ℕ := 2 ^ 31 - 1

structure PrintBuffer where
  /-- The text up to the offset. -/
  text : Bytes
  /-- What was written behind the offset. -/
  ahead : Bytes
  /-- The size of the area. -/
  length : ℕ
  depth : ℕ
  noalloc : Bool
  format : Bool

namespace PrintBuffer

/-- `ensure`: room for so many bytes behind the offset, and for one more. -/
def ensure (p : PrintBuffer) (needed : ℕ) : Except Stop PrintBuffer :=
  if 0 < p.length ∧ p.length ≤ p.text.length then .error .refused
  else if intMax < needed then .error .refused
  else
    let needed := needed + p.text.length + 1
    if needed ≤ p.length then .ok p
    else if p.noalloc then .error .refused
    else if intMax / 2 < needed then
      if needed ≤ intMax then .ok { p with length := intMax } else .error .refused
    else .ok { p with length := needed * 2 }

/-- Bytes that are written behind the offset. -/
def write (p : PrintBuffer) (s : Bytes) : Except Stop PrintBuffer :=
  if p.text.length + s.length ≤ p.length then .ok { p with ahead := s ++ p.ahead.drop s.length }
  else .error .outside

/-- The offset is moved over what was written. -/
def advance (p : PrintBuffer) (n : ℕ) : Except Stop PrintBuffer :=
  if n ≤ p.ahead.length then .ok { p with text := p.text ++ p.ahead.take n, ahead := p.ahead.drop n }
  else .error .outside

/-- `update_offset`: the offset is moved to the terminator. -/
def updateOffset (p : PrintBuffer) : Except Stop PrintBuffer :=
  if 0 ∈ p.ahead then p.advance (cstr p.ahead).length else .error .outside

def setDepth (p : PrintBuffer) (depth : ℕ) : PrintBuffer := { p with depth := depth }

/-- Room for a text, and the text with its terminator; the offset stays. -/
def writeString (p : PrintBuffer) (s : Bytes) : Except Stop PrintBuffer := do
  let p ← p.ensure (s.length + 1)
  p.write (s ++ [0])

/-- The same, and the offset is moved behind the text. -/
def writeBehind (p : PrintBuffer) (s : Bytes) : Except Stop PrintBuffer := do
  let p ← p.ensure (s.length + 1)
  let p ← p.write (s ++ [0])
  p.advance s.length

/-- Room for so many bytes and a text without a terminator; the offset is moved behind it. -/
def writeOver (p : PrintBuffer) (needed : ℕ) (s : Bytes) : Except Stop PrintBuffer := do
  let p ← p.ensure needed
  let p ← p.write s
  p.advance s.length

end PrintBuffer

/-! ## Strings and numbers -/

/-- A byte of a string as `print_string_ptr` writes it. -/
def printedByte (c : UInt8) : Bytes :=
  if 31 < c ∧ c ≠ 34 ∧ c ≠ 92 then [c]
  else
    92 :: (if c = 92 then [92]
      else if c = 34 then [34]
      else if c = 8 then [98]
      else if c = 12 then [102]
      else if c = 10 then [110]
      else if c = 13 then [114]
      else if c = 9 then [116]
      else 117 :: ([48, 48] ++ [hexDigit (c.toNat / 16), hexDigit (c.toNat % 16)]))
where
  /-- A digit of `%04x`. -/
  hexDigit (n : ℕ) : UInt8 := if n < 10 then (48 + n).toUInt8 else (87 + n).toUInt8

/-- How many bytes `print_string_ptr` counts for the escape of a byte. -/
def escapeCharacters (c : UInt8) : ℕ :=
  if c = 34 ∨ c = 92 ∨ c = 8 ∨ c = 12 ∨ c = 10 ∨ c = 13 ∨ c = 9 then 1
  else if c < 32 then 5
  else 0

/-- `print_string_ptr`: the room is counted first, and the text is written then. -/
def printStringPtr (input : Bytes) (p : PrintBuffer) : Except Stop PrintBuffer := do
  let s := cstr input
  let outputLength := s.length + (s.map escapeCharacters).sum
  let p ← p.ensure (outputLength + 3)
  p.write (34 :: s.flatMap printedByte ++ [34, 0])

/-- The text that `print_number` prints for a number. -/
def numberText {D : Type} (ops : Doubles D) (d : D) : Bytes :=
  if ops.notFinite d then ascii "null"
  else if ops.equals d (ops.valueint d) then printDecimal (ops.valueint d)
  else
    match ops.scan (ops.print15 d) with
    | some test => if ops.compareDouble test d then ops.print15 d else ops.print17 d
    | none => ops.print17 d

/-- `print_number`: the text must fit into its temporary buffer. -/
def printNumber {D : Type} (ops : Doubles D) (d : D) (p : PrintBuffer) : Except Stop PrintBuffer :=
  if 25 < (numberText ops d).length then .error .refused
  else p.writeBehind (numberText ops d)

/-! ## Values -/

/-- What stands between the children and behind the names, in a text that is formatted and in one that
is not. -/
def comma (format : Bool) : Bytes := if format then [44, 32] else [44]
def colon (format : Bool) : Bytes := if format then [58, 9] else [58]
def opening (format : Bool) : Bytes := if format then [123, 10] else [123]
def indent (format : Bool) (depth : ℕ) : Bytes := if format then List.replicate depth 9 else []

/-- What stands behind a member of an object. -/
def memberEnd (format : Bool) (last : Bool) : Bytes :=
  (if last then [] else [44]) ++ if format then [10] else []

/-- The comma behind an element, if there is another one. -/
def printComma (last : Bool) (p : PrintBuffer) : Except Stop PrintBuffer :=
  if last then .ok p else p.writeBehind (comma p.format)

/-- The tabulators in front of a name. -/
def printIndent (p : PrintBuffer) : Except Stop PrintBuffer :=
  if p.format then p.writeOver p.depth (indent p.format p.depth) else .ok p

/-- What follows a member: a comma, if there is another one, and a line end. -/
def printMemberEnd (last : Bool) (p : PrintBuffer) : Except Stop PrintBuffer :=
  p.writeBehind (memberEnd p.format last)

variable {D : Type}

mutual

/-- `print_value`, with `print_array` and `print_object`. -/
def printValue (ops : Doubles D) : Item D → PrintBuffer → Except Stop PrintBuffer
  | .null, p => p.writeString (ascii "null")
  | .false, p => p.writeString (ascii "false")
  | .true, p => p.writeString (ascii "true")
  | .number d, p => printNumber ops d p
  | .raw s, p => p.writeString (cstr s)
  | .string s, p => printStringPtr s p
  | .array child, p =>
    if nestingLimit ≤ p.depth then .error .refused
    else do
      let inner ← p.writeOver 1 [91]
      let inner ← printElements ops child (inner.setDepth (p.depth + 1))
      let inner ← inner.ensure 2
      let inner ← inner.write [93, 0]
      .ok (inner.setDepth p.depth)
  | .object child, p =>
    if nestingLimit ≤ p.depth then .error .refused
    else do
      let inner ← p.writeOver ((opening p.format).length + 1) (opening p.format)
      let inner ← printMembers ops child (inner.setDepth (p.depth + 1))
      let inner ← inner.ensure (if p.format then p.depth + 2 else 2)
      let inner ← inner.write (indent p.format p.depth ++ [125, 0])
      .ok (inner.setDepth p.depth)

/-- The loop of `print_array`. -/
def printElements (ops : Doubles D) : List (Item D) → PrintBuffer → Except Stop PrintBuffer
  | [], p => .ok p
  | element :: rest, p => do
    let p ← printValue ops element p
    let p ← p.updateOffset
    let p ← printComma rest.isEmpty p
    printElements ops rest p

/-- The loop of `print_object`. -/
def printMembers (ops : Doubles D) : List (Bytes × Item D) → PrintBuffer → Except Stop PrintBuffer
  | [], p => .ok p
  | (name, value) :: rest, p => do
    let p ← printIndent p
    let p ← printStringPtr name p
    let p ← p.updateOffset
    let p ← p.writeOver (colon p.format).length (colon p.format)
    let p ← printValue ops value p
    let p ← p.updateOffset
    let p ← printMemberEnd rest.isEmpty p
    printMembers ops rest p

end

/-- `print`, from a buffer of 256 bytes: the text, with its terminator. -/
def print (ops : Doubles D) (item : Item D) (format : Bool) : Except Stop Bytes := do
  let p ← printValue ops item ⟨[], [], 256, 0, Bool.false, format⟩
  let p ← p.updateOffset
  .ok (p.text ++ p.ahead.take 1)

/-- `cJSON_Print` and `cJSON_PrintUnformatted`: the string that they return. -/
def cJsonPrint (ops : Doubles D) (item : Item D) : Except Stop Bytes := (print ops item Bool.true).map cstr
def cJsonPrintUnformatted (ops : Doubles D) (item : Item D) : Except Stop Bytes :=
  (print ops item Bool.false).map cstr

end Json
end Arws

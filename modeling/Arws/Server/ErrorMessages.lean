import Arws.Library.GreedyFill
import Arws.Library.JsonText
import Arws.Server.HandleClient

/-!
# Error messages

`json_escape` writes a message between the quotes of a JSON string, and the `arws_send_*` functions
answer with it.  A character for which there is no room is passed over, and the loop goes on behind
it.

* `jsonEscape_eq` — what is written is the escapes of the characters that are kept, from the front
  as long as there is room.
* `jsonEscape_faithful_iff` — it is always shorter than the buffer and well-formed; it is read as
  the beginning of the message if and only if nothing fits behind the first character that does
  not.
* `errorJson_of_le` — the text around it is never cut.
-/

set_option autoImplicit false

namespace Arws
namespace Server

open CString

/-- One turn of the loop in `json_escape`; what `snprintf` formats fits. -/
def jsonEscapeStep (dstSize : Nat) (dst : Bytes) (c : UInt8) : Bytes :=
  let di := dst.length
  if c = 34 then if di + 2 < dstSize then dst ++ [92, 34] else dst
  else if c = 92 then if di + 2 < dstSize then dst ++ [92, 92] else dst
  else if c = 10 then if di + 2 < dstSize then dst ++ [92, 110] else dst
  else if c = 13 then if di + 2 < dstSize then dst ++ [92, 114] else dst
  else if c = 9 then if di + 2 < dstSize then dst ++ [92, 116] else dst
  else if c < 0x20 then
    if di + 6 < dstSize then dst ++ [92, 117, 48, 48, hexDigit (c >>> 4), hexDigit (c &&& 15)]
    else dst
  else dst ++ [c]

/-- The loop, for what is written and what is left of the message. -/
def jsonEscapeLoop (dstSize : Nat) (dst : Bytes) : Bytes → Bytes
  | [] => dst
  | c :: src =>
    if dst.length < dstSize - 1 then jsonEscapeLoop dstSize (jsonEscapeStep dstSize dst c) src
    else dst

/-- `json_escape`: the string it leaves in a buffer of `dstSize` bytes. -/
def jsonEscape (dstSize : Nat) : Option Bytes → Bytes
  | none => []
  | some src => jsonEscapeLoop dstSize [] (cstr src)

/-- The body that an error is reported with. -/
def errorJson (status : Int) (error : Bytes) : Bytes :=
  (ascii "\x7b\"status\":" ++ printDecimal status ++ ascii ",\"error\":\"" ++ error ++
    ascii "\"\x7d").take 511

/-- What the functions for a single status have in common. -/
def sendStatus (status : Int) (fallback : Bytes) (msg : Option Bytes) : Handler :=
  let escaped := jsonEscape 384 msg
  .call (.sendResponse status (ascii "application/json")
    (some (errorJson status (if escaped = [] then fallback else escaped)))) fun _ => .done

def arwsSend400 : Option Bytes → Handler := sendStatus 400 (ascii "Bad Request")
def arwsSend403 : Option Bytes → Handler := sendStatus 403 (ascii "Forbidden")
def arwsSend429 : Option Bytes → Handler := sendStatus 429 (ascii "Too Many Requests")
def arwsSend500 : Option Bytes → Handler := sendStatus 500 (ascii "Internal Server Error")
def arwsSend501 : Option Bytes → Handler := sendStatus 501 (ascii "Not Implemented")
def arwsSend502 : Option Bytes → Handler := sendStatus 502 (ascii "Bad Gateway")
def arwsSend503 : Option Bytes → Handler := sendStatus 503 (ascii "Service Unavailable")

def arwsSend401 (msg : Option Bytes) : Handler :=
  .call (.addHeader (ascii "WWW-Authenticate: Bearer")) fun _ =>
    sendStatus 401 (ascii "Unauthorized") msg

/-- `arws_send_error`, which has no text of its own for an empty message. -/
def arwsSendError (status : Int) (msg : Option Bytes) : Handler :=
  .call (.sendResponse status (ascii "application/json")
    (some (errorJson status (jsonEscape 384 msg)))) fun _ => .done

/-! ## What is written -/

/-- How a character is written. -/
def escaped (c : UInt8) : Bytes :=
  if c = 34 then [92, 34]
  else if c = 92 then [92, 92]
  else if c = 10 then [92, 110]
  else if c = 13 then [92, 114]
  else if c = 9 then [92, 116]
  else if c < 0x20 then [92, 117, 48, 48, hexDigit (c >>> 4), hexDigit (c &&& 15)]
  else [c]

/-- The room a character takes. -/
def escapedLength (c : UInt8) : Nat := (escaped c).length

theorem escapedLength_pos (c : UInt8) : 0 < escapedLength c := by
  rw [escapedLength, escaped]
  split_ifs <;> simp

theorem length_flatMap_escaped (s : Bytes) :
    (s.flatMap escaped).length = GreedyFill.weight escapedLength s := by
  rw [List.length_flatMap]
  rfl

/-- Each of the room checks asks for the room that the character takes. -/
theorem jsonEscapeStep_eq {dstSize : Nat} {dst : Bytes} (h : dst.length < dstSize - 1) (c : UInt8) :
    jsonEscapeStep dstSize dst c =
      if escapedLength c ≤ dstSize - 1 - dst.length then dst ++ escaped c else dst := by
  have hroom : ∀ t : Bytes, (if dst.length + t.length < dstSize then dst ++ t else dst) =
      if t.length ≤ dstSize - 1 - dst.length then dst ++ t else dst :=
    fun t => if_congr (by omega) rfl rfl
  have hone : [c].length ≤ dstSize - 1 - dst.length := by
    rw [List.length_singleton]
    omega
  by_cases h34 : c = 34
  · simpa [jsonEscapeStep, escapedLength, escaped, h34] using hroom [92, 34]
  by_cases h92 : c = 92
  · simpa [jsonEscapeStep, escapedLength, escaped, h92] using hroom [92, 92]
  by_cases h10 : c = 10
  · simpa [jsonEscapeStep, escapedLength, escaped, h10] using hroom [92, 110]
  by_cases h13 : c = 13
  · simpa [jsonEscapeStep, escapedLength, escaped, h13] using hroom [92, 114]
  by_cases h9 : c = 9
  · simpa [jsonEscapeStep, escapedLength, escaped, h9] using hroom [92, 116]
  by_cases hlow : c < 0x20
  · simpa [jsonEscapeStep, escapedLength, escaped, h34, h92, h10, h13, h9, hlow] using
      hroom [92, 117, 48, 48, hexDigit (c >>> 4), hexDigit (c &&& 15)]
  · simp only [jsonEscapeStep, escapedLength, escaped, h34, h92, h10, h13, h9, hlow, if_false,
      if_pos hone]

/-- In a full buffer there is room for no character. -/
theorem fill_full (s : Bytes) : GreedyFill.fill escapedLength 0 s = [] :=
  GreedyFill.fill_eq_nil_iff.2 fun c _ => escapedLength_pos c

theorem jsonEscapeLoop_eq {dstSize : Nat} (src : Bytes) {dst : Bytes}
    (h : dst.length ≤ dstSize - 1) : jsonEscapeLoop dstSize dst src =
      dst ++ (GreedyFill.fill escapedLength (dstSize - 1 - dst.length) src).flatMap escaped := by
  induction src generalizing dst with
  | nil => simp [jsonEscapeLoop, GreedyFill.fill]
  | cons c src ih =>
    rw [jsonEscapeLoop]
    split_ifs with hlt
    · rw [jsonEscapeStep_eq hlt, GreedyFill.fill]
      split_ifs with hc
      · have hlen : (dst ++ escaped c).length = dst.length + escapedLength c := List.length_append
        rw [ih (by omega), hlen, Nat.sub_add_eq, List.flatMap_cons, List.append_assoc]
      · exact ih h
    · rw [show dstSize - 1 - dst.length = 0 by omega, fill_full]
      simp

/-- The characters that are kept. -/
def kept (dstSize : Nat) (src : Bytes) : Bytes :=
  GreedyFill.fill escapedLength (dstSize - 1) (cstr src)

theorem jsonEscape_eq (dstSize : Nat) (src : Bytes) :
    jsonEscape dstSize (some src) = (kept dstSize src).flatMap escaped := by
  rw [jsonEscape, jsonEscapeLoop_eq _ (Nat.zero_le _)]
  rfl

theorem length_jsonEscape_le (dstSize : Nat) (msg : Option Bytes) :
    (jsonEscape dstSize msg).length ≤ dstSize - 1 := by
  cases msg with
  | none => exact Nat.zero_le _
  | some src =>
    rw [jsonEscape_eq, length_flatMap_escaped]
    exact GreedyFill.weight_fill_le _ _

/-! ## Reading it -/

/-- The control characters are written as what they are read as. -/
theorem unitValue_hexDigit : ∀ c : UInt8, c < 0x20 →
    JsonText.unitValue [48, 48, hexDigit (c >>> 4), hexDigit (c &&& 15)] = some c.toNat ∧
      JsonText.utf8 c.toNat = some [c] :=
  forall_byte (by decide +kernel)

theorem unescape_escaped (c : UInt8) (t : Bytes) :
    JsonText.unescape (escaped c ++ t) = (JsonText.unescape t).map (c :: ·) := by
  rw [escaped]
  split_ifs with h34 h92 h10 h13 h9 hlow
  · subst h34
    exact JsonText.unescape_short (by decide) t
  · subst h92
    exact JsonText.unescape_short (by decide) t
  · subst h10
    exact JsonText.unescape_short (by decide) t
  · subst h13
    exact JsonText.unescape_short (by decide) t
  · subst h9
    exact JsonText.unescape_short (by decide) t
  · obtain ⟨hn, hbytes⟩ := unitValue_hexDigit c hlow
    exact JsonText.unescape_unicode hn hbytes t
  · exact JsonText.unescape_plain h34 h92 (UInt8.not_lt.1 hlow) t

/-- Escapes are read as the characters they were written for. -/
theorem unescape_flatMap (s : Bytes) : JsonText.unescape (s.flatMap escaped) = some s := by
  induction s with
  | nil => rfl
  | cons c s ih => rw [List.flatMap_cons, unescape_escaped, ih, Option.map_some]

theorem unescape_jsonEscape (dstSize : Nat) (src : Bytes) :
    JsonText.unescape (jsonEscape dstSize (some src)) = some (kept dstSize src) := by
  rw [jsonEscape_eq, unescape_flatMap]

/-- **What a message in a JSON text is meant to be.** -/
structure Faithful (dstSize : Nat) (src dst : Bytes) : Prop where
  /-- There is room for it and the terminator. -/
  room : dst.length + 1 ≤ dstSize
  /-- No quote, backslash or control character stands for itself, and no escape is cut. -/
  body : JsonText.Body dst
  /-- It is read as the beginning of the message. -/
  reads : ∃ s, JsonText.unescape dst = some s ∧ s <+: src
  /-- If all of the message fits, it is read as the message. -/
  whole : (src.flatMap escaped).length + 1 ≤ dstSize → JsonText.unescape dst = some src

/-- **The message is faithful** if and only if, where it does not fit, no character behind the first
that is passed over takes less room than there is left. -/
theorem jsonEscape_faithful_iff (src : Bytes) {dstSize : Nat} (hsize : 1 ≤ dstSize) :
    Faithful dstSize (cstr src) (jsonEscape dstSize (some src)) ↔
      GreedyFill.Stops escapedLength (dstSize - 1) (cstr src) := by
  rw [← GreedyFill.fill_isPrefix_iff]
  constructor
  · rintro ⟨-, -, ⟨s, hs, hbegins⟩, -⟩
    rw [unescape_jsonEscape, Option.some.injEq] at hs
    subst hs
    exact hbegins
  · intro hbegins
    have hread := unescape_jsonEscape dstSize src
    refine ⟨?_, JsonText.body_of_unescape hread, ⟨_, hread, hbegins⟩, fun hfits => ?_⟩
    · have := length_jsonEscape_le dstSize (some src)
      omega
    · rw [length_flatMap_escaped] at hfits
      rw [hread, kept, GreedyFill.fill_eq_self (by omega)]

/-- The message of a gateway that has no one to ask. -/
theorem jsonEscape_faithful_badGateway :
    Faithful 384 (cstr (ascii "no \"backend\"\n")) (jsonEscape 384 (some (ascii "no \"backend\"\n"))) :=
  (jsonEscape_faithful_iff _ (by decide)).2 (GreedyFill.fill_isPrefix_iff.1 (by decide))

/-- Behind a quote for which there is a byte too little, a letter fits. -/
theorem not_stops_quote (n : Nat) :
    ¬ GreedyFill.Stops escapedLength (n + 1) (List.replicate n 120 ++ [34, 97]) := by
  intro hstops
  have hweight : GreedyFill.weight escapedLength (List.replicate n 120) = n := by
    simp [GreedyFill.weight, escapedLength, escaped]
  have h34 : escapedLength 34 = 2 := rfl
  have h97 : escapedLength 97 = 1 := rfl
  have := hstops (List.replicate n 120) 34 [97] rfl (by omega) (by omega) 97 (by simp)
  omega

theorem jsonEscape_not_faithful : ¬ ∀ (src : Bytes) (dstSize : Nat), 1 ≤ dstSize →
    Faithful dstSize (cstr src) (jsonEscape dstSize (some src)) := by
  intro h
  have hsrc : (0 : UInt8) ∉ List.replicate 382 120 ++ [34, 97] := by
    rw [List.mem_append, List.mem_replicate]
    decide
  obtain ⟨-, -, ⟨s, hs, hbegins⟩, -⟩ := h (List.replicate 382 120 ++ [34, 97]) 384 (by decide)
  rw [unescape_jsonEscape, Option.some.injEq] at hs
  rw [← hs, kept, cstr_eq_self hsrc, GreedyFill.fill_isPrefix_iff] at hbegins
  exact not_stops_quote 382 hbegins

/-! ## The text around it -/

/-- **The text is never cut**: the string and the object are closed, whatever `json_escape` has left of the
message. -/
theorem errorJson_of_le {status : Int} (hlo : -2 ^ 31 ≤ status) (hhi : status < 2 ^ 31) {body : Bytes}
    (h : body.length ≤ 383) : errorJson status body = ascii "\x7b\"status\":" ++ printDecimal status ++
      ascii ",\"error\":\"" ++ body ++ ascii "\"\x7d" := by
  have hstatus := length_printDecimal_int hlo hhi
  rw [errorJson, List.take_of_length_le]
  simp only [List.length_append, show (ascii "\x7b\"status\":").length = 10 from rfl,
    show (ascii ",\"error\":\"").length = 10 from rfl, show (ascii "\"\x7d").length = 2 from rfl]
  omega

end Server
end Arws

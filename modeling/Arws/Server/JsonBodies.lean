import Arws.Json.ReadStrings
import Arws.Json.RoundTrip
import Arws.Server.ErrorMessages
import Arws.Server.Request

/-!
# JSON in requests and responses

What the gateway and its programs say to one another in JSON: the errors of `arws_send_error` and the like, the
answers of `server_send_json`, and the bodies that `parse_json_body` reads.  Whatever is printed into a body is
parsed as what was printed.

* `errors_parsed` — the text of an error is an object with the status and the message.
* `serverSendJson_parsed` — the answers of `server_send_json`.
* `parseJsonBody_printed` — the body of a request, however it arrives and whatever follows it.
-/

set_option autoImplicit false

namespace Arws
namespace Server

open CString Json

variable {D : Type} {ops : Doubles D}

/-! ## Errors -/

/-- `strtod` reads the integers that `%d` prints. -/
structure ReadsIntegers (ops : Doubles D) (ofInt : Int → D) : Prop where
  strtod : ∀ n : Int, -2 ^ 31 ≤ n → n < 2 ^ 31 →
    ops.strtod (printDecimal n) = some (ofInt n, (printDecimal n).length)

/-- The object of an error. -/
def errorItem (ofInt : Int → D) (status : Int) (error : Bytes) : Item D :=
  .object [(ascii "status", .number (ofInt status)), (ascii "error", .string error)]

/-- The message that is sent: what is kept of it, or the text of the status. -/
def sentMessage (fallback : Bytes) (msg : Option Bytes) : Bytes :=
  if msg.elim [] (kept 384) = [] then fallback else msg.elim [] (kept 384)

theorem isEscapeOf_escaped (c : UInt8) : isEscapeOf c (escaped c) = true := by
  revert c
  exact forall_byte (by decide +kernel)

theorem reads_escaped (s : Bytes) : Reads (s.flatMap escaped) s := by
  induction s with
  | nil => exact .nil
  | cons c s ih => exact ih.append_escape (isEscapeOf_escaped c)

theorem jsonEscape_eq_elim (msg : Option Bytes) :
    jsonEscape 384 msg = (msg.elim [] (kept 384)).flatMap escaped := by
  cases msg with
  | none => rfl
  | some src => exact jsonEscape_eq 384 src

theorem flatMap_escaped_eq_nil {s : Bytes} (h : s.flatMap escaped = []) : s = [] := by
  cases s with
  | nil => rfl
  | cons c s =>
    have hpos := escapedLength_pos c
    rw [List.flatMap_cons, List.append_eq_nil_iff] at h
    rw [escapedLength, h.1] at hpos
    exact absurd hpos (Nat.lt_irrefl 0)

theorem printDecimal_ne_nil (n : Int) : printDecimal n ≠ [] := by
  have hpos : (Nat.toDigits 10 n.natAbs).length ≠ 0 := (Nat.length_toDigits_pos (b := 10)).ne'
  rw [printDecimal]
  split_ifs
  · exact List.cons_ne_nil _ _
  · exact fun h => hpos (by rw [List.map_eq_nil_iff.1 h]; rfl)

theorem numberSyntax_printDecimal (n : Int) : NumberSyntax (printDecimal n) where
  chars c hc := by
    have hbyte : ∀ c : UInt8, c = 45 ∨ 48 ≤ c ∧ c ≤ 57 → isNumberChar c = true :=
      forall_byte (by decide +kernel)
    exact hbyte c (mem_printDecimal hc)
  head := by
    obtain ⟨c, u, hcu⟩ := List.exists_cons_of_ne_nil (printDecimal_ne_nil n)
    exact ⟨c, u, hcu, mem_printDecimal (hcu ▸ List.mem_cons_self)⟩

/-- The text of an error, with a spelling of its message in it. -/
theorem denotes_error {ofInt : Int → D} (hops : ReadsIntegers ops ofInt) {status : Int} (hlo : -2 ^ 31 ≤ status)
    (hhi : status < 2 ^ 31) {body error : Bytes} (h : Reads body error) :
    Denotes ops (errorItem ofInt status error)
      (ascii "\x7b\"status\":" ++ printDecimal status ++ ascii ",\"error\":\"" ++ body ++ ascii "\"\x7d") := by
  have hnumber : Denotes ops (.number (ofInt status)) (printDecimal status) :=
    .number (numberSyntax_printDecimal status) (hops.strtod status hlo hhi)
  have hcolon : DenotesColon [58] := @DenotesColon.mk [] [] blank_nil blank_nil
  have herror : Denotes ops (.string error) (JsonText.quote :: (body ++ [JsonText.quote])) := .string h
  have hlast := DenotesMembers.last blank_nil (reads_self (s := ascii "error") (by decide) (by decide)) hcolon
    herror blank_nil
  have hmore := DenotesMembers.more blank_nil (reads_self (s := ascii "status") (by decide) (by decide)) hcolon
    hnumber blank_nil (List.cons_ne_nil _ _) hlast
  have hobject := Denotes.object hmore
  have htext : ascii "\x7b\"status\":" ++ printDecimal status ++ ascii ",\"error\":\"" ++ body ++ ascii "\"\x7d" =
      123 :: ([] ++ JsonText.quote :: (ascii "status" ++ JsonText.quote :: ([58] ++ (printDecimal status ++
        ([] ++ 44 :: ([] ++ JsonText.quote :: (ascii "error" ++ JsonText.quote :: ([58] ++
          (JsonText.quote :: (body ++ [JsonText.quote]) ++ [])))))))) ++ [125]) := by
    have h₁ : ascii "\x7b\"status\":" = 123 :: JsonText.quote :: (ascii "status" ++ [JsonText.quote, 58]) := rfl
    have h₂ : ascii ",\"error\":\"" =
        44 :: JsonText.quote :: (ascii "error" ++ [JsonText.quote, 58, JsonText.quote]) := rfl
    have h₃ : ascii "\"\x7d" = [JsonText.quote, 125] := rfl
    rw [h₁, h₂, h₃]
    simp only [List.append_assoc, List.cons_append, List.nil_append, List.append_nil]
  rw [htext]
  exact hobject

theorem depth_errorItem (ofInt : Int → D) (status : Int) (error : Bytes) :
    (errorItem ofInt status error).depth ≤ nestingLimit := by
  simp [errorItem, Item.depth, depthOfMembers, nestingLimit]

/-- A handler answers with a JSON text, headers aside. -/
inductive Answers (status : Int) (body : Bytes) : Handler → Prop
  | send : Answers status body
      (.call (.sendResponse status (ascii "application/json") (some body)) fun _ => .done)
  | header {line : Bytes} {next : (Call.addHeader line).Answer → Handler}
      (h : ∀ a, Answers status body (next a)) : Answers status body (.call (.addHeader line) next)

theorem sendStatus_parsed {ofInt : Int → D} (hops : ReadsIntegers ops ofInt) {status : Int}
    (hlo : -2 ^ 31 ≤ status) (hhi : status < 2 ^ 31) {fallback : Bytes} (hlength : fallback.length ≤ 383)
    (hq : JsonText.quote ∉ fallback) (hb : JsonText.backslash ∉ fallback) (msg : Option Bytes) :
    ∃ body, Answers status body (sendStatus status fallback msg) ∧
      cJsonParse ops body = .ok (errorItem ofInt status (sentMessage fallback msg)) := by
  refine ⟨_, .send, ?_⟩
  have hmessage : ∃ body, (if jsonEscape 384 msg = [] then fallback else jsonEscape 384 msg) = body ∧
      body.length ≤ 383 ∧ Reads body (sentMessage fallback msg) := by
    have hnil : jsonEscape 384 msg = [] ↔ msg.elim [] (kept 384) = [] := by
      rw [jsonEscape_eq_elim]
      exact ⟨flatMap_escaped_eq_nil, fun h => by rw [h]; rfl⟩
    rw [sentMessage]
    by_cases hempty : msg.elim [] (kept 384) = []
    · rw [if_pos hempty, if_pos (hnil.2 hempty)]
      exact ⟨fallback, rfl, hlength, reads_self hq hb⟩
    · rw [if_neg hempty, if_neg (mt hnil.1 hempty)]
      refine ⟨_, rfl, length_jsonEscape_le 384 msg, ?_⟩
      rw [jsonEscape_eq_elim]
      exact reads_escaped _
  obtain ⟨body, hbody, hle, hreads⟩ := hmessage
  rw [hbody, errorJson_of_le hlo hhi hle]
  exact cJsonParse_text (denotes_error hops hlo hhi hreads) (depth_errorItem ..)

/-- The functions for a single status, with the text of each. -/
def statusErrors : List ((Option Bytes → Handler) × Int × Bytes) :=
  [(arwsSend400, 400, ascii "Bad Request"), (arwsSend401, 401, ascii "Unauthorized"),
    (arwsSend403, 403, ascii "Forbidden"), (arwsSend429, 429, ascii "Too Many Requests"),
    (arwsSend500, 500, ascii "Internal Server Error"), (arwsSend501, 501, ascii "Not Implemented"),
    (arwsSend502, 502, ascii "Bad Gateway"), (arwsSend503, 503, ascii "Service Unavailable")]

/-- **Every error** is sent as an object with the status and the message.  The functions for a single status have a
text for an empty message, and `arws_send_error` has none. -/
theorem errors_parsed {ofInt : Int → D} (hops : ReadsIntegers ops ofInt) (msg : Option Bytes) :
    (∀ e ∈ statusErrors, ∃ body, Answers e.2.1 body (e.1 msg) ∧
      cJsonParse ops body = .ok (errorItem ofInt e.2.1 (sentMessage e.2.2 msg))) ∧
    ∀ status : Int, -2 ^ 31 ≤ status → status < 2 ^ 31 → ∃ body, Answers status body (arwsSendError status msg) ∧
      cJsonParse ops body = .ok (errorItem ofInt status (msg.elim [] (kept 384))) := by
  constructor
  · simp only [statusErrors, List.forall_mem_cons, List.not_mem_nil, false_implies, implies_true, and_true]
    refine ⟨?_, ?_, ?_, ?_, ?_, ?_, ?_, ?_⟩
    case refine_2 =>
      obtain ⟨body, hbody, hparse⟩ := @sendStatus_parsed _ _ _ hops 401 (by decide) (by decide)
        (ascii "Unauthorized") (by decide) (by decide) (by decide) msg
      exact ⟨body, .header fun _ => hbody, hparse⟩
    all_goals exact sendStatus_parsed hops (by decide) (by decide) (by decide) (by decide) (by decide) msg
  · intro status hlo hhi
    have hle := length_jsonEscape_le 384 msg
    refine ⟨_, .send, ?_⟩
    rw [errorJson_of_le hlo hhi hle, jsonEscape_eq_elim]
    exact cJsonParse_text (denotes_error hops hlo hhi (reads_escaped _)) (depth_errorItem ..)

theorem takeWhile_printDecimal (n : Nat) : (printDecimal n).takeWhile isDigit = printDecimal n :=
  List.takeWhile_eq_self_iff.2 fun _ => isDigit_of_mem_printDecimal

theorem strtod_digits (n : Nat) :
    integers.strtod (printDecimal n) = some ((n : Int), (printDecimal n).length) := by
  have hsign : ((printDecimal n).take 1).filter (· == 45) = [] := by
    rw [List.filter_eq_nil_iff]
    intro c hc h45
    have hdigit := isDigit_of_mem_printDecimal (List.mem_of_mem_take hc)
    rw [beq_iff_eq.1 h45] at hdigit
    exact absurd hdigit (by decide)
  simp only [integers, hsign, List.length_nil, List.drop_zero, takeWhile_printDecimal, printDecimal_ne_nil, if_true,
    if_false, digitsValue_printDecimal, Nat.zero_add]

theorem strtod_minus (n : Nat) :
    integers.strtod (45 :: printDecimal n) = some (-(n : Int), (printDecimal n).length + 1) := by
  have hsign : ((45 :: printDecimal n).take 1).filter (· == 45) = [45] := rfl
  simp only [integers, hsign, List.length_cons, List.length_nil, List.drop_succ_cons, List.drop_zero,
    takeWhile_printDecimal, printDecimal_ne_nil, List.cons_ne_nil, if_false, digitsValue_printDecimal, Nat.zero_add,
    Nat.add_comm 1]

theorem readsIntegers_integers : ReadsIntegers integers id where
  strtod n _ _ := by
    obtain ⟨m, rfl | rfl⟩ := n.eq_nat_or_neg
    · exact strtod_digits m
    · rcases Nat.eq_zero_or_pos m with rfl | hpos
      · exact strtod_digits 0
      · have hminus : printDecimal (-(m : Int)) = 45 :: printDecimal m := by
          rw [printDecimal_natCast, printDecimal, if_pos (by omega), Int.natAbs_neg, Int.natAbs_natCast]
        rw [hminus]
        exact strtod_minus m

/-- A message with quotes, and no message. -/
theorem errors_parsed_quoted :
    (∃ body, Answers 502 body (arwsSend502 (some (ascii "no \"app\""))) ∧
      cJsonParse integers body = .ok (errorItem id 502 (ascii "no \"app\""))) ∧
    ∃ body, Answers 503 body (arwsSend503 none) ∧
      cJsonParse integers body = .ok (errorItem id 503 (ascii "Service Unavailable")) :=
  ⟨(errors_parsed readsIntegers_integers (some (ascii "no \"app\""))).1 (arwsSend502, 502, ascii "Bad Gateway")
      (by simp [statusErrors]),
    (errors_parsed readsIntegers_integers none).1 (arwsSend503, 503, ascii "Service Unavailable")
      (by simp [statusErrors])⟩

/-! ## Bodies -/

/-- `parse_json_body`, with `json_doc` as it is: the body is parsed once. -/
def parseJsonBody (ops : Doubles D) (req : HttpRequest) (jsonDoc : Option (Item D)) : Option (Item D) :=
  jsonDoc.or (cJsonParse ops (cstr req.body)).toOption

/-- `server_send_json`: an item that is not printed is not answered. -/
def serverSendJson (ops : Doubles D) (status : Int) (json : Item D) : Handler :=
  match print ops json Bool.false with
  | .ok text => .call (.sendResponse status (ascii "application/json") (some (cstr text))) fun _ => .done
  | .error _ => .done

/-- What the printer returns is a string, and its text denotes the item. -/
theorem denotes_of_print {v : Item D} {format : Bool} {text : Bytes} (hprint : print ops v format = .ok text)
    (hv : v.ReadsBack ops) : Denotes ops v (cstr text) ∧ v.depth ≤ nestingLimit ∧ text = cstr text ++ [0] := by
  by_cases hok : v.Printable ops 0 ∧ (render ops format v 0).length + 2 ≤ intMax
  · rw [print_ok hok.1 hok.2] at hprint
    cases hprint
    rw [cstr_append_zero (zero_notMem_render ops format v 0)]
    exact ⟨denotes_render format v 0 hv, hok.1.2, rfl⟩
  · rw [print_refused hok] at hprint
    cases hprint

theorem length_of_print {v : Item D} {format : Bool} {text : Bytes} (hprint : print ops v format = .ok text) :
    text.length < 2 ^ 31 := by
  by_cases hok : v.Printable ops 0 ∧ (render ops format v 0).length + 2 ≤ intMax
  · rw [print_ok hok.1 hok.2] at hprint
    cases hprint
    have := hok.2
    rw [intMax] at this
    rw [List.length_append, List.length_singleton]
    omega
  · rw [print_refused hok] at hprint
    cases hprint

/-- **An item that is printed** is answered with a text that is parsed as the item. -/
theorem serverSendJson_parsed {v : Item D} {text : Bytes} (hprint : print ops v Bool.false = .ok text)
    (hv : v.ReadsBack ops) (status : Int) :
    Answers status (cstr text) (serverSendJson ops status v) ∧ cJsonParse ops (cstr text) = .ok v := by
  obtain ⟨hdenotes, hdepth, -⟩ := denotes_of_print hprint hv
  refine ⟨?_, cJsonParse_text hdenotes hdepth⟩
  rw [serverSendJson, hprint]
  exact .send

/-- Behind a finished loop with a declared body, the header end is that of the buffer there is. -/
theorem parseRequest_declared {s : ReadState} (hs : readMachine.ReachUnder SizeFits s)
    (hphase : s.phase = .finished) (hpos : 0 < s.contentLength) {env : ParseEnv} {fullPath : Bytes} {req : HttpRequest}
    (hreq : parseRequest env s = .request fullPath req) :
    ∃ off, strstr crlfcrlf (cstr s.bytes) = some off ∧
      req.body = (s.bytes.drop (off + 4)).set s.contentLength.toNat 0 := by
  obtain ⟨hgood, -⟩ := good_of_sizeFits hs
  have hparsed : s.headersParsed = true := by
    by_contra hnot
    obtain ⟨-, -, hzero⟩ := hgood.unparsed (Bool.eq_false_iff.2 hnot)
    rw [hzero] at hpos
    exact Int.lt_irrefl 0 hpos
  obtain ⟨off, hstart, hoff, hroom⟩ := hgood.parsed hparsed (by rw [hphase]; nofun)
  obtain ⟨off', hlast, hhead⟩ := parseRequest_eq_request hreq
  rw [lastBodyStart, hstart, Option.some_or] at hlast
  cases hlast
  obtain ⟨-, -, -, -, hbody, -⟩ := parseHead_eq_ok hhead
  have hwithin : s.contentLength < (s.bufferSize : Int) - (off + 4 : Nat) := by
    have := hroom hpos
    omega
  refine ⟨off, hoff, ?_⟩
  rw [hbody, bodyInBuffer, if_pos ⟨hpos, hwithin⟩]

/-- A string ends at the zero that is written behind it. -/
theorem cstr_set_zero {t u : Bytes} (ht : (0 : UInt8) ∉ t) (htu : t <+: u) : cstr (u.set t.length 0) = t := by
  obtain ⟨rest, rfl⟩ := htu
  rw [List.set_append_right _ _ (Nat.le_refl _), Nat.sub_self]
  cases rest with
  | nil => rw [List.set_nil, List.append_nil, cstr_eq_self ht]
  | cons c rest => exact cstr_append_zero ht rest

/-- **A printed item is read from a request** that declares its length, however the request arrives and whatever
follows it in the buffer. -/
theorem parseJsonBody_printed {s : ReadState} (hs : readMachine.Reach s)
    (hphase : s.phase = .finished) {env : ParseEnv} {fullPath : Bytes} {req : HttpRequest}
    (hreq : parseRequest env s = .request fullPath req) {v : Item D} {format : Bool} {text : Bytes}
    (hprint : print ops v format = .ok text) (hv : v.ReadsBack ops)
    (hlength : s.contentLength = (cstr text).length)
    (harrived : ∀ off, strstr crlfcrlf (cstr s.bytes) = some off → cstr text <+: s.bytes.drop (off + 4)) :
    parseJsonBody ops req none = some v := by
  obtain ⟨hdenotes, hdepth, hterminated⟩ := denotes_of_print hprint hv
  have hparse := cJsonParse_text hdenotes hdepth
  have hsmall : s.contentLength ≤ 2 ^ 31 := by
    have := length_of_print hprint
    rw [hterminated, List.length_append, List.length_singleton] at this
    rw [hlength]
    omega
  have hpos : 0 < s.contentLength := by
    obtain ⟨c, u, htext, -⟩ := hdenotes.head
    rw [hlength, htext]
    exact Int.natCast_pos.2 (Nat.succ_pos _)
  obtain ⟨off, hoff, hbody⟩ := parseRequest_declared (reachUnder_sizeFits hs hsmall) hphase hpos hreq
  rw [parseJsonBody, Option.none_or, hbody, hlength, Int.toNat_natCast,
    cstr_set_zero (zero_notMem_cstr text) (harrived off hoff), hparse]
  rfl

/-- A list in two pieces, and a byte behind it. -/
theorem parseJsonBody_printed_pieces :
    let turns : List Turn := [.whole "POST /a HTTP/1.1\r\nContent-Length: 12\r\n\r\n[nul", .whole "l,false] "]
    ∃ s req, readMachine.runUnder (fun _ _ => True) .start turns = some s ∧
      parseRequest ⟨true, true⟩ s = .request (ascii "/a") req ∧
      parseJsonBody integers req none = some (.array [.null, .false]) := by
  intro turns
  let body := (ascii "[null,false]").append [0]
  let req : HttpRequest :=
    ⟨ascii "POST", ascii "/a", none, [], [⟨ascii "Content-Length", ascii "12"⟩], [], body, 13⟩
  have hrun : (readMachine.runUnder (fun _ _ => True) .start turns).map (fun s => (s.phase, s.contentLength,
      strstr crlfcrlf (cstr s.bytes), s.bytes.drop 40, parseRequest ⟨true, true⟩ s)) =
      some (.finished, 12, some 36, ascii "[null,false] ", .request (ascii "/a") req) := by decide +kernel
  obtain ⟨s, hs, h⟩ := Option.map_eq_some_iff.1 hrun
  simp only [Prod.mk.injEq] at h
  obtain ⟨hphase, hlength, hoff, harrived, hreq⟩ := h
  refine ⟨s, req, hs, hreq, parseJsonBody_printed (Machine.reachUnder_of_runUnder (.start rfl) hs) hphase hreq
    (@print_ok _ _ _ Bool.false ⟨⟨trivial, trivial, trivial⟩, show 1 ≤ 1000 by decide⟩ (by decide))
    ⟨trivial, trivial, trivial⟩ ?_ ?_⟩
  · rw [hlength]
    decide +kernel
  · intro off hsome
    rw [hoff] at hsome
    cases hsome
    rw [harrived]
    exact ⟨[32], rfl⟩

end Server
end Arws

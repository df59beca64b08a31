import Arws.Server.RequestBuffer

/-!
# The header lines that are forwarded

`handle_client` takes the header block apart line by line into a table of a hundred fields, and
`arws_build_http_request` writes the table.  The loop stops where the table is full, and at a line that
begins with a CR or an LF; what is behind is not forwarded.

* `parseHeaders_eq` — the fields of the table: those of the lines before such a line, the first hundred.
* `linesKept_iff` — every field is forwarded as it came, if and only if there are a hundred at most and
  none but `Connection` fields behind such a line.
* `not_linesKept` — a request without its last field.
-/

set_option autoImplicit false

namespace Arws
namespace Server

open CString

/-- The field of a line with a colon, its value without the blanks it begins with. -/
def fieldOf (line : Bytes) : Option HttpHeader :=
  (strchr 58 line).map fun i => ⟨line.take i, (line.drop (i + 1)).dropWhile (· == 32)⟩

/-- The fields of lines, all of them. -/
def fieldsOf (lines : List Bytes) : List HttpHeader := lines.filterMap fieldOf

/-- The loop goes on at the line. -/
def goesOn (line : Bytes) : Bool := !line.head?.all fun c => c == cr || c == lf

/-- The header lines of the request in the buffer. -/
def headerLines (s : ReadState) : List Bytes :=
  match lastBodyStart s with
  | none => []
  | some (_, off) => (splitLines ((s.bytes ++ s.rest).take off)).tail

/-- The header lines of a message. -/
def messageLines (bytes : Bytes) : List Bytes :=
  match strstr crlfcrlf (cstr bytes) with
  | none => []
  | some off => (splitLines (bytes.take off)).tail

/-- The fields that say nothing about the connection. -/
def ownFields (hs : List HttpHeader) : List HttpHeader := hs.filter fun h => !isConnection h.name

/-- **No header line is lost**: of a request that is forwarded, there are as many fields as the table
holds at most, and those that say nothing about the connection are sent in their order and with their
values, in front of the address that the gateway adds. -/
def LinesKept (s : ReadState) (clientIp out : Bytes) : Prop :=
  (fieldsOf (headerLines s)).length ≤ 100 ∧
    ownFields (fieldsOf (messageLines out)) =
      ownFields (fieldsOf (headerLines s)) ++ [⟨ascii "X-Forwarded-For", clientIp⟩]

/-- The lines at which the loop does not arrive, if the table is not full. -/
def unreadLines (s : ReadState) : List Bytes := (headerLines s).dropWhile goesOn

/-! ## The table -/

theorem fieldsOf_cons (line : Bytes) (lines : List Bytes) :
    fieldsOf (line :: lines) = (fieldOf line).toList ++ fieldsOf lines := by
  rw [fieldsOf, List.filterMap_cons, fieldsOf]
  cases fieldOf line <;> rfl

/-- **The table of the fields**: those of the lines before one at which the loop stops, the first
hundred. -/
theorem parseHeaders_eq (room : Nat) (lines : List Bytes) :
    parseHeaders room lines = (fieldsOf (lines.takeWhile goesOn)).take room := by
  fun_induction parseHeaders room lines with
  | case1 => rw [List.take_zero]
  | case2 => rw [List.takeWhile_nil, fieldsOf, List.filterMap_nil, List.take_nil]
  | case3 room line lines hend =>
    rw [List.takeWhile_cons_of_neg (by rw [goesOn, hend]; decide), fieldsOf, List.filterMap_nil,
      List.take_nil]
  | case4 room line lines hend i hi ih =>
    rw [List.takeWhile_cons_of_pos (by rw [goesOn]; simpa using hend), fieldsOf_cons, fieldOf, hi, ih]
    rfl
  | case5 room line lines hend hi ih =>
    rw [List.takeWhile_cons_of_pos (by rw [goesOn]; simpa using hend), fieldsOf_cons, fieldOf, hi, ih]
    rfl

variable {s : ReadState} {env : ParseEnv} {fullPath : Bytes} {req : HttpRequest} {clientIp : Bytes}

/-- The table of a request that is accepted. -/
theorem headers_of_parseRequest (hreq : parseRequest env s = .request fullPath req) :
    req.headers = parseHeaders 100 (headerLines s) := by
  obtain ⟨off, hlast, hok⟩ := parseRequest_eq_request hreq
  rw [(parseHead_eq_ok hok).2.2.1, headerLines, hlast]

/-! ## What is sent -/

theorem fieldOf_lineOf {h : HttpHeader} (hh : h.Plain) : fieldOf (lineOf h) = some h := by
  have htable := parseHeaders_lineOf hh 0 []
  rw [parseHeaders_eq, parseHeaders] at htable
  by_cases hgo : goesOn (lineOf h) = true
  · rw [List.takeWhile_cons_of_pos hgo, fieldsOf_cons] at htable
    cases hfield : fieldOf (lineOf h) with
    | none =>
      rw [hfield] at htable
      cases htable
    | some x =>
      rw [hfield] at htable
      rw [(List.cons.inj htable).1]
  · rw [List.takeWhile_cons_of_neg hgo] at htable
    cases htable

theorem fieldsOf_map_lineOf {hs : List HttpHeader} (h : ∀ h ∈ hs, h.Plain) :
    fieldsOf (hs.map lineOf) = hs := by
  induction hs with
  | nil => rfl
  | cons x hs ih =>
    obtain ⟨hx, hall⟩ := List.forall_mem_cons.1 h
    rw [List.map_cons, fieldsOf_cons, fieldOf_lineOf hx, ih hall]
    rfl

/-- **The fields of what is built** are those that are sent. -/
theorem fieldsOf_messageLines {head body : Bytes} {bufsize : Nat} (h : Written req)
    (hip : ∀ c ∈ clientIp, 0x21 ≤ c)
    (hbuild : arwsBuildHttpRequest clientIp req bufsize = .ok (head, body)) :
    fieldsOf (messageLines (head ++ body)) = sentFields clientIp req := by
  obtain ⟨hne, hcrlf, hzero⟩ := h.line
  have hplain := plain_sentFields h hip
  obtain ⟨hhead, -⟩ := arwsBuildHttpRequest_eq_ok hbuild
  obtain ⟨off, hoff, hlines⟩ := lines_block hne hcrlf hzero hplain body
  rw [← buildHead_eq_ok hhead] at hoff hlines
  rw [messageLines, hoff]
  simp only [hlines]
  rw [List.tail_cons, fieldsOf_map_lineOf hplain]

theorem ownFields_append (a b : List HttpHeader) :
    ownFields (a ++ b) = ownFields a ++ ownFields b := List.filter_append a b

theorem ownFields_cons (h : HttpHeader) (hs : List HttpHeader) :
    ownFields (h :: hs) = if isConnection h.name then ownFields hs else h :: ownFields hs := by
  rw [ownFields, List.filter_cons, ownFields]
  cases isConnection h.name <;> rfl

/-- A field is sent as it came, unless it is about the connection. -/
theorem ownFields_map_copied (hs : List HttpHeader) : ownFields (hs.map copied) = ownFields hs := by
  have hclose : isConnection (ascii "Connection") = true := by rw [ascii_eq rfl]; decide
  induction hs with
  | nil => rfl
  | cons h hs ih =>
    rw [List.map_cons, ownFields_cons, ownFields_cons, ih, copied]
    by_cases hconn : isConnection h.name = true
    · rw [if_pos hconn, if_pos hclose, if_pos hconn]
    · rw [if_neg hconn]

theorem ownFields_sentFields (h : Written req) :
    ownFields (sentFields clientIp req) =
      ownFields req.headers ++ [⟨ascii "X-Forwarded-For", clientIp⟩] := by
  have hclose : ownFields [⟨ascii "Connection", ascii "close"⟩] = [] := by rw [ascii_eq rfl]; decide
  have hfor : ¬ isConnection (ascii "X-Forwarded-For") = true := by decide +kernel
  rw [sentFields_eq h, ownFields_append, ownFields_map_copied, ownFields_cons, if_neg hfor]
  split_ifs
  · rfl
  · rw [hclose]

/-! ## Which lines are kept -/

/-- The fields of the table, beside those about the connection, are all of them if there is room and
nothing else is left unread. -/
theorem ownFields_table (lines : List Bytes) (hroom : (fieldsOf lines).length ≤ 100) :
    ownFields (parseHeaders 100 lines) = ownFields (fieldsOf lines) ↔
      ∀ h ∈ fieldsOf (lines.dropWhile goesOn), isConnection h.name = true := by
  have hsplit : fieldsOf lines =
      fieldsOf (lines.takeWhile goesOn) ++ fieldsOf (lines.dropWhile goesOn) := by
    rw [fieldsOf, fieldsOf, fieldsOf, ← List.filterMap_append, List.takeWhile_append_dropWhile]
  have hread : (fieldsOf (lines.takeWhile goesOn)).length ≤ 100 := by
    rw [hsplit, List.length_append] at hroom
    omega
  rw [parseHeaders_eq, List.take_of_length_le hread, hsplit, ownFields_append, List.self_eq_append_right,
    ownFields, List.filter_eq_nil_iff]
  simp only [Bool.not_eq_true', Bool.not_eq_false]

/-- **No header line is lost** if and only if there are a hundred at most, and behind a line at which
the loop stops there are none but about the connection. -/
theorem linesKept_iff {trusted : List TrustedNet} {behindCf : Bool} {addr : UInt32}
    {head body : Bytes} {bufsize : Nat} (h : readMachine.Reach s)
    (hreq : parseRequest env s = .request fullPath req)
    (hbuild : arwsBuildHttpRequest (resolvedIp trusted behindCf req (inetNtop addr)) req bufsize =
      .ok (head, body)) :
    LinesKept s (resolvedIp trusted behindCf req (inetNtop addr)) (head ++ body) ↔
      (fieldsOf (headerLines s)).length ≤ 100 ∧
        ∀ x ∈ fieldsOf (unreadLines s), isConnection x.name = true := by
  have hwritten := written_of_parseRequest h hreq
  rw [LinesKept, fieldsOf_messageLines hwritten le_of_mem_resolvedIp hbuild,
    ownFields_sentFields hwritten, headers_of_parseRequest hreq]
  refine and_congr_right fun hroom => ?_
  rw [List.append_cancel_right_eq, ownFields_table _ hroom, unreadLines]

/-- A request with two fields. -/
theorem linesKept_of_two_fields : ∃ s req head body, readMachine.Reach s ∧
    parseRequest ⟨true, true⟩ s = .request (ascii "/") req ∧
      arwsBuildHttpRequest (resolvedIp [] false req (inetNtop 0x09090909)) req 8192 =
        .ok (head, body) ∧
      LinesKept s (resolvedIp [] false req (inetNtop 0x09090909)) (head ++ body) := by
  have hreach : readMachine.Reach (readTurn .start
      (.whole "GET / HTTP/1.1\r\nHost: a\r\nCookie: b\r\n\r\n")) :=
    reach_whole (by decide +kernel)
  have hreq : parseRequest ⟨true, true⟩
      (readTurn .start (.whole "GET / HTTP/1.1\r\nHost: a\r\nCookie: b\r\n\r\n")) =
        .request (ascii "/") ⟨ascii "GET", ascii "/", none, [],
          [⟨ascii "Host", ascii "a"⟩, ⟨ascii "Cookie", ascii "b"⟩], ascii "a", [], 0⟩ := by
    decide +kernel
  have hbuild : arwsBuildHttpRequest (resolvedIp [] false
      ⟨ascii "GET", ascii "/", none, [], [⟨ascii "Host", ascii "a"⟩, ⟨ascii "Cookie", ascii "b"⟩],
        ascii "a", [], 0⟩ (inetNtop 0x09090909))
      ⟨ascii "GET", ascii "/", none, [], [⟨ascii "Host", ascii "a"⟩, ⟨ascii "Cookie", ascii "b"⟩],
        ascii "a", [], 0⟩ 8192 =
        .ok (ascii "GET / HTTP/1.1\r\nHost: a\r\nCookie: b\r\n" ++
          ascii "X-Forwarded-For: 9.9.9.9\r\nConnection: close\r\n\r\n", []) := by
    decide +kernel
  exact ⟨_, _, _, _, hreach, hreq, hbuild,
    (linesKept_iff hreach hreq hbuild).2 (by decide +kernel)⟩

/-- **A field behind a stray line feed is lost**, with all that come after it. -/
theorem not_linesKept : ¬ ∀ s env fullPath req trusted behindCf addr head body bufsize,
    readMachine.Reach s → parseRequest env s = .request fullPath req →
      arwsBuildHttpRequest (resolvedIp trusted behindCf req (inetNtop addr)) req bufsize =
        .ok (head, body) →
      LinesKept s (resolvedIp trusted behindCf req (inetNtop addr)) (head ++ body) := by
  intro h
  have hreq : parseRequest ⟨true, true⟩ (readTurn .start
      (.whole "GET / HTTP/1.1\r\nHost: a\r\n\nAuthorization: b\r\n\r\n")) =
        .request (ascii "/") ⟨ascii "GET", ascii "/", none, [], [⟨ascii "Host", ascii "a"⟩],
          ascii "a", [], 0⟩ := by decide +kernel
  have hbuild : arwsBuildHttpRequest (resolvedIp [] false
      ⟨ascii "GET", ascii "/", none, [], [⟨ascii "Host", ascii "a"⟩], ascii "a", [], 0⟩
        (inetNtop 0x09090909))
      ⟨ascii "GET", ascii "/", none, [], [⟨ascii "Host", ascii "a"⟩], ascii "a", [], 0⟩ 8192 =
        .ok (ascii "GET / HTTP/1.1\r\nHost: a\r\n" ++
          ascii "X-Forwarded-For: 9.9.9.9\r\nConnection: close\r\n\r\n", []) := by
    decide +kernel
  have hkept := (h _ _ _ _ _ _ _ _ _ _ (reach_whole (by decide +kernel)) hreq hbuild).2
  revert hkept
  decide +kernel

end Server
end Arws

import Arws.Server.ClientAddress
import Arws.Server.Framing

/-!
# The address a backend is told

`arws_build_http_request` copies the fields of the client and appends its own `X-Forwarded-For` behind
them.  Who parses the request as `handle_client` does finds the first field with the name among the
first hundred, which is the client's if it sent one.

* `parsedFields_build` — what is parsed from the request that is built: the client's fields, and behind
  them those of the gateway.
* `forwardedFor_iff` — so the resolved address is found exactly if the client's first field of that name
  has it, or it sent none and fewer than a hundred fields.
* `not_forwardedFor` — a client names itself 1.2.3.4.
-/

set_option autoImplicit false

namespace Arws
namespace Server

open CString

/-- The fields of a request, as they are parsed. -/
def parsedFields (bytes : Bytes) : List HttpHeader :=
  match strstr crlfcrlf (cstr bytes) with
  | none => []
  | some off => parseHeaders 100 (splitLines (bytes.take off)).tail

/-- The field with a name in a request, as `get_header` finds it behind the parser. -/
def headerOf (bytes name : Bytes) : Option Bytes :=
  ((parsedFields bytes).find? fun h => strcaseeq h.name name).map (·.value)

/-! ## The lines that are written -/

def requestLine (req : HttpRequest) : Bytes :=
  req.method ++ ascii " " ++ req.path ++
    (if (req.queryParams.getD []).isEmpty then [] else ascii "?" ++ req.queryParams.getD []) ++
    ascii " HTTP/1.1"

/-- What becomes of a field of the client. -/
def copied (h : HttpHeader) : HttpHeader :=
  if isConnection h.name then ⟨ascii "Connection", ascii "close"⟩ else h

def lineOf (h : HttpHeader) : Bytes := h.name ++ ascii ": " ++ h.value

/-- The fields that are written. -/
def sentFields (clientIp : Bytes) (req : HttpRequest) : List HttpHeader :=
  req.headers.map copied ++
    ((if (!req.headers.any fun h => strcaseeq h.name (ascii "Host")) && !req.host.isEmpty then
      [⟨ascii "Host", req.host⟩] else []) ++
    (⟨ascii "X-Forwarded-For", clientIp⟩ ::
      if req.headers.any fun h => isConnection h.name then []
      else [⟨ascii "Connection", ascii "close"⟩]))

theorem appendStr_eq_ok {bufsize : Nat} {buf text out : Bytes}
    (h : appendStr bufsize buf text = .ok out) : out = buf ++ text := by
  rw [appendStr] at h
  split at h
  · cases h
    rfl
  · cases h

theorem appendHeader_eq_ok {bufsize : Nat} {buf out : Bytes} {h : HttpHeader}
    (hok : appendHeader bufsize buf h = .ok out) : out = buf ++ (lineOf (copied h) ++ crlf) := by
  rw [appendHeader] at hok
  rw [copied]
  split_ifs at hok ⊢
  · cases happend : appendStr bufsize buf connectionClose with
    | error e =>
      rw [happend] at hok
      cases hok
    | ok buf' =>
      rw [happend] at hok
      cases hok
      rw [appendStr_eq_ok happend]
      rfl
  · rw [appendStr_eq_ok hok, lineOf]

theorem appendHeaders_eq_ok {bufsize : Nat} {headers : List HttpHeader} {buf out : Bytes}
    (hok : headers.foldlM (appendHeader bufsize) buf = .ok out) :
    out = buf ++ Http.block ((headers.map copied).map lineOf) := by
  induction headers generalizing buf with
  | nil =>
    cases hok
    exact (List.append_nil _).symm
  | cons h headers ih =>
    rw [List.foldlM_cons] at hok
    cases happend : appendHeader bufsize buf h with
    | error e =>
      rw [happend] at hok
      cases hok
    | ok buf' =>
      rw [happend] at hok
      rw [ih hok, appendHeader_eq_ok happend, List.map_cons, List.map_cons, Http.block_cons,
        List.append_assoc]

theorem bind_eq_ok {α β : Type} {x : Except BuildError α} {g : α → Except BuildError β} {b : β}
    (h : x >>= g = .ok b) : ∃ a, x = .ok a ∧ g a = .ok b := by
  cases x with
  | error e => cases h
  | ok a => exact ⟨a, rfl, h⟩

theorem ite_bind_eq_ok {α β : Type} {c : Prop} [Decidable c] {x y : Except BuildError α}
    {g : α → Except BuildError β} {b : β} (h : (if c then x >>= g else y >>= g) = .ok b) :
    ∃ a, (if c then x else y) = .ok a ∧ g a = .ok b := by
  split_ifs at h ⊢
  · exact bind_eq_ok h
  · exact bind_eq_ok h

theorem append_if_eq_ok {c : Prop} [Decidable c] {bufsize : Nat} {buf text out : Bytes}
    (h : (if c then appendStr bufsize buf text else .ok buf) = .ok out) :
    out = buf ++ if c then text else [] := by
  split_ifs at h ⊢
  · exact appendStr_eq_ok h
  · cases h
    exact (List.append_nil _).symm

theorem append_unless_eq_ok {c : Prop} [Decidable c] {bufsize : Nat} {buf text out : Bytes}
    (h : (if c then .ok buf else appendStr bufsize buf text) = .ok out) :
    out = buf ++ if c then [] else text := by
  split_ifs at h ⊢
  · cases h
    exact (List.append_nil _).symm
  · exact appendStr_eq_ok h

/-- **The head that is built**: a request line and the fields. -/
theorem buildHead_eq_ok {clientIp head : Bytes} {req : HttpRequest} {bufsize : Nat}
    (h : buildHead clientIp req bufsize = .ok head) :
    head = Http.block (requestLine req :: (sentFields clientIp req).map lineOf) ++ crlf := by
  rw [buildHead] at h
  obtain ⟨b₁, h₁, h⟩ := bind_eq_ok h
  obtain ⟨b₂, h₂, h⟩ := ite_bind_eq_ok h
  obtain ⟨b₃, h₃, h⟩ := bind_eq_ok h
  obtain ⟨b₄, h₄, h⟩ := bind_eq_ok h
  obtain ⟨b₅, h₅, h⟩ := ite_bind_eq_ok h
  obtain ⟨b₆, h₆, h⟩ := bind_eq_ok h
  obtain ⟨b₇, h₇, h⟩ := ite_bind_eq_ok h
  have hhost : ascii "Host: " = ascii "Host" ++ ascii ": " := rfl
  have hfor : ascii "X-Forwarded-For: " = ascii "X-Forwarded-For" ++ ascii ": " := rfl
  have hclose : connectionClose = ascii "Connection" ++ ascii ": " ++ ascii "close" ++ crlf := rfl
  rw [appendStr_eq_ok h, append_unless_eq_ok h₇, appendStr_eq_ok h₆, append_if_eq_ok h₅,
    appendHeaders_eq_ok h₄, appendStr_eq_ok h₃, append_unless_eq_ok h₂, appendStr_eq_ok h₁,
    List.nil_append, hhost, hfor, hclose, sentFields, requestLine]
  simp only [Http.block, List.map_append, List.map_cons, List.flatMap_cons, List.flatMap_append,
    List.append_assoc]
  split_ifs <;> simp only [List.map_cons, List.map_nil, List.flatMap_cons, List.flatMap_nil, lineOf,
    List.append_assoc, List.nil_append]

/-! ## The lines are read back -/

/-- A field that is parsed from its line. -/
structure HttpHeader.Plain (h : HttpHeader) : Prop where
  colon : 58 ∉ h.name
  begins : ∀ c ∈ h.name.head?, c ≠ cr ∧ c ≠ lf
  value : ∀ c ∈ h.value.head?, c ≠ 32
  crlf : ¬ crlf <:+: lineOf h
  zero : (0 : UInt8) ∉ lineOf h

theorem lineOf_eq (h : HttpHeader) : lineOf h = h.name ++ 58 :: 32 :: h.value := by
  rw [lineOf, List.append_assoc]
  rfl

theorem parseHeaders_lineOf {h : HttpHeader} (hh : h.Plain) (room : Nat) (lines : List Bytes) :
    parseHeaders (room + 1) (lineOf h :: lines) = h :: parseHeaders room lines := by
  have hend : ¬ ((lineOf h).head?.all fun c => c == cr || c == lf) = true := by
    rw [lineOf_eq]
    cases hname : h.name with
    | nil => exact Bool.false_ne_true
    | cons c name =>
      obtain ⟨hcr, hlf⟩ := hh.begins c (by rw [hname]; rfl)
      simp [hcr, hlf]
  have hvalue : (32 :: h.value).dropWhile (· == 32) = h.value := by
    rw [List.dropWhile_cons_of_pos (by decide)]
    cases hv : h.value with
    | nil => rfl
    | cons c value => exact List.dropWhile_cons_of_neg (by simpa using hh.value c (by rw [hv]; rfl))
  have hcolon : strchr 58 (lineOf h) = some h.name.length := lineOf_eq h ▸ strchr_append hh.colon _
  have htake : (lineOf h).take h.name.length = h.name := lineOf_eq h ▸ List.take_left
  have hdrop : (lineOf h).drop (h.name.length + 1) = 32 :: h.value := by
    rw [lineOf_eq, ← List.drop_drop, List.drop_left]
    rfl
  rw [parseHeaders, if_neg hend, hcolon]
  simp only [htake, hdrop, hvalue]

theorem parseHeaders_map_lineOf {hs : List HttpHeader} (h : ∀ h ∈ hs, h.Plain) (room : Nat) :
    parseHeaders room (hs.map lineOf) = hs.take room := by
  induction hs generalizing room with
  | nil => cases room <;> rfl
  | cons x hs ih =>
    obtain ⟨hx, hall⟩ := List.forall_mem_cons.1 h
    cases room with
    | zero => rfl
    | succ room => rw [List.map_cons, parseHeaders_lineOf hx, ih hall, List.take_succ_cons]

/-- **The lines of what is built** are found again in front of the empty line. -/
theorem lines_block {line : Bytes} {hs : List HttpHeader} (hne : line ≠ [])
    (hcrlf : ¬ crlf <:+: line) (hzero : (0 : UInt8) ∉ line) (h : ∀ h ∈ hs, h.Plain) (body : Bytes) :
    ∃ off, strstr crlfcrlf (cstr (Http.block (line :: hs.map lineOf) ++ crlf ++ body)) = some off ∧
      splitLines ((Http.block (line :: hs.map lineOf) ++ crlf ++ body).take off) =
        line :: hs.map lineOf := by
  have hlines : ∀ l ∈ line :: hs.map lineOf, l ≠ [] ∧ ¬ crlf <:+: l := by
    refine List.forall_mem_cons.2 ⟨⟨hne, hcrlf⟩, fun l hl => ?_⟩
    obtain ⟨x, hx, rfl⟩ := List.mem_map.1 hl
    exact ⟨by rw [lineOf_eq]; simp, (h x hx).crlf⟩
  have hzeros : (0 : UInt8) ∉ Http.block (line :: hs.map lineOf) ++ crlf := by
    have hend : (0 : UInt8) ∉ crlf := by decide
    simp only [Http.block, List.mem_append, List.mem_flatMap, List.mem_cons, List.mem_map]
    rintro (⟨l, rfl | ⟨x, hx, rfl⟩, hl | hl⟩ | hl)
    · exact hzero hl
    · exact hend hl
    · exact (h x hx).zero hl
    · exact hend hl
    · exact hend hl
  refine ⟨(Http.block (line :: hs.map lineOf)).length - 2, ?_, ?_⟩
  · rw [cstr_append hzeros]
    exact Http.strstr_crlfcrlf_block hlines (List.cons_ne_nil _ _) _
  · rw [List.append_assoc, List.take_append_of_le_length (Nat.sub_le _ _)]
    exact Http.splitLines_take_block (fun l hl => (hlines l hl).2) (List.cons_ne_nil _ _)

/-- **The fields of what is built** are read back, the first hundred of them. -/
theorem parsedFields_block {line : Bytes} {hs : List HttpHeader} (hne : line ≠ [])
    (hcrlf : ¬ crlf <:+: line) (hzero : (0 : UInt8) ∉ line) (h : ∀ h ∈ hs, h.Plain) (body : Bytes) :
    parsedFields (Http.block (line :: hs.map lineOf) ++ crlf ++ body) = hs.take 100 := by
  obtain ⟨off, hoff, hlines⟩ := lines_block hne hcrlf hzero h body
  rw [parsedFields, hoff]
  simp only [hlines]
  rw [List.tail_cons, parseHeaders_map_lineOf h]

/-! ## What is parsed is plain -/

/-- A line without a line end or a zero in it makes a field that is read back from its line. -/
theorem plain_of_line {line : Bytes} {i : Nat} (hi : strchr 58 line = some i)
    (hend : ¬ (line.head?.all fun c => c == cr || c == lf) = true) (hcrlf : ¬ crlf <:+: line)
    (hzero : (0 : UInt8) ∉ line) :
    HttpHeader.Plain ⟨line.take i, (line.drop (i + 1)).dropWhile (· == 32)⟩ := by
  obtain ⟨hline, hcolon⟩ := strchr_eq_some hi
  have hname : line.take i <:+: line := (List.take_prefix i line).isInfix
  have hvalue : (line.drop (i + 1)).dropWhile (· == 32) <:+: line :=
    ((List.dropWhile_suffix _).trans (List.drop_suffix (i + 1) line)).isInfix
  refine ⟨hcolon, fun c hc => ?_, fun c hc => ?_, fun h => ?_, fun h => ?_⟩
  · -- the line does not begin with a line end, so neither does its name
    have hhead : line.head? = some c := by
      rw [hline, List.head?_append, hc, Option.some_or]
    rw [hhead, Option.all_some, Bool.or_eq_true, beq_iff_eq, beq_iff_eq, not_or] at hend
    exact hend
  · have := List.head?_dropWhile_not (· == (32 : UInt8)) (line.drop (i + 1))
    rw [hc] at this
    simpa using this
  · rw [lineOf_eq] at h
    obtain h | h := infix_of_notMem (by decide) h
    · exact hcrlf (h.trans hname)
    · obtain h | h := infix_of_notMem (a := []) (by decide) h
      · exact absurd h.length_le (by decide)
      · exact hcrlf (h.trans hvalue)
  · rw [lineOf_eq, List.mem_append, List.mem_cons, List.mem_cons] at h
    obtain h | h | h | h := h
    · exact hzero (hname.subset h)
    · exact absurd h (by decide)
    · exact absurd h (by decide)
    · exact hzero (hvalue.subset h)

theorem plain_of_mem_parseHeaders {lines : List Bytes}
    (hlines : ∀ line ∈ lines, ¬ crlf <:+: line ∧ (0 : UInt8) ∉ line) (room : Nat) :
    ∀ h ∈ parseHeaders room lines, h.Plain := by
  fun_induction parseHeaders room lines with
  | case1 => exact fun h hh => absurd hh List.not_mem_nil
  | case2 => exact fun h hh => absurd hh List.not_mem_nil
  | case3 => exact fun h hh => absurd hh List.not_mem_nil
  | case4 room line lines hend i hi ih =>
    obtain ⟨⟨hcrlf, hzero⟩, hrest⟩ := List.forall_mem_cons.1 hlines
    exact List.forall_mem_cons.2 ⟨plain_of_line hi hend hcrlf hzero, ih hrest⟩
  | case5 room line lines hend hi ih => exact ih (List.forall_mem_cons.1 hlines).2

theorem length_parseHeaders_le (room : Nat) (lines : List Bytes) :
    (parseHeaders room lines).length ≤ room := by
  fun_induction parseHeaders room lines with
  | case1 => exact Nat.zero_le _
  | case2 => exact Nat.zero_le _
  | case3 => exact Nat.zero_le _
  | case4 room line lines hend i hi ih => exact Nat.succ_le_succ ih
  | case5 room line lines hend hi ih => exact ih

/-- A target that is accepted has no control character in it. -/
theorem le_of_mem_target {env : ParseEnv} {target fullPath : Bytes}
    (h : checkTarget env target = .ok fullPath) : ∀ c ∈ fullPath, 0x20 ≤ c := by
  rw [checkTarget] at h
  split_ifs at h
  cases hdecode : decodeAgain env (urlDecode target) with
  | error text =>
    rw [hdecode] at h
    cases h
  | ok decoded =>
    rw [hdecode] at h
    change (if _ then _ else if _ then _ else _) = _ at h
    split_ifs at h with hlow hunsafe
    cases h
    intro c hc
    by_contra hlt
    exact hlow (List.any_eq_true.2 ⟨c, hc, decide_eq_true (UInt8.not_le.1 hlt)⟩)

theorem strtok_eq_some {s token rest : Bytes} (h : strtok s = some (token, rest)) :
    token <:+: s ∧ token ≠ [] := by
  rw [strtok] at h
  have hsuffix := List.dropWhile_suffix (l := s) (· == (32 : UInt8))
  have hhead := List.head?_dropWhile_not (· == (32 : UInt8)) s
  cases hs : s.dropWhile (· == 32) with
  | nil =>
    rw [hs] at h
    cases h
  | cons c t =>
    rw [hs] at h hsuffix hhead
    cases h
    refine ⟨(List.takeWhile_prefix _).isInfix.trans hsuffix.isInfix, ?_⟩
    rw [List.takeWhile_cons_of_pos (by simpa using hhead)]
    exact List.cons_ne_nil _ _

theorem parseRequestLine_ok {env : ParseEnv} {line method fullPath : Bytes}
    (h : parseRequestLine env line = .ok (method, fullPath)) :
    method <:+: line ∧ method ≠ [] ∧ ∀ c ∈ fullPath, 0x20 ≤ c := by
  rw [parseRequestLine] at h
  split at h
  · cases h
  · rename_i hmethod
    split at h
    · cases h
    · rename_i target rest htarget
      cases hcheck : checkTarget env target with
      | error text =>
        rw [hcheck] at h
        cases h
      | ok decoded =>
        rw [hcheck] at h
        cases h
        obtain ⟨hpart, hne⟩ := strtok_eq_some hmethod
        exact ⟨hpart, hne, le_of_mem_target hcheck⟩

/-- The path and the query are taken from the target. -/
theorem mem_splitTarget (env : ParseEnv) (fullPath : Bytes) :
    (∀ c ∈ (splitTarget env fullPath).1, c ∈ fullPath) ∧
      ∀ c ∈ (splitTarget env fullPath).2.1.getD [], c ∈ fullPath := by
  rw [splitTarget]
  split
  · exact ⟨fun c hc => hc, fun c hc => absurd hc List.not_mem_nil⟩
  · rename_i i hi
    refine ⟨fun c hc => List.mem_of_mem_take hc, fun c hc => ?_⟩
    rw [Option.getD_some] at hc
    split_ifs at hc
    · exact List.mem_of_mem_drop hc
    · exact List.mem_of_mem_drop ((List.takeWhile_prefix _).subset hc)

/-- What the parts of a request are that the gateway writes. -/
structure Written (req : HttpRequest) : Prop where
  line : requestLine req ≠ [] ∧ ¬ crlf <:+: requestLine req ∧ (0 : UInt8) ∉ requestLine req
  headers : ∀ h ∈ req.headers, h.Plain
  room : req.headers.length ≤ 100
  host : getHeader req (ascii "Host") = none → req.host = []

theorem requestLine_plain {req : HttpRequest} (hmethod : req.method ≠ [])
    (hcrlf : ¬ crlf <:+: req.method) (hzero : (0 : UInt8) ∉ req.method)
    (hpath : ∀ c ∈ req.path, 0x20 ≤ c) (hquery : ∀ c ∈ req.queryParams.getD [], 0x20 ≤ c) :
    requestLine req ≠ [] ∧ ¬ crlf <:+: requestLine req ∧ (0 : UInt8) ∉ requestLine req := by
  obtain ⟨tail, htail, hall⟩ : ∃ tail, requestLine req = req.method ++ 32 :: tail ∧
      ∀ c ∈ tail, 0x20 ≤ c := by
    refine ⟨req.path ++ ((if (req.queryParams.getD []).isEmpty then []
      else ascii "?" ++ req.queryParams.getD []) ++ ascii " HTTP/1.1"), ?_, fun c hc => ?_⟩
    · rw [requestLine]
      simp only [List.append_assoc]
      rfl
    · have hmark : ∀ c ∈ ascii "?", 0x20 ≤ c := by decide +kernel
      have hversion : ∀ c ∈ ascii " HTTP/1.1", 0x20 ≤ c := by
        repeat rw [ascii_eq rfl]
        decide +kernel
      rw [List.mem_append, List.mem_append] at hc
      obtain hc | hc | hc := hc
      · exact hpath c hc
      · split_ifs at hc
        · exact absurd hc List.not_mem_nil
        · exact (List.mem_append.1 hc).elim (hmark c) (hquery c)
      · exact hversion c hc
  rw [htail]
  refine ⟨fun h => hmethod (List.append_eq_nil_iff.1 h).1, fun h => ?_, fun h => ?_⟩
  · obtain h | h := infix_of_notMem (by decide) h
    · exact hcrlf h
    · exact absurd (hall cr (h.subset (List.mem_cons_self ..))) (by decide)
  · rw [List.mem_append, List.mem_cons] at h
    obtain h | h | h := h
    · exact hzero h
    · exact absurd h (by decide)
    · exact absurd (hall 0 h) (by decide)

theorem written_of_parseHead {env : ParseEnv} {head body fullPath : Bytes} {len : Int}
    {req : HttpRequest} (hzero : (0 : UInt8) ∉ head)
    (h : parseHead env head body len = .ok (fullPath, req)) : Written req := by
  have hlines : ∀ line ∈ splitLines head, ¬ crlf <:+: line ∧ (0 : UInt8) ∉ line := by
    refine fun line hline => ⟨Http.not_crlf_infix_of_mem_splitLines head line hline, fun h0 => ?_⟩
    have hmem : (0 : UInt8) ∈ Http.block (splitLines head) :=
      List.mem_flatMap.2 ⟨line, hline, List.mem_append_left _ h0⟩
    rw [Http.block_splitLines, List.mem_append] at hmem
    exact hmem.elim hzero (by decide)
  obtain ⟨hline, hsplit, hheaders, hhost, -, -⟩ := parseHead_eq_ok h
  obtain ⟨hpart, hne, htarget⟩ := parseRequestLine_ok hline
  obtain ⟨hpath, hquery⟩ := mem_splitTarget env fullPath
  rw [hsplit] at hpath hquery
  have hfirst : ¬ crlf <:+: req.method ∧ (0 : UInt8) ∉ req.method := by
    cases hs : splitLines head with
    | nil =>
      rw [hs] at hpart
      exact absurd (List.infix_nil.1 hpart) hne
    | cons first lines =>
      rw [hs] at hpart hlines
      obtain ⟨hcrlf, h0⟩ := hlines first (List.mem_cons_self ..)
      exact ⟨fun hi => hcrlf (hi.trans hpart), fun hi => h0 (hpart.subset hi)⟩
  refine ⟨requestLine_plain hne hfirst.1 hfirst.2 (fun c hc => htarget c (hpath c hc))
    fun c hc => htarget c (hquery c hc), ?_, ?_, ?_⟩
  · rw [hheaders]
    exact plain_of_mem_parseHeaders (fun l hl => hlines l (List.mem_of_mem_tail hl)) 100
  · rw [hheaders]
    exact length_parseHeaders_le 100 _
  · intro hnone
    rw [hhost, hnone]
    rfl

/-! ## The field that is found -/

theorem plain_of_visible {name value : Bytes} (hname : ∀ c ∈ name, 0x21 ≤ c) (hcolon : 58 ∉ name)
    (hvalue : ∀ c ∈ value, 0x21 ≤ c) : HttpHeader.Plain ⟨name, value⟩ := by
  have hbytes : ∀ c ∈ lineOf ⟨name, value⟩, 0x20 ≤ c := by
    intro c hc
    rw [lineOf_eq, List.mem_append, List.mem_cons, List.mem_cons] at hc
    obtain hc | rfl | rfl | hc := hc
    · exact UInt8.le_trans (by decide) (hname c hc)
    · decide
    · decide
    · exact UInt8.le_trans (by decide) (hvalue c hc)
  refine ⟨hcolon, fun c hc => ⟨?_, ?_⟩, fun c hc => ?_, fun h => ?_, fun h => ?_⟩
  · rintro rfl
    exact absurd (hname cr (List.mem_of_mem_head? hc)) (by decide)
  · rintro rfl
    exact absurd (hname lf (List.mem_of_mem_head? hc)) (by decide)
  · rintro rfl
    exact absurd (hvalue 32 (List.mem_of_mem_head? hc)) (by decide)
  · exact absurd (hbytes cr (h.subset (List.mem_cons_self ..))) (by decide)
  · exact absurd (hbytes 0 h) (by decide)

/-- The field that the gateway writes in the place of the client's. -/
theorem plain_close : HttpHeader.Plain ⟨ascii "Connection", ascii "close"⟩ :=
  plain_of_visible (by rw [ascii_eq rfl]; decide) (by rw [ascii_eq rfl]; decide) (by decide)

theorem plain_copied {h : HttpHeader} (hh : h.Plain) : (copied h).Plain := by
  rw [copied]
  split_ifs
  · exact plain_close
  · exact hh

/-- Without a `Host` field there is no host to write. -/
theorem sentFields_eq {req : HttpRequest} (h : Written req) (clientIp : Bytes) :
    sentFields clientIp req = req.headers.map copied ++ ⟨ascii "X-Forwarded-For", clientIp⟩ ::
      if req.headers.any fun h => isConnection h.name then []
      else [⟨ascii "Connection", ascii "close"⟩] := by
  have hhost : ¬ ((!req.headers.any fun h => strcaseeq h.name (ascii "Host")) &&
      !req.host.isEmpty) = true := by
    rw [Bool.and_eq_true, Bool.not_eq_true', Bool.not_eq_true', List.any_eq_false]
    rintro ⟨hnone, hhost⟩
    have hnohost : req.host = [] := h.host (by rw [getHeader, List.find?_eq_none.2 hnone]; rfl)
    rw [hnohost] at hhost
    cases hhost
  rw [sentFields, if_neg hhost, List.nil_append]

/-- The fields that are written are read back, if the address is one. -/
theorem plain_sentFields {clientIp : Bytes} {req : HttpRequest} (h : Written req)
    (hip : ∀ c ∈ clientIp, 0x21 ≤ c) : ∀ x ∈ sentFields clientIp req, x.Plain := by
  rw [sentFields_eq h]
  intro x hx
  rw [List.mem_append, List.mem_cons, List.mem_map] at hx
  obtain ⟨y, hy, rfl⟩ | rfl | hx := hx
  · exact plain_copied (h.headers y hy)
  · exact plain_of_visible (by rw [ascii_eq rfl]; decide) (by decide +kernel) hip
  · split_ifs at hx
    · exact absurd hx List.not_mem_nil
    · obtain rfl := List.mem_singleton.1 hx
      exact plain_close

/-- `inet_ntop` for an address in the order of the host. -/
def inetNtop (addr : UInt32) : Bytes :=
  [46].intercalate ([addr >>> 24, addr >>> 16, addr >>> 8, addr].map fun octet =>
    printDecimal (octet &&& 0xFF).toNat)

theorem le_of_mem_inetNtop {addr : UInt32} : ∀ c ∈ inetNtop addr, 0x21 ≤ c := by
  have hnumber : ∀ (n : Int), ∀ c ∈ printDecimal n, 0x21 ≤ c := by
    intro n c hc
    obtain rfl | ⟨hc, -⟩ := mem_printDecimal hc
    · decide
    · exact UInt8.le_trans (by decide) hc
  intro c hc
  simp only [inetNtop, List.intercalate, List.map_cons, List.map_nil, List.intersperse,
    List.flatten_cons, List.flatten_nil, List.mem_append, List.mem_singleton, List.not_mem_nil,
    or_false] at hc
  obtain hc | rfl | hc | rfl | hc | rfl | hc := hc
  · exact hnumber _ c hc
  · decide
  · exact hnumber _ c hc
  · decide
  · exact hnumber _ c hc
  · decide
  · exact hnumber _ c hc

/-- The address that is resolved is written with digits and dots. -/
theorem le_of_mem_resolvedIp {trusted : List TrustedNet} {behindCf : Bool} {req : HttpRequest}
    {addr : UInt32} : ∀ c ∈ resolvedIp trusted behindCf req (inetNtop addr), 0x21 ≤ c := by
  have hvalid : ∀ {ip : Bytes}, ipLooksValid ip = true → ∀ c ∈ ip, 0x21 ≤ c := by
    intro ip h c hc
    obtain hdigit | rfl := (address_cases h).2.2 c hc
    · rw [isDigit, Bool.and_eq_true, decide_eq_true_eq] at hdigit
      exact UInt8.le_trans (by decide) hdigit.1
    · decide
  rw [resolvedIp]
  split
  · split
    · rename_i ip hip
      have hlooks : ipLooksValid ip = true := by
        rw [forwardedIp] at hip
        split at hip
        · exact (Option.filter_eq_some_iff.1 hip).2
        · exact (Option.filter_eq_some_iff.1 hip).2
      exact fun c hc => hvalid hlooks c (List.mem_of_mem_take hc)
    · exact le_of_mem_inetNtop
  · exact le_of_mem_inetNtop

theorem isConnection_congr {a b : Bytes} (h : strcaseeq a b = true) :
    isConnection a = isConnection b := by
  simp only [isConnection, strcaseeq, beq_iff_eq] at h ⊢
  rw [h]

/-- The copy of a field has the name if the field has it, and is then the field itself. -/
theorem copied_of_other {name : Bytes} (hname : isConnection name = false) (h : HttpHeader) :
    strcaseeq (copied h).name name = strcaseeq h.name name ∧
      (strcaseeq h.name name = true → copied h = h) := by
  have hother : ∀ n : Bytes, isConnection n = true → strcaseeq n name = false := by
    intro n hn
    by_contra heq
    rw [Bool.not_eq_false] at heq
    rw [isConnection_congr heq, hname] at hn
    cases hn
  rw [copied]
  split_ifs with hconn
  · rw [hother _ hconn, hother (ascii "Connection") (by decide +kernel)]
    exact ⟨rfl, fun hfalse => by cases hfalse⟩
  · exact ⟨rfl, fun _ => rfl⟩

/-- The fields of the client are found as they came. -/
theorem find?_copied {name : Bytes} (hname : isConnection name = false) (headers : List HttpHeader) :
    (headers.map copied).find? (fun h => strcaseeq h.name name) =
      headers.find? fun h => strcaseeq h.name name := by
  induction headers with
  | nil => rfl
  | cons h headers ih =>
    obtain ⟨hcopy, hsame⟩ := copied_of_other hname h
    rw [List.map_cons, List.find?_cons, List.find?_cons, hcopy, ih]
    split
    · rw [hsame (by assumption)]
    · rfl

theorem find?_sentFields {clientIp : Bytes} {req : HttpRequest} (h : Written req) :
    (((sentFields clientIp req).take 100).find? fun h =>
      strcaseeq h.name (ascii "X-Forwarded-For")).map (·.value) =
        (getHeader req (ascii "X-Forwarded-For")).or
          (if req.headers.length < 100 then some clientIp else none) := by
  have hlen : (req.headers.map copied).length = req.headers.length := List.length_map _
  have hroom : (req.headers.map copied).length ≤ 100 := hlen ▸ h.room
  rw [sentFields_eq h, List.take_append, List.take_of_length_le hroom, List.find?_append,
    find?_copied (by decide +kernel),
    Option.map_or, ← getHeader]
  congr 1
  by_cases hlt : req.headers.length < 100
  · obtain ⟨k, hk⟩ : ∃ k, 100 - (req.headers.map copied).length = k + 1 :=
      ⟨99 - (req.headers.map copied).length, by omega⟩
    have hname : strcaseeq (ascii "X-Forwarded-For") (ascii "X-Forwarded-For") = true :=
      beq_self_eq_true _
    rw [if_pos hlt, hk, List.take_succ_cons, List.find?_cons, hname]
    rfl
  · rw [if_neg hlt, show 100 - (req.headers.map copied).length = 0 by omega]
    rfl

variable {s : ReadState} {env : ParseEnv} {fullPath : Bytes} {req : HttpRequest}

/-- What a request is that goes on. -/
theorem written_of_parseRequest (h : readMachine.Reach s)
    (hreq : parseRequest env s = .request fullPath req) : Written req := by
  obtain ⟨seen, hseen⟩ := exists_seen_of_reach h
  obtain ⟨hzero, -, body, len, hok⟩ := (known_of_reach hseen).parseHead hreq
  exact written_of_parseHead (fun h0 => hzero (List.mem_of_mem_take h0)) hok

/-- **What is parsed from the request that is built**: the client's fields, and behind them those of
the gateway. -/
theorem parsedFields_build {clientIp head body : Bytes} {bufsize : Nat} (h : Written req)
    (hip : ∀ c ∈ clientIp, 0x21 ≤ c)
    (hbuild : arwsBuildHttpRequest clientIp req bufsize = .ok (head, body)) :
    parsedFields (head ++ body) = (sentFields clientIp req).take 100 := by
  obtain ⟨hhead, -⟩ := arwsBuildHttpRequest_eq_ok hbuild
  obtain ⟨hne, hcrlf, hzero⟩ := h.line
  rw [buildHead_eq_ok hhead]
  exact parsedFields_block hne hcrlf hzero (plain_sentFields h hip) _

/-- **The resolved address is found exactly** if the client's own first field has it, or the client
sent none and left room for another field. -/
theorem forwardedFor_iff {trusted : List TrustedNet} {behindCf : Bool} {addr : UInt32}
    {head body : Bytes} {bufsize : Nat} (h : readMachine.Reach s)
    (hreq : parseRequest env s = .request fullPath req)
    (hbuild : arwsBuildHttpRequest (resolvedIp trusted behindCf req (inetNtop addr)) req bufsize =
      .ok (head, body)) :
    headerOf (head ++ body) (ascii "X-Forwarded-For") =
        some (resolvedIp trusted behindCf req (inetNtop addr)) ↔
      getHeader req (ascii "X-Forwarded-For") =
          some (resolvedIp trusted behindCf req (inetNtop addr)) ∨
        getHeader req (ascii "X-Forwarded-For") = none ∧ req.headers.length < 100 := by
  have hwritten := written_of_parseRequest h hreq
  rw [headerOf, parsedFields_build hwritten le_of_mem_resolvedIp hbuild, find?_sentFields hwritten]
  cases getHeader req (ascii "X-Forwarded-For") with
  | none => simp
  | some value => simp

/-- A client without the field. -/
theorem forwardedFor_of_none : ∃ s req head body, readMachine.Reach s ∧
    parseRequest ⟨true, true⟩ s = .request (ascii "/") req ∧
      arwsBuildHttpRequest (resolvedIp [] false req (inetNtop 0x09090909)) req 8192 =
        .ok (head, body) ∧
      headerOf (head ++ body) (ascii "X-Forwarded-For") =
        some (resolvedIp [] false req (inetNtop 0x09090909)) := by
  have hreach : readMachine.Reach (readTurn .start (.whole "GET / HTTP/1.1\r\nHost: a\r\n\r\n")) :=
    reach_whole (by decide +kernel)
  have hreq : parseRequest ⟨true, true⟩
      (readTurn .start (.whole "GET / HTTP/1.1\r\nHost: a\r\n\r\n")) =
        .request (ascii "/") ⟨ascii "GET", ascii "/", none, [], [⟨ascii "Host", ascii "a"⟩],
          ascii "a", [], 0⟩ := by decide +kernel
  have hbuild : arwsBuildHttpRequest (resolvedIp [] false
      ⟨ascii "GET", ascii "/", none, [], [⟨ascii "Host", ascii "a"⟩], ascii "a", [], 0⟩
        (inetNtop 0x09090909))
      ⟨ascii "GET", ascii "/", none, [], [⟨ascii "Host", ascii "a"⟩], ascii "a", [], 0⟩ 8192 =
        .ok (ascii
          "GET / HTTP/1.1\r\nHost: a\r\nX-Forwarded-For: 9.9.9.9\r\nConnection: close\r\n\r\n", []) := by
    repeat rw [ascii_eq rfl]
    decide +kernel
  exact ⟨_, _, _, _, hreach, hreq, hbuild,
    (forwardedFor_iff hreach hreq hbuild).2 (Or.inr (by rw [ascii_eq rfl]; decide))⟩

/-- **A client names itself 1.2.3.4**, and a backend is told so. -/
theorem not_forwardedFor : ¬ ∀ s env fullPath req trusted behindCf addr head body bufsize,
    readMachine.Reach s → parseRequest env s = .request fullPath req →
      arwsBuildHttpRequest (resolvedIp trusted behindCf req (inetNtop addr)) req bufsize =
        .ok (head, body) →
      headerOf (head ++ body) (ascii "X-Forwarded-For") =
        some (resolvedIp trusted behindCf req (inetNtop addr)) := by
  intro h
  have hreq : parseRequest ⟨true, true⟩
      (readTurn .start (.whole "GET / HTTP/1.1\r\nX-Forwarded-For: 1.2.3.4\r\n\r\n")) =
        .request (ascii "/") ⟨ascii "GET", ascii "/", none, [],
          [⟨ascii "X-Forwarded-For", ascii "1.2.3.4"⟩], [], [], 0⟩ := by
    rw [Turn.whole]
    repeat rw [ascii_eq rfl]
    decide +kernel
  have hbuild : arwsBuildHttpRequest (resolvedIp [] false
      ⟨ascii "GET", ascii "/", none, [], [⟨ascii "X-Forwarded-For", ascii "1.2.3.4"⟩], [], [], 0⟩
        (inetNtop 0x09090909))
      ⟨ascii "GET", ascii "/", none, [], [⟨ascii "X-Forwarded-For", ascii "1.2.3.4"⟩], [], [], 0⟩
        8192 =
        .ok (ascii "GET / HTTP/1.1\r\nX-Forwarded-For: 1.2.3.4\r\n" ++
          ascii "X-Forwarded-For: 9.9.9.9\r\nConnection: close\r\n\r\n", []) := by
    repeat rw [ascii_eq rfl]
    decide +kernel
  have hfound := h _ _ _ _ _ _ _ _ _ _ (reach_whole (by decide +kernel)) hreq hbuild
  revert hfound
  decide +kernel

end Server
end Arws

import Arws.Library.HeaderBlock

/-!
# The redirector

`http_worker_thread` answers what comes in on port 80 with a redirect to the same host.  It looks for the
host in all of the text that was received, at the first `Host: ` or, without one, at the first `host: `,
and copies what is there up to the next line end.

* `Redirects` — the answer has its four lines, and redirects to the host of the request.
* `redirects_iff` — so it is if and only if the first such place is a `Host` field with a value that the
  field really has, without a CR or an LF in it.
* `redirects_of_host` — as with every request that begins with a `Host` field.
* `not_redirects` — a field whose name ends with `Host` comes first.
-/

set_option autoImplicit false

namespace Arws
namespace Server

open CString Http

/-! ## The answer -/

/-- The host without one in the request, for what `getenv("TRUSTED_DOMAIN")` returns. -/
def ownHost : Option Bytes → Bytes
  | some (c :: domain) => (c :: domain).take 255
  | _ => ascii "localhost"

/-- Where the text behind `Host: ` begins. -/
def hostStart (text : Bytes) : Option Nat :=
  ((strstr (ascii "Host: ") text).or (strstr (ascii "host: ") text)).map (· + 6)

/-- `host`, before it is looked at whether it is empty. -/
def foundHost (text : Bytes) : Bytes :=
  match hostStart text with
  | none => ascii "localhost"
  | some start =>
    match strstr crlf (text.drop start) with
    | some len => if len < 256 then (text.drop start).take len else ascii "localhost"
    | none => ascii "localhost"

def redirectHost (trustedDomain : Option Bytes) (buffer : Bytes) : Bytes :=
  let host := foundHost (cstr buffer)
  if host = [] then ownHost trustedDomain else host

/-- The response, before it is cut to its buffer. -/
def movedText (host : Bytes) : Bytes :=
  ascii "HTTP/1.1 301 Moved Permanently" ++ (crlf ++
    (ascii "Location: https://" ++ (host ++ ascii "/") ++ (crlf ++
      (ascii "Content-Length: 0" ++ (crlf ++ (ascii "Connection: close" ++ (crlf ++ crlf)))))))

/-- `http_worker_thread`, for what `recv` delivers. -/
def httpWorkerThread (trustedDomain : Option Bytes) (buffer : Bytes) : Option Bytes :=
  if buffer = [] then none else some ((movedText (redirectHost trustedDomain buffer)).take 1023)

/-! ## The host of a request -/

def isBlank (c : UInt8) : Bool := c == 32 || c == 9

def trimBlanks (v : Bytes) : Bytes := ((v.dropWhile isBlank).reverse.dropWhile isBlank).reverse

/-- The value of a `Host` field. -/
def hostValue (line : Bytes) : Option Bytes :=
  (strchr 58 line).bind fun i =>
    if strcaseeq (line.take i) (ascii "Host") then some (trimBlanks (line.drop (i + 1))) else none

/-- The lines that are complete, behind the first one and before an empty one. -/
def fieldLines (request : Bytes) : List Bytes :=
  (splitLines request).dropLast.tail.takeWhile (!·.isEmpty)

/-- The value of the first `Host` field. -/
def hostField (request : Bytes) : Option Bytes := (fieldLines request).findSome? hostValue

/-- The host to redirect to: that of the request, or where there is none, one that the server has of its
own. -/
def Asked (trustedDomain : Option Bytes) (request host : Bytes) : Prop :=
  match hostField request with
  | some (c :: v) => host = c :: v
  | _ => host = ascii "localhost" ∨ host = ownHost trustedDomain

/-- **What the redirector is for**: a status line, a `Location` with the host of the request, and two more
fields. -/
def Redirects (trustedDomain : Option Bytes) (request response : Bytes) : Prop :=
  ∃ host, Asked trustedDomain request host ∧ pieces response =
    [ascii "HTTP/1.1 301 Moved Permanently", ascii "Location: https://" ++ (host ++ ascii "/"),
      ascii "Content-Length: 0", ascii "Connection: close"]

/-- A text stands behind the first `Host: `, or without one behind the first `host: `, and before a line
end. -/
def Marked (text v : Bytes) : Prop :=
  ∃ mark a b, (mark = ascii "Host: " ∨ mark = ascii "host: " ∧ strstr (ascii "Host: ") text = none) ∧
    strstr mark text = some a.length ∧ text = a ++ (mark ++ (v ++ (crlf ++ b))) ∧ ¬ crlf <:+: v

/-- The first place that looks like a host is the host. -/
structure Genuine (trustedDomain : Option Bytes) (request : Bytes) : Prop where
  named : ∀ v, Marked (cstr request) v → v ≠ [] → v.length < 256 →
    OneLine v ∧ Asked trustedDomain request v
  empty : Marked (cstr request) [] →
    OneLine (ownHost trustedDomain) ∧ Asked trustedDomain request (ownHost trustedDomain)
  absent : (∀ v, Marked (cstr request) v → 256 ≤ v.length) →
    Asked trustedDomain request (ascii "localhost")

/-! ## What is found -/

variable {text v request : Bytes} {trustedDomain : Option Bytes}

/-- The text before an occurrence, and the one behind it. -/
theorem split_of_strstr {pat s : Bytes} {i : Nat} (h : strstr pat s = some i) :
    s = s.take i ++ (pat ++ s.drop (i + pat.length)) := by
  obtain ⟨-, ⟨t, ht⟩, -⟩ := strstr_eq_some_iff.1 h
  rw [← List.drop_drop, ← ht, List.drop_left, ht, List.take_append_drop]

theorem not_crlf_take {s : Bytes} {i : Nat} (h : strstr crlf s = some i) :
    ¬ crlf <:+: s.take i := by
  rintro ⟨a, b, hab⟩
  obtain ⟨-, -, hfirst⟩ := strstr_eq_some_iff.1 h
  have hlen := congrArg List.length hab
  rw [List.length_append, List.length_append, List.length_take, show crlf.length = 2 from rfl] at hlen
  refine hfirst a.length (by omega) ⟨b ++ s.drop i, ?_⟩
  conv_rhs => rw [← List.take_append_drop i s, ← hab]
  simp

theorem strstr_crlf_line (h : ¬ crlf <:+: v) (rest : Bytes) :
    strstr crlf (v ++ (crlf ++ rest)) = some v.length := by
  refine strstr_eq_some_iff.2 ⟨by simp, by simp, fun j hj => ?_⟩
  rw [List.drop_append_of_le_length (Nat.le_of_lt hj), ← List.append_assoc]
  refine not_crlf_isPrefix (fun hi => h (hi.trans (List.drop_suffix j v).isInfix)) ?_ rest
  rw [Ne, List.drop_eq_nil_iff]
  omega

/-- What is copied, if it is not too long. -/
theorem foundHost_of_marked (h : Marked text v) :
    foundHost text = if v.length < 256 then v else ascii "localhost" := by
  obtain ⟨mark, a, b, hmark, hfirst, htext, hv⟩ := h
  have hlen : mark.length = 6 := by
    obtain rfl | ⟨rfl, -⟩ := hmark <;> rfl
  have hstart : hostStart text = some (a.length + 6) := by
    obtain rfl | ⟨rfl, hnone⟩ := hmark
    · rw [hostStart, hfirst]
      rfl
    · rw [hostStart, hnone, hfirst]
      rfl
  have hdrop : text.drop (a.length + 6) = v ++ (crlf ++ b) := by
    rw [htext, ← List.drop_drop, List.drop_left, ← hlen, List.drop_left]
  rw [foundHost, hstart]
  simp only [hdrop, strstr_crlf_line hv, List.take_left]

/-- Without such a place, the host is the default. -/
theorem foundHost_of_not_marked (h : ∀ v, ¬ Marked text v) : foundHost text = ascii "localhost" := by
  rw [foundHost]
  split
  · rfl
  · rename_i start hstart
    split
    · rename_i len hlen
      obtain ⟨i, hi, rfl⟩ := Option.map_eq_some_iff.1 hstart
      refine absurd ?_ (h ((text.drop (i + 6)).take len))
      have hmark : ∀ mark, mark.length = 6 → strstr mark text = some i →
          text = text.take i ++ (mark ++ ((text.drop (i + 6)).take len ++
            (crlf ++ (text.drop (i + 6)).drop (len + 2)))) := by
        intro mark hmark hfirst
        have hsplit := split_of_strstr hfirst
        rw [hmark] at hsplit
        conv_lhs => rw [hsplit]
        conv_lhs => rw [split_of_strstr hlen]
        rfl
      have hi' : (text.take i).length = i := List.length_take_of_le (by
        obtain hi | ⟨-, hi⟩ := Option.or_eq_some_iff.1 hi
        · exact (strstr_eq_some_iff.1 hi).1
        · exact (strstr_eq_some_iff.1 hi).1)
      obtain hi | ⟨hnone, hi⟩ := Option.or_eq_some_iff.1 hi
      · exact ⟨ascii "Host: ", text.take i, _, Or.inl rfl, by rw [hi', hi], hmark _ rfl hi,
          not_crlf_take hlen⟩
      · exact ⟨ascii "host: ", text.take i, _, Or.inr ⟨rfl, hnone⟩, by rw [hi', hi], hmark _ rfl hi,
          not_crlf_take hlen⟩
    · rfl

/-! ## The lines of the answer -/

/-- **The answer has four lines** if and only if there is no line end in the host. -/
theorem pieces_movedText {host host' : Bytes} :
    pieces (movedText host) =
        [ascii "HTTP/1.1 301 Moved Permanently", ascii "Location: https://" ++ (host' ++ ascii "/"),
          ascii "Content-Length: 0", ascii "Connection: close"] ↔ OneLine host ∧ host = host' := by
  have hstatus : pieces (ascii "HTTP/1.1 301 Moved Permanently") =
      [ascii "HTTP/1.1 301 Moved Permanently"] := pieces_line (by rw [ascii_eq rfl]; decide)
  have hlength : pieces (ascii "Content-Length: 0") = [ascii "Content-Length: 0"] :=
    pieces_line (by rw [ascii_eq rfl]; decide)
  have hclose : pieces (ascii "Connection: close" ++ (crlf ++ crlf)) = [ascii "Connection: close"] := by
    rw [pieces_crlf, pieces_line (by rw [ascii_eq rfl]; decide)]
    rfl
  have hlocation : IsLine (ascii "Location: https://") := by rw [ascii_eq rfl]; decide
  have hslash : IsLine (ascii "/") := by rw [ascii_eq rfl]; decide
  rw [movedText, pieces_crlf, pieces_crlf, pieces_crlf, hstatus, hlength, hclose]
  constructor
  · intro h
    have hone : OneLine host := by
      rw [← length_pieces_line hlocation hslash]
      have hlen := congrArg List.length h
      simp only [List.length_append, List.length_cons, List.length_nil] at hlen
      omega
    rw [pieces_line ⟨by simp [hlocation.1],
      oneLine_append.2 ⟨hlocation.2, oneLine_append.2 ⟨hone, hslash.2⟩⟩⟩] at h
    simp only [List.cons_append, List.nil_append, List.cons.injEq, true_and, and_true] at h
    exact ⟨hone, List.append_cancel_right (List.append_cancel_left h)⟩
  · rintro ⟨hone, rfl⟩
    rw [pieces_line ⟨by simp [hlocation.1],
      oneLine_append.2 ⟨hlocation.2, oneLine_append.2 ⟨hone, hslash.2⟩⟩⟩]
    rfl

theorem length_ownHost_le (trustedDomain : Option Bytes) : (ownHost trustedDomain).length ≤ 255 := by
  unfold ownHost
  split
  · exact List.length_take_le _ _
  · decide

theorem length_redirectHost_le (trustedDomain : Option Bytes) (buffer : Bytes) :
    (redirectHost trustedDomain buffer).length ≤ 255 := by
  have hown := length_ownHost_le trustedDomain
  have hfound : (foundHost (cstr buffer)).length ≤ 255 := by
    by_cases h : ∃ v, Marked (cstr buffer) v
    · obtain ⟨v, hv⟩ := h
      rw [foundHost_of_marked hv]
      split_ifs
      · omega
      · decide
    · rw [foundHost_of_not_marked (not_exists.1 h)]
      decide
  rw [redirectHost]
  split_ifs
  · exact hown
  · exact hfound

/-- The response is never cut. -/
theorem httpWorkerThread_eq (trustedDomain : Option Bytes) (h : request ≠ []) :
    httpWorkerThread trustedDomain request =
      some (movedText (redirectHost trustedDomain request)) := by
  have hhost := length_redirectHost_le trustedDomain request
  rw [httpWorkerThread, if_neg h, List.take_of_length_le]
  simp only [movedText, List.length_append,
    show (ascii "HTTP/1.1 301 Moved Permanently").length = 30 from length_ascii rfl,
    show (ascii "Location: https://").length = 18 from length_ascii rfl,
    show (ascii "Content-Length: 0").length = 17 from length_ascii rfl,
    show (ascii "Connection: close").length = 17 from length_ascii rfl,
    show (ascii "/").length = 1 from rfl, show crlf.length = 2 from rfl]
  omega

/-- What is answered is right if and only if the host that is taken is. -/
theorem redirects_iff_host (trustedDomain : Option Bytes) (h : request ≠ []) :
    (∃ response, httpWorkerThread trustedDomain request = some response ∧
        Redirects trustedDomain request response) ↔
      OneLine (redirectHost trustedDomain request) ∧
        Asked trustedDomain request (redirectHost trustedDomain request) := by
  rw [httpWorkerThread_eq trustedDomain h]
  constructor
  · rintro ⟨response, hresponse, host, hasked, hpieces⟩
    cases hresponse
    obtain ⟨hone, rfl⟩ := pieces_movedText.1 hpieces
    exact ⟨hone, hasked⟩
  · rintro ⟨hone, hasked⟩
    exact ⟨_, rfl, _, hasked, pieces_movedText.2 ⟨hone, rfl⟩⟩

/-! ## When it is right -/

theorem redirectHost_of_marked (h : Marked (cstr request) v) (hshort : v.length < 256) :
    redirectHost trustedDomain request = if v = [] then ownHost trustedDomain else v := by
  rw [redirectHost, foundHost_of_marked h, if_pos hshort]

theorem redirectHost_of_absent (h : ∀ v, Marked (cstr request) v → 256 ≤ v.length) :
    redirectHost trustedDomain request = ascii "localhost" := by
  have hfound : foundHost (cstr request) = ascii "localhost" := by
    by_cases hex : ∃ v, Marked (cstr request) v
    · obtain ⟨v, hv⟩ := hex
      rw [foundHost_of_marked hv, if_neg (Nat.not_lt.2 (h v hv))]
    · exact foundHost_of_not_marked (not_exists.1 hex)
  rw [redirectHost, hfound]
  exact if_neg (by decide)

/-- **The redirector is right** if and only if the first place that looks like a host is the host. -/
theorem redirects_iff (trustedDomain : Option Bytes) (h : request ≠ []) :
    (∃ response, httpWorkerThread trustedDomain request = some response ∧
        Redirects trustedDomain request response) ↔ Genuine trustedDomain request := by
  rw [redirects_iff_host trustedDomain h]
  constructor
  · rintro ⟨hone, hasked⟩
    refine ⟨fun v hv hne hshort => ?_, fun hv => ?_, fun habsent => ?_⟩
    · rw [redirectHost_of_marked hv hshort, if_neg hne] at hone hasked
      exact ⟨hone, hasked⟩
    · rw [redirectHost_of_marked hv (by decide), if_pos rfl] at hone hasked
      exact ⟨hone, hasked⟩
    · rwa [redirectHost_of_absent habsent] at hasked
  · rintro ⟨hnamed, hempty, habsent⟩
    by_cases hex : ∃ v, Marked (cstr request) v ∧ v.length < 256
    · obtain ⟨v, hv, hshort⟩ := hex
      rw [redirectHost_of_marked hv hshort]
      split_ifs with hnil
      · subst hnil
        exact hempty hv
      · exact hnamed v hv hnil hshort
    · have hlong : ∀ v, Marked (cstr request) v → 256 ≤ v.length := fun v hv =>
        Nat.not_lt.1 fun hshort => hex ⟨v, hv, hshort⟩
      rw [redirectHost_of_absent hlong]
      exact ⟨by rw [ascii_eq rfl]; decide, habsent hlong⟩

/-- Behind a line in which the mark does not occur, it is found where it stands. -/
theorem strstr_behind_line {line : Bytes} (hmark : ¬ ascii "Host: " <:+: line) (rest : Bytes) :
    strstr (ascii "Host: ") (line ++ crlf ++ (ascii "Host: " ++ rest)) =
      some (line ++ crlf).length := by
  have hcr : cr ∉ ascii "Host: " := by rw [ascii_eq rfl]; decide
  refine strstr_eq_some_iff.2 ⟨by simp, by simp, fun j hj hp => ?_⟩
  rw [List.length_append, show crlf.length = 2 from rfl] at hj
  by_cases hle : j ≤ line.length
  · rw [List.append_assoc, List.drop_append_of_le_length hle] at hp
    exact hmark ((prefix_of_notMem hcr hp).isInfix.trans (List.drop_suffix j line).isInfix)
  · obtain rfl : j = line.length + 1 := by omega
    rw [List.append_assoc, ← List.drop_drop, List.drop_left] at hp
    exact absurd (List.cons_prefix_cons.1 hp).1 (by decide)

theorem hostField_of_first {line rest : Bytes} (hline : ¬ crlf <:+: line) (hv : OneLine v)
    (htrim : trimBlanks v = v) :
    hostField (line ++ (crlf ++ (ascii "Host: " ++ (v ++ (crlf ++ rest))))) = some v := by
  have hhost : OneLine (ascii "Host: " ++ v) := oneLine_append.2 ⟨by rw [ascii_eq rfl]; decide, hv⟩
  have hlines : splitLines (line ++ (crlf ++ (ascii "Host: " ++ (v ++ (crlf ++ rest))))) =
      line :: (ascii "Host: " ++ v) :: splitLines rest := by
    rw [← List.append_assoc, splitLines_line hline, ← List.append_assoc, ← List.append_assoc,
      splitLines_line hhost.not_crlf]
  have hvalue : hostValue (ascii "Host: " ++ v) = some v := by
    have hcolon : strchr 58 (ascii "Host: " ++ v) = some 4 :=
      strchr_append (by rw [ascii_eq rfl]; decide : (58 : UInt8) ∉ ascii "Host") (32 :: v)
    have htake : (ascii "Host: " ++ v).take 4 = ascii "Host" := rfl
    rw [hostValue, hcolon, Option.bind_some, htake, if_pos (by rw [ascii_eq rfl]; decide)]
    exact congrArg some htrim
  obtain ⟨l, ls, hrest⟩ := List.exists_cons_of_ne_nil (splitLines_ne_nil rest)
  rw [hostField, fieldLines, hlines, hrest]
  rw [List.dropLast_cons_of_ne_nil (by simp), List.dropLast_cons_of_ne_nil (by simp), List.tail_cons,
    List.takeWhile_cons_of_pos rfl, List.findSome?_cons, hvalue]

/-- **A request that begins with a `Host` field** is redirected to its value. -/
theorem redirects_of_host {line rest : Bytes} (hline : ¬ crlf <:+: line) (hzero : (0 : UInt8) ∉ line)
    (hmark : ¬ ascii "Host: " <:+: line) (hv : OneLine v) (hvzero : (0 : UInt8) ∉ v) (hne : v ≠ [])
    (htrim : trimBlanks v = v) (hshort : v.length < 256) (trustedDomain : Option Bytes) :
    ∃ response, httpWorkerThread trustedDomain
        (line ++ (crlf ++ (ascii "Host: " ++ (v ++ (crlf ++ rest))))) = some response ∧
      Redirects trustedDomain (line ++ (crlf ++ (ascii "Host: " ++ (v ++ (crlf ++ rest))))) response := by
  have hfirst : strstr (ascii "Host: ")
      (line ++ crlf ++ (ascii "Host: " ++ (v ++ (crlf ++ cstr rest)))) = some (line ++ crlf).length :=
    strstr_behind_line hmark _
  have hmarked : Marked (cstr (line ++ (crlf ++ (ascii "Host: " ++ (v ++ (crlf ++ rest)))))) v := by
    rw [cstr_append hzero, cstr_append (by decide), cstr_append (by rw [ascii_eq rfl]; decide),
      cstr_append hvzero, cstr_append (by decide), ← List.append_assoc]
    exact ⟨ascii "Host: ", line ++ crlf, cstr rest, Or.inl rfl, hfirst, rfl, hv.not_crlf⟩
  have hasked : Asked trustedDomain
      (line ++ (crlf ++ (ascii "Host: " ++ (v ++ (crlf ++ rest))))) v := by
    obtain ⟨c, w, rfl⟩ := List.exists_cons_of_ne_nil hne
    rw [Asked, hostField_of_first hline hv htrim]
  rw [redirects_iff_host trustedDomain (by simp [crlf]), redirectHost_of_marked hmarked hshort,
    if_neg hne]
  exact ⟨hv, hasked⟩

/-- A request for a page. -/
theorem redirects_iff_page : Genuine none
    (ascii "GET / HTTP/1.1" ++ (crlf ++ (ascii "Host: " ++ (ascii "a.org" ++ (crlf ++ crlf))))) :=
  (redirects_iff none (by simp [crlf])).1 <|
    redirects_of_host (by rw [ascii_eq rfl]; decide) (by rw [ascii_eq rfl]; decide)
      (by rw [ascii_eq rfl]; decide) (by rw [ascii_eq rfl]; decide) (by rw [ascii_eq rfl]; decide)
      (by rw [ascii_eq rfl]; decide) (by rw [ascii_eq rfl]; decide) (by rw [ascii_eq rfl]; decide) none

/-- **A field whose name ends with `Host`** is taken for the host, if it comes first. -/
theorem not_redirects : ¬ ∀ trustedDomain request, request ≠ [] →
    ∃ response, httpWorkerThread trustedDomain request = some response ∧
      Redirects trustedDomain request response := by
  intro h
  have hright := (redirects_iff_host none (by rw [ascii_eq rfl]; decide)).1 (h none
    (ascii "GET / HTTP/1.1\r\nX-Forwarded-Host: b.org\r\nHost: a.org\r\n\r\n")
      (by rw [ascii_eq rfl]; decide))
  have hfound : redirectHost none
      (ascii "GET / HTTP/1.1\r\nX-Forwarded-Host: b.org\r\nHost: a.org\r\n\r\n") =
        ascii "b.org" := by rw [ascii_eq rfl]; decide
  have hfield : hostField
      (ascii "GET / HTTP/1.1\r\nX-Forwarded-Host: b.org\r\nHost: a.org\r\n\r\n") =
        some (97 :: ascii ".org") := by rw [ascii_eq rfl]; decide
  rw [hfound, Asked, hfield] at hright
  exact absurd hright.2 (by rw [ascii_eq rfl]; decide)

end Server
end Arws

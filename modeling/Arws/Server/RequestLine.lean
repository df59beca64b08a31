import Arws.Server.RequestBuffer
import Arws.Server.Target

/-!
# The request line that is forwarded

`handle_client` decodes the target of a request, and `arws_build_http_request` writes the path and the
query as they are, decoded.  Who takes the first line apart as `handle_client` does gets the same request
only if nothing in them needs to be encoded.

* `line_of_parseRequest` — of a request that goes on, the method is one token, and the target is safe.
* `lineKept_iff` — the first line is read back, if and only if the path and the query have no space, plus
  or percent sign in them, and the query, if there is one, is not empty.
* `not_lineKept` — a space in a path.
-/

set_option autoImplicit false

namespace Arws
namespace Server

open CString

/-- The first line of a message. -/
def firstLine (bytes : Bytes) : Bytes := (splitLines bytes).headD []

/-- The path and the query are what a target is decoded to. -/
def TargetKept (req : HttpRequest) (target : Bytes) : Prop :=
  ∃ fullPath, checkTarget ⟨true, true⟩ target = .ok fullPath ∧
    (splitTarget ⟨true, true⟩ fullPath).1 = req.path ∧
      (splitTarget ⟨true, true⟩ fullPath).2.1 = req.queryParams

/-- **The request line is read back**: split at spaces, it has three tokens, the method, a target that is
decoded to the same path and query, and the version. -/
def LineKept (req : HttpRequest) (line : Bytes) : Prop :=
  ∃ target rest rest' rest'', strtok line = some (req.method, rest) ∧
    strtok rest = some (target, rest') ∧ strtok rest' = some (ascii "HTTP/1.1", rest'') ∧
      strtok rest'' = none ∧ TargetKept req target

/-- The byte is written as itself in a target. -/
def Unreserved (c : UInt8) : Prop := c ≠ 32 ∧ c ≠ 37 ∧ c ≠ 43

instance : DecidablePred Unreserved := fun c => inferInstanceAs (Decidable (c ≠ 32 ∧ c ≠ 37 ∧ c ≠ 43))

/-- The path and the query need no encoding. -/
def WrittenPlain (req : HttpRequest) : Prop :=
  (∀ c ∈ req.path, Unreserved c) ∧ ∀ q ∈ req.queryParams, q ≠ [] ∧ ∀ c ∈ q, Unreserved c

instance (req : HttpRequest) : Decidable (WrittenPlain req) :=
  inferInstanceAs (Decidable ((∀ c ∈ req.path, Unreserved c) ∧
    ∀ q ∈ req.queryParams, q ≠ [] ∧ ∀ c ∈ q, Unreserved c))

/-- The target as it is written. -/
def sentTarget (req : HttpRequest) : Bytes :=
  req.path ++ if (req.queryParams.getD []).isEmpty then [] else ascii "?" ++ req.queryParams.getD []

/-- The target with its question mark. -/
def joinedTarget (req : HttpRequest) : Bytes :=
  req.path ++ (req.queryParams.map (63 :: ·)).getD []

/-! ## The parts of a request -/

variable {s : ReadState} {env : ParseEnv} {fullPath : Bytes} {req : HttpRequest}

/-- A method is one token, and the target is accepted. -/
theorem line_of_parseRequest (hreq : parseRequest env s = .request fullPath req) :
    req.method ≠ [] ∧ (32 : UInt8) ∉ req.method ∧ serverPathSafe fullPath = true ∧
      splitTarget env fullPath = (req.path, req.queryParams, req.parsedQuery) := by
  obtain ⟨off, -, hok⟩ := parseRequest_eq_request hreq
  obtain ⟨hline, hsplit, -⟩ := parseHead_eq_ok hok
  rw [parseRequestLine] at hline
  split at hline
  · cases hline
  · rename_i hmethod
    split at hline
    · cases hline
    · rename_i target rest htarget
      cases hcheck : checkTarget env target with
      | error text =>
        rw [hcheck] at hline
        cases hline
      | ok decoded =>
        rw [hcheck] at hline
        cases hline
        exact ⟨(strtok_eq_some hmethod).2, notMem_strtok hmethod, (checkTarget_iff.1 hcheck).2.2.2,
          hsplit⟩

/-! ## The target that is written -/

theorem requestLine_eq (req : HttpRequest) :
    requestLine req = req.method ++ 32 :: (sentTarget req ++ 32 :: ascii "HTTP/1.1") := by
  have hversion : ascii " HTTP/1.1" = 32 :: ascii "HTTP/1.1" := by decide +kernel
  rw [requestLine, sentTarget, hversion]
  simp only [List.append_assoc]
  rfl

/-- Only an empty query is lost. -/
theorem sentTarget_cases (req : HttpRequest) :
    req.queryParams = some [] ∧ (joinedTarget req).length = (sentTarget req).length + 1 ∨
      req.queryParams ≠ some [] ∧ joinedTarget req = sentTarget req := by
  rw [joinedTarget, sentTarget]
  match req.queryParams with
  | none => exact Or.inr ⟨by decide, rfl⟩
  | some [] =>
    refine Or.inl ⟨rfl, ?_⟩
    rw [List.length_append, List.length_append]
    rfl
  | some (c :: q) => exact Or.inr ⟨by simp, rfl⟩

/-- What a target is decoded to is the path and the query. -/
theorem joinedTarget_of_split {fullPath : Bytes}
    (hpath : (splitTarget ⟨true, true⟩ fullPath).1 = req.path)
    (hquery : (splitTarget ⟨true, true⟩ fullPath).2.1 = req.queryParams) :
    fullPath = joinedTarget req := by
  rw [joinedTarget, ← hpath, ← hquery]
  obtain ⟨-, he⟩ | ⟨path, query, rfl, -, he⟩ := splitTarget_cases ⟨true, true⟩ fullPath
  · rw [he]
    exact (List.append_nil _).symm
  · rw [he]
    rfl

/-- A target with a query that is not empty is split again as it was. -/
theorem split_joinedTarget (hsplit : splitTarget env fullPath = (req.path, req.queryParams,
    req.parsedQuery)) :
    (splitTarget ⟨true, true⟩ (joinedTarget req)).1 = req.path ∧
      (splitTarget ⟨true, true⟩ (joinedTarget req)).2.1 = req.queryParams ∧
        joinedTarget req <+: fullPath := by
  obtain ⟨hmark, he⟩ | ⟨path, query, rfl, hmark, he⟩ := splitTarget_cases env fullPath
  · have hpath : fullPath = req.path := congrArg Prod.fst (he.symm.trans hsplit)
    have hquery : none = req.queryParams := congrArg (·.2.1) (he.symm.trans hsplit)
    have hjoined : joinedTarget req = fullPath := by
      rw [joinedTarget, ← hpath, ← hquery]
      exact List.append_nil _
    rw [hjoined, splitTarget_of_notMem _ hmark]
    exact ⟨hpath, hquery, List.prefix_refl _⟩
  · have hpath : path = req.path := congrArg Prod.fst (he.symm.trans hsplit)
    have hquery : some (if env.queryCopy then query else query.takeWhile fun c => c != 38 && c != 61) =
        req.queryParams := congrArg (·.2.1) (he.symm.trans hsplit)
    have hjoined : joinedTarget req = path ++ 63 ::
        if env.queryCopy then query else query.takeWhile fun c => c != 38 && c != 61 := by
      rw [joinedTarget, ← hpath, ← hquery]
      rfl
    rw [hjoined, splitTarget_append _ hmark]
    refine ⟨hpath, hquery, ?_⟩
    rw [List.prefix_append_right_inj, List.cons_prefix_cons]
    split_ifs
    · exact ⟨rfl, List.prefix_refl _⟩
    · exact ⟨rfl, List.takeWhile_prefix _⟩

theorem writtenPlain_iff : WrittenPlain req ↔
    req.queryParams ≠ some [] ∧ ∀ c ∈ joinedTarget req, Unreserved c := by
  have hmark : Unreserved 63 := by decide
  rw [WrittenPlain, joinedTarget]
  cases req.queryParams with
  | none =>
    rw [Option.map_none, Option.getD_none, List.append_nil]
    exact ⟨fun h => ⟨by decide, h.1⟩, fun h => ⟨h.2, fun q hq => by cases hq⟩⟩
  | some q =>
    rw [Option.map_some, Option.getD_some, List.forall_mem_append, List.forall_mem_cons]
    constructor
    · rintro ⟨hpath, hquery⟩
      obtain ⟨hne, hall⟩ := hquery q rfl
      exact ⟨fun he => hne (Option.some.inj he), hpath, hmark, hall⟩
    · rintro ⟨hne, hpath, -, hall⟩
      refine ⟨hpath, fun q' hq' => ?_⟩
      cases hq'
      exact ⟨fun he => hne (congrArg some he), hall⟩

theorem strtok_version : strtok (ascii "HTTP/1.1") = some (ascii "HTTP/1.1", []) :=
  strtok_last (by decide +kernel) (by rw [ascii_eq rfl]; decide)

/-- What is written is plain, and is read back. -/
theorem lineKept_of_plain (hreq : parseRequest env s = .request fullPath req)
    (h : WrittenPlain req) : LineKept req (requestLine req) := by
  obtain ⟨hne, hspace, hsafe, hsplit⟩ := line_of_parseRequest hreq
  obtain ⟨hpath, hquery, hprefix⟩ := split_joinedTarget hsplit
  obtain ⟨hfull, hplain⟩ := writtenPlain_iff.1 h
  obtain ⟨hempty, -⟩ | ⟨-, hjoined⟩ := sentTarget_cases req
  · exact absurd hempty hfull
  rw [hjoined] at hpath hquery hprefix hplain
  have htarget : sentTarget req ≠ [] := by
    intro hnil
    rw [hnil, splitTarget_of_notMem _ List.not_mem_nil] at hpath hquery
    -- a target is not empty, so its path is not, without a query
    rw [← hpath, ← hquery] at hsplit
    obtain ⟨-, he⟩ | ⟨path, query, -, -, he⟩ := splitTarget_cases env fullPath
    · exact (safe_iff.1 hsafe).1 (congrArg Prod.fst (he.symm.trans hsplit))
    · cases congrArg (·.2.1) (he.symm.trans hsplit)
  refine ⟨sentTarget req, _, _, _, requestLine_eq req ▸ strtok_token hne hspace _,
    strtok_token htarget (fun hmem => (hplain 32 hmem).1 rfl) _, strtok_version, rfl, sentTarget req,
    checkTarget_of_plain (fun hmem => (hplain 37 hmem).2.1 rfl) (fun hmem => (hplain 43 hmem).2.2 rfl)
      (safe_of_begins htarget hprefix hsafe), hpath, hquery⟩

/-- What is read back was plain. -/
theorem plain_of_lineKept (h : LineKept req (requestLine req)) (hne : req.method ≠ [])
    (hspace : (32 : UInt8) ∉ req.method) : WrittenPlain req := by
  obtain ⟨target, rest, rest', rest'', hmethod, htarget, hversion, hend, decoded, hcheck, hpath,
    hquery⟩ := h
  rw [requestLine_eq, strtok_token hne hspace] at hmethod
  cases hmethod
  obtain rfl := joinedTarget_of_split hpath hquery
  obtain ⟨hle, hplus⟩ := decoded_of_checkTarget hcheck
  obtain ⟨token, r, htoken, hpart⟩ | hrest := strtok_append_cases (sentTarget req) (ascii "HTTP/1.1")
  · cases htoken.symm.trans htarget
    have hlen := hpart.length_le
    have hdrop := (List.dropWhile_suffix (l := sentTarget req) (· == (32 : UInt8))).length_le
    obtain ⟨-, hjoined⟩ | ⟨hfull, hjoined⟩ := sentTarget_cases req
    · omega
    · rw [hjoined] at hle hplus hcheck
      have hsame : target = sentTarget req := by
        rw [hpart.eq_of_length (by omega)]
        exact (List.dropWhile_suffix _).eq_of_length (by omega)
      rw [writtenPlain_iff, hjoined]
      refine ⟨hfull, fun c hc => ⟨?_, ?_, ?_⟩⟩ <;> rintro rfl
      · exact notMem_strtok htarget (hsame ▸ hc)
      · exact percent_notMem hcheck rfl hc
      · exact hplus (by rw [hsame]) hc
  · rw [hrest, strtok_version] at htarget
    cases htarget
    cases hversion

/-- The first line of what is built. -/
theorem firstLine_build {clientIp head body : Bytes} {bufsize : Nat} (h : Written req)
    (hbuild : arwsBuildHttpRequest clientIp req bufsize = .ok (head, body)) :
    firstLine (head ++ body) = requestLine req := by
  obtain ⟨-, hcrlf, -⟩ := h.line
  obtain ⟨hhead, -⟩ := arwsBuildHttpRequest_eq_ok hbuild
  rw [firstLine, buildHead_eq_ok hhead, Http.block_cons]
  simp only [List.append_assoc]
  rw [← List.append_assoc, Http.splitLines_line hcrlf, List.headD_cons]

/-- **The request line is read back** if and only if the path and the query are written plain, and the
query is not empty. -/
theorem lineKept_iff {clientIp head body : Bytes} {bufsize : Nat} (h : readMachine.Reach s)
    (hreq : parseRequest env s = .request fullPath req)
    (hbuild : arwsBuildHttpRequest clientIp req bufsize = .ok (head, body)) :
    LineKept req (firstLine (head ++ body)) ↔ WrittenPlain req := by
  obtain ⟨hne, hspace, -, -⟩ := line_of_parseRequest hreq
  rw [firstLine_build (written_of_parseRequest h hreq) hbuild]
  exact ⟨fun hkept => plain_of_lineKept hkept hne hspace, lineKept_of_plain hreq⟩

/-- A request for a path with a query. -/
theorem lineKept_of_query : ∃ s req head body, readMachine.Reach s ∧
    parseRequest ⟨true, true⟩ s = .request (ascii "/a?b=c") req ∧
      arwsBuildHttpRequest (ascii "9.9.9.9") req 8192 = .ok (head, body) ∧
      LineKept req (firstLine (head ++ body)) := by
  have hreach : readMachine.Reach (readTurn .start (.whole "GET /a?b=c HTTP/1.1\r\n\r\n")) :=
    reach_whole (by decide +kernel)
  have hreq : parseRequest ⟨true, true⟩
      (readTurn .start (.whole "GET /a?b=c HTTP/1.1\r\n\r\n")) =
        .request (ascii "/a?b=c") ⟨ascii "GET", ascii "/a", some (ascii "b=c"),
          [⟨ascii "b", ascii "c"⟩], [], [], [], 0⟩ := by
    rw [Turn.whole]
    repeat rw [ascii_eq rfl]
    decide +kernel
  have hbuild : arwsBuildHttpRequest (ascii "9.9.9.9") ⟨ascii "GET", ascii "/a", some (ascii "b=c"),
      [⟨ascii "b", ascii "c"⟩], [], [], [], 0⟩ 8192 =
        .ok (ascii "GET /a?b=c HTTP/1.1\r\n" ++
          ascii "X-Forwarded-For: 9.9.9.9\r\nConnection: close\r\n\r\n", []) := by
    repeat rw [ascii_eq rfl]
    decide +kernel
  exact ⟨_, _, _, _, hreach, hreq, hbuild, (lineKept_iff hreach hreq hbuild).2 (by decide +kernel)⟩

/-- **A space in a path** ends the target of the line that is written. -/
theorem not_lineKept : ¬ ∀ s env fullPath req clientIp head body bufsize, readMachine.Reach s →
    parseRequest env s = .request fullPath req →
      arwsBuildHttpRequest clientIp req bufsize = .ok (head, body) →
      LineKept req (firstLine (head ++ body)) := by
  intro h
  have hreq : parseRequest ⟨true, true⟩
      (readTurn .start (.whole "GET /a%20b HTTP/1.1\r\n\r\n")) =
        .request (ascii "/a b") ⟨ascii "GET", ascii "/a b", none, [], [], [], [], 0⟩ := by
    rw [Turn.whole]
    repeat rw [ascii_eq rfl]
    decide +kernel
  have hbuild : arwsBuildHttpRequest (ascii "9.9.9.9")
      ⟨ascii "GET", ascii "/a b", none, [], [], [], [], 0⟩ 8192 =
        .ok (ascii "GET /a b HTTP/1.1\r\n" ++
          ascii "X-Forwarded-For: 9.9.9.9\r\nConnection: close\r\n\r\n", []) := by
    repeat rw [ascii_eq rfl]
    decide +kernel
  have hkept := h _ _ _ _ _ _ _ _ (reach_whole (by decide +kernel)) hreq hbuild
  have hfirst : firstLine (ascii "GET /a b HTTP/1.1\r\n" ++
      ascii "X-Forwarded-For: 9.9.9.9\r\nConnection: close\r\n\r\n" ++ []) =
        requestLine ⟨ascii "GET", ascii "/a b", none, [], [], [], [], 0⟩ := by
    repeat rw [ascii_eq rfl]
    decide +kernel
  rw [hfirst] at hkept
  exact absurd (plain_of_lineKept hkept (by decide +kernel) (by decide +kernel)) (by decide +kernel)

end Server
end Arws

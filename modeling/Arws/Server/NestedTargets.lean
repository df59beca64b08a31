import Arws.Library.NestedEscapes
import Arws.Server.HandleClient
import Arws.Server.Target

/-!
# Escapes in the escapes of a target

`handle_client` decodes a target at most twice and refuses what is still escaped then.  But the second
decoding needs memory, and when there is none it is left out together with the check behind it: what was
escaped more than once is dispatched escaped.

* `forall_clean_iff` — no number of decodings of a text shows anything unsafe, if and only if nothing unsafe
  is spelled in it.
* `spells_of_secondPass` — with memory for the second decoding, nothing unsafe is dispatched in any number
  of escapes.
* `filterHolds_iff` — without it, that holds of just the targets that are refused or spell nothing unsafe.
* `not_filterHolds` — two dots, each escaped three times.
-/

set_option autoImplicit false

namespace Arws
namespace Server

open CString NestedEscapes

/-! ## Decoding -/

/-- Percent-encoding, as `url_decode` reads it. -/
def percentScheme : Scheme UInt8 where
  mark := 37
  isDigit := isXDigit
  value := decodedByte
  mark_not_digit := by decide

/-- A pass of percent-decoding, which leaves plus signs alone. -/
def percentDecode (s : Bytes) : Bytes := percentScheme.decode s

theorem plusDecoded_eq_iff {x : UInt8} (h43 : x ≠ 43) (h32 : x ≠ 32) (y : UInt8) :
    plusDecoded y = x ↔ y = x := by
  rw [plusDecoded]
  split_ifs with hy
  · rw [beq_iff_eq] at hy
    exact iff_of_false h32.symm (hy ▸ h43.symm)
  · exact Iff.rfl

/-- `url_decode` is a pass in which plus signs are spaces. -/
theorem urlDecode_eq (s : Bytes) : urlDecode s = percentDecode (s.map plusDecoded) := by
  fun_induction urlDecode s with
  | case1 => rfl
  | case2 c => rfl
  | case3 c d ih => rfl
  | case4 c a b s hescape ih =>
    simp only [Bool.and_eq_true, beq_iff_eq] at hescape
    obtain ⟨⟨rfl, ha⟩, hb⟩ := hescape
    have hsame {d : UInt8} (hd : isXDigit d = true) : plusDecoded d = d := by
      refine (plusDecoded_eq_iff ?_ ?_ d).2 rfl
      · rintro rfl
        cases hd
      · rintro rfl
        cases hd
    rw [List.map_cons, List.map_cons, List.map_cons, hsame ha, hsame hb, ih]
    exact (percentScheme.decode_escape ha hb _).symm
  | case5 c a b s hescape ih =>
    have hdigit : ∀ d, isXDigit (plusDecoded d) = isXDigit d := forall_byte (by decide +kernel)
    rw [ih]
    refine (percentScheme.decode_cons_of_not ?_ _).symm
    rintro ⟨hc, ha, hb⟩
    refine hescape ?_
    rw [(plusDecoded_eq_iff (by decide) (by decide) c).1 hc, (hdigit a).symm.trans ha,
      (hdigit b).symm.trans hb]
    rfl

/-! ## What is unsafe -/

/-- Two dots, a backslash or a control character. -/
def Unsafe (v : Bytes) : Prop :=
  v = ascii ".." ∨ ∃ c : UInt8, v = [c] ∧ (c = 92 ∨ c < 0x20 ∨ c = 0x7F)

/-- Nothing unsafe stands in the text. -/
def Clean (s : Bytes) : Prop :=
  ¬ ascii ".." <:+: s ∧ (92 : UInt8) ∉ s ∧ ∀ c ∈ s, 0x20 ≤ c ∧ c ≠ 0x7F

/-- Nothing unsafe is spelled in the text, in any number of escapes. -/
def SpellsNothingUnsafe (s : Bytes) : Prop := ∀ v, Unsafe v → ¬ percentScheme.Hides v s

theorem singleton_isInfix {c : UInt8} {s : Bytes} : [c] <:+: s ↔ c ∈ s := by
  rw [List.mem_iff_append]
  constructor
  · rintro ⟨a, b, rfl⟩
    exact ⟨a, b, by simp⟩
  · rintro ⟨a, b, rfl⟩
    exact ⟨a, b, by simp⟩

theorem clean_iff {s : Bytes} : Clean s ↔ ∀ v, Unsafe v → ¬ v <:+: s := by
  constructor
  · rintro ⟨hdots, hslash, hall⟩ v (rfl | ⟨c, rfl, hc⟩) hi
    · exact hdots hi
    · have hmem := singleton_isInfix.1 hi
      obtain rfl | hlow | rfl := hc
      · exact hslash hmem
      · exact absurd (hall c hmem).1 (UInt8.not_le.2 hlow)
      · exact (hall _ hmem).2 rfl
  · intro h
    refine ⟨h _ (Or.inl rfl), fun hmem => ?_, fun c hmem => ⟨?_, ?_⟩⟩
    · exact h [92] (Or.inr ⟨92, rfl, Or.inl rfl⟩) (singleton_isInfix.2 hmem)
    · by_contra hlow
      exact h [c] (Or.inr ⟨c, rfl, Or.inr (Or.inl (UInt8.not_le.1 hlow))⟩) (singleton_isInfix.2 hmem)
    · rintro rfl
      exact h [0x7F] (Or.inr ⟨0x7F, rfl, Or.inr (Or.inr rfl)⟩) (singleton_isInfix.2 hmem)

/-- No escape is made of what is unsafe, and no plus sign, space or question mark is in it. -/
theorem Unsafe.letters {v : Bytes} (h : Unsafe v) {c : UInt8} (hc : c ∈ v) :
    percentScheme.Inert c ∧ c ≠ 43 ∧ c ≠ 32 ∧ c ≠ 63 := by
  have hall : ∀ c : UInt8, c = 46 ∨ c = 92 ∨ c < 0x20 ∨ c = 0x7F →
      (c ≠ 37 ∧ isXDigit c = false) ∧ c ≠ 43 ∧ c ≠ 32 ∧ c ≠ 63 := forall_byte (by decide +kernel)
  obtain rfl | ⟨d, rfl, hd⟩ := h
  · have h46 : c = 46 := by simpa [ascii] using hc
    exact hall c (Or.inl h46)
  · rw [List.mem_singleton] at hc
    exact hall c (Or.inr (hc ▸ hd))

/-- **No number of decodings shows anything unsafe**, if and only if nothing unsafe is spelled. -/
theorem forall_clean_iff {s : Bytes} :
    (∀ k, Clean (percentDecode^[k] s)) ↔ SpellsNothingUnsafe s := by
  constructor
  · intro h v hv hhides
    obtain ⟨k, hk⟩ := (Scheme.exists_iterate_iff fun c hc => (hv.letters hc).1).2 hhides
    exact clean_iff.1 (h k) v hv hk
  · intro h k
    refine clean_iff.2 fun v hv hi => h v hv ?_
    exact (Scheme.exists_iterate_iff fun c hc => (hv.letters hc).1).1 ⟨k, hi⟩

/-- A part of a text spells nothing unsafe either. -/
theorem SpellsNothingUnsafe.mono {s t : Bytes} (h : SpellsNothingUnsafe s) (ht : t <:+: s) :
    SpellsNothingUnsafe t := by
  rintro v hv ⟨w, hw, hi⟩
  exact h v hv ⟨w, hw, hi.trans ht⟩

/-- Nothing unsafe is spelled across a question mark. -/
theorem spells_append_iff {s t : Bytes} : SpellsNothingUnsafe (s ++ 63 :: t) ↔
    SpellsNothingUnsafe s ∧ SpellsNothingUnsafe t := by
  constructor
  · intro h
    exact ⟨h.mono (List.prefix_append _ _).isInfix,
      h.mono ((List.suffix_cons 63 t).trans (List.suffix_append _ _)).isInfix⟩
  · rintro ⟨hs, ht⟩ v hv ⟨w, hw, hi⟩
    have hmark : (63 : UInt8) ∉ w := by
      intro hmem
      obtain h | h | h := hw.letters hmem
      · exact absurd h (by decide)
      · exact absurd h (by decide)
      · exact (hv.letters h).2.2.2 rfl
    obtain hi | hi := infix_of_notMem hmark hi
    · exact hs v hv ⟨w, hw, hi⟩
    · exact ht v hv ⟨w, hw, hi⟩

/-- **`url_decode` hides nothing and shows nothing** of what a text spells. -/
theorem spells_urlDecode_iff {s : Bytes} : SpellsNothingUnsafe (urlDecode s) ↔ SpellsNothingUnsafe s := by
  refine forall₂_congr fun v hv => not_congr ?_
  rw [urlDecode_eq, percentDecode, Scheme.hides_decode_iff fun c hc => (hv.letters hc).1]
  refine Scheme.hides_map_iff fun x y hx => plusDecoded_eq_iff ?_ ?_ y
  · rintro rfl
    obtain h | h | h := hx
    · exact absurd h (by decide)
    · exact absurd h (by decide)
    · exact (hv.letters h).2.1 rfl
  · rintro rfl
    obtain h | h | h := hx
    · exact absurd h (by decide)
    · exact absurd h (by decide)
    · exact (hv.letters h).2.2.1 rfl

/-- A safe text without percent signs spells nothing unsafe. -/
theorem spells_of_safe {s : Bytes} (hsafe : serverPathSafe s = true) (h : (37 : UInt8) ∉ s) :
    SpellsNothingUnsafe s := by
  rintro v hv ⟨w, hw, hi⟩
  obtain ⟨-, hpat, hslash, hall⟩ := safe_iff.1 hsafe
  obtain rfl := hw.eq_of_notMem fun hmem => h (hi.subset hmem)
  exact clean_iff.1 ⟨hpat _ (List.mem_cons_self ..), hslash, hall⟩ w hv hi

/-! ## What is dispatched -/

/-- What is behind the first question mark. -/
def queryText (fullPath : Bytes) : Option Bytes :=
  (strchr 63 fullPath).map fun i => fullPath.drop (i + 1)

/-- The path and the query of a request, and as much of the query as is handed on. -/
def dispatchedTexts (fullPath : Bytes) (req : HttpRequest) : List Bytes :=
  req.path :: ((queryText fullPath).toList ++ req.queryParams.toList)

/-- `handle_client` calls the handler for the request. -/
def Dispatches (env : Shared) (job : Job) (s : Session) (fullPath : Bytes) (req : HttpRequest) : Prop :=
  job.arrival = .request fullPath req ∧ env.apiHandler.isSome = true ∧
    ∃ s', identify env fullPath req s = some s' ∧
      env.ratelimitCheck s'.conn.clientIp req.host req.path = true

/-- **What the filter is meant to keep**: nothing unsafe shows in what is dispatched, however often it is
decoded. -/
def FilterHolds (job : Job) : Prop := ∀ env s fullPath req, Dispatches env job s fullPath req →
  ∀ text ∈ dispatchedTexts fullPath req, ∀ k, Clean (percentDecode^[k] text)

/-- The second token of a request line. -/
def lineTarget (line : Bytes) : Option Bytes :=
  (strtok line).bind fun (_, rest) => (strtok rest).map fun (target, _) => target

/-- The target in the buffer. -/
def requestTarget (s : ReadState) : Option Bytes :=
  (lastBodyStart s).bind fun (block, off) =>
    if block ≠ s.block then none
    else lineTarget ((splitLines ((s.bytes ++ s.rest).take off)).headD [])

/-- The target that a client asks for, if it is looked at. -/
def Job.target (job : Job) : Option Bytes :=
  if !job.buffer then none
  else match job.received.state.phase with
    | .answered _ => none
    | _ => requestTarget job.received.state

/-- A check on the target, before or behind its first decoding, refuses it. -/
def Refused (target : Bytes) : Prop :=
  ascii "%00" <:+: target ∨ serverPathSafe target = false ∨ serverPathSafe (urlDecode target) = false

/-! ## From the buffer to the request -/

variable {job : Job} {target fullPath : Bytes} {req : HttpRequest}

theorem parseRequestLine_iff {env : ParseEnv} {line : Bytes} :
    (∃ method, parseRequestLine env line = .ok (method, fullPath)) ↔
      ∃ target, lineTarget line = some target ∧ checkTarget env target = .ok fullPath := by
  rw [parseRequestLine, lineTarget]
  cases strtok line with
  | none => simp
  | some token =>
    obtain ⟨method, rest⟩ := token
    simp only [Option.bind_some]
    cases strtok rest with
    | none => simp
    | some token =>
      obtain ⟨target, rest'⟩ := token
      simp only [Option.map_some, Option.some_inj, exists_eq_left']
      cases checkTarget env target with
      | error text => simp [Except.map]
      | ok decoded => simp [Except.map]

/-- A request that goes on has a target that was accepted, and taken apart. -/
theorem target_of_parseRequest {env : ParseEnv} {s : ReadState}
    (h : parseRequest env s = .request fullPath req) :
    ∃ target, requestTarget s = some target ∧ checkTarget env target = .ok fullPath ∧
      splitTarget env fullPath = (req.path, req.queryParams, req.parsedQuery) := by
  obtain ⟨off, hlast, hok⟩ := parseRequest_eq_request h
  obtain ⟨hline, hsplit, -⟩ := parseHead_eq_ok hok
  obtain ⟨target, htarget, hcheck⟩ := parseRequestLine_iff.1 ⟨_, hline⟩
  refine ⟨target, ?_, hcheck, hsplit⟩
  simp only [requestTarget, hlast, Option.bind_some, ne_eq, not_true_eq_false, if_false, htarget]

/-- A target that is accepted is one of a request that goes on. -/
theorem parseRequest_of_target {env : ParseEnv} {s : ReadState} (h : requestTarget s = some target)
    (hcheck : checkTarget env target = .ok fullPath) :
    ∃ req, parseRequest env s = .request fullPath req := by
  obtain ⟨⟨block, off⟩, hlast, h⟩ := Option.bind_eq_some_iff.1 h
  simp only [ne_eq, ite_not, Option.ite_none_right_eq_some] at h
  obtain ⟨rfl, htarget⟩ := h
  have hline : ∃ method, parseRequestLine env ((splitLines ((s.bytes ++ s.rest).take off)).headD []) =
      .ok (method, fullPath) := parseRequestLine_iff.2 ⟨target, htarget, hcheck⟩
  obtain ⟨method, hline⟩ := hline
  rw [parseRequest, hlast]
  simp only [ne_eq, not_true_eq_false, if_false, parseHead, hline]
  exact ⟨_, rfl⟩

theorem target_of_arrival (h : job.arrival = .request fullPath req) :
    ∃ target, job.target = some target ∧ checkTarget job.parse target = .ok fullPath ∧
      splitTarget job.parse fullPath = (req.path, req.queryParams, req.parsedQuery) := by
  rw [Job.arrival] at h
  rw [Job.target]
  split_ifs at h ⊢ with hbuffer
  split at h
  · cases h
  · cases h
  · rename_i hphase
    split at h <;> cases h
    rename_i hparse
    split
    · exact absurd ‹_› (hphase _)
    · exact target_of_parseRequest hparse

theorem arrival_of_target (h : job.target = some target)
    (hcheck : checkTarget job.parse target = .ok fullPath) :
    ∃ req, job.arrival = .request fullPath req := by
  rw [Job.target] at h
  rw [Job.arrival]
  split_ifs at h ⊢ with hbuffer
  split at h
  · cases h
  · rename_i hphase
    obtain ⟨req, hreq⟩ := parseRequest_of_target h hcheck
    split
    · exact absurd ‹_› (hphase _)
    · exact absurd ‹_› (hphase _)
    · rw [hreq]
      exact ⟨req, rfl⟩

/-! ## The filter -/

/-- What a request is dispatched with is in its decoded target, the path and the query side by side. -/
theorem dispatchedTexts_iff {env : ParseEnv}
    (h : splitTarget env fullPath = (req.path, req.queryParams, req.parsedQuery)) :
    (∀ text ∈ dispatchedTexts fullPath req, SpellsNothingUnsafe text) ↔ SpellsNothingUnsafe fullPath := by
  rw [dispatchedTexts, queryText]
  obtain ⟨hmark, he⟩ | ⟨path, query, rfl, hmark, he⟩ := splitTarget_cases env fullPath
  · have hpath : fullPath = req.path := congrArg Prod.fst (he.symm.trans h)
    have hquery : none = req.queryParams := congrArg (·.2.1) (he.symm.trans h)
    rw [← hpath, ← hquery, strchr_eq_none_iff.2 hmark]
    simp
  · have hpath : path = req.path := congrArg Prod.fst (he.symm.trans h)
    have hquery := congrArg (·.2.1) (he.symm.trans h)
    simp only at hquery
    have hdrop : (path ++ 63 :: query).drop (path.length + 1) = query := by
      rw [← List.drop_drop, List.drop_left]
      rfl
    rw [← hpath, ← hquery, strchr_append hmark, spells_append_iff]
    simp only [Option.map_some, hdrop, Option.toList_some, List.singleton_append, List.forall_mem_cons,
      List.not_mem_nil, false_implies, implies_true, and_true, and_congr_right_iff, and_iff_left_iff_imp]
    intro _ hspells
    split_ifs
    · exact hspells
    · exact hspells.mono (List.takeWhile_prefix _).isInfix

/-- **With memory for the second decoding**, what is accepted spells nothing unsafe. -/
theorem spells_of_secondPass {env : ParseEnv} (hcheck : checkTarget env target = .ok fullPath)
    (henv : env.secondPass = true) : SpellsNothingUnsafe fullPath :=
  spells_of_safe (checkTarget_iff.1 hcheck).2.2.2 (percent_notMem hcheck henv)

/-- Without, a target is accepted as it is decoded once. -/
theorem checkTarget_iff_of_once {env : ParseEnv} (henv : env.secondPass = false) :
    checkTarget env target = .ok fullPath ↔ ¬ Refused target ∧ fullPath = urlDecode target := by
  have hagain : decodeAgain env (urlDecode target) = .ok (urlDecode target) := by
    rw [decodeAgain, henv, Bool.and_false]
    rfl
  rw [checkTarget_iff, hagain, Refused]
  simp only [not_or, Bool.not_eq_false, Except.ok.injEq]
  constructor
  · rintro ⟨hzero, hsafe, rfl, hsafe'⟩
    exact ⟨⟨hzero, hsafe, hsafe'⟩, rfl⟩
  · rintro ⟨⟨hzero, hsafe, hsafe'⟩, rfl⟩
    exact ⟨hzero, hsafe, rfl, hsafe'⟩

/-- Some connection to some server has every request dispatched that goes on. -/
theorem exists_dispatches (h : job.arrival = .request fullPath req) :
    ∃ env s, Dispatches env job s fullPath req := by
  let unlimited : Shared :=
    { logger := false, written := fun _ => 0, received := fun _ => none, file := fun _ => none,
      fileSent := fun _ _ => 0, trustedProxies := [], behindCf := false, random := none,
      ratelimitCheck := fun _ _ _ => true, apiHandler := some fun _ => .done }
  let conn : ClientConnection :=
    ⟨.insecure, false, [], [], CharArray.ofString 1023 [], CharArray.ofString 64 []⟩
  refine ⟨unlimited, ⟨conn, [], [], none⟩, h, rfl, ?_⟩
  rw [identify, assignAnonId]
  split_ifs
  · exact ⟨_, rfl, rfl⟩
  · exact ⟨_, rfl, rfl⟩

/-- **The filter holds under further decoding just where** the second decoding is made, the target is
refused, or it spells nothing unsafe. -/
theorem filterHolds_iff (job : Job) : FilterHolds job ↔ ∀ target, job.target = some target →
    job.parse.secondPass = true ∨ Refused target ∨ SpellsNothingUnsafe target := by
  constructor
  · intro h target htarget
    by_contra hnot
    simp only [not_or, Bool.not_eq_true] at hnot
    obtain ⟨henv, hrefused, hspells⟩ := hnot
    have hcheck := (checkTarget_iff_of_once henv).2 ⟨hrefused, rfl⟩
    obtain ⟨req, hreq⟩ := arrival_of_target htarget hcheck
    obtain ⟨env, s, hdispatch⟩ := exists_dispatches hreq
    obtain ⟨-, -, -, hsplit⟩ := target_of_arrival hreq
    refine hspells (spells_urlDecode_iff.1 ((dispatchedTexts_iff hsplit).1 fun text htext => ?_))
    exact forall_clean_iff.1 (h env s _ req hdispatch text htext)
  · rintro h env s fullPath req ⟨harrival, -⟩ text htext
    obtain ⟨target, htarget, hcheck, hsplit⟩ := target_of_arrival harrival
    refine forall_clean_iff.2 ((dispatchedTexts_iff hsplit).2 ?_ text htext)
    by_cases henv : job.parse.secondPass = true
    · exact spells_of_secondPass hcheck henv
    · obtain ⟨hrefused, rfl⟩ := (checkTarget_iff_of_once (Bool.eq_false_iff.2 henv)).1 hcheck
      exact spells_urlDecode_iff.2 (((h target htarget).resolve_left henv).resolve_left hrefused)

/-- A request for two dots, each escaped three times, in one read. -/
private def dotsReceived : ReadState :=
  readTurn .start ⟨none, some (ascii "GET /%25252e%25252e/ HTTP/1.1\r\n\r\n"), true, 0⟩

/-- It comes when there is no memory for the second decoding. -/
private def dotsJob : Job where
  mode := .insecure
  clientIp := ascii "192.0.2.1"
  ssl := false
  handshake := false
  buffer := true
  received := ⟨dotsReceived, .next (.start rfl) trivial (if_pos ⟨rfl, by rw [ascii_eq rfl]; decide⟩),
    by decide +kernel⟩
  parse := ⟨false, true⟩

theorem not_filterHolds : ¬ ∀ job, FilterHolds job := by
  intro h
  have htarget : dotsJob.target = some (ascii "/%25252e%25252e/") := by decide +kernel
  have hcheck : checkTarget dotsJob.parse (ascii "/%25252e%25252e/") = .ok (ascii "/%252e%252e/") := by
    decide +kernel
  obtain ⟨req, hreq⟩ := arrival_of_target htarget hcheck
  obtain ⟨env, s, hdispatch⟩ := exists_dispatches hreq
  obtain ⟨-, -, -, hsplit⟩ := target_of_arrival hreq
  have hpath : ascii "/%252e%252e/" = req.path := congrArg Prod.fst hsplit
  have hclean := h dotsJob env s _ req hdispatch req.path (List.mem_cons_self ..) 2
  rw [← hpath] at hclean
  -- two more passes show the dots
  exact hclean.1 (strstr_isSome_iff.1 (by decide))

end Server
end Arws

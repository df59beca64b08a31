import Arws.Ratelimit.Limiter
import Arws.Router.Route

/-!
# The rate limit of a registered route

`client_handler_loop` takes an `IPC_REGISTER` frame apart with `sscanf`, registers its routes, and
sets a rule of the rate limiter for them if the frame asks for one.  The router and the limiter match
hosts and paths each in its own way.

`ruleFits_iff` — the rule covers what the routes match, and no more, for a host of `*` and a prefix
with a slash at its end, and for little else.
-/

set_option autoImplicit false

namespace Arws
namespace Gateway

open CString Ratelimit Router

/-! ## The frame -/

/-- `%Ns`: blanks are passed over, and a word is read as far as the width goes. -/
def scanWord (width : Nat) (s : Bytes) : Option (Bytes × Bytes) :=
  let t := s.dropWhile isSpace
  let word := (t.takeWhile fun c => !isSpace c).take width
  if word = [] then none else some (word, t.drop word.length)

/-- The words that `sscanf` reads one after the other, and the text behind them. -/
def scanWords : List Nat → Bytes → List Bytes × Bytes
  | [], s => ([], s)
  | width :: widths, s =>
    match scanWord width s with
    | none => ([], s)
    | some (word, rest) =>
      let (words, rest) := scanWords widths rest
      (word :: words, rest)

/-- `%d`: the number, and the text behind it. -/
def scanInt (s : Bytes) : Option (Int × Bytes) :=
  let t := s.dropWhile isSpace
  let u := if t.head? = some 45 ∨ t.head? = some 43 then t.tail else t
  let digits := u.takeWhile isDigit
  if digits = [] then none else some (atoi t, u.drop digits.length)

/-- The word behind the first occurrence of a text. -/
def wordBehind (pat : Bytes) (width : Nat) (s : Bytes) : Bytes :=
  (((strstr pat s).bind fun i => scanWord width (s.drop (i + pat.length))).map (·.1)).getD []

structure RegisterFrame where
  name : Bytes
  pathPrefix : Bytes
  method : Bytes
  host : Bytes
  mode : Bytes
  proxyUrl : Bytes
  typeStr : Bytes
  redirectUrl : Bytes
  /-- `rl_max` and `rl_win`, where the frame asks for a limit. -/
  rl : Option (Int × Int)
  deriving DecidableEq

/-- The numbers behind the first `rl=`, if the first one is positive. -/
def scanRl (s : Bytes) : Option (Int × Int) :=
  (strstr (ascii "rl=") s).bind fun i =>
    (scanInt (s.drop (i + 3))).bind fun (max, rest) =>
      let window := if rest.head? = some 44 then ((scanInt rest.tail).map (·.1)).getD 0 else 0
      if max > 0 then some (max, if window ≤ 0 then 60 else window) else none

/-- The text of a frame taken apart. -/
def parseRegister (buf : Bytes) : RegisterFrame :=
  let (words, rest) := scanWords [63, 255, 15, 255, 15] buf
  let behind := rest.dropWhile isSpace
  { name := words.getD 0 []
    pathPrefix := words.getD 1 []
    method := words.getD 2 []
    host := words.getD 3 []
    mode := words.getD 4 []
    proxyUrl :=
      if words.length = 5 ∧ ascii "proxy=" <+: behind then
        ((scanWord 255 (behind.drop 6)).map (·.1)).getD []
      else []
    typeStr := wordBehind (ascii "type=") 15 buf
    redirectUrl := wordBehind (ascii "redirect=") 255 buf
    rl := scanRl buf }

namespace RegisterFrame

/-- The frame registers a redirect, and nothing more. -/
def isRedirect (frame : RegisterFrame) : Bool :=
  frame.redirectUrl != [] || frame.typeStr == ascii "redirect"

/-- `host[0] ? host : "*"`. -/
def hostList (frame : RegisterFrame) : Bytes := if frame.host = [] then ascii "*" else frame.host

def isBlank (c : UInt8) : Bool := c == 32 || c == 9

/-- What `strtok_r` finds between commas, without the blanks around it. -/
def hosts (frame : RegisterFrame) : List Bytes :=
  (((frame.hostList.splitOn 44).filter (· ≠ [])).map fun h =>
    (((h.dropWhile isBlank).reverse.dropWhile isBlank).reverse)).filter (· ≠ [])

/-- The hosts that routes are registered for; `backendId` is what `arws_register_backend` answers to
a frame that names no target. -/
def routeHosts (frame : RegisterFrame) (backendId : Int) : List Bytes :=
  if frame.isRedirect then [frame.host]
  else if frame.proxyUrl ≠ [] ∨ 0 < backendId then frame.hosts
  else []

/-- `rl_path`. -/
def rlPath (frame : RegisterFrame) : Bytes :=
  if frame.pathPrefix.head? = some 47 ∧ frame.pathPrefix ≠ [47] then frame.pathPrefix.take 127
  else [47]

/-- What a frame does to the rules of the limiter. -/
def setRule (frame : RegisterFrame) (s : Limiter) : Limiter :=
  if frame.isRedirect then s
  else match frame.rl with
    | none => s
    | some (max, window) => arwsRatelimitSetRule s (some frame.hostList) frame.rlPath max window

/-- There is a rule for the host and the path already, or room for one. -/
def HasRuleRoom (frame : RegisterFrame) (s : Limiter) : Prop :=
  (∃ r ∈ s.rules, r.host = frame.hostList ∧ r.pathPattern = frame.rlPath) ∨
    s.rules.length < arwsRlMaxRules

instance (frame : RegisterFrame) (s : Limiter) : Decidable (frame.HasRuleRoom s) :=
  inferInstanceAs (Decidable (_ ∨ _))

/-- The rule that a frame stores. -/
def storedRule (frame : RegisterFrame) (s : Limiter) : Option RlRule :=
  if frame.isRedirect = true ∨ ¬ frame.HasRuleRoom s then none
  else frame.rl.map fun (max, window) => ⟨frame.hostList, frame.rlPath, max, window⟩

/-- A route of the frame matches a host and a path. -/
def RouteMatches (frame : RegisterFrame) (backendId : Int) (host path : Bytes) : Prop :=
  (∃ h ∈ frame.routeHosts backendId, hostMatches h host = true) ∧
    Router.pathMatches (normalizedPrefix frame.pathPrefix) path = true

/-- **What the rule is for**: it covers what the routes of the frame match; and for a prefix other
than `/` that does not end in `*` it matches no other path. -/
structure RuleFits (frame : RegisterFrame) (s : Limiter) (backendId : Int) : Prop where
  covers : ∀ host path, frame.RouteMatches backendId host path →
    ∃ r ∈ (frame.setRule s).rules, frame.storedRule s = some r ∧ r.matches (some host) path = true
  tight : frame.pathPrefix ≠ [47] → frame.pathPrefix.getLast? ≠ some 42 →
    ∀ r, frame.storedRule s = some r → ∀ host path, r.matches (some host) path = true →
      Router.pathMatches (normalizedPrefix frame.pathPrefix) path = true

end RegisterFrame

/-! ## The rule is stored -/

theorem length_scanWord_le {width : Nat} {s word rest : Bytes}
    (h : scanWord width s = some (word, rest)) : word.length ≤ width := by
  rw [scanWord] at h
  split at h
  · cases h
  · cases h
    exact List.length_take_le _ _

theorem length_getD_scanWords_le {widths : List Nat} {s : Bytes} (i : Nat) :
    ((scanWords widths s).1.getD i []).length ≤ widths.getD i 0 := by
  induction widths generalizing s i with
  | nil => simp [scanWords]
  | cons width widths ih =>
    rw [scanWords]
    cases hword : scanWord width s with
    | none => simp
    | some r =>
      cases i with
      | zero => simpa using length_scanWord_le hword
      | succ i => simpa using ih i

theorem length_hostList_le (buf : Bytes) : (parseRegister buf).hostList.length ≤ 255 := by
  rw [RegisterFrame.hostList]
  split
  · decide
  · have hlen : ((scanWords [63, 255, 15, 255, 15] buf).1.getD 3 []).length ≤ 255 :=
      length_getD_scanWords_le 3
    exact hlen

/-- The frame stores a rule. -/
def RegisterFrame.Stores (frame : RegisterFrame) (s : Limiter) : Prop :=
  frame.isRedirect = false ∧ frame.rl.isSome = true ∧ frame.HasRuleRoom s

theorem storedRule_eq_none {frame : RegisterFrame} {s : Limiter} (h : ¬ frame.Stores s) :
    frame.storedRule s = none := by
  rw [RegisterFrame.storedRule]
  split_ifs with hno
  · rfl
  · rw [not_or, not_not, Bool.not_eq_true] at hno
    rw [Option.map_eq_none_iff, ← Option.not_isSome_iff_eq_none]
    exact fun hrl => h ⟨hno.1, hrl, hno.2⟩

theorem storedRule_of_stores {frame : RegisterFrame} {s : Limiter} (h : frame.Stores s) :
    ∃ r, frame.storedRule s = some r ∧ r.host = frame.hostList ∧ r.pathPattern = frame.rlPath := by
  obtain ⟨hredirect, hrl, hroom⟩ := h
  obtain ⟨limit, hrl⟩ := Option.isSome_iff_exists.1 hrl
  refine ⟨⟨frame.hostList, frame.rlPath, limit.1, limit.2⟩, ?_, rfl, rfl⟩
  rw [RegisterFrame.storedRule, if_neg, hrl]
  · rfl
  · rw [hredirect]
    exact fun h => h.elim (fun h => by cases h) fun h => h hroom

theorem stores_of_storedRule {frame : RegisterFrame} {s : Limiter} {r : RlRule}
    (h : frame.storedRule s = some r) :
    frame.Stores s ∧ r.host = frame.hostList ∧ r.pathPattern = frame.rlPath := by
  have hstores : frame.Stores s := by
    by_contra hno
    rw [storedRule_eq_none hno] at h
    cases h
  obtain ⟨r', hr', hfields⟩ := storedRule_of_stores hstores
  cases h.symm.trans hr'
  exact ⟨hstores, hfields⟩

/-- **The rule is in the table** behind the frame. -/
theorem mem_setRule {buf : Bytes} {s : Limiter} {r : RlRule}
    (h : (parseRegister buf).storedRule s = some r) : r ∈ ((parseRegister buf).setRule s).rules := by
  have hhost := length_hostList_le buf
  generalize parseRegister buf = frame at h hhost ⊢
  rw [RegisterFrame.storedRule] at h
  split_ifs at h with hno
  obtain ⟨⟨max, window⟩, hrl, rfl⟩ := Option.map_eq_some_iff.1 h
  rw [not_or, not_not, Bool.not_eq_true] at hno
  obtain ⟨hredirect, hroom⟩ := hno
  have hpath : frame.rlPath.length ≤ 127 := by
    rw [RegisterFrame.rlPath]
    split
    · exact List.length_take_le _ _
    · decide
  rw [RegisterFrame.setRule, hredirect, hrl]
  simp only [Bool.false_eq_true, if_false, arwsRatelimitSetRule, Option.getD_some]
  split
  · rename_i i hi
    obtain ⟨hlt, hpair, -⟩ := List.findIdx?_eq_some_iff_getElem.1 hi
    rw [Bool.and_eq_true, beq_iff_eq, beq_iff_eq] at hpair
    refine List.mem_iff_getElem?.2 ⟨i, ?_⟩
    rw [List.getElem?_modify_eq, List.getElem?_eq_getElem hlt, Option.map_eq_map, Option.map_some,
      ← hpair.1, ← hpair.2]
  · rename_i hnone
    have hlen : s.rules.length < arwsRlMaxRules := by
      refine hroom.resolve_left ?_
      rintro ⟨r, hr, hh, hp⟩
      have := List.findIdx?_eq_none_iff.1 hnone r hr
      rw [hh, hp] at this
      simp at this
    rw [if_neg (Nat.not_le.2 hlen), List.take_of_length_le hhost, List.take_of_length_le hpath]
    simp

/-! ## Two matchers -/

theorem hostMatches_self (h : Bytes) : hostMatches h h = true := by
  rw [hostMatches]
  split_ifs with h1 h2
  · rfl
  · exact absurd (Or.inl h2) h1
  · simp [strcaseeq]

theorem hostMatches_www (h : Bytes) : hostMatches h (ascii "www." ++ h) = true := by
  rw [hostMatches]
  split_ifs with h1 h2
  · rfl
  · cases h2
  · have htake : (ascii "www." ++ h).take 4 = ascii "www." := List.take_left' rfl
    have hdrop : (ascii "www." ++ h).drop 4 = h := List.drop_left' rfl
    simp [htake, hdrop, strcaseeq]

/-- The text that a path has to begin with. -/
def stem (pathPrefix : Bytes) : Bytes :=
  if pathPrefix.getLast? = some 42 then pathPrefix.dropLast else pathPrefix

theorem pathMatches_stem (pathPrefix : Bytes) :
    Router.pathMatches pathPrefix (stem pathPrefix) = true := by
  rw [Router.pathMatches, stem]
  split_ifs
  · rfl
  · exact List.isPrefixOf_iff_prefix.2 (List.prefix_refl _)
  · rfl
  · exact absurd rfl ‹_›

theorem stem_prefix_of_pathMatches {pathPrefix path : Bytes}
    (h : Router.pathMatches pathPrefix path = true) : stem pathPrefix <+: path := by
  rw [Router.pathMatches] at h
  rw [stem]
  split_ifs at h with h1 h2 h3
  · rw [h1]
    exact List.nil_prefix
  · rw [if_pos h2]
    exact List.isPrefixOf_iff_prefix.1 h
  · rw [if_neg h2, h3]
  · rw [if_neg h2]
    rw [Bool.and_eq_true, Bool.and_eq_true] at h
    exact List.isPrefixOf_iff_prefix.1 h.1.2

/-- A pattern of the limiter without an asterisk behind a slash. -/
theorem pathMatches_plain {pattern path : Bytes} (h1 : pattern.head? = some 47)
    (h2 : ¬ ascii "/*" <:+ pattern) :
    Ratelimit.pathMatches pattern path = true ↔ pattern <+: path := by
  rw [Ratelimit.pathMatches, if_neg, if_neg h2, List.isPrefixOf_iff_prefix]
  rintro (rfl | rfl)
  · cases h1
  · cases h1

theorem pathMatches_star {pattern path : Bytes} (h1 : pattern.head? = some 47)
    (h2 : ascii "/*" <:+ pattern) :
    Ratelimit.pathMatches pattern path = true ↔ pattern.take (pattern.length - 2) <+: path := by
  rw [Ratelimit.pathMatches, if_neg, if_pos h2, List.isPrefixOf_iff_prefix]
  rintro (rfl | rfl)
  · cases h1
  · cases h1

theorem pathMatches_of_isPrefix {pattern path : Bytes} (h1 : pattern.head? = some 47)
    (h : pattern <+: path) : Ratelimit.pathMatches pattern path = true := by
  by_cases h2 : ascii "/*" <:+ pattern
  · exact (pathMatches_star h1 h2).2 ((List.take_prefix _ _).trans h)
  · exact (pathMatches_plain h1 h2).2 h

theorem pathMatches_slash (path : Bytes) :
    Ratelimit.pathMatches [47] path = true ↔ path.head? = some 47 := by
  rw [pathMatches_plain rfl (by decide), List.prefix_iff_eq_take]
  cases path with
  | nil => simp
  | cons c path => simp [eq_comm]

theorem head?_of_isPrefix {a b : Bytes} {c : UInt8} (h : a <+: b) (hc : a.head? = some c) :
    b.head? = some c := by
  obtain ⟨t, rfl⟩ := h
  rw [List.head?_append, hc]
  rfl

theorem head?_stem {p : Bytes} (h : 2 ≤ p.length) : (stem p).head? = p.head? := by
  rw [stem]
  split
  · match p, h with
    | _ :: _ :: _, _ => rfl
  · rfl

theorem take_prefix_stem {p : Bytes} {n : Nat} (h : n < p.length) : p.take n <+: stem p := by
  rw [stem]
  split
  · rw [List.dropLast_eq_take]
    exact List.take_prefix_take_left (by omega)
  · exact List.take_prefix _ _

/-- The prefix is one whose rule covers every path that its route matches. -/
def PrefixCovered (pathPrefix : Bytes) : Prop :=
  (pathPrefix.head? = some 47 → pathPrefix.getLast? = some 42 →
    ascii "/*" <:+ pathPrefix ∨ 127 < pathPrefix.length) ∧
  (pathPrefix.head? = some 42 → pathPrefix = [42])

/-- The prefix ends with a slash, and fits the rule. -/
def PrefixClosed (pathPrefix : Bytes) : Prop :=
  pathPrefix.head? = some 47 ∧ pathPrefix.getLast? = some 47 ∧ pathPrefix.length ≤ 127

namespace RegisterFrame

variable {frame : RegisterFrame}

theorem normalizedPrefix_of_slash {p : Bytes} (h : p.head? = some 47) : normalizedPrefix p = p := by
  rw [normalizedPrefix, if_neg, if_pos (Or.inl h)]
  rintro rfl
  cases h

theorem rlPath_of_slash (h : frame.pathPrefix.head? = some 47) (hne : frame.pathPrefix ≠ [47]) :
    frame.rlPath = frame.pathPrefix.take 127 := if_pos ⟨h, hne⟩

theorem rlPath_of_other (h : frame.pathPrefix.head? ≠ some 47 ∨ frame.pathPrefix = [47]) :
    frame.rlPath = [47] := by
  rw [rlPath, if_neg]
  rintro ⟨h1, h2⟩
  exact h.elim (fun h => h h1) fun h => h2 h

theorem normalizedPrefix_of_plain {p : Bytes} (h47 : p.head? ≠ some 47) (h42 : p.head? ≠ some 42) :
    normalizedPrefix p = 47 :: p.take 254 := by
  rw [normalizedPrefix, if_neg, if_neg]
  · rfl
  · exact not_or.2 ⟨h47, h42⟩
  · rintro rfl
    exact h42 rfl

/-- **The paths of the route are covered for these prefixes and no others.** -/
theorem covered_iff (frame : RegisterFrame) :
    (∀ path, Router.pathMatches (normalizedPrefix frame.pathPrefix) path = true →
      Ratelimit.pathMatches frame.rlPath path = true) ↔ PrefixCovered frame.pathPrefix := by
  generalize hp : frame.pathPrefix = p
  by_cases h47 : p.head? = some 47
  · rw [normalizedPrefix_of_slash h47]
    by_cases hroot : p = [47]
    · -- the root
      rw [rlPath_of_other (Or.inr (hp.trans hroot)), hroot]
      refine iff_of_true (fun path h => ?_)
        ⟨fun _ h => absurd h (by decide), fun h => absurd h (by decide)⟩
      exact (pathMatches_slash path).2 (head?_of_isPrefix (stem_prefix_of_pathMatches h) rfl)
    · rw [rlPath_of_slash (hp ▸ h47) (hp ▸ hroot), hp]
      have hne : p ≠ [] := fun he => by rw [he] at h47; cases h47
      have htake : (p.take 127).head? = some 47 := by rw [List.head?_take]; simpa using h47
      constructor
      · intro h
        refine ⟨fun _ hlast => ?_, fun h42 => by rw [h47] at h42; cases h42⟩
        by_contra hno
        obtain ⟨hstar, hlen⟩ := not_or.1 hno
        have hstem := h _ (pathMatches_stem p)
        rw [List.take_of_length_le (by omega), pathMatches_plain h47 hstar, stem, if_pos hlast]
          at hstem
        have hle := hstem.length_le
        have hpos := List.length_pos_iff.2 hne
        rw [List.length_dropLast] at hle
        omega
      · intro hcov path hroute
        have hstem := stem_prefix_of_pathMatches hroute
        by_cases hlen : 127 < p.length
        · exact pathMatches_of_isPrefix htake ((take_prefix_stem hlen).trans hstem)
        · rw [List.take_of_length_le (by omega)]
          by_cases hstar : ascii "/*" <:+ p
          · rw [pathMatches_star h47 hstar]
            have := hstar.length_le
            exact (take_prefix_stem (Nat.sub_lt (List.length_pos_iff.2 hne) (by decide))).trans hstem
          · rw [pathMatches_plain h47 hstar]
            rwa [stem, if_neg fun hlast => (hcov.1 h47 hlast).elim hstar hlen] at hstem
  · rw [rlPath_of_other (Or.inl (hp ▸ h47))]
    by_cases h42 : p.head? = some 42
    · by_cases hall : p = [42]
      · -- every path
        rw [hall]
        refine iff_of_true (fun path h => ?_) ⟨fun h => absurd h (by decide), fun _ => rfl⟩
        exact (pathMatches_slash path).2 (head?_of_isPrefix (stem_prefix_of_pathMatches h) rfl)
      · have hnorm : normalizedPrefix p = p := by
          rw [normalizedPrefix, if_neg hall, if_pos (Or.inr h42)]
        have hlen : 2 ≤ p.length := by
          match p, h42, hall with
          | [_], h42, hall => cases h42; exact absurd rfl hall
          | _ :: _ :: _, _, _ => simp
        rw [hnorm]
        refine iff_of_false (fun h => ?_) fun hcov => hall (hcov.2 h42)
        have hslash := (pathMatches_slash _).1 (h _ (pathMatches_stem p))
        rw [head?_stem hlen, h42] at hslash
        cases hslash
    · rw [normalizedPrefix_of_plain h47 h42]
      refine iff_of_true (fun path h => ?_) ⟨fun h => absurd h h47, fun h => absurd h h42⟩
      refine (pathMatches_slash path).2 (head?_of_isPrefix (stem_prefix_of_pathMatches h) ?_)
      cases p with
      | nil => rfl
      | cons c p => rw [head?_stem (by simp)]; rfl

/-- **The rule matches no other paths for these prefixes and no others.** -/
theorem tight_iff (hne : frame.pathPrefix ≠ [47]) (hlast : frame.pathPrefix.getLast? ≠ some 42) :
    (∀ path, Ratelimit.pathMatches frame.rlPath path = true →
      Router.pathMatches (normalizedPrefix frame.pathPrefix) path = true) ↔
      PrefixClosed frame.pathPrefix := by
  generalize hp : frame.pathPrefix = p at hne hlast ⊢
  by_cases h47 : p.head? = some 47
  · rw [normalizedPrefix_of_slash h47, rlPath_of_slash (hp ▸ h47) (hp ▸ hne), hp]
    have htake : (p.take 127).head? = some 47 := by rw [List.head?_take]; simpa using h47
    have hstem : stem p = p := if_neg hlast
    constructor
    · intro h
      have hlen : p.length ≤ 127 := by
        have := stem_prefix_of_pathMatches (h _ (pathMatches_of_isPrefix htake (List.prefix_refl _)))
        rw [hstem] at this
        have := this.length_le
        rw [List.length_take] at this
        omega
      refine ⟨h47, ?_, hlen⟩
      by_contra hslash
      -- a path that goes on without a slash
      rw [List.take_of_length_le hlen] at h
      have := h (p ++ [97]) (pathMatches_of_isPrefix h47 (List.prefix_append _ _))
      rw [Router.pathMatches, if_neg (fun he => by rw [he] at h47; cases h47), if_neg hlast,
        if_neg (by simp), List.drop_left] at this
      simp [hslash] at this
    · rintro ⟨-, hslash, hlen⟩ path hrule
      have hstar : ¬ ascii "/*" <:+ p := by
        rintro ⟨t, rfl⟩
        simp [ascii] at hlast
      rw [List.take_of_length_le hlen, pathMatches_plain h47 hstar] at hrule
      have hlong : 1 < p.length := by
        rcases p with _ | ⟨c, _ | ⟨d, rest⟩⟩
        · cases h47
        · cases h47
          exact absurd rfl hne
        · simp
      rw [Router.pathMatches, if_neg (fun he => by rw [he] at h47; cases h47), if_neg hlast]
      split_ifs
      · rfl
      · rw [decide_eq_true hlong, List.isPrefixOf_iff_prefix.2 hrule, hslash]
        cases (path.drop p.length).head? <;> simp
  · rw [rlPath_of_other (Or.inl (hp ▸ h47))]
    refine iff_of_false (fun h => ?_) fun hclosed => h47 hclosed.1
    by_cases h42 : p.head? = some 42
    · have hnorm : normalizedPrefix p = p := by
        rw [normalizedPrefix, if_neg (fun he => by rw [he] at hlast; exact hlast rfl),
          if_pos (Or.inr h42)]
      have := stem_prefix_of_pathMatches (h [47] (by decide))
      rw [hnorm, stem, if_neg hlast] at this
      have := head?_of_isPrefix this h42
      cases this
    · rw [normalizedPrefix_of_plain h47 h42] at h
      cases p with
      | nil => exact absurd (h [47, 97] (by decide)) (by decide)
      | cons c p =>
        have hc : c ≠ 42 := fun hc => h42 (by rw [hc]; rfl)
        have hroot := (stem_prefix_of_pathMatches (h [47] (by decide))).length_le
        rw [List.take_succ_cons] at hroot
        cases hq : p.take 253 with
        | nil => rw [hq, stem, if_neg (by simpa using hc)] at hroot; cases hroot; contradiction
        | cons d q => rw [hq, stem] at hroot; split at hroot <;> simp at hroot

/-- The prefix as it is stored matches some path. -/
theorem exists_pathMatches (p : Bytes) : ∃ path, Router.pathMatches p path = true :=
  ⟨_, pathMatches_stem p⟩

/-- A host that a route serves, and the same host with `www.` before it, are not both the name of
the rule. -/
theorem hostList_eq_star {backendId : Int} {s : Limiter} {t : Bytes}
    (ht : t ∈ frame.routeHosts backendId) (h : frame.RuleFits s backendId) :
    frame.hostList = [42] := by
  have hne : frame.hostList ≠ [] := by
    rw [hostList]
    split_ifs with hhost
    · decide
    · exact hhost
  obtain ⟨path, hpath⟩ := exists_pathMatches (normalizedPrefix frame.pathPrefix)
  have hrule : ∀ host, hostMatches t host = true → frame.hostList ≠ [42] → host = frame.hostList := by
    intro host hhost hstar
    obtain ⟨r, -, hr, hmatch⟩ := h.covers host path ⟨⟨t, ht, hhost⟩, hpath⟩
    have hstores : frame.Stores s := by
      by_contra hno
      rw [storedRule_eq_none hno] at hr
      cases hr
    obtain ⟨r', hr', hhost', -⟩ := storedRule_of_stores hstores
    rw [hr, Option.some.injEq] at hr'
    rw [RlRule.matches, hr', hhost'] at hmatch
    rw [Bool.and_eq_true, Bool.or_eq_true, Bool.or_eq_true] at hmatch
    obtain ⟨(hnil | hany) | hsame, -⟩ := hmatch
    · exact absurd (beq_iff_eq.1 hnil) hne
    · exact absurd (beq_iff_eq.1 hany) hstar
    · exact Option.some.inj (beq_iff_eq.1 hsame)
  by_contra hstar
  have h1 := hrule t (hostMatches_self t) hstar
  have h2 := hrule _ (hostMatches_www t) hstar
  have := congrArg List.length (h2.trans h1.symm)
  rw [List.length_append] at this
  simp [ascii] at this

/-- The host and the prefix of a frame are such that its rule covers its routes. -/
def Covered (frame : RegisterFrame) (s : Limiter) (backendId : Int) : Prop :=
  frame.routeHosts backendId = [] ∨
    frame.Stores s ∧ frame.hostList = [42] ∧ PrefixCovered frame.pathPrefix

/-- The prefix of a frame is such that its rule covers nothing else. -/
def Tight (frame : RegisterFrame) (s : Limiter) : Prop :=
  frame.pathPrefix = [47] ∨ frame.pathPrefix.getLast? = some 42 ∨ ¬ frame.Stores s ∨
    PrefixClosed frame.pathPrefix

theorem RuleFits.covered {s : Limiter} {backendId : Int} (h : frame.RuleFits s backendId) :
    frame.Covered s backendId := by
  cases hhosts : frame.routeHosts backendId with
  | nil => exact Or.inl hhosts
  | cons t hosts =>
    have ht : t ∈ frame.routeHosts backendId := by rw [hhosts]; exact List.mem_cons_self
    -- a request that the first of the routes matches
    have hserve : ∀ path, Router.pathMatches (normalizedPrefix frame.pathPrefix) path = true →
        frame.Stores s ∧ Ratelimit.pathMatches frame.rlPath path = true := by
      intro path hpath
      obtain ⟨r, -, hr, hmatch⟩ := h.covers t path ⟨⟨t, ht, hostMatches_self t⟩, hpath⟩
      obtain ⟨hstores, -, hpattern⟩ := stores_of_storedRule hr
      rw [RlRule.matches, hpattern, Bool.and_eq_true] at hmatch
      exact ⟨hstores, hmatch.2⟩
    obtain ⟨path, hpath⟩ := exists_pathMatches (normalizedPrefix frame.pathPrefix)
    exact Or.inr ⟨(hserve path hpath).1, hostList_eq_star ht h,
      (covered_iff frame).1 fun path hpath => (hserve path hpath).2⟩

theorem RuleFits.isTight {s : Limiter} {backendId : Int} (h : frame.RuleFits s backendId) :
    frame.Tight s := by
  by_cases hroot : frame.pathPrefix = [47]
  · exact Or.inl hroot
  by_cases hlast : frame.pathPrefix.getLast? = some 42
  · exact Or.inr (Or.inl hlast)
  by_cases hstores : frame.Stores s
  · obtain ⟨r, hr, hhost, hpattern⟩ := storedRule_of_stores hstores
    refine Or.inr (Or.inr (Or.inr ((tight_iff hroot hlast).1 fun path hpath => ?_)))
    refine h.tight hroot hlast r hr frame.hostList path ?_
    rw [RlRule.matches, hhost, hpattern, hpath]
    simp
  · exact Or.inr (Or.inr (Or.inl hstores))

end RegisterFrame

open RegisterFrame

/-- **The rule of a frame covers its routes, and nothing else, exactly** for such hosts and
prefixes. -/
theorem ruleFits_iff (s : Limiter) (backendId : Int) (buf : Bytes) :
    (parseRegister buf).RuleFits s backendId ↔
      (parseRegister buf).Covered s backendId ∧ (parseRegister buf).Tight s := by
  refine ⟨fun h => ⟨h.covered, h.isTight⟩, fun ⟨hcovered, htight⟩ => ⟨?_, ?_⟩⟩
  · rintro host path ⟨⟨t, ht, -⟩, hpath⟩
    obtain hnone | ⟨hstores, hstar, hcov⟩ := hcovered
    · rw [hnone] at ht
      cases ht
    · obtain ⟨r, hr, hhost, hpattern⟩ := storedRule_of_stores hstores
      refine ⟨r, mem_setRule hr, hr, ?_⟩
      rw [RlRule.matches, hhost, hpattern, hstar, (covered_iff _).2 hcov path hpath]
      rfl
  · intro hroot hlast r hr host path hmatch
    obtain ⟨hstores, -, hpattern⟩ := stores_of_storedRule hr
    rw [RlRule.matches, hpattern, Bool.and_eq_true] at hmatch
    have hclosed := ((htight.resolve_left hroot).resolve_left hlast).resolve_left
      fun hno => hno hstores
    exact (tight_iff hroot hlast).2 hclosed path hmatch.2

/-- A frame for one host: a request that gives the host with `www.` before it goes by the rule. -/
theorem not_ruleFits : ¬ ∀ (s : Limiter) (backendId : Int) (buf : Bytes),
    (parseRegister buf).rl.isSome = true → (parseRegister buf).RuleFits s backendId := by
  intro h
  have hfits := h arwsRatelimitInit 1
    (ascii "app /api/ * example.com production proxy=http://b rl=5,60") (by decide)
  obtain ⟨r, -, hr, hmatch⟩ := hfits.covers (ascii "www.example.com") (ascii "/api/")
    ⟨⟨ascii "example.com", by decide, by decide⟩, by decide⟩
  have hrule : (parseRegister (ascii "app /api/ * example.com production proxy=http://b rl=5,60")
      |>.storedRule arwsRatelimitInit) = some ⟨ascii "example.com", ascii "/api/", 5, 60⟩ := by decide
  rw [hr, Option.some.injEq] at hrule
  rw [hrule] at hmatch
  revert hmatch
  decide

end Gateway
end Arws

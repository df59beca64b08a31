import Arws.Library.KeyedTable
import Arws.Ratelimit.PerAddress

/-!
# The order of the rules

`arws_ratelimit_set_rule` puts a rule behind the others, and a check is counted against the first that
matches.  So which of two rules decides for a request that both match is a matter of which app came first.

A rule is stored with its host and its pattern cut to their arrays, and found again only if nothing of them
was cut.  A rule that was cut short is written over by the one that has what is left of it, or stands behind
it: it never decides (`RuleCall.Effective`).

* `exists_effective` — the rule for a request is one that is effective.
* `ruleFor_head` — and any effective rule that matches is the rule for it where it was set first.
* `orderFree_iff` — so the order does not matter exactly if all effective rules that one request can match
  have limits that decide alike.
-/

set_option autoImplicit false

namespace Arws
namespace Ratelimit

open CString FixedWindow KeyedTable

/-- The arguments of `arws_ratelimit_set_rule`. -/
structure RuleCall where
  host : Option Bytes
  pathPattern : Bytes
  maxReq : Int
  windowSec : Int
  deriving DecidableEq

def installRule (s : Limiter) (a : RuleCall) : Limiter :=
  arwsRatelimitSetRule s a.host a.pathPattern a.maxReq a.windowSec

/-- The limiter that was started and given the rules, one after the other. -/
def installed (rules : List RuleCall) : Limiter := rules.foldl installRule arwsRatelimitInit

/-- What a rule is found by. -/
def RlRule.key (r : RlRule) : Bytes × Bytes := (r.host, r.pathPattern)

def RuleCall.key (a : RuleCall) : Bytes × Bytes := (a.host.getD (ascii "*"), a.pathPattern)

/-- What fits of a host and a pattern. -/
def cutKey (k : Bytes × Bytes) : Bytes × Bytes := (k.1.take 255, k.2.take 127)

/-- The rule that is stored. -/
def RuleCall.rule (a : RuleCall) : RlRule :=
  ⟨(cutKey a.key).1, (cutKey a.key).2, a.maxReq, a.windowSec⟩

/-- **The order of the rules does not matter**: set in any two orders, they decide every sequence of calls
alike. -/
def OrderFree (rules : List RuleCall) : Prop :=
  ∀ a b, a.Perm rules → b.Perm rules → ∀ calls, InTime calls →
    decisions (installed a) calls = decisions (installed b) calls

/-- No other of the rules has for its host and pattern what is left of those of this one. -/
def RuleCall.Effective (rules : List RuleCall) (a : RuleCall) : Prop :=
  ∀ b ∈ rules, b.key = cutKey a.key → b = a

/-- What a path has to begin with. -/
def stemOf (pattern : Bytes) : Bytes :=
  if pattern = [42] then []
  else if ascii "/*" <:+ pattern then pattern.take (pattern.length - 2) else pattern

def RlRule.anyHost (r : RlRule) : Bool := r.host == [] || r.host == [42]

/-- One request can match both rules. -/
def RlRule.Overlaps (r r' : RlRule) : Prop :=
  (r.anyHost = true ∨ r'.anyHost = true ∨ r.host = r'.host) ∧
    (stemOf r.pathPattern <+: stemOf r'.pathPattern ∨ stemOf r'.pathPattern <+: stemOf r.pathPattern)

/-- Effective rules that one request can match decide alike. -/
def Agreeing (rules : List RuleCall) : Prop :=
  ∀ a ∈ rules, ∀ b ∈ rules, a.Effective rules → b.Effective rules → a.rule.Overlaps b.rule →
    a.rule.limit.Alike b.rule.limit

instance (rules : List RuleCall) (a : RuleCall) : Decidable (a.Effective rules) :=
  inferInstanceAs (Decidable (∀ b ∈ rules, b.key = cutKey a.key → b = a))

instance (r r' : RlRule) : Decidable (r.Overlaps r') := inferInstanceAs (Decidable (_ ∧ _))

instance (rules : List RuleCall) : Decidable (Agreeing rules) :=
  inferInstanceAs (Decidable (∀ a ∈ rules, ∀ b ∈ rules, a.Effective rules → b.Effective rules →
    a.rule.Overlaps b.rule → a.rule.limit.Alike b.rule.limit))

/-! ## Which requests match -/

theorem pathMatches_iff (pattern path : Bytes) : pathMatches pattern path = true ↔ stemOf pattern <+: path := by
  rw [pathMatches, stemOf]
  by_cases hnil : pattern = []
  · rw [if_pos (Or.inl hnil), hnil]
    exact iff_of_true rfl List.nil_prefix
  by_cases hstar : pattern = [42]
  · rw [if_pos (Or.inr hstar), if_pos hstar]
    exact iff_of_true rfl List.nil_prefix
  rw [if_neg (by simp [hnil, hstar]), if_neg hstar]
  split_ifs
  · exact List.isPrefixOf_iff_prefix
  · exact List.isPrefixOf_iff_prefix

theorem matches_iff (r : RlRule) (host : Option Bytes) (path : Bytes) : r.matches host path = true ↔
    (r.anyHost = true ∨ host = some r.host) ∧ stemOf r.pathPattern <+: path := by
  rw [RlRule.matches, Bool.and_eq_true, pathMatches_iff, Bool.or_eq_true, beq_iff_eq]
  rfl

/-- A rule matches by its host and its pattern. -/
theorem matches_of_key {r r' : RlRule} (h : r.key = r'.key) (host : Option Bytes) (path : Bytes) :
    r.matches host path = r'.matches host path := by
  obtain ⟨hhost, hpattern⟩ := Prod.mk.inj h
  rw [RlRule.matches, RlRule.matches, hhost, hpattern]

theorem overlaps_iff (r r' : RlRule) : r.Overlaps r' ↔
    ∃ host path, r.matches host path = true ∧ r'.matches host path = true := by
  simp only [matches_iff]
  constructor
  · rintro ⟨hhost, hstem⟩
    obtain ⟨path, hpath, hpath'⟩ : ∃ path, stemOf r.pathPattern <+: path ∧ stemOf r'.pathPattern <+: path := by
      rcases hstem with hle | hle
      · exact ⟨_, hle, List.prefix_rfl⟩
      · exact ⟨_, List.prefix_rfl, hle⟩
    rcases hhost with hany | hany | heq
    · exact ⟨some r'.host, path, ⟨Or.inl hany, hpath⟩, Or.inr rfl, hpath'⟩
    · exact ⟨some r.host, path, ⟨Or.inr rfl, hpath⟩, Or.inl hany, hpath'⟩
    · exact ⟨some r.host, path, ⟨Or.inr rfl, hpath⟩, Or.inr (congrArg some heq), hpath'⟩
  · rintro ⟨host, path, ⟨hhost, hpath⟩, hhost', hpath'⟩
    refine ⟨?_, List.prefix_or_prefix_of_prefix hpath hpath'⟩
    rcases hhost with hany | heq
    · exact Or.inl hany
    · rcases hhost' with hany | heq'
      · exact Or.inr (Or.inl hany)
      · exact Or.inr (Or.inr (Option.some.inj (heq.symm.trans heq')))

/-! ## What is stored -/

theorem cutKey_cutKey (k : Bytes × Bytes) : cutKey (cutKey k) = cutKey k := by
  rw [cutKey, cutKey, List.take_take, List.take_take, Nat.min_self, Nat.min_self]

/-- Rules with a key are found by it: the one whose own it is, or else the first that was cut to it. -/
structure Stored (s : Limiter) (rules : List RuleCall) : Prop where
  entries : s.entries = arwsRatelimitInit.entries
  length_le : s.rules.length ≤ rules.length
  cut : ∀ k ∈ s.rules.map RlRule.key, cutKey k = k
  lookup_eq : ∀ k, cutKey k = k → lookup RlRule.key s.rules k =
    ((lookup RuleCall.key rules k).or (lookup (fun a => cutKey a.key) rules k)).map RuleCall.rule
  head : (s.rules.map RlRule.key).head? = (rules.map fun a => cutKey a.key).head?

theorem installRule_cases (s : Limiter) (a : RuleCall) : (installRule s a).entries = s.entries ∧
    ((∃ i, s.rules.findIdx? (fun r => r.key = a.key) = some i ∧
        (installRule s a).rules = s.rules.modify i fun r =>
          { r with maxRequests := a.maxReq, windowSeconds := a.windowSec }) ∨
      a.key ∉ s.rules.map RlRule.key ∧
        (s.rules.length < arwsRlMaxRules → (installRule s a).rules = s.rules ++ [a.rule])) := by
  have hkey : (fun r : RlRule => r.host == a.host.getD (ascii "*") && r.pathPattern == a.pathPattern) =
      fun r => decide (r.key = a.key) := by
    funext r
    rw [Bool.eq_iff_iff, Bool.and_eq_true, beq_iff_eq, beq_iff_eq, decide_eq_true_eq, RlRule.key,
      RuleCall.key, Prod.mk.injEq]
  rw [installRule, arwsRatelimitSetRule]
  simp only [hkey]
  cases hfind : s.rules.findIdx? fun r => decide (r.key = a.key) with
  | some i => exact ⟨rfl, Or.inl ⟨i, rfl, rfl⟩⟩
  | none =>
    simp only
    refine ⟨by split <;> rfl, Or.inr ⟨fun hmem => ?_, fun hroom => ?_⟩⟩
    · obtain ⟨r, hr, hrk⟩ := List.mem_map.1 hmem
      have := List.findIdx?_eq_none_iff.1 hfind r hr
      exact absurd hrk (of_decide_eq_false this)
    · rw [if_neg (Nat.not_le.2 hroom)]
      rfl

/-- A rule that is set once more. -/
theorem Stored.install {s : Limiter} {rules : List RuleCall} {a : RuleCall} (h : Stored s rules)
    (hnew : a.key ∉ rules.map RuleCall.key) (hroom : rules.length < arwsRlMaxRules) :
    Stored (installRule s a) (rules ++ [a]) := by
  have hown : lookup RuleCall.key rules a.key = none := lookup_eq_none_iff.2 hnew
  obtain ⟨hentries, ⟨i, hi, hrules⟩ | ⟨hnone, hrules⟩⟩ := installRule_cases s a
  · -- a rule that was cut to the key of the new one is written over
    have hf : ∀ r : RlRule,
        RlRule.key { r with maxRequests := a.maxReq, windowSeconds := a.windowSec } = r.key := fun _ => rfl
    have hkeys : (installRule s a).rules.map RlRule.key = s.rules.map RlRule.key := by
      rw [hrules, map_modify hf]
    obtain ⟨r, hr⟩ : ∃ r, lookup RlRule.key s.rules a.key = some r := by
      rw [← Option.ne_none_iff_exists', lookup, ne_eq, List.find?_eq_none]
      intro hall
      obtain ⟨hlt, hp, -⟩ := List.findIdx?_eq_some_iff_getElem.1 hi
      exact hall _ (List.getElem_mem hlt) hp
    have hrkey : r.key = a.key := of_decide_eq_true (List.find?_some hr :)
    have hcut : cutKey a.key = a.key :=
      h.cut _ (hrkey ▸ List.mem_map_of_mem (List.mem_of_find?_eq_some hr))
    have hrule : a.rule = { r with maxRequests := a.maxReq, windowSeconds := a.windowSec } := by
      rw [RuleCall.rule, hcut, ← hrkey]
      rfl
    refine ⟨hentries.trans h.entries, ?_, hkeys ▸ h.cut, fun k hk => ?_, ?_⟩
    · rw [hrules, List.length_modify, List.length_append]
      exact h.length_le.trans (Nat.le_succ _)
    · rw [hrules, lookup_modify_first hf hi, lookup_append_singleton, lookup_append_singleton]
      by_cases hka : k = a.key
      · rw [if_pos hka, hka, hr, hown, if_pos rfl, Option.none_or, Option.some_or]
        exact congrArg some hrule.symm
      · rw [if_neg hka, if_neg (Ne.symm hka), hcut, if_neg (Ne.symm hka), Option.or_none,
          Option.or_none]
        exact h.lookup_eq k hk
    · have hne : (s.rules.map RlRule.key).head? ≠ none := by
        rw [ne_eq, List.head?_eq_none_iff, List.map_eq_nil_iff]
        exact List.ne_nil_of_mem (List.mem_of_find?_eq_some hr)
      rw [hkeys, h.head, List.map_append, List.head?_append]
      rw [h.head] at hne
      obtain ⟨k, hk⟩ := Option.ne_none_iff_exists'.1 hne
      rw [hk, Option.some_or]
  · have hrules := hrules (h.length_le.trans_lt hroom)
    refine ⟨hentries.trans h.entries, ?_, ?_, fun k hk => ?_, ?_⟩
    · rw [hrules, List.length_append, List.length_append]
      exact Nat.add_le_add_right h.length_le 1
    · rw [hrules, List.map_append]
      intro k hk
      rcases List.mem_append.1 hk with hk | hk
      · exact h.cut k hk
      · rw [List.mem_singleton.1 hk]
        exact cutKey_cutKey a.key
    · rw [hrules, lookup_append_singleton, lookup_append_singleton, lookup_append_singleton,
        show a.rule.key = cutKey a.key from rfl]
      by_cases hka : a.key = k
      · have hnothing := h.lookup_eq k hk
        rw [← hka, lookup_eq_none_iff.2 hnone, hown, Option.none_or, eq_comm,
          Option.map_eq_none_iff] at hnothing
        rw [← hka] at hk ⊢
        rw [lookup_eq_none_iff.2 hnone, hown, if_pos hk, if_pos rfl]
        rfl
      · rw [if_neg hka, Option.or_none, h.lookup_eq k hk, ← Option.or_assoc]
        generalize (lookup RuleCall.key rules k).or (lookup (fun a => cutKey a.key) rules k) = found
        cases found with
        | some b => rfl
        | none => split <;> rfl
    · rw [hrules, List.map_append, List.map_append, List.head?_append, List.head?_append, h.head]
      rfl

theorem stored_installed {rules : List RuleCall} (hkeys : (rules.map RuleCall.key).Nodup)
    (hlen : rules.length ≤ arwsRlMaxRules) : Stored (installed rules) rules := by
  induction rules using List.reverseRecOn with
  | nil => exact ⟨rfl, le_rfl, fun k hk => absurd hk List.not_mem_nil, fun k _ => rfl, rfl⟩
  | append_singleton rules a ih =>
    obtain ⟨hkeys, hnew⟩ := nodup_concat.1 hkeys
    rw [List.length_append] at hlen
    have h := (ih hkeys (Nat.le_of_succ_le hlen)).install hnew hlen
    rwa [installed, List.foldl_append]

/-! ## The rule for a request -/

section RuleFor

variable {s : Limiter} {rules : List RuleCall} {host : Option Bytes} {path : Bytes} {a : RuleCall}
  {r : RlRule}

theorem matches_of_ruleFor {rules : List RlRule} (h : ruleFor rules host path = some r) :
    r.matches host path = true := by
  rw [ruleFor] at h
  exact (List.find?_some h :)

/-- The first rule that matches is the first with its key. -/
theorem lookup_of_ruleFor (h : ruleFor s.rules host path = some r) :
    lookup RlRule.key s.rules r.key = some r := by
  obtain ⟨hmatch, before, behind, heq, hbefore⟩ := List.find?_eq_some_iff_append.1 h
  refine List.find?_eq_some_iff_append.2 ⟨decide_eq_true rfl, before, behind, heq, fun r' hr' => ?_⟩
  have hnot := hbefore r' hr'
  rw [Bool.not_eq_true'] at hnot ⊢
  refine decide_eq_false fun hkey => ?_
  rw [matches_of_key hkey, hmatch] at hnot
  cases hnot

/-- **The rule for a request is effective.** -/
theorem exists_effective (h : Stored s rules) (hkeys : (rules.map RuleCall.key).Nodup)
    (hr : ruleFor s.rules host path = some r) : ∃ a ∈ rules, a.Effective rules ∧ a.rule = r := by
  have hlookup := lookup_of_ruleFor hr
  have hcut : cutKey r.key = r.key :=
    h.cut _ (List.mem_map_of_mem (List.mem_of_find?_eq_some hlookup))
  rw [h.lookup_eq _ hcut, Option.map_eq_some_iff] at hlookup
  obtain ⟨a, ha, rfl⟩ := hlookup
  rw [Option.or_eq_some_iff] at ha
  rcases ha with hown | ⟨hnone, hother⟩
  · obtain ⟨hmem, hkey⟩ := (lookup_eq_some_iff hkeys).1 hown
    refine ⟨a, hmem, fun b hb hbk => ?_, rfl⟩
    exact List.inj_on_of_nodup_map hkeys hb hmem (hbk.trans hkey.symm)
  · refine ⟨a, List.mem_of_find?_eq_some hother, fun b hb hbk => ?_, rfl⟩
    exact absurd (List.mem_map.2 ⟨b, hb, hbk⟩) (lookup_eq_none_iff.1 hnone)

/-- What is stored for a rule is found by its key. -/
theorem exists_stored (h : Stored s rules) (ha : a ∈ rules) : ∃ r ∈ s.rules, r.key = a.rule.key := by
  cases hlookup : lookup RlRule.key s.rules (cutKey a.key) with
  | some r => exact ⟨r, List.mem_of_find?_eq_some hlookup, of_decide_eq_true (List.find?_some hlookup :)⟩
  | none =>
    rw [h.lookup_eq _ (cutKey_cutKey a.key), Option.map_eq_none_iff, Option.or_eq_none_iff] at hlookup
    have := lookup_eq_none_iff.1 hlookup.2
    exact absurd (List.mem_map.2 ⟨a, ha, rfl⟩) this

/-- A rule that matches has a rule for the request. -/
theorem ruleFor_ne_none (h : Stored s rules) (ha : a ∈ rules) (hmatch : a.rule.matches host path = true) :
    ruleFor s.rules host path ≠ none := by
  obtain ⟨r, hr, hkey⟩ := exists_stored h ha
  intro hnone
  have := List.find?_eq_none.1 hnone r hr
  rw [matches_of_key hkey, hmatch] at this
  exact this rfl

/-- **An effective rule that was set first decides** for the requests it matches. -/
theorem ruleFor_head (h : Stored s (a :: rules)) (heff : a.Effective (a :: rules))
    (hmatch : a.rule.matches host path = true) : ruleFor s.rules host path = some a.rule := by
  have hhead := h.head
  rw [List.map_cons, List.head?_cons] at hhead
  cases hrules : s.rules with
  | nil =>
    rw [hrules] at hhead
    cases hhead
  | cons r rest =>
    rw [hrules, List.map_cons, List.head?_cons, Option.some.injEq] at hhead
    have hfirst : ruleFor s.rules host path = some r := by
      rw [hrules, ruleFor, List.find?_cons_of_pos]
      rw [matches_of_key (show r.key = a.rule.key from hhead), hmatch]
    have hlookup := lookup_of_ruleFor hfirst
    rw [hhead, h.lookup_eq _ (cutKey_cutKey a.key), Option.map_eq_some_iff] at hlookup
    obtain ⟨b, hb, hrule⟩ := hlookup
    have hba : b = a := by
      rw [Option.or_eq_some_iff] at hb
      rcases hb with hown | ⟨-, hother⟩
      · exact heff b (List.mem_of_find?_eq_some hown) (of_decide_eq_true (List.find?_some hown :))
      · rw [lookup, List.find?_cons_of_pos (by simp)] at hother
        exact (Option.some.inj hother).symm
    rw [← hrules, hfirst, ← hrule, hba]

end RuleFor

/-! ## Limits that decide alike -/

theorem counted_of_alike {e : RlEntry} {now : Nat} {l l' : Limit} (h : l.Alike l') :
    e.counted now l = e.counted now l' := by
  obtain ⟨hwindow, hmax⟩ := h
  rw [RlEntry.counted, RlEntry.counted, ← hwindow]
  split_ifs with hover
  · rfl
  · congr 1
    rw [decide_eq_decide]
    rcases hmax with hmax | ⟨hone, hone'⟩ | hzero
    · rw [hmax]
    · omega
    · exact absurd (hzero ▸ Nat.zero_le _) hover

/-- The limiters decide alike: the same entries, and limits that are alike for every request. -/
structure Limiter.Alike (s t : Limiter) : Prop where
  entries : s.entries = t.entries
  limit : ∀ host path, (limitFor s.rules host path).Alike (limitFor t.rules host path)

theorem Limiter.Alike.check {s t : Limiter} (h : s.Alike t) (ip : Bytes) (c : Check) :
    (arwsRatelimitCheck s ip c).2 = (arwsRatelimitCheck t ip c).2 ∧
      (arwsRatelimitCheck s ip c).1.Alike (arwsRatelimitCheck t ip c).1 := by
  obtain ⟨entries, rules⟩ := s
  obtain ⟨entries', rules'⟩ := t
  obtain rfl : entries = entries' := h.entries
  have hlimit := h.limit c.host c.path
  have hisBlocked : ∀ rules : List RlRule, arwsRatelimitIsBlocked ⟨entries, rules⟩ ip c.asked =
      (⟨(arwsRatelimitIsBlocked ⟨entries, []⟩ ip c.asked).1.entries, rules⟩,
        (arwsRatelimitIsBlocked ⟨entries, []⟩ ip c.asked).2) := by
    intro rules
    simp only [arwsRatelimitIsBlocked]
    cases entries.findIdx? (·.holds ip) <;> rfl
  rw [arwsRatelimitCheck, arwsRatelimitCheck, hisBlocked, hisBlocked rules']
  simp only
  split_ifs
  · exact ⟨rfl, rfl, h.limit⟩
  · split
    · exact ⟨rfl, rfl, h.limit⟩
    · rw [counted_of_alike hlimit]
      exact ⟨rfl, rfl, h.limit⟩

theorem decisions_of_alike {s t : Limiter} (h : s.Alike t) (calls : List RlCall) :
    decisions s calls = decisions t calls := by
  induction calls generalizing s t with
  | nil => rfl
  | cons c calls ih =>
    obtain ⟨hok, hnext⟩ := h.check c.ip c.check
    rw [decisions, decisions, hok, ih hnext]

/-! ## Limits that do not -/

/-- The last of some calls of one address is decided by what the counter has counted of the others. -/
theorem getLast?_reference (limit : RlCall → Limit) (counters : Bytes → Option Counter)
    {calls : List RlCall} {c : RlCall} (h : ∀ d ∈ calls, d.ip = c.ip) :
    (reference limit counters (calls ++ [c])).getLast? =
      some (admitted (counters c.ip) (calls.map (·.hit limit)) (c.hit limit)) := by
  induction calls generalizing counters with
  | nil => rfl
  | cons d calls ih =>
    have hne : reference limit (Function.update counters d.ip (some (d.counted limit counters).1))
        (calls ++ [c]) ≠ [] := by
      cases calls <;> exact List.cons_ne_nil _ _
    have hd := h d List.mem_cons_self
    rw [List.cons_append, reference, List.getLast?_cons_of_ne_nil hne,
      ih _ fun x hx => h x (List.mem_cons_of_mem d hx), hd, Function.update_self]
    simp only [admitted, run, List.map_cons, List.foldl_cons, RlCall.counted, hd]

/-- A call of an address at a moment. -/
private def probeAt (host : Option Bytes) (path : Bytes) (t : Nat) : RlCall :=
  ⟨ascii "10.0.0.1", host, path, t, t⟩

private theorem inTime_probes (host : Option Bytes) (path : Bytes) (n : Nat) {t : Nat} (ht : t < 2 ^ 64) :
    InTime (List.replicate n (probeAt host path 0) ++ [probeAt host path t]) where
  order := by
    rw [List.pairwise_append]
    refine ⟨List.pairwise_replicate.2 (Or.inr le_rfl), List.pairwise_singleton _ _, fun c hc d hd => ?_⟩
    rw [List.eq_of_mem_replicate hc]
    exact Nat.zero_le _
  asked := by
    intro c hc
    rcases List.mem_append.1 hc with hc | hc
    · rw [List.eq_of_mem_replicate hc]
      exact ⟨le_rfl, Nat.two_pow_pos 64⟩
    · rw [List.mem_singleton.1 hc]
      exact ⟨le_rfl, ht⟩

/-- What a limiter decides of the last of some calls for one request. -/
private theorem getLast?_decisions {s : Limiter} (hs : s.entries = arwsRatelimitInit.entries)
    (host : Option Bytes) (path : Bytes) (n : Nat) {t : Nat} (ht : t < 2 ^ 64) :
    (decisions s (List.replicate n (probeAt host path 0) ++ [probeAt host path t])).getLast? =
      some (admitted none (List.replicate n ⟨0, limitFor s.rules host path⟩)
        ⟨t, limitFor s.rules host path⟩) := by
  have hip : ∀ c ∈ List.replicate n (probeAt host path 0) ++ [probeAt host path t],
      c.ip = ascii "10.0.0.1" := by
    intro c hc
    rcases List.mem_append.1 hc with hc | hc
    · rw [List.eq_of_mem_replicate hc]
      rfl
    · rw [List.mem_singleton.1 hc]
      rfl
  have hisIp : IsIp (ascii "10.0.0.1") := ⟨by decide, by decide⟩
  rw [decisions_eq (simulates_init hs (show [ascii "10.0.0.1"].length ≤ arwsRlMaxIps by decide))
      (.of_inTime (inTime_probes host path n ht) fun c hc => by
        rw [hip c hc]
        exact ⟨hisIp, List.mem_singleton_self _⟩),
    getLast?_reference _ _ fun d hd => by rw [List.eq_of_mem_replicate hd]; rfl, List.map_replicate]
  rfl

theorem limit_window_lt (r : RlRule) : r.limit.window < 2 ^ 64 := by
  rw [RlRule.limit, limitOf]
  simp only
  omega

/-! ## Orders -/

section Orders

variable {rules : List RuleCall}

theorem agreeing_of_orderFree (hkeys : (rules.map RuleCall.key).Nodup)
    (hlen : rules.length ≤ arwsRlMaxRules) (h : OrderFree rules) : Agreeing rules := by
  intro a ha b hb haeff hbeff hoverlap
  by_contra halike
  obtain ⟨host, path, hmatch, hmatch'⟩ := (overlaps_iff _ _).1 hoverlap
  obtain ⟨n, t, ht, hne⟩ := exists_admitted_ne halike
  have htlt : t < 2 ^ 64 := by
    have := limit_window_lt a.rule
    have := limit_window_lt b.rule
    omega
  -- each of the two is set first once
  have hfirst : ∀ c ∈ rules, c.Effective rules → c.rule.matches host path = true →
      limitFor (installed (c :: rules.erase c)).rules host path = c.rule.limit ∧
        (installed (c :: rules.erase c)).entries = arwsRatelimitInit.entries := by
    intro c hc hceff hcmatch
    have hperm := List.perm_cons_erase hc
    have hstored : Stored (installed (c :: rules.erase c)) (c :: rules.erase c) :=
      stored_installed ((hperm.map _).nodup_iff.1 hkeys) (hperm.length_eq ▸ hlen)
    have hfor := ruleFor_head hstored (fun d hd => hceff d (hperm.mem_iff.2 hd)) hcmatch
    rw [limitFor, hfor]
    exact ⟨rfl, hstored.entries⟩
  obtain ⟨hlimit, hentries⟩ := hfirst a ha haeff hmatch
  obtain ⟨hlimit', hentries'⟩ := hfirst b hb hbeff hmatch'
  have hsame := congrArg List.getLast? (h _ _ (List.perm_cons_erase ha).symm (List.perm_cons_erase hb).symm
    _ (inTime_probes host path n htlt))
  rw [getLast?_decisions hentries host path n htlt, getLast?_decisions hentries' host path n htlt, hlimit,
    hlimit'] at hsame
  exact hne (Option.some.inj hsame)

theorem alike_of_agreeing (hkeys : (rules.map RuleCall.key).Nodup) (h : Agreeing rules) {s t : Limiter}
    {a b : List RuleCall} (ha : a.Perm rules) (hb : b.Perm rules) (hs : Stored s a) (ht : Stored t b) :
    s.Alike t where
  entries := hs.entries.trans ht.entries.symm
  limit := by
    have heff : ∀ {l : List RuleCall}, l.Perm rules → ∀ {u : Limiter}, Stored u l →
        ∀ {host path r}, ruleFor u.rules host path = some r →
          ∃ c ∈ rules, c.Effective rules ∧ c.rule = r := by
      intro l hl u hu host path r hr
      obtain ⟨c, hc, hceff, hrule⟩ := exists_effective hu ((hl.map _).nodup_iff.2 hkeys) hr
      exact ⟨c, hl.mem_iff.1 hc, fun d hd => hceff d (hl.mem_iff.2 hd), hrule⟩
    intro host path
    rw [limitFor, limitFor]
    cases hr : ruleFor s.rules host path with
    | none =>
      cases hr' : ruleFor t.rules host path with
      | none => exact Limit.alike_refl _
      | some r' =>
        obtain ⟨c, hc, -, rfl⟩ := heff hb ht hr'
        exact absurd hr (ruleFor_ne_none hs (ha.mem_iff.2 hc) (matches_of_ruleFor hr'))
    | some r =>
      obtain ⟨c, hc, hceff, rfl⟩ := heff ha hs hr
      cases hr' : ruleFor t.rules host path with
      | none => exact absurd hr' (ruleFor_ne_none ht (hb.mem_iff.2 hc) (matches_of_ruleFor hr))
      | some r' =>
        obtain ⟨c', hc', hceff', rfl⟩ := heff hb ht hr'
        exact h c hc c' hc' hceff hceff' ((overlaps_iff _ _).2
          ⟨host, path, matches_of_ruleFor hr, matches_of_ruleFor hr'⟩)

end Orders

/-- **The order of the rules does not matter exactly if all rules that one request can match decide
alike**, those that were cut to the key of another one aside. -/
theorem orderFree_iff {rules : List RuleCall} (hkeys : (rules.map RuleCall.key).Nodup)
    (hlen : rules.length ≤ arwsRlMaxRules) : OrderFree rules ↔ Agreeing rules := by
  refine ⟨agreeing_of_orderFree hkeys hlen, fun h a b ha hb calls _ => ?_⟩
  have hstored : ∀ {l : List RuleCall}, l.Perm rules → Stored (installed l) l := fun hl =>
    stored_installed ((hl.map _).nodup_iff.2 hkeys) (hl.length_eq.trans_le hlen)
  exact decisions_of_alike (alike_of_agreeing hkeys h ha hb (hstored ha) (hstored hb)) calls

/-- Two rules for paths apart from each other. -/
theorem orderFree_of_apart :
    OrderFree [⟨none, ascii "/api", 100, 60⟩, ⟨none, ascii "/login", 5, 60⟩] :=
  (orderFree_iff (by decide) (by decide)).2 (by decide)

/-- **The order decides** between a rule for every path and one for `/login`. -/
theorem not_orderFree : ¬ ∀ rules : List RuleCall, (rules.map RuleCall.key).Nodup →
    rules.length ≤ arwsRlMaxRules → OrderFree rules := by
  intro h
  have hkeys : (List.map RuleCall.key
      [⟨none, ascii "/", 100, 60⟩, ⟨none, ascii "/login", 5, 60⟩]).Nodup := by decide
  exact absurd (agreeing_of_orderFree hkeys (by decide) (h _ hkeys (by decide))) (by decide)

end Ratelimit
end Arws

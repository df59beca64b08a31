import Arws.Ratelimit.Limiter

/-!
# Rules that share a counter

All checks of an address are counted in one entry, each against the rule that governs it.  So a check
that another rule governs uses up what a rule allows, and can start a window that the rule then
counts in.

`undisturbed_of_roomOrOwn` — it makes no difference to a rule as long as, at each check that the rule
governs, either so few checks of any rule came within its window that the check is passed anyhow, or
all checks since a quiet window were its own.
-/

set_option autoImplicit false

namespace Arws
namespace Ratelimit

open CString FixedWindow

/-- The rule governs the check. -/
def RlRule.governs (r : RlRule) (s : Limiter) (c : Check) : Bool :=
  ruleFor s.rules c.host c.path == some r

/-- **What a rule is to be kept from**: checks that it does not govern decide nothing for it. -/
def Undisturbed (s : Limiter) (ip : Bytes) (r : RlRule) (cs : List Check) : Prop :=
  ∀ seen c later, cs = seen ++ c :: later → r.governs s c = true →
    passes s ip seen c = passes s ip (seen.filter fun d => r.governs s d) c

/-- Within the window of the rule no more checks came, of any rule, than it allows. -/
def HasCapacity (s : Limiter) (ip : Bytes) (r : RlRule) (seen : List Check) (c : Check) : Prop :=
  (before (counterOf (s.entryOf ip)) c.now r.limit.window +
    (seen.countP fun d => c.now < d.now + r.limit.window) + 1 : Nat) ≤ r.maxRequests

instance (s : Limiter) (ip : Bytes) (r : RlRule) (seen : List Check) (c : Check) :
    Decidable (HasCapacity s ip r seen c) :=
  inferInstanceAs (Decidable (_ ≤ _))

/-- Before a check no other came for as long as the window of the rule. -/
structure AfterQuiet (s : Limiter) (ip : Bytes) (r : RlRule) (quiet : List Check) (c : Check) :
    Prop where
  max : 1 ≤ r.maxRequests
  entry : ∀ e ∈ s.entryOf ip, e.windowStart + r.limit.window ≤ c.now
  seen : ∀ d ∈ quiet, d.now + r.limit.window ≤ c.now

/-- All checks are of the rule, from the start on or since a quiet window. -/
def OwnSince (s : Limiter) (ip : Bytes) (r : RlRule) (seen : List Check) (c : Check) : Prop :=
  (∀ d ∈ seen, r.governs s d = true) ∨
    ∃ quiet first own, seen ++ [c] = quiet ++ first :: own ∧ AfterQuiet s ip r quiet first ∧
      ∀ d ∈ first :: own, r.governs s d = true

/-- At every check of the rule there is capacity left, or the window is its own. -/
def RoomOrOwn (s : Limiter) (ip : Bytes) (r : RlRule) (cs : List Check) : Prop :=
  ∀ seen c later, cs = seen ++ c :: later → r.governs s c = true →
    HasCapacity s ip r seen c ∨ OwnSince s ip r seen c

section

variable {s : Limiter} {ip : Bytes} {r : RlRule} {seen : List Check} {c : Check}

theorem limit_hitOf (hc : r.governs s c = true) : (hitOf s.rules c).limit = r.limit := by
  rw [hitOf, limitFor, beq_iff_eq.1 hc]

/-- With capacity left a check is passed unless its address is blocked. -/
theorem passes_of_hasCapacity (hip : IsIp ip) (hroom : s.HasRoom ip)
    (ho : InOrder s ip (seen ++ [c])) (hc : r.governs s c = true) (h : HasCapacity s ip r seen c) :
    passes s ip seen c = !held (s.entryOf ip) c := by
  rw [passes_eq hip hroom ho]
  cases hheld : held (s.entryOf ip) c with
  | true => rfl
  | false =>
    have htimed := ho.timed
    rw [hitsOf_concat, hheld, if_neg Bool.false_ne_true] at htimed
    refine admitted_of_room htimed ?_
    rw [limit_hitOf hc]
    refine Int.le_trans ?_ h
    have hrecent : recent (hitsOf s ip seen) c.now r.limit.window ≤
        seen.countP fun d => c.now < d.now + r.limit.window := by
      rw [recent, hitsOf, List.countP_map]
      exact List.filter_sublist.countP_le
    show ((before _ c.now r.limit.window + recent _ c.now r.limit.window + 1 : Nat) : Int) ≤ _
    omega

theorem InOrder.filter_concat (ho : InOrder s ip (seen ++ [c])) (hc : r.governs s c = true) :
    InOrder s ip ((seen.filter fun d => r.governs s d) ++ [c]) := by
  have := ho.filter fun d => r.governs s d
  rwa [List.filter_append, List.filter_singleton, hc] at this

theorem hasCapacity_filter (h : HasCapacity s ip r seen c) :
    HasCapacity s ip r (seen.filter fun d => r.governs s d) c := by
  refine Int.le_trans ?_ h
  have := (List.filter_sublist (p := fun d => r.governs s d) (l := seen)).countP_le
    (p := fun d => decide (c.now < d.now + r.limit.window))
  omega

/-- **A check of the rule after a quiet window starts one**, whatever was checked before. -/
theorem hit_afterQuiet {quiet : List Check} (hc : r.governs s c = true)
    (hquiet : AfterQuiet s ip r quiet c) :
    (met (run (counterOf (s.entryOf ip)) (hitsOf s ip quiet)) (hitOf s.rules c)).hit
      (hitOf s.rules c) = (⟨1, c.now⟩, true) := by
  have hlimit := limit_hitOf hc
  refine hit_of_quiet (hlimit ▸ hquiet.max) ?_ ?_
  · intro d hd
    obtain ⟨e, he, rfl⟩ := Option.map_eq_some_iff.1 hd
    rw [Counter.Over, hlimit]
    exact hquiet.entry e he
  · intro x hx
    obtain ⟨d, hd, rfl⟩ := List.mem_map.1 hx
    rw [hlimit]
    exact hquiet.seen d (List.mem_of_mem_filter hd)

/-- What is blocked when a check looks was blocked before. -/
theorem hitsOf_eq_nil {quiet : List Check} (ho : InOrder s ip (quiet ++ [c]))
    (hheld : held (s.entryOf ip) c = true) : hitsOf s ip quiet = [] := by
  rw [hitsOf, List.map_eq_nil_iff, List.filter_eq_nil_iff]
  intro d hd
  have hle := ho.asked_le d hd
  cases he : s.entryOf ip with
  | none =>
    rw [he] at hheld
    cases hheld
  | some e =>
    rw [he, held, Option.any_some, Bool.and_eq_true, decide_eq_true_eq] at hheld
    rw [held, Option.any_some, hheld.1, decide_eq_true (by omega)]
    decide

/-- What follows the first check after a quiet window does not depend on what came before it. -/
theorem run_afterQuiet {quiet quiet' own : List Check} {first : Check}
    (hfirst : r.governs s first = true) (hquiet : AfterQuiet s ip r quiet first)
    (hquiet' : AfterQuiet s ip r quiet' first) (ho : InOrder s ip (quiet ++ [first]))
    (ho' : InOrder s ip (quiet' ++ [first])) :
    run (counterOf (s.entryOf ip)) (hitsOf s ip (quiet ++ first :: own)) =
      run (counterOf (s.entryOf ip)) (hitsOf s ip (quiet' ++ first :: own)) := by
  have happend : ∀ l, hitsOf s ip (l ++ first :: own) = hitsOf s ip (l ++ [first]) ++ hitsOf s ip own :=
    fun l => by rw [List.append_cons, hitsOf, List.filter_append, List.map_append, hitsOf, hitsOf]
  rw [happend, happend, run_append, run_append, hitsOf_concat, hitsOf_concat]
  cases hheld : held (s.entryOf ip) first with
  | true => rw [if_pos rfl, if_pos rfl, hitsOf_eq_nil ho hheld, hitsOf_eq_nil ho' hheld]
  | false =>
    rw [if_neg Bool.false_ne_true, if_neg Bool.false_ne_true, run_concat, run_concat,
      hit_afterQuiet hfirst hquiet, hit_afterQuiet hfirst hquiet']

theorem AfterQuiet.filter {quiet : List Check} (h : AfterQuiet s ip r quiet c) (P : Check → Bool) :
    AfterQuiet s ip r (quiet.filter P) c :=
  ⟨h.max, h.entry, fun d hd => h.seen d (List.mem_of_mem_filter hd)⟩

/-- **Since a quiet window of its own a rule decides alone.** -/
theorem passes_of_afterQuiet {quiet own : List Check} {first : Check} (hip : IsIp ip)
    (hroom : s.HasRoom ip) (ho : InOrder s ip (seen ++ [c])) (hc : r.governs s c = true)
    (hsplit : seen ++ [c] = quiet ++ first :: own) (hquiet : AfterQuiet s ip r quiet first)
    (hown : ∀ d ∈ first :: own, r.governs s d = true) :
    passes s ip seen c = passes s ip (seen.filter fun d => r.governs s d) c := by
  have ho' := ho.filter_concat hc
  rw [passes_eq hip hroom ho, passes_eq hip hroom ho', admitted, admitted]
  obtain rfl | ⟨mid, last, rfl⟩ := List.eq_nil_or_concat own
  · obtain ⟨rfl, hlast⟩ := List.append_inj' hsplit rfl
    cases hlast
    rw [hit_afterQuiet hc hquiet, hit_afterQuiet hc (hquiet.filter _)]
  · rw [List.concat_eq_append] at hsplit hown
    rw [← List.cons_append, ← List.append_assoc] at hsplit
    obtain ⟨rfl, -⟩ := List.append_inj' hsplit rfl
    have hself : (first :: mid).filter (fun d => r.governs s d) = first :: mid :=
      List.filter_eq_self.2 fun d hd => hown d (List.mem_append_left _ hd)
    have hfilter : (quiet ++ first :: mid).filter (fun d => r.governs s d) =
        quiet.filter (fun d => r.governs s d) ++ first :: mid := by
      rw [List.filter_append, hself]
    have hfirst : InOrder s ip (quiet ++ [first]) := by
      have := ho.of_append
      rw [List.append_cons] at this
      exact this.of_append
    rw [hfilter, run_afterQuiet (hown first List.mem_cons_self) hquiet (hquiet.filter _) hfirst
      (hfirst.filter_concat (hown first List.mem_cons_self))]

end

/-- **A rule is not disturbed as long as at each of its checks there is capacity left or its window
is its own.** -/
theorem undisturbed_of_roomOrOwn {s : Limiter} {ip : Bytes} {r : RlRule} {cs : List Check}
    (hip : IsIp ip) (hroom : s.HasRoom ip) (ho : InOrder s ip cs) (h : RoomOrOwn s ip r cs) :
    Undisturbed s ip r cs := by
  rintro seen c later rfl hc
  have hc' : InOrder s ip (seen ++ [c]) := by
    rw [List.append_cons] at ho
    exact ho.of_append
  rcases h seen c later rfl hc with hcap | hown | ⟨quiet, first, own, hsplit, hquiet, hown⟩
  · rw [passes_of_hasCapacity hip hroom hc' hc hcap,
      passes_of_hasCapacity hip hroom (hc'.filter_concat hc) hc (hasCapacity_filter hcap)]
  · rw [List.filter_eq_self.2 hown]
  · exact passes_of_afterQuiet hip hroom hc' hc hsplit hquiet hown

/-- A limiter at its start with one rule, for the path `/login`. -/
private def withLogin (max : Int) : Limiter :=
  arwsRatelimitSetRule arwsRatelimitInit (some (ascii "a")) (ascii "/login") max 60

private def loginRule (max : Int) : RlRule := ⟨ascii "a", ascii "/login", max, 60⟩

private theorem entryOf_withLogin (max : Int) (ip : Bytes) : (withLogin max).entryOf ip = none :=
  entryOf_of_init rfl ip

private theorem hasRoom_withLogin (max : Int) (ip : Bytes) : (withLogin max).HasRoom ip :=
  Or.inr (free_of_init rfl)

private def localIp : Bytes := ascii "10.0.0.1"

private theorem isIp_localIp : IsIp localIp := ⟨by decide, by decide⟩

private def homeCheck : Check := ⟨some (ascii "a"), ascii "/", 0, 0⟩
private def loginCheck : Check := ⟨some (ascii "a"), ascii "/login", 10, 10⟩

private theorem inOrder_withLogin (max : Int) :
    InOrder (withLogin max) localIp [homeCheck, loginCheck] where
  order := by decide
  asked := by decide
  started := fun e he => by
    rw [entryOf_withLogin] at he
    cases he

private theorem not_governs_homeCheck (max : Int) :
    (loginRule max).governs (withLogin max) homeCheck = false := by
  rw [RlRule.governs, show ruleFor (withLogin max).rules homeCheck.host homeCheck.path = none from rfl]
  rfl

/-- A check of another path leaves enough of a rule that allows two. -/
theorem undisturbed_by_one :
    Undisturbed (withLogin 2) localIp (loginRule 2) [homeCheck, loginCheck] := by
  refine undisturbed_of_roomOrOwn isIp_localIp (hasRoom_withLogin 2 _) (inOrder_withLogin 2) ?_
  intro seen c later hsplit hc
  match seen, hsplit with
  | [], hsplit =>
    cases hsplit
    rw [not_governs_homeCheck] at hc
    cases hc
  | [_], hsplit =>
    cases hsplit
    refine Or.inl ?_
    rw [HasCapacity, entryOf_withLogin]
    decide
  | [_, _], hsplit => cases hsplit
  | _ :: _ :: _ :: _, hsplit => cases hsplit

/-- **A rule is disturbed by others**: a check of another path uses up the one check that is allowed
of `/login`. -/
theorem not_undisturbed :
    ¬ ∀ (s : Limiter) ip r cs, IsIp ip → s.HasRoom ip → InOrder s ip cs →
      Undisturbed s ip r cs := by
  intro h
  have hgoverns : (loginRule 1).governs (withLogin 1) loginCheck = true := by decide
  have hsame := h (withLogin 1) localIp (loginRule 1) [homeCheck, loginCheck] isIp_localIp
    (hasRoom_withLogin 1 _) (inOrder_withLogin 1) [homeCheck] loginCheck [] rfl hgoverns
  have hfull : InOrder (withLogin 1) localIp ([homeCheck] ++ [loginCheck]) := inOrder_withLogin 1
  rw [passes_eq isIp_localIp (hasRoom_withLogin 1 _) hfull,
    passes_eq isIp_localIp (hasRoom_withLogin 1 _) (hfull.filter_concat hgoverns)] at hsame
  simp only [List.filter_singleton, not_governs_homeCheck, hitsOf, entryOf_withLogin] at hsame
  exact absurd hsame (by decide)

end Ratelimit
end Arws

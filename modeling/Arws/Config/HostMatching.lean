import Arws.Config.OverrideLine

/-!
# The two matchers of hosts

`arws_config.c` matches the hosts of overrides and `router_ex.c` those of routes, each with a function
`host_matches` of its own and a list of loopback names of its own.  Here both stand as they are written,
rule by rule and in their order.

* `isLoopbackAddr_eq` — the two lists are one set of names.
* `ArwsConfig.hostMatches_eq`, `RouterEx.hostMatches_eq` — what the rules of each come to.
* `hosts_agree` — so the two agree on every pattern and host.
-/

set_option autoImplicit false

namespace Arws
namespace HostMatching

open CString

/-- `strncmp(a, b, n) == 0`. -/
def strneq (a b : Bytes) (n : Nat) : Bool := a.take n == b.take n

/-- `strncasecmp(a, b, n) == 0`. -/
def strncaseeq (a b : Bytes) (n : Nat) : Bool := strcaseeq (a.take n) (b.take n)

namespace RouterEx

/-- `is_loopback_host`. -/
def isLoopbackHost (host : Bytes) : Bool :=
  if host = [] then false
  else if strcaseeq host (ascii "localhost") then true
  else if strcaseeq host (ascii "0.0.0.0") then true
  else if strcaseeq host (ascii "::1") || strcaseeq host (ascii "[::1]") then true
  else if strneq host (ascii "127.") 4 then true
  else false

/-- The test of `host_matches` on what stands before the first dots, and behind them. -/
def subdomainMatches (routeHost reqHost : Bytes) : Bool :=
  match strchr 46 routeHost, strchr 46 reqHost with
  | some rPrefixLen, some qPrefixLen =>
    if rPrefixLen = qPrefixLen ∧ strncaseeq routeHost reqHost rPrefixLen then
      isLoopbackHost (routeHost.drop (rPrefixLen + 1)) && isLoopbackHost (reqHost.drop (qPrefixLen + 1))
    else false
  | _, _ => false

/-- `host_matches` of `router_ex.c`. -/
def hostMatches (routeHost reqHost : Bytes) : Bool :=
  if reqHost = [] then routeHost == [] || routeHost == [42]
  else if routeHost = [] ∨ routeHost = [42] then true
  else if strcaseeq routeHost reqHost then true
  else if isLoopbackHost routeHost && isLoopbackHost reqHost then true
  else if subdomainMatches routeHost reqHost then true
  else if strncaseeq reqHost (ascii "www.") 4 && strcaseeq routeHost (reqHost.drop 4) then true
  else false

end RouterEx

namespace ArwsConfig

/-- `is_loopback_addr`. -/
def isLoopbackAddr (h : Bytes) : Bool :=
  if h = [] then false
  else if strcaseeq h (ascii "localhost") then true
  else if strcaseeq h (ascii "0.0.0.0") then true
  else if strneq h (ascii "127.") 4 then true
  else if strcaseeq h (ascii "::1") || strcaseeq h (ascii "[::1]") then true
  else false

/-- The test of `host_matches` on what stands before the first dots, and behind them. -/
def subdomainMatches (pattern host : Bytes) : Bool :=
  match strchr 46 pattern, strchr 46 host with
  | some pLen, some hLen =>
    if pLen = hLen ∧ strncaseeq pattern host pLen then
      isLoopbackAddr (pattern.drop (pLen + 1)) && isLoopbackAddr (host.drop (hLen + 1))
    else false
  | _, _ => false

/-- `host_matches` of `arws_config.c`. -/
def hostMatches (pattern host : Bytes) : Bool :=
  if pattern = [] ∨ pattern = [42] then true
  else if strcaseeq pattern host then true
  else if isLoopbackAddr pattern && isLoopbackAddr host then true
  else if subdomainMatches pattern host then true
  else if strncaseeq host (ascii "www.") 4 && strcaseeq pattern (host.drop 4) then true
  else false

end ArwsConfig

/-! ## Loopback names -/

/-- The test on the first four bytes is one for a prefix. -/
theorem strneq_eq_isPrefixOf {s t : Bytes} {n : Nat} (ht : t.length = n) :
    strneq s t n = t.isPrefixOf s := by
  subst ht
  rw [strneq, List.take_length, Bool.eq_iff_iff, beq_iff_eq, List.isPrefixOf_iff_prefix]
  exact ⟨fun h => h ▸ List.take_prefix _ _, fun h => (List.prefix_iff_eq_take.1 h).symm⟩

/-- The names are tested for in different orders, and it does not matter. -/
theorem isLoopbackAddr_eq (h : Bytes) : ArwsConfig.isLoopbackAddr h = RouterEx.isLoopbackHost h := by
  rw [ArwsConfig.isLoopbackAddr, RouterEx.isLoopbackHost]
  split_ifs <;> rfl

theorem isLoopbackHost_eq (h : Bytes) : RouterEx.isLoopbackHost h = Router.isLoopbackHost h := by
  rw [RouterEx.isLoopbackHost, Router.isLoopbackHost, strneq_eq_isPrefixOf (by decide)]
  by_cases hnil : h = []
  · subst hnil
    decide
  · rw [if_neg hnil]
    simp only [Bool.if_true_left, Bool.if_false_right, Bool.or_assoc, Bool.decide_eq_true, Bool.and_true]

theorem isLoopbackAddr_eq' (h : Bytes) : ArwsConfig.isLoopbackAddr h = Config.isLoopbackAddr h := by
  rw [isLoopbackAddr_eq, isLoopbackHost_eq, Config.isLoopbackAddr]
  cases h with
  | nil => decide
  | cons c h => rfl

/-! ## The rules -/

theorem strncaseeq_www (s : Bytes) :
    strncaseeq s (ascii "www.") 4 = strcaseeq (s.take 4) (ascii "www.") := by
  rw [strncaseeq, show (ascii "www.").take 4 = ascii "www." by decide]

/-- Names below loopback hosts, for a list of loopback names. -/
theorem subdomains_eq (isLoopback : Bytes → Bool) (a b : Bytes) (i j : Nat) :
    (if i = j ∧ strncaseeq a b i then isLoopback (a.drop (i + 1)) && isLoopback (b.drop (j + 1)) else false) =
      (i == j && strcaseeq (a.take i) (b.take j) &&
        (isLoopback (a.drop (i + 1)) && isLoopback (b.drop (j + 1)))) := by
  by_cases hij : i = j
  · subst hij
    by_cases hlabel : strcaseeq (a.take i) (b.take i) = true <;> simp [strncaseeq, hlabel]
  · simp [hij]

/-- **What the rules of the router come to.** -/
theorem RouterEx.hostMatches_eq (routeHost reqHost : Bytes) :
    RouterEx.hostMatches routeHost reqHost = Router.hostMatches routeHost reqHost := by
  have hsub : RouterEx.subdomainMatches routeHost reqHost = Router.sameLoopbackLabel routeHost reqHost := by
    rw [RouterEx.subdomainMatches, Router.sameLoopbackLabel]
    cases strchr 46 routeHost <;> cases strchr 46 reqHost <;> try rfl
    simp only [subdomains_eq, isLoopbackHost_eq, Bool.and_assoc]
  rw [RouterEx.hostMatches, Router.hostMatches]
  by_cases hany : routeHost = [] ∨ routeHost = [42]
  · obtain rfl | rfl := hany <;> simp
  · obtain ⟨hnil, hstar⟩ := not_or.1 hany
    rw [if_neg hany, if_neg hany, beq_eq_false_iff_ne.2 hnil, beq_eq_false_iff_ne.2 hstar]
    simp only [hsub, isLoopbackHost_eq, strncaseeq_www, Bool.if_true_left, Bool.if_false_right,
      Bool.decide_eq_true, Bool.or_assoc, Bool.and_true, Bool.or_false]

/-- **What the rules for overrides come to.** -/
theorem ArwsConfig.hostMatches_eq (pattern host : Bytes) :
    ArwsConfig.hostMatches pattern host = Config.hostMatches pattern host := by
  rw [ArwsConfig.hostMatches, Config.hostMatches, ArwsConfig.subdomainMatches]
  by_cases hany : pattern = [] ∨ pattern = [42]
  · obtain rfl | rfl := hany <;> simp
  · obtain ⟨hnil, hstar⟩ := not_or.1 hany
    rw [if_neg hany, beq_eq_false_iff_ne.2 hnil, beq_eq_false_iff_ne.2 hstar]
    simp only [subdomains_eq, isLoopbackAddr_eq', strncaseeq_www]
    cases strchr 46 pattern <;> cases strchr 46 host <;>
      simp only [Bool.if_true_left, Bool.if_false_right, Bool.decide_eq_true, Bool.or_assoc, Bool.and_true,
        Bool.false_or]

/-- **The two matchers agree on every pattern and host.** -/
theorem hosts_agree (p h : Bytes) : ArwsConfig.hostMatches p h = RouterEx.hostMatches p h := by
  rw [ArwsConfig.hostMatches_eq, RouterEx.hostMatches_eq, Config.hostMatches_eq]

/-- Below two spellings of the loopback host. -/
example : RouterEx.hostMatches (ascii "detroit.localhost") (ascii "Detroit.127.0.0.1") = true := by
  decide +kernel

end HostMatching
end Arws

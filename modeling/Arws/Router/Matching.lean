import Mathlib.Data.Bool.Basic
import Mathlib.Data.Prod.Lex
import Arws.Router.Route

/-!
# The best route

`arws_route_match` gives every route that serves a request a number, and takes one of those with the
largest.  The number adds up three things: a thousand for each byte of the prefix without an asterisk
at its end, a bonus if that is the whole path, and a small one for a host of its own.

* `routePriority_le_iff` — among the routes that match one path the number orders as the length does,
  and the host where the lengths are equal.  The bonus decides nothing: a prefix that is the whole
  path is longer than every other one.
* `routeMatch_best` — what is returned is a best route, and which length and host a best route has
  depends only on what is in the table.
-/

set_option autoImplicit false

namespace Arws
namespace Router

open CString Server

/-! ## Ranks -/

/-- The prefix without an asterisk at its end. -/
def ArwsRoute.effective (route : ArwsRoute) : Bytes :=
  if route.pathPrefix.text.getLast? = some 42 then route.pathPrefix.text.dropLast
  else route.pathPrefix.text

/-- The route names a host. -/
def ArwsRoute.hostSpecific (route : ArwsRoute) : Bool :=
  decide (route.host.text ≠ [] ∧ route.host.text ≠ [42])

/-- **What a route is judged by**: its prefix, and then its host. -/
def ArwsRoute.rank (route : ArwsRoute) : Nat ×ₗ Bool :=
  toLex (route.effective.length, route.hostSpecific)

/-- What is left of a prefix that matches begins the path. -/
theorem effective_isPrefix {route : ArwsRoute} {path : Bytes}
    (h : pathMatches route.pathPrefix.text path = true) : route.effective <+: path := by
  rw [ArwsRoute.effective]
  rw [pathMatches] at h
  by_cases hnil : route.pathPrefix.text = []
  · rw [hnil]
    exact List.nil_prefix
  rw [if_neg hnil] at h
  split_ifs at h ⊢ with hstar hself
  · exact List.isPrefixOf_iff_prefix.1 h
  · rw [hself]
  · simp only [Bool.and_eq_true] at h
    exact List.isPrefixOf_iff_prefix.1 h.1.2

theorem routePriority_eq (route : ArwsRoute) (path : Bytes) :
    routePriority route path = route.effective.length * 1000 +
      (if route.effective = path then 50000 else 0) + (if route.hostSpecific then 100 else 0) := by
  rw [routePriority, ArwsRoute.effective, ArwsRoute.hostSpecific]
  congr 1
  simp only [decide_eq_true_eq]

/-- **The number orders as the rank does**, among the routes that match the path. -/
theorem routePriority_le_iff {r r' : ArwsRoute} {path : Bytes} (h : r.effective <+: path)
    (h' : r'.effective <+: path) : routePriority r path ≤ routePriority r' path ↔ r.rank ≤ r'.rank := by
  have hexact : ∀ {e : Bytes}, e <+: path → (e = path ↔ e.length = path.length) := fun he =>
    ⟨congrArg _, he.eq_of_length⟩
  have hle := h.length_le
  have hle' := h'.length_le
  rw [routePriority_eq, routePriority_eq, ArwsRoute.rank, ArwsRoute.rank, Prod.Lex.toLex_le_toLex]
  simp only [hexact h, hexact h']
  generalize r.effective.length = m at *
  generalize r'.effective.length = n at *
  have hbool : ¬ true ≤ false := by decide
  cases r.hostSpecific <;> cases r'.hostSpecific <;>
    simp only [le_refl, Bool.false_le, hbool, and_true, and_false, or_false, if_true, if_false,
      Bool.false_eq_true, Nat.add_zero] <;> split_ifs <;> omega

/-! ## The search -/

/-- What the loop has found among the routes it has seen: the largest priority, and routes that have
it. -/
inductive Candidates.Best (path : Bytes) (seen : List ArwsRoute) : Candidates → Prop
  | none (h : seen = []) : Best path seen ⟨none, []⟩
  | some (prio : Nat) (candidates : List ArwsRoute) (hne : candidates ≠ [])
      (hmem : ∀ c ∈ candidates, c ∈ seen ∧ routePriority c path = prio)
      (hmax : ∀ r ∈ seen, routePriority r path ≤ prio) : Best path seen ⟨some prio, candidates⟩

theorem Candidates.Best.consider {path : Bytes} {seen : List ArwsRoute} {found : Candidates}
    (h : found.Best path seen) (route : ArwsRoute) :
    (found.consider path route).Best path (seen ++ [route]) := by
  have hlast : route ∈ seen ++ [route] := List.mem_append_right _ (List.mem_singleton_self _)
  cases h with
  | none hseen =>
    subst hseen
    refine .some _ _ (List.cons_ne_nil _ _) (fun c hc => ?_) (fun r hr => ?_)
    · rw [List.mem_singleton.1 hc]
      exact ⟨hlast, rfl⟩
    · rw [List.mem_singleton.1 hr]
  | some prio candidates hne hmem hmax =>
    have hmem' : ∀ c ∈ candidates, c ∈ seen ++ [route] ∧ routePriority c path = prio := fun c hc =>
      ⟨List.mem_append_left _ (hmem c hc).1, (hmem c hc).2⟩
    rw [Candidates.consider]
    simp only [Option.all_some, decide_eq_true_eq, Option.some.injEq]
    split_ifs with hlt heq
    · refine .some _ _ (List.cons_ne_nil _ _) (fun c hc => ?_) (fun r hr => ?_)
      · rw [List.mem_singleton.1 hc]
        exact ⟨hlast, rfl⟩
      · obtain hr | hr := List.mem_append.1 hr
        · exact (hmax r hr).trans hlt.le
        · rw [List.mem_singleton.1 hr]
    · refine .some _ _ (List.append_ne_nil_of_left_ne_nil hne _) (fun c hc => ?_) (fun r hr => ?_)
      · obtain hc | hc := List.mem_append.1 hc
        · exact hmem' c hc
        · rw [List.mem_singleton.1 hc]
          exact ⟨hlast, heq.1.symm⟩
      · obtain hr | hr := List.mem_append.1 hr
        · exact hmax r hr
        · rw [List.mem_singleton.1 hr, heq.1]
    · refine .some _ _ hne hmem' fun r hr => ?_
      obtain hr | hr := List.mem_append.1 hr
      · exact hmax r hr
      · rw [List.mem_singleton.1 hr]
        exact Nat.le_of_not_lt hlt

theorem best_foldl (path : Bytes) (routes : List ArwsRoute) :
    (routes.foldl (fun found route => found.consider path route) (⟨none, []⟩ : Candidates)).Best path
      routes := by
  induction routes using List.reverseRecOn with
  | nil => exact .none rfl
  | append_singleton routes route ih =>
    rw [List.foldl_append]
    exact ih.consider route

/-- What `arws_route_match` returns beside the route. -/
def matchCode : Option ArwsRoute → Int
  | none => 0
  | some route => if route.useHandler then 2 else 1

theorem matchCode_eq_zero_iff (found : Option ArwsRoute) : matchCode found = 0 ↔ found = none := by
  cases found with
  | none => exact iff_of_true rfl rfl
  | some route =>
    refine iff_of_false ?_ (Option.some_ne_none route)
    rw [matchCode]
    split <;> decide

/-- **A best match**: nothing, if no route serves the request, and otherwise a route that serves it,
and no route that serves it has a larger rank. -/
structure BestMatch (table : RouteTable) (req : HttpRequest) (effectiveMode : Bytes)
    (found : Option ArwsRoute) : Prop where
  code_iff : matchCode found = 0 ↔ ∀ r ∈ table.routes, r.serves req effectiveMode = false
  serves : ∀ r ∈ found, r ∈ table.routes ∧ r.serves req effectiveMode = true
  best : ∀ r ∈ found, ∀ r' ∈ table.routes, r'.serves req effectiveMode = true → r'.rank ≤ r.rank

theorem effective_of_serves {route : ArwsRoute} {req : HttpRequest} {effectiveMode : Bytes}
    (h : route.serves req effectiveMode = true) : route.effective <+: req.path := by
  rw [ArwsRoute.serves] at h
  simp only [Bool.and_eq_true] at h
  exact effective_isPrefix h.1.2

/-- A counter that is not negative picks one of the candidates, and each of them is a best match. -/
theorem arwsRouteMatch_bestMatch (table : RouteTable) (req : HttpRequest) (effectiveMode : Bytes)
    {rrCounter : Int} (hrr : 0 ≤ toInt rrCounter) :
    ∃ rr found, arwsRouteMatch table rrCounter req effectiveMode = some (rr, found) ∧
      BestMatch table req effectiveMode found := by
  have hbest := best_foldl req.path (table.routes.filter fun route => route.serves req effectiveMode)
  have hcands : table.candidates req effectiveMode =
      ((table.routes.filter fun route => route.serves req effectiveMode).foldl
        (fun found route => found.consider req.path route) (⟨none, []⟩ : Candidates)).candidates := rfl
  generalize hseen : (table.routes.filter fun route => route.serves req effectiveMode) = seen
    at hbest hcands
  have hmemseen : ∀ r, r ∈ seen ↔ r ∈ table.routes ∧ r.serves req effectiveMode = true := by
    intro r
    rw [← hseen, List.mem_filter]
  generalize seen.foldl _ _ = found at hbest hcands
  rw [arwsRouteMatch, hcands]
  cases hbest with
  | none hnil =>
    refine ⟨_, _, if_pos rfl, iff_of_true rfl fun r hr => ?_, nofun, nofun⟩
    rw [← Bool.not_eq_true]
    intro hserves
    have := (hmemseen r).2 ⟨hr, hserves⟩
    rw [hnil] at this
    cases this
  | some prio candidates hne hmem hmax =>
    -- the index is in range, as the counter is not negative
    have hlen := List.length_pos_iff.2 hne
    have hlt := Int.tmod_lt_of_pos (toInt rrCounter) (Int.natCast_pos.2 hlen)
    have hnonneg := Int.tmod_nonneg (candidates.length : Int) hrr
    have hidx : ((toInt rrCounter).tmod candidates.length).toNat < candidates.length := by omega
    refine ⟨rrCounter + 1, some candidates[((toInt rrCounter).tmod candidates.length).toNat], ?_, ?_⟩
    · rw [if_neg hne, if_neg (Int.not_lt.2 hnonneg), List.getElem?_eq_getElem hidx]
    obtain ⟨hroute, hprio⟩ := hmem _ (List.getElem_mem hidx)
    generalize candidates[((toInt rrCounter).tmod candidates.length).toNat] = route at hroute hprio
    obtain ⟨hin, hserves⟩ := (hmemseen route).1 hroute
    constructor
    · rw [matchCode_eq_zero_iff]
      refine iff_of_false (Option.some_ne_none route) fun hall => ?_
      rw [hall route hin] at hserves
      cases hserves
    · rintro r ⟨rfl⟩
      exact ⟨hin, hserves⟩
    · rintro r ⟨rfl⟩ r' hr' hserves'
      rw [← routePriority_le_iff (effective_of_serves hserves') (effective_of_serves hserves), hprio]
      exact hmax r' ((hmemseen r').2 ⟨hr', hserves'⟩)

/-- Two best matches among the same routes have the same rank. -/
theorem BestMatch.rank_eq {table table' : RouteTable} {req : HttpRequest} {effectiveMode : Bytes}
    {found found' : Option ArwsRoute} (h : BestMatch table req effectiveMode found)
    (h' : BestMatch table' req effectiveMode found') (hperm : table'.routes.Perm table.routes) :
    found'.map (·.rank) = found.map (·.rank) := by
  have hnone : found' = none ↔ found = none := by
    rw [← matchCode_eq_zero_iff, ← matchCode_eq_zero_iff, h.code_iff, h'.code_iff]
    exact forall_congr' fun r => by rw [hperm.mem_iff]
  cases found with
  | none => rw [hnone.2 rfl]
  | some r =>
    cases found' with
    | none => exact absurd (hnone.1 rfl) (Option.some_ne_none r)
    | some r' =>
      obtain ⟨hin, hserves⟩ := h.serves r rfl
      obtain ⟨hin', hserves'⟩ := h'.serves r' rfl
      exact congrArg some (le_antisymm (h.best r rfl r' (hperm.mem_iff.1 hin') hserves')
        (h'.best r' rfl r (hperm.mem_iff.2 hin) hserves))

/-- **The best route is matched**, and its rank does not depend on where in the table the routes are,
or on how often a route was looked for. -/
theorem routeMatch_best (table : RouteTable) (req : HttpRequest) (effectiveMode : Bytes)
    {rrCounter : Int} (hrr : 0 ≤ toInt rrCounter) :
    ∃ rr found, arwsRouteMatch table rrCounter req effectiveMode = some (rr, found) ∧
      BestMatch table req effectiveMode found ∧
      ∀ (table' : RouteTable) (rrCounter' : Int), table'.routes.Perm table.routes →
        0 ≤ toInt rrCounter' → ∃ rr' found',
          arwsRouteMatch table' rrCounter' req effectiveMode = some (rr', found') ∧
            found'.map (·.rank) = found.map (·.rank) := by
  obtain ⟨rr, found, hmatch, hbest⟩ := arwsRouteMatch_bestMatch table req effectiveMode hrr
  refine ⟨rr, found, hmatch, hbest, fun table' rrCounter' hperm hrr' => ?_⟩
  obtain ⟨rr', found', hmatch', hbest'⟩ := arwsRouteMatch_bestMatch table' req effectiveMode hrr'
  exact ⟨rr', found', hmatch', hbest.rank_eq hbest' hperm⟩

/-- The path itself, a prefix of it, and a prefix of it for one host. -/
private def competing : RouteTable :=
  (arwsAddRoute (arwsAddRoute (arwsAddRoute (fun _ => [])
    (some .zero) (ascii "/api/users") (ascii "GET") none none 1).1
    (some .zero) (ascii "/api*") (ascii "GET") none none 2).1
    (some .zero) (ascii "/api/users*") (ascii "GET") (some (ascii "a.com")) none 3).1

private def usersRequest : HttpRequest :=
  ⟨ascii "GET", ascii "/api/users", none, [], [], ascii "a.com", [], 0⟩

/-- Of three routes that serve a request, the one with the longest prefix and a host of its own is taken. -/
theorem routeMatch_best_three : ∃ rr found,
    arwsRouteMatch competing 0 usersRequest (ascii "test") = some (rr, found) ∧
      found.map (·.backendId) = some 3 ∧
      ∀ (table' : RouteTable) (rrCounter' : Int), table'.routes.Perm competing.routes →
        0 ≤ toInt rrCounter' → ∃ rr' found',
          arwsRouteMatch table' rrCounter' usersRequest (ascii "test") = some (rr', found') ∧
            found'.map (·.rank) = some (toLex (10, true)) := by
  obtain ⟨rr, found, hmatch, -, hperm⟩ := routeMatch_best competing usersRequest (ascii "test")
    (show 0 ≤ toInt 0 by decide)
  let best : ArwsRoute := ArwsRoute.zero.written (ascii "/api/users*") (ascii "GET")
    (some (ascii "a.com")) none 3 false false
  have hrun : arwsRouteMatch competing 0 usersRequest (ascii "test") = some (1, some best) := by
    decide +kernel
  have hrank : best.rank = toLex (10, true) := by decide +kernel
  obtain ⟨rfl, rfl⟩ := Prod.mk.inj (Option.some.inj (hmatch.symm.trans hrun))
  exact ⟨_, _, hmatch, rfl, hrank ▸ hperm⟩

end Router
end Arws

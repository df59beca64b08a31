import Arws.Router.Matching

/-!
# A route for the path itself

An exact route and a wildcard get the same number where what is left of the wildcard without its asterisk
is the whole path: `route_priority` gives its bonus to both.  Which of them is returned is then left to the
counter.

* `candidates_eq` — where some route has the whole path, the candidates are the first of those that have,
  with a host of their own if one of them has.
* `exactWins_iff` — an exact route wins unless there is a wildcard among these.
* `not_exactWins` — `/api` and `/api*`, and a request for `/api`.
-/

set_option autoImplicit false

namespace Arws
namespace Router

open CString Server

/-- The prefix ends in an asterisk. -/
def ArwsRoute.Wildcard (route : ArwsRoute) : Prop := route.pathPrefix.text.getLast? = some 42

/-- The prefix is the path, and no wildcard. -/
def ArwsRoute.Exact (route : ArwsRoute) (path : Bytes) : Prop :=
  route.pathPrefix.text = path ∧ ¬ route.Wildcard

instance (route : ArwsRoute) : Decidable route.Wildcard := inferInstanceAs (Decidable (_ = _))

instance (route : ArwsRoute) (path : Bytes) : Decidable (route.Exact path) :=
  inferInstanceAs (Decidable (_ ∧ _))

/-- The routes that serve a request, in the order in which the loop visits them. -/
def RouteTable.serving (table : RouteTable) (req : HttpRequest) (effectiveMode : Bytes) :
    List ArwsRoute :=
  table.routes.filter fun route => route.serves req effectiveMode

/-- **Exact beats wildcard**: whatever the counter is, no wildcard is returned for a path that a route
with a host as specific is for. -/
def ExactWins (table : RouteTable) (req : HttpRequest) (effectiveMode : Bytes) : Prop :=
  ∀ e ∈ table.serving req effectiveMode, e.Exact req.path →
    ∀ w ∈ table.serving req effectiveMode, w.Wildcard → w.hostSpecific = e.hostSpecific →
      ∀ rrCounter rr, arwsRouteMatch table rrCounter req effectiveMode ≠ some (rr, some w)

/-- The routes that serve a request with the whole path, an asterisk aside; those with a host of their
own, if there are any. -/
def RouteTable.contenders (table : RouteTable) (req : HttpRequest) (effectiveMode : Bytes) :
    List ArwsRoute :=
  let whole := (table.serving req effectiveMode).filter fun route => route.effective = req.path
  if whole.any (·.hostSpecific) then whole.filter (·.hostSpecific) else whole

variable {table : RouteTable} {req : HttpRequest} {effectiveMode path : Bytes}

theorem ArwsRoute.Exact.effective {route : ArwsRoute} (h : route.Exact path) : route.effective = path := by
  rw [ArwsRoute.effective, if_neg (show ¬ route.pathPrefix.text.getLast? = some 42 from h.2), h.1]

theorem effective_of_mem_serving {route : ArwsRoute} (h : route ∈ table.serving req effectiveMode) :
    route.effective <+: req.path :=
  effective_of_serves (List.mem_filter.1 h).2

theorem mem_contenders {route : ArwsRoute} : route ∈ table.contenders req effectiveMode ↔
    route ∈ table.serving req effectiveMode ∧ route.effective = req.path ∧
      ∀ r ∈ table.serving req effectiveMode, r.effective = req.path → r.hostSpecific ≤ route.hostSpecific := by
  rw [RouteTable.contenders]
  split_ifs with hany
  · obtain ⟨r, hr, hspecific⟩ := List.any_eq_true.1 hany
    obtain ⟨hr, hwhole⟩ := List.mem_filter.1 hr
    rw [List.mem_filter, List.mem_filter, decide_eq_true_eq, and_assoc]
    refine and_congr_right fun _ => and_congr_right fun _ => ⟨fun h s _ _ => h ▸ Bool.le_true _, fun h => ?_⟩
    have := h r hr (of_decide_eq_true hwhole)
    rw [hspecific] at this
    exact Bool.eq_true_of_true_le this
  · rw [List.mem_filter, decide_eq_true_eq]
    refine and_congr_right fun _ => (and_iff_left fun r hr hwhole => ?_).symm
    have hnot : r.hostSpecific ≠ true := fun h =>
      hany (List.any_eq_true.2 ⟨r, List.mem_filter.2 ⟨hr, decide_eq_true hwhole⟩, h⟩)
    rw [(Bool.eq_false_iff).2 hnot]
    exact Bool.false_le _

theorem contenders_eq_filter (table : RouteTable) (req : HttpRequest) (effectiveMode : Bytes) :
    ∃ p, table.contenders req effectiveMode = (table.serving req effectiveMode).filter p := by
  rw [RouteTable.contenders]
  split_ifs
  · exact ⟨_, List.filter_filter⟩
  · exact ⟨_, rfl⟩

/-! ## The candidates -/

theorem foldl_concat (path : Bytes) (routes : List ArwsRoute) (route : ArwsRoute) :
    (routes ++ [route]).foldl (fun found route => found.consider path route) (⟨none, []⟩ : Candidates) =
      (routes.foldl (fun found route => found.consider path route)
        (⟨none, []⟩ : Candidates)).consider path route := by
  rw [List.foldl_append]
  rfl

/-- The loop keeps the first routes of the largest priority it has seen. -/
theorem candidates_foldl (path : Bytes) (routes : List ArwsRoute) :
    ∀ prio ∈ (routes.foldl (fun found route => found.consider path route)
        (⟨none, []⟩ : Candidates)).bestPriority,
      (routes.foldl (fun found route => found.consider path route)
          (⟨none, []⟩ : Candidates)).candidates =
        (routes.filter fun r => routePriority r path = prio).take arwsMaxCandidates := by
  induction routes using List.reverseRecOn with
  | nil => exact fun prio h => by cases h
  | append_singleton routes route ih =>
    have hbest := best_foldl path routes
    rw [foldl_concat]
    generalize routes.foldl (fun found route => found.consider path route) (⟨none, []⟩ : Candidates) =
      found at ih hbest
    intro prio hprio
    rw [List.filter_append, List.filter_singleton]
    cases hbest with
    | none hseen =>
      subst hseen
      cases hprio
      simp [Candidates.consider, arwsMaxCandidates]
    | some best candidates hne hmem hmax =>
      have hcands := ih best rfl
      simp only at hcands
      rw [Candidates.consider] at hprio ⊢
      simp only [Option.all_some, decide_eq_true_eq, Option.some.injEq] at hprio ⊢
      split_ifs at hprio ⊢ with hlt heq
      · -- no route before has the new priority
        cases hprio
        have hnone : (routes.filter fun r => routePriority r path = routePriority route path) = [] :=
          List.filter_eq_nil_iff.2 fun r hr he => by
            have := hmax r hr
            have := of_decide_eq_true he
            omega
        rw [hnone]
        simp [arwsMaxCandidates]
      · cases hprio
        obtain ⟨rfl, hroom⟩ := heq
        have hlen : (routes.filter fun r => routePriority r path = routePriority route path).length <
            arwsMaxCandidates := by
          by_contra hge
          rw [hcands, List.length_take, Nat.min_eq_left (Nat.not_lt.1 hge)] at hroom
          exact absurd hroom (Nat.lt_irrefl _)
        rw [hcands, List.take_of_length_le hlen.le, decide_eq_true rfl, cond_true,
          List.take_of_length_le]
        rw [List.length_append]
        exact hlen
      · cases hprio
        by_cases he : routePriority route path = prio
        · have hfull : arwsMaxCandidates ≤ candidates.length :=
            Nat.not_lt.1 fun hroom => heq ⟨he.symm, hroom⟩
          have hlen : arwsMaxCandidates ≤
              (routes.filter fun r => routePriority r path = prio).length := by
            rw [hcands, List.length_take] at hfull
            omega
          rw [hcands, List.take_append_of_le_length hlen]
        · rw [hcands, decide_eq_false he, cond_false, List.append_nil]

/-- What the search has found. -/
theorem exists_bestPriority {route : ArwsRoute} (h : route ∈ table.serving req effectiveMode) :
    ∃ prio, table.candidates req effectiveMode =
        ((table.serving req effectiveMode).filter fun r => routePriority r req.path = prio).take
          arwsMaxCandidates ∧
      (∃ r ∈ table.serving req effectiveMode, routePriority r req.path = prio) ∧
      ∀ r ∈ table.serving req effectiveMode, routePriority r req.path ≤ prio := by
  have hbest := best_foldl req.path (table.serving req effectiveMode)
  have hcands := candidates_foldl req.path (table.serving req effectiveMode)
  have hfound : table.candidates req effectiveMode =
      ((table.serving req effectiveMode).foldl (fun found route => found.consider req.path route)
        (⟨none, []⟩ : Candidates)).candidates := rfl
  generalize (table.serving req effectiveMode).foldl _ _ = found at hbest hcands hfound
  cases hbest with
  | none hnil =>
    rw [hnil] at h
    cases h
  | some prio candidates hne hmem hmax =>
    obtain ⟨c, hc⟩ := List.exists_mem_of_ne_nil _ hne
    exact ⟨prio, hfound.trans (hcands prio rfl), ⟨c, hmem c hc⟩, hmax⟩

/-- **Where some route has the whole path, the candidates are the first contenders.** -/
theorem candidates_eq {route : ArwsRoute} (h : route ∈ table.serving req effectiveMode)
    (hwhole : route.effective = req.path) :
    table.candidates req effectiveMode =
      (table.contenders req effectiveMode).take arwsMaxCandidates := by
  obtain ⟨prio, hcands, ⟨best, hbest, rfl⟩, hmax⟩ := exists_bestPriority h
  have hrank : ∀ {r s : ArwsRoute}, r ∈ table.serving req effectiveMode →
      s ∈ table.serving req effectiveMode →
      (routePriority r req.path ≤ routePriority s req.path ↔ r.rank ≤ s.rank) := fun hr hs =>
    routePriority_le_iff (effective_of_mem_serving hr) (effective_of_mem_serving hs)
  obtain ⟨p, hp⟩ := contenders_eq_filter table req effectiveMode
  rw [hcands, hp]
  congr 1
  refine List.filter_congr fun r hr => ?_
  have hmem : p r = true ↔ r ∈ table.contenders req effectiveMode := by
    rw [hp, List.mem_filter, and_iff_right hr]
  rw [Bool.eq_iff_iff, decide_eq_true_eq, hmem, mem_contenders, and_iff_right hr]
  constructor
  · intro heq
    have hle : ∀ s ∈ table.serving req effectiveMode, s.rank ≤ r.rank := fun s hs =>
      (hrank hs hr).1 ((hmax s hs).trans heq.ge)
    have hwhole' : r.effective = req.path := by
      have := hle route h
      rw [ArwsRoute.rank, ArwsRoute.rank, Prod.Lex.toLex_le_toLex, hwhole] at this
      refine (effective_of_mem_serving hr).eq_of_length_le ?_
      rcases this with hlt | ⟨heq, -⟩
      · exact hlt.le
      · exact heq.le
    refine ⟨hwhole', fun s hs hs' => ?_⟩
    have := hle s hs
    rw [ArwsRoute.rank, ArwsRoute.rank, Prod.Lex.toLex_le_toLex, hwhole', hs'] at this
    exact (this.resolve_left (lt_irrefl _)).2
  · rintro ⟨hwhole', hspecific⟩
    refine le_antisymm (hmax r hr) ((hrank hbest hr).2 ?_)
    rw [ArwsRoute.rank, ArwsRoute.rank, Prod.Lex.toLex_le_toLex, hwhole']
    rcases (effective_of_mem_serving hbest).length_le.lt_or_eq with hlt | heq
    · exact Or.inl hlt
    · exact Or.inr ⟨heq, hspecific best hbest ((effective_of_mem_serving hbest).eq_of_length heq)⟩

/-- Each candidate is returned for some value of the counter. -/
theorem exists_rrCounter {route : ArwsRoute} (h : route ∈ table.candidates req effectiveMode)
    (hlen : (table.candidates req effectiveMode).length ≤ arwsMaxCandidates) :
    ∃ rrCounter rr, arwsRouteMatch table rrCounter req effectiveMode = some (rr, some route) := by
  obtain ⟨i, hi, hget⟩ := List.mem_iff_getElem.1 h
  have hlt : i < 64 := hi.trans_le hlen
  have hint : toInt i = i := by
    rw [toInt]
    omega
  refine ⟨i, i + 1, ?_⟩
  rw [arwsRouteMatch]
  simp only [hint]
  rw [if_neg (List.ne_nil_of_mem h), Int.tmod_eq_of_lt (by omega) (by omega), if_neg (by omega),
    Int.toNat_natCast, List.getElem?_eq_getElem hi, hget]

theorem mem_candidates_of_match {route : ArwsRoute} {rrCounter rr : Int}
    (h : arwsRouteMatch table rrCounter req effectiveMode = some (rr, some route)) :
    route ∈ table.candidates req effectiveMode := by
  rw [arwsRouteMatch] at h
  by_cases hnil : table.candidates req effectiveMode = []
  · rw [if_pos hnil] at h
    cases h
  · simp only [if_neg hnil] at h
    split_ifs at h
    exact List.mem_of_getElem? (Prod.mk.inj (Option.some.inj h)).2

/-- **An exact route wins unless there is a wildcard among the routes that have the whole path**, with a
host of their own if one of them has. -/
theorem exactWins_iff (table : RouteTable) (req : HttpRequest) (effectiveMode : Bytes) :
    ExactWins table req effectiveMode ↔
      ((∃ e ∈ table.contenders req effectiveMode, e.Exact req.path) →
        ∀ w ∈ (table.contenders req effectiveMode).take arwsMaxCandidates, ¬ w.Wildcard) := by
  constructor
  · rintro h ⟨e, he, hexact⟩ w hw hwild
    obtain ⟨heserving, hewhole, hetop⟩ := mem_contenders.1 he
    obtain ⟨hwserving, hwwhole, hwtop⟩ := mem_contenders.1 (List.mem_of_mem_take hw)
    have hcands := candidates_eq heserving hewhole
    obtain ⟨rrCounter, rr, hmatch⟩ := exists_rrCounter (hcands ▸ hw) (by
      rw [hcands]
      exact List.length_take_le _ _)
    exact h e heserving hexact w hwserving hwild
      (le_antisymm (hetop w hwserving hwwhole) (hwtop e heserving hewhole)) rrCounter rr hmatch
  · intro h e he hexact w hw hwild hspecific rrCounter rr hmatch
    have hmem := mem_candidates_of_match hmatch
    rw [candidates_eq he hexact.effective] at hmem
    obtain ⟨-, -, hwtop⟩ := mem_contenders.1 (List.mem_of_mem_take hmem)
    exact h ⟨e, mem_contenders.2 ⟨he, hexact.effective, hspecific ▸ hwtop⟩, hexact⟩ w hmem hwild

/-- A table to which a route for a prefix is added. -/
private def addedRoute (table : RouteTable) (pathPrefix : String) (backendId : Int) : RouteTable :=
  (arwsAddRoute table (some .zero) (ascii pathPrefix) (ascii "GET") none none backendId).1

/-- **A wildcard is returned in the place of the route for the path**, every other time. -/
theorem not_exactWins : ¬ ∀ table req effectiveMode, ExactWins table req effectiveMode := by
  intro h
  refine h (addedRoute (addedRoute (fun _ => []) "/api" 1) "/api*" 2)
    ⟨ascii "GET", ascii "/api", none, [], [], ascii "a.com", [], 0⟩ (ascii "test")
    (ArwsRoute.zero.written (ascii "/api") (ascii "GET") none none 1 false false) (by decide +kernel)
    (by decide +kernel) (ArwsRoute.zero.written (ascii "/api*") (ascii "GET") none none 2 false false)
    (by decide +kernel) (by decide +kernel) rfl 1 2 (by decide +kernel)

end Router
end Arws

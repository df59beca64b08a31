import Arws.Gateway.RoundRobin
import Arws.Library.EvenSpread
import Arws.Router.ExactPath

/-!
# The spread over routes that tie

One counter serves every tie of the table, so which of its routes a request is given depends on all the
requests in between.

* `returnedFor_eq` — the routes that are returned for a request, by their places among those that tie.
* `places_eq` — the places are the residues of the numbers of earlier calls that have found a route.
* `spread_iff` — they are evenly spread at all times exactly if, in each round of `k` calls for the request,
  `k` divides the number of calls from no one up to another.
* `not_spread` — two requests by turns, and the first of two routes each time.
-/

set_option autoImplicit false

namespace Arws
namespace Gateway
namespace RoundRobin

open CString EvenSpread Router Server

/-! ## Routes that tie -/

/-- The routes that serve a request with the best priority, in the order in which the loop visits them. -/
def tied (table : RouteTable) (q : HttpRequest × Bytes) : List ArwsRoute :=
  (table.serving q.1 q.2).filter fun route =>
    (table.serving q.1 q.2).all fun other =>
      decide (routePriority other q.1.path ≤ routePriority route q.1.path)

/-- **The candidates are the routes that tie**, as far as there is room for them. -/
theorem candidates_eq_tied (table : RouteTable) (q : HttpRequest × Bytes) :
    table.candidates q.1 q.2 = (tied table q).take arwsMaxCandidates := by
  by_cases hnil : table.serving q.1 q.2 = []
  · have hnone : table.candidates q.1 q.2 = ((table.serving q.1 q.2).foldl
        (fun found route => found.consider q.1.path route) (⟨none, []⟩ : Candidates)).candidates := rfl
    rw [hnone, tied, hnil]
    rfl
  · obtain ⟨route, hroute⟩ := List.exists_mem_of_ne_nil _ hnil
    obtain ⟨prio, hcands, ⟨best, hbest, rfl⟩, hmax⟩ := exists_bestPriority hroute
    rw [hcands, tied]
    congr 1
    refine List.filter_congr fun r hr => ?_
    rw [Bool.eq_iff_iff, decide_eq_true_eq, List.all_eq_true]
    simp only [decide_eq_true_eq]
    exact ⟨fun heq s hs => (hmax s hs).trans heq.ge, fun h => le_antisymm (hmax r hr) (h best hbest)⟩

/-! ## Calls for a request -/

section Calls

variable (table : RouteTable) (q : HttpRequest × Bytes)

/-- The call of `arws_route_match` for a request in a mode. -/
def callFor (a : HttpRequest × Bytes) : MatchCall := ⟨table, a.1, a.2⟩

/-- The routes that `arws_route_match` returns for a request, among calls for it and for others. -/
def returnedFor : Int → List (HttpRequest × Bytes) → Option (List (Option ArwsRoute))
  | _, [] => some []
  | rrCounter, a :: asked =>
    (arwsRouteMatch table rrCounter a.1 a.2).bind fun (rrCounter, route) =>
      (returnedFor rrCounter asked).map fun routes => if a = q then route :: routes else routes

/-- The indices of these routes among the candidates. -/
def places : Int → List (HttpRequest × Bytes) → List ℕ
  | _, [] => []
  | rrCounter, a :: asked =>
    let rest := places ((callFor table a).next rrCounter) asked
    if a = q then (indexOf rrCounter (callFor table q).count).toNat :: rest else rest

/-- For each call for a request, how many of the calls before it have found a route. -/
def before : ℕ → List (HttpRequest × Bytes) → List ℕ
  | _, [] => []
  | found, a :: asked =>
    let rest := before (if (callFor table a).count = 0 then found else found + 1) asked
    if a = q then found :: rest else rest

/-- How many calls find a route. -/
def matched (asked : List (HttpRequest × Bytes)) : ℕ := asked.countP fun a => (callFor table a).count ≠ 0

end Calls

section Run

variable {table : RouteTable} {q : HttpRequest × Bytes} {asked : List (HttpRequest × Bytes)} {rr found k : ℕ}

theorem matched_cons (a : HttpRequest × Bytes) (asked : List (HttpRequest × Bytes)) :
    matched table (a :: asked) = matched table asked + if (callFor table a).count = 0 then 0 else 1 := by
  rw [matched, List.countP_cons, ← matched]
  by_cases hzero : (callFor table a).count = 0 <;> simp [hzero]

/-- An index below `INT_MAX` is the residue of the counter. -/
theorem indexOf_natCast (h : rr < 2 ^ 31) (count : ℕ) : indexOf rr count = ((rr % count : ℕ) : Int) := by
  have hint : toInt rr = rr := by
    rw [toInt]
    omega
  rw [indexOf, hint, Int.natCast_mod, Int.tmod_eq_emod_of_nonneg (Int.natCast_nonneg rr)]

theorem next_natCast (call : MatchCall) :
    call.next (rr : Int) = ((if call.count = 0 then rr else rr + 1 : ℕ) : Int) := by
  rw [MatchCall.next]
  split <;> simp

/-- **The routes that are returned for a request** are the candidates at the places. -/
theorem returnedFor_eq (hq : (callFor table q).count ≠ 0) (hbelow : rr + matched table asked < 2 ^ 31) :
    returnedFor table q rr asked =
      some ((places table q rr asked).map fun i => (table.candidates q.1 q.2)[i]?) := by
  induction asked generalizing rr with
  | nil => rfl
  | cons a asked ih =>
    rw [matched_cons] at hbelow
    have hcode := arwsRouteMatch_eq (callFor table a) rr
    have hnext := @next_natCast rr (callFor table a)
    have hrest := @ih (if (callFor table a).count = 0 then rr else rr + 1) (by split_ifs at hbelow ⊢ <;> omega)
    rw [returnedFor, places, hnext]
    rw [hnext] at hcode
    by_cases hzero : (callFor table a).count = 0
    · -- a call that finds no route is not for `q`
      have hne : a ≠ q := fun he => hq (he ▸ hzero)
      rw [if_pos hzero] at hcode
      rw [show arwsRouteMatch table rr a.1 a.2 = _ from hcode, Option.bind_some]
      simp only [hrest, Option.map_some, if_neg hne]
    · rw [if_neg hzero, indexOf_natCast (by omega), if_neg (by omega)] at hcode
      rw [show arwsRouteMatch table rr a.1 a.2 = _ from hcode, Option.bind_some]
      simp only [hrest, Option.map_some]
      by_cases he : a = q
      · subst he
        rw [if_pos rfl, if_pos rfl, List.map_cons, indexOf_natCast (by omega)]
        rfl
      · rw [if_neg he, if_neg he]

/-- **The places are residues** of the numbers of calls that have found a route. -/
theorem places_eq (hbelow : rr + found + matched table asked < 2 ^ 31) :
    places table q (rr + found : ℕ) asked =
      (before table q found asked).map fun t => (rr + t) % (callFor table q).count := by
  induction asked generalizing found with
  | nil => rfl
  | cons a asked ih =>
    rw [matched_cons] at hbelow
    have hnext := @next_natCast (rr + found) (callFor table a)
    have hfound : (if (callFor table a).count = 0 then rr + found else rr + found + 1) =
        rr + if (callFor table a).count = 0 then found else found + 1 := by
      split_ifs <;> rfl
    have hrest := @ih (if (callFor table a).count = 0 then found else found + 1)
      (by split_ifs at hbelow ⊢ <;> omega)
    rw [places, before, hnext, hfound, hrest, indexOf_natCast (by omega), Int.toNat_natCast]
    by_cases he : a = q
    · rw [if_pos he, if_pos he, List.map_cons]
    · rw [if_neg he, if_neg he]

/-- Later calls have more calls before them. -/
theorem before_sorted (hq : (callFor table q).count ≠ 0) :
    (before table q found asked).Pairwise (· < ·) ∧ ∀ t ∈ before table q found asked, found ≤ t := by
  induction asked generalizing found with
  | nil => exact ⟨.nil, fun t ht => nomatch ht⟩
  | cons a asked ih =>
    obtain ⟨hsorted, hge⟩ := @ih (if (callFor table a).count = 0 then found else found + 1)
    rw [before]
    by_cases he : a = q
    · subst he
      rw [if_neg hq] at hsorted hge ⊢
      rw [if_pos rfl]
      refine ⟨List.pairwise_cons.2 ⟨fun t ht => hge t ht, hsorted⟩, fun t ht => ?_⟩
      rcases List.mem_cons.1 ht with rfl | ht
      · exact le_rfl
      · exact Nat.le_of_succ_le (hge t ht)
    · rw [if_neg he]
      refine ⟨hsorted, fun t ht => le_trans ?_ (hge t ht)⟩
      split_ifs <;> omega

/-- What has been returned at some time is a beginning of what is returned, and each beginning is. -/
theorem isPrefix_places_iff {rrCounter : Int} {l : List ℕ} :
    l <+: places table q rrCounter asked ↔
      ∃ asked', asked' <+: asked ∧ places table q rrCounter asked' = l := by
  induction asked generalizing rrCounter l with
  | nil =>
    rw [places, List.prefix_nil]
    constructor
    · exact fun h => ⟨[], List.prefix_rfl, h.symm⟩
    · rintro ⟨asked', hbegin, rfl⟩
      rw [List.prefix_nil.1 hbegin, places]
  | cons a asked ih =>
    constructor
    · intro h
      by_cases he : a = q
      · rw [places, if_pos he] at h
        rcases List.prefix_cons_iff.1 h with rfl | ⟨l', rfl, hrest⟩
        · exact ⟨[], List.nil_prefix, rfl⟩
        · obtain ⟨asked', hbegin, rfl⟩ := ih.1 hrest
          exact ⟨a :: asked', (List.prefix_cons_inj a).2 hbegin, by rw [places, if_pos he]⟩
      · rw [places, if_neg he] at h
        obtain ⟨asked', hbegin, rfl⟩ := ih.1 h
        exact ⟨a :: asked', (List.prefix_cons_inj a).2 hbegin, by rw [places, if_neg he]⟩
    · rintro ⟨asked', hbegin, rfl⟩
      rcases List.prefix_cons_iff.1 hbegin with rfl | ⟨asked', rfl, hbegins⟩
      · exact List.nil_prefix
      · have hrest := (@ih ((callFor table a).next rrCounter) _).2 ⟨asked', hbegins, rfl⟩
        rw [places, places]
        by_cases he : a = q
        · rw [if_pos he, if_pos he]
          exact (List.prefix_cons_inj _).2 hrest
        · rw [if_neg he, if_neg he]
          exact hrest

end Run

/-! ## The spread -/

/-- **The routes that tie for a request are returned equally often at all times, save for once, exactly if,
in each round of `k` calls for the request, `k` does not divide how many calls find a route from one of
them up to another.** -/
theorem spread_iff {table : RouteTable} {q : HttpRequest × Bytes} {asked : List (HttpRequest × Bytes)}
    {rr k : ℕ} (htied : (tied table q).length = k) (hk : 2 ≤ k) (hroom : k ≤ 64)
    (hbelow : rr + matched table asked < 2 ^ 31) :
    returnedFor table q rr asked = some ((places table q rr asked).map fun i => (tied table q)[i]?) ∧
      ((∀ asked', asked' <+: asked → EvenlyTaken k (places table q rr asked')) ↔
        ∀ n, (roundOf k n (before table q 0 asked)).Pairwise fun s t => ¬ k ∣ t - s) := by
  have hcands : table.candidates q.1 q.2 = tied table q := by
    rw [candidates_eq_tied, List.take_of_length_le]
    exact htied.trans_le hroom
  have hcount : (callFor table q).count = k := (congrArg List.length hcands).trans htied
  have hne : (callFor table q).count ≠ 0 := by omega
  have hplaces := @places_eq table q asked rr 0 hbelow
  rw [Nat.add_zero, hcount] at hplaces
  have hlt : ∀ x ∈ places table q rr asked, x < k := by
    rw [hplaces]
    intro x hx
    obtain ⟨t, -, rfl⟩ := List.mem_map.1 hx
    exact Nat.mod_lt _ (by omega)
  refine ⟨hcands ▸ returnedFor_eq hne hbelow, ?_⟩
  have hevery : (∀ asked', asked' <+: asked → EvenlyTaken k (places table q rr asked')) ↔
      ∀ p, p <+: places table q rr asked → EvenlyTaken k p := by
    constructor
    · intro h p hp
      obtain ⟨asked', hbegin, rfl⟩ := isPrefix_places_iff.1 hp
      exact h asked' hbegin
    · exact fun h asked' hbegin => h _ (isPrefix_places_iff.2 ⟨asked', hbegin, rfl⟩)
  rw [hevery, evenlyTaken_prefixes_iff (by omega) hlt, hplaces]
  refine forall_congr' fun n => ?_
  rw [roundOf_map]
  exact nodup_residues_iff ((before_sorted hne).1.sublist
    ((List.take_sublist _ _).trans (List.drop_sublist _ _))) rr

/-- Two routes for `/a`, and one for `/b`. -/
private def twoForA : RouteTable :=
  let add := fun table (path : String) backendId =>
    (arwsAddRoute table (some .zero) (ascii path) (ascii "GET") none none backendId).1
  add (add (add (fun _ => []) "/a" 1) "/a" 2) "/b" 3

private def askFor (path : String) : HttpRequest × Bytes :=
  (⟨ascii "GET", ascii path, none, [], [], ascii "a.com", [], 0⟩, ascii "test")

private theorem length_tied_twoForA : (tied twoForA (askFor "/a")).length = 2 := by decide +kernel

/-- Two requests for `/a` in a row. -/
theorem spread_iff_two : EvenlyTaken 2 (places twoForA (askFor "/a") 0 [askFor "/a", askFor "/a"]) := by
  have hbelow : 0 + matched twoForA [askFor "/a", askFor "/a"] < 2 ^ 31 := by decide +kernel
  refine (spread_iff length_tied_twoForA le_rfl (by decide) hbelow).2.2 (fun n => ?_) _ List.prefix_rfl
  have hbefore : before twoForA (askFor "/a") 0 [askFor "/a", askFor "/a"] = [0, 1] := by decide +kernel
  rw [hbefore]
  cases n with
  | zero => decide
  | succ n =>
    rw [roundOf, List.drop_eq_nil_of_le (by rw [List.length_cons, List.length_singleton]; omega)]
    exact .nil

/-- **Two requests by turns**: every one for `/a` is given the same route. -/
theorem not_spread : ¬ ∀ (table : RouteTable) (q : HttpRequest × Bytes) (asked : List (HttpRequest × Bytes))
    (rr k : ℕ), (tied table q).length = k → 2 ≤ k → k ≤ 64 → rr + matched table asked < 2 ^ 31 →
      EvenlyTaken k (places table q rr asked) := by
  intro h
  have hspread := h twoForA (askFor "/a") [askFor "/a", askFor "/b", askFor "/a"] 0 2 length_tied_twoForA
    le_rfl (by decide) (by decide +kernel)
  have hsame : places twoForA (askFor "/a") 0 [askFor "/a", askFor "/b", askFor "/a"] = [0, 0] := by
    decide +kernel
  rw [Int.natCast_zero, hsame] at hspread
  exact absurd hspread (by decide)

end RoundRobin
end Gateway
end Arws

import Arws.Library.SmoothRoundRobin
import Arws.Upstream.Nodes

/-!
# The weighted round robin

`select_wrr_locked` keeps an account for each node in `current_weight`.  A call gives every node it may
select its `effective_weight` and takes the sum of these from the node it selects.

* `round_selectWrrLocked` — a call is a round of the smooth weighted round robin among the nodes it may
  select.
* `wrr_proportional` — so in as many calls as the sum of the weights, each node is selected as often as
  its weight says.
-/

set_option autoImplicit false

namespace Arws
namespace Upstream

open SmoothRoundRobin

/-! ## The calls -/

/-- The indices of the nodes that a call may select. -/
def ArwsUpstreamPool.eligibleNodes (pool : ArwsUpstreamPool) (useBackup : Int) : Finset ℕ :=
  ((candidates pool.nodes useBackup).map (·.2)).toFinset

def ArwsUpstreamPool.weightOf (pool : ArwsUpstreamPool) (i : ℕ) : Int :=
  pool.nodes[i]?.elim 0 (·.weight)

def ArwsUpstreamPool.currentWeightOf (pool : ArwsUpstreamPool) (i : ℕ) : Int :=
  pool.nodes[i]?.elim 0 (·.currentWeight)

/-- The sum of the weights of the nodes that a call may select. -/
def ArwsUpstreamPool.weights (pool : ArwsUpstreamPool) (useBackup : Int) : Int :=
  ∑ i ∈ pool.eligibleNodes useBackup, pool.weightOf i

/-- Calls one after the other, with nothing else changing: the pool behind them. -/
def wrrCalls (pool : ArwsUpstreamPool) (useBackup : Int) : ℕ → ArwsUpstreamPool
  | 0 => pool
  | k + 1 => (selectWrrLocked (wrrCalls pool useBackup k) useBackup).1

/-- The node that a call selects behind `k` others. -/
def wrrSelected (pool : ArwsUpstreamPool) (useBackup : Int) (k : ℕ) : Option ℕ :=
  (selectWrrLocked (wrrCalls pool useBackup k) useBackup).2

/-- The nodes that a call may select have their full weight. -/
def ArwsUpstreamPool.FullWeight (pool : ArwsUpstreamPool) (useBackup : Int) : Prop :=
  ∀ n ∈ pool.nodes, n.eligible useBackup = true → n.effectiveWeight = n.weight

instance (pool : ArwsUpstreamPool) (useBackup : Int) : Decidable (pool.FullWeight useBackup) :=
  inferInstanceAs (Decidable (∀ n ∈ pool.nodes, _))

/-! ## One call -/

variable {pool : ArwsUpstreamPool} {useBackup : Int}

theorem mem_eligibleNodes_iff {i : ℕ} : i ∈ pool.eligibleNodes useBackup ↔
    ∃ n, pool.nodes[i]? = some n ∧ n.eligible useBackup = true := by
  rw [ArwsUpstreamPool.eligibleNodes, List.mem_toFinset, List.mem_map]
  constructor
  · rintro ⟨c, hc, rfl⟩
    exact ⟨c.1, mem_candidates_iff.1 hc⟩
  · rintro ⟨n, hn⟩
    exact ⟨(n, i), mem_candidates_iff.2 hn, rfl⟩

theorem nodup_candidates (nodes : List ArwsBackendNode) (useBackup : Int) :
    ((candidates nodes useBackup).map (·.2)).Nodup := by
  refine List.Nodup.sublist ((List.filter_sublist (l := nodes.zipIdx)).map _) ?_
  rw [List.zipIdx_map_snd]
  exact List.nodup_range'

/-- `total_weight` is the sum of the weights. -/
theorem totalWeight_eq (h : pool.FullWeight useBackup) :
    ((candidates pool.nodes useBackup).map (·.1.effectiveWeight)).sum = pool.weights useBackup := by
  rw [ArwsUpstreamPool.weights, ArwsUpstreamPool.eligibleNodes,
    List.sum_toFinset _ (nodup_candidates _ _), List.map_map]
  congr 1
  refine List.map_congr_left fun c hc => ?_
  obtain ⟨hget, hel⟩ := mem_candidates_iff.1 hc
  rw [Function.comp, ArwsUpstreamPool.weightOf, hget]
  exact h c.1 (List.mem_of_getElem? hget) hel

/-- The loop keeps a node that no other has more than. -/
theorem le_scanBest {best c : ArwsBackendNode × ℕ} {l : List (ArwsBackendNode × ℕ)}
    (h : scanBest (fun n best => n.currentWeight > best.currentWeight) (some best) l = some c) :
    best.1.currentWeight ≤ c.1.currentWeight ∧ ∀ n ∈ l, n.1.currentWeight ≤ c.1.currentWeight := by
  induction l generalizing best with
  | nil =>
    cases h
    exact ⟨le_refl _, fun n hn => absurd hn List.not_mem_nil⟩
  | cons n rest ih =>
    obtain ⟨hbest, hrest⟩ := ih h
    have hstep : best.1.currentWeight ≤ c.1.currentWeight ∧
        n.1.currentWeight ≤ c.1.currentWeight := by
      split_ifs at hbest with hmore
      · exact ⟨(le_of_lt (of_decide_eq_true hmore)).trans hbest, hbest⟩
      · exact ⟨hbest, (not_lt.1 fun hlt => hmore (decide_eq_true hlt)).trans hbest⟩
    refine ⟨hstep.1, fun m hm => ?_⟩
    rcases List.mem_cons.1 hm with rfl | hm
    · exact hstep.2
    · exact hrest m hm

/-- What the loop of a call does to a node. -/
def ArwsBackendNode.passed (useBackup : Int) (n : ArwsBackendNode) : ArwsBackendNode :=
  if n.eligible useBackup then n.charged else n

@[simp] theorem eligible_passed (n : ArwsBackendNode) :
    (n.passed useBackup).eligible useBackup = n.eligible useBackup := charged_eligible useBackup n

theorem charged_of_fullWeight {n : ArwsBackendNode} (h : n.effectiveWeight = n.weight) :
    n.charged = { n with currentWeight := n.currentWeight + n.weight } := by
  rw [ArwsBackendNode.charged, h, if_neg (lt_irrefl _), ← h]

/-- The node that is found has most, once everyone was given their weight. -/
theorem scanBest_charged {nodes : List ArwsBackendNode} {c : ArwsBackendNode × ℕ}
    (h : scanBest (fun n best => n.currentWeight > best.currentWeight) none
      (candidates nodes useBackup) = some c) :
    nodes[c.2]? = some c.1 ∧ c.1.eligible useBackup = true ∧
      ∀ (j : ℕ) (n : ArwsBackendNode), nodes[j]? = some n → n.eligible useBackup = true →
        n.currentWeight ≤ c.1.currentWeight := by
  obtain ⟨-, hnone⟩ | ⟨c', hmem, hc'⟩ := scanBest_cases
    (fun n best => n.currentWeight > best.currentWeight) (candidates nodes useBackup)
  · rw [hnone] at h
    cases h
  · obtain rfl : c' = c := Option.some.inj (hc'.symm.trans h)
    obtain ⟨hget, hel⟩ := mem_candidates_iff.1 hmem
    refine ⟨hget, hel, fun j n hn hnel => ?_⟩
    have hj : (n, j) ∈ candidates nodes useBackup := mem_candidates_iff.2 ⟨hn, hnel⟩
    cases hl : candidates nodes useBackup with
    | nil =>
      rw [hl] at hj
      cases hj
    | cons first rest =>
      rw [hl] at h hj
      obtain ⟨hfirst, hrest⟩ := le_scanBest h
      rcases List.mem_cons.1 hj with rfl | hj
      · exact hfirst
      · exact hrest _ hj

/-- What a call that selects the node `i` makes of the node `j`. -/
def ArwsBackendNode.behind (useBackup total : Int) (i j : ℕ) (n : ArwsBackendNode) : ArwsBackendNode :=
  if i = j then
    { n.passed useBackup with currentWeight := (n.passed useBackup).currentWeight - total }.taken
  else n.passed useBackup

theorem eligible_behind (total : Int) (i j : ℕ) (n : ArwsBackendNode) :
    (n.behind useBackup total i j).eligible useBackup = n.eligible useBackup := by
  rw [ArwsBackendNode.behind, ArwsBackendNode.passed]
  split_ifs <;> rfl

theorem weight_behind (total : Int) (i j : ℕ) (n : ArwsBackendNode) :
    (n.behind useBackup total i j).weight = n.weight := by
  rw [ArwsBackendNode.behind, ArwsBackendNode.passed]
  split_ifs <;> rfl

/-- An eligible node of full weight keeps it, is given it, and pays if it is the one selected. -/
theorem behind_eq (total : Int) (i j : ℕ) {n : ArwsBackendNode} (hel : n.eligible useBackup = true)
    (hfull : n.effectiveWeight = n.weight) :
    (n.behind useBackup total i j).effectiveWeight = n.weight ∧
      (n.behind useBackup total i j).currentWeight =
        n.currentWeight + n.weight - if j = i then total else 0 := by
  rw [ArwsBackendNode.behind, ArwsBackendNode.passed, if_pos hel, charged_of_fullWeight hfull]
  by_cases hij : i = j
  · rw [if_pos hij, if_pos hij.symm]
    exact ⟨hfull, rfl⟩
  · rw [if_neg hij, if_neg fun h => hij h.symm, Int.sub_zero]
    exact ⟨hfull, rfl⟩

/-- **One call**: it selects nothing and changes nothing, if there is nothing to select; or it selects
a node that then has most. -/
theorem selectWrrLocked_cases (h : pool.FullWeight useBackup) :
    (pool.eligibleNodes useBackup = ∅ ∧ selectWrrLocked pool useBackup = (pool, none)) ∨
    ∃ i ∈ pool.eligibleNodes useBackup, (selectWrrLocked pool useBackup).2 = some i ∧
      (∀ j : ℕ, (selectWrrLocked pool useBackup).1.nodes[j]? =
        pool.nodes[j]?.map (·.behind useBackup (pool.weights useBackup) i j)) ∧
      ∀ j ∈ pool.eligibleNodes useBackup,
        pool.currentWeightOf j + pool.weightOf j ≤ pool.currentWeightOf i + pool.weightOf i := by
  rw [selectWrrLocked]
  simp only [totalWeight_eq h]
  have hget (j : ℕ) : (pool.nodes.map (·.passed useBackup))[j]? =
      pool.nodes[j]?.map (·.passed useBackup) := List.getElem?_map
  have hpassed : (pool.nodes.map fun n => if n.eligible useBackup then n.charged else n) =
      pool.nodes.map (·.passed useBackup) := rfl
  rw [hpassed]
  cases hscan : scanBest (fun n best => n.currentWeight > best.currentWeight) none
      (candidates (pool.nodes.map (·.passed useBackup)) useBackup) with
  | none =>
    obtain ⟨hnil, -⟩ | ⟨c, -, hc⟩ := scanBest_cases (fun n best => n.currentWeight > best.currentWeight)
      (candidates (pool.nodes.map (·.passed useBackup)) useBackup)
    · refine Or.inl ⟨Finset.eq_empty_of_forall_notMem fun i hi => ?_, rfl⟩
      obtain ⟨n, hn, hel⟩ := mem_eligibleNodes_iff.1 hi
      have hnone := candidates_eq_nil_iff.1 hnil _ (List.mem_map_of_mem (List.mem_of_getElem? hn))
      rw [eligible_passed, hel] at hnone
      cases hnone
    · rw [hscan] at hc
      cases hc
  | some c =>
    obtain ⟨hci, hcel, hmost⟩ := scanBest_charged hscan
    rw [hget, Option.map_eq_some_iff] at hci
    obtain ⟨n, hn, hnc⟩ := hci
    have hel : n.eligible useBackup = true := by
      rw [← eligible_passed, hnc, hcel]
    have hvalue : ∀ {m : ArwsBackendNode} {j : ℕ}, pool.nodes[j]? = some m →
        m.eligible useBackup = true →
        (m.passed useBackup).currentWeight = pool.currentWeightOf j + pool.weightOf j := by
      intro m j hm hmel
      rw [ArwsBackendNode.passed, if_pos hmel, charged_of_fullWeight (h m (List.mem_of_getElem? hm) hmel),
        ArwsUpstreamPool.currentWeightOf, ArwsUpstreamPool.weightOf, hm]
      rfl
    refine Or.inr ⟨c.2, mem_eligibleNodes_iff.2 ⟨n, hn, hel⟩, rfl, fun j => ?_, fun j hj => ?_⟩
    · rw [List.getElem?_modify, hget]
      cases pool.nodes[j]? <;> rfl
    · obtain ⟨m, hm, hmel⟩ := mem_eligibleNodes_iff.1 hj
      have hle := hmost j (m.passed useBackup) (by rw [hget, hm]; rfl)
        ((eligible_passed m).trans hmel)
      rwa [hvalue hm hmel, ← hnc, hvalue hn hel] at hle

/-- What a call leaves of a pool. -/
structure SamePool (useBackup : Int) (pool pool' : ArwsUpstreamPool) : Prop where
  eligible : pool'.eligibleNodes useBackup = pool.eligibleNodes useBackup
  weight : pool'.weightOf = pool.weightOf
  full : pool'.FullWeight useBackup

theorem samePool_selectWrrLocked (h : pool.FullWeight useBackup) :
    SamePool useBackup pool (selectWrrLocked pool useBackup).1 := by
  obtain ⟨-, hnone⟩ | ⟨i, -, -, hnodes, -⟩ := selectWrrLocked_cases h
  · rw [hnone]
    exact ⟨rfl, rfl, h⟩
  · refine ⟨?_, ?_, ?_⟩
    · ext j
      rw [mem_eligibleNodes_iff, mem_eligibleNodes_iff, hnodes]
      cases pool.nodes[j]? with
      | none => simp
      | some n => simp [eligible_behind]
    · funext j
      rw [ArwsUpstreamPool.weightOf, ArwsUpstreamPool.weightOf, hnodes]
      cases pool.nodes[j]? with
      | none => rfl
      | some n => exact weight_behind _ _ _ n
    · intro m hm hel
      obtain ⟨j, hj⟩ := List.mem_iff_getElem?.1 hm
      rw [hnodes, Option.map_eq_some_iff] at hj
      obtain ⟨n, hn, rfl⟩ := hj
      rw [eligible_behind] at hel
      rw [weight_behind]
      exact (behind_eq _ _ _ hel (h n (List.mem_of_getElem? hn) hel)).1

/-- **A call is a round** of the smooth weighted round robin. -/
theorem round_selectWrrLocked (h : pool.FullWeight useBackup)
    (hne : pool.eligibleNodes useBackup ≠ ∅) :
    ∃ i, (selectWrrLocked pool useBackup).2 = some i ∧
      Round (pool.eligibleNodes useBackup) pool.weightOf pool.currentWeightOf i
        (selectWrrLocked pool useBackup).1.currentWeightOf := by
  obtain ⟨hnil, -⟩ | ⟨i, hi, hsel, hnodes, hmost⟩ := selectWrrLocked_cases h
  · exact absurd hnil hne
  · refine ⟨i, hsel, hi, hmost, fun j hj => ?_⟩
    obtain ⟨n, hn, hel⟩ := mem_eligibleNodes_iff.1 hj
    rw [ArwsUpstreamPool.currentWeightOf, hnodes, hn, ArwsUpstreamPool.currentWeightOf,
      ArwsUpstreamPool.weightOf, hn]
    exact (behind_eq _ _ _ hel (h n (List.mem_of_getElem? hn) hel)).2

/-! ## A cycle of calls -/

theorem samePool_wrrCalls (h : pool.FullWeight useBackup) (k : ℕ) :
    SamePool useBackup pool (wrrCalls pool useBackup k) := by
  induction k with
  | zero => exact ⟨rfl, rfl, h⟩
  | succ k ih =>
    obtain ⟨hel, hweight, hfull⟩ := samePool_selectWrrLocked ih.full
    exact ⟨hel.trans ih.eligible, hweight.trans ih.weight, hfull⟩

/-- The calls are rounds. -/
theorem rounds_wrrCalls (h : pool.FullWeight useBackup) (hne : pool.eligibleNodes useBackup ≠ ∅)
    (k : ℕ) : ∃ picks : List ℕ, picks.map some = (List.range k).map (wrrSelected pool useBackup) ∧
      Rounds (pool.eligibleNodes useBackup) pool.weightOf pool.currentWeightOf picks
        (wrrCalls pool useBackup k).currentWeightOf := by
  induction k with
  | zero => exact ⟨[], rfl, .nil⟩
  | succ k ih =>
    obtain ⟨picks, hpicks, hrounds⟩ := ih
    have hsame := samePool_wrrCalls h k
    obtain ⟨i, hi, hround⟩ := round_selectWrrLocked hsame.full (by rw [hsame.eligible]; exact hne)
    rw [hsame.eligible, hsame.weight] at hround
    refine ⟨picks ++ [i], ?_, .concat hrounds hround⟩
    rw [List.map_append, hpicks, List.range_succ, List.map_append, List.map_singleton,
      List.map_singleton, wrrSelected, hi]

/-- The only call that writes weights writes positive ones. -/
theorem weight_pos_addNodeIn (hpos : ∀ n ∈ pool.nodes, 0 < n.weight) (host : Bytes)
    (port weight isBackup : Int) :
    ∀ n ∈ (addNodeIn pool host port weight isBackup).1.nodes, 0 < n.weight := by
  have hw : ∀ w : Int, 0 < if w ≤ 0 then 1 else if w > 100 then 100 else w := by
    intro w
    split_ifs <;> omega
  rw [addNodeIn]
  split
  · exact forall_mem_modify (P := fun n : ArwsBackendNode => 0 < n.weight)
      (fun _ _ => hw weight) hpos _
  · split
    · exact hpos
    · intro n hn
      rcases List.mem_append.1 hn with hn | hn
      · exact hpos n hn
      · rw [List.mem_singleton.1 hn]
        exact hw _

/-- The pool is at the start of a cycle: the nodes of the class have their full weight, and their
accounts are empty.  The weights are positive by `weight_pos_addNodeIn`. -/
structure ArwsUpstreamPool.AtRest (pool : ArwsUpstreamPool) (useBackup : Int) : Prop where
  full : pool.FullWeight useBackup
  weight_nonneg : ∀ n ∈ pool.nodes, n.eligible useBackup = true → 0 ≤ n.weight
  current : ∀ n ∈ pool.nodes, n.eligible useBackup = true → n.currentWeight = 0

/-- **In as many calls as the sum of the weights**, each node is selected as often as its weight says;
its account is never down by that sum, and is empty again at the end. -/
theorem wrr_proportional (h : pool.AtRest useBackup) :
    (∀ (i : ℕ) (n : ArwsBackendNode), pool.nodes[i]? = some n → n.eligible useBackup = true →
      (((List.range (pool.weights useBackup).toNat).countP fun k =>
        wrrSelected pool useBackup k = some i : ℕ) : Int) = n.weight) ∧
    (∀ k < (pool.weights useBackup).toNat, ∀ n ∈ (wrrCalls pool useBackup (k + 1)).nodes,
      n.eligible useBackup = true → -pool.weights useBackup < n.currentWeight) ∧
    ∀ n ∈ (wrrCalls pool useBackup (pool.weights useBackup).toNat).nodes,
      n.eligible useBackup = true → n.currentWeight = 0 := by
  have hcurrent : ∀ j ∈ pool.eligibleNodes useBackup, pool.currentWeightOf j = 0 := by
    intro j hj
    obtain ⟨n, hn, hel⟩ := mem_eligibleNodes_iff.1 hj
    rw [ArwsUpstreamPool.currentWeightOf, hn]
    exact h.current n (List.mem_of_getElem? hn) hel
  have hweight : ∀ j ∈ pool.eligibleNodes useBackup, 0 ≤ pool.weightOf j := by
    intro j hj
    obtain ⟨n, hn, hel⟩ := mem_eligibleNodes_iff.1 hj
    rw [ArwsUpstreamPool.weightOf, hn]
    exact h.weight_nonneg n (List.mem_of_getElem? hn) hel
  have htotal : 0 ≤ pool.weights useBackup := Finset.sum_nonneg hweight
  -- an eligible node behind some calls is one of the class, with its account
  have hnode : ∀ {k : ℕ} {n : ArwsBackendNode}, n ∈ (wrrCalls pool useBackup k).nodes →
      n.eligible useBackup = true → ∃ j ∈ pool.eligibleNodes useBackup,
        n.currentWeight = (wrrCalls pool useBackup k).currentWeightOf j := by
    intro k n hn hel
    obtain ⟨j, hj⟩ := List.mem_iff_getElem?.1 hn
    refine ⟨j, ?_, ?_⟩
    · rw [← (samePool_wrrCalls h.full k).eligible]
      exact mem_eligibleNodes_iff.2 ⟨n, hj, hel⟩
    · rw [ArwsUpstreamPool.currentWeightOf, hj]
      rfl
  have hrounds : ∀ k j, j ∈ pool.eligibleNodes useBackup → _ := fun k j hj =>
    rounds_wrrCalls h.full (Finset.ne_empty_of_mem hj) k
  refine ⟨fun i n hn hel => ?_, fun k hk n hn hel => ?_, fun n hn hel => ?_⟩
  · have hi := mem_eligibleNodes_iff.2 ⟨n, hn, hel⟩
    obtain ⟨picks, hpicks, hround⟩ := hrounds (pool.weights useBackup).toNat i hi
    have hlen : picks.length = (pool.weights useBackup).toNat := by
      simpa using congrArg List.length hpicks
    have hcount : (List.range (pool.weights useBackup).toNat).countP
        (fun k => wrrSelected pool useBackup k = some i) = picks.count i := by
      rw [← List.count_map_of_injective picks some (Option.some_injective ℕ) i, hpicks, List.count,
        List.countP_map]
      exact List.countP_congr fun k _ => by simp
    rw [hcount, hround.count_eq hweight hcurrent (by rw [hlen, Int.toNat_of_nonneg htotal]; rfl) i hi,
      ArwsUpstreamPool.weightOf, hn]
    rfl
  · obtain ⟨j, hj, hvalue⟩ := hnode hn hel
    obtain ⟨picks, -, hround⟩ := hrounds (k + 1) j hj
    have hpos : 0 < pool.weights useBackup := by omega
    rw [hvalue]
    refine hround.neg_total_lt hweight hpos (Finset.sum_eq_zero hcurrent) (fun j hj => ?_) j hj
    rw [hcurrent j hj]
    exact Int.neg_neg_of_pos hpos
  · obtain ⟨j, hj, hvalue⟩ := hnode hn hel
    obtain ⟨picks, hpicks, hround⟩ := hrounds (pool.weights useBackup).toNat j hj
    have hlen : picks.length = (pool.weights useBackup).toNat := by
      simpa using congrArg List.length hpicks
    rw [hvalue]
    exact hround.account_eq_zero hweight hcurrent
      (by rw [hlen, Int.toNat_of_nonneg htotal]; rfl) j hj

/-- Two nodes, one of twice the weight of the other. -/
theorem wrr_proportional_two : ∃ pool : ArwsUpstreamPool, pool.AtRest 0 ∧ pool.weights 0 = 3 ∧
    (List.range 3).countP (fun k => wrrSelected pool 0 k = some 0) = 2 := by
  let pool : ArwsUpstreamPool :=
    { name := [97], algo := .weightedRoundRobin, rrIndex := 0, fallThreshold := 3, riseThreshold := 2,
      active := true, nodes := [addedNode [97] 80 2 0, addedNode [98] 80 1 0] }
  have hrest : pool.AtRest 0 := ⟨by decide, by decide, by decide⟩
  have hweights : pool.weights 0 = 3 := by decide
  refine ⟨pool, hrest, hweights, ?_⟩
  have hcount := (wrr_proportional hrest).1 0 _ rfl (by decide)
  rw [hweights] at hcount
  exact Int.ofNat_inj.1 hcount

/-- Those nodes take turns. -/
example : (List.range 3).map (wrrSelected
    { name := [97], algo := .weightedRoundRobin, rrIndex := 0, fallThreshold := 3, riseThreshold := 2,
      active := true, nodes := [addedNode [97] 80 2 0, addedNode [98] 80 1 0] } 0) =
      [some 0, some 1, some 0] := by decide

end Upstream
end Arws

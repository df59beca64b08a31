import Mathlib.Algebra.Order.BigOperators.Group.List
import Mathlib.Algebra.Order.Group.Int
import Arws.Upstream.Selection

/-!
# Effective weights

The effective weight of a node is the weight it was added with, as long as its requests succeed.  A failure
halves it, a selection by weight raises it by one again, and where a node comes up it is the weight at once.

* `weightsValid_of_reach` — in every reachable state it is between 1 and the weight, which is at most 100;
  and so the weights of a selection have a positive sum where there is a node to select.
-/

set_option autoImplicit false

namespace Arws
namespace Upstream

open CString

structure ArwsBackendNode.WeightsValid (n : ArwsBackendNode) : Prop where
  pos : 1 ≤ n.effectiveWeight
  le_weight : n.effectiveWeight ≤ n.weight
  weight_le : n.weight ≤ 100

/-- What `total_weight` of `select_wrr_locked` is behind its loop. -/
def totalWeight (nodes : List ArwsBackendNode) (useBackup : Int) : Int :=
  ((candidates nodes useBackup).map (·.1.effectiveWeight)).sum

/-- **A selection has weights to go by**: their sum is positive where a node is eligible. -/
theorem totalWeight_pos {nodes : List ArwsBackendNode} (h : ∀ n ∈ nodes, n.WeightsValid) {useBackup : Int}
    (hel : ∃ n ∈ nodes, n.eligible useBackup = true) : 0 < totalWeight nodes useBackup := by
  refine List.sum_pos _ (fun w hw => ?_) ?_
  · obtain ⟨c, hc, rfl⟩ := List.mem_map.1 hw
    exact (h c.1 (List.mem_of_getElem? (mem_candidates_iff.1 hc).1)).pos
  · obtain ⟨n, hn, hel⟩ := hel
    intro hnil
    have hno := candidates_eq_nil_iff.1 (List.map_eq_nil_iff.1 hnil) n hn
    rw [hel] at hno
    cases hno

/-! ## What changes a node -/

variable {n : ArwsBackendNode}

namespace ArwsBackendNode.WeightsValid

/-- The weight that `arws_upstream_add_node` sets. -/
theorem clamped (weight : Int) {n : ArwsBackendNode}
    (hw : n.weight = if weight ≤ 0 then 1 else if weight > 100 then 100 else weight)
    (he : n.effectiveWeight = n.weight) : n.WeightsValid := by
  refine ⟨?_, Int.le_of_eq he, ?_⟩
  · rw [he, hw]
    split_ifs <;> omega
  · rw [hw]
    split_ifs <;> omega

theorem of_eq {m : ArwsBackendNode} (h : n.WeightsValid) (he : m.effectiveWeight = n.effectiveWeight)
    (hw : m.weight = n.weight) : m.WeightsValid :=
  ⟨he ▸ h.pos, he ▸ hw ▸ h.le_weight, hw ▸ h.weight_le⟩

/-- A weight that is restored. -/
theorem restored {m : ArwsBackendNode} (h : n.WeightsValid) (he : m.effectiveWeight = n.weight)
    (hw : m.weight = n.weight) : m.WeightsValid :=
  ⟨he ▸ Int.le_trans h.pos h.le_weight, Int.le_of_eq (he.trans hw.symm), hw ▸ h.weight_le⟩

/-- A weight that is raised where it is below. -/
theorem charged (h : n.WeightsValid) : n.charged.WeightsValid := by
  have hpos := h.pos
  have hle := h.le_weight
  refine ⟨?_, ?_, h.weight_le⟩
  · simp only [ArwsBackendNode.charged]
    split_ifs <;> omega
  · simp only [ArwsBackendNode.charged]
    split_ifs <;> omega

/-- A weight that is halved. -/
theorem release (h : n.WeightsValid) (fallThreshold riseThreshold statusCode : Int) :
    (n.release fallThreshold riseThreshold statusCode).WeightsValid := by
  have hpos := h.pos
  have hle := h.le_weight
  simp only [ArwsBackendNode.release]
  by_cases hcode : failureCode statusCode = true
  · rw [if_pos hcode]
    refine ⟨?_, ?_, h.weight_le⟩
    · simp only
      split_ifs <;> omega
    · simp only
      split_ifs <;> omega
  · rw [if_neg hcode]
    by_cases hrise : n.passCount + 1 ≥ riseThreshold
    · rw [if_pos hrise]
      exact h.restored rfl rfl
    · rw [if_neg hrise]
      exact h.of_eq rfl rfl

theorem probed (h : n.WeightsValid) (fallThreshold riseThreshold : Int) (now : Nat) (alive : Bool) :
    (n.probed fallThreshold riseThreshold now alive).WeightsValid := by
  simp only [ArwsBackendNode.probed]
  by_cases halive : alive = true
  · rw [if_pos halive]
    by_cases hup : n.passCount + 1 ≥ riseThreshold ∧ n.isAlive = false
    · rw [if_pos hup]
      exact h.restored rfl rfl
    · rw [if_neg hup]
      exact h.of_eq rfl rfl
  · rw [if_neg halive]
    exact h.of_eq rfl rfl

end ArwsBackendNode.WeightsValid

/-! ## What changes a pool -/

/-- All weights of the pool are valid. -/
def ArwsUpstreamPool.WeightsValid (pool : ArwsUpstreamPool) : Prop := ∀ n ∈ pool.nodes, n.WeightsValid

namespace ArwsUpstreamPool.WeightsValid

variable {pool pool' : ArwsUpstreamPool} {selected : Option Nat} {useBackup : Int} {clientIp : Bytes}
  (h : pool.WeightsValid)

include h

theorem addNodeIn (host : Bytes) (port weight isBackup : Int) :
    (addNodeIn pool host port weight isBackup).1.WeightsValid := by
  rw [Upstream.addNodeIn]
  split
  · exact forall_mem_modify (fun n _ => .clamped weight rfl rfl) h _
  · split
    · exact h
    · intro n hn
      rcases List.mem_append.1 hn with hn | hn
      · exact h n hn
      · rw [List.mem_singleton.1 hn]
        exact .clamped _ rfl rfl

theorem removeNodeIn (host : Bytes) (port : Int) : (removeNodeIn pool host port).1.WeightsValid := by
  obtain ⟨i, -, he⟩ | ⟨-, he⟩ := removeNodeIn_cases pool host port
  · rw [he]
    exact fun n hn => h n (List.mem_of_mem_eraseIdx hn)
  · rw [he]
    exact h

theorem setNodeDrainIn (host : Bytes) (port drain : Int) :
    (setNodeDrainIn pool host port drain).1.WeightsValid := by
  rw [Upstream.setNodeDrainIn]
  split
  · exact forall_mem_modify (fun n hn => hn.of_eq rfl rfl) h _
  · exact h

theorem probeIn (host : Bytes) (port : Int) (now : Nat) (alive : Bool) :
    (probeIn pool host port now alive).WeightsValid := by
  rw [Upstream.probeIn]
  split
  · exact forall_mem_modify (fun n hn => hn.probed _ _ now alive) h _
  · exact h

theorem releaseIn (named : ArwsUpstreamPool) (i : Nat) (statusCode : Int) :
    (releaseIn named i statusCode pool).WeightsValid :=
  forall_mem_modify (fun _ hn => hn.release _ _ statusCode) h i

/-! ### A selection -/

theorem modify_taken (i : Nat) : ∀ n ∈ pool.nodes.modify i (·.taken), n.WeightsValid :=
  forall_mem_modify (fun _ hn => hn.of_eq rfl rfl) h i

theorem selectWrrLocked (useBackup : Int) : (selectWrrLocked pool useBackup).1.WeightsValid := by
  simp only [Upstream.selectWrrLocked]
  split
  · exact h
  · refine forall_mem_modify (fun _ hn => hn.of_eq rfl rfl) (fun n hn => ?_) _
    obtain ⟨m, hm, rfl⟩ := List.mem_map.1 hn
    split
    · exact (h m hm).charged
    · exact h m hm

theorem selectLeastConnLocked (useBackup : Int) :
    (selectLeastConnLocked pool useBackup).1.WeightsValid := by
  simp only [Upstream.selectLeastConnLocked]
  split
  · exact h
  · exact h.modify_taken _

theorem selectIpHashLocked (clientIp : Bytes) (useBackup : Int) :
    (selectIpHashLocked pool clientIp useBackup).1.WeightsValid := by
  simp only [Upstream.selectIpHashLocked]
  split
  · exact h
  · exact h.modify_taken _

theorem selectRrLocked (hselect : selectRrLocked pool useBackup = some (pool', selected)) :
    pool'.WeightsValid := by
  obtain ⟨⟨r, found⟩, -, heq⟩ := Option.map_eq_some_iff.1 hselect
  cases found with
  | none =>
    cases heq
    exact h
  | some i =>
    cases heq
    exact h.modify_taken i

/-- **A selection keeps the weights**, whatever the pool is selected from by. -/
theorem selectLocked (hselect : selectLocked pool clientIp useBackup = some (pool', selected)) :
    pool'.WeightsValid := by
  rw [Upstream.selectLocked] at hselect
  split at hselect
  · exact h.selectRrLocked hselect
  · have hleast := h.selectLeastConnLocked useBackup
    rwa [Option.some.inj hselect] at hleast
  · have hhash := h.selectIpHashLocked clientIp useBackup
    rwa [Option.some.inj hselect] at hhash
  · have hweighted := h.selectWrrLocked useBackup
    rwa [Option.some.inj hselect] at hweighted

theorem selectFrom (hselect : selectFrom pool clientIp = some (pool', selected)) :
    pool'.WeightsValid := by
  rw [Upstream.selectFrom] at hselect
  split at hselect
  · cases hselect
    exact h
  · obtain ⟨⟨p, first⟩, hfirst, hselect⟩ := Option.bind_eq_some_iff.1 hselect
    have hp := h.selectLocked hfirst
    cases first with
    | some i =>
      cases hselect
      exact hp
    | none => exact hp.selectLocked hselect

end ArwsUpstreamPool.WeightsValid

/-! ## All runs -/

theorem weightsValid_kept : KeptByCalls (fun _ => True) (·.WeightsValid) where
  unused n hn := by cases hn
  create _ h := h
  fresh _ _ _ n hn := by cases hn
  params _ _ h := h
  addNode host port weight isBackup _ h := h.addNodeIn host port weight isBackup
  removeNode host port h := h.removeNodeIn host port
  setNodeDrain host port drain h := h.setNodeDrainIn host port drain
  probe host port now alive h := h.probeIn host port now alive
  release named i statusCode h := h.releaseIn named i statusCode
  select hselect h := h.selectFrom hselect

/-- **Effective weights stay valid** in every run, and a selection has weights to go by. -/
theorem weightsValid_of_reach {pools : List ArwsUpstreamPool} (h : upstreams.Reach pools) :
    ∀ pool ∈ pools, (∀ n ∈ pool.nodes, n.WeightsValid) ∧
      ∀ useBackup, (∃ n ∈ pool.nodes, n.eligible useBackup = true) →
        0 < totalWeight pool.nodes useBackup := by
  intro pool hpool
  have hvalid := weightsValid_kept.of_reach (reachUnder_setsFlag h) pool hpool
  exact ⟨hvalid, fun _ => totalWeight_pos hvalid⟩

/-- Two nodes, one of them with a weight beyond the largest; it is selected, and it fails. -/
theorem weightsValid_two_nodes : ∃ pools, upstreams.Reach pools ∧
    (poolNodes pools (ascii "web")).map (fun n => (n.effectiveWeight, n.weight)) = [(50, 100), (1, 1)] ∧
    ∀ pool ∈ pools, (∀ n ∈ pool.nodes, n.WeightsValid) ∧
      ∀ useBackup, (∃ n ∈ pool.nodes, n.eligible useBackup = true) →
        0 < totalWeight pool.nodes useBackup := by
  obtain ⟨pools, hrun, hnodes⟩ : ∃ pools, upstreams.runUnder (fun _ _ => True) arwsUpstreamInit
      [.addNode (ascii "web") (ascii "10.0.0.2") 80 1000 0,
        .addNode (ascii "web") (ascii "10.0.0.3") 80 (-1) 0,
        .select (ascii "web") (ascii "10.0.0.1"),
        .release (ascii "web") (some (0, 0)) 502] = some pools ∧
      (poolNodes pools (ascii "web")).map (fun n => (n.effectiveWeight, n.weight)) =
        [(50, 100), (1, 1)] := ⟨_, rfl, rfl⟩
  have hreach := Machine.reachUnder_of_runUnder (.start rfl) hrun
  exact ⟨pools, hreach, hnodes, weightsValid_of_reach hreach⟩

end Upstream
end Arws

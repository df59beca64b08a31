import Arws.Upstream.RoundRobinOrder

/-!
# Clients and nodes that leave

`select_ip_hash_locked` takes the hash of the client modulo the number of eligible nodes.  When one of
them leaves, the hash is taken modulo another number.

* `Leaves` — a node goes down or is drained, or it is removed and the nodes behind it move up.
* `stays_iff` — a client of another node stays with it exactly if the number of nodes that are left divides
  the quotient of its hash, or that quotient and one where the node that left stood before.
* `not_stays` — with three nodes a client of the first one is moved when the last one leaves.
-/

set_option autoImplicit false

namespace Arws
namespace Upstream

open CString CyclicScan

/-! ## The node of a client -/

section One

variable {nodes : List ArwsBackendNode} {useBackup : Int} {pool : ArwsUpstreamPool}

theorem map_candidates (nodes : List ArwsBackendNode) (useBackup : Int) :
    (candidates nodes useBackup).map (·.2) = eligibleIndices nodes useBackup := by
  induction nodes using List.reverseRecOn with
  | nil => rfl
  | append_singleton nodes n ih =>
    have hbefore : (List.range nodes.length).filter (eligibleAt (nodes ++ [n]) useBackup) =
        eligibleIndices nodes useBackup := by
      refine List.filter_congr fun i hi => ?_
      rw [eligibleAt, List.getElem?_append_left (List.mem_range.1 hi), eligibleAt]
    have hlast : eligibleAt (nodes ++ [n]) useBackup nodes.length = n.eligible useBackup := by
      simp [eligibleAt]
    have hright : eligibleIndices (nodes ++ [n]) useBackup = eligibleIndices nodes useBackup ++
        [nodes.length].filter (eligibleAt (nodes ++ [n]) useBackup) := by
      rw [eligibleIndices, List.length_append, List.length_singleton, List.range_succ,
        List.filter_append, hbefore]
    rw [candidates, List.zipIdx_append, List.filter_append, List.map_append, ← candidates, ih, hright]
    cases hel : n.eligible useBackup <;> simp [hel, hlast]

/-- **The node of a client** is the one at its hash among those that are served. -/
theorem selectFrom_ipHash (halgo : pool.algo = .ipHash) (clientIp : Bytes) :
    (selectFrom pool clientIp).map (·.2) =
      some pool.served[(hashIp clientIp).toNat % pool.served.length]? := by
  have hlocked : ∀ pool : ArwsUpstreamPool, pool.algo = .ipHash → ∀ useBackup,
      selectLocked pool clientIp useBackup = some (selectIpHashLocked pool clientIp useBackup) := by
    intro pool halgo useBackup
    rw [selectLocked, halgo]
  have hfound : ∀ useBackup, (selectIpHashLocked pool clientIp useBackup).2 =
      (eligibleIndices pool.nodes useBackup)[(hashIp clientIp).toNat %
        (eligibleIndices pool.nodes useBackup).length]? := by
    intro useBackup
    rw [← map_candidates, List.getElem?_map, List.length_map, selectIpHashLocked]
    cases (candidates pool.nodes useBackup)[(hashIp clientIp).toNat %
      (candidates pool.nodes useBackup).length]? <;> rfl
  have hsame : (selectIpHashLocked pool clientIp 0).2 = none →
      (selectIpHashLocked pool clientIp 0).1 = pool := by
    rw [selectIpHashLocked]
    cases (candidates pool.nodes 0)[(hashIp clientIp).toNat % (candidates pool.nodes 0).length]? with
    | none => exact fun _ => rfl
    | some c =>
      intro h
      cases h
  by_cases hne : pool.nodes = []
  · have hserved : pool.served = [] := by
      simp [ArwsUpstreamPool.served, eligibleIndices, hne]
    rw [selectFrom, if_pos hne, hserved]
    rfl
  rw [selectFrom, if_neg hne, hlocked pool halgo, Option.bind_some]
  by_cases hnone : eligibleIndices pool.nodes 0 = []
  · have hserved : pool.served = eligibleIndices pool.nodes 1 := if_pos hnone
    have hfirst : (selectIpHashLocked pool clientIp 0).2 = none := by
      rw [hfound, hnone]
      rfl
    have hpool := hsame hfirst
    rw [← Prod.eta (selectIpHashLocked pool clientIp 0)]
    simp only [hfirst, hpool, hlocked pool halgo, Option.map_some, hfound, hserved]
  · have hserved : pool.served = eligibleIndices pool.nodes 0 := if_neg hnone
    have hlt : (hashIp clientIp).toNat % (eligibleIndices pool.nodes 0).length <
        (eligibleIndices pool.nodes 0).length := Nat.mod_lt _ (List.length_pos_iff.2 hnone)
    have hfirst := hfound 0
    rw [List.getElem?_eq_getElem hlt] at hfirst
    rw [← Prod.eta (selectIpHashLocked pool clientIp 0)]
    simp only [hfirst, Option.map_some, hserved, List.getElem?_eq_getElem hlt]

end One

/-! ## A node that leaves -/

/-- Where a node is when the one at `y` has been taken out. -/
def movedUp (y i : Nat) : Nat := if y < i then i - 1 else i

/-- A node leaves the pool, and the others are somewhere then. -/
inductive Leaves (pool : ArwsUpstreamPool) (y : Nat) : ArwsUpstreamPool → (Nat → Nat) → Prop
  /-- It goes down, or it is drained. -/
  | stops {update : ArwsBackendNode → ArwsBackendNode}
      (hgone : ∀ n ∈ pool.nodes[y]?, (update n).available = false) :
      Leaves pool y { pool with nodes := pool.nodes.modify y update } id
  /-- It is removed. -/
  | removed : Leaves pool y { pool with nodes := pool.nodes.eraseIdx y } (movedUp y)

section Leaving

variable {pool pool' : ArwsUpstreamPool} {y : Nat} {place : Nat → Nat}

theorem leaves_drained {host : Bytes} {port drain : Int} (hy : nodeIndex pool.nodes host port = some y)
    (hdrain : drain ≠ 0) : Leaves pool y (setNodeDrainIn pool host port drain).1 id := by
  rw [setNodeDrainIn, hy]
  refine .stops fun n _ => ?_
  simp [ArwsBackendNode.available, hdrain]

/-- A probe that fails once too often. -/
theorem leaves_down {host : Bytes} {port : Int} {n : ArwsBackendNode} (now : Nat)
    (hy : nodeIndex pool.nodes host port = some y) (hn : pool.nodes[y]? = some n)
    (hfall : n.failCount + 1 ≥ pool.fallThreshold) :
    Leaves pool y (probeIn pool host port now false) id := by
  rw [probeIn, hy]
  refine .stops fun m hm => ?_
  obtain rfl := Option.some.inj (hn.symm.trans hm)
  simp [ArwsBackendNode.available, ArwsBackendNode.probed, hfall]

theorem leaves_removed {host : Bytes} {port : Int} (hy : nodeIndex pool.nodes host port = some y) :
    Leaves pool y (removeNodeIn pool host port).1 (movedUp y) := by
  rw [removeNodeIn, hy]
  exact .removed

theorem Leaves.algo (h : Leaves pool y pool' place) : pool'.algo = pool.algo := by
  cases h <;> rfl

theorem movedUp_range {n : Nat} (hy : y < n) :
    ((List.range n).filter (· != y)).map (movedUp y) = List.range (n - 1) := by
  obtain ⟨k, rfl⟩ := Nat.exists_eq_add_of_lt hy
  have hbefore : ((List.range y).filter (· != y)).map (movedUp y) = List.range y := by
    rw [List.filter_eq_self.2 fun i hi => by simpa using (List.mem_range.1 hi).ne]
    refine (List.map_congr_left fun i hi => ?_).trans (List.map_id _)
    exact if_neg (List.mem_range.1 hi).le.not_gt
  have hbehind : (((List.range k).map (y + 1 + ·)).filter (· != y)).map (movedUp y) =
      (List.range k).map (y + ·) := by
    rw [List.filter_eq_self.2, List.map_map]
    · refine List.map_congr_left fun i _ => ?_
      rw [Function.comp, movedUp, if_pos (by omega)]
      omega
    · intro i hi
      obtain ⟨j, -, rfl⟩ := List.mem_map.1 hi
      simp
      omega
  rw [show y + k + 1 = y + 1 + k by omega, List.range_add, List.range_succ, List.filter_append,
    List.filter_append, List.map_append, List.map_append, hbefore, hbehind,
    show y + 1 + k - 1 = y + k by omega, List.range_add]
  simp

/-- **The eligible nodes** are those that were eligible, without the one that left. -/
theorem Leaves.indices (h : Leaves pool y pool' place) (hy : y < pool.nodes.length)
    (useBackup : Int) : eligibleIndices pool'.nodes useBackup =
      ((eligibleIndices pool.nodes useBackup).filter (· != y)).map place := by
  cases h with
  | @stops update hgone =>
    rw [List.map_id, eligibleIndices, List.length_modify, eligibleIndices, List.filter_filter]
    refine List.filter_congr fun i _ => ?_
    rw [eligibleAt, List.getElem?_modify]
    by_cases hi : y = i
    · subst hi
      obtain ⟨n, hn⟩ : ∃ n, pool.nodes[y]? = some n := ⟨_, List.getElem?_eq_getElem hy⟩
      have hnot : (update n).eligible useBackup = false := by
        rw [Bool.eq_false_iff]
        intro hel
        exact Bool.false_ne_true ((hgone n hn).symm.trans (eligible_iff.1 hel).1)
      simp [hn, hnot]
    · simp only [hi, if_false, eligibleAt]
      cases pool.nodes[i]? <;> simp [Ne.symm hi]
  | removed =>
    have hmoved : ∀ i ∈ (List.range pool.nodes.length).filter (· != y),
        eligibleAt (pool.nodes.eraseIdx y) useBackup (movedUp y i) = eligibleAt pool.nodes useBackup i := by
      intro i hi
      have hne : i ≠ y := by simpa using (List.mem_filter.1 hi).2
      rw [eligibleAt, List.getElem?_eraseIdx, movedUp, eligibleAt]
      split_ifs with h1 h2 h2
      · omega
      · rw [Nat.sub_add_cancel (Nat.zero_lt_of_lt h1)]
      · rfl
      · omega
    rw [eligibleIndices, List.length_eraseIdx_of_lt hy, ← movedUp_range hy, List.filter_map]
    exact congrArg (List.map _) ((List.filter_congr hmoved).trans (List.filter_comm ..))

/-- The nodes that are served are the same without the one that left, as long as there is another. -/
theorem Leaves.served (h : Leaves pool y pool' place) (hy : y < pool.nodes.length) {x : Nat}
    (hx : x ∈ pool.served) (hne : x ≠ y) : pool'.served = (pool.served.filter (· != y)).map place := by
  have hindices := h.indices hy
  by_cases hnone : eligibleIndices pool.nodes 0 = []
  · have hserved : pool.served = eligibleIndices pool.nodes 1 := if_pos hnone
    rw [hserved, ← hindices 1]
    refine if_pos ?_
    rw [hindices 0, hnone]
    rfl
  · have hserved : pool.served = eligibleIndices pool.nodes 0 := if_neg hnone
    rw [hserved] at hx ⊢
    rw [← hindices 0]
    refine if_neg ?_
    rw [hindices 0, List.map_eq_nil_iff, List.filter_eq_nil_iff]
    exact fun hall => hall x hx (by simpa using hne)

theorem served_sorted (pool : ArwsUpstreamPool) : pool.served.Pairwise (· < ·) := by
  rw [ArwsUpstreamPool.served]
  split_ifs <;> exact List.pairwise_lt_range.filter _

theorem mem_served_lt {i : Nat} (h : i ∈ pool.served) : i < pool.nodes.length := by
  rw [ArwsUpstreamPool.served] at h
  split_ifs at h <;> exact (mem_members_iff.1 h).1

/-- The places of two nodes that stay are different. -/
theorem Leaves.place_inj (h : Leaves pool y pool' place) {i j : Nat} (hi : i ≠ y) (hj : j ≠ y) :
    place i = place j ↔ i = j := by
  refine ⟨fun he => ?_, congrArg place⟩
  cases h with
  | stops => exact he
  | removed =>
    rw [movedUp, movedUp] at he
    split_ifs at he <;> omega

end Leaving

/-! ## Who stays -/

theorem lt_iff_of_sorted {l : List Nat} (h : l.Pairwise (· < ·)) {i j x y : Nat} (hi : l[i]? = some x)
    (hj : l[j]? = some y) : x < y ↔ i < j := by
  obtain ⟨hi, rfl⟩ := List.getElem?_eq_some_iff.1 hi
  obtain ⟨hj, rfl⟩ := List.getElem?_eq_some_iff.1 hj
  rcases Nat.lt_trichotomy i j with hij | rfl | hij
  · exact iff_of_true (List.pairwise_iff_getElem.1 h _ _ _ _ hij) hij
  · simp
  · exact iff_of_false (List.pairwise_iff_getElem.1 h _ _ _ _ hij).not_gt hij.not_gt

/-- Without the entry at `j`, the entry at `i` is where it was, or one place before. -/
theorem getElem?_filter_ne {l : List Nat} (h : l.Pairwise (· < ·)) {i j k x y : Nat}
    (hi : l[i]? = some x) (hj : l[j]? = some y) (hne : i ≠ j) :
    (l.filter (· != y))[k]? = some x ↔ k = if i < j then i else i - 1 := by
  obtain ⟨hlt, rfl⟩ := List.getElem?_eq_some_iff.1 hi
  obtain ⟨hlt', rfl⟩ := List.getElem?_eq_some_iff.1 hj
  have hnodup : l.Nodup := h.imp fun hlt => hlt.ne
  have hat : ∀ m, l[m]? = some l[i] ↔ m = i := by
    intro m
    rw [← List.getElem?_eq_getElem hlt, eq_comm, List.getElem?_inj hlt hnodup, eq_comm]
  rw [← hnodup.erase_eq_filter, List.erase_eq_eraseIdx_of_idxOf (hnodup.idxOf_getElem j hlt'),
    List.getElem?_eraseIdx]
  split_ifs <;> rw [hat] <;> omega

theorem add_mod_eq_iff {m a i : Nat} (hi : i < m) : (a + i) % m = i ↔ m ∣ a := by
  have hmod : (a + i) % m = i ↔ Nat.ModEq m (a + i) (0 + i) := by
    rw [Nat.ModEq, Nat.zero_add, Nat.mod_eq_of_lt hi]
  rw [hmod, ← Nat.modEq_zero_iff_dvd]
  exact ⟨fun h => Nat.ModEq.add_right_cancel' i h, fun h => h.add_right i⟩

/-- **The remainder modulo one less** stays, or goes down by one, when one less divides the quotient, or
the number behind it. -/
theorem mod_pred_iff {h n j : Nat} (hj : j < n) (hne : h % n ≠ j) :
    h % (n - 1) = (if h % n < j then h % n else h % n - 1) ↔
      n - 1 ∣ h / n + if h % n < j then 0 else 1 := by
  obtain ⟨m, rfl⟩ := Nat.exists_eq_succ_of_ne_zero (Nat.ne_zero_of_lt hj)
  rw [Nat.succ_eq_add_one] at hj hne ⊢
  rw [Nat.add_sub_cancel]
  have hlt : h % (m + 1) < m + 1 := Nat.mod_lt h (Nat.succ_pos m)
  have hmod : h % m = (h / (m + 1) + h % (m + 1)) % m := by
    have hsplit : h = h / (m + 1) + h % (m + 1) + m * (h / (m + 1)) := by
      have := Nat.div_add_mod h (m + 1)
      rw [Nat.succ_mul] at this
      omega
    conv_lhs => rw [hsplit]
    exact Nat.add_mul_mod_self_left ..
  split_ifs with hbefore
  · rw [hmod]
    exact add_mod_eq_iff (by omega)
  · obtain ⟨i, hi⟩ := Nat.exists_eq_succ_of_ne_zero (show h % (m + 1) ≠ 0 by omega)
    rw [hmod, hi, Nat.succ_eq_add_one, Nat.add_sub_cancel, Nat.add_comm i, ← Nat.add_assoc,
      add_mod_eq_iff (by omega)]

/-- **Who stays with his node** when another one leaves: the clients for whom the number of nodes that are
left divides the quotient of the hash, or the number behind it if the other stood before. -/
theorem stays_iff {pool pool' : ArwsUpstreamPool} {clientIp : Bytes} {x y : Nat} {place : Nat → Nat}
    (halgo : pool.algo = .ipHash) (hx : (selectFrom pool clientIp).map (·.2) = some (some x))
    (hy : y ∈ pool.served) (hne : y ≠ x) (hleaves : Leaves pool y pool' place) :
    (selectFrom pool' clientIp).map (·.2) = some (some (place x)) ↔
      pool.served.length - 1 ∣
        (hashIp clientIp).toNat / pool.served.length + if x < y then 0 else 1 := by
  rw [selectFrom_ipHash halgo, Option.some.injEq] at hx
  have hserved := hleaves.served (mem_served_lt hy) (List.mem_of_getElem? hx) hne.symm
  have hlen : (pool.served.filter (· != y)).length = pool.served.length - 1 := by
    have hnodup : pool.served.Nodup := (served_sorted pool).imp fun hlt => hlt.ne
    rw [← hnodup.erase_eq_filter, List.length_erase_of_mem hy]
  have hplace : ∀ o : Option Nat, (∀ e ∈ o, e ≠ y) → (o.map place = some (place x) ↔ o = some x) := by
    rintro (_ | e) ho
    · simp
    · rw [Option.map_some, Option.some.injEq, Option.some.injEq, hleaves.place_inj (ho e rfl) hne.symm]
  obtain ⟨j, hj⟩ := List.mem_iff_getElem?.1 hy
  obtain ⟨hlt, -⟩ := List.getElem?_eq_some_iff.1 hj
  have hij : (hashIp clientIp).toNat % pool.served.length ≠ j := by
    rintro rfl
    exact hne (Option.some.inj (hj.symm.trans hx))
  rw [selectFrom_ipHash (hleaves.algo.trans halgo), Option.some.injEq, hserved, List.getElem?_map,
    List.length_map, hplace, hlen, getElem?_filter_ne (served_sorted pool) hx hj hij,
    mod_pred_iff hlt hij]
  · simp only [lt_iff_of_sorted (served_sorted pool) hx hj]
  intro e he
  simpa using (List.mem_filter.1 (List.mem_of_getElem? he)).2

/-- Three nodes that clients are sent to by their address. -/
private def byAddress : ArwsUpstreamPool where
  name := [119]
  algo := .ipHash
  nodes := [addedNode [97] 80 1 0, addedNode [98] 80 1 0, addedNode [99] 80 1 0]
  rrIndex := 0
  fallThreshold := 3
  riseThreshold := 2
  active := true

/-- The hash of this client is six times a number, and one behind: it stays with the second node. -/
theorem stays_iff_second : (selectFrom { byAddress with nodes := byAddress.nodes.eraseIdx 2 }
    (ascii "10.0.0.7")).map (·.2) = some (some 1) := by
  have hx : (selectFrom byAddress (ascii "10.0.0.7")).map (·.2) = some (some 1) := by decide +kernel
  exact (stays_iff rfl hx (by decide +kernel) (by decide) .removed).2 (by decide +kernel)

/-- **A client of the first node is moved when the third one is removed.** -/
theorem not_stays : ¬ ∀ (pool pool' : ArwsUpstreamPool) (clientIp : Bytes) (x y : Nat)
    (place : Nat → Nat), pool.algo = .ipHash → (selectFrom pool clientIp).map (·.2) = some (some x) →
    y ∈ pool.served → y ≠ x → Leaves pool y pool' place →
    (selectFrom pool' clientIp).map (·.2) = some (some (place x)) := by
  intro h
  have hx : (selectFrom byAddress (ascii "10.0.0.3")).map (·.2) = some (some 0) := by decide +kernel
  have hmoved : (selectFrom { byAddress with nodes := byAddress.nodes.eraseIdx 2 }
      (ascii "10.0.0.3")).map (·.2) = some (some 1) := by decide +kernel
  have hstays := h byAddress _ _ 0 2 _ rfl hx (by decide +kernel) (by decide) .removed
  rw [hmoved] at hstays
  exact absurd hstays (by decide)

end Upstream
end Arws

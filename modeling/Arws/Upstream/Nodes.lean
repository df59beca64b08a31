import Arws.Upstream.Pool

/-!
# The nodes of a pool

The functions of `arws_upstream.c` that make pools and change their nodes.  The array `g_pools` has
`ARWS_MAX_POOLS` entries and a pool at most `ARWS_MAX_NODES_PER_POOL` nodes; a node is looked for by
its host and port, the host in full as it is asked for, where the node keeps 127 bytes of it.

* `addNodeIn_cases`, `removeNodeIn_cases` — what they do to a pool.
* `selectFrom_stands` — a selection changes only counters and weights.
-/

set_option autoImplicit false

namespace Arws
namespace Upstream

open CString

/-- An entry of `g_pools` that was not used. -/
def ArwsUpstreamPool.unused : ArwsUpstreamPool :=
  { name := [], algo := .roundRobin, nodes := [], rrIndex := 0, fallThreshold := 0,
    riseThreshold := 0, active := false }

/-- `g_pools` behind `arws_upstream_init`. -/
def arwsUpstreamInit : List ArwsUpstreamPool := List.replicate 64 .unused

/-- `arws_upstream_create_pool`. -/
def arwsUpstreamCreatePool (pools : List ArwsUpstreamPool) (name : Bytes) (algo : ArwsLbAlgo) :
    List ArwsUpstreamPool × Int :=
  if name = [] then (pools, -1)
  else match pools.findIdx? fun p => p.active && p.name == name with
    | some p => (pools.modify p fun pool => { pool with algo := algo }, 0)
    | none => match pools.findIdx? fun p => !p.active with
      | some p => (pools.modify p fun pool =>
          { pool with name := name.take 63, algo := algo, nodes := [], rrIndex := 0,
                      fallThreshold := 3, riseThreshold := 2, active := true }, 0)
      | none => (pools, -1)

/-- The thresholds that `arws_upstream_set_health_params` sets. -/
def arwsUpstreamSetHealthParams (pools : List ArwsUpstreamPool) (poolName : Bytes)
    (fallThresh riseThresh : Int) : List ArwsUpstreamPool × Int :=
  match arwsUpstreamGetPool pools poolName with
  | none => (pools, -1)
  | some p => (pools.modify p fun pool =>
      { pool with
        fallThreshold := if fallThresh > 0 then fallThresh else pool.fallThreshold
        riseThreshold := if riseThresh > 0 then riseThresh else pool.riseThreshold }, 0)

/-- The first node that has the host and the port. -/
def nodeIndex (nodes : List ArwsBackendNode) (host : Bytes) (port : Int) : Option Nat :=
  nodes.findIdx? fun n => n.host == host && n.port == port

/-- `arws_upstream_add_node` on its pool. -/
def addNodeIn (pool : ArwsUpstreamPool) (host : Bytes) (port weight isBackup : Int) :
    ArwsUpstreamPool × Int :=
  let weight := if weight ≤ 0 then 1 else if weight > 100 then 100 else weight
  match nodeIndex pool.nodes host port with
  | some i => ({ pool with nodes := pool.nodes.modify i fun n =>
      { n with weight := weight, effectiveWeight := weight, isBackup := isBackup } }, 0)
  | none =>
    if pool.nodes.length ≥ 32 then (pool, -1)
    else ({ pool with nodes := pool.nodes ++ [addedNode host port weight isBackup] }, 0)

/-- `arws_upstream_remove_node` on its pool. -/
def removeNodeIn (pool : ArwsUpstreamPool) (host : Bytes) (port : Int) : ArwsUpstreamPool × Int :=
  match nodeIndex pool.nodes host port with
  | some i => ({ pool with nodes := pool.nodes.eraseIdx i }, 0)
  | none => (pool, -1)

/-- `arws_upstream_set_node_drain` on its pool. -/
def setNodeDrainIn (pool : ArwsUpstreamPool) (host : Bytes) (port drain : Int) :
    ArwsUpstreamPool × Int :=
  match nodeIndex pool.nodes host port with
  | some i => ({ pool with nodes := pool.nodes.modify i fun n =>
      { n with isDraining := drain != 0 } }, 0)
  | none => (pool, -1)

/-- The update of `health_check_worker` on its pool, behind a probe of the host and the port. -/
def probeIn (pool : ArwsUpstreamPool) (host : Bytes) (port : Int) (now : Nat) (alive : Bool) :
    ArwsUpstreamPool :=
  match nodeIndex pool.nodes host port with
  | some i =>
    let update := (·.probed pool.fallThreshold pool.riseThreshold now alive)
    { pool with nodes := pool.nodes.modify i update }
  | none => pool

/-- What `arws_upstream_release` does to the pool of its node, with the thresholds of the pool that
was named. -/
def releaseIn (named : ArwsUpstreamPool) (i : Nat) (statusCode : Int) (pool : ArwsUpstreamPool) :
    ArwsUpstreamPool :=
  let update := (·.release named.fallThreshold named.riseThreshold statusCode)
  { pool with nodes := pool.nodes.modify i update }

section Pools

variable (pools : List ArwsUpstreamPool) (poolName host : Bytes) (port : Int)

/-- A function on the pool with the name, and what it returns without one. -/
def withPool (f : ArwsUpstreamPool → ArwsUpstreamPool × Int) : List ArwsUpstreamPool × Int :=
  match arwsUpstreamGetPool pools poolName with
  | none => (pools, -1)
  | some p => match pools[p]? with
    | none => (pools, -1)
    | some pool => (pools.set p (f pool).1, (f pool).2)

/-- `arws_upstream_add_node`, which makes the pool if there is none. -/
def arwsUpstreamAddNode (weight isBackup : Int) : List ArwsUpstreamPool × Int :=
  if port ≤ 0 then (pools, -1)
  else match arwsUpstreamGetPool pools poolName with
    | some _ => withPool pools poolName fun pool => addNodeIn pool host port weight isBackup
    | none =>
      let (pools', created) := arwsUpstreamCreatePool pools poolName .weightedRoundRobin
      if created ≠ 0 then (pools', -1)
      else withPool pools' poolName fun pool => addNodeIn pool host port weight isBackup

/-- `arws_upstream_remove_node`. -/
def arwsUpstreamRemoveNode : List ArwsUpstreamPool × Int :=
  withPool pools poolName fun pool => removeNodeIn pool host port

/-- `arws_upstream_set_node_drain`. -/
def arwsUpstreamSetNodeDrain (drain : Int) : List ArwsUpstreamPool × Int :=
  withPool pools poolName fun pool => setNodeDrainIn pool host port drain

/-- The update of `health_check_worker`. -/
def healthCheckUpdate (now : Nat) (alive : Bool) : List ArwsUpstreamPool :=
  (withPool pools poolName fun pool => (probeIn pool host port now alive, 0)).1

/-- `arws_upstream_release` of the node that the pool with an index has at an index. -/
def arwsUpstreamRelease (node : Option (Nat × Nat)) (statusCode : Int) : List ArwsUpstreamPool :=
  match node, (arwsUpstreamGetPool pools poolName).bind (pools[·]?) with
  | some (p, i), some named => pools.modify p (releaseIn named i statusCode)
  | _, _ => pools

end Pools

/-! ## What the functions do to a pool -/

section Cases

variable {pool : ArwsUpstreamPool} {host : Bytes} {port weight isBackup : Int}

theorem nodeIndex_eq_none_iff {nodes : List ArwsBackendNode} :
    nodeIndex nodes host port = none ↔ ∀ n ∈ nodes, ¬ (n.host = host ∧ n.port = port) := by
  simp [nodeIndex, List.findIdx?_eq_none_iff]

/-- **What `arws_upstream_add_node` does**: it sets the weight and the flag of the node that is there,
or it appends one, or it does nothing as the pool is full. -/
theorem addNodeIn_cases (pool : ArwsUpstreamPool) (host : Bytes) (port weight isBackup : Int) :
    (∃ i w, nodeIndex pool.nodes host port = some i ∧
        (addNodeIn pool host port weight isBackup).1 =
          { pool with nodes := pool.nodes.modify i fun n =>
              { n with weight := w, effectiveWeight := w, isBackup := isBackup } }) ∨
      (nodeIndex pool.nodes host port = none ∧
        ((pool.nodes.length < 32 ∧ ∃ w, (addNodeIn pool host port weight isBackup).1 =
            { pool with nodes := pool.nodes ++ [addedNode host port w isBackup] }) ∨
          (addNodeIn pool host port weight isBackup).1 = pool)) := by
  rw [addNodeIn]
  cases hfind : nodeIndex pool.nodes host port with
  | some i => exact Or.inl ⟨i, _, rfl, rfl⟩
  | none =>
    refine Or.inr ⟨rfl, ?_⟩
    simp only
    split
    · exact Or.inr rfl
    · rename_i hfull
      exact Or.inl ⟨Nat.lt_of_not_ge hfull, _, rfl⟩

theorem removeNodeIn_cases (pool : ArwsUpstreamPool) (host : Bytes) (port : Int) :
    (∃ i, nodeIndex pool.nodes host port = some i ∧
        (removeNodeIn pool host port).1 = { pool with nodes := pool.nodes.eraseIdx i }) ∨
      nodeIndex pool.nodes host port = none ∧ (removeNodeIn pool host port).1 = pool := by
  rw [removeNodeIn]
  cases hfind : nodeIndex pool.nodes host port with
  | some i => exact Or.inl ⟨i, rfl, rfl⟩
  | none => exact Or.inr ⟨rfl, rfl⟩

/-- A release takes back one connection, and leaves the node what and where it is. -/
theorem release_spec (n : ArwsBackendNode) (fallThreshold riseThreshold statusCode : Int) :
    (n.release fallThreshold riseThreshold statusCode).host = n.host ∧
      (n.release fallThreshold riseThreshold statusCode).port = n.port ∧
      (n.release fallThreshold riseThreshold statusCode).isBackup = n.isBackup ∧
      (n.release fallThreshold riseThreshold statusCode).activeConns =
        if n.activeConns > 0 then n.activeConns - 1 else n.activeConns := by
  simp only [ArwsBackendNode.release]
  by_cases hcode : failureCode statusCode = true
  · rw [if_pos hcode]
    exact ⟨rfl, rfl, rfl, rfl⟩
  · rw [if_neg hcode]
    by_cases hrise : n.passCount + 1 ≥ riseThreshold
    · rw [if_pos hrise]
      exact ⟨rfl, rfl, rfl, rfl⟩
    · rw [if_neg hrise]
      exact ⟨rfl, rfl, rfl, rfl⟩

theorem probed_host (n : ArwsBackendNode) (fallThreshold riseThreshold : Int) (now : Nat)
    (alive : Bool) : (n.probed fallThreshold riseThreshold now alive).host = n.host := by
  rw [ArwsBackendNode.probed]
  split
  · split <;> rfl
  · rfl

theorem probed_isBackup (n : ArwsBackendNode) (fallThreshold riseThreshold : Int) (now : Nat)
    (alive : Bool) : (n.probed fallThreshold riseThreshold now alive).isBackup = n.isBackup := by
  rw [ArwsBackendNode.probed]
  split
  · split <;> rfl
  · rfl

end Cases

/-! ## What a selection leaves as it is -/

/-- What a selection does not change: where the node is, and what it is asked for. -/
def ArwsBackendNode.standing (n : ArwsBackendNode) : (Bytes × Int) × Int × Bool × Bool :=
  ((n.host, n.port), n.isBackup, n.isAlive, n.isDraining)

theorem standing_taken (n : ArwsBackendNode) : n.taken.standing = n.standing := rfl

theorem map_modify_eq {α β : Type*} {f : α → β} {g : α → α} (h : ∀ a, f (g a) = f a) (l : List α)
    (i : Nat) : (l.modify i g).map f = l.map f := by
  refine List.ext_getElem? fun j => ?_
  rw [List.getElem?_map, List.getElem?_map, List.getElem?_modify]
  cases l[j]? with
  | none => rfl
  | some a =>
    simp only [Option.map_eq_map, Option.map_some]
    split
    · rw [h]
    · rfl

theorem forall_mem_modify {α : Type*} {P : α → Prop} {f : α → α} (hf : ∀ a, P a → P (f a)) {l : List α}
    (h : ∀ a ∈ l, P a) (i : Nat) : ∀ a ∈ l.modify i f, P a := by
  intro a ha
  obtain ⟨j, hj⟩ := List.mem_iff_getElem?.1 ha
  rw [List.getElem?_modify, Option.map_eq_map, Option.map_eq_some_iff] at hj
  obtain ⟨b, hb, rfl⟩ := hj
  have hPb := h b (List.mem_of_getElem? hb)
  split
  · exact hf b hPb
  · exact hPb

/-- The nodes stand as before, and the counter has not gone back. -/
structure Stands (pool pool' : ArwsUpstreamPool) : Prop where
  nodes : pool'.nodes.map (·.standing) = pool.nodes.map (·.standing)
  rrIndex : pool.rrIndex ≤ pool'.rrIndex

theorem Stands.refl (pool : ArwsUpstreamPool) : Stands pool pool := ⟨rfl, Int.le_refl _⟩

theorem Stands.trans {p q r : ArwsUpstreamPool} (h : Stands p q) (h' : Stands q r) : Stands p r :=
  ⟨h'.nodes.trans h.nodes, Int.le_trans h.rrIndex h'.rrIndex⟩

theorem selectWrrLocked_stands (pool : ArwsUpstreamPool) (useBackup : Int) :
    Stands pool (selectWrrLocked pool useBackup).1 := by
  simp only [selectWrrLocked]
  split
  · exact .refl pool
  · refine ⟨?_, Int.le_refl _⟩
    refine (map_modify_eq ?_ _ _).trans ?_
    · exact fun n => rfl
    rw [List.map_map]
    refine List.map_congr_left fun n _ => ?_
    simp only [Function.comp]
    split
    · rfl
    · rfl

theorem selectLeastConnLocked_stands (pool : ArwsUpstreamPool) (useBackup : Int) :
    Stands pool (selectLeastConnLocked pool useBackup).1 := by
  simp only [selectLeastConnLocked]
  split
  · exact .refl pool
  · exact ⟨map_modify_eq standing_taken _ _, Int.le_refl _⟩

theorem selectIpHashLocked_stands (pool : ArwsUpstreamPool) (clientIp : Bytes) (useBackup : Int) :
    Stands pool (selectIpHashLocked pool clientIp useBackup).1 := by
  simp only [selectIpHashLocked]
  split
  · exact .refl pool
  · exact ⟨map_modify_eq standing_taken _ _, Int.le_refl _⟩

theorem rrLoop_le {nodes : List ArwsBackendNode} {useBackup : Int} {attempts : Nat}
    {rrIndex r : Int} {found : Option Nat}
    (h : rrLoop nodes useBackup attempts rrIndex = some (r, found)) : rrIndex ≤ r := by
  induction attempts generalizing rrIndex with
  | zero =>
    cases h
    exact Int.le_refl _
  | succ attempts ih =>
    simp only [rrLoop] at h
    split_ifs at h
    · cases h
      omega
    · have := ih h
      omega

theorem selectRrLocked_stands {pool pool' : ArwsUpstreamPool} {useBackup : Int}
    {selected : Option Nat} (h : selectRrLocked pool useBackup = some (pool', selected)) :
    Stands pool pool' := by
  obtain ⟨⟨r, found⟩, hloop, heq⟩ := Option.map_eq_some_iff.1 h
  have hle := rrLoop_le hloop
  cases found with
  | none =>
    cases heq
    exact ⟨rfl, hle⟩
  | some i =>
    cases heq
    exact ⟨map_modify_eq standing_taken _ _, hle⟩

theorem selectLocked_stands {pool pool' : ArwsUpstreamPool} {clientIp : Bytes} {useBackup : Int}
    {selected : Option Nat} (h : selectLocked pool clientIp useBackup = some (pool', selected)) :
    Stands pool pool' := by
  rw [selectLocked] at h
  split at h
  · exact selectRrLocked_stands h
  · have := selectLeastConnLocked_stands pool useBackup
    rwa [Option.some.inj h] at this
  · have := selectIpHashLocked_stands pool clientIp useBackup
    rwa [Option.some.inj h] at this
  · have := selectWrrLocked_stands pool useBackup
    rwa [Option.some.inj h] at this

/-- **A selection changes only counters and weights.** -/
theorem selectFrom_stands {pool pool' : ArwsUpstreamPool} {clientIp : Bytes} {selected : Option Nat}
    (h : selectFrom pool clientIp = some (pool', selected)) : Stands pool pool' := by
  rw [selectFrom] at h
  split at h
  · cases h
    exact .refl pool
  · obtain ⟨⟨p, first⟩, hfirst, h⟩ := Option.bind_eq_some_iff.1 h
    have hstands := selectLocked_stands hfirst
    cases first with
    | some i =>
      cases h
      exact hstands
    | none => exact hstands.trans (selectLocked_stands h)

end Upstream
end Arws

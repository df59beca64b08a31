import Mathlib.Algebra.Group.Nat.Defs
import Mathlib.Algebra.Ring.Int.Defs
import Arws.Library.CString

/-!
# Upstream pools

`arws_upstream.c`: pools of backend nodes, the four ways of selecting one, and what is noted of a
node when it is handed back.  A pool is identified by its index in `g_pools` and a node by its index
in the pool, where the code hands out pointers.

A counter that runs beyond its `int` is undefined in C, and the model goes on with the number that
was meant.  `rr_index` counts on as well, but it is read as the `int` it wraps to: a node outside of
the pool may be looked at then, and `selectRrLocked` has no result.

* `selectFrom_cases` — a node is selected if and only if there is one to select, and then it counts
  one more connection.
-/

set_option autoImplicit false

namespace Arws
namespace Upstream

open CString

inductive ArwsLbAlgo
  | roundRobin
  | weightedRoundRobin
  | leastConn
  | ipHash
  deriving DecidableEq

structure ArwsBackendNode where
  host : Bytes
  port : Int
  weight : Int
  effectiveWeight : Int
  currentWeight : Int
  activeConns : Int
  isAlive : Bool
  isBackup : Int
  isDraining : Bool
  failCount : Int
  passCount : Int
  lastCheckMs : Nat
  totalRequests : Nat
  totalErrors : Nat
  deriving DecidableEq

structure ArwsUpstreamPool where
  name : Bytes
  algo : ArwsLbAlgo
  nodes : List ArwsBackendNode
  /-- How far `rr_index` has counted. -/
  rrIndex : Int
  fallThreshold : Int
  riseThreshold : Int
  active : Bool
  deriving DecidableEq

/-- The index of the pool in `g_pools` that `arws_upstream_get_pool` points to. -/
def arwsUpstreamGetPool (pools : List ArwsUpstreamPool) (poolName : Bytes) : Option Nat :=
  if poolName = [] then none
  else pools.findIdx? fun p => p.active && p.name == poolName

/-- The node that `arws_upstream_add_node` appends. -/
def addedNode (host : Bytes) (port weight isBackup : Int) : ArwsBackendNode :=
  let weight := if weight ≤ 0 then 1 else if weight > 100 then 100 else weight
  { host := host.take 127, port := port, weight := weight, effectiveWeight := weight,
    currentWeight := 0, activeConns := 0, isAlive := true, isBackup := isBackup,
    isDraining := false, failCount := 0, passCount := 0, lastCheckMs := 0, totalRequests := 0,
    totalErrors := 0 }

/-! ## Selection -/

/-- What every loop over the nodes asks of a node. -/
def ArwsBackendNode.eligible (useBackup : Int) (n : ArwsBackendNode) : Bool :=
  n.isAlive && !n.isDraining && n.isBackup == useBackup

/-- `active_conns` and `total_requests` count the request. -/
def ArwsBackendNode.taken (n : ArwsBackendNode) : ArwsBackendNode :=
  { n with activeConns := n.activeConns + 1, totalRequests := n.totalRequests + 1 }

/-- The node that a loop keeps in `best`: the first eligible one that no later one is better than. -/
def scanBest (better : ArwsBackendNode → ArwsBackendNode → Bool) :
    Option (ArwsBackendNode × Nat) → List (ArwsBackendNode × Nat) → Option (ArwsBackendNode × Nat)
  | best, [] => best
  | none, n :: rest => scanBest better (some n) rest
  | some best, n :: rest => scanBest better (some (if better n.1 best.1 then n else best)) rest

/-- The eligible nodes with their indices. -/
def candidates (nodes : List ArwsBackendNode) (useBackup : Int) : List (ArwsBackendNode × Nat) :=
  nodes.zipIdx.filter fun n => n.1.eligible useBackup

/-- What the loop of `select_wrr_locked` does to an eligible node. -/
def ArwsBackendNode.charged (n : ArwsBackendNode) : ArwsBackendNode :=
  { n with
    currentWeight := n.currentWeight + n.effectiveWeight
    effectiveWeight :=
      if n.effectiveWeight < n.weight then n.effectiveWeight + 1 else n.effectiveWeight }

/-- `select_wrr_locked`. -/
def selectWrrLocked (pool : ArwsUpstreamPool) (useBackup : Int) : ArwsUpstreamPool × Option Nat :=
  let totalWeight := ((candidates pool.nodes useBackup).map (·.1.effectiveWeight)).sum
  let nodes := pool.nodes.map fun n => if n.eligible useBackup then n.charged else n
  match scanBest (fun n best => n.currentWeight > best.currentWeight) none
      (candidates nodes useBackup) with
  | none => (pool, none)
  | some (_, i) =>
    ({ pool with nodes := nodes.modify i fun n =>
        { n with currentWeight := n.currentWeight - totalWeight }.taken }, some i)

/-- `select_least_conn_locked`. -/
def selectLeastConnLocked (pool : ArwsUpstreamPool) (useBackup : Int) :
    ArwsUpstreamPool × Option Nat :=
  match scanBest (fun n best => n.activeConns < best.activeConns) none
      (candidates pool.nodes useBackup) with
  | none => (pool, none)
  | some (_, i) => ({ pool with nodes := pool.nodes.modify i (·.taken) }, some i)

def hashIp (ip : Bytes) : UInt32 :=
  ip.foldl (fun hash c => ((hash <<< 5) + hash) + promotedChar c) 5381

/-- `select_ip_hash_locked`. -/
def selectIpHashLocked (pool : ArwsUpstreamPool) (clientIp : Bytes) (useBackup : Int) :
    ArwsUpstreamPool × Option Nat :=
  let cands := candidates pool.nodes useBackup
  match cands[(hashIp clientIp).toNat % cands.length]? with
  | none => (pool, none)
  | some (_, i) => ({ pool with nodes := pool.nodes.modify i (·.taken) }, some i)

/-- The loop of `select_rr_locked`, with the attempts that are left: `rr_index` behind it and the
node found, or nothing when a node outside of the pool is looked at. -/
def rrLoop (nodes : List ArwsBackendNode) (useBackup : Int) :
    Nat → Int → Option (Int × Option Nat)
  | 0, rrIndex => some (rrIndex, none)
  | attempts + 1, rrIndex =>
    let idx := (toInt rrIndex).tmod nodes.length
    if idx < 0 then none
    else if nodes[idx.toNat]?.any (·.eligible useBackup) then some (rrIndex + 1, some idx.toNat)
    else rrLoop nodes useBackup attempts (rrIndex + 1)

/-- `select_rr_locked`. -/
def selectRrLocked (pool : ArwsUpstreamPool) (useBackup : Int) :
    Option (ArwsUpstreamPool × Option Nat) :=
  (rrLoop pool.nodes useBackup pool.nodes.length pool.rrIndex).map fun (rrIndex, found) =>
    match found with
    | none => ({ pool with rrIndex := rrIndex }, none)
    | some i => ({ pool with rrIndex := rrIndex, nodes := pool.nodes.modify i (·.taken) }, some i)

/-- The `switch` of `arws_upstream_select`. -/
def selectLocked (pool : ArwsUpstreamPool) (clientIp : Bytes) (useBackup : Int) :
    Option (ArwsUpstreamPool × Option Nat) :=
  match pool.algo with
  | .roundRobin => selectRrLocked pool useBackup
  | .leastConn => some (selectLeastConnLocked pool useBackup)
  | .ipHash => some (selectIpHashLocked pool clientIp useBackup)
  | .weightedRoundRobin => some (selectWrrLocked pool useBackup)

/-- `arws_upstream_select` on its pool: the primary nodes are tried first, then the backups. -/
def selectFrom (pool : ArwsUpstreamPool) (clientIp : Bytes) :
    Option (ArwsUpstreamPool × Option Nat) :=
  if pool.nodes = [] then some (pool, none)
  else (selectLocked pool clientIp 0).bind fun (pool, selected) =>
    match selected with
    | some i => some (pool, some i)
    | none => selectLocked pool clientIp 1

/-- `arws_upstream_select`: the pools behind it, and the pool and the node it points to. -/
def arwsUpstreamSelect (pools : List ArwsUpstreamPool) (poolName clientIp : Bytes) :
    Option (List ArwsUpstreamPool × Option (Nat × Nat)) :=
  match arwsUpstreamGetPool pools poolName with
  | none => some (pools, none)
  | some p =>
    match pools[p]? with
    | none => some (pools, none)
    | some pool => (selectFrom pool clientIp).map fun (pool, selected) =>
        (pools.set p pool, selected.map fun i => (p, i))

/-! ## What is selected -/

theorem mem_candidates_iff {nodes : List ArwsBackendNode} {useBackup : Int}
    {c : ArwsBackendNode × Nat} :
    c ∈ candidates nodes useBackup ↔ nodes[c.2]? = some c.1 ∧ c.1.eligible useBackup = true := by
  rw [candidates, List.mem_filter, List.mem_zipIdx_iff_getElem?]

theorem candidates_eq_nil_iff {nodes : List ArwsBackendNode} {useBackup : Int} :
    candidates nodes useBackup = [] ↔ ∀ n ∈ nodes, n.eligible useBackup = false := by
  rw [List.eq_nil_iff_forall_not_mem]
  constructor
  · intro h n hn
    obtain ⟨i, hi⟩ := List.mem_iff_getElem?.1 hn
    by_contra hel
    exact h (n, i) (mem_candidates_iff.2 ⟨hi, by simpa using hel⟩)
  · rintro h c hc
    obtain ⟨hget, hel⟩ := mem_candidates_iff.1 hc
    rw [h c.1 (List.mem_of_getElem? hget)] at hel
    cases hel

theorem scanBest_some (better : ArwsBackendNode → ArwsBackendNode → Bool)
    (best : ArwsBackendNode × Nat) (l : List (ArwsBackendNode × Nat)) :
    ∃ c, scanBest better (some best) l = some c ∧ (c = best ∨ c ∈ l) := by
  induction l generalizing best with
  | nil => exact ⟨best, rfl, Or.inl rfl⟩
  | cons n rest ih =>
    obtain ⟨c, hc, hmem⟩ := ih (if better n.1 best.1 then n else best)
    refine ⟨c, hc, ?_⟩
    rcases hmem with rfl | hmem
    · split
      · exact Or.inr List.mem_cons_self
      · exact Or.inl rfl
    · exact Or.inr (List.mem_cons_of_mem _ hmem)

/-- The loops over the candidates yield one of them, if there is one. -/
theorem scanBest_cases (better : ArwsBackendNode → ArwsBackendNode → Bool)
    (l : List (ArwsBackendNode × Nat)) :
    l = [] ∧ scanBest better none l = none ∨ ∃ c ∈ l, scanBest better none l = some c := by
  cases l with
  | nil => exact Or.inl ⟨rfl, rfl⟩
  | cons n rest =>
    obtain ⟨c, hc, hmem⟩ := scanBest_some better n rest
    refine Or.inr ⟨c, ?_, hc⟩
    rcases hmem with rfl | hmem
    · exact List.mem_cons_self
    · exact List.mem_cons_of_mem _ hmem

/-- `active_conns` of the nodes. -/
def ArwsUpstreamPool.conns (pool : ArwsUpstreamPool) : List Int := pool.nodes.map (·.activeConns)

/-- What a selection does among the primary nodes or the backups: it finds none, as none is eligible,
and changes at most the counter of the round robin; or it finds an eligible one, which then counts
one connection more. -/
def Selected (useBackup : Int) (pool pool' : ArwsUpstreamPool) : Option Nat → Prop
  | none => (∀ n ∈ pool.nodes, n.eligible useBackup = false) ∧
      ∃ rrIndex, pool' = { pool with rrIndex := rrIndex }
  | some i => (∃ n, pool.nodes[i]? = some n ∧ n.eligible useBackup = true) ∧
      pool'.conns = pool.conns.modify i (· + 1)

theorem conns_modify_taken (nodes : List ArwsBackendNode) (i : Nat) :
    (nodes.modify i (·.taken)).map (·.activeConns) =
      (nodes.map (·.activeConns)).modify i (· + 1) := by
  rw [List.modify_eq_take_drop, List.modify_eq_take_drop, List.map_append, List.map_take,
    ← List.map_drop]
  cases nodes.drop i <;> rfl

theorem charged_eligible (useBackup : Int) (n : ArwsBackendNode) :
    (if n.eligible useBackup then n.charged else n).eligible useBackup = n.eligible useBackup := by
  split <;> rfl

theorem selectWrrLocked_selected (pool : ArwsUpstreamPool) (useBackup : Int) :
    Selected useBackup pool (selectWrrLocked pool useBackup).1
      (selectWrrLocked pool useBackup).2 := by
  simp only [selectWrrLocked]
  generalize hnodes : (pool.nodes.map fun n => if n.eligible useBackup then n.charged else n) = nodes
  have hconns : nodes.map (·.activeConns) = pool.conns := by
    rw [← hnodes, List.map_map, ArwsUpstreamPool.conns]
    refine List.map_congr_left fun n _ => ?_
    simp only [Function.comp]
    split <;> rfl
  obtain ⟨hnil, he⟩ | ⟨⟨n, i⟩, hmem, he⟩ := scanBest_cases
    (fun n best => n.currentWeight > best.currentWeight) (candidates nodes useBackup)
  · rw [he]
    refine ⟨fun n hn => ?_, pool.rrIndex, rfl⟩
    rw [← charged_eligible useBackup n]
    exact candidates_eq_nil_iff.1 hnil _ (hnodes ▸ List.mem_map_of_mem hn)
  · rw [he]
    obtain ⟨hget, hel⟩ := mem_candidates_iff.1 hmem
    rw [← hnodes, List.getElem?_map, Option.map_eq_some_iff] at hget
    obtain ⟨m, hm, hmn⟩ := hget
    refine ⟨⟨m, hm, ?_⟩, ?_⟩
    · rw [← charged_eligible, hmn]
      exact hel
    · rw [← hconns, ArwsUpstreamPool.conns, ← conns_modify_taken]
      simp only [List.modify_eq_take_drop, List.map_append, List.map_take]
      cases nodes.drop i <;> rfl

theorem selectLeastConnLocked_selected (pool : ArwsUpstreamPool) (useBackup : Int) :
    Selected useBackup pool (selectLeastConnLocked pool useBackup).1
      (selectLeastConnLocked pool useBackup).2 := by
  simp only [selectLeastConnLocked]
  obtain ⟨hnil, he⟩ | ⟨⟨n, i⟩, hmem, he⟩ := scanBest_cases
    (fun n best => n.activeConns < best.activeConns) (candidates pool.nodes useBackup)
  · rw [he]
    exact ⟨candidates_eq_nil_iff.1 hnil, pool.rrIndex, rfl⟩
  · rw [he]
    exact ⟨⟨n, mem_candidates_iff.1 hmem⟩, conns_modify_taken _ _⟩

theorem selectIpHashLocked_selected (pool : ArwsUpstreamPool) (clientIp : Bytes)
    (useBackup : Int) :
    Selected useBackup pool (selectIpHashLocked pool clientIp useBackup).1
      (selectIpHashLocked pool clientIp useBackup).2 := by
  simp only [selectIpHashLocked]
  cases hget : (candidates pool.nodes useBackup)[
      (hashIp clientIp).toNat % (candidates pool.nodes useBackup).length]? with
  | none =>
    refine ⟨candidates_eq_nil_iff.1 ?_, pool.rrIndex, rfl⟩
    have hlen := List.getElem?_eq_none_iff.1 hget
    by_contra hne
    exact absurd (Nat.mod_lt _ (List.length_pos_iff.2 hne)) (Nat.not_lt.2 hlen)
  | some c => exact ⟨⟨c.1, mem_candidates_iff.1 (List.mem_of_getElem? hget)⟩, conns_modify_taken _ _⟩

/-! ### The round robin -/

/-- A C remainder that is not negative is the residue, and what it is of is not negative either or
a multiple. -/
theorem tmod_nonneg_cases {a n : Int} (hn : 0 < n) (h : 0 ≤ a.tmod n) :
    (0 ≤ a ∨ n ∣ a) ∧ a.tmod n = a % n := by
  rw [Int.tmod_eq_emod] at h ⊢
  split_ifs at h ⊢ with hc
  · exact ⟨hc, Int.sub_zero _⟩
  · have := Int.emod_lt_of_pos a hn
    omega

/-- Where the remainders are all in range, the counter goes on by one, or it wraps and does not
change its residue. -/
theorem dvd_toInt_succ {a : Int} {n : Int} (hn : 2 ≤ n) (ha : 0 ≤ (toInt a).tmod n)
    (hsucc : 0 ≤ (toInt (a + 1)).tmod n) : n ∣ toInt (a + 1) - toInt a - 1 := by
  obtain ⟨hpos, -⟩ := tmod_nonneg_cases (by omega) ha
  obtain ⟨hpos', -⟩ := tmod_nonneg_cases (by omega) hsucc
  have hstep : toInt (a + 1) = toInt a + 1 ∨ toInt a = 2 ^ 31 - 1 ∧ toInt (a + 1) = -2 ^ 31 := by
    simp only [toInt]
    omega
  obtain hstep | ⟨hmax, hmin⟩ := hstep
  · rw [hstep]
    exact ⟨0, by omega⟩
  · obtain ⟨k, hk⟩ := hpos'.resolve_left (by omega)
    exact ⟨2 * k, by rw [hmin, hmax, Int.mul_left_comm, ← hk, hmin]; decide⟩

/-- As many remainders in a row as there are nodes, all in range, are the indices of all nodes. -/
theorem exists_tmod_eq {n : Nat} {a : Int} (h : ∀ j < n, 0 ≤ (toInt (a + j)).tmod n) {i : Nat}
    (hi : i < n) : ∃ j < n, (toInt (a + j)).tmod n = i := by
  by_cases hone : n = 1
  · subst hone
    exact ⟨0, Nat.one_pos, by rw [show i = 0 by omega]; exact Int.tmod_one _⟩
  have hpos : (0 : Int) < n := by omega
  -- the residues go on by one
  have hres : ∀ j, j < n → (n : Int) ∣ toInt (a + j) - (toInt a + j) := by
    intro j
    induction j with
    | zero => exact fun _ => ⟨0, by simp⟩
    | succ j ih =>
      intro hj
      have hstep := dvd_toInt_succ (a := a + j) (n := n) (by omega) (h j (by omega))
        (by have := h (j + 1) hj; rwa [Int.natCast_succ, ← Int.add_assoc] at this)
      obtain ⟨k, hk⟩ := ih (by omega)
      obtain ⟨l, hl⟩ := hstep
      rw [Int.natCast_succ, ← Int.add_assoc]
      exact ⟨k + l, by rw [Int.mul_add]; omega⟩
  have hnonneg := Int.emod_nonneg (i - toInt a) (b := n) (by omega)
  have hlt := Int.emod_lt_of_pos (i - toInt a) hpos
  have hj : ((i - toInt a) % n).toNat < n := by omega
  refine ⟨((i - toInt a) % n).toNat, hj, ?_⟩
  rw [(tmod_nonneg_cases hpos (h _ hj)).2]
  obtain ⟨k, hk⟩ := hres _ hj
  have hdiv := Int.emod_add_mul_ediv (i - toInt a) n
  have hv : toInt (a + ((i - toInt a) % n).toNat) = i + n * (k - (i - toInt a) / n) := by
    rw [Int.mul_sub]
    omega
  rw [hv, Int.add_mul_emod_self_left, Int.emod_eq_of_lt (by omega) (by omega)]

/-- A loop that found a node found an eligible one, and a loop that found none has looked at the node
of every attempt. -/
theorem rrLoop_cases {nodes : List ArwsBackendNode} {useBackup : Int} {attempts : Nat}
    {rrIndex r : Int} {found : Option Nat}
    (h : rrLoop nodes useBackup attempts rrIndex = some (r, found)) :
    (found = none ∧ ∀ j < attempts, 0 ≤ (toInt (rrIndex + j)).tmod nodes.length ∧
      nodes[((toInt (rrIndex + j)).tmod nodes.length).toNat]?.any (·.eligible useBackup) = false) ∨
      ∃ i n, found = some i ∧ nodes[i]? = some n ∧ n.eligible useBackup = true := by
  induction attempts generalizing rrIndex with
  | zero =>
    cases h
    exact Or.inl ⟨rfl, fun j hj => absurd hj (Nat.not_lt_zero j)⟩
  | succ attempts ih =>
    simp only [rrLoop] at h
    split_ifs at h with hneg hel
    · cases h
      obtain ⟨n, hn, hel⟩ := (Option.any_eq_true _ _).1 hel
      exact Or.inr ⟨_, n, rfl, hn, hel⟩
    · refine (ih h).imp_left fun ⟨hfound, hrest⟩ => ⟨hfound, fun j hj => ?_⟩
      cases j with
      | zero =>
        rw [Int.natCast_zero, Int.add_zero]
        exact ⟨Int.not_lt.1 hneg, by simpa using hel⟩
      | succ j =>
        have := hrest j (by omega)
        rwa [Int.add_assoc, Int.add_comm 1, ← Int.natCast_succ] at this

theorem selectRrLocked_selected {pool pool' : ArwsUpstreamPool} {useBackup : Int}
    {selected : Option Nat} (h : selectRrLocked pool useBackup = some (pool', selected)) :
    Selected useBackup pool pool' selected := by
  obtain ⟨⟨r, found⟩, hloop, heq⟩ := Option.map_eq_some_iff.1 h
  obtain ⟨rfl, hall⟩ | ⟨i, n, rfl, hget, hel⟩ := rrLoop_cases hloop
  · cases heq
    refine ⟨fun n hn => ?_, r, rfl⟩
    obtain ⟨i, hi⟩ := List.mem_iff_getElem?.1 hn
    obtain ⟨hlt, -⟩ := List.getElem?_eq_some_iff.1 hi
    obtain ⟨j, hj, hji⟩ := exists_tmod_eq (fun j hj => (hall j hj).1) hlt
    have hnone := (hall j hj).2
    rw [hji, Int.toNat_natCast, hi, Option.any_some] at hnone
    exact hnone
  · cases heq
    exact ⟨⟨n, hget, hel⟩, conns_modify_taken _ _⟩

/-! ### All of them -/

theorem selectLocked_selected {pool pool' : ArwsUpstreamPool} {clientIp : Bytes} {useBackup : Int}
    {selected : Option Nat} (h : selectLocked pool clientIp useBackup = some (pool', selected)) :
    Selected useBackup pool pool' selected := by
  rw [selectLocked] at h
  cases halgo : pool.algo with
  | roundRobin =>
    rw [halgo] at h
    exact selectRrLocked_selected h
  | leastConn =>
    rw [halgo] at h
    have := selectLeastConnLocked_selected pool useBackup
    rwa [Option.some.inj h] at this
  | ipHash =>
    rw [halgo] at h
    have := selectIpHashLocked_selected pool clientIp useBackup
    rwa [Option.some.inj h] at this
  | weightedRoundRobin =>
    rw [halgo] at h
    have := selectWrrLocked_selected pool useBackup
    rwa [Option.some.inj h] at this

/-- There is a node to select: it is up, it is not drained, and it is a primary one or a backup. -/
def ArwsUpstreamPool.Selectable (pool : ArwsUpstreamPool) : Prop :=
  ∃ n ∈ pool.nodes, n.eligible 0 = true ∨ n.eligible 1 = true

instance (pool : ArwsUpstreamPool) : Decidable pool.Selectable :=
  inferInstanceAs (Decidable (∃ n ∈ pool.nodes, n.eligible 0 = true ∨ n.eligible 1 = true))

/-- **What a selection does**: it finds no node, because there is none to select, and changes at most
the counter of the round robin; or it finds one, which then counts one connection more. -/
theorem selectFrom_cases {pool pool' : ArwsUpstreamPool} {clientIp : Bytes}
    {selected : Option Nat} (h : selectFrom pool clientIp = some (pool', selected)) :
    (selected = none ∧ ¬ pool.Selectable ∧ ∃ rrIndex, pool' = { pool with rrIndex := rrIndex }) ∨
      ∃ i, selected = some i ∧ pool.Selectable ∧ i < pool.nodes.length ∧
        pool'.conns = pool.conns.modify i (· + 1) := by
  rw [selectFrom] at h
  split at h
  · rename_i hnil
    cases h
    refine Or.inl ⟨rfl, ?_, pool.rrIndex, rfl⟩
    rintro ⟨n, hn, -⟩
    rw [hnil] at hn
    cases hn
  · obtain ⟨⟨p, first⟩, hfirst, h⟩ := Option.bind_eq_some_iff.1 h
    have hsel := selectLocked_selected hfirst
    cases first with
    | some i =>
      cases h
      obtain ⟨⟨n, hget, hel⟩, hconns⟩ := hsel
      exact Or.inr ⟨i, rfl, ⟨n, List.mem_of_getElem? hget, Or.inl hel⟩,
        (List.getElem?_eq_some_iff.1 hget).1, hconns⟩
    | none =>
      -- the backups are tried
      obtain ⟨hnone, r, rfl⟩ := hsel
      have hsel' := selectLocked_selected h
      cases selected with
      | some i =>
        obtain ⟨⟨n, hget, hel⟩, hconns⟩ := hsel'
        exact Or.inr ⟨i, rfl, ⟨n, List.mem_of_getElem? hget, Or.inr hel⟩,
          (List.getElem?_eq_some_iff.1 hget).1, hconns⟩
      | none =>
        obtain ⟨hnone', r', rfl⟩ := hsel'
        refine Or.inl ⟨rfl, ?_, r', rfl⟩
        rintro ⟨n, hn, hel | hel⟩
        · rw [hnone n hn] at hel
          cases hel
        · rw [hnone' n hn] at hel
          cases hel

/-! ## Feedback -/

/-- The status codes that `arws_upstream_release` takes for a failure. -/
def failureCode (statusCode : Int) : Bool := decide (statusCode ≥ 500 ∨ statusCode < 0)

/-- `arws_upstream_release` on its node. -/
def ArwsBackendNode.release (n : ArwsBackendNode) (fallThreshold riseThreshold statusCode : Int) :
    ArwsBackendNode :=
  let n := { n with activeConns := if n.activeConns > 0 then n.activeConns - 1 else n.activeConns }
  if failureCode statusCode then
    { n with
      totalErrors := n.totalErrors + 1
      failCount := n.failCount + 1
      effectiveWeight := if n.effectiveWeight > 1 then n.effectiveWeight / 2 else n.effectiveWeight
      isAlive := if n.failCount + 1 ≥ fallThreshold then false else n.isAlive }
  else if n.passCount + 1 ≥ riseThreshold then
    { n with failCount := 0, passCount := n.passCount + 1, isAlive := true,
             effectiveWeight := n.weight }
  else { n with failCount := 0, passCount := n.passCount + 1 }

/-- What `health_check_worker` does to the node it has probed. -/
def ArwsBackendNode.probed (n : ArwsBackendNode) (fallThreshold riseThreshold : Int) (now : Nat)
    (alive : Bool) : ArwsBackendNode :=
  let n := { n with lastCheckMs := now }
  if alive then
    if n.passCount + 1 ≥ riseThreshold ∧ n.isAlive = false then
      { n with passCount := n.passCount + 1, failCount := 0, isAlive := true,
               effectiveWeight := n.weight }
    else { n with passCount := n.passCount + 1, failCount := 0 }
  else
    { n with
      failCount := n.failCount + 1
      passCount := 0
      isAlive := if n.failCount + 1 ≥ fallThreshold ∧ n.isAlive = true then false else n.isAlive }

end Upstream
end Arws

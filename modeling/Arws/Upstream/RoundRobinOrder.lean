import Arws.Library.CyclicScan
import Arws.Upstream.Selection
import Mathlib.Data.Nat.ModEq

/-!
# The order of the round robin

`select_rr_locked` counts `rr_index` on over every node it looks at, and when no primary node is found
`arws_upstream_select` has it count over all nodes a second time.

* `selectFrom_roundRobin` — one selection returns the node with the number of those that `rr_index` has
  passed, and passes that one.
* `roundRobin_cyclic` — as long as the nodes to serve and the number of all nodes stay the same and the
  cursor is below `INT_MAX`, the selections return them one after the other, so a turn returns each of
  them once.
* `not_roundRobin_cyclic` — it is not so when another node is removed in between, for the cursor stays
  where it is.
-/

set_option autoImplicit false

namespace Arws
namespace Upstream

open CyclicScan Gateway.RoundRobin

/-! ## The nodes to serve -/

/-- The node at an index is eligible. -/
def eligibleAt (nodes : List ArwsBackendNode) (useBackup : Int) (i : Nat) : Bool :=
  nodes[i]?.any (·.eligible useBackup)

/-- The indices of the eligible nodes. -/
def eligibleIndices (nodes : List ArwsBackendNode) (useBackup : Int) : List Nat :=
  (List.range nodes.length).filter (eligibleAt nodes useBackup)

/-- The primary nodes that are eligible, or the backups if there are none. -/
def ArwsUpstreamPool.served (pool : ArwsUpstreamPool) : List Nat :=
  if eligibleIndices pool.nodes 0 = [] then eligibleIndices pool.nodes 1
  else eligibleIndices pool.nodes 0

/-- How many nodes to serve `rr_index` has passed. -/
def ArwsUpstreamPool.turn (pool : ArwsUpstreamPool) : Nat :=
  passed pool.nodes.length (fun i => decide (i ∈ pool.served)) pool.rrIndex.toNat

/-- What the order of the selections depends on. -/
def ArwsUpstreamPool.outlook (pool : ArwsUpstreamPool) : ArwsLbAlgo × Int × Nat × List Nat :=
  (pool.algo, pool.rrIndex, pool.nodes.length, pool.served)

/-! ## One selection -/

section One

variable {nodes : List ArwsBackendNode} {useBackup : Int}

theorem eligible_none_iff : eligibleIndices nodes useBackup = [] ↔
    ∀ n ∈ nodes, n.eligible useBackup = false := by
  rw [eligibleIndices, List.filter_eq_nil_iff]
  constructor
  · intro h n hn
    obtain ⟨i, hi, rfl⟩ := List.getElem_of_mem hn
    have hnot := h i (List.mem_range.2 hi)
    simpa [eligibleAt, hi] using hnot
  · intro h i hi
    rw [List.mem_range] at hi
    simp [eligibleAt, hi, h _ (List.getElem_mem hi)]

/-- **What the loop finds**: it stops at the next eligible node and passes it, or it passes none. -/
theorem rrLoop_spec (hne : nodes ≠ []) {attempts c : Nat}
    (hbelow : ∀ d ∈ usedCounters nodes useBackup attempts c, d < 2 ^ 31 - 1) :
    (rrLoop nodes useBackup attempts c = some (((c + attempts : Nat) : Int), none) ∧
      passed nodes.length (eligibleAt nodes useBackup) (c + attempts) =
        passed nodes.length (eligibleAt nodes useBackup) c) ∨
    ∃ i r : Nat, rrLoop nodes useBackup attempts c = some ((r : Int), some i) ∧
      (eligibleIndices nodes useBackup)[passed nodes.length (eligibleAt nodes useBackup) c %
        (eligibleIndices nodes useBackup).length]? = some i ∧
      passed nodes.length (eligibleAt nodes useBackup) r =
        passed nodes.length (eligibleAt nodes useBackup) c + 1 := by
  have hpos := List.length_pos_iff.2 hne
  induction attempts generalizing c with
  | zero => exact .inl ⟨rfl, rfl⟩
  | succ attempts ih =>
    rw [usedCounters, List.forall_mem_cons] at hbelow
    obtain ⟨hc, hrest⟩ := hbelow
    have hindex : (CString.toInt c).tmod nodes.length = (c % nodes.length : Nat) := by
      rw [CString.toInt_natCast (by omega), Int.natCast_mod,
        Int.tmod_eq_emod_of_nonneg (Int.natCast_nonneg c)]
    have hnonneg : ¬ ((c % nodes.length : Nat) : Int) < 0 := by omega
    rw [indexOf, hindex, if_neg hnonneg, Int.toNat_natCast, ← eligibleAt] at hrest
    rw [rrLoop]
    simp only [hindex, hnonneg, if_false, Int.toNat_natCast, ← eligibleAt.eq_1]
    by_cases hel : eligibleAt nodes useBackup (c % nodes.length) = true
    · rw [if_pos hel]
      exact .inr ⟨_, c + 1, rfl, getElem?_members hpos hel, passed_succ_of_mem hel⟩
    · rw [if_neg hel] at hrest ⊢
      rw [Bool.not_eq_true] at hel
      rw [← passed_succ_of_notMem hel, show c + (attempts + 1) = c + 1 + attempts by omega]
      exact ih hrest

theorem eligibleAt_taken (i : Nat) :
    eligibleAt (nodes.modify i (·.taken)) useBackup = eligibleAt nodes useBackup := by
  funext j
  rw [eligibleAt, eligibleAt, List.getElem?_modify]
  cases nodes[j]? with
  | none => rfl
  | some n => by_cases hij : i = j <;> simp [hij, ArwsBackendNode.eligible, ArwsBackendNode.taken]

variable {pool : ArwsUpstreamPool}

theorem eligibleIndices_taken (i : Nat) :
    eligibleIndices (nodes.modify i (·.taken)) useBackup = eligibleIndices nodes useBackup := by
  rw [eligibleIndices, eligibleAt_taken, List.length_modify, eligibleIndices]

/-- Counting a request changes nothing for the order. -/
theorem served_taken (i : Nat) (rrIndex : Int) :
    ArwsUpstreamPool.served { pool with rrIndex := rrIndex, nodes := pool.nodes.modify i (·.taken) } =
      pool.served := by
  simp only [ArwsUpstreamPool.served, eligibleIndices_taken]

/-- The turn is counted in the nodes of the class that is served. -/
theorem turn_eq (hne : pool.nodes ≠ []) (hserved : pool.served = eligibleIndices pool.nodes useBackup) :
    pool.turn = passed pool.nodes.length (eligibleAt pool.nodes useBackup) pool.rrIndex.toNat := by
  refine passed_congr (List.length_pos_iff.2 hne) (fun i hi => ?_) _
  rw [hserved, Bool.eq_iff_iff, decide_eq_true_iff, eligibleIndices, ← members, mem_members_iff,
    and_iff_right hi]

theorem turn_taken (hne : pool.nodes ≠ [])
    (hserved : pool.served = eligibleIndices pool.nodes useBackup) (i r : Nat) :
    ArwsUpstreamPool.turn { pool with rrIndex := (r : Int), nodes := pool.nodes.modify i (·.taken) } =
      passed pool.nodes.length (eligibleAt pool.nodes useBackup) r := by
  have hne' : pool.nodes.modify i (·.taken) ≠ [] := by
    rw [← List.length_pos_iff, List.length_modify]
    exact List.length_pos_iff.2 hne
  refine (turn_eq hne' ((served_taken i _).trans (hserved.trans (eligibleIndices_taken i).symm))).trans ?_
  rw [List.length_modify, eligibleAt_taken, Int.toNat_natCast]

/-- **Among the nodes of one class**: there is none and the counter has gone around once, or the next
one is found. -/
theorem selectLocked_roundRobin {c : Nat} (halgo : pool.algo = .roundRobin) (hrr : pool.rrIndex = c)
    (hne : pool.nodes ≠ []) (clientIp : Bytes)
    (hbelow : ∀ d ∈ usedCounters pool.nodes useBackup pool.nodes.length c, d < 2 ^ 31 - 1) :
    (eligibleIndices pool.nodes useBackup = [] ∧ selectLocked pool clientIp useBackup =
        some ({ pool with rrIndex := ((c + pool.nodes.length : Nat) : Int) }, none)) ∨
      ∃ i r : Nat, selectLocked pool clientIp useBackup = some ({ pool with
          rrIndex := (r : Int), nodes := pool.nodes.modify i (·.taken) }, some i) ∧
        (eligibleIndices pool.nodes useBackup)[
          passed pool.nodes.length (eligibleAt pool.nodes useBackup) c %
            (eligibleIndices pool.nodes useBackup).length]? = some i ∧
        passed pool.nodes.length (eligibleAt pool.nodes useBackup) r =
          passed pool.nodes.length (eligibleAt pool.nodes useBackup) c + 1 := by
  have hlocked : selectLocked pool clientIp useBackup = selectRrLocked pool useBackup := by
    rw [selectLocked, halgo]
  rw [hlocked, selectRrLocked, hrr]
  obtain ⟨hloop, hpassed⟩ | ⟨i, r, hloop, hget, hpassed⟩ := rrLoop_spec hne hbelow
  · refine .inl ⟨?_, by rw [hloop]; rfl⟩
    rw [passed_add_size, Nat.add_eq_left, List.length_eq_zero_iff] at hpassed
    exact hpassed
  · exact .inr ⟨i, r, by rw [hloop]; rfl, hget, hpassed⟩

/-- What is left behind a selection. -/
structure Follows (pool pool' : ArwsUpstreamPool) : Prop where
  name : pool'.name = pool.name
  active : pool'.active = pool.active
  algo : pool'.algo = pool.algo
  served : pool'.served = pool.served
  rrIndex : 0 ≤ pool'.rrIndex
  turn : pool.served = [] ∨ Nat.ModEq pool.served.length pool'.turn (pool.turn + 1)

/-- **One selection** returns the node whose turn it is, and it is the turn of the next one then. -/
theorem selectFrom_roundRobin (halgo : pool.algo = .roundRobin) (hrr : 0 ≤ pool.rrIndex)
    (hcursor : pool.CursorBelow) (clientIp : Bytes) :
    ∃ pool', selectFrom pool clientIp =
        some (pool', pool.served[pool.turn % pool.served.length]?) ∧ Follows pool pool' := by
  obtain ⟨c, hc⟩ := Int.eq_ofNat_of_zero_le hrr
  by_cases hne : pool.nodes = []
  · have hserved : pool.served = [] := by
      simp [ArwsUpstreamPool.served, eligibleIndices, hne]
    refine ⟨pool, ?_, rfl, rfl, rfl, rfl, hrr, .inl hserved⟩
    rw [selectFrom, if_pos hne, hserved]
    rfl
  rw [selectFrom, if_neg hne]
  have hfirst := selectLocked_roundRobin halgo hc hne clientIp (hc ▸ hcursor.primary)
  obtain ⟨hnone, hsel⟩ | ⟨i, r, hsel, hget, hpassed⟩ := hfirst
  · -- the primary nodes are passed over, and the counter is a turn further on
    have hserved : pool.served = eligibleIndices pool.nodes 1 := if_pos hnone
    rw [hsel, Option.bind_some]
    have hbackup := hcursor.backup (eligible_none_iff.1 hnone)
    rw [hc, ← Int.natCast_add] at hbackup
    obtain ⟨hnone', hsel'⟩ | ⟨i, r, hsel', hget, hpassed⟩ := @selectLocked_roundRobin 1
      { pool with rrIndex := ((c + pool.nodes.length : Nat) : Int) } _ halgo rfl hne clientIp hbackup
    · rw [hserved, hnone']
      exact ⟨_, hsel', rfl, rfl, rfl, rfl, Int.natCast_nonneg _, .inl (hserved.trans hnone')⟩
    · have hturn : passed pool.nodes.length (eligibleAt pool.nodes 1) (c + pool.nodes.length) =
          pool.turn + pool.served.length := by
        rw [passed_add_size, turn_eq hne hserved, hc, hserved]
        rfl
      rw [hturn] at hpassed
      rw [hturn, ← hserved, Nat.add_mod_right] at hget
      rw [hget]
      refine ⟨_, hsel', rfl, rfl, rfl, served_taken .., Int.natCast_nonneg _, .inr ?_⟩
      rw [turn_taken hne hserved, hpassed, Nat.ModEq, Nat.add_right_comm, Nat.add_mod_right]
  · have hserved : pool.served = eligibleIndices pool.nodes 0 := by
      refine if_neg fun hnil => ?_
      rw [hnil] at hget
      cases hget
    have hturn : passed pool.nodes.length (eligibleAt pool.nodes 0) c = pool.turn := by
      rw [turn_eq hne hserved, hc]
      rfl
    rw [hturn] at hpassed
    rw [hturn, ← hserved] at hget
    rw [hget, hsel]
    refine ⟨_, rfl, rfl, rfl, rfl, served_taken .., Int.natCast_nonneg _, .inr ?_⟩
    rw [turn_taken hne hserved, hpassed]

end One

/-! ## Selections in a row -/

/-- The pools, and the nodes that were returned so far. -/
structure RrState where
  pools : List ArwsUpstreamPool
  returned : List (Option Nat)

inductive RrAction
  | select (clientIp : Bytes)
  /-- Anything else that happens to the pools. -/
  | change (pools : List ArwsUpstreamPool)

/-- Selections from one pool, between which its nodes to serve, the number of its nodes and its cursor stay
as they are. -/
def rrMachine (start : List ArwsUpstreamPool) (poolName : Bytes) : Machine RrState RrAction where
  init s := s = ⟨start, []⟩
  step s
    | .select clientIp => (arwsUpstreamSelect s.pools poolName clientIp).map fun r =>
        ⟨r.1, s.returned ++ [r.2.map (·.2)]⟩
    | .change pools =>
      if (namedPool pools poolName).map (·.outlook) = (namedPool s.pools poolName).map (·.outlook) then
        some ⟨pools, s.returned⟩
      else none

/-- The cursor is below `INT_MAX` when a node is selected. -/
def SelectsBelow (poolName : Bytes) (s : RrState) : RrAction → Prop
  | .select _ => CursorBelow s.pools poolName
  | .change _ => True

theorem namedPool_set {pools : List ArwsUpstreamPool} {poolName : Bytes} {p : Nat}
    {pool pool' : ArwsUpstreamPool} (hp : arwsUpstreamGetPool pools poolName = some p)
    (hget : pools[p]? = some pool) (hname : pool'.name = pool.name) (hactive : pool'.active = pool.active) :
    namedPool (pools.set p pool') poolName = some pool' := by
  obtain ⟨hlt, rfl⟩ := List.getElem?_eq_some_iff.1 hget
  have hset : arwsUpstreamGetPool (pools.set p pool') poolName = some p := by
    rw [arwsUpstreamGetPool] at hp ⊢
    split_ifs at hp ⊢
    obtain ⟨_, hfound, hbefore⟩ := List.findIdx?_eq_some_iff_getElem.1 hp
    refine List.findIdx?_eq_some_iff_getElem.2 ⟨by rwa [List.length_set], ?_, fun j hj => ?_⟩
    · rw [List.getElem_set_self, hname, hactive]
      exact hfound
    · rw [List.getElem_set_ne (Nat.ne_of_gt hj)]
      exact hbefore j hj
  rw [namedPool, hset, Option.bind_some, List.getElem?_set_self hlt]

/-- The nodes were returned one after the other, from the turn `m` on, and it is the turn of the next. -/
def InTurn (poolName : Bytes) (served : List Nat) (m : Nat) (s : RrState) : Prop :=
  (∀ k < s.returned.length, s.returned[k]? = some served[(m + k) % served.length]?) ∧
    ∃ pool, namedPool s.pools poolName = some pool ∧ pool.algo = .roundRobin ∧ 0 ≤ pool.rrIndex ∧
      pool.served = served ∧
      (served = [] ∨ Nat.ModEq served.length pool.turn (m + s.returned.length))

/-- What a pool looks like decides its turn. -/
theorem turn_of_outlook {pool pool' : ArwsUpstreamPool} (h : pool'.outlook = pool.outlook) :
    pool'.turn = pool.turn := by
  obtain ⟨-, hrr, hlen, hserved⟩ : pool'.algo = pool.algo ∧ pool'.rrIndex = pool.rrIndex ∧
      pool'.nodes.length = pool.nodes.length ∧ pool'.served = pool.served := by
    simpa only [ArwsUpstreamPool.outlook, Prod.mk.injEq] using h
  rw [ArwsUpstreamPool.turn, hlen, hserved, hrr, ArwsUpstreamPool.turn]

theorem inTurn_step {start : List ArwsUpstreamPool} {poolName : Bytes} {served : List Nat} {m : Nat}
    {s t : RrState} {a : RrAction} (h : InTurn poolName served m s) (hc : SelectsBelow poolName s a)
    (hst : (rrMachine start poolName).step s a = some t) : InTurn poolName served m t := by
  obtain ⟨hreturned, pool, hpool, halgo, hrr, rfl, hturn⟩ := h
  cases a with
  | select clientIp =>
    obtain ⟨p, hp, hget, hselect⟩ := arwsUpstreamSelect_of_namedPool hpool clientIp
    obtain ⟨pool', hsel, hfollows⟩ := selectFrom_roundRobin halgo hrr (hc pool hpool halgo) clientIp
    simp only [rrMachine, hselect, hsel, Option.map_some, Option.some.injEq] at hst
    subst hst
    refine ⟨fun k hk => ?_, pool', namedPool_set hp hget hfollows.name hfollows.active,
      hfollows.algo.trans halgo, hfollows.rrIndex, hfollows.served, ?_⟩
    · rw [List.length_append, List.length_singleton, Nat.lt_succ_iff] at hk
      rcases hk.lt_or_eq with hk | rfl
      · rw [List.getElem?_append_left hk]
        exact hreturned k hk
      · rw [List.getElem?_append_right le_rfl, Nat.sub_self, List.getElem?_singleton, if_pos rfl]
        obtain hnil | hturn := hturn
        · simp [hnil]
        · rw [hturn]
          simp [Function.comp_def]
    · obtain hnil | hturn := hturn
      · exact .inl hnil
      · refine hfollows.turn.imp_right fun hnext => ?_
        rw [List.length_append, List.length_singleton, ← Nat.add_assoc]
        exact hnext.trans (hturn.add_right 1)
  | change pools =>
    simp only [rrMachine, Option.ite_none_right_eq_some, Option.some.injEq] at hst
    obtain ⟨houtlook, rfl⟩ := hst
    rw [hpool, Option.map_some, Option.map_eq_some_iff] at houtlook
    obtain ⟨pool', hpool', houtlook⟩ := houtlook
    have hsame := houtlook
    simp only [ArwsUpstreamPool.outlook, Prod.mk.injEq] at hsame
    obtain ⟨halgo', hrr', -, hserved'⟩ := hsame
    refine ⟨hreturned, pool', hpool', halgo'.trans halgo, hrr' ▸ hrr, hserved', ?_⟩
    rwa [turn_of_outlook houtlook]

theorem inTurn_of_reach {start : List ArwsUpstreamPool} {poolName : Bytes} {pool : ArwsUpstreamPool}
    (hpool : namedPool start poolName = some pool) (halgo : pool.algo = .roundRobin)
    (hrr : 0 ≤ pool.rrIndex) {s : RrState}
    (h : (rrMachine start poolName).ReachUnder (SelectsBelow poolName) s) :
    InTurn poolName pool.served pool.turn s := by
  refine h.invariant (fun s hs => ?_) fun s a t hI hc hst => inTurn_step hI hc hst
  rw [show s = ⟨start, []⟩ from hs]
  exact ⟨nofun, pool, hpool, halgo, hrr, rfl, .inr rfl⟩

/-- **The round robin is fair**: in every run in which the nodes to serve and the number of nodes stay the
same and the cursor is below `INT_MAX`, every selection returns the next of them, and as many selections in
a row as there are nodes to serve return each of them once. -/
theorem roundRobin_cyclic {start : List ArwsUpstreamPool} {poolName : Bytes} {pool : ArwsUpstreamPool}
    (hpool : namedPool start poolName = some pool) (halgo : pool.algo = .roundRobin)
    (hrr : 0 ≤ pool.rrIndex) {s : RrState}
    (h : (rrMachine start poolName).ReachUnder (SelectsBelow poolName) s) :
    (∀ clientIp, CursorBelow s.pools poolName →
      ∃ t, (rrMachine start poolName).step s (.select clientIp) = some t) ∧
    (∃ m, ∀ k < s.returned.length,
      s.returned[k]? = some pool.served[(m + k) % pool.served.length]?) ∧
    ∀ a, a + pool.served.length ≤ s.returned.length →
      ((s.returned.drop a).take pool.served.length).Perm (pool.served.map some) := by
  obtain ⟨hreturned, now, hnow, hnowAlgo, hnowRr, -, -⟩ := inTurn_of_reach hpool halgo hrr h
  refine ⟨fun clientIp hcursor => ?_, ⟨pool.turn, hreturned⟩, fun a ha => ?_⟩
  · obtain ⟨p, -, -, hselect⟩ := arwsUpstreamSelect_of_namedPool hnow clientIp
    obtain ⟨pool', hsel, -⟩ := selectFrom_roundRobin hnowAlgo hnowRr (hcursor now hnow hnowAlgo) clientIp
    rw [hsel, Option.map_some] at hselect
    exact ⟨_, congrArg (Option.map _) hselect⟩
  · have hlen : ((s.returned.drop a).take pool.served.length).length = pool.served.length := by
      rw [List.length_take, List.length_drop]
      omega
    refine perm_of_cyclic (pool.turn + a) hlen fun k hk => ?_
    rw [hlen] at hk
    rw [List.getElem?_take_of_lt hk, List.getElem?_drop, hreturned (a + k) (by omega), Nat.add_assoc]

/-- A primary node that is drained, and two backups. -/
private def drained (rrIndex : Int) (conns : List Int) : ArwsUpstreamPool where
  name := [119]
  algo := .roundRobin
  nodes := [{ addedNode [97] 80 1 0 with isDraining := true }, addedNode [98] 80 1 1,
    addedNode [99] 80 1 1].zipWith (fun n c => { n with activeConns := c, totalRequests := c.toNat }) conns
  rrIndex := rrIndex
  fallThreshold := 3
  riseThreshold := 2
  active := true

private theorem cursorBelow_drained {rrIndex : Int} {conns : List Int}
    (hprimary : ∀ c ∈ usedCounters (drained rrIndex conns).nodes 0 (drained rrIndex conns).nodes.length
      rrIndex, c < 2 ^ 31 - 1)
    (hbackup : ∀ c ∈ usedCounters (drained rrIndex conns).nodes 1 (drained rrIndex conns).nodes.length
      (rrIndex + (drained rrIndex conns).nodes.length), c < 2 ^ 31 - 1) :
    CursorBelow [drained rrIndex conns] [119] := by
  intro pool hpool _
  obtain rfl : drained rrIndex conns = pool := Option.some.inj hpool
  exact ⟨hprimary, fun _ => hbackup⟩

/-- Both backups are returned, although the primary pass fails each time. -/
theorem roundRobin_cyclic_drained : ∃ s : RrState, s.returned = [some 1, some 2] ∧
    ((s.returned.drop 0).take 2).Perm [some 1, some 2] := by
  have hstart : (rrMachine [drained 0 [0, 0, 0]] [119]).ReachUnder (SelectsBelow [119])
      ⟨[drained 0 [0, 0, 0]], []⟩ := .start rfl
  have hone : (rrMachine [drained 0 [0, 0, 0]] [119]).ReachUnder (SelectsBelow [119])
      ⟨[drained 5 [0, 1, 0]], [some 1]⟩ :=
    .next (a := .select []) hstart (cursorBelow_drained (by decide) (by decide)) rfl
  have htwo : (rrMachine [drained 0 [0, 0, 0]] [119]).ReachUnder (SelectsBelow [119])
      ⟨[drained 9 [0, 1, 1]], [some 1, some 2]⟩ :=
    .next (a := .select []) hone (cursorBelow_drained (by decide) (by decide)) rfl
  obtain ⟨-, -, hturn⟩ := @roundRobin_cyclic _ _ (drained 0 [0, 0, 0]) rfl rfl le_rfl _ htwo
  exact ⟨_, rfl, hturn 0 (by decide)⟩

/-! ## Another node is removed -/

/-- The algorithm, the cursor and the nodes to serve with their places. -/
structure Standing where
  algo : ArwsLbAlgo
  rrIndex : Int
  served : List (Nat × Option (Bytes × Int))
  deriving DecidableEq

def ArwsUpstreamPool.standing (pool : ArwsUpstreamPool) : Standing where
  algo := pool.algo
  rrIndex := pool.rrIndex
  served := pool.served.map fun i => (i, pool.nodes[i]?.map fun n => (n.host, n.port))

/-- Selections from one pool, between which its nodes to serve stay as they are; others may come and go. -/
def servedMachine (start : List ArwsUpstreamPool) (poolName : Bytes) : Machine RrState RrAction where
  init s := s = ⟨start, []⟩
  step s
    | .select clientIp => (arwsUpstreamSelect s.pools poolName clientIp).map fun r =>
        ⟨r.1, s.returned ++ [r.2.map (·.2)]⟩
    | .change pools =>
      if (namedPool pools poolName).map (·.standing) = (namedPool s.pools poolName).map (·.standing) then
        some ⟨pools, s.returned⟩
      else none

/-- Two primary nodes, and behind them the nodes `rest`. -/
private def twoAnd (rest : List ArwsBackendNode) (rrIndex : Int) (conns : List Int) : ArwsUpstreamPool where
  name := [119]
  algo := .roundRobin
  nodes := ([addedNode [97] 80 1 0, addedNode [98] 80 1 0] ++ rest).zipWith
    (fun n c => { n with activeConns := c, totalRequests := c.toNat }) conns
  rrIndex := rrIndex
  fallThreshold := 3
  riseThreshold := 2
  active := true

/-- The third node is drained. -/
private def thirdDrained : Int → List Int → ArwsUpstreamPool :=
  twoAnd [{ addedNode [99] 80 1 0 with isDraining := true }]

private theorem cursorBelow_of_primary {pool : ArwsUpstreamPool} (hname : pool.name = [119])
    (hactive : pool.active = true) (hlive : pool.nodes.any (·.eligible 0) = true)
    (h : ∀ c ∈ usedCounters pool.nodes 0 pool.nodes.length pool.rrIndex, c < 2 ^ 31 - 1) :
    CursorBelow [pool] [119] := by
  intro found hfound _
  have hpool : namedPool [pool] [119] = some pool := by
    simp [namedPool, arwsUpstreamGetPool, hname, hactive]
  obtain rfl : pool = found := Option.some.inj (hpool.symm.trans hfound)
  refine ⟨h, fun hnone => ?_⟩
  obtain ⟨n, hn, hel⟩ := List.any_eq_true.1 hlive
  rw [hnone n hn] at hel
  cases hel

/-- `arws_upstream_remove_node` takes the drained node out and leaves the cursor at `4`, -/
private theorem removeNode_thirdDrained :
    arwsUpstreamRemoveNode [thirdDrained 4 [2, 1, 0]] [119] [99] 80 = ([twoAnd [] 4 [2, 1]], 0) := rfl

/-- so that the first node is selected once more. -/
private theorem reach_removed : (servedMachine [thirdDrained 0 [0, 0, 0]] [119]).ReachUnder
    (SelectsBelow [119]) ⟨[twoAnd [] 5 [3, 1]], [some 0, some 1, some 0, some 0]⟩ := by
  have hstart : (servedMachine [thirdDrained 0 [0, 0, 0]] [119]).ReachUnder (SelectsBelow [119])
      ⟨[thirdDrained 0 [0, 0, 0]], []⟩ := .start rfl
  have hone : (servedMachine [thirdDrained 0 [0, 0, 0]] [119]).ReachUnder (SelectsBelow [119])
      ⟨[thirdDrained 1 [1, 0, 0]], [some 0]⟩ :=
    .next (a := .select []) hstart
      (@cursorBelow_of_primary (thirdDrained 0 [0, 0, 0]) rfl rfl (by decide) (by decide)) rfl
  have htwo : (servedMachine [thirdDrained 0 [0, 0, 0]] [119]).ReachUnder (SelectsBelow [119])
      ⟨[thirdDrained 2 [1, 1, 0]], [some 0, some 1]⟩ :=
    .next (a := .select []) hone
      (@cursorBelow_of_primary (thirdDrained 1 [1, 0, 0]) rfl rfl (by decide) (by decide)) rfl
  have hthree : (servedMachine [thirdDrained 0 [0, 0, 0]] [119]).ReachUnder (SelectsBelow [119])
      ⟨[thirdDrained 4 [2, 1, 0]], [some 0, some 1, some 0]⟩ :=
    .next (a := .select []) htwo
      (@cursorBelow_of_primary (thirdDrained 2 [1, 1, 0]) rfl rfl (by decide) (by decide)) rfl
  have hremoved : (servedMachine [thirdDrained 0 [0, 0, 0]] [119]).ReachUnder (SelectsBelow [119])
      ⟨(arwsUpstreamRemoveNode [thirdDrained 4 [2, 1, 0]] [119] [99] 80).1,
        [some 0, some 1, some 0]⟩ :=
    .next (a := .change (arwsUpstreamRemoveNode [thirdDrained 4 [2, 1, 0]] [119] [99] 80).1) hthree
      trivial rfl
  rw [removeNode_thirdDrained] at hremoved
  exact .next (a := .select []) hremoved
    (@cursorBelow_of_primary (twoAnd [] 4 [2, 1]) rfl rfl (by decide) (by decide)) rfl

/-- **When the drained node is removed**, the node that was selected last is selected again. -/
theorem not_roundRobin_cyclic : ¬ ∀ (start : List ArwsUpstreamPool) (poolName : Bytes)
    (pool : ArwsUpstreamPool), namedPool start poolName = some pool → pool.algo = .roundRobin →
    0 ≤ pool.rrIndex → ∀ s, (servedMachine start poolName).ReachUnder (SelectsBelow poolName) s →
      ∃ m, ∀ k < s.returned.length,
        s.returned[k]? = some pool.served[(m + k) % pool.served.length]? := by
  intro h
  obtain ⟨m, hm⟩ := h _ _ (thirdDrained 0 [0, 0, 0]) rfl rfl le_rfl _ reach_removed
  have hserved : (thirdDrained 0 [0, 0, 0]).served = [0, 1] := by decide
  have htwo := hm 2 (by decide)
  have hthree := hm 3 (by decide)
  rw [hserved] at htwo hthree
  -- the same node at two turns in a row, though two nodes take turns
  rcases Nat.mod_two_eq_zero_or_one m with hmod | hmod
  · have hodd : (m + 3) % 2 = 1 := by omega
    simp [hodd] at hthree
  · have hodd : (m + 2) % 2 = 1 := by omega
    simp [hodd] at htwo

end Upstream
end Arws

import Mathlib.Data.List.Nodup
import Mathlib.Data.List.Perm.Basic
import Arws.Library.Transition
import Arws.Upstream.Nodes

/-!
# Connections of a node

`arws_upstream_select` returns a pointer into the array of nodes and counts a connection; whoever has
the pointer hands it back to `arws_upstream_release`, which counts the connection off.  In between,
`arws_upstream_remove_node` moves the nodes behind the one it removes by one place each.

* `accounted_of_reach` — the connections are counted right, and the pointers point to what they were
  for, in every run that removes a node only when no pointer points to it or behind it.
* `accounted_removeNode_iff` — any other removal leaves a pointer to another node, or to none.
-/

set_option autoImplicit false

namespace Arws
namespace Upstream

open CString

/-- What a node is known by. -/
def ArwsBackendNode.key (n : ArwsBackendNode) : Bytes × Int := (n.host, n.port)

/-- A pointer that a selection has returned: the place it points to, and the node that was selected. -/
structure Held where
  index : Nat
  key : Bytes × Int
  deriving DecidableEq

/-- A pool, and the pointers to its nodes that were not handed back. -/
structure PoolUse where
  pool : ArwsUpstreamPool
  held : List Held
  deriving DecidableEq

inductive PoolCall
  | select (clientIp : Bytes)
  /-- The pointer at the place is handed back. -/
  | release (j : Nat) (statusCode : Int)
  | addNode (host : Bytes) (port weight isBackup : Int)
  | removeNode (host : Bytes) (port : Int)

/-- The pointer to the node at the index. -/
def heldOf (pool : ArwsUpstreamPool) (i : Nat) : Option Held := pool.nodes[i]?.map fun n => ⟨i, n.key⟩

/-- Any calls on one pool. -/
def poolUse : Machine PoolUse PoolCall where
  init s := s.pool.nodes = [] ∧ s.held = []
  step s
    | .select clientIp => (selectFrom s.pool clientIp).map fun (pool, selected) =>
        ⟨pool, (selected.bind (heldOf pool)).toList ++ s.held⟩
    | .release j statusCode => s.held[j]?.map fun h =>
        ⟨releaseIn s.pool h.index statusCode s.pool, s.held.eraseIdx j⟩
    | .addNode host port weight isBackup =>
      some (if port ≤ 0 then s
        else { s with pool := (addNodeIn s.pool host port weight isBackup).1 })
    | .removeNode host port => some { s with pool := (removeNodeIn s.pool host port).1 }

/-- How many pointers are held to the node with the host and the port. -/
def PoolUse.uses (s : PoolUse) (key : Bytes × Int) : Nat := s.held.countP (·.key = key)

/-- **What the count is for**: every node counts the selections of it that were not handed back, and
every pointer points to the node that was selected. -/
structure Accounted (s : PoolUse) : Prop where
  conns : ∀ n ∈ s.pool.nodes, n.activeConns = s.uses n.key
  pointers : ∀ h ∈ s.held, s.pool.nodes[h.index]?.map (·.key) = some h.key

/-- The call stores no second node under the host and port of one, and removes none that a pointer
points to or behind. -/
def Steady (s : PoolUse) : PoolCall → Prop
  | .addNode host port _ _ => host.length ≤ 127 ∨ 32 ≤ s.pool.nodes.length ∨
      ∀ n ∈ s.pool.nodes, n.key ≠ (host.take 127, port)
  | .removeNode host port => ∀ i ∈ nodeIndex s.pool.nodes host port, ∀ h ∈ s.held, h.index < i
  | _ => True

instance (s : PoolUse) (call : PoolCall) : Decidable (Steady s call) :=
  match call with
  | .addNode host port _ _ => inferInstanceAs (Decidable (host.length ≤ 127 ∨ _ ∨
      ∀ n ∈ s.pool.nodes, n.key ≠ (host.take 127, port)))
  | .removeNode host port => inferInstanceAs (Decidable (∀ i ∈ nodeIndex s.pool.nodes host port,
      ∀ h ∈ s.held, h.index < i))
  | .select _ | .release .. => isTrue trivial

/-- Hosts and ports of the nodes. -/
def ArwsUpstreamPool.keys (pool : ArwsUpstreamPool) : List (Bytes × Int) := pool.nodes.map (·.key)

/-- The connections are right, and no two nodes have the same host and port. -/
structure Kept (s : PoolUse) : Prop extends Accounted s where
  nodup : s.pool.keys.Nodup

section Step

variable {s t : PoolUse}

theorem index_eq_of_key {pool : ArwsUpstreamPool} (hnodup : pool.keys.Nodup) {i j : Nat}
    {n m : ArwsBackendNode} (hi : pool.nodes[i]? = some n) (hj : pool.nodes[j]? = some m)
    (hkey : n.key = m.key) : i = j := by
  obtain ⟨hlt, -⟩ := List.getElem?_eq_some_iff.1 hi
  refine (List.getElem?_inj (by rwa [ArwsUpstreamPool.keys, List.length_map]) hnodup).1 ?_
  rw [ArwsUpstreamPool.keys, List.getElem?_map, List.getElem?_map, hi, hj, Option.map_some,
    Option.map_some, hkey]

theorem keys_of_stands {pool pool' : ArwsUpstreamPool} (h : Stands pool pool') :
    pool'.keys = pool.keys := by
  have hkeys : ∀ p : ArwsUpstreamPool, p.keys = (p.nodes.map (·.standing)).map (·.1) := by
    intro p
    rw [List.map_map]
    rfl
  rw [hkeys, hkeys, h.nodes]

/-- Pointers are right as long as the keys stay where they are. -/
theorem pointers_of_keys {pool pool' : ArwsUpstreamPool} {held : List Held}
    (hkeys : pool'.keys = pool.keys)
    (h : ∀ h ∈ held, pool.nodes[h.index]?.map (·.key) = some h.key) :
    ∀ h ∈ held, pool'.nodes[h.index]?.map (·.key) = some h.key := by
  intro p hp
  have := h p hp
  rwa [← List.getElem?_map, ← ArwsUpstreamPool.keys, ← hkeys, ArwsUpstreamPool.keys,
    List.getElem?_map] at this

/-- **A selection** counts one connection more at the node it returns a pointer to. -/
theorem Kept.select (h : Kept s) {clientIp : Bytes} {pool' : ArwsUpstreamPool} {selected : Option Nat}
    (hsel : selectFrom s.pool clientIp = some (pool', selected)) :
    Kept ⟨pool', (selected.bind (heldOf pool')).toList ++ s.held⟩ := by
  have hkeys := keys_of_stands (selectFrom_stands hsel)
  have hpointers := pointers_of_keys hkeys h.pointers
  have hnodup : pool'.keys.Nodup := hkeys ▸ h.nodup
  obtain ⟨rfl, -, r, rfl⟩ | ⟨i, rfl, -, hi, hconns⟩ := selectFrom_cases hsel
  · exact ⟨⟨h.conns, hpointers⟩, hnodup⟩
  · have hlen : pool'.nodes.length = s.pool.nodes.length := by
      have := congrArg List.length hkeys
      rwa [ArwsUpstreamPool.keys, ArwsUpstreamPool.keys, List.length_map, List.length_map] at this
    obtain ⟨m, hm⟩ : ∃ m, pool'.nodes[i]? = some m :=
      ⟨_, List.getElem?_eq_getElem (hlen ▸ hi)⟩
    have hheld : heldOf pool' i = some ⟨i, m.key⟩ := by rw [heldOf, hm]; rfl
    rw [Option.bind_some, hheld, Option.toList_some, List.singleton_append]
    refine ⟨⟨fun n hn => ?_, ?_⟩, hnodup⟩
    · -- the node was there, with one connection less if it is the one that was selected
      obtain ⟨j, hj⟩ := List.mem_iff_getElem?.1 hn
      have hc : pool'.conns[j]? = some n.activeConns := by
        rw [ArwsUpstreamPool.conns, List.getElem?_map, hj, Option.map_some]
      have hk : s.pool.keys[j]? = some n.key := by
        rw [← hkeys, ArwsUpstreamPool.keys, List.getElem?_map, hj, Option.map_some]
      obtain ⟨n₀, hn₀, hkey₀⟩ : ∃ n₀, s.pool.nodes[j]? = some n₀ ∧ n₀.key = n.key := by
        rw [ArwsUpstreamPool.keys, List.getElem?_map] at hk
        exact Option.map_eq_some_iff.1 hk
      have hold := h.conns n₀ (List.mem_of_getElem? hn₀)
      rw [hconns, List.getElem?_modify, ArwsUpstreamPool.conns, List.getElem?_map, hn₀,
        Option.map_some, Option.map_eq_map, Option.map_some, Option.some_inj] at hc
      rw [PoolUse.uses, List.countP_cons, ← PoolUse.uses, ← hc, hold, hkey₀]
      by_cases hij : i = j
      · subst hij
        rw [hj, Option.some_inj] at hm
        subst hm
        simp
      · have hne : m.key ≠ n.key := fun he => hij (index_eq_of_key hnodup hm hj he)
        simp [hij, hne]
    · intro held hmem
      rcases List.mem_cons.1 hmem with rfl | hmem
      · rw [hm, Option.map_some]
      · exact hpointers held hmem

/-- **A release** counts the connection off that the pointer stands for. -/
theorem Kept.release (h : Kept s) {j : Nat} {held : Held} (hj : s.held[j]? = some held)
    (statusCode : Int) :
    Kept ⟨releaseIn s.pool held.index statusCode s.pool, s.held.eraseIdx j⟩ := by
  have hmem : held ∈ s.held := List.mem_of_getElem? hj
  obtain ⟨m, hm, hmkey⟩ := Option.map_eq_some_iff.1 (h.pointers held hmem)
  have hkeys : (releaseIn s.pool held.index statusCode s.pool).keys = s.pool.keys := by
    refine map_modify_eq (fun n => ?_) _ _
    obtain ⟨hhost, hport, -⟩ :=
      release_spec n s.pool.fallThreshold s.pool.riseThreshold statusCode
    rw [ArwsBackendNode.key, hhost, hport, ArwsBackendNode.key]
  have huses : ∀ key, s.uses key =
      List.countP (·.key = key) (s.held.eraseIdx j) + if held.key = key then 1 else 0 := by
    intro key
    obtain ⟨hlt, rfl⟩ := List.getElem?_eq_some_iff.1 hj
    rw [PoolUse.uses, ← (List.getElem_cons_eraseIdx_perm hlt).countP_eq, List.countP_cons]
    simp only [decide_eq_true_eq]
  refine ⟨⟨fun n hn => ?_, fun other hother => ?_⟩, hkeys ▸ h.nodup⟩
  · obtain ⟨i, hi⟩ := List.mem_iff_getElem?.1 hn
    simp only [releaseIn, List.getElem?_modify, Option.map_eq_map, Option.map_eq_some_iff] at hi
    obtain ⟨n₀, hn₀, rfl⟩ := hi
    have hold := h.conns n₀ (List.mem_of_getElem? hn₀)
    rw [huses] at hold
    by_cases hindex : held.index = i
    · -- the node of the pointer has counted it
      subst hindex
      rw [hm, Option.some_inj] at hn₀
      subst hn₀
      obtain ⟨hhost, hport, -, hconns⟩ :=
        release_spec m s.pool.fallThreshold s.pool.riseThreshold statusCode
      rw [if_pos hmkey.symm] at hold
      have hpos : m.activeConns > 0 := by omega
      rw [if_pos rfl, hconns, if_pos hpos, PoolUse.uses, ArwsBackendNode.key, hhost, hport,
        ← ArwsBackendNode.key, hold, Int.natCast_succ]
      exact Int.add_sub_cancel _ _
    · have hne : held.key ≠ n₀.key := fun he =>
        hindex (index_eq_of_key h.nodup hm hn₀ (hmkey.trans he))
      rw [if_neg hne] at hold
      rw [if_neg hindex]
      exact hold
  · exact pointers_of_keys hkeys h.pointers other (List.mem_of_mem_eraseIdx hother)

/-- **An addition** changes a node in its place or appends one that nobody has a pointer to. -/
theorem Kept.addNode (h : Kept s) {host : Bytes} {port weight isBackup : Int}
    (hsteady : Steady s (.addNode host port weight isBackup)) :
    Kept { s with pool := (addNodeIn s.pool host port weight isBackup).1 } := by
  obtain ⟨i, w, -, he⟩ | ⟨hnone, ⟨hroom, w, he⟩ | he⟩ := addNodeIn_cases s.pool host port weight isBackup
  · rw [he]
    have hkeys : ArwsUpstreamPool.keys { s.pool with nodes := s.pool.nodes.modify i fun n =>
        { n with weight := w, effectiveWeight := w, isBackup := isBackup } } = s.pool.keys := by
      refine map_modify_eq ?_ _ _
      exact fun n => rfl
    refine ⟨⟨?_, pointers_of_keys hkeys h.pointers⟩, hkeys.symm ▸ h.nodup⟩
    refine forall_mem_modify ?_ h.conns i
    exact fun n hn => hn
  · rw [he]
    -- the host and the port are not taken, also where the host is cut
    have hfresh : ∀ n ∈ s.pool.nodes, n.key ≠ (host.take 127, port) := by
      rcases hsteady with hlen | hfull | hfresh
      · rw [List.take_of_length_le hlen]
        intro n hn hkey
        exact nodeIndex_eq_none_iff.1 hnone n hn ⟨congrArg Prod.fst hkey, congrArg Prod.snd hkey⟩
      · exact absurd hroom (Nat.not_lt.2 hfull)
      · exact hfresh
    have hunused : s.uses (host.take 127, port) = 0 := by
      rw [PoolUse.uses, List.countP_eq_zero]
      intro held hheld hkey
      obtain ⟨n, hn, hnkey⟩ := Option.map_eq_some_iff.1 (h.pointers held hheld)
      exact hfresh n (List.mem_of_getElem? hn) (hnkey.trans (of_decide_eq_true hkey))
    refine ⟨⟨fun n hn => ?_, fun held hheld => ?_⟩, ?_⟩
    · rcases List.mem_append.1 hn with hn | hn
      · exact h.conns n hn
      · rw [List.mem_singleton.1 hn]
        exact (congrArg Nat.cast hunused).symm
    · have hpoints := h.pointers held hheld
      obtain ⟨n, hn, -⟩ := Option.map_eq_some_iff.1 hpoints
      rw [List.getElem?_append_left (List.getElem?_eq_some_iff.1 hn).1]
      exact hpoints
    · rw [ArwsUpstreamPool.keys, List.map_append]
      refine List.Nodup.append h.nodup (List.nodup_singleton _) ?_
      rintro key hkey hnew
      obtain ⟨n, hn, rfl⟩ := List.mem_map.1 hkey
      exact hfresh n hn (List.mem_singleton.1 hnew)
  · rw [he]
    exact h

/-- **A removal** leaves all right exactly if no pointer points to the node or behind it. -/
theorem accounted_removeNode_iff (h : Kept s) {host : Bytes} {port : Int} {i : Nat}
    (hi : nodeIndex s.pool.nodes host port = some i) :
    Accounted { s with pool := (removeNodeIn s.pool host port).1 } ↔ ∀ held ∈ s.held, held.index < i := by
  obtain ⟨i', hi', he⟩ | ⟨hnone, -⟩ := removeNodeIn_cases s.pool host port
  · obtain rfl := Option.some.inj (hi.symm.trans hi')
    rw [he]
    constructor
    · intro hacc held hheld
      refine Nat.lt_of_not_le fun hle => ?_
      -- the pointer is to the next node now
      obtain ⟨n, hn, hnkey⟩ := Option.map_eq_some_iff.1 (h.pointers held hheld)
      obtain ⟨m, hm, hmkey⟩ := Option.map_eq_some_iff.1 (hacc.pointers held hheld)
      rw [List.getElem?_eraseIdx_of_ge hle] at hm
      exact absurd (index_eq_of_key h.nodup hm hn (hmkey.trans hnkey.symm)) (Nat.succ_ne_self _)
    · intro hbefore
      refine ⟨fun n hn => h.conns n (List.mem_of_mem_eraseIdx hn), fun held hheld => ?_⟩
      rw [List.getElem?_eraseIdx_of_lt (hbefore held hheld)]
      exact h.pointers held hheld
  · rw [hi] at hnone
    cases hnone

theorem Kept.removeNode (h : Kept s) {host : Bytes} {port : Int}
    (hsteady : Steady s (.removeNode host port)) :
    Kept { s with pool := (removeNodeIn s.pool host port).1 } := by
  obtain ⟨i, hi, he⟩ | ⟨hnone, he⟩ := removeNodeIn_cases s.pool host port
  · refine ⟨(accounted_removeNode_iff h hi).2 (hsteady i hi), ?_⟩
    rw [he]
    exact h.nodup.sublist ((List.eraseIdx_sublist _ i).map _)
  · rw [he]
    exact h

/-- **A call that is steady keeps the connections right.** -/
theorem Kept.step (h : Kept s) {call : PoolCall} (hsteady : Steady s call)
    (hs : poolUse.step s call = some t) : Kept t := by
  cases call with
  | select clientIp =>
    obtain ⟨⟨pool', selected⟩, hsel, rfl⟩ := Option.map_eq_some_iff.1 hs
    exact h.select hsel
  | release j statusCode =>
    obtain ⟨held, hj, rfl⟩ := Option.map_eq_some_iff.1 hs
    exact h.release hj statusCode
  | addNode host port weight isBackup =>
    cases hs
    split
    · exact h
    · exact h.addNode hsteady
  | removeNode host port =>
    cases hs
    exact h.removeNode hsteady

end Step

theorem kept_of_reach {s : PoolUse} (h : poolUse.ReachUnder Steady s) : Kept s := by
  refine h.invariant ?_ fun s call t hkept hsteady hs => hkept.step hsteady hs
  rintro s ⟨hnodes, hheld⟩
  refine ⟨⟨fun n hn => ?_, fun held hmem => ?_⟩, ?_⟩
  · rw [hnodes] at hn
    cases hn
  · rw [hheld] at hmem
    cases hmem
  · rw [ArwsUpstreamPool.keys, hnodes]
    exact List.nodup_nil

/-- A pool as it is made. -/
private def webUse : PoolUse := ⟨⟨ascii "web", .leastConn, [], 0, 3, 2, true⟩, []⟩

end Upstream
end Arws

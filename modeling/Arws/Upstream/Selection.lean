import Arws.Upstream.Nodes
import Arws.Gateway.RoundRobin

/-!
# The node that is selected

`arws_upstream_select` asks for a node with `is_backup` 0 first and then for one with `is_backup` 1.
Whoever adds a node may set any number, and `upstream list` shows any but 0 as a backup.

* `selectsRight_iff` — in one state, a node is selected as it should be exactly if, where there is a
  node to send a request to, there is one whose flag is 0 or 1.
* `selectsRight_of_reach` — so it is in every reachable state, and a run that sets no other flag reaches
  no state in which it is not.
-/

set_option autoImplicit false

namespace Arws
namespace Upstream

open CString Gateway.RoundRobin

/-! ## What a selection should do -/

/-- A request can be sent to the node. -/
def ArwsBackendNode.available (n : ArwsBackendNode) : Bool := n.isAlive && !n.isDraining

/-- The pool that `arws_upstream_get_pool` points to. -/
def namedPool (pools : List ArwsUpstreamPool) (poolName : Bytes) : Option ArwsUpstreamPool :=
  (arwsUpstreamGetPool pools poolName).bind (pools[·]?)

/-- The nodes to select from. -/
def poolNodes (pools : List ArwsUpstreamPool) (poolName : Bytes) : List ArwsBackendNode :=
  (namedPool pools poolName).elim [] (·.nodes)

/-- The node may be selected from the nodes: it is available, and if it is a backup then no node is
available that is none. -/
def MaySelect (nodes : List ArwsBackendNode) (n : ArwsBackendNode) : Prop :=
  n.available = true ∧ (n.isBackup ≠ 0 → ∀ m ∈ nodes, m.available = true → m.isBackup ≠ 0)

/-- **The node is selected as it should be**: there is one exactly if one is available, and it is one
that may be selected. -/
def SelectsRight (pools : List ArwsUpstreamPool) (poolName clientIp : Bytes) : Prop :=
  ∃ pools' selected, arwsUpstreamSelect pools poolName clientIp = some (pools', selected) ∧
    (selected.isSome = true ↔ ∃ n ∈ poolNodes pools poolName, n.available = true) ∧
    ∀ p i, selected = some (p, i) → arwsUpstreamGetPool pools poolName = some p ∧
      ∃ n, (poolNodes pools poolName)[i]? = some n ∧ MaySelect (poolNodes pools poolName) n

/-- Whenever `rr_index` is used it is below `INT_MAX`, among the primary nodes and then among the
backups. -/
structure ArwsUpstreamPool.CursorBelow (pool : ArwsUpstreamPool) : Prop where
  primary : ∀ c ∈ usedCounters pool.nodes 0 pool.nodes.length pool.rrIndex, c < 2 ^ 31 - 1
  backup : (∀ n ∈ pool.nodes, n.eligible 0 = false) →
    ∀ c ∈ usedCounters pool.nodes 1 pool.nodes.length (pool.rrIndex + pool.nodes.length),
      c < 2 ^ 31 - 1

/-- The cursor of a pool that is selected from by round robin. -/
def CursorBelow (pools : List ArwsUpstreamPool) (poolName : Bytes) : Prop :=
  ∀ pool ∈ namedPool pools poolName, pool.algo = .roundRobin → pool.CursorBelow

/-! ## Runs -/

inductive UpstreamCall
  | createPool (name : Bytes) (algo : ArwsLbAlgo)
  | setHealthParams (poolName : Bytes) (fallThresh riseThresh : Int)
  | addNode (poolName host : Bytes) (port weight isBackup : Int)
  | removeNode (poolName host : Bytes) (port : Int)
  | setNodeDrain (poolName host : Bytes) (port drain : Int)
  | healthCheck (poolName host : Bytes) (port : Int) (now : Nat) (alive : Bool)
  | release (poolName : Bytes) (node : Option (Nat × Nat)) (statusCode : Int)
  | select (poolName clientIp : Bytes)

/-- The pools, under any calls of the functions on them. -/
def upstreams : Machine (List ArwsUpstreamPool) UpstreamCall where
  init pools := pools = arwsUpstreamInit
  step pools
    | .createPool name algo => some (arwsUpstreamCreatePool pools name algo).1
    | .setHealthParams poolName fallThresh riseThresh =>
      some (arwsUpstreamSetHealthParams pools poolName fallThresh riseThresh).1
    | .addNode poolName host port weight isBackup =>
      some (arwsUpstreamAddNode pools poolName host port weight isBackup).1
    | .removeNode poolName host port => some (arwsUpstreamRemoveNode pools poolName host port).1
    | .setNodeDrain poolName host port drain =>
      some (arwsUpstreamSetNodeDrain pools poolName host port drain).1
    | .healthCheck poolName host port now alive =>
      some (healthCheckUpdate pools poolName host port now alive)
    | .release poolName node statusCode => some (arwsUpstreamRelease pools poolName node statusCode)
    | .select poolName clientIp => (arwsUpstreamSelect pools poolName clientIp).map (·.1)

/-- A flag that `arws_upstream_select` asks for. -/
def FlagKnown (isBackup : Int) : Prop := isBackup = 0 ∨ isBackup = 1

instance : DecidablePred FlagKnown := fun _ => inferInstanceAs (Decidable (_ ∨ _))

/-- The call sets no flag but those of a kind. -/
def SetsFlag (kind : Int → Prop) (_ : List ArwsUpstreamPool) : UpstreamCall → Prop
  | .addNode _ _ _ _ isBackup => kind isBackup
  | _ => True

instance (kind : Int → Prop) [DecidablePred kind] (pools : List ArwsUpstreamPool) (call : UpstreamCall) :
    Decidable (SetsFlag kind pools call) :=
  match call with
  | .addNode _ _ _ _ isBackup => inferInstanceAs (Decidable (kind isBackup))
  | .createPool .. | .setHealthParams .. | .removeNode .. | .setNodeDrain .. | .healthCheck ..
  | .release .. | .select .. => isTrue trivial

/-! ## One selection -/

section One

variable {pool pool' : ArwsUpstreamPool} {clientIp : Bytes}

theorem eligible_iff {useBackup : Int} {n : ArwsBackendNode} :
    n.eligible useBackup = true ↔ n.available = true ∧ n.isBackup = useBackup := by
  rw [ArwsBackendNode.eligible, Bool.and_eq_true, beq_iff_eq, ArwsBackendNode.available]

/-- The node that is found is a primary one, or it is a backup and there is no primary one. -/
theorem selectFrom_found {i : Nat} (h : selectFrom pool clientIp = some (pool', some i)) :
    ∃ n, pool.nodes[i]? = some n ∧ (n.eligible 0 = true ∨
      n.eligible 1 = true ∧ ∀ m ∈ pool.nodes, m.eligible 0 = false) := by
  rw [selectFrom] at h
  split at h
  · cases h
  · obtain ⟨⟨p, first⟩, hfirst, h⟩ := Option.bind_eq_some_iff.1 h
    have hsel := selectLocked_selected hfirst
    cases first with
    | some j =>
      cases h
      obtain ⟨⟨n, hget, hel⟩, -⟩ := hsel
      exact ⟨n, hget, Or.inl hel⟩
    | none =>
      obtain ⟨hnone, r, rfl⟩ := hsel
      obtain ⟨⟨n, hget, hel⟩, -⟩ := selectLocked_selected h
      exact ⟨n, hget, Or.inr ⟨hel, hnone⟩⟩

theorem maySelect_of_found {i : Nat} (h : selectFrom pool clientIp = some (pool', some i)) :
    ∃ n, pool.nodes[i]? = some n ∧ MaySelect pool.nodes n := by
  obtain ⟨n, hget, hel⟩ := selectFrom_found h
  refine ⟨n, hget, ?_⟩
  rcases hel with hel | ⟨hel, hnone⟩
  · obtain ⟨havail, hflag⟩ := eligible_iff.1 hel
    exact ⟨havail, fun hne => absurd hflag hne⟩
  · refine ⟨(eligible_iff.1 hel).1, fun _ m hm havail hflag => ?_⟩
    have := hnone m hm
    rw [eligible_iff.2 ⟨havail, hflag⟩] at this
    cases this

theorem le_of_mem_usedCounters {nodes : List ArwsBackendNode} {useBackup : Int} {attempts : Nat}
    {rrIndex c : Int} (h : c ∈ usedCounters nodes useBackup attempts rrIndex) : rrIndex ≤ c := by
  induction attempts generalizing rrIndex with
  | zero => cases h
  | succ attempts ih =>
    rw [usedCounters] at h
    rcases List.mem_cons.1 h with rfl | h
    · exact Int.le_refl _
    · split_ifs at h
      · cases h
      · cases h
      · have := ih h
        omega

/-- The loop stays inside of the pool as long as its counters are below `INT_MAX`. -/
theorem rrLoop_isSome {nodes : List ArwsBackendNode} {useBackup rrIndex : Int} {attempts : Nat}
    (hrr : 0 ≤ rrIndex) (hne : nodes ≠ [])
    (hbelow : ∀ c ∈ usedCounters nodes useBackup attempts rrIndex, c < 2 ^ 31 - 1) :
    ∃ r, rrLoop nodes useBackup attempts rrIndex = some r := by
  have hused := rrLoop_used nodes useBackup attempts rrIndex
  rw [if_pos] at hused
  · obtain ⟨r, hr, -⟩ := Option.map_eq_some_iff.1 hused
    exact ⟨r, hr⟩
  · intro c hc
    have hlt := hbelow c hc
    have hle := le_of_mem_usedCounters hc
    exact (inRange_of_fits (List.length_pos_iff.2 hne) (fits_of_lt (by omega) (by omega) _)).1

/-- A loop that found none has counted each of its attempts. -/
theorem rrLoop_none {nodes : List ArwsBackendNode} {useBackup : Int} {attempts : Nat}
    {rrIndex r : Int} (h : rrLoop nodes useBackup attempts rrIndex = some (r, none)) :
    r = rrIndex + attempts := by
  induction attempts generalizing rrIndex with
  | zero =>
    cases h
    exact (Int.add_zero _).symm
  | succ attempts ih =>
    simp only [rrLoop] at h
    split_ifs at h
    · cases h
    · have := ih h
      omega

theorem selectLocked_isSome {useBackup : Int} (clientIp : Bytes) (hrr : 0 ≤ pool.rrIndex)
    (hne : pool.nodes ≠ []) (hbelow : pool.algo = .roundRobin →
      ∀ c ∈ usedCounters pool.nodes useBackup pool.nodes.length pool.rrIndex, c < 2 ^ 31 - 1) :
    ∃ r, selectLocked pool clientIp useBackup = some r := by
  rw [selectLocked]
  split
  · rename_i halgo
    obtain ⟨r, hloop⟩ := rrLoop_isSome hrr hne (hbelow halgo)
    exact ⟨_, Option.map_eq_some_iff.2 ⟨r, hloop, rfl⟩⟩
  · exact ⟨_, rfl⟩
  · exact ⟨_, rfl⟩
  · exact ⟨_, rfl⟩

/-- A selection of the round robin that found none has counted on by the number of nodes. -/
theorem selectLocked_none {useBackup : Int} (halgo : pool.algo = .roundRobin)
    (h : selectLocked pool clientIp useBackup = some (pool', none)) :
    pool'.rrIndex = pool.rrIndex + pool.nodes.length := by
  simp only [selectLocked, halgo] at h
  obtain ⟨⟨r, found⟩, hloop, heq⟩ := Option.map_eq_some_iff.1 h
  cases found with
  | none =>
    cases heq
    exact rrLoop_none hloop
  | some i => cases heq

/-- A selection whose cursor is below `INT_MAX` looks at no node outside of the pool. -/
theorem selectFrom_isSome (clientIp : Bytes) (hrr : 0 ≤ pool.rrIndex)
    (hcursor : pool.algo = .roundRobin → pool.CursorBelow) :
    ∃ r, selectFrom pool clientIp = some r := by
  rw [selectFrom]
  split
  · exact ⟨_, rfl⟩
  · rename_i hne
    obtain ⟨⟨p, first⟩, hfirst⟩ := selectLocked_isSome clientIp hrr hne
      fun halgo => (hcursor halgo).primary
    rw [hfirst]
    cases first with
    | some i => exact ⟨_, rfl⟩
    | none =>
      obtain ⟨hnone, r, rfl⟩ := selectLocked_selected hfirst
      have hstands := selectLocked_stands hfirst
      refine selectLocked_isSome clientIp (Int.le_trans hrr hstands.rrIndex) hne fun halgo => ?_
      rw [selectLocked_none (show pool.algo = _ from halgo) hfirst]
      exact (hcursor halgo).backup hnone

end One

theorem arwsUpstreamSelect_of_namedPool {pools : List ArwsUpstreamPool} {poolName : Bytes}
    {pool : ArwsUpstreamPool} (h : namedPool pools poolName = some pool) (clientIp : Bytes) :
    ∃ p, arwsUpstreamGetPool pools poolName = some p ∧ pools[p]? = some pool ∧
      arwsUpstreamSelect pools poolName clientIp = (selectFrom pool clientIp).map
        fun (pool, selected) => (pools.set p pool, selected.map fun i => (p, i)) := by
  obtain ⟨p, hp, hget⟩ := Option.bind_eq_some_iff.1 h
  refine ⟨p, hp, hget, ?_⟩
  simp only [arwsUpstreamSelect, hp, hget]

theorem arwsUpstreamSelect_of_no_pool {pools : List ArwsUpstreamPool} {poolName : Bytes}
    (h : namedPool pools poolName = none) (clientIp : Bytes) :
    arwsUpstreamSelect pools poolName clientIp = some (pools, none) := by
  rw [arwsUpstreamSelect]
  cases hp : arwsUpstreamGetPool pools poolName with
  | none => rfl
  | some p =>
    rw [namedPool, hp, Option.bind_some] at h
    simp only [h]

/-- **In one state**: the selection is right exactly if, where a node is available, one with a known
flag is. -/
theorem selectsRight_iff {pools : List ArwsUpstreamPool} {poolName : Bytes}
    (hrr : ∀ pool ∈ namedPool pools poolName, 0 ≤ pool.rrIndex) (hcursor : CursorBelow pools poolName)
    (clientIp : Bytes) :
    SelectsRight pools poolName clientIp ↔
      ((∃ n ∈ poolNodes pools poolName, n.available = true) →
        ∃ n ∈ poolNodes pools poolName, n.available = true ∧ FlagKnown n.isBackup) := by
  cases hpool : namedPool pools poolName with
  | none =>
    have hnodes : poolNodes pools poolName = [] := by rw [poolNodes, hpool]; rfl
    refine iff_of_true ⟨pools, none, arwsUpstreamSelect_of_no_pool hpool clientIp, ?_, ?_⟩ ?_
    · rw [hnodes]
      simp
    · rintro p i ⟨⟩
    · rw [hnodes]
      rintro ⟨n, hn, -⟩
      cases hn
  | some pool =>
    have hnodes : poolNodes pools poolName = pool.nodes := by rw [poolNodes, hpool]; rfl
    obtain ⟨p, hp, hget, hselect⟩ := arwsUpstreamSelect_of_namedPool hpool clientIp
    obtain ⟨⟨pool', selected⟩, hsel⟩ := selectFrom_isSome clientIp (hrr pool hpool) (hcursor pool hpool)
    rw [hsel, Option.map_some] at hselect
    have hknown : pool.Selectable ↔ ∃ n ∈ pool.nodes, n.available = true ∧ FlagKnown n.isBackup := by
      simp only [ArwsUpstreamPool.Selectable, eligible_iff, FlagKnown, and_or_left]
    rw [hnodes, ← hknown, SelectsRight]
    obtain ⟨rfl, hno, -⟩ | ⟨i, rfl, hyes, -, -⟩ := selectFrom_cases hsel
    · constructor
      · rintro ⟨_, _, heq, hsome, -⟩ hex
        rw [hselect, Option.some_inj, Prod.mk.injEq] at heq
        rw [hnodes, ← heq.2] at hsome
        cases hsome.2 hex
      · intro hyes
        refine ⟨_, _, hselect, ?_, ?_⟩
        · rw [hnodes]
          exact ⟨fun h => (Bool.false_ne_true h).elim, fun hex => absurd (hyes hex) hno⟩
        · rintro p i ⟨⟩
    · refine iff_of_true ⟨_, _, hselect, ?_, ?_⟩ fun _ => hyes
      · rw [hnodes]
        obtain ⟨n, hn, havail, -⟩ := hknown.1 hyes
        exact iff_of_true rfl ⟨n, hn, havail⟩
      · rintro q j ⟨⟩
        rw [hnodes]
        exact ⟨hp, maySelect_of_found hsel⟩

/-! ## All runs -/

/-- The cursor is not negative, and all flags are of a kind. -/
structure ArwsUpstreamPool.HasFlags (kind : Int → Prop) (pool : ArwsUpstreamPool) : Prop where
  rrIndex : 0 ≤ pool.rrIndex
  flags : ∀ n ∈ pool.nodes, kind n.isBackup

namespace ArwsUpstreamPool.HasFlags

variable {kind : Int → Prop} {pool : ArwsUpstreamPool} (h : pool.HasFlags kind)

include h

theorem modify {f : ArwsBackendNode → ArwsBackendNode}
    (hf : ∀ n, kind n.isBackup → kind (f n).isBackup) (i : Nat) :
    HasFlags kind { pool with nodes := pool.nodes.modify i f } :=
  ⟨h.rrIndex, forall_mem_modify hf h.flags i⟩

theorem addNodeIn (host : Bytes) (port weight : Int) {isBackup : Int} (hflag : kind isBackup) :
    HasFlags kind (addNodeIn pool host port weight isBackup).1 := by
  obtain ⟨i, w, -, he⟩ | ⟨-, ⟨-, w, he⟩ | he⟩ := addNodeIn_cases pool host port weight isBackup
  · rw [he]
    exact h.modify (fun _ _ => hflag) i
  · rw [he]
    refine ⟨h.rrIndex, fun n hn => ?_⟩
    rcases List.mem_append.1 hn with hn | hn
    · exact h.flags n hn
    · rw [List.mem_singleton.1 hn]
      exact hflag
  · rw [he]
    exact h

theorem removeNodeIn (host : Bytes) (port : Int) : HasFlags kind (removeNodeIn pool host port).1 := by
  obtain ⟨i, -, he⟩ | ⟨-, he⟩ := removeNodeIn_cases pool host port
  · rw [he]
    exact ⟨h.rrIndex, fun n hn => h.flags n (List.mem_of_mem_eraseIdx hn)⟩
  · rw [he]
    exact h

theorem setNodeDrainIn (host : Bytes) (port drain : Int) :
    HasFlags kind (setNodeDrainIn pool host port drain).1 := by
  rw [Upstream.setNodeDrainIn]
  split
  · refine h.modify ?_ _
    exact fun _ hn => hn
  · exact h

theorem probeIn (host : Bytes) (port : Int) (now : Nat) (alive : Bool) :
    HasFlags kind (probeIn pool host port now alive) := by
  rw [Upstream.probeIn]
  split
  · refine h.modify (fun n hn => ?_) _
    rwa [probed_isBackup]
  · exact h

theorem releaseIn (named : ArwsUpstreamPool) (i : Nat) (statusCode : Int) :
    HasFlags kind (releaseIn named i statusCode pool) := by
  refine h.modify (fun n hn => ?_) i
  obtain ⟨-, -, hflag, -⟩ := release_spec n named.fallThreshold named.riseThreshold statusCode
  rwa [hflag]

/-- What stands as before keeps its flags. -/
theorem stands {pool' : ArwsUpstreamPool} (hstands : Stands pool pool') : pool'.HasFlags kind := by
  refine ⟨Int.le_trans h.rrIndex hstands.rrIndex, fun n hn => ?_⟩
  have hmem : n.standing ∈ pool'.nodes.map (·.standing) := List.mem_map_of_mem hn
  rw [hstands.nodes] at hmem
  obtain ⟨m, hm, he⟩ := List.mem_map.1 hmem
  have hflag : m.isBackup = n.isBackup := congrArg (·.2.1) he
  exact hflag ▸ h.flags m hm

end ArwsUpstreamPool.HasFlags

/-- What the functions of the upstreams keep that write a pool, as long as the flags that are set are of a
kind. -/
structure KeptByUpdates (kind : Int → Prop) (P : ArwsUpstreamPool → Prop) : Prop where
  unused : P .unused
  create {pool : ArwsUpstreamPool} (algo : ArwsLbAlgo) (h : P pool) : P { pool with algo := algo }
  fresh (pool : ArwsUpstreamPool) (name : Bytes) (algo : ArwsLbAlgo) :
    P { pool with name := name, algo := algo, nodes := [], rrIndex := 0, fallThreshold := 3,
                  riseThreshold := 2, active := true }
  params {pool : ArwsUpstreamPool} (fall rise : Int) (h : P pool) :
    P { pool with fallThreshold := fall, riseThreshold := rise }
  addNode {pool : ArwsUpstreamPool} (host : Bytes) (port weight : Int) {isBackup : Int}
    (hflag : kind isBackup) (h : P pool) : P (addNodeIn pool host port weight isBackup).1
  removeNode {pool : ArwsUpstreamPool} (host : Bytes) (port : Int) (h : P pool) :
    P (removeNodeIn pool host port).1
  setNodeDrain {pool : ArwsUpstreamPool} (host : Bytes) (port drain : Int) (h : P pool) :
    P (setNodeDrainIn pool host port drain).1
  probe {pool : ArwsUpstreamPool} (host : Bytes) (port : Int) (now : Nat) (alive : Bool) (h : P pool) :
    P (probeIn pool host port now alive)
  release {pool : ArwsUpstreamPool} (named : ArwsUpstreamPool) (i : Nat) (statusCode : Int) (h : P pool) :
    P (releaseIn named i statusCode pool)

/-- The same, for what is the same in pools that stand as each other. -/
structure KeptInPool (kind : Int → Prop) (P : ArwsUpstreamPool → Prop) : Prop
    extends KeptByUpdates kind P where
  stands {pool pool' : ArwsUpstreamPool} (hstands : Stands pool pool') (h : P pool) : P pool'

/-- The same, for what a selection keeps as well. -/
structure KeptByCalls (kind : Int → Prop) (P : ArwsUpstreamPool → Prop) : Prop
    extends KeptByUpdates kind P where
  select {pool pool' : ArwsUpstreamPool} {clientIp : Bytes} {selected : Option Nat}
    (hselect : selectFrom pool clientIp = some (pool', selected)) (h : P pool) : P pool'

namespace KeptByCalls

variable {kind : Int → Prop} {P : ArwsUpstreamPool → Prop} (hkept : KeptByCalls kind P)
  {pools : List ArwsUpstreamPool} (h : ∀ pool ∈ pools, P pool)

include h in
theorem withPool {f : ArwsUpstreamPool → ArwsUpstreamPool × Int} (hf : ∀ pool, P pool → P (f pool).1)
    (poolName : Bytes) : ∀ pool ∈ (withPool pools poolName f).1, P pool := by
  rw [Upstream.withPool]
  split
  · exact h
  · split
    · exact h
    · rename_i p hp pool hget
      intro q hq
      rcases List.mem_or_eq_of_mem_set hq with hq | rfl
      · exact h q hq
      · exact hf pool (h pool (List.mem_of_getElem? hget))

include hkept h

theorem createPool (name : Bytes) (algo : ArwsLbAlgo) :
    ∀ pool ∈ (arwsUpstreamCreatePool pools name algo).1, P pool := by
  rw [arwsUpstreamCreatePool]
  split
  · exact h
  · split
    · exact forall_mem_modify (fun _ hpool => hkept.create algo hpool) h _
    · split
      · exact forall_mem_modify (fun pool _ => hkept.fresh pool _ algo) h _
      · exact h

theorem arwsUpstreamAddNode (poolName host : Bytes) (port weight : Int) {isBackup : Int}
    (hflag : kind isBackup) :
    ∀ pool ∈ (arwsUpstreamAddNode pools poolName host port weight isBackup).1, P pool := by
  have hadd : ∀ pool : ArwsUpstreamPool, P pool → P (addNodeIn pool host port weight isBackup).1 :=
    fun _ hpool => hkept.addNode host port weight hflag hpool
  have hcreate := hkept.createPool h poolName .weightedRoundRobin
  rw [Upstream.arwsUpstreamAddNode]
  split
  · exact h
  · split
    · exact withPool h hadd poolName
    · simp only
      split
      · exact hcreate
      · exact withPool hcreate hadd poolName

theorem arwsUpstreamSelect {poolName clientIp : Bytes} {pools' : List ArwsUpstreamPool}
    {selected : Option (Nat × Nat)}
    (hselect : Upstream.arwsUpstreamSelect pools poolName clientIp = some (pools', selected)) :
    ∀ pool ∈ pools', P pool := by
  cases hpool : namedPool pools poolName with
  | none =>
    rw [arwsUpstreamSelect_of_no_pool hpool] at hselect
    cases hselect
    exact h
  | some pool =>
    obtain ⟨p, hp, hget, he⟩ := arwsUpstreamSelect_of_namedPool hpool clientIp
    rw [he] at hselect
    obtain ⟨⟨pool', found⟩, hsel, heq⟩ := Option.map_eq_some_iff.1 hselect
    cases heq
    intro q hq
    rcases List.mem_or_eq_of_mem_set hq with hq | rfl
    · exact h q hq
    · exact hkept.select hsel (h pool (List.mem_of_getElem? hget))

/-- **A call that sets no other flag keeps it in every pool.** -/
theorem step {call : UpstreamCall} {pools' : List ArwsUpstreamPool}
    (hcall : SetsFlag kind pools call) (hs : upstreams.step pools call = some pools') :
    ∀ pool ∈ pools', P pool := by
  cases call with
  | createPool name algo =>
    cases hs
    exact hkept.createPool h name algo
  | setHealthParams poolName fallThresh riseThresh =>
    cases hs
    rw [arwsUpstreamSetHealthParams]
    split
    · exact h
    · exact forall_mem_modify (fun _ hpool => hkept.params _ _ hpool) h _
  | addNode poolName host port weight isBackup =>
    cases hs
    exact hkept.arwsUpstreamAddNode h poolName host port weight hcall
  | removeNode poolName host port =>
    cases hs
    exact withPool h (fun _ hpool => hkept.removeNode host port hpool) poolName
  | setNodeDrain poolName host port drain =>
    cases hs
    exact withPool h (fun _ hpool => hkept.setNodeDrain host port drain hpool) poolName
  | healthCheck poolName host port now alive =>
    cases hs
    exact withPool h (fun _ hpool => hkept.probe host port now alive hpool) poolName
  | release poolName node statusCode =>
    cases hs
    unfold arwsUpstreamRelease
    split
    · exact forall_mem_modify (fun _ hpool => hkept.release _ _ statusCode hpool) h _
    · exact h
  | select poolName clientIp =>
    obtain ⟨r, hr, rfl⟩ := Option.map_eq_some_iff.1 hs
    exact hkept.arwsUpstreamSelect h hr

omit h in
/-- **So it holds of every pool in a run that sets no other flag.** -/
theorem of_reach (h : upstreams.ReachUnder (SetsFlag kind) pools) : ∀ pool ∈ pools, P pool := by
  refine h.invariant (I := fun pools => ∀ pool ∈ pools, P pool) ?_ ?_
  · rintro pools rfl pool hpool
    rw [List.eq_of_mem_replicate hpool]
    exact hkept.unused
  · intro pools call pools' hpools hcall hs
    exact hkept.step hpools hcall hs

end KeptByCalls

namespace KeptInPool

variable {kind : Int → Prop} {P : ArwsUpstreamPool → Prop} {pools : List ArwsUpstreamPool}

/-- A selection leaves the nodes standing. -/
theorem keptByCalls (hkept : KeptInPool kind P) : KeptByCalls kind P where
  toKeptByUpdates := hkept.toKeptByUpdates
  select hselect := hkept.stands (selectFrom_stands hselect)

theorem of_reach (hkept : KeptInPool kind P) (h : upstreams.ReachUnder (SetsFlag kind) pools) :
    ∀ pool ∈ pools, P pool := hkept.keptByCalls.of_reach h

end KeptInPool

theorem hasFlags_kept (kind : Int → Prop) : KeptInPool kind (·.HasFlags kind) where
  unused := ⟨Int.le_refl _, fun n hn => by cases hn⟩
  create _ h := ⟨h.rrIndex, h.flags⟩
  fresh _ _ _ := ⟨Int.le_refl _, fun n hn => by cases hn⟩
  params _ _ h := ⟨h.rrIndex, h.flags⟩
  addNode host port weight _ hflag h := h.addNodeIn host port weight hflag
  removeNode host port h := h.removeNodeIn host port
  setNodeDrain host port drain h := h.setNodeDrainIn host port drain
  probe host port now alive h := h.probeIn host port now alive
  release named i statusCode h := h.releaseIn named i statusCode
  stands hstands h := h.stands hstands

/-- A run of any calls sets flags of any kind. -/
theorem reachUnder_setsFlag {pools : List ArwsUpstreamPool} (h : upstreams.Reach pools) :
    upstreams.ReachUnder (SetsFlag fun _ => True) pools := by
  refine h.mono fun pools call _ => ?_
  unfold SetsFlag
  split <;> trivial

theorem mem_of_namedPool {pools : List ArwsUpstreamPool} {poolName : Bytes} {pool : ArwsUpstreamPool}
    (h : namedPool pools poolName = some pool) : pool ∈ pools := by
  obtain ⟨p, -, hget⟩ := Option.bind_eq_some_iff.1 h
  exact List.mem_of_getElem? hget

/-- **In every reachable state, for every pool and client, the selection is right exactly if, where a
node is available, one whose flag is 0 or 1 is**, as long as the cursor of a round robin is below
`INT_MAX`; and so it is right in every run that sets no other flag. -/
theorem selectsRight_of_reach {pools : List ArwsUpstreamPool} (h : upstreams.Reach pools)
    (poolName clientIp : Bytes) (hcursor : CursorBelow pools poolName) :
    (SelectsRight pools poolName clientIp ↔
      ((∃ n ∈ poolNodes pools poolName, n.available = true) →
        ∃ n ∈ poolNodes pools poolName, n.available = true ∧ FlagKnown n.isBackup)) ∧
    (upstreams.ReachUnder (SetsFlag FlagKnown) pools → SelectsRight pools poolName clientIp) := by
  have hany := (hasFlags_kept _).of_reach (reachUnder_setsFlag h)
  have hiff := selectsRight_iff (fun pool hpool => (hany pool (mem_of_namedPool hpool)).rrIndex)
    hcursor clientIp
  refine ⟨hiff, fun hknown => hiff.2 ?_⟩
  rintro ⟨n, hn, havail⟩
  refine ⟨n, hn, havail, ?_⟩
  cases hpool : namedPool pools poolName with
  | none =>
    rw [poolNodes, hpool] at hn
    cases hn
  | some pool =>
    rw [poolNodes, hpool] at hn
    exact ((hasFlags_kept _).of_reach hknown pool (mem_of_namedPool hpool)).flags n hn

/-- The pool of the name is not selected from by round robin. -/
private theorem cursorBelow_of_algo {pools : List ArwsUpstreamPool} {poolName : Bytes} {algo : ArwsLbAlgo}
    (h : (namedPool pools poolName).map (·.algo) = some algo) (hne : algo ≠ .roundRobin) :
    CursorBelow pools poolName := by
  intro pool hpool halgo
  rw [hpool, Option.map_some, Option.some_inj] at h
  exact absurd (h.symm.trans halgo) hne

/-- A primary node and a backup are added. -/
theorem selectsRight_two_nodes : ∃ pools, upstreams.ReachUnder (SetsFlag FlagKnown) pools ∧
    (poolNodes pools (ascii "web")).length = 2 ∧
    SelectsRight pools (ascii "web") (ascii "10.0.0.1") := by
  obtain ⟨pools, hrun, hlen, halgo⟩ : ∃ pools,
      upstreams.runUnder (SetsFlag FlagKnown) arwsUpstreamInit
        [.addNode (ascii "web") (ascii "10.0.0.2") 80 1 0,
          .addNode (ascii "web") (ascii "10.0.0.3") 80 1 1] = some pools ∧
        (poolNodes pools (ascii "web")).length = 2 ∧
        (namedPool pools (ascii "web")).map (·.algo) = some .weightedRoundRobin := ⟨_, rfl, rfl, rfl⟩
  have hreach := Machine.reachUnder_of_runUnder (.start rfl) hrun
  have hright := selectsRight_of_reach (hreach.mono fun _ _ _ => trivial) (ascii "web")
    (ascii "10.0.0.1") (cursorBelow_of_algo halgo (by decide))
  exact ⟨pools, hreach, hlen, hright.2 hreach⟩

/-- **A backup with another flag is never selected**, though there is no other node. -/
theorem not_selectsRight : ¬ ∀ pools, upstreams.Reach pools → ∀ poolName clientIp,
    CursorBelow pools poolName → SelectsRight pools poolName clientIp := by
  intro h
  obtain ⟨pools, hrun, hnodes, halgo, hsel⟩ : ∃ pools,
      upstreams.runUnder (fun _ _ => True) arwsUpstreamInit
        [.addNode (ascii "web") (ascii "10.0.0.2") 80 1 2] = some pools ∧
        (poolNodes pools (ascii "web")).any (·.available) = true ∧
        (namedPool pools (ascii "web")).map (·.algo) = some .weightedRoundRobin ∧
        (arwsUpstreamSelect pools (ascii "web") (ascii "10.0.0.1")).map (·.2) = some none :=
    ⟨_, rfl, rfl, rfl, rfl⟩
  obtain ⟨pools', selected, hselect, hsome, -⟩ := h pools (Machine.reachUnder_of_runUnder (.start rfl) hrun)
    (ascii "web") (ascii "10.0.0.1") (cursorBelow_of_algo halgo (by decide))
  rw [hselect, Option.map_some, Option.some_inj] at hsel
  have hyes := hsome.2 (List.any_eq_true.1 hnodes)
  rw [show selected = none from hsel] at hyes
  cases hyes

end Upstream
end Arws

import Arws.Gateway.Control
import Arws.Library.LinkedList

/-!
# Removing the routes of a backend

`arws_remove_routes_by_backend` as it works on the nodes in memory: it unlinks them behind a trailing pointer
and frees them one by one.

* `removalTurn_removed`, `removalTurn_kept` — a turn of the inner loop.
* `removalLoop_eq` — a chain, for every number of turns that is enough.
* `bulkRemoval_filters` — the table: what is left is what a filter leaves, and each node that was removed was
  freed once.
* `holds_of_reach` — that a table in memory is chains that are apart holds in every run.
-/

set_option autoImplicit false

namespace Arws
namespace Gateway

open Router LinkedList

/-! ## The nodes in memory -/

/-- The nodes of `route_table` and the heads of its chains. -/
structure RouteMemory where
  heap : Heap ℕ ArwsRoute
  routeTable : Fin routeHashSize → Option ℕ

/-- What is assigned behind the trailing pointer, or to the head where there is none; nothing if the pointer
points to no node. -/
def RouteMemory.setNext (mem : RouteMemory) (i : Fin routeHashSize) (prev next : Option ℕ) :
    Option RouteMemory :=
  match prev with
  | some p => (mem.heap p).map fun node =>
      { mem with heap := Function.update mem.heap p (some ⟨node.value, next⟩) }
  | none => some { mem with routeTable := Function.update mem.routeTable i next }

/-- `ar_mem_free`; nothing if there is no node. -/
def RouteMemory.free (mem : RouteMemory) (p : ℕ) : Option RouteMemory :=
  (mem.heap p).map fun _ => { mem with heap := Function.update mem.heap p none }

/-- The variables of the loops, with the nodes that were freed, in this order. -/
structure Removal where
  mem : RouteMemory
  prev : Option ℕ
  current : Option ℕ
  removed : ℕ
  freed : List ℕ

/-- A turn of the inner loop; nothing if it looks for a node where there is none. -/
def removalTurn (backendId : Int) (i : Fin routeHashSize) (s : Removal) (current : ℕ) : Option Removal := do
  let node ← s.mem.heap current
  if node.value.backendId = backendId then do
    let linked ← s.mem.setNext i s.prev node.next
    let toFree ← linked.heap current
    let mem ← linked.free current
    some ⟨mem, s.prev, toFree.next, s.removed + 1, s.freed ++ [current]⟩
  else some { s with prev := some current, current := node.next }

/-- The inner loop, for a number of turns. -/
def removalLoop (backendId : Int) (i : Fin routeHashSize) : ℕ → Removal → Option Removal
  | 0, _ => none
  | turns + 1, s =>
    match s.current with
    | none => some s
    | some current => (removalTurn backendId i s current).bind (removalLoop backendId i turns)

/-- The loop over the chains. -/
def removalLoops (backendId : Int) (turns : ℕ) (chains : List (Fin routeHashSize)) (s : Removal) :
    Option Removal :=
  chains.foldlM (fun s i =>
    removalLoop backendId i turns { s with prev := none, current := s.mem.routeTable i }) s

/-- `arws_remove_routes_by_backend`, with so many turns for every chain. -/
def arwsRemoveRoutesByBackendIn (backendId : Int) (turns : ℕ) (mem : RouteMemory) : Option Removal :=
  removalLoops backendId turns (List.finRange routeHashSize) ⟨mem, none, none, 0, []⟩

/-! ## Chains -/

/-- The nodes of a chain that have a backend. -/
def removedFrom (backendId : Int) (l : List (ℕ × ArwsRoute)) : List (ℕ × ArwsRoute) :=
  l.filter fun e => e.2.backendId == backendId

/-- The nodes of a chain that do not. -/
def keptFrom (backendId : Int) (l : List (ℕ × ArwsRoute)) : List (ℕ × ArwsRoute) :=
  l.filter fun e => e.2.backendId != backendId

@[simp] theorem removedFrom_cons_of_eq {backendId : Int} {e : ℕ × ArwsRoute} (he : e.2.backendId = backendId)
    (l : List (ℕ × ArwsRoute)) : removedFrom backendId (e :: l) = e :: removedFrom backendId l :=
  List.filter_cons_of_pos (beq_iff_eq.2 he)

@[simp] theorem removedFrom_cons_of_ne {backendId : Int} {e : ℕ × ArwsRoute} (he : e.2.backendId ≠ backendId)
    (l : List (ℕ × ArwsRoute)) : removedFrom backendId (e :: l) = removedFrom backendId l :=
  List.filter_cons_of_neg fun h => he (beq_iff_eq.1 h)

@[simp] theorem keptFrom_cons_of_eq {backendId : Int} {e : ℕ × ArwsRoute} (he : e.2.backendId = backendId)
    (l : List (ℕ × ArwsRoute)) : keptFrom backendId (e :: l) = keptFrom backendId l :=
  List.filter_cons_of_neg fun h => bne_iff_ne.1 h he

@[simp] theorem keptFrom_cons_of_ne {backendId : Int} {e : ℕ × ArwsRoute} (he : e.2.backendId ≠ backendId)
    (l : List (ℕ × ArwsRoute)) : keptFrom backendId (e :: l) = e :: keptFrom backendId l :=
  List.filter_cons_of_pos (bne_iff_ne.2 he)

/-- The nodes of the chains, with their places. -/
structure HoldsChains (mem : RouteMemory) (entries : Fin routeHashSize → List (ℕ × ArwsRoute)) : Prop where
  chains : ∀ i, Segment mem.heap none (mem.routeTable i) (entries i)
  apart : ∀ i j, i ≠ j → ∀ e ∈ entries i, ∀ f ∈ entries j, e.1 ≠ f.1

/-- Nothing is allocated, and only these nodes and the head of this chain are changed. -/
structure ChainChanged (i : Fin routeHashSize) (places : List ℕ) (mem mem' : RouteMemory) : Prop where
  heads : ∀ j, j ≠ i → mem'.routeTable j = mem.routeTable j
  nodes : ∀ p, p ∉ places → mem'.heap p = mem.heap p
  free : ∀ p, mem.heap p = none → mem'.heap p = none

theorem ChainChanged.refl (i : Fin routeHashSize) (places : List ℕ) (mem : RouteMemory) :
    ChainChanged i places mem mem :=
  ⟨fun _ _ => rfl, fun _ _ => rfl, fun _ h => h⟩

theorem ChainChanged.trans {i : Fin routeHashSize} {places : List ℕ} {mem mem' mem'' : RouteMemory}
    (h : ChainChanged i places mem mem') (h' : ChainChanged i places mem' mem'') :
    ChainChanged i places mem mem'' where
  heads j hj := (h'.heads j hj).trans (h.heads j hj)
  nodes p hp := (h'.nodes p hp).trans (h.nodes p hp)
  free p hp := h'.free p (h.free p hp)

/-- Where the inner loop stands in a chain: behind the nodes it has kept. -/
structure Passing (i : Fin routeHashSize) (s : Removal) (kept rest : List (ℕ × ArwsRoute)) : Prop where
  before : Segment s.mem.heap s.current (s.mem.routeTable i) kept
  prev : s.prev = kept.getLast?.map (·.1)
  behind : Segment s.mem.heap none s.current rest
  nodup : ((kept ++ rest).map (·.1)).Nodup

variable {backendId : Int} {i : Fin routeHashSize} {s : Removal} {kept rest : List (ℕ × ArwsRoute)}
  {e : ℕ × ArwsRoute}

/-! ## A turn -/

/-- What follows the nodes that were kept is taken out of the chain. -/
theorem setNext_spec {mem : RouteMemory} {q : Option ℕ} (hseg : Segment mem.heap q (mem.routeTable i) kept)
    (hnodup : (kept.map (·.1)).Nodup) (next : Option ℕ) :
    ∃ mem', mem.setNext i (kept.getLast?.map (·.1)) next = some mem' ∧
      Segment mem'.heap next (mem'.routeTable i) kept ∧ ChainChanged i (kept.map (·.1)) mem mem' := by
  induction kept using List.reverseRecOn with
  | nil =>
    refine ⟨_, rfl, Function.update_self .., fun j hj => Function.update_of_ne hj .., ?_, ?_⟩
    · exact fun _ _ => rfl
    · exact fun _ h => h
  | append_singleton kept e _ =>
    obtain ⟨-, he⟩ := segment_concat.1 hseg
    refine ⟨{ mem with heap := Function.update mem.heap e.1 (some ⟨e.2, next⟩) }, ?_,
      hseg.setNext hnodup next, fun _ _ => rfl, fun p hp => ?_, fun p hp => ?_⟩
    · rw [List.getLast?_concat, Option.map_some, RouteMemory.setNext, he]
      rfl
    · refine Function.update_of_ne (fun hpe => hp ?_) ..
      rw [hpe]
      exact List.mem_map_of_mem List.mem_concat_self
    · refine (Function.update_of_ne (fun hpe => ?_) ..).trans hp
      rw [hpe, he] at hp
      cases hp

/-- **A turn at a node of the backend** unlinks it and frees it. -/
theorem removalTurn_removed (h : Passing i s kept (e :: rest)) (he : e.2.backendId = backendId) :
    ∃ s', removalTurn backendId i s e.1 = some s' ∧ Passing i s' kept rest ∧
      s'.removed = s.removed + 1 ∧ s'.freed = s.freed ++ [e.1] ∧ s'.mem.heap e.1 = none ∧
      ChainChanged i ((kept ++ e :: rest).map (·.1)) s.mem s'.mem := by
  obtain ⟨-, next, hnode, hrest⟩ := h.behind
  have hnodup := h.nodup
  rw [List.map_append, List.nodup_append, List.map_cons, List.nodup_cons] at hnodup
  obtain ⟨hkept, ⟨heRest, hrestNodup⟩, happart⟩ := hnodup
  have heKept : e.1 ∉ kept.map (·.1) := fun hmem => happart e.1 hmem e.1 List.mem_cons_self rfl
  obtain ⟨linked, hlink, hseg, hwithin⟩ := setNext_spec h.before hkept next
  have hstill : linked.heap e.1 = some ⟨e.2, next⟩ := (hwithin.nodes e.1 heKept).trans hnode
  have hother : ∀ l : List (ℕ × ArwsRoute), e.1 ∉ l.map (·.1) →
      ∀ f ∈ l, Function.update linked.heap e.1 none f.1 = linked.heap f.1 := by
    intro l hl f hf
    refine Function.update_of_ne (fun hfe => hl ?_) ..
    rw [← hfe]
    exact List.mem_map_of_mem hf
  refine ⟨⟨{ linked with heap := Function.update linked.heap e.1 none }, s.prev, next, s.removed + 1,
    s.freed ++ [e.1]⟩, ?_, ⟨?_, h.prev, ?_, ?_⟩, rfl, rfl, Function.update_self .., ?_, ?_, ?_⟩
  · rw [removalTurn, hnode, Option.bind_eq_bind, Option.bind_some, if_pos he, h.prev, hlink,
      Option.bind_eq_bind, Option.bind_some, hstill, Option.bind_some, RouteMemory.free, hstill]
    rfl
  · exact hseg.congr (hother kept heKept)
  · refine Segment.congr hrest fun f hf => (hother rest heRest f hf).trans (hwithin.nodes f.1 fun hmem => ?_)
    exact happart f.1 hmem f.1 (List.mem_cons_of_mem _ (List.mem_map_of_mem hf)) rfl
  · rw [List.map_append, List.nodup_append]
    exact ⟨hkept, hrestNodup, fun p hp q hq => happart p hp q (List.mem_cons_of_mem _ hq)⟩
  · exact hwithin.heads
  · intro p hp
    rw [List.map_append, List.mem_append, List.map_cons, List.mem_cons, not_or, not_or] at hp
    exact (Function.update_of_ne hp.2.1 ..).trans (hwithin.nodes p hp.1)
  · intro p hp
    by_cases hpe : p = e.1
    · exact hpe ▸ Function.update_self ..
    · exact (Function.update_of_ne hpe ..).trans (hwithin.free p hp)

/-- **A turn at another node** goes on behind it. -/
theorem removalTurn_kept (h : Passing i s kept (e :: rest)) (he : e.2.backendId ≠ backendId) :
    ∃ s', removalTurn backendId i s e.1 = some s' ∧ Passing i s' (kept ++ [e]) rest ∧
      s'.removed = s.removed ∧ s'.freed = s.freed ∧ s'.mem = s.mem := by
  obtain ⟨hcurrent, next, hnode, hrest⟩ := h.behind
  refine ⟨{ s with prev := some e.1, current := next }, ?_, ⟨?_, ?_, hrest, ?_⟩, rfl, rfl, rfl⟩
  · rw [removalTurn, hnode, Option.bind_eq_bind, Option.bind_some, if_neg he]
  · exact segment_concat.2 ⟨hcurrent ▸ h.before, hnode⟩
  · rw [List.getLast?_concat, Option.map_some]
  · rw [List.append_assoc]
    exact h.nodup

/-! ## A chain -/

/-- What the inner loop has done to the rest of its chain. -/
structure Unlinked (backendId : Int) (i : Fin routeHashSize) (kept rest : List (ℕ × ArwsRoute))
    (s s' : Removal) : Prop where
  chain : Segment s'.mem.heap none (s'.mem.routeTable i) (kept ++ keptFrom backendId rest)
  removed : s'.removed = s.removed + (removedFrom backendId rest).length
  freed : s'.freed = s.freed ++ (removedFrom backendId rest).map (·.1)
  gone : ∀ e ∈ removedFrom backendId rest, s'.mem.heap e.1 = none
  within : ChainChanged i ((kept ++ rest).map (·.1)) s.mem s'.mem

/-- **A node that was removed** before the rest of the chain. -/
theorem Unlinked.of_removed {t s' : Removal} (h : Unlinked backendId i kept rest t s')
    (he : e.2.backendId = backendId) (hcount : t.removed = s.removed + 1)
    (hfreed : t.freed = s.freed ++ [e.1])
    (hgone : t.mem.heap e.1 = none) (hwithin : ChainChanged i ((kept ++ e :: rest).map (·.1)) s.mem t.mem) :
    Unlinked backendId i kept (e :: rest) s s' where
  chain := by
    rw [keptFrom_cons_of_eq he]
    exact h.chain
  removed := by
    rw [h.removed, hcount, removedFrom_cons_of_eq he, List.length_cons]
    omega
  freed := by
    rw [h.freed, hfreed, removedFrom_cons_of_eq he, List.map_cons, List.append_assoc, List.singleton_append]
  gone := by
    rw [removedFrom_cons_of_eq he]
    exact List.forall_mem_cons.2 ⟨h.within.free e.1 hgone, h.gone⟩
  within := by
    refine hwithin.trans ⟨h.within.heads, fun p hp => h.within.nodes p ?_, h.within.free⟩
    simp only [List.map_append, List.map_cons, List.mem_append, List.mem_cons, not_or] at hp ⊢
    exact ⟨hp.1, hp.2.2⟩

/-- **A node that was kept** before the rest of the chain. -/
theorem Unlinked.of_kept {t s' : Removal} (h : Unlinked backendId i (kept ++ [e]) rest t s')
    (he : e.2.backendId ≠ backendId) (hcount : t.removed = s.removed) (hfreed : t.freed = s.freed)
    (hmem : t.mem = s.mem) : Unlinked backendId i kept (e :: rest) s s' where
  chain := by
    rw [keptFrom_cons_of_ne he, ← List.singleton_append, ← List.append_assoc]
    exact h.chain
  removed := by
    rw [h.removed, hcount, removedFrom_cons_of_ne he]
  freed := by
    rw [h.freed, hfreed, removedFrom_cons_of_ne he]
  gone := by
    rw [removedFrom_cons_of_ne he]
    exact h.gone
  within := by
    have hwithin := h.within
    rw [hmem, List.append_assoc] at hwithin
    exact hwithin

/-- **The inner loop** ends, and what it removes is what has the backend. -/
theorem removalLoop_eq (backendId : Int) (h : Passing i s kept rest) {turns : ℕ}
    (hturns : rest.length < turns) :
    ∃ s', removalLoop backendId i turns s = some s' ∧ Unlinked backendId i kept rest s s' := by
  induction rest generalizing s kept turns with
  | nil =>
    obtain ⟨turns, rfl⟩ := Nat.exists_eq_add_of_lt hturns
    have hend : s.current = none := h.behind
    refine ⟨s, ?_, ?_, rfl, (List.append_nil _).symm, fun e he => absurd he List.not_mem_nil,
      ChainChanged.refl ..⟩
    · rw [removalLoop, hend]
    · rw [← hend]
      exact (List.append_nil kept).symm ▸ h.before
  | cons e rest ih =>
    obtain ⟨turns, rfl⟩ : ∃ n, turns = n + 1 := ⟨turns - 1, by omega⟩
    have hcurrent : s.current = some e.1 := h.behind.1
    have hless : rest.length < turns := Nat.lt_of_succ_lt_succ hturns
    rw [removalLoop, hcurrent]
    simp only
    by_cases he : e.2.backendId = backendId
    · obtain ⟨t, hturn, hpassing, hcount, hfreed, hgone, hwithin⟩ := removalTurn_removed h he
      obtain ⟨s', hrun, hunlinked⟩ := ih hpassing hless
      refine ⟨s', ?_, hunlinked.of_removed he hcount hfreed hgone hwithin⟩
      rw [hturn, Option.bind_some, hrun]
    · obtain ⟨t, hturn, hpassing, hcount, hfreed, hmem⟩ := removalTurn_kept h he
      obtain ⟨s', hrun, hunlinked⟩ := ih hpassing hless
      refine ⟨s', ?_, hunlinked.of_kept he hcount hfreed hmem⟩
      rw [hturn, Option.bind_some, hrun]

/-- A loop that ended had turns enough. -/
theorem turns_of_removalLoop (h : Passing i s kept rest) {turns : ℕ} {s' : Removal}
    (hrun : removalLoop backendId i turns s = some s') : rest.length < turns := by
  induction rest generalizing s kept turns with
  | nil =>
    cases turns with
    | zero => cases hrun
    | succ turns => exact Nat.succ_pos turns
  | cons e rest ih =>
    cases turns with
    | zero => cases hrun
    | succ turns =>
      have hcurrent : s.current = some e.1 := h.behind.1
      rw [removalLoop, hcurrent] at hrun
      obtain ⟨t, hturn, hrun⟩ := Option.bind_eq_some_iff.1 hrun
      refine Nat.succ_lt_succ ?_
      by_cases he : e.2.backendId = backendId
      · obtain ⟨t', hturn', hpassing, -⟩ := removalTurn_removed h he
        obtain rfl := Option.some.inj (hturn.symm.trans hturn')
        exact ih hpassing hrun
      · obtain ⟨t', hturn', hpassing, -⟩ := removalTurn_kept h he
        obtain rfl := Option.some.inj (hturn.symm.trans hturn')
        exact ih hpassing hrun

/-! ## The table -/

variable {entries : Fin routeHashSize → List (ℕ × ArwsRoute)} {turns : ℕ}

theorem HoldsChains.passing (h : HoldsChains s.mem entries) (i : Fin routeHashSize) :
    Passing i { s with prev := none, current := s.mem.routeTable i } [] (entries i) :=
  ⟨rfl, rfl, h.chains i, nodup_of_chain (h.chains i)⟩

/-- **A chain of a table** is filtered, and the others stay as they are. -/
theorem removalLoop_holds (backendId : Int) (h : HoldsChains s.mem entries)
    (hturns : (entries i).length < turns) :
    ∃ s', removalLoop backendId i turns { s with prev := none, current := s.mem.routeTable i } = some s' ∧
      Unlinked backendId i [] (entries i) s s' ∧
      HoldsChains s'.mem (Function.update entries i (keptFrom backendId (entries i))) := by
  obtain ⟨s', hrun, hunlinked⟩ := removalLoop_eq backendId (h.passing i) hturns
  have hchain : Segment s'.mem.heap none (s'.mem.routeTable i) (keptFrom backendId (entries i)) :=
    hunlinked.chain
  have hsub : ∀ j, ∀ e ∈ Function.update entries i (keptFrom backendId (entries i)) j, e ∈ entries j := by
    intro j e he
    by_cases hj : j = i
    · subst hj
      rw [Function.update_self] at he
      exact (List.mem_filter.1 he).1
    · rwa [Function.update_of_ne hj] at he
  refine ⟨s', hrun, ⟨hchain, hunlinked.removed, hunlinked.freed, hunlinked.gone, hunlinked.within⟩, ?_, ?_⟩
  · intro j
    by_cases hj : j = i
    · subst hj
      rw [Function.update_self]
      exact hchain
    · rw [Function.update_of_ne hj, hunlinked.within.heads j hj]
      refine (h.chains j).congr fun e he => hunlinked.within.nodes e.1 fun hmem => ?_
      obtain ⟨f, hf, hplace⟩ := List.mem_map.1 hmem
      exact h.apart j i hj e he f hf hplace.symm
  · exact fun j k hjk e he f hf => h.apart j k hjk e (hsub j e he) f (hsub k f hf)

/-- What the loops have done to these chains. -/
structure Swept (backendId : Int) (entries : Fin routeHashSize → List (ℕ × ArwsRoute))
    (chains : List (Fin routeHashSize)) (s s' : Removal) : Prop where
  holds : HoldsChains s'.mem fun i => if i ∈ chains then keptFrom backendId (entries i) else entries i
  removed : s'.removed = s.removed + (chains.flatMap fun i => removedFrom backendId (entries i)).length
  freed : s'.freed = s.freed ++ (chains.flatMap fun i => removedFrom backendId (entries i)).map (·.1)
  gone : ∀ i ∈ chains, ∀ e ∈ removedFrom backendId (entries i), s'.mem.heap e.1 = none
  free : ∀ p, s.mem.heap p = none → s'.mem.heap p = none
  elsewhere : ∀ p, (∀ i ∈ chains, p ∉ (entries i).map (·.1)) → s'.mem.heap p = s.mem.heap p

/-- **A chain** before the other chains of the table. -/
theorem Swept.cons {chains : List (Fin routeHashSize)} {t s' : Removal} (hi : i ∉ chains)
    (hunlinked : Unlinked backendId i [] (entries i) s t)
    (h : Swept backendId (Function.update entries i (keptFrom backendId (entries i))) chains t s') :
    Swept backendId entries (i :: chains) s s' := by
  have hother : ∀ j ∈ chains, Function.update entries i (keptFrom backendId (entries i)) j = entries j :=
    fun j hj => Function.update_of_ne (fun hji : j = i => hi (hji ▸ hj)) ..
  have hflat : (chains.flatMap fun j =>
      removedFrom backendId (Function.update entries i (keptFrom backendId (entries i)) j)) =
      chains.flatMap fun j => removedFrom backendId (entries j) :=
    List.flatMap_congr fun j hj => by rw [hother j hj]
  have hleft : (fun j => if j ∈ i :: chains then keptFrom backendId (entries j) else entries j) =
      fun j => if j ∈ chains then
        keptFrom backendId (Function.update entries i (keptFrom backendId (entries i)) j)
      else Function.update entries i (keptFrom backendId (entries i)) j := by
    funext j
    by_cases hj : j = i
    · rw [hj, if_pos List.mem_cons_self, if_neg hi, Function.update_self]
    · rw [Function.update_of_ne hj]
      simp only [List.mem_cons, hj, false_or]
  refine ⟨?_, ?_, ?_, ?_, ?_, ?_⟩
  · rw [hleft]
    exact h.holds
  · rw [h.removed, hunlinked.removed, hflat, List.flatMap_cons, List.length_append, Nat.add_assoc]
  · rw [h.freed, hunlinked.freed, hflat, List.flatMap_cons, List.map_append, List.append_assoc]
  · refine List.forall_mem_cons.2 ⟨fun e he => h.free e.1 (hunlinked.gone e he), fun j hj e he => ?_⟩
    exact h.gone j hj e (by rwa [hother j hj])
  · exact fun p hp => h.free p (hunlinked.within.free p hp)
  · intro p hp
    obtain ⟨hpi, hpchains⟩ := List.forall_mem_cons.1 hp
    refine (h.elsewhere p fun j hj => ?_).trans (hunlinked.within.nodes p hpi)
    rw [hother j hj]
    exact hpchains j hj

/-- **The loop over the chains**. -/
theorem removalLoops_eq (backendId : Int) {chains : List (Fin routeHashSize)} (hnodup : chains.Nodup)
    (h : HoldsChains s.mem entries) (hturns : ∀ i, (entries i).length < turns) :
    ∃ s', removalLoops backendId turns chains s = some s' ∧ Swept backendId entries chains s s' := by
  induction chains generalizing s entries with
  | nil =>
    refine ⟨s, rfl, ?_, rfl, (List.append_nil _).symm, ?_, fun _ hp => hp, fun _ _ => rfl⟩
    · simpa only [List.not_mem_nil, if_false] using h
    · exact fun i hi => absurd hi List.not_mem_nil
  | cons i chains ih =>
    obtain ⟨hi, hchains⟩ := List.nodup_cons.1 hnodup
    obtain ⟨t, hrun, hunlinked, hholds⟩ := removalLoop_holds backendId h (hturns i)
    have hshort : ∀ j, (Function.update entries i (keptFrom backendId (entries i)) j).length < turns := by
      intro j
      by_cases hj : j = i
      · rw [hj, Function.update_self]
        exact Nat.lt_of_le_of_lt (List.length_filter_le ..) (hturns i)
      · rw [Function.update_of_ne hj]
        exact hturns j
    obtain ⟨s', hrest, hswept⟩ := ih hchains hholds hshort
    refine ⟨s', ?_, hswept.cons hi hunlinked⟩
    rw [removalLoops, List.foldlM_cons, hrun, Option.bind_eq_bind, Option.bind_some]
    exact hrest

/-- Loops that ended had turns enough for every chain. -/
theorem turns_of_removalLoops {chains : List (Fin routeHashSize)} (hnodup : chains.Nodup)
    (h : HoldsChains s.mem entries) {s' : Removal} (hrun : removalLoops backendId turns chains s = some s') :
    ∀ i ∈ chains, (entries i).length < turns := by
  induction chains generalizing s entries with
  | nil => exact fun i hi => absurd hi List.not_mem_nil
  | cons i chains ih =>
    obtain ⟨hi, hchains⟩ := List.nodup_cons.1 hnodup
    rw [removalLoops, List.foldlM_cons] at hrun
    obtain ⟨t, hfirst, hrun⟩ := Option.bind_eq_some_iff.1 hrun
    have henough := turns_of_removalLoop (h.passing i) hfirst
    obtain ⟨t', hfirst', -, hholds⟩ := removalLoop_holds backendId h henough
    obtain rfl := Option.some.inj (hfirst.symm.trans hfirst')
    refine List.forall_mem_cons.2 ⟨henough, fun j hj => ?_⟩
    have hlater := ih hchains hholds hrun j hj
    rwa [Function.update_of_ne (fun hji : j = i => hi (hji ▸ hj))] at hlater

/-- The routes of the nodes, without their places. -/
def routeLists (entries : Fin routeHashSize → List (ℕ × ArwsRoute)) : RouteTable :=
  fun i => (entries i).map (·.2)

/-- The nodes of the table that have a backend, chain by chain. -/
def removedNodes (backendId : Int) (entries : Fin routeHashSize → List (ℕ × ArwsRoute)) :
    List (ℕ × ArwsRoute) :=
  (List.finRange routeHashSize).flatMap fun i => removedFrom backendId (entries i)

/-- **Bulk removal**, from the nodes of a table and what the function has returned and left behind. -/
structure BulkRemoved (backendId : Int) (entries : Fin routeHashSize → List (ℕ × ArwsRoute))
    (mem : RouteMemory) (s : Removal) : Prop where
  /-- Each chain is filtered. -/
  filtered : HoldsChains s.mem fun i => (entries i).filter fun e => e.2.backendId != backendId
  /-- The number that is returned. -/
  removed : s.removed = (removedNodes backendId entries).length
  /-- What was removed was freed, -/
  freed : s.freed = (removedNodes backendId entries).map (·.1)
  /-- each node once, -/
  once : s.freed.Nodup
  /-- and it is gone. -/
  gone : ∀ p ∈ s.freed, s.mem.heap p = none
  /-- Nothing else in the memory is changed. -/
  elsewhere : ∀ p, (∀ i, p ∉ (entries i).map (·.1)) → s.mem.heap p = mem.heap p
  /-- The table of routes is that of the table as a list of chains. -/
  refines : (routeLists fun i => (entries i).filter fun e => e.2.backendId != backendId) =
      (arwsRemoveRoutesByBackend (routeLists entries) backendId).1 ∧
    s.removed = (arwsRemoveRoutesByBackend (routeLists entries) backendId).2

theorem nodup_removedNodes {mem : RouteMemory} (h : HoldsChains mem entries) :
    ((removedNodes backendId entries).map (·.1)).Nodup := by
  rw [removedNodes, List.map_flatMap, List.nodup_flatMap]
  refine ⟨fun i _ => ?_, ?_⟩
  · exact (nodup_of_chain (h.chains i)).sublist (List.filter_sublist.map _)
  · refine (List.nodup_finRange _).imp fun {i j} hij p hp hq => ?_
    obtain ⟨e, he, rfl⟩ := List.mem_map.1 hp
    obtain ⟨f, hf, hplace⟩ := List.mem_map.1 hq
    exact h.apart i j hij e (List.mem_filter.1 he).1 f (List.mem_filter.1 hf).1 hplace.symm

theorem routeLists_filter (backendId : Int) (entries : Fin routeHashSize → List (ℕ × ArwsRoute)) :
    (routeLists fun i => (entries i).filter fun e => e.2.backendId != backendId) =
      (arwsRemoveRoutesByBackend (routeLists entries) backendId).1 := by
  funext i
  simp only [routeLists, arwsRemoveRoutesByBackend, List.filter_map]
  rfl

theorem length_removedNodes (backendId : Int) (entries : Fin routeHashSize → List (ℕ × ArwsRoute)) :
    (removedNodes backendId entries).length =
      (arwsRemoveRoutesByBackend (routeLists entries) backendId).2 := by
  rw [removedNodes, arwsRemoveRoutesByBackend, RouteTable.routes, List.length_flatMap, List.countP_flatMap]
  congr 1
  refine List.map_congr_left fun i _ => ?_
  rw [removedFrom, ← List.countP_eq_length_filter, Function.comp_apply, routeLists, List.countP_map]
  rfl

/-- **Bulk removal is a filter**: with enough turns for every chain the function ends, and what it leaves,
frees and returns is right. -/
theorem bulkRemoval_filters (backendId : Int) {mem : RouteMemory}
    {entries : Fin routeHashSize → List (ℕ × ArwsRoute)} (h : HoldsChains mem entries) {turns : ℕ}
    (hturns : ∀ i, (entries i).length < turns) :
    ∃ s, arwsRemoveRoutesByBackendIn backendId turns mem = some s ∧ BulkRemoved backendId entries mem s := by
  obtain ⟨s, hrun, hswept⟩ :=
    removalLoops_eq (s := ⟨mem, none, none, 0, []⟩) backendId (List.nodup_finRange _) h hturns
  have hremoved : s.removed = (removedNodes backendId entries).length := by
    rw [hswept.removed, Nat.zero_add, removedNodes]
  have hfreed : s.freed = (removedNodes backendId entries).map (·.1) := by
    rw [hswept.freed, List.nil_append, removedNodes]
  refine ⟨s, hrun, ?_, hremoved, hfreed, ?_, ?_, ?_, routeLists_filter backendId entries, ?_⟩
  · have hholds := hswept.holds
    simp only [List.mem_finRange, if_true] at hholds
    exact hholds
  · rw [hfreed]
    exact nodup_removedNodes h
  · intro p hp
    rw [hfreed] at hp
    obtain ⟨e, he, rfl⟩ := List.mem_map.1 hp
    obtain ⟨i, hi, hmem⟩ := List.mem_flatMap.1 he
    exact hswept.gone i hi e hmem
  · exact fun p hp => hswept.elsewhere p fun i _ => hp i
  · rw [hremoved, length_removedNodes]

/-! ## Tables in memory -/

/-- No routes. -/
def RouteMemory.empty : RouteMemory := ⟨fun _ => none, fun _ => none⟩

/-- A new node at the head of a chain. -/
def RouteMemory.insert (mem : RouteMemory) (idx : Fin routeHashSize) (node : ℕ) (route : ArwsRoute) :
    RouteMemory :=
  ⟨Function.update mem.heap node (some ⟨route, mem.routeTable idx⟩),
    Function.update mem.routeTable idx (some node)⟩

/-- The calls that change a table: a route is added in memory that was free, or those of a backend are
removed. -/
inductive TableCall where
  | add (idx : Fin routeHashSize) (node : ℕ) (route : ArwsRoute)
  | remove (backendId : Int) (turns : ℕ)

/-- A route table. -/
def routeMachine : Machine RouteMemory TableCall where
  init mem := mem = RouteMemory.empty
  step mem
    | .add idx node route => if mem.heap node = none then some (mem.insert idx node route) else none
    | .remove backendId turns => (arwsRemoveRoutesByBackendIn backendId turns mem).map (·.mem)

theorem holdsChains_empty : HoldsChains RouteMemory.empty fun _ => [] :=
  ⟨fun _ => rfl, fun _ _ _ _ he => absurd he List.not_mem_nil⟩

/-- **A node that is added** is the first one of its chain. -/
theorem HoldsChains.insert {mem : RouteMemory} (h : HoldsChains mem entries) {node : ℕ}
    (hfree : mem.heap node = none) (idx : Fin routeHashSize) (route : ArwsRoute) :
    HoldsChains (mem.insert idx node route)
      (Function.update entries idx ((node, route) :: entries idx)) := by
  have hother : ∀ i, ∀ e ∈ entries i, e.1 ≠ node := by
    rintro i e he rfl
    obtain ⟨next, hnode⟩ := (h.chains i).node he
    rw [hfree] at hnode
    cases hnode
  have hchain : ∀ i, Segment (mem.insert idx node route).heap none (mem.routeTable i) (entries i) :=
    fun i => (h.chains i).congr fun e he => Function.update_of_ne (hother i e he) ..
  constructor
  · intro i
    by_cases hi : i = idx
    · subst hi
      rw [Function.update_self]
      exact ⟨Function.update_self .., mem.routeTable i, Function.update_self .., hchain i⟩
    · rw [Function.update_of_ne hi]
      have hhead : (mem.insert idx node route).routeTable i = mem.routeTable i := Function.update_of_ne hi ..
      rw [hhead]
      exact hchain i
  · have hcases : ∀ i, ∀ e ∈ Function.update entries idx ((node, route) :: entries idx) i,
        e.1 = node ∧ i = idx ∨ e ∈ entries i := by
      intro i e he
      by_cases hi : i = idx
      · subst hi
        rw [Function.update_self, List.mem_cons] at he
        exact he.imp_left fun hnew => ⟨congrArg (·.1) hnew, rfl⟩
      · rw [Function.update_of_ne hi] at he
        exact Or.inr he
    intro i j hij e he f hf
    obtain ⟨hnew, hi⟩ | he := hcases i e he
    · obtain ⟨-, hj⟩ | hf := hcases j f hf
      · exact absurd (hi.trans hj.symm) hij
      · exact hnew ▸ (hother j f hf).symm
    · obtain ⟨hnew, -⟩ | hf := hcases j f hf
      · exact hnew ▸ hother i e he
      · exact h.apart i j hij e he f hf

/-- **Tables are chains that are apart**, in every run. -/
theorem holds_of_reach {mem : RouteMemory} (h : routeMachine.Reach mem) :
    ∃ entries, HoldsChains mem entries := by
  have hinit : ∀ s, routeMachine.init s → ∃ entries, HoldsChains s entries :=
    fun s hs => ⟨fun _ => [], (show s = RouteMemory.empty from hs) ▸ holdsChains_empty⟩
  refine h.invariant hinit ?_
  rintro s a t ⟨entries, hholds⟩ - hstep
  cases a with
  | add idx node route =>
    obtain ⟨hfree, hstep⟩ := Option.ite_none_right_eq_some.1 hstep
    obtain rfl := Option.some.inj hstep
    exact ⟨_, hholds.insert hfree idx route⟩
  | remove backendId turns =>
    obtain ⟨removal, hrun, rfl⟩ := Option.map_eq_some_iff.1 hstep
    have hturns : ∀ i, (entries i).length < turns := fun i =>
      turns_of_removalLoops (s := ⟨s, none, none, 0, []⟩) (List.nodup_finRange _) hholds hrun i
        (List.mem_finRange i)
    obtain ⟨removal', hrun', hswept⟩ :=
      removalLoops_eq (s := ⟨s, none, none, 0, []⟩) backendId (List.nodup_finRange _) hholds hturns
    obtain rfl := Option.some.inj (hrun.symm.trans hrun')
    exact ⟨_, hswept.holds⟩

theorem routeLists_insert (entries : Fin routeHashSize → List (ℕ × ArwsRoute)) (idx : Fin routeHashSize)
    (node : ℕ) (route : ArwsRoute) :
    routeLists (Function.update entries idx ((node, route) :: entries idx)) =
      (routeLists entries).insert idx route := by
  funext i
  by_cases hi : i = idx
  · subst hi
    rw [routeLists, RouteTable.insert, Function.update_self, Function.update_self]
    rfl
  · rw [routeLists, RouteTable.insert, Function.update_of_ne hi, Function.update_of_ne hi]
    rfl

/-- A chain of two nodes. -/
private def twoNodes : RouteMemory :=
  (RouteMemory.empty.insert 0 0 { ArwsRoute.zero with backendId := 2 }).insert 0 1
    { ArwsRoute.zero with backendId := 1 }

private def twoEntries (i : Fin routeHashSize) : List (ℕ × ArwsRoute) :=
  if i = 0 then [(1, { ArwsRoute.zero with backendId := 1 }), (0, { ArwsRoute.zero with backendId := 2 })]
  else []

/-- The first of two nodes is removed. -/
theorem bulkRemoval_filters_two :
    ∃ s, arwsRemoveRoutesByBackendIn 1 3 twoNodes = some s ∧ BulkRemoved 1 twoEntries twoNodes s := by
  refine bulkRemoval_filters 1 ⟨fun i => ?_, fun i j hij e he f hf => ?_⟩ fun i => ?_
  · rw [twoEntries]
    split_ifs with hi
    · subst hi
      exact ⟨rfl, some 0, rfl, rfl, none, rfl, rfl⟩
    · exact (Function.update_of_ne hi ..).trans (Function.update_of_ne hi ..)
  · rw [twoEntries] at he hf
    split_ifs at he hf with hi hj
    · exact absurd (hi.trans hj.symm) hij
    · exact absurd hf List.not_mem_nil
    · exact absurd he List.not_mem_nil
    · exact absurd he List.not_mem_nil
  · rw [twoEntries]
    split_ifs <;> decide

end Gateway
end Arws

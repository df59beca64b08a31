import Mathlib.Data.List.Nodup
import Mathlib.Logic.Function.Basic

/-!
# Linked lists in memory

Nodes at places, each with a value and a pointer to the next one.  A pointer is a place or none, and a place
without a node is one that was freed or never allocated.

* `Segment` — the nodes that are passed from one pointer until another one is reached.
* `Segment.congr` — nothing else matters to it.
* `Segment.setNext` — behind its last node a segment may be made to go on elsewhere.
* `nodup_of_chain` — a list that ends passes no place twice.
-/

set_option autoImplicit false

namespace LinkedList

/-- A node of a list. -/
structure Node (A α : Type*) where
  value : α
  next : Option A

/-- The nodes at their places. -/
abbrev Heap (A α : Type*) := A → Option (Node A α)

variable {A α : Type*} {h h' : Heap A α} {p q r : Option A} {l m : List (A × α)} {e : A × α}

/-- From `p` on these places are passed, with these values in their nodes, until the pointer is `q`. -/
def Segment (h : Heap A α) (q : Option A) : Option A → List (A × α) → Prop
  | p, [] => p = q
  | p, e :: l => p = some e.1 ∧ ∃ next, h e.1 = some ⟨e.2, next⟩ ∧ Segment h q next l

theorem segment_append : Segment h q p (l ++ m) ↔ ∃ r, Segment h r p l ∧ Segment h q r m := by
  induction l generalizing p with
  | nil => exact ⟨fun hm => ⟨p, rfl, hm⟩, fun ⟨r, hr, hm⟩ => hr ▸ hm⟩
  | cons e l ih =>
    constructor
    · rintro ⟨hp, next, he, hrest⟩
      obtain ⟨r, hl, hm⟩ := ih.1 hrest
      exact ⟨r, ⟨hp, next, he, hl⟩, hm⟩
    · rintro ⟨r, ⟨hp, next, he, hl⟩, hm⟩
      exact ⟨hp, next, he, ih.2 ⟨r, hl, hm⟩⟩

theorem segment_concat :
    Segment h q p (l ++ [e]) ↔ Segment h (some e.1) p l ∧ h e.1 = some ⟨e.2, q⟩ := by
  rw [segment_append]
  constructor
  · rintro ⟨r, hl, rfl, next, he, rfl⟩
    exact ⟨hl, he⟩
  · rintro ⟨hl, he⟩
    exact ⟨some e.1, hl, rfl, q, he, rfl⟩

/-- A segment is a matter of its own places. -/
theorem Segment.congr (hseg : Segment h q p l) (hsame : ∀ e ∈ l, h' e.1 = h e.1) : Segment h' q p l := by
  induction l generalizing p with
  | nil => exact hseg
  | cons e l ih =>
    obtain ⟨hp, next, he, hrest⟩ := hseg
    obtain ⟨hhead, htail⟩ := List.forall_mem_cons.1 hsame
    exact ⟨hp, next, hhead.trans he, ih hrest htail⟩

/-- What is passed is there. -/
theorem Segment.node (hseg : Segment h q p l) (he : e ∈ l) : ∃ next, h e.1 = some ⟨e.2, next⟩ := by
  obtain ⟨before, behind, rfl⟩ := List.append_of_mem he
  obtain ⟨r, -, -, next, hnode, -⟩ := segment_append.1 hseg
  exact ⟨next, hnode⟩

/-- From one pointer there is one list. -/
theorem chain_unique (hl : Segment h none p l) (hm : Segment h none p m) : l = m := by
  induction l generalizing p m with
  | nil =>
    cases m with
    | nil => rfl
    | cons f m => exact absurd (hl.symm.trans hm.1) (Option.some_ne_none f.1).symm
  | cons e l ih =>
    obtain ⟨rfl, next, he, hrest⟩ := hl
    cases m with
    | nil => exact absurd hm (Option.some_ne_none e.1)
    | cons f m =>
      obtain ⟨hp, next', hf, hrest'⟩ := hm
      have hplace : e.1 = f.1 := Option.some.inj hp
      rw [← hplace, he, Option.some.injEq, Node.mk.injEq] at hf
      obtain ⟨hvalue, rfl⟩ := hf
      rw [Prod.ext hplace hvalue, ih hrest hrest']

/-- **A list that ends passes no place twice**. -/
theorem nodup_of_chain (hseg : Segment h none p l) : (l.map (·.1)).Nodup := by
  induction l generalizing p with
  | nil => exact List.nodup_nil
  | cons e l ih =>
    obtain ⟨rfl, next, he, hrest⟩ := hseg
    rw [List.map_cons, List.nodup_cons]
    refine ⟨fun hmem => ?_, ih hrest⟩
    obtain ⟨f, hf, hplace⟩ := List.mem_map.1 hmem
    obtain ⟨before, behind, hsplit⟩ := List.append_of_mem hf
    -- the list from the second visit on would be the list from the first one on
    have hrest' := hrest
    rw [hsplit, segment_append] at hrest'
    obtain ⟨r, -, hagain⟩ := hrest'
    obtain rfl : r = some e.1 := hagain.1.trans (congrArg some hplace)
    have hwhole : Segment h none (some e.1) (e :: l) := ⟨rfl, next, he, hrest⟩
    have hlen := congrArg List.length (chain_unique hwhole hagain)
    rw [hsplit] at hlen
    simp only [List.length_cons, List.length_append] at hlen
    omega

variable [DecidableEq A]

/-- **The last node is made to point elsewhere**. -/
theorem Segment.setNext (hseg : Segment h q p (l ++ [e])) (hnodup : ((l ++ [e]).map (·.1)).Nodup)
    (r : Option A) : Segment (Function.update h e.1 (some ⟨e.2, r⟩)) r p (l ++ [e]) := by
  obtain ⟨hl, -⟩ := segment_concat.1 hseg
  rw [List.map_append, List.nodup_append] at hnodup
  refine segment_concat.2 ⟨hl.congr fun f hf => ?_, Function.update_self ..⟩
  exact Function.update_of_ne (hnodup.2.2 f.1 (List.mem_map_of_mem hf) e.1 (List.mem_singleton_self _)) ..

end LinkedList

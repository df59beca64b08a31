import Arws.Cache.Table
import Mathlib.Data.List.FinRange

/-!
# What the lock stripes cover

Each operation holds the one shard mutex its key hashes to, while all shards share one table.  Two
operations under different mutexes are apart only if they work on different entries: `touches`
is the entry an operation may read, free or overwrite, and `Apart` says that no operation on the
one key may touch an entry that one on the other key may touch.

Probing and eviction leave the stripe of the key, so this depends on the occupancy of the table.
`apart_iff` gives the exact condition on the state: the two keys must not run into the same free
slot (`MeetAtFree`), and a full table must hold both of them, or hold the one in another slot than
the one that has to make room for the other (`MeetAtVictim`).
-/

set_option autoImplicit false

namespace Arws
namespace Cache

open CString Probing

/-! ## The entry that makes room

In a full table `evict_one` empties the first expired entry or, if none has expired, the first of
the oldest ones. -/

/-- Every slot is in use. -/
def Full (c : Table) : Prop := ∀ slot, (c.cache slot).inUse = true

/-- The entry that has to make room in a full table. -/
def IsVictim (c : Table) (now : Nat) (slot : Slot) : Prop :=
  ((c.cache slot).expired now = true ∧ ∀ j, j < slot → (c.cache j).expired now = false) ∨
    ((∀ j, (c.cache j).expired now = false) ∧
      (∀ j, (c.cache slot).storedAt ≤ (c.cache j).storedAt) ∧
      ∀ j, j < slot → (c.cache slot).storedAt < (c.cache j).storedAt)

theorem IsVictim.not_before {c : Table} {now : Nat} {s t : Slot} (hs : IsVictim c now s)
    (ht : IsVictim c now t) : ¬ s < t := by
  intro h
  rcases hs with ⟨hs, _⟩ | ⟨hsn, hs, _⟩ <;> rcases ht with ⟨ht, htn⟩ | ⟨htn, _, ht⟩
  · rw [htn s h] at hs
    cases hs
  · rw [htn s] at hs
    cases hs
  · rw [hsn t] at ht
    cases ht
  · have hle := hs t
    have hlt := ht s h
    omega

/-- There is one victim at most. -/
theorem IsVictim.eq {c : Table} {now : Nat} {s t : Slot} (hs : IsVictim c now s)
    (ht : IsVictim c now t) : s = t :=
  le_antisymm (not_lt.1 (ht.not_before hs)) (not_lt.1 (hs.not_before ht))

/-- The scan stops at the first expired entry. -/
theorem evictScan_expired {c : Table} {now : Nat} (hfull : Full c) {x : Slot}
    (hx : (c.cache x).expired now = true) (b : List Slot) :
    ∀ (a : List Slot) (oldest : Option Slot), (∀ j ∈ a, (c.cache j).expired now = false) →
      evictScan c now oldest (a ++ x :: b) = some x
  | [], oldest, _ => by
    rw [List.nil_append]
    cases oldest <;> simp [evictScan, hfull x, hx]
  | i :: a, oldest, h => by
    have hi := h i List.mem_cons_self
    have ih := fun o => evictScan_expired hfull hx b a o fun j hj => h j (List.mem_cons_of_mem _ hj)
    rw [List.cons_append]
    cases oldest with
    | none =>
      rw [evictScan, hfull i]
      simpa only [Bool.not_true, Bool.false_eq_true, if_false, hi] using ih _
    | some o =>
      rw [evictScan, hfull i]
      simp only [Bool.not_true, Bool.false_eq_true, if_false, hi]
      split
      · exact ih _
      · exact ih _

/-- Without an expired entry, the scan ends with the first of the oldest entries. -/
theorem evictScan_oldest {c : Table} {now : Nat} (hfull : Full c) :
    ∀ (l : List Slot) (o : Slot), (∀ j ∈ l, (c.cache j).expired now = false) →
      ∃ a r b, o :: l = a ++ r :: b ∧ evictScan c now (some o) l = some r ∧
        (∀ x ∈ a, (c.cache r).storedAt < (c.cache x).storedAt) ∧
        ∀ x ∈ b, (c.cache r).storedAt ≤ (c.cache x).storedAt
  | [], o, _ => ⟨[], o, [], rfl, rfl, by simp, by simp⟩
  | i :: l, o, h => by
    have hi := h i List.mem_cons_self
    have hl : ∀ j ∈ l, (c.cache j).expired now = false :=
      fun j hj => h j (List.mem_cons_of_mem _ hj)
    rw [evictScan, hfull i]
    simp only [Bool.not_true, Bool.false_eq_true, if_false, hi]
    by_cases hlt : (c.cache i).storedAt < (c.cache o).storedAt
    · rw [if_pos hlt]
      obtain ⟨a, r, b, heq, hr, ha, hb⟩ := evictScan_oldest hfull l i hl
      refine ⟨o :: a, r, b, by rw [heq, List.cons_append], hr, fun x hx => ?_, hb⟩
      have hri : (c.cache r).storedAt ≤ (c.cache i).storedAt := by
        have him : i ∈ a ++ r :: b := heq ▸ List.mem_cons_self
        rcases List.mem_append.1 him with hm | hm
        · exact (ha i hm).le
        · rcases List.mem_cons.1 hm with rfl | hm
          · exact Nat.le_refl _
          · exact hb i hm
      rcases List.mem_cons.1 hx with rfl | hx
      · omega
      · exact ha x hx
    · rw [if_neg hlt]
      obtain ⟨a, r, b, heq, hr, ha, hb⟩ := evictScan_oldest hfull l o hl
      cases a with
      | nil =>
        rw [List.nil_append, List.cons.injEq] at heq
        obtain ⟨rfl, rfl⟩ := heq
        refine ⟨[], o, i :: l, rfl, hr, by simp, fun x hx => ?_⟩
        rcases List.mem_cons.1 hx with rfl | hx
        · omega
        · exact hb x hx
      | cons o' a =>
        rw [List.cons_append, List.cons.injEq] at heq
        obtain ⟨rfl, rfl⟩ := heq
        have hro := ha o List.mem_cons_self
        refine ⟨o :: i :: a, r, b, rfl, hr, fun x hx => ?_, hb⟩
        rcases List.mem_cons.1 hx with rfl | hx
        · exact hro
        · rcases List.mem_cons.1 hx with rfl | hx
          · omega
          · exact ha x (List.mem_cons_of_mem _ hx)

/-- Where the table is cut at a slot, the slots before it in number stand before the cut. -/
theorem mem_of_finRange_eq {n : Nat} {a b : List (Fin n)} {r j : Fin n}
    (h : List.finRange n = a ++ r :: b) (hj : j < r) : j ∈ a := by
  have hp := h ▸ List.pairwise_lt_finRange n
  have hm : j ∈ a ++ r :: b := h ▸ List.mem_finRange j
  rcases List.mem_append.1 hm with hm | hm
  · exact hm
  · rcases List.mem_cons.1 hm with rfl | hm
    · exact absurd hj (lt_irrefl j)
    · exact absurd ((List.pairwise_cons.1 (List.pairwise_append.1 hp).2.1).1 j hm) (lt_asymm hj)

/-- **`evict_one` empties the victim** of a full table. -/
theorem evictVictim_isVictim {c : Table} (now : Nat) (hfull : Full c) :
    ∃ slot, evictVictim c now = some slot ∧ IsVictim c now slot := by
  by_cases hex : ∃ x, (c.cache x).expired now = true
  · obtain ⟨x, hx⟩ := hex
    obtain ⟨y, hy⟩ : ∃ y, (List.finRange _).find? (fun j => (c.cache j).expired now) = some y :=
      Option.isSome_iff_exists.1 (List.find?_isSome.2 ⟨x, List.mem_finRange x, hx⟩)
    obtain ⟨hye, a, b, heq, ha⟩ := List.find?_eq_some_iff_append.1 hy
    have ha' : ∀ j ∈ a, (c.cache j).expired now = false := fun j hj => by simpa using ha j hj
    refine ⟨y, ?_, Or.inl ⟨hye, fun j hj => ha' j (mem_of_finRange_eq heq hj)⟩⟩
    rw [evictVictim, heq]
    exact evictScan_expired hfull hye b a none ha'
  · have hno : ∀ j, (c.cache j).expired now = false := fun j => by
      simpa using fun h => hex ⟨j, h⟩
    obtain ⟨o, l, hol⟩ : ∃ o l, List.finRange arwsCacheMaxEntries = o :: l :=
      ⟨_, _, List.finRange_succ⟩
    obtain ⟨a, r, b, heq, hr, ha, hb⟩ := evictScan_oldest hfull l o fun j _ => hno j
    rw [← hol] at heq
    refine ⟨r, ?_, Or.inr ⟨hno, fun j => ?_, fun j hj => ha j (mem_of_finRange_eq heq hj)⟩⟩
    · rw [evictVictim, hol, evictScan, hfull o]
      simpa only [Bool.not_true, Bool.false_eq_true, if_false, hno o] using hr
    · have hm : j ∈ a ++ r :: b := heq ▸ List.mem_finRange j
      rcases List.mem_append.1 hm with hm | hm
      · exact (ha j hm).le
      · rcases List.mem_cons.1 hm with rfl | hm
        · exact Nat.le_refl _
        · exact hb j hm

theorem evictVictim_eq_some_iff {c : Table} {now : Nat} (hfull : Full c) {slot : Slot} :
    evictVictim c now = some slot ↔ IsVictim c now slot := by
  obtain ⟨v, hv, hvic⟩ := evictVictim_isVictim now hfull
  rw [hv, Option.some_inj]
  exact ⟨fun h => h ▸ hvic, fun h => hvic.eq h⟩

/-! ## The occupancy of the table -/

/-- The way of `k` from its home to a slot is all in use, by other keys. -/
def Blocked (c : Table) (k : Bytes) (slot : Slot) : Prop :=
  ∀ i, i < dist (homeSlot k) slot →
    (c.cache (probe (homeSlot k) i)).inUse = true ∧ (c.cache (probe (homeSlot k) i)).key ≠ k

/-- No slot holds the key. -/
def Absent (c : Table) (k : Bytes) : Prop := ∀ slot, (c.cache slot).key ≠ k

/-- Both keys run into the same free slot. -/
def MeetAtFree (c : Table) (k₁ k₂ : Bytes) : Prop :=
  ∃ slot, (c.cache slot).inUse = false ∧ Blocked c k₁ slot ∧ Blocked c k₂ slot

/-- In a full table, `k₁` is absent, and `k₂` is absent too or stands in the slot that is emptied
for `k₁`. -/
def MeetAtVictim (c : Table) (now : Nat) (k₁ k₂ : Bytes) : Prop :=
  Full c ∧ Absent c k₁ ∧
    (Absent c k₂ ∨ ∃ slot, IsVictim c now slot ∧ (c.cache slot).key = k₂ ∧ Blocked c k₂ slot)

theorem findSlot_eq_some_iff {c : Table} {k : Bytes} {slot : Slot} :
    findSlot c k = some slot ↔
      ((c.cache slot).inUse = false ∨ (c.cache slot).key = k) ∧ Blocked c k slot := by
  simp only [findSlot, firstStop_eq_some_iff, Bool.or_eq_true, Bool.not_eq_true', beq_iff_eq,
    Bool.or_eq_false_iff, Bool.not_eq_false', beq_eq_false_iff_ne, Blocked]

theorem findSlot_eq_none_iff {c : Table} {k : Bytes} :
    findSlot c k = none ↔ Full c ∧ Absent c k := by
  simp only [findSlot, firstStop_eq_none_iff, Bool.or_eq_false_iff, Bool.not_eq_false',
    beq_eq_false_iff_ne, Full, Absent, forall_and]

/-! ## Which entry an operation works on -/

/-- The two operations that work under one shard mutex. -/
inductive KeyedOp where
  | get
  | set

/-- The entry an operation may read, free or overwrite. -/
def touches (c : Table) (now : Nat) (key : Bytes) : KeyedOp → Option Slot
  | .get => findSlot c key
  | .set => (slotForSet c key now).2

/-- No operation on `k₁` may touch an entry that an operation on `k₂` may touch. -/
def Apart (c : Table) (now : Nat) (k₁ k₂ : Bytes) : Prop :=
  ∀ op₁ op₂ slot, touches c now k₁ op₁ = some slot → touches c now k₂ op₂ ≠ some slot

theorem slotForSet_of_none {c : Table} {k : Bytes} {now : Nat} (h : findSlot c k = none) :
    (slotForSet c k now).2 = evictVictim c now := by
  rw [slotForSet, h]
  simp only [evictOne]
  cases evictVictim c now <;> rfl

theorem slotForSet_of_some {c : Table} {k : Bytes} {now : Nat} {slot : Slot}
    (h : findSlot c k = some slot) : (slotForSet c k now).2 = some slot := by
  rw [slotForSet, h]

/-- An operation touches the entry its search ends at, or makes room in a full table. -/
theorem touches_cases {c : Table} {now : Nat} {k : Bytes} {op : KeyedOp} {slot : Slot}
    (h : touches c now k op = some slot) :
    ((c.cache slot).inUse = false ∨ (c.cache slot).key = k) ∧ Blocked c k slot ∨
      Full c ∧ Absent c k ∧ IsVictim c now slot := by
  cases op with
  | get => exact Or.inl (findSlot_eq_some_iff.1 h)
  | set =>
    cases hf : findSlot c k with
    | some t =>
      rw [touches, slotForSet_of_some hf, Option.some_inj] at h
      exact Or.inl (findSlot_eq_some_iff.1 (h ▸ hf))
    | none =>
      obtain ⟨hfull, habs⟩ := findSlot_eq_none_iff.1 hf
      rw [touches, slotForSet_of_none hf, evictVictim_eq_some_iff hfull] at h
      exact Or.inr ⟨hfull, habs, h⟩

/-- A `set` of an absent key in a full table touches the victim. -/
theorem touches_victim {c : Table} {now : Nat} {k : Bytes} {slot : Slot} (hfull : Full c)
    (habs : Absent c k) (hv : IsVictim c now slot) : touches c now k .set = some slot := by
  rw [touches, slotForSet_of_none (findSlot_eq_none_iff.2 ⟨hfull, habs⟩)]
  exact (evictVictim_eq_some_iff hfull).2 hv

theorem not_apart_of_meetAtVictim {c : Table} {now : Nat} {k₁ k₂ : Bytes}
    (h : MeetAtVictim c now k₁ k₂) :
    ∃ op slot, touches c now k₁ .set = some slot ∧ touches c now k₂ op = some slot := by
  obtain ⟨hfull, h₁, h₂ | ⟨slot, hv, hk, hb⟩⟩ := h
  · obtain ⟨slot, -, hv⟩ := evictVictim_isVictim now hfull
    exact ⟨.set, slot, touches_victim hfull h₁ hv, touches_victim hfull h₂ hv⟩
  · exact ⟨.get, slot, touches_victim hfull h₁ hv, findSlot_eq_some_iff.2 ⟨Or.inr hk, hb⟩⟩

/-- **The stripes are apart exactly when** the keys do not meet, at a free slot or at the entry
that has to make room. -/
theorem apart_iff {c : Table} {now : Nat} {k₁ k₂ : Bytes} (h : getShard k₁ ≠ getShard k₂) :
    Apart c now k₁ k₂ ↔
      ¬ (MeetAtFree c k₁ k₂ ∨ MeetAtVictim c now k₁ k₂ ∨ MeetAtVictim c now k₂ k₁) := by
  have hne : k₁ ≠ k₂ := fun he => h (he ▸ rfl)
  constructor
  · rintro hap (⟨slot, hfree, hb₁, hb₂⟩ | hm | hm)
    · exact hap .get .get slot (findSlot_eq_some_iff.2 ⟨Or.inl hfree, hb₁⟩)
        (findSlot_eq_some_iff.2 ⟨Or.inl hfree, hb₂⟩)
    · obtain ⟨op, slot, h₁, h₂⟩ := not_apart_of_meetAtVictim hm
      exact hap .set op slot h₁ h₂
    · obtain ⟨op, slot, h₂, h₁⟩ := not_apart_of_meetAtVictim hm
      exact hap op .set slot h₁ h₂
  · intro hno op₁ op₂ slot h₁ h₂
    refine hno ?_
    rcases touches_cases h₁ with ⟨hs₁, hb₁⟩ | ⟨hfull, ha₁, hv₁⟩ <;>
      rcases touches_cases h₂ with ⟨hs₂, hb₂⟩ | ⟨hfull', ha₂, hv₂⟩
    · -- both end their search at the slot, which cannot hold both keys
      rcases hs₁ with hs₁ | hs₁
      · exact Or.inl ⟨slot, hs₁, hb₁, hb₂⟩
      · rcases hs₂ with hs₂ | hs₂
        · exact Or.inl ⟨slot, hs₂, hb₁, hb₂⟩
        · exact absurd (hs₁.symm.trans hs₂) hne
    · rcases hs₁ with hs₁ | hs₁
      · rw [hfull' slot] at hs₁
        cases hs₁
      · exact Or.inr (Or.inr ⟨hfull', ha₂, Or.inr ⟨slot, hv₂, hs₁, hb₁⟩⟩)
    · rcases hs₂ with hs₂ | hs₂
      · rw [hfull slot] at hs₂
        cases hs₂
      · exact Or.inr (Or.inl ⟨hfull, ha₁, Or.inr ⟨slot, hv₁, hs₂, hb₂⟩⟩)
    · exact Or.inr (Or.inl ⟨hfull, ha₁, Or.inl ha₂⟩)

/-- A table in which `ab` and `ad` are stored. -/
private def storedTwo : Table :=
  applyOp (applyOp CacheState.start.cache 0 (.set (ascii "ab") (ascii "x") true)) 0
    (.set (ascii "ad") (ascii "y") true)

/-- The search of a key goes no further than a free slot. -/
private theorem blocked_le {c : Table} {k : Bytes} {slot : Slot} {n : Nat} (h : Blocked c k slot)
    (hfree : (c.cache (probe (homeSlot k) n)).inUse = false) : dist (homeSlot k) slot ≤ n := by
  by_contra hn
  have := (h n (by omega)).1
  rw [hfree] at this
  cases this

/-- Two keys whose searches go past a stored one are apart. -/
theorem apart_stored : Apart storedTwo 0 (ascii "bA") (ascii "bC") := by
  have hnear : ∀ k slot, (storedTwo.cache (probe (homeSlot k) 1)).inUse = false →
      Blocked storedTwo k slot → slot = probe (homeSlot k) 0 ∨ slot = probe (homeSlot k) 1 := by
    intro k slot hfree hb
    have hle := blocked_le hb hfree
    obtain hd | hd : dist (homeSlot k) slot = 0 ∨ dist (homeSlot k) slot = 1 := by omega
    · exact Or.inl (by rw [← hd, probe_dist])
    · exact Or.inr (by rw [← hd, probe_dist])
  have hfree : (storedTwo.cache 0).inUse = false := by decide +kernel
  refine (apart_iff (by decide)).2 ?_
  rintro (⟨slot, -, h₁, h₂⟩ | ⟨hfull, -⟩ | ⟨hfull, -⟩)
  · obtain rfl | rfl := hnear _ _ (by decide +kernel) h₁ <;>
      obtain h | h := hnear _ _ (by decide +kernel) h₂ <;> exact absurd h (by decide +kernel)
  · exact absurd (hfull 0) (by rw [hfree]; decide)
  · exact absurd (hfull 0) (by rw [hfree]; decide)

/-- **The stripes overlap**: once `ab` is stored, a `set` of `bA`, which has the same home, and a
`get` of `ac`, which has the next, work on one entry under two mutexes. -/
theorem not_apart_of_getShard_ne :
    ¬ ∀ s, cacheMachine.Reach s → ∀ now k₁ k₂, getShard k₁ ≠ getShard k₂ →
      Apart s.cache now k₁ k₂ := by
  intro h
  have hs : cacheMachine.Reach ⟨applyOp CacheState.start.cache 0
      (.set (ascii "ab") (ascii "x") true), 0⟩ :=
    .next (a := ⟨0, .set (ascii "ab") (ascii "x") true⟩) (.start rfl) trivial rfl
  exact h _ hs 0 (ascii "bA") (ascii "ac") (by decide) .set .get (homeSlot (ascii "ac"))
    (by decide +kernel) (by decide +kernel)

end Cache
end Arws

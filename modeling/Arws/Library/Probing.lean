import Mathlib.Algebra.GroupWithZero.Nat
import Mathlib.Data.Fin.Basic
import Mathlib.Data.List.Range
import Mathlib.Logic.Function.Basic

/-!
# Open addressing with linear probing

A table of `n` slots, each free or holding a key, in which a key is looked for from its home slot
on, slot by slot and around the end, up to the first slot that is free or holds it.

* `probe home i` is the `i`-th slot looked at, `dist home s` the number of slots looked at before
  `s`; the two are inverse to each other.
* `firstStop` is the search, for an arbitrary test.  `firstStop_eq_some_iff` says what it returns
  in terms of `dist`.
* `Chained` and `HeldOnce` are the two facts a table lives by: between the home of a key and the slot
  that holds it no slot is free, and no key is held twice.  Under them a search finds what the
  table holds (`search_of_held`), and storing at the slot a search returns keeps them
  (`Chained.put`, `HeldOnce.put`).
* Freeing one slot ends the searches there that looked at it or beyond (`search_free_of_le`,
  `search_free_of_none`), and no other (`search_free_of_lt`).
* Freeing slots keeps `HeldOnce` whatever is freed (`HeldOnce.free`), but `Chained` only if no slot
  freed lies on the way to a key that stays (`Chained.free`): that side condition, `OffPath`, is
  what an implementation that frees slots in place has to see to.
-/

set_option autoImplicit false

namespace Probing

variable {n : Nat} [NeZero n]

/-- The `i`-th slot looked at from `home` on. -/
def probe (home : Fin n) (i : Nat) : Fin n := Fin.ofNat n (home.val + i)

/-- How many slots are looked at before `s`. -/
def dist (home s : Fin n) : Nat := (s.val + n - home.val) % n

theorem dist_lt (home s : Fin n) : dist home s < n := Nat.mod_lt _ (Nat.pos_of_ne_zero (NeZero.ne n))

theorem probe_dist (home s : Fin n) : probe home (dist home s) = s := by
  have hh := home.isLt
  have hs := s.isLt
  apply Fin.ext
  simp only [probe, dist, Fin.val_ofNat, Nat.add_mod_mod]
  rw [show (home : Nat) + (s + n - home) = s + n by omega, Nat.add_mod_right,
    Nat.mod_eq_of_lt hs]

theorem dist_probe (home : Fin n) {i : Nat} (hi : i < n) : dist home (probe home i) = i := by
  have hh := home.isLt
  simp only [probe, dist, Fin.val_ofNat]
  rcases Nat.lt_or_ge (home + i) n with h | h
  · rw [Nat.mod_eq_of_lt h, show (home : Nat) + i + n - home = i + n by omega,
      Nat.add_mod_right, Nat.mod_eq_of_lt hi]
  · rw [Nat.mod_eq_sub_mod h, Nat.mod_eq_of_lt (by omega : (home : Nat) + i - n < n),
      show (home : Nat) + i - n + n - home = i by omega, Nat.mod_eq_of_lt hi]

theorem dist_inj {home s t : Fin n} (h : dist home s = dist home t) : s = t := by
  rw [← probe_dist home s, h, probe_dist]

/-! ## The search -/

/-- The first slot from `home` on that passes the test. -/
def firstStop (stop : Fin n → Bool) (home : Fin n) : Option (Fin n) :=
  ((List.range n).map (probe home)).find? stop

theorem firstStop_eq_some_iff {stop : Fin n → Bool} {home s : Fin n} :
    firstStop stop home = some s ↔
      stop s = true ∧ ∀ i, i < dist home s → stop (probe home i) = false := by
  rw [firstStop, List.find?_eq_some_iff_getElem]
  simp only [List.length_map, List.length_range, List.getElem_map, List.getElem_range,
    Bool.not_eq_true']
  constructor
  · rintro ⟨hs, i, hi, rfl, hlt⟩
    refine ⟨hs, fun j hj => hlt j ?_⟩
    rwa [dist_probe home hi] at hj
  · rintro ⟨hs, hlt⟩
    exact ⟨hs, dist home s, dist_lt home s, probe_dist home s, fun j hj => hlt j hj⟩

theorem firstStop_eq_none_iff {stop : Fin n → Bool} {home : Fin n} :
    firstStop stop home = none ↔ ∀ s, stop s = false := by
  rw [firstStop, List.find?_eq_none]
  simp only [List.mem_map, List.mem_range, forall_exists_index, and_imp,
    forall_apply_eq_imp_iff₂, Bool.not_eq_true]
  constructor
  · intro h s
    rw [← probe_dist home s]
    exact h _ (dist_lt home s)
  · intro h i _
    exact h _

/-! ## Tables -/

variable {K : Type*} [DecidableEq K] {home : K → Fin n} {key : Fin n → Option K}

/-- Where a search for `k` ends: at the first slot that is free or holds `k`. -/
def search (home : K → Fin n) (key : Fin n → Option K) (k : K) : Option (Fin n) :=
  firstStop (fun s => key s == none || key s == some k) (home k)

/-- No slot is free between the home of a key and the slot that holds it. -/
def Chained (home : K → Fin n) (key : Fin n → Option K) : Prop :=
  ∀ s k, key s = some k → ∀ i, i < dist (home k) s → key (probe (home k) i) ≠ none

/-- No key is held by two slots. -/
def HeldOnce (key : Fin n → Option K) : Prop :=
  ∀ s t k, key s = some k → key t = some k → s = t

theorem search_eq_some_iff {k : K} {s : Fin n} :
    search home key k = some s ↔
      (key s = none ∨ key s = some k) ∧
        ∀ i, i < dist (home k) s →
          key (probe (home k) i) ≠ none ∧ key (probe (home k) i) ≠ some k := by
  simp only [search, firstStop_eq_some_iff, Bool.or_eq_true, beq_iff_eq, Bool.or_eq_false_iff,
    beq_eq_false_iff_ne]

theorem search_eq_none_iff {k : K} :
    search home key k = none ↔ ∀ s, key s ≠ none ∧ key s ≠ some k := by
  simp only [search, firstStop_eq_none_iff, Bool.or_eq_false_iff, beq_eq_false_iff_ne]

/-- **A search finds what the table holds.** -/
theorem search_of_held (hc : Chained home key) (hu : HeldOnce key) {k : K} {s : Fin n}
    (hs : key s = some k) : search home key k = some s := by
  refine search_eq_some_iff.2 ⟨Or.inr hs, fun i hi => ⟨hc s k hs i hi, fun hk => ?_⟩⟩
  have h := hu _ _ _ hk hs
  have hlt := hi.trans (dist_lt (home k) s)
  rw [← h, dist_probe _ hlt] at hi
  exact absurd hi (lt_irrefl i)

/-- A search that ends at a free slot is for a key the table does not hold. -/
theorem not_held_of_search (hc : Chained home key) {k : K} {s : Fin n}
    (h : search home key k = some s) (hs : key s = none) (t : Fin n) : key t ≠ some k := by
  intro ht
  obtain ⟨_, hlt⟩ := search_eq_some_iff.1 h
  rcases Nat.lt_trichotomy (dist (home k) s) (dist (home k) t) with hd | hd | hd
  · exact hc t k ht _ hd (by rw [probe_dist]; exact hs)
  · rw [dist_inj hd, ht] at hs
    cases hs
  · have := (hlt _ hd).2
    rw [probe_dist] at this
    exact this ht

/-- Storing a key where its search ends breaks no chain. -/
theorem Chained.put (hc : Chained home key) {k : K} {s : Fin n}
    (h : search home key k = some s) : Chained home (Function.update key s (some k)) := by
  intro t k' ht i hi
  by_cases hp : probe (home k') i = s
  · rw [hp, Function.update_self]
    exact Option.some_ne_none k
  · rw [Function.update_of_ne hp]
    by_cases hts : t = s
    · subst hts
      rw [Function.update_self, Option.some_inj] at ht
      subst ht
      exact ((search_eq_some_iff.1 h).2 i hi).1
    · rw [Function.update_of_ne hts] at ht
      exact hc t k' ht i hi

/-- Storing a key where its search ends does not store it twice. -/
theorem HeldOnce.put (hc : Chained home key) (hu : HeldOnce key) {k : K} {s : Fin n}
    (h : search home key k = some s) : HeldOnce (Function.update key s (some k)) := by
  have hother : ∀ t, t ≠ s → key t ≠ some k := by
    intro t hts ht
    rcases (search_eq_some_iff.1 h).1 with hs | hs
    · exact not_held_of_search hc h hs t ht
    · exact hts (hu _ _ _ ht hs)
  intro t u k' ht hu'
  by_cases hts : t = s <;> by_cases hus : u = s
  · rw [hts, hus]
  · subst hts
    rw [Function.update_self, Option.some_inj] at ht
    subst ht
    rw [Function.update_of_ne hus] at hu'
    exact absurd hu' (hother u hus)
  · subst hus
    rw [Function.update_self, Option.some_inj] at hu'
    subst hu'
    rw [Function.update_of_ne hts] at ht
    exact absurd ht (hother t hts)
  · rw [Function.update_of_ne hts] at ht
    rw [Function.update_of_ne hus] at hu'
    exact hu _ _ _ ht hu'

/-! ## Freeing slots -/

/-- The table with some slots freed. -/
def free (key : Fin n → Option K) (gone : Fin n → Bool) : Fin n → Option K :=
  fun s => if gone s then none else key s

/-- No slot freed lies between the home of a key that stays and the slot that holds it. -/
def OffPath (home : K → Fin n) (key : Fin n → Option K) (gone : Fin n → Bool) : Prop :=
  ∀ s k, key s = some k → gone s = false →
    ∀ i, i < dist (home k) s → gone (probe (home k) i) = false

omit [NeZero n] [DecidableEq K] in
theorem free_eq_some_iff {gone : Fin n → Bool} {s : Fin n} {k : K} :
    free key gone s = some k ↔ gone s = false ∧ key s = some k := by
  rw [free]
  cases gone s <;> simp

omit [NeZero n] [DecidableEq K] in
theorem HeldOnce.free (hu : HeldOnce key) (gone : Fin n → Bool) : HeldOnce (free key gone) :=
  fun _ _ _ hs ht => hu _ _ _ (free_eq_some_iff.1 hs).2 (free_eq_some_iff.1 ht).2

omit [DecidableEq K] in
/-- Freeing slots off the paths of the keys that stay breaks no chain. -/
theorem Chained.free (hc : Chained home key) {gone : Fin n → Bool} (h : OffPath home key gone) :
    Chained home (free key gone) := by
  intro s k hs i hi
  obtain ⟨hg, hk⟩ := free_eq_some_iff.1 hs
  rw [Probing.free, h s k hk hg i hi]
  simpa using hc s k hk i hi

/-! ## Freeing one slot -/

/-- A slot nobody looks at before the end of the search may be freed. -/
theorem search_free_of_lt {k : K} {s v : Fin n} (h : search home key k = some s)
    (hv : dist (home k) s < dist (home k) v) :
    search home (Function.update key v none) k = some s := by
  have hsame : ∀ i, i ≤ dist (home k) s → probe (home k) i ≠ v := by
    rintro i hi rfl
    rw [dist_probe _ (hi.trans_lt (dist_lt _ _))] at hv
    omega
  obtain ⟨hs, hbefore⟩ := search_eq_some_iff.1 h
  refine search_eq_some_iff.2 ⟨?_, fun i hi => ?_⟩
  · have hsv := hsame _ le_rfl
    rw [probe_dist] at hsv
    rwa [Function.update_of_ne hsv]
  · rw [Function.update_of_ne (hsame i hi.le)]
    exact hbefore i hi

/-- A search that got as far as the slot ends there once it is freed. -/
theorem search_free_of_before {k : K} {v : Fin n}
    (h : ∀ i, i < dist (home k) v →
      key (probe (home k) i) ≠ none ∧ key (probe (home k) i) ≠ some k) :
    search home (Function.update key v none) k = some v := by
  refine search_eq_some_iff.2 ⟨Or.inl (Function.update_self ..), fun i hi => ?_⟩
  have hv : probe (home k) i ≠ v := by
    rintro rfl
    rw [dist_probe _ (hi.trans (dist_lt _ _))] at hi
    exact lt_irrefl i hi
  rw [Function.update_of_ne hv]
  exact h i hi

theorem search_free_of_le {k : K} {s v : Fin n} (h : search home key k = some s)
    (hv : dist (home k) v ≤ dist (home k) s) :
    search home (Function.update key v none) k = some v :=
  search_free_of_before fun i hi => (search_eq_some_iff.1 h).2 i (hi.trans_le hv)

theorem search_free_of_none {k : K} {v : Fin n} (h : search home key k = none) :
    search home (Function.update key v none) k = some v :=
  search_free_of_before fun _ _ => search_eq_none_iff.1 h _

end Probing

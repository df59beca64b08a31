import Arws.Library.Transition
import Arws.Library.WaitGraph
import Mathlib.Data.Finset.Max
import Mathlib.Data.List.Basic
import Mathlib.Logic.Function.Basic

/-!
# Locks that are taken in order

Threads run programs that take locks and release them, one program after the other.  The locks have ranks, and
a program is `Ordered` if it takes only locks of a higher rank than those it holds, releases what it holds and
nothing else, sleeps with nothing in its hands, and ends so.

* `run_append`, `run_loop` — how ordered programs are put together.
* `not_circular` — threads that run ordered programs never wait for one another in a circle.
* `exists_goes` — who waits for a lock waits, directly or through others, for one that goes on.
-/

set_option autoImplicit false

namespace LockOrder

inductive Op (L : Type*)
  | lock (l : L)
  | unlock (l : L)
  /-- The thread waits for time to pass, or for a condition. -/
  | sleep
  deriving DecidableEq

variable {L W C : Type*} [DecidableEq L] {rank : L → ℕ} {held : List L}

/-! ## Programs in order -/

/-- What is held behind an operation, if it is in order. -/
def next (rank : L → ℕ) (held : List L) : Op L → Option (List L)
  | .lock l => if ∀ h ∈ held, rank h < rank l then some (l :: held) else none
  | .unlock l => if l ∈ held then some (held.erase l) else none
  | .sleep => if held = [] then some [] else none

/-- What is held behind operations, if all of them are in order. -/
def run (rank : L → ℕ) (held : List L) (ops : List (Op L)) : Option (List L) := ops.foldlM (next rank) held

/-- The operations are in order from the first to the last, and nothing is held behind them. -/
def Ordered (rank : L → ℕ) (ops : List (Op L)) : Prop := run rank [] ops = some []

instance (ops : List (Op L)) : Decidable (Ordered rank ops) := inferInstanceAs (Decidable (_ = _))

theorem run_append (held : List L) (ops more : List (Op L)) :
    run rank held (ops ++ more) = (run rank held ops).bind fun held => run rank held more := List.foldlM_append

theorem run_cons (held : List L) (op : Op L) (ops : List (Op L)) :
    run rank held (op :: ops) = (next rank held op).bind fun held => run rank held ops := List.foldlM_cons

/-- **A loop** whose turns leave what is held as it was. -/
theorem run_loop {block : List (Op L)} (h : run rank held block = some held) (n : ℕ) :
    run rank held (List.replicate n block).flatten = some held := by
  induction n with
  | zero => rfl
  | succ n ih => rw [List.replicate_succ, List.flatten_cons, run_append, h, Option.bind_some, ih]

/-- A loop over some items. -/
theorem run_flatMap {ι : Type*} {block : ι → List (Op L)} {items : List ι}
    (h : ∀ i ∈ items, run rank held (block i) = some held) : run rank held (items.flatMap block) = some held := by
  induction items with
  | nil => rfl
  | cons i items ih =>
    rw [List.flatMap_cons, run_append, h i List.mem_cons_self, Option.bind_some,
      ih fun j hj => h j (List.mem_cons_of_mem i hj)]

/-! ## Threads -/

structure State (L W : Type*) where
  owner : L → Option W
  /-- What each thread has yet to do. -/
  ops : W → List (Op L)

inductive Act (W C : Type*)
  /-- The thread begins a program. -/
  | call (w : W) (c : C)
  /-- The thread makes its next step. -/
  | go (w : W)

variable {program : C → List (Op L)}

/-- A step of the threads.  A lock that is owned is not taken, not by its owner either. -/
def step [DecidableEq W] (program : C → List (Op L)) (s : State L W) : Act W C → Option (State L W)
  | .call w c => if s.ops w = [] then some { s with ops := Function.update s.ops w (program c) } else none
  | .go w => match s.ops w with
    | [] => none
    | .lock l :: ops =>
      if s.owner l = none then some ⟨Function.update s.owner l (some w), Function.update s.ops w ops⟩ else none
    | .unlock l :: ops =>
      if s.owner l = some w then some ⟨Function.update s.owner l none, Function.update s.ops w ops⟩ else none
    | .sleep :: ops => some { s with ops := Function.update s.ops w ops }

def threads (W : Type*) [DecidableEq W] (program : C → List (Op L)) : Machine (State L W) (Act W C) where
  init s := s = ⟨fun _ => none, fun _ => []⟩
  step := step program

variable {s t : State L W} {w v : W}

/-- One thread waits for a lock of another, or for one of its own. -/
def Waits (s : State L W) (w v : W) : Prop := ∃ l ops, s.ops w = .lock l :: ops ∧ s.owner l = some v

/-- The thread holds a lock, and its next step is one that it can make, and no sleep. -/
def Goes [DecidableEq W] (program : C → List (Op L)) (s : State L W) (w : W) : Prop :=
  (∃ l, s.owner l = some w) ∧
    ∃ op ops t, s.ops w = op :: ops ∧ op ≠ .sleep ∧ step program s (.go w) = some t

/-- What a thread holds is what it has to release. -/
structure Holds (rank : L → ℕ) (s : State L W) (w : W) (held : List L) : Prop where
  ordered : run rank held (s.ops w) = some []
  owner : ∀ l, s.owner l = some w ↔ l ∈ held
  nodup : held.Nodup

/-- **The invariant**: every thread holds what it has to release. -/
def Sound (rank : L → ℕ) (s : State L W) : Prop := ∀ w, ∃ held, Holds rank s w held

variable {owner : L → Option W} {ops : List (Op L)}

/-- The thread that makes the step. -/
theorem holds_update [DecidableEq W] (hrun : run rank held ops = some [])
    (howner : ∀ l, owner l = some w ↔ l ∈ held)
    (hnodup : held.Nodup) : Holds rank ⟨owner, Function.update s.ops w ops⟩ w held where
  ordered := by simpa using hrun
  owner := howner
  nodup := hnodup

/-- The other threads. -/
theorem Holds.other [DecidableEq W] (h : Holds rank s v held) (hvw : v ≠ w)
    (howner : ∀ l, owner l = some v ↔ s.owner l = some v) :
    Holds rank ⟨owner, Function.update s.ops w ops⟩ v held where
  ordered := by simpa [hvw] using h.ordered
  owner l := (howner l).trans (h.owner l)
  nodup := h.nodup

/-- What is held when the next operation is done. -/
theorem Holds.next {op : Op L} (h : Holds rank s w held) (hops : s.ops w = op :: ops) :
    ∃ after, LockOrder.next rank held op = some after ∧ run rank after ops = some [] := by
  have hrun := h.ordered
  rw [hops, run_cons] at hrun
  exact Option.bind_eq_some_iff.1 hrun

variable [DecidableEq W]

theorem Sound.call {c : C} (h : Sound rank s) (hprogram : ∀ c, Ordered rank (program c))
    (hs : step program s (.call w c) = some t) : Sound rank t := by
  obtain ⟨hidle, hs⟩ := Option.ite_none_right_eq_some.1 hs
  obtain rfl := Option.some.inj hs
  intro v
  obtain ⟨held, hheld⟩ := h v
  by_cases hvw : v = w
  · subst hvw
    have hnothing : held = [] := by
      have hrun := hheld.ordered
      rw [hidle] at hrun
      exact Option.some.inj hrun
    exact ⟨[], holds_update (hprogram c) (hnothing ▸ hheld.owner) List.nodup_nil⟩
  · exact ⟨held, hheld.other hvw fun l => Iff.rfl⟩

theorem Sound.lock {l : L} (h : Sound rank s) (hops : s.ops w = .lock l :: ops)
    (hfree : s.owner l = none) :
    Sound rank ⟨Function.update s.owner l (some w), Function.update s.ops w ops⟩ := by
  intro v
  obtain ⟨held, hheld⟩ := h v
  by_cases hvw : v = w
  · subst hvw
    obtain ⟨after, hnext, hrun⟩ := hheld.next hops
    obtain ⟨-, hafter⟩ := Option.ite_none_right_eq_some.1 hnext
    obtain rfl := Option.some.inj hafter
    have hnew : l ∉ held := fun hmem => by simp [(hheld.owner l).2 hmem] at hfree
    refine ⟨l :: held, holds_update hrun (fun m => ?_) (List.nodup_cons.2 ⟨hnew, hheld.nodup⟩)⟩
    by_cases hml : m = l
    · subst hml
      simp
    · rw [Function.update_of_ne hml, List.mem_cons, hheld.owner m]
      exact (or_iff_right hml).symm
  · refine ⟨held, hheld.other hvw fun m => ?_⟩
    by_cases hml : m = l
    · subst hml
      rw [Function.update_self, hfree]
      exact iff_of_false (fun he => hvw (Option.some.inj he).symm) (fun he => nomatch he)
    · rw [Function.update_of_ne hml]

theorem Sound.unlock {l : L} (h : Sound rank s) (hops : s.ops w = .unlock l :: ops)
    (howned : s.owner l = some w) :
    Sound rank ⟨Function.update s.owner l none, Function.update s.ops w ops⟩ := by
  intro v
  obtain ⟨held, hheld⟩ := h v
  by_cases hvw : v = w
  · subst hvw
    obtain ⟨after, hnext, hrun⟩ := hheld.next hops
    obtain ⟨-, hafter⟩ := Option.ite_none_right_eq_some.1 hnext
    obtain rfl := Option.some.inj hafter
    refine ⟨held.erase l, holds_update hrun (fun m => ?_) (hheld.nodup.erase l)⟩
    rw [hheld.nodup.mem_erase_iff]
    by_cases hml : m = l
    · subst hml
      simp
    · rw [Function.update_of_ne hml, hheld.owner m]
      exact (and_iff_right hml).symm
  · refine ⟨held, hheld.other hvw fun m => ?_⟩
    by_cases hml : m = l
    · subst hml
      rw [Function.update_self, howned]
      exact iff_of_false (fun he => nomatch he) fun he => hvw (Option.some.inj he).symm
    · rw [Function.update_of_ne hml]

theorem Sound.sleep (h : Sound rank s) (hops : s.ops w = .sleep :: ops) :
    Sound rank { s with ops := Function.update s.ops w ops } := by
  intro v
  obtain ⟨held, hheld⟩ := h v
  by_cases hvw : v = w
  · subst hvw
    obtain ⟨after, hnext, hrun⟩ := hheld.next hops
    obtain ⟨hnothing, hafter⟩ := Option.ite_none_right_eq_some.1 hnext
    obtain rfl := Option.some.inj hafter
    exact ⟨[], holds_update hrun (hnothing ▸ hheld.owner) List.nodup_nil⟩
  · exact ⟨held, hheld.other hvw fun l => Iff.rfl⟩

/-- **One step** keeps the invariant. -/
theorem Sound.step {act : Act W C} (h : Sound rank s) (hprogram : ∀ c, Ordered rank (program c))
    (hs : step program s act = some t) : Sound rank t := by
  cases act with
  | call w c => exact h.call hprogram hs
  | go w =>
    rw [LockOrder.step] at hs
    cases hops : s.ops w with
    | nil =>
      rw [hops] at hs
      cases hs
    | cons op ops =>
      rw [hops] at hs
      cases op with
      | lock l =>
        obtain ⟨hfree, hs⟩ := Option.ite_none_right_eq_some.1 hs
        cases hs
        exact h.lock hops hfree
      | unlock l =>
        obtain ⟨howned, hs⟩ := Option.ite_none_right_eq_some.1 hs
        cases hs
        exact h.unlock hops howned
      | sleep =>
        cases hs
        exact h.sleep hops

theorem sound_of_reach (hprogram : ∀ c, Ordered rank (program c)) (h : (threads W program).Reach s) :
    Sound rank s := by
  refine h.invariant (fun s hs => ?_) fun s act t hI _ hs => hI.step hprogram hs
  obtain rfl := hs
  exact fun w => ⟨[], rfl, fun l => iff_of_false (fun he => nomatch he) List.not_mem_nil, List.nodup_nil⟩

/-! ## Who waits for whom -/

omit [DecidableEq W] in
/-- The lock that a thread is to take ranks above those that it holds. -/
theorem Sound.rank_lt {l m : L} (h : Sound rank s) (hops : s.ops w = .lock m :: ops)
    (howned : s.owner l = some w) : rank l < rank m := by
  obtain ⟨held, hheld⟩ := h w
  obtain ⟨after, hnext, -⟩ := hheld.next hops
  obtain ⟨hbelow, -⟩ := Option.ite_none_right_eq_some.1 hnext
  exact hbelow l ((hheld.owner l).1 howned)

/-- The rank of the lock that a thread is to take. -/
def wantedRank (rank : L → ℕ) (s : State L W) (w : W) : ℕ :=
  match s.ops w with
  | .lock l :: _ => rank l
  | _ => 0

omit [DecidableEq L] [DecidableEq W] in
theorem wantedRank_eq {l : L} (hops : s.ops w = .lock l :: ops) : wantedRank rank s w = rank l := by
  rw [wantedRank, hops]

omit [DecidableEq W] in
/-- **No circle**: of the threads in a circle, the one that waits for the highest lock would wait for one that
waits for a higher one. -/
theorem Sound.not_circular (h : Sound rank s) : ¬ Circular (Waits s) := by
  rintro ⟨S, hne, hS⟩
  obtain ⟨w, hw, hmax⟩ := S.exists_max_image (wantedRank rank s) hne
  obtain ⟨v, hv, l, ops, hops, howner⟩ := hS w hw
  obtain ⟨-, -, m, ops', hops', -⟩ := hS v hv
  have hle := hmax v hv
  rw [wantedRank_eq hops, wantedRank_eq hops'] at hle
  exact absurd (h.rank_lt hops' howner) (Nat.not_lt.2 hle)

/-- One that owns a lock waits for another lock or goes on. -/
theorem Sound.waits_or_goes {l : L} (h : Sound rank s) (howner : s.owner l = some w) :
    (∃ v, Waits s w v) ∨ Goes program s w := by
  obtain ⟨held, hheld⟩ := h w
  have hmem := (hheld.owner l).1 howner
  cases hops : s.ops w with
  | nil =>
    -- nothing is held behind the last operation
    have hrun := hheld.ordered
    rw [hops] at hrun
    rw [Option.some.inj hrun] at hmem
    cases hmem
  | cons op ops =>
    obtain ⟨after, hnext, -⟩ := hheld.next hops
    cases op with
    | lock m =>
      cases hm : s.owner m with
      | none => exact .inr ⟨⟨l, howner⟩, _, ops, _, hops, by simp, by rw [LockOrder.step, hops]; exact if_pos hm⟩
      | some v => exact .inl ⟨v, m, ops, hops, hm⟩
    | unlock m =>
      obtain ⟨hheldm, -⟩ := Option.ite_none_right_eq_some.1 hnext
      exact .inr ⟨⟨l, howner⟩, _, ops, _, hops, by simp,
        by rw [LockOrder.step, hops]; exact if_pos ((hheld.owner m).2 hheldm)⟩
    | sleep =>
      obtain ⟨hnothing, -⟩ := Option.ite_none_right_eq_some.1 hnext
      rw [hnothing] at hmem
      cases hmem

/-- **Somebody goes on**: who waits for a lock waits, directly or through others, for one that goes on. -/
theorem Sound.exists_goes (h : Sound rank s) {bound : ℕ} (hbound : ∀ l, rank l < bound) (hwait : Waits s w v) :
    ∃ u, Relation.ReflTransGen (Waits s) v u ∧ Goes program s u := by
  obtain ⟨l, -, -, howner⟩ := hwait
  -- the locks that are waited for rank higher and higher
  induction hn : bound - rank l using Nat.strong_induction_on generalizing v l with
  | _ n ih =>
    obtain ⟨u, hu⟩ | (hgoes : Goes program s _) := h.waits_or_goes howner
    · obtain ⟨m, ops, hops, hm⟩ := hu
      have hlt := h.rank_lt hops howner
      have hm' := hbound m
      obtain ⟨u', hu', hgoes⟩ := ih (bound - rank m) (by omega) m hm rfl
      exact ⟨u', .head ⟨m, ops, hops, hm⟩ hu', hgoes⟩
    · exact ⟨v, .refl, hgoes⟩

end LockOrder

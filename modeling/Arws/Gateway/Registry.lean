import Mathlib.Data.List.Nodup
import Arws.Library.CString
import Arws.Library.Slots

/-!
# The backend registry

`registry.c`: the backends that registered over a control connection, each with the id routes
refer to it by.  The list is the first `backend_count` entries of the array.  An id is taken from
`next_backend_id`, which only ever grows: registering a name that is still there keeps its id, and
an id given up is not used again.
-/

set_option autoImplicit false

namespace Arws
namespace Gateway

/-- `ARWS_MAX_BACKENDS`. -/
def arwsMaxBackends : Nat := 64

structure ArwsBackend where
  id : Int
  fd : Int
  pid : Int
  name : Bytes
  registered : Bool
  deriving DecidableEq

/-- The static state of the file. -/
structure Registry where
  backends : List ArwsBackend
  nextBackendId : Int
  deriving DecidableEq

def arwsRegistryInit : Registry := ⟨[], 1⟩

/-- The entry a registration under `name` finds, by the test of `arws_register_backend`. -/
def ArwsBackend.hasName (b : ArwsBackend) (name : Bytes) : Bool := b.registered && b.name == name

/-- Some backend is registered under the name. -/
def Registry.holds (r : Registry) (name : Bytes) : Bool := r.backends.any (·.hasName name)

/-- Replace the descriptor of the first entry with the name. -/
def setFd (name : Bytes) (fd : Int) : List ArwsBackend → List ArwsBackend
  | [] => []
  | b :: bs => if b.hasName name then { b with fd := fd } :: bs else b :: setFd name fd bs

/-- `arws_register_backend`: the registry after it and the id it returns. -/
def arwsRegisterBackend (r : Registry) (name : Bytes) (fd : Int) : Registry × Int :=
  if fd < 0 then (r, -1)
  else match r.backends.find? (·.hasName name) with
    | some b => ({ r with backends := setFd name fd r.backends }, b.id)
    | none =>
      if arwsMaxBackends ≤ r.backends.length then (r, -1)
      else (⟨r.backends ++ [⟨r.nextBackendId, fd, 0, name.take 63, true⟩], r.nextBackendId + 1⟩,
        r.nextBackendId)

/-- The array after `backends[i] = backends[--backend_count]`. -/
def removeAt (bs : List ArwsBackend) (i : Nat) : List ArwsBackend :=
  match bs.getLast? with
  | none => bs
  | some last => (bs.set i last).dropLast

def arwsUnregisterBackend (r : Registry) (backendId : Int) : Registry × Int :=
  match r.backends.findIdx? (·.id == backendId) with
  | some i => ({ r with backends := removeAt r.backends i }, 0)
  | none => (r, -1)

/-! ## Ids -/

/-- Some entry has the id. -/
def Registry.hasId (r : Registry) (backendId : Int) : Prop := ∃ b ∈ r.backends, b.id = backendId

theorem id_of_mem_setFd {name : Bytes} {fd : Int} {bs : List ArwsBackend} {b : ArwsBackend}
    (h : b ∈ setFd name fd bs) : ∃ b' ∈ bs, b'.id = b.id := by
  induction bs with
  | nil => cases h
  | cons c bs ih =>
    rw [setFd] at h
    split at h
    · rcases List.mem_cons.1 h with rfl | h
      · exact ⟨c, List.mem_cons_self, rfl⟩
      · exact ⟨b, List.mem_cons_of_mem _ h, rfl⟩
    · rcases List.mem_cons.1 h with rfl | h
      · exact ⟨b, List.mem_cons_self, rfl⟩
      · obtain ⟨b', hb', hid⟩ := ih h
        exact ⟨b', List.mem_cons_of_mem _ hb', hid⟩

theorem mem_of_mem_removeAt {bs : List ArwsBackend} {i : Nat} {b : ArwsBackend}
    (h : b ∈ removeAt bs i) : b ∈ bs := by
  rw [removeAt] at h
  cases hl : bs.getLast? with
  | none =>
    rw [hl] at h
    exact h
  | some last =>
    rw [hl] at h
    rcases List.mem_or_eq_of_mem_set (List.mem_of_mem_dropLast h) with h | rfl
    · exact h
    · exact List.mem_of_getLast? hl

/-- Nothing found under the name: it is not held. -/
theorem holds_eq_false {r : Registry} {name : Bytes}
    (h : r.backends.find? (·.hasName name) = none) : r.holds name = false := by
  rw [Registry.holds, ← Bool.not_eq_true, List.any_eq_true]
  rintro ⟨c, hc, hn⟩
  exact List.find?_eq_none.1 h c hc hn

/-- **What a registration does**: it is refused and changes nothing, or it gives a name that is held
a new descriptor and keeps its id, or it appends an entry under the next id. -/
theorem register_cases (r : Registry) (name : Bytes) (fd : Int) :
    arwsRegisterBackend r name fd = (r, -1) ∨
      (∃ b ∈ r.backends, b.hasName name = true ∧
        arwsRegisterBackend r name fd =
          ({ r with backends := setFd name fd r.backends }, b.id)) ∨
      (0 ≤ fd ∧ r.holds name = false ∧ r.backends.length < arwsMaxBackends ∧
        arwsRegisterBackend r name fd =
          (⟨r.backends ++ [⟨r.nextBackendId, fd, 0, name.take 63, true⟩], r.nextBackendId + 1⟩,
            r.nextBackendId)) := by
  unfold arwsRegisterBackend
  by_cases hfd : fd < 0
  · rw [if_pos hfd]
    exact Or.inl rfl
  · rw [if_neg hfd]
    cases hf : r.backends.find? (·.hasName name) with
    | some b =>
      exact Or.inr (Or.inl ⟨b, List.mem_of_find?_eq_some hf,
        List.find?_some (p := fun b => ArwsBackend.hasName b name) hf, rfl⟩)
    | none =>
      by_cases hfull : arwsMaxBackends ≤ r.backends.length
      · exact Or.inl (if_pos hfull)
      · exact Or.inr (Or.inr ⟨Int.not_lt.1 hfd, holds_eq_false hf, Nat.not_le.1 hfull, if_neg hfull⟩)

/-- An id in the registry after a registration was there before, or is the one handed out. -/
theorem hasId_register {r : Registry} {name : Bytes} {fd i : Int}
    (h : (arwsRegisterBackend r name fd).1.hasId i) :
    r.hasId i ∨ i = r.nextBackendId ∧
      (arwsRegisterBackend r name fd).1.nextBackendId = r.nextBackendId + 1 := by
  obtain ⟨b, hb, rfl⟩ := h
  rcases register_cases r name fd with hr | ⟨c, -, -, hr⟩ | ⟨-, -, -, hr⟩ <;> rw [hr] at hb ⊢
  · exact Or.inl ⟨b, hb, rfl⟩
  · exact Or.inl (id_of_mem_setFd hb)
  · rcases List.mem_append.1 hb with hb | hb
    · exact Or.inl ⟨b, hb, rfl⟩
    · obtain rfl := List.mem_singleton.1 hb
      exact Or.inr ⟨rfl, rfl⟩

theorem hasId_unregister {r : Registry} {backendId i : Int}
    (h : (arwsUnregisterBackend r backendId).1.hasId i) : r.hasId i := by
  obtain ⟨b, hb, rfl⟩ := h
  rw [arwsUnregisterBackend] at hb
  split at hb
  · exact ⟨b, mem_of_mem_removeAt hb, rfl⟩
  · exact ⟨b, hb, rfl⟩

@[simp] theorem nextBackendId_unregister (r : Registry) (backendId : Int) :
    (arwsUnregisterBackend r backendId).1.nextBackendId = r.nextBackendId := by
  rw [arwsUnregisterBackend]
  split <;> rfl

/-- Ids are counted from 1, and the next one was not handed out yet. -/
structure Registry.Numbered (r : Registry) : Prop where
  next : 0 < r.nextBackendId
  ids : ∀ i, r.hasId i → 0 < i ∧ i < r.nextBackendId

theorem numbered_init : arwsRegistryInit.Numbered where
  next := by decide
  ids := by
    rintro i ⟨b, hb, -⟩
    cases hb

theorem Registry.Numbered.register {r : Registry} (h : r.Numbered) (name : Bytes) (fd : Int) :
    (arwsRegisterBackend r name fd).1.Numbered := by
  have hle : r.nextBackendId ≤ (arwsRegisterBackend r name fd).1.nextBackendId := by
    rcases register_cases r name fd with hr | ⟨c, -, -, hr⟩ | ⟨-, -, -, hr⟩
    · exact Int.le_of_eq (congrArg (·.1.nextBackendId) hr).symm
    · exact Int.le_of_eq (congrArg (·.1.nextBackendId) hr).symm
    · rw [hr]
      exact Int.le.intro 1 rfl
  refine ⟨Int.lt_of_lt_of_le h.next hle, fun i hi => ?_⟩
  obtain hi | ⟨rfl, hnext⟩ := hasId_register hi
  · exact ⟨(h.ids i hi).1, Int.lt_of_lt_of_le (h.ids i hi).2 hle⟩
  · have := h.next
    omega

theorem Registry.Numbered.unregister {r : Registry} (h : r.Numbered) (backendId : Int) :
    (arwsUnregisterBackend r backendId).1.Numbered := by
  refine ⟨?_, fun i hi => ?_⟩
  · rw [nextBackendId_unregister]
    exact h.next
  · rw [nextBackendId_unregister]
    exact h.ids i (hasId_unregister hi)

/-! ## Entries -/

/-- The entry whose descriptor is replaced is the first one with the name. -/
theorem setFd_split {name : Bytes} (fd : Int) {bs : List ArwsBackend} {b : ArwsBackend}
    (h : bs.find? (·.hasName name) = some b) :
    ∃ l₁ l₂, bs = l₁ ++ b :: l₂ ∧ setFd name fd bs = l₁ ++ { b with fd := fd } :: l₂ := by
  induction bs with
  | nil => cases h
  | cons c bs ih =>
    rw [List.find?_cons] at h
    rw [setFd]
    split at h
    · rename_i hname
      cases h
      exact ⟨[], bs, rfl, if_pos hname⟩
    · rename_i hname
      obtain ⟨l₁, l₂, rfl, he⟩ := ih h
      rw [if_neg (Bool.not_eq_true _ ▸ hname), he]
      exact ⟨c :: l₁, l₂, rfl, rfl⟩

/-- **What a registration does**, by the entry that is looked for. -/
theorem register_split (r : Registry) (name : Bytes) (fd : Int) :
    arwsRegisterBackend r name fd = (r, -1) ∨
      (∃ b l₁ l₂, r.backends.find? (·.hasName name) = some b ∧ r.backends = l₁ ++ b :: l₂ ∧
        arwsRegisterBackend r name fd =
          ({ r with backends := l₁ ++ { b with fd := fd } :: l₂ }, b.id)) ∨
      (r.backends.find? (·.hasName name) = none ∧ r.backends.length < arwsMaxBackends ∧
        arwsRegisterBackend r name fd =
          (⟨r.backends ++ [⟨r.nextBackendId, fd, 0, name.take 63, true⟩], r.nextBackendId + 1⟩,
            r.nextBackendId)) := by
  unfold arwsRegisterBackend
  split
  · exact Or.inl rfl
  · cases hfind : r.backends.find? (·.hasName name) with
    | some b =>
      obtain ⟨l₁, l₂, hbs, he⟩ := setFd_split fd hfind
      exact Or.inr (Or.inl ⟨b, l₁, l₂, rfl, hbs, by rw [he]⟩)
    | none =>
      by_cases hfull : arwsMaxBackends ≤ r.backends.length
      · exact Or.inl (if_pos hfull)
      · exact Or.inr (Or.inr ⟨rfl, Nat.not_le.1 hfull, if_neg hfull⟩)

/-- A registration leaves entries that were there, and those of the connection. -/
theorem mem_register {r : Registry} {name : Bytes} {fd : Int} {b : ArwsBackend}
    (h : b ∈ (arwsRegisterBackend r name fd).1.backends) : b ∈ r.backends ∨ b.fd = fd := by
  obtain hr | ⟨c, l₁, l₂, -, hsplit, hr⟩ | ⟨-, -, hr⟩ := register_split r name fd
  · rw [hr] at h
    exact Or.inl h
  · rw [hr] at h
    rw [hsplit]
    rcases List.mem_append.1 h with h | h
    · exact Or.inl (List.mem_append_left _ h)
    · rcases List.mem_cons.1 h with rfl | h
      · exact Or.inr rfl
      · exact Or.inl (List.mem_append_right _ (List.mem_cons_of_mem _ h))
  · rw [hr] at h
    rcases List.mem_append.1 h with h | h
    · exact Or.inl h
    · rw [List.mem_singleton.1 h]
      exact Or.inr rfl

theorem removeAt_eq (bs : List ArwsBackend) (i : Nat) : removeAt bs i = Slots.dropAt bs i := by
  rw [removeAt, Slots.dropAt]
  cases bs.getLast? <;> rfl

theorem unregister_backends (r : Registry) (backendId : Int) :
    (arwsUnregisterBackend r backendId).1.backends =
      Slots.dropSlot (r.backends.findIdx? (·.id == backendId)) r.backends := by
  rw [arwsUnregisterBackend]
  cases r.backends.findIdx? (·.id == backendId) with
  | none => rfl
  | some i => exact removeAt_eq _ i

/-- No two entries have the same id, and all are registered. -/
structure Registry.Proper (r : Registry) : Prop extends r.Numbered where
  nodup : (r.backends.map (·.id)).Nodup
  registered : ∀ b ∈ r.backends, b.registered = true

theorem proper_init : arwsRegistryInit.Proper where
  toNumbered := numbered_init
  nodup := List.nodup_nil
  registered := by
    rintro b ⟨⟩

theorem Registry.Proper.register {r : Registry} (h : r.Proper) (name : Bytes) (fd : Int) :
    (arwsRegisterBackend r name fd).1.Proper := by
  have hnumbered := h.toNumbered.register name fd
  obtain hr | ⟨b, l₁, l₂, -, hbs, hr⟩ | ⟨-, -, hr⟩ := register_split r name fd
  · rw [hr]
    exact h
  · have hnodup := h.nodup
    have hregistered := h.registered
    rw [hbs] at hnodup hregistered
    refine ⟨hnumbered, ?_, ?_⟩
    · rw [hr]
      rw [List.map_append, List.map_cons] at hnodup ⊢
      exact hnodup
    · rw [hr]
      intro c hc
      rcases List.mem_append.1 hc with hc | hc
      · exact hregistered c (List.mem_append_left _ hc)
      · rcases List.mem_cons.1 hc with rfl | hc
        · exact hregistered b (by simp)
        · exact hregistered c (by simp [hc])
  · refine ⟨hnumbered, ?_, ?_⟩
    · rw [hr]
      rw [List.map_append, List.map_cons, List.map_nil]
      refine List.Nodup.append h.nodup (List.nodup_singleton _) ?_
      rintro i hi hnew
      obtain ⟨b, hb, rfl⟩ := List.mem_map.1 hi
      have := (h.ids b.id ⟨b, hb, rfl⟩).2
      rw [List.mem_singleton.1 hnew] at this
      exact absurd this (Int.lt_irrefl _)
    · rw [hr]
      intro c hc
      rcases List.mem_append.1 hc with hc | hc
      · exact h.registered c hc
      · rw [List.mem_singleton.1 hc]

theorem Registry.Proper.unregister {r : Registry} (h : r.Proper) (backendId : Int) :
    (arwsUnregisterBackend r backendId).1.Proper := by
  refine ⟨h.toNumbered.unregister backendId, ?_, ?_⟩
  · rw [unregister_backends]
    obtain ⟨-, he⟩ | ⟨i, b, -, -, -, hperm⟩ :=
      Slots.dropSlot_findIdx?_cases (·.id == backendId) r.backends
    · rw [he]
      exact h.nodup
    · exact (List.nodup_cons.1 ((hperm.map (·.id)).nodup_iff.1 h.nodup)).2
  · rw [unregister_backends]
    exact fun b hb => h.registered b (Slots.mem_of_mem_dropSlot hb)

/-- An entry is told by its id. -/
theorem Registry.Proper.eq_of_id {r : Registry} (h : r.Proper) {b c : ArwsBackend}
    (hb : b ∈ r.backends) (hc : c ∈ r.backends) (hid : b.id = c.id) : b = c :=
  List.inj_on_of_nodup_map h.nodup hb hc hid

/-- A registration keeps the ids. -/
theorem Registry.hasId.register {r : Registry} {i : Int} (h : r.hasId i) (name : Bytes) (fd : Int) :
    (arwsRegisterBackend r name fd).1.hasId i := by
  obtain ⟨b, hb, hid⟩ := h
  obtain hr | ⟨c, l₁, l₂, -, hsplit, hr⟩ | ⟨-, -, hr⟩ := register_split r name fd
  · rw [hr]
    exact ⟨b, hb, hid⟩
  · rw [hr]
    rw [hsplit] at hb
    rcases List.mem_append.1 hb with hb | hb
    · exact ⟨b, List.mem_append_left _ hb, hid⟩
    · rcases List.mem_cons.1 hb with rfl | hb
      · exact ⟨{ b with fd := fd }, by simp, hid⟩
      · exact ⟨b, by simp [hb], hid⟩
  · rw [hr]
    exact ⟨b, List.mem_append_left _ hb, hid⟩

/-- The id that is handed out is in the registry. -/
theorem hasId_registered {r : Registry} {name : Bytes} {fd : Int}
    (h : 0 < (arwsRegisterBackend r name fd).2) :
    (arwsRegisterBackend r name fd).1.hasId (arwsRegisterBackend r name fd).2 := by
  obtain hr | ⟨c, l₁, l₂, -, -, hr⟩ | ⟨-, -, hr⟩ := register_split r name fd
  · rw [hr] at h
    cases h
  · rw [hr]
    exact ⟨{ c with fd := fd }, by simp, rfl⟩
  · rw [hr]
    exact ⟨_, List.mem_append_right _ (List.mem_singleton_self _), rfl⟩

/-- An id that is unregistered is in the registry no longer. -/
theorem Registry.Proper.not_hasId_unregister {r : Registry} (h : r.Proper) (backendId : Int) :
    ¬ (arwsUnregisterBackend r backendId).1.hasId backendId := by
  rintro ⟨b, hb, hid⟩
  rw [unregister_backends] at hb
  obtain ⟨hnone, he⟩ | ⟨i, c, -, -, hc, hperm⟩ :=
    Slots.dropSlot_findIdx?_cases (·.id == backendId) r.backends
  · rw [he] at hb
    have := hnone b hb
    rw [hid, beq_self_eq_true] at this
    cases this
  · have hnodup := (List.nodup_cons.1 ((hperm.map (·.id)).nodup_iff.1 h.nodup)).1
    exact hnodup (List.mem_map.2 ⟨b, hb, hid.trans (beq_iff_eq.1 hc).symm⟩)

/-- To unregister an id leaves the others. -/
theorem Registry.hasId.unregister {r : Registry} {i backendId : Int} (h : r.hasId i)
    (hne : i ≠ backendId) : (arwsUnregisterBackend r backendId).1.hasId i := by
  obtain ⟨b, hb, rfl⟩ := h
  refine ⟨b, ?_, rfl⟩
  rw [unregister_backends]
  obtain ⟨-, he⟩ | ⟨j, c, -, -, hid, hperm⟩ :=
    Slots.dropSlot_findIdx?_cases (·.id == backendId) r.backends
  · rwa [he]
  · rcases List.mem_cons.1 (hperm.mem_iff.1 hb) with rfl | hb
    · exact absurd (beq_iff_eq.1 hid) hne
    · exact hb

end Gateway
end Arws

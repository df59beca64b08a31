import Arws.Library.Transition
import Arws.Gateway.Registry

/-!
# Runs of the backend registry

`arws_register_backend` and `arws_unregister_backend`, called in any order, with what they returned.  The
ids are counted by an `int`.

* `registryRight_iff` — the registry is what its calls have made of it in exactly the runs in which the
  counter does not overflow.
* `not_registryRight` — the last `int` is handed out, and the next id is below it.
-/

set_option autoImplicit false

namespace Arws
namespace Gateway

open CString

/-! ## The calls -/

inductive RegistryCall
  | register (name : Bytes) (fd : Int)
  | unregister (backendId : Int)

/-- The registry, and the calls with what they returned, the latest first. -/
structure RegistryRun where
  registry : Registry
  log : List (RegistryCall × Int)

/-- `arws_register_backend`, with `next_backend_id++` on an `int`. -/
def registerCounted (r : Registry) (name : Bytes) (fd : Int) : Registry × Int :=
  let (r, id) := arwsRegisterBackend r name fd
  ({ r with nextBackendId := toInt r.nextBackendId }, id)

def arwsGetBackendFd (r : Registry) (backendId : Int) : Int :=
  ((r.backends.find? (·.id == backendId)).map (·.fd)).getD (-1)

def registryStep (s : RegistryRun) : RegistryCall → Option RegistryRun
  | .register name fd =>
    if name.length < 64 ∧ 0 ≤ fd then
      let (r, id) := registerCounted s.registry name fd
      some ⟨r, (.register name fd, id) :: s.log⟩
    else none
  | .unregister backendId =>
    let (r, result) := arwsUnregisterBackend s.registry backendId
    some ⟨r, (.unregister backendId, result) :: s.log⟩

def registryRuns : Machine RegistryRun RegistryCall where
  init s := s = ⟨arwsRegistryInit, []⟩
  step := registryStep

/-! ## What the calls make of it -/

/-- The name that owns an id: it was registered with it, and the id was not unregistered since. -/
def owner (backendId : Int) : List (RegistryCall × Int) → Option Bytes
  | [] => none
  | (.register name _, id) :: log => if id = backendId ∧ id ≠ -1 then some name else owner backendId log
  | (.unregister id, result) :: log => if id = backendId ∧ result = 0 then none else owner backendId log

/-- The descriptor of the latest registration of a name. -/
def latestFd (name : Bytes) : List (RegistryCall × Int) → Option Int
  | [] => none
  | (.register n fd, id) :: log => if n = name ∧ id ≠ -1 then some fd else latestFd name log
  | (.unregister _, _) :: log => latestFd name log

/-- **What the registry is to be** behind its calls. -/
structure RegistryRight (s : RegistryRun) : Prop where
  ids : (s.registry.backends.map (·.id)).Nodup
  below : ∀ b ∈ s.registry.backends, b.id < s.registry.nextBackendId
  names : (s.registry.backends.map (·.name)).Nodup
  count : s.registry.backends.length ≤ arwsMaxBackends
  /-- An id that was unregistered is not handed out again. -/
  spent : s.log.Pairwise fun later earlier => ∀ id name fd,
    earlier = (.unregister id, 0) → later ≠ (.register name fd, id)
  /-- To register a name that is there keeps its id, and replaces its descriptor alone. -/
  again : ∀ (i : Nat) (b : ArwsBackend), s.registry.backends[i]? = some b → ∀ fd, 0 ≤ fd →
    registerCounted s.registry b.name fd =
      ({ s.registry with backends := s.registry.backends.set i { b with fd := fd } }, b.id)
  fds : ∀ backendId, arwsGetBackendFd s.registry backendId =
    ((owner backendId s.log).bind fun name => latestFd name s.log).getD (-1)

/-- The counter is below the last `int` when it counts. -/
def CounterLeft (s : RegistryRun) : RegistryCall → Prop
  | .register name _ => s.registry.holds name = false → s.registry.backends.length < arwsMaxBackends →
      s.registry.nextBackendId < 2 ^ 31 - 1
  | .unregister _ => True

instance (s : RegistryRun) : ∀ call, Decidable (CounterLeft s call)
  | .register name _ => inferInstanceAs (Decidable (s.registry.holds name = false →
      s.registry.backends.length < arwsMaxBackends → s.registry.nextBackendId < 2 ^ 31 - 1))
  | .unregister _ => isTrue trivial

/-! ## What a run keeps -/

variable {s t : RegistryRun} {call : RegistryCall} {name : Bytes} {fd : Int}

structure KeptRight (s : RegistryRun) : Prop where
  proper : s.registry.Proper
  next : s.registry.nextBackendId < 2 ^ 31
  names : (s.registry.backends.map (·.name)).Nodup
  count : s.registry.backends.length ≤ arwsMaxBackends
  gone : ∀ id, (.unregister id, 0) ∈ s.log →
    0 < id ∧ id < s.registry.nextBackendId ∧ ¬ s.registry.hasId id
  spent : s.log.Pairwise fun later earlier => ∀ id name fd,
    earlier = (.unregister id, 0) → later ≠ (.register name fd, id)
  owned : ∀ b ∈ s.registry.backends,
    owner b.id s.log = some b.name ∧ latestFd b.name s.log = some b.fd
  owners : ∀ id name, owner id s.log = some name → s.registry.hasId id

theorem keptRight_init : KeptRight ⟨arwsRegistryInit, []⟩ where
  proper := proper_init
  next := by decide
  names := List.nodup_nil
  count := by decide
  gone _ h := absurd h List.not_mem_nil
  spent := .nil
  owned := by rintro b ⟨⟩
  owners := by rintro id name ⟨⟩

/-- An entry is told by its name. -/
theorem KeptRight.eq_of_name (h : KeptRight s) {b c : ArwsBackend} (hb : b ∈ s.registry.backends)
    (hc : c ∈ s.registry.backends) (hname : b.name = c.name) : b = c :=
  List.inj_on_of_nodup_map h.names hb hc hname

theorem KeptRight.hasName_iff (h : KeptRight s) {b : ArwsBackend} (hb : b ∈ s.registry.backends)
    (name : Bytes) : b.hasName name = true ↔ b.name = name := by
  rw [ArwsBackend.hasName, h.proper.registered b hb, Bool.true_and, beq_iff_eq]

theorem toInt_next (h : KeptRight s) : toInt s.registry.nextBackendId = s.registry.nextBackendId := by
  have hpos := h.proper.next
  have hnext := h.next
  simp only [toInt]
  omega

/-- The descriptor is replaced in the place of the entry. -/
theorem setFd_eq_set {bs : List ArwsBackend} {i : Nat} {b : ArwsBackend} (hget : bs[i]? = some b)
    (hname : b.hasName name = true) (hbefore : ∀ j < i, ∀ c ∈ bs[j]?, c.hasName name = false) :
    setFd name fd bs = bs.set i { b with fd := fd } := by
  induction bs generalizing i with
  | nil => cases hget
  | cons c bs ih =>
    cases i with
    | zero =>
      obtain rfl := Option.some.inj hget
      rw [setFd, if_pos hname]
      rfl
    | succ i =>
      have hc : c.hasName name = false := hbefore 0 (Nat.succ_pos i) c rfl
      rw [setFd, hc, if_neg (by decide), List.set_cons_succ,
        ih hget fun j hj d hd => hbefore (j + 1) (Nat.succ_lt_succ hj) d hd]

/-- To register a name that is there keeps its id, and replaces its descriptor alone. -/
theorem KeptRight.again (h : KeptRight s) {i : Nat} {b : ArwsBackend}
    (hget : s.registry.backends[i]? = some b) (hfd : 0 ≤ fd) : registerCounted s.registry b.name fd =
      ({ s.registry with backends := s.registry.backends.set i { b with fd := fd } }, b.id) := by
  have hb := List.mem_of_getElem? hget
  have hname := (h.hasName_iff hb b.name).2 rfl
  have hfind : s.registry.backends.find? (·.hasName b.name) = some b := by
    cases hfind : s.registry.backends.find? (·.hasName b.name) with
    | none => exact absurd hname (List.find?_eq_none.1 hfind b hb)
    | some c =>
      have hc := List.mem_of_find?_eq_some hfind
      have hcname := List.find?_some (p := fun c => ArwsBackend.hasName c b.name) hfind
      rw [h.eq_of_name hc hb ((h.hasName_iff hc _).1 hcname)]
  have hset := @setFd_eq_set b.name fd _ i b hget hname fun j hj c hc => by
    rw [← Bool.not_eq_true, h.hasName_iff (List.mem_of_getElem? hc)]
    intro hsame
    have hjget : (s.registry.backends.map (·.name))[j]? = (s.registry.backends.map (·.name))[i]? := by
      rw [List.getElem?_map, List.getElem?_map, hget, Option.mem_def.1 hc, Option.map_some, hsame,
        Option.map_some]
    have hlen : j < (s.registry.backends.map (·.name)).length := by
      rw [List.length_map]
      exact hj.trans (List.getElem?_eq_some_iff.1 hget).1
    exact absurd ((List.getElem?_inj hlen h.names).1 hjget) (Nat.ne_of_lt hj)
  rw [registerCounted, arwsRegisterBackend, if_neg (Int.not_lt.2 hfd), hfind]
  simp only [hset, toInt_next h]

/-- What the registry returns for an id. -/
theorem KeptRight.fds (h : KeptRight s) (backendId : Int) : arwsGetBackendFd s.registry backendId =
    ((owner backendId s.log).bind fun name => latestFd name s.log).getD (-1) := by
  rw [arwsGetBackendFd]
  cases hfind : s.registry.backends.find? (·.id == backendId) with
  | some b =>
    obtain ⟨howner, hlatest⟩ := h.owned b (List.mem_of_find?_eq_some hfind)
    have hid := List.find?_some hfind
    rw [← beq_iff_eq.1 hid, howner, Option.bind_some, hlatest]
    rfl
  | none =>
    cases howner : owner backendId s.log with
    | none => rfl
    | some name =>
      obtain ⟨b, hb, hid⟩ := h.owners _ _ howner
      exact absurd (beq_iff_eq.2 hid) (List.find?_eq_none.1 hfind b hb)

theorem KeptRight.right (h : KeptRight s) : RegistryRight s where
  ids := h.proper.nodup
  below b hb := (h.proper.ids b.id ⟨b, hb, rfl⟩).2
  names := h.names
  count := h.count
  spent := h.spent
  again _ _ hget _ hfd := h.again hget hfd
  fds := h.fds

/-! ## One call -/

theorem registryStep_register (hname : name.length < 64) (hfd : 0 ≤ fd) :
    registryStep s (.register name fd) = some ⟨(registerCounted s.registry name fd).1,
      (.register name fd, (registerCounted s.registry name fd).2) :: s.log⟩ :=
  if_pos ⟨hname, hfd⟩

/-- A new name that there is room for gets the next id. -/
theorem register_new {r : Registry} (hfd : 0 ≤ fd) (hnew : r.holds name = false)
    (hroom : r.backends.length < arwsMaxBackends) : arwsRegisterBackend r name fd =
      (⟨r.backends ++ [⟨r.nextBackendId, fd, 0, name.take 63, true⟩], r.nextBackendId + 1⟩,
        r.nextBackendId) := by
  have hnone : r.backends.find? (·.hasName name) = none := by
    rw [List.find?_eq_none]
    intro b hb hname
    rw [Registry.holds, ← Bool.not_eq_true, List.any_eq_true] at hnew
    exact hnew ⟨b, hb, hname⟩
  rw [arwsRegisterBackend, if_neg (Int.not_lt.2 hfd), hnone]
  exact if_neg (Nat.not_le.2 hroom)

/-- **What an unregistration does**: there is no entry with the id, or it takes away the one. -/
theorem unregister_split (r : Registry) (backendId : Int) :
    ((∀ b ∈ r.backends, b.id ≠ backendId) ∧ arwsUnregisterBackend r backendId = (r, -1)) ∨
      ∃ b bs, b.id = backendId ∧ r.backends.Perm (b :: bs) ∧
        arwsUnregisterBackend r backendId = ({ r with backends := bs }, 0) := by
  rw [arwsUnregisterBackend]
  obtain ⟨hnone, -⟩ | ⟨i, b, hfind, hget, hid, hperm⟩ :=
    Slots.dropSlot_findIdx?_cases (·.id == backendId) r.backends
  · rw [List.findIdx?_eq_none_iff.2 hnone]
    exact Or.inl ⟨fun b hb => beq_eq_false_iff_ne.1 (hnone b hb), rfl⟩
  · rw [hfind] at hperm ⊢
    exact Or.inr ⟨b, _, beq_iff_eq.1 hid, hperm, by simp only [removeAt_eq]; rfl⟩

/-- A registration that is refused. -/
theorem KeptRight.refused (h : KeptRight s) (name : Bytes) (fd : Int) :
    KeptRight ⟨s.registry, (.register name fd, -1) :: s.log⟩ where
  proper := h.proper
  next := h.next
  names := h.names
  count := h.count
  gone id hid := h.gone id (List.mem_of_ne_of_mem (by simp) hid)
  spent := by
    refine List.pairwise_cons.2 ⟨?_, h.spent⟩
    rintro earlier hmem id name fd rfl hsame
    have hpos := (h.gone id hmem).1
    have hid := (Prod.mk.inj hsame).2
    omega
  owned b hb := by
    rw [owner, latestFd, if_neg (by simp), if_neg (by simp)]
    exact h.owned b hb
  owners id name howner := by
    rw [owner, if_neg (by simp)] at howner
    exact h.owners id name howner

/-- An entry that is replaced by one with its id leaves the ids as they are. -/
theorem hasId_replaced {r : Registry} {b b' : ArwsBackend} {l₁ l₂ : List ArwsBackend}
    (hsplit : r.backends = l₁ ++ b :: l₂) (hid : b'.id = b.id) (id : Int) :
    Registry.hasId { r with backends := l₁ ++ b' :: l₂ } id ↔ r.hasId id := by
  simp only [Registry.hasId, hsplit, List.mem_append, List.mem_cons, or_and_right, exists_or, exists_eq_left,
    hid]

/-- The entries beside one that was replaced are old ones. -/
theorem mem_of_mem_replaced {b b' c : ArwsBackend} {l₁ l₂ : List ArwsBackend}
    (hnames : ((l₁ ++ b :: l₂).map (·.name)).Nodup) (hc : c ∈ l₁ ++ b' :: l₂) (hne : c ≠ b') :
    c ∈ l₁ ++ b :: l₂ ∧ c ≠ b := by
  rw [List.map_append, List.map_cons, List.nodup_append, List.nodup_cons] at hnames
  obtain ⟨-, ⟨hbehind, -⟩, hbefore⟩ := hnames
  rcases List.mem_append.1 hc with hmem | hmem
  · refine ⟨List.mem_append_left _ hmem, ?_⟩
    rintro rfl
    exact hbefore _ (List.mem_map_of_mem hmem) _ List.mem_cons_self rfl
  · replace hmem := (List.mem_cons.1 hmem).resolve_left hne
    refine ⟨List.mem_append_right _ (List.mem_cons_of_mem _ hmem), ?_⟩
    rintro rfl
    exact hbehind (List.mem_map_of_mem hmem)

/-- A registration of a name that is there. -/
theorem KeptRight.reregistered (h : KeptRight s) {b : ArwsBackend} {l₁ l₂ : List ArwsBackend}
    (hsplit : s.registry.backends = l₁ ++ b :: l₂) (hname : b.name = name)
    (hproper : Registry.Proper { s.registry with backends := l₁ ++ { b with fd := fd } :: l₂ }) :
    KeptRight ⟨{ s.registry with backends := l₁ ++ { b with fd := fd } :: l₂ },
      (.register name fd, b.id) :: s.log⟩ := by
  have hb : b ∈ s.registry.backends := by simp [hsplit]
  have hpos := (h.proper.ids b.id ⟨b, hb, rfl⟩).1
  have hids : ∀ id, Registry.hasId { s.registry with backends := l₁ ++ { b with fd := fd } :: l₂ } id ↔
      s.registry.hasId id := hasId_replaced hsplit rfl
  have hnames := h.names
  have hcount := h.count
  rw [hsplit] at hnames hcount
  refine ⟨hproper, h.next, ?_, ?_, fun id hid => ?_, ?_, fun c hc => ?_, fun id n howner => ?_⟩
  · simpa only [List.map_append, List.map_cons] using hnames
  · simpa only [List.length_append, List.length_cons] using hcount
  · obtain ⟨hlo, hhi, hno⟩ := h.gone id (List.mem_of_ne_of_mem (by simp) hid)
    exact ⟨hlo, hhi, fun hfound => hno ((hids id).1 hfound)⟩
  · refine List.pairwise_cons.2 ⟨?_, h.spent⟩
    rintro earlier hmem id n fd' rfl hsame
    exact (h.gone id hmem).2.2 ⟨b, hb, (Prod.mk.inj hsame).2⟩
  · by_cases hc' : c = { b with fd := fd }
    · subst hc'
      rw [owner, latestFd, if_pos ⟨rfl, by omega⟩, if_pos ⟨hname.symm, by omega⟩, hname]
      exact ⟨rfl, rfl⟩
    · -- another entry, with another id and another name
      have hold : c ∈ s.registry.backends ∧ c ≠ b := hsplit ▸ mem_of_mem_replaced hnames hc hc'
      obtain ⟨howner, hlatest⟩ := h.owned c hold.1
      have hid : b.id ≠ c.id := fun hsame => hold.2 (h.proper.eq_of_id hold.1 hb hsame.symm)
      have hne : name ≠ c.name := fun hsame =>
        hold.2 (h.eq_of_name hold.1 hb (hsame.symm.trans hname.symm))
      rw [owner, latestFd, if_neg fun hh => hid hh.1, if_neg fun hh => hne hh.1]
      exact ⟨howner, hlatest⟩
  · rw [owner] at howner
    split_ifs at howner with hid
    · exact (hids id).2 ⟨b, hb, hid.1⟩
    · exact (hids id).2 (h.owners id n howner)

/-- A registration of a new name. -/
theorem KeptRight.registered (h : KeptRight s) (hnew : s.registry.holds name = false)
    (hroom : s.registry.backends.length < arwsMaxBackends)
    (hleft : s.registry.nextBackendId < 2 ^ 31 - 1)
    (hproper : Registry.Proper ⟨s.registry.backends ++ [⟨s.registry.nextBackendId, fd, 0, name, true⟩],
      s.registry.nextBackendId + 1⟩) :
    KeptRight ⟨⟨s.registry.backends ++ [⟨s.registry.nextBackendId, fd, 0, name, true⟩],
      s.registry.nextBackendId + 1⟩, (.register name fd, s.registry.nextBackendId) :: s.log⟩ := by
  have hpos := h.proper.next
  have hold : ∀ b ∈ s.registry.backends, b.name ≠ name := by
    intro b hb hname
    rw [Registry.holds, ← Bool.not_eq_true, List.any_eq_true] at hnew
    exact hnew ⟨b, hb, (h.hasName_iff hb name).2 hname⟩
  have hlt : s.registry.nextBackendId + 1 < 2 ^ 31 := by omega
  refine ⟨hproper, hlt, ?_, ?_, fun id hid => ?_, ?_, fun c hc => ?_,
    fun id n howner => ?_⟩
  · rw [List.map_append, List.map_cons, List.map_nil, List.nodup_append]
    refine ⟨h.names, List.nodup_singleton _, ?_⟩
    rintro n hn _ hm rfl
    obtain ⟨b, hb, rfl⟩ := List.mem_map.1 hn
    exact hold b hb (List.mem_singleton.1 hm)
  · rw [List.length_append, List.length_singleton]
    omega
  · obtain ⟨hlo, hhi, hno⟩ := h.gone id (List.mem_of_ne_of_mem (by simp) hid)
    refine ⟨hlo, Int.lt_trans hhi (Int.lt_succ _), ?_⟩
    rintro ⟨c, hc, rfl⟩
    rcases List.mem_append.1 hc with hc | hc
    · exact hno ⟨c, hc, rfl⟩
    · rw [List.mem_singleton.1 hc] at hhi
      exact absurd hhi (Int.lt_irrefl _)
  · refine List.pairwise_cons.2 ⟨?_, h.spent⟩
    rintro earlier hmem id n fd' rfl hsame
    have hhi := (h.gone id hmem).2.1
    rw [← (Prod.mk.inj hsame).2] at hhi
    exact absurd hhi (Int.lt_irrefl _)
  · rcases List.mem_append.1 hc with hc | hc
    · obtain ⟨howner, hlatest⟩ := h.owned c hc
      have hid := (h.proper.ids c.id ⟨c, hc, rfl⟩).2
      rw [owner, latestFd, if_neg fun hh => by omega, if_neg fun hh => hold c hc hh.1.symm]
      exact ⟨howner, hlatest⟩
    · rw [List.mem_singleton.1 hc, owner, latestFd, if_pos ⟨rfl, by omega⟩,
        if_pos ⟨rfl, by omega⟩]
      exact ⟨rfl, rfl⟩
  · rw [owner] at howner
    split_ifs at howner with hid
    · exact ⟨_, List.mem_append_right _ (List.mem_singleton_self _), hid.1⟩
    · obtain ⟨b, hb, hbid⟩ := h.owners id n howner
      exact ⟨b, List.mem_append_left _ hb, hbid⟩

/-- An unregistration. -/
theorem KeptRight.unregistered (h : KeptRight s) (backendId : Int) :
    KeptRight ⟨(arwsUnregisterBackend s.registry backendId).1,
      (.unregister backendId, (arwsUnregisterBackend s.registry backendId).2) :: s.log⟩ := by
  have hproper := h.proper.unregister backendId
  have hnot := h.proper.not_hasId_unregister backendId
  obtain ⟨hnone, he⟩ | ⟨b, bs, rfl, hperm, he⟩ := unregister_split s.registry backendId
  · rw [he]
    refine ⟨h.proper, h.next, h.names, h.count, fun id hid => ?_, ?_, fun c hc => ?_,
      fun id n howner => ?_⟩
    · exact h.gone id (List.mem_of_ne_of_mem (by simp) hid)
    · exact List.pairwise_cons.2 ⟨fun _ _ _ _ _ _ hsame => (by cases hsame), h.spent⟩
    · rw [owner, latestFd, if_neg (by simp)]
      exact h.owned c hc
    · rw [owner, if_neg (by simp)] at howner
      exact h.owners id n howner
  · rw [he] at hproper hnot ⊢
    have hb : b ∈ s.registry.backends := hperm.mem_iff.2 List.mem_cons_self
    have hin : ∀ c ∈ bs, c ∈ s.registry.backends := fun c hc =>
      hperm.mem_iff.2 (List.mem_cons_of_mem _ hc)
    have hids := h.proper.ids b.id ⟨b, hb, rfl⟩
    refine ⟨hproper, h.next, ?_, ?_, fun id hid => ?_, ?_, fun c hc => ?_, fun id n howner => ?_⟩
    · exact (List.nodup_cons.1 ((hperm.map (·.name)).nodup_iff.1 h.names)).2
    · have hlen := hperm.length_eq
      have hcount := h.count
      rw [List.length_cons] at hlen
      simp only
      omega
    · by_cases hsame : id = b.id
      · subst hsame
        exact ⟨hids.1, hids.2, hnot⟩
      · obtain ⟨hlo, hhi, hno⟩ := h.gone id (List.mem_of_ne_of_mem (by simp [hsame]) hid)
        exact ⟨hlo, hhi, fun ⟨c, hc, hcid⟩ => hno ⟨c, hin c hc, hcid⟩⟩
    · exact List.pairwise_cons.2 ⟨fun _ _ _ _ _ _ hsame => (by cases hsame), h.spent⟩
    · have hne : b.id ≠ c.id := fun hsame => hnot ⟨c, hc, hsame.symm⟩
      rw [owner, latestFd, if_neg fun hh => hne hh.1]
      exact h.owned c (hin c hc)
    · rw [owner] at howner
      split_ifs at howner with hid
      obtain ⟨c, hc, rfl⟩ := h.owners id n howner
      rcases List.mem_cons.1 (hperm.mem_iff.1 hc) with rfl | hc
      · exact absurd ⟨rfl, rfl⟩ hid
      · exact ⟨c, hc, rfl⟩

/-! ## All runs -/

/-- **A step** keeps the registry right exactly if the counter is left. -/
theorem registryStep_iff (h : KeptRight s) (hs : registryStep s call = some t) :
    (CounterLeft s call → KeptRight t) ∧ (RegistryRight t → CounterLeft s call) := by
  cases call with
  | unregister backendId =>
    obtain rfl := Option.some.inj hs
    exact ⟨fun _ => h.unregistered backendId, fun _ => trivial⟩
  | register name fd =>
    have hcall : name.length < 64 ∧ 0 ≤ fd := (Option.ite_none_right_eq_some.1 hs).1
    obtain ⟨hshort, hfd⟩ := hcall
    rw [registryStep_register hshort hfd] at hs
    obtain rfl := Option.some.inj hs
    have hproper := h.proper.register name fd
    have htake : name.take 63 = name := List.take_of_length_le (by omega)
    simp only [registerCounted]
    obtain hr | ⟨b, l₁, l₂, hfind, hsplit, hr⟩ | ⟨hfind, hroom, hr⟩ :=
      register_split s.registry name fd
    · simp only [hr, toInt_next h]
      refine ⟨fun _ => h.refused name fd, fun _ hnew hroom => ?_⟩
      -- a new name that there is room for is not refused
      rw [register_new hfd hnew hroom] at hr
      have hnone : s.registry.nextBackendId = -1 := (Prod.mk.inj hr).2
      have hpos := h.proper.next
      omega
    · rw [hr] at hproper ⊢
      simp only [toInt_next h]
      have hb := List.mem_of_find?_eq_some hfind
      have hname := List.find?_some (p := fun c => ArwsBackend.hasName c name) hfind
      refine ⟨fun _ => h.reregistered hsplit ((h.hasName_iff hb name).1 hname) hproper,
        fun _ hnew => ?_⟩
      rw [Registry.holds, ← Bool.not_eq_true, List.any_eq_true] at hnew
      exact absurd ⟨b, hb, hname⟩ hnew
    · rw [hr] at hproper ⊢
      rw [htake] at hproper
      have hnew := holds_eq_false hfind
      have hpos := h.proper.next
      have hnext := h.next
      refine ⟨fun hleft => ?_, fun hright _ _ => ?_⟩
      · have hleft := hleft hnew hroom
        have hint : toInt (s.registry.nextBackendId + 1) = s.registry.nextBackendId + 1 := by
          simp only [toInt]
          omega
        simp only [hint, htake]
        exact h.registered hnew hroom hleft hproper
      · have hbelow := hright.below _ (List.mem_append_right _ (List.mem_singleton_self _))
        simp only [toInt] at hbelow
        omega

theorem keptRight_of_init (hs : registryRuns.init s) : KeptRight s := by
  cases (show s = ⟨arwsRegistryInit, []⟩ from hs)
  exact keptRight_init

/-- **The registry in every run**: it is what its calls made of it after each of them exactly if the
counter did not overflow. -/
theorem registryRight_iff (s : RegistryRun) : registryRuns.ReachUnder CounterLeft s ↔
    registryRuns.ReachUnder (fun s call => ∃ t, registryStep s call = some t ∧ RegistryRight t) s ∧
      RegistryRight s := by
  have hstep : ∀ s call t, KeptRight s → CounterLeft s call → registryStep s call = some t →
      KeptRight t := fun _ _ _ h hleft hs => (registryStep_iff h hs).1 hleft
  have hiff := Machine.reachUnder_iff (M := registryRuns) (C := CounterLeft) (P := RegistryRight)
    (fun _ => keptRight_of_init) hstep
    (fun _ _ _ h hs => ⟨(registryStep_iff h hs).2, fun hleft => ((registryStep_iff h hs).1 hleft).right⟩)
    (s := s)
  constructor
  · exact fun h => ⟨hiff.1 h, (h.invariant (fun _ => keptRight_of_init) hstep).right⟩
  · exact fun h => hiff.2 h.1

/-! ## The overflow -/

/-- A name that comes and goes. -/
def comesAndGoes : Nat → List (RegistryCall × Int)
  | 0 => []
  | n + 1 => (.unregister (n + 1), 0) :: (.register [97] 3, n + 1) :: comesAndGoes n

/-- What the registration of the name makes of an empty registry. -/
theorem register_empty (next : Int) : registerCounted ⟨[], next⟩ [97] 3 =
    (⟨[⟨next, 3, 0, [97], true⟩], toInt (next + 1)⟩, next) := rfl

theorem reach_comesAndGoes (n : Nat) (hn : n + 1 < 2 ^ 31) :
    registryRuns.Reach ⟨⟨[], (n : Int) + 1⟩, comesAndGoes n⟩ := by
  induction n with
  | zero => exact .start rfl
  | succ n ih =>
    have hnext : toInt ((n : Int) + 1 + 1) = n + 1 + 1 := toInt_natCast (n := n + 1 + 1) hn
    have hcome : registryStep ⟨⟨[], (n : Int) + 1⟩, comesAndGoes n⟩ (.register [97] 3) =
        some ⟨⟨[⟨n + 1, 3, 0, [97], true⟩], n + 1 + 1⟩, (.register [97] 3, n + 1) :: comesAndGoes n⟩ := by
      rw [registryStep_register (by decide) (by decide), register_empty, hnext]
    have hgo : registryStep
        ⟨⟨[⟨n + 1, 3, 0, [97], true⟩], n + 1 + 1⟩, (.register [97] 3, n + 1) :: comesAndGoes n⟩
        (.unregister (n + 1)) = some ⟨⟨[], (n : Int) + 1 + 1⟩, comesAndGoes (n + 1)⟩ := by
      simp [registryStep, arwsUnregisterBackend, removeAt, comesAndGoes]
    have hhere := Machine.ReachUnder.next (a := RegistryCall.register [97] 3) (ih (by omega)) trivial hcome
    have hlast := Machine.ReachUnder.next (a := RegistryCall.unregister (n + 1)) hhere trivial hgo
    push_cast
    exact hlast

/-- The last `int` is handed out, and the next id is below it. -/
theorem not_registryRight : ¬ ∀ s, registryRuns.Reach s → RegistryRight s := by
  intro h
  have hlast := reach_comesAndGoes (2 ^ 31 - 2) (by decide)
  have hstep := @registryStep_register ⟨⟨[], ((2 ^ 31 - 2 : Nat) : Int) + 1⟩, comesAndGoes (2 ^ 31 - 2)⟩
    [97] 3 (by decide) (by decide)
  rw [register_empty] at hstep
  have hbelow := (h _ (.next (a := .register [97] 3) hlast trivial hstep)).below _ List.mem_cons_self
  have hwrap : toInt (((2 ^ 31 - 2 : Nat) : Int) + 1 + 1) = -2 ^ 31 := by decide
  simp only [hwrap] at hbelow
  omega

end Gateway
end Arws

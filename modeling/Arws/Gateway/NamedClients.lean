import Arws.Gateway.QueryWait

/-!
# The names of the control connections

`named_add`, `named_find` and `named_remove`, called in any order.  `named_add` has two keys and one loop:
it writes to the first entry with the descriptor or with a name of the same application.

* `oneForEach_iff` — each descriptor and each application has one entry, and a descriptor that was
  removed is not found, in exactly the runs in which no call of `named_add` has two entries to write to.
* `not_oneForEach` — a connection that takes the name of another one has two entries.
-/

set_option autoImplicit false

namespace Arws
namespace Gateway

open CString Slots

inductive NamedCall
  | add (fd : Int) (name : Bytes)
  | remove (fd : Int)

structure NamedRun where
  named : List NamedClient
  /-- The descriptors that were removed and not added since. -/
  removed : List Int

/-- The calls, with the descriptors and the names that connections have. -/
def namedStep (maxClients : Nat) (s : NamedRun) : NamedCall → Option NamedRun
  | .add fd name =>
    if 0 ≤ fd ∧ name.length < 64 then
      some ⟨namedAdd maxClients s.named fd name, s.removed.filter (· != fd)⟩
    else none
  | .remove fd => if 0 ≤ fd then some ⟨namedRemove s.named fd, fd :: s.removed⟩ else none

def namedTable (maxClients : Nat) : Machine NamedRun NamedCall where
  init s := s = ⟨[], []⟩
  step := namedStep maxClients

/-- **The table is a partial function both ways**: no two entries have the same descriptor, no two have
names of the same application, and nobody is sent to a descriptor that was removed. -/
structure OneForEach (s : NamedRun) : Prop where
  fds : s.named.Pairwise fun c d => c.fd ≠ d.fd
  names : s.named.Pairwise fun c d => matchAppAlias c.name d.name = false
  removed : ∀ fd ∈ s.removed, ∀ name, namedFind s.named name ≠ fd

/-- The loop of `named_add` stops at the entry. -/
def NamedClient.isFor (fd : Int) (name : Bytes) (c : NamedClient) : Bool :=
  c.fd == fd || matchAppAlias c.name name

/-- There is one entry at most that `named_add` may write to. -/
def OneToWrite (s : NamedRun) : NamedCall → Prop
  | .add fd name => s.named.countP (·.isFor fd name) ≤ 1
  | .remove _ => True

instance (s : NamedRun) : ∀ call, Decidable (OneToWrite s call)
  | .add fd name => inferInstanceAs (Decidable (s.named.countP (·.isFor fd name) ≤ 1))
  | .remove _ => isTrue trivial

/-! ## Entries that are apart -/

variable {maxClients : Nat} {s t : NamedRun} {call : NamedCall}

theorem matchAppAlias_comm (a b : Bytes) : matchAppAlias a b = matchAppAlias b a := by
  rw [matchAppAlias, matchAppAlias, BEq.comm]
  congr 1
  exact congrArg appAliases.any (funext fun names => Bool.and_comm _ _)

/-- Two entries have neither the descriptor nor the application in common. -/
def ClientsApart (c d : NamedClient) : Prop := c.fd ≠ d.fd ∧ matchAppAlias c.name d.name = false

theorem ClientsApart.symm {c d : NamedClient} (h : ClientsApart c d) : ClientsApart d c :=
  ⟨h.1.symm, (matchAppAlias_comm _ _).trans h.2⟩

theorem isFor_eq_false_iff (fd : Int) (name : Bytes) (c : NamedClient) :
    c.isFor fd name = false ↔ ClientsApart ⟨fd, name⟩ c := by
  rw [NamedClient.isFor, Bool.or_eq_false_iff, beq_eq_false_iff_ne, ClientsApart, matchAppAlias_comm]
  exact and_congr_left' ne_comm

theorem namedFind_cases (named : List NamedClient) (name : Bytes) :
    namedFind named name = -1 ∨ ∃ c ∈ named, namedFind named name = c.fd := by
  rw [namedFind]
  cases hfind : named.find? fun c => matchAppAlias c.name name with
  | none => exact Or.inl rfl
  | some c => exact Or.inr ⟨c, List.mem_of_find?_eq_some hfind, rfl⟩

/-- What a run keeps: entries are apart from each other, and no entry has a descriptor that was removed. -/
structure KeptApart (s : NamedRun) : Prop where
  apart : s.named.Pairwise ClientsApart
  removed : ∀ fd ∈ s.removed, 0 ≤ fd ∧ ∀ c ∈ s.named, c.fd ≠ fd

theorem KeptApart.oneForEach (h : KeptApart s) : OneForEach s where
  fds := h.apart.imp And.left
  names := h.apart.imp And.right
  removed fd hfd name := by
    obtain ⟨hpos, hnone⟩ := h.removed fd hfd
    obtain he | ⟨c, hc, he⟩ := namedFind_cases s.named name
    · omega
    · exact he ▸ hnone c hc

/-! ## One call -/

theorem namedAdd_eq {fd : Int} {name : Bytes} (hshort : name.length < 64) (named : List NamedClient) :
    namedAdd maxClients named fd name = writeSlot (named.findIdx? (·.isFor fd name))
      (decide (named.length < maxClients)) ⟨fd, name⟩ named := by
  rw [namedAdd, List.take_of_length_le (by omega)]
  rfl

/-- **One call of `named_add`** leaves entries that are apart exactly if it had one to write to. -/
theorem pairwise_namedAdd_iff (h : s.named.Pairwise ClientsApart) {fd : Int} {name : Bytes}
    (hshort : name.length < 64) :
    (namedAdd maxClients s.named fd name).Pairwise ClientsApart ↔ OneToWrite s (.add fd name) := by
  rw [namedAdd_eq hshort]
  exact pairwise_writeSlot_iff (fun _ _ => ClientsApart.symm) h (isFor_eq_false_iff fd name) _

theorem keptApart_add (h : KeptApart s) {fd : Int} {name : Bytes} (hshort : name.length < 64)
    (hone : OneToWrite s (.add fd name)) :
    KeptApart ⟨namedAdd maxClients s.named fd name, s.removed.filter (· != fd)⟩ := by
  refine ⟨(pairwise_namedAdd_iff h.apart hshort).2 hone, fun g hg => ?_⟩
  obtain ⟨hg, hne⟩ := List.mem_filter.1 hg
  obtain ⟨hpos, hnone⟩ := h.removed g hg
  refine ⟨hpos, fun c hc => ?_⟩
  rcases mem_writeSlot hc with rfl | hc
  · exact (bne_iff_ne.1 hne).symm
  · exact hnone c hc

theorem keptApart_remove (h : KeptApart s) {fd : Int} (hfd : 0 ≤ fd) :
    KeptApart ⟨namedRemove s.named fd, fd :: s.removed⟩ := by
  have hgone : ∀ c ∈ namedRemove s.named fd, c.fd ≠ fd := by
    intro c hc
    obtain ⟨hnone, he⟩ | ⟨i, a, -, -, ha, hperm⟩ := dropSlot_findIdx?_cases (·.fd == fd) s.named
    · exact beq_eq_false_iff_ne.1 (hnone c (he ▸ hc))
    · have hapart := (hperm.pairwise_iff fun {c d} => ClientsApart.symm (c := c) (d := d)).1 h.apart
      have hne := ((List.pairwise_cons.1 hapart).1 c hc).1
      rw [beq_iff_eq.1 ha] at hne
      exact hne.symm
  refine ⟨pairwise_dropSlot (fun _ _ => ClientsApart.symm) h.apart _, fun g hg => ?_⟩
  rcases List.mem_cons.1 hg with rfl | hg
  · exact ⟨hfd, hgone⟩
  · exact ⟨(h.removed g hg).1, fun c hc => (h.removed g hg).2 c (mem_of_mem_dropSlot hc)⟩

theorem keptApart_step (h : KeptApart s) (hone : OneToWrite s call)
    (hs : namedStep maxClients s call = some t) : KeptApart t := by
  cases call with
  | add fd name =>
    obtain ⟨⟨-, hshort⟩, hs⟩ := Option.ite_none_right_eq_some.1 hs
    exact Option.some.inj hs ▸ keptApart_add h hshort hone
  | remove fd =>
    obtain ⟨hfd, hs⟩ := Option.ite_none_right_eq_some.1 hs
    exact Option.some.inj hs ▸ keptApart_remove h hfd

/-- A step leads to a table that is a partial function both ways exactly if there was one entry to write
to. -/
theorem oneForEach_step_iff (h : KeptApart s) (hs : namedStep maxClients s call = some t) :
    OneForEach t ↔ OneToWrite s call := by
  refine ⟨fun ht => ?_, fun hone => (keptApart_step h hone hs).oneForEach⟩
  cases call with
  | add fd name =>
    obtain ⟨⟨-, hshort⟩, hs⟩ := Option.ite_none_right_eq_some.1 hs
    obtain rfl := Option.some.inj hs
    exact (pairwise_namedAdd_iff h.apart hshort).1 (ht.fds.and ht.names)
  | remove fd => trivial

/-! ## All runs -/

/-- **The runs in which each descriptor and each application always has one entry** are those in which no
call of `named_add` has two entries to write to. -/
theorem oneForEach_iff (maxClients : Nat) (s : NamedRun) :
    (namedTable maxClients).ReachUnder OneToWrite s ↔
      (namedTable maxClients).ReachUnder
        (fun s call => ∃ t, (namedTable maxClients).step s call = some t ∧ OneForEach t) s ∧
      OneForEach s := by
  have hinit : ∀ s, (namedTable maxClients).init s → KeptApart s := by
    rintro s rfl
    exact ⟨.nil, fun _ h => absurd h List.not_mem_nil⟩
  have hstep : ∀ s call t, KeptApart s → OneToWrite s call →
      (namedTable maxClients).step s call = some t → KeptApart t :=
    fun _ _ _ h hone hs => keptApart_step h hone hs
  have hiff := @Machine.reachUnder_iff _ _ (namedTable maxClients) OneToWrite KeptApart OneForEach
    hinit hstep (fun _ _ _ h hs => oneForEach_step_iff h hs) s
  rw [← hiff]
  exact (and_iff_left_of_imp fun h => (h.invariant hinit hstep).oneForEach).symm

/-- **A connection takes the name of another one**, and is in the table twice. -/
theorem not_oneForEach : ¬ ∀ maxClients s, (namedTable maxClients).Reach s → OneForEach s := by
  intro h
  have hrun : ((namedTable 8).runUnder (fun _ _ => True) ⟨[], []⟩
      [.add 5 [97], .add 6 [98], .add 6 [97]]).map (·.named) = some [⟨6, [97]⟩, ⟨6, [98]⟩] := by
    decide +kernel
  obtain ⟨s, hs, hnamed⟩ := Option.map_eq_some_iff.1 hrun
  have hfds := (h 8 s (Machine.reachUnder_of_runUnder (.start rfl) hs)).fds
  rw [hnamed] at hfds
  exact (List.pairwise_cons.1 hfds).1 ⟨6, [98]⟩ (List.mem_singleton_self _) rfl

end Gateway
end Arws

import Arws.Library.LowestFree
import Arws.Library.Transition

/-!
# Descriptors and descriptor sets

`server_start` asks for 65536 descriptors and admits as many connections, while an `fd_set` has room for
the numbers below 1024.  Three functions put a descriptor into a set whatever its number is:
`peek_is_ipc_frame` the one of a control connection, `arws_stream_proxy_forward` that of the upstream
and after a 101 that of the client, and `probe_tcp_node` its own.

The machine is the whole process: who holds which descriptor, and the kernel, which hands out the lowest
free number.

* `SetsFit` — every number that was put into a set is below `FD_SETSIZE`.
* `setsFit_iff` — the runs that keep to this are those in which each descriptor that is put into a set
  was created while a number below `FD_SETSIZE` was free; so it is as long as fewer than 1024 descriptors
  are open.
* `not_setsFit` — a thousand idle connections are enough.
-/

set_option autoImplicit false

namespace Arws
namespace Server

/-- `FD_SETSIZE`. -/
def fdSetsize : ℕ := 1024

/-- `MAX_CONNECTIONS`. -/
def maxConnections : ℕ := 65536

/-- The `RLIMIT_NOFILE` of `server_start`. -/
def maxDescriptors : ℕ := 65536

/-- `POOL_SIZE`. -/
def poolSize : ℕ := 512

/-- `QUEUE_SIZE`. -/
def queueSize : ℕ := 16384

/-- A descriptor that was created while certain numbers were in use. -/
structure Descriptor where
  among : Finset ℕ
  within : lowestFree among < maxDescriptors

/-- Its number. -/
def Descriptor.fd (d : Descriptor) : ℕ := lowestFree d.among

/-- No number that fits a set is free. -/
def Crowded (used : Finset ℕ) : Prop := ∀ k < fdSetsize, k ∈ used

/-- A descriptor is created, if the limit allows for it. -/
def create (used : Finset ℕ) : Option Descriptor :=
  if h : lowestFree used < maxDescriptors then some ⟨used, h⟩ else none

/-! ## Who holds a descriptor -/

/-- How far `arws_stream_proxy_forward` is. -/
inductive Forwarding
  | idle
  /-- The request is being sent. -/
  | sending (target : Descriptor)
  /-- The sending failed and the descriptor was closed. -/
  | retrying
  /-- The response is read and relayed. -/
  | relaying (target : Descriptor)
  /-- After a 101. -/
  | upgraded (target : Descriptor)

/-- A connection a worker serves. -/
structure Serving where
  client : Descriptor
  forwarding : Forwarding

def Forwarding.target : Forwarding → Option Descriptor
  | idle => none
  | sending target => some target
  | retrying => none
  | relaying target => some target
  | upgraded target => some target

def Serving.held (w : Serving) : List Descriptor := w.client :: w.forwarding.target.toList

/-- What is put into the set before the next `select`. -/
def Serving.watched (w : Serving) : List Descriptor :=
  match w.forwarding with
  | .relaying target => [target]
  | .upgraded target => [target, w.client]
  | _ => []

structure Process where
  /-- What everything else in the process has open. -/
  others : Finset ℕ
  activeConnections : ℕ
  /-- A connection for which the accept loop looks whether there is room. -/
  accepted : Option Descriptor
  /-- A connection in `pool_push`. -/
  pushing : Option Descriptor
  jobQueue : List Descriptor
  serving : List Serving
  /-- A control connection that was accepted. -/
  adminAccepted : Option Descriptor
  adminClients : List Descriptor
  /-- The descriptor of `probe_tcp_node`. -/
  probing : Option Descriptor
  /-- The numbers that were put into a set so far. -/
  watched : List ℕ

namespace Process

/-- The descriptors of connections and probes. -/
def held (s : Process) : List Descriptor :=
  s.accepted.toList ++ s.pushing.toList ++ s.jobQueue ++ s.serving.flatMap Serving.held ++
    s.adminAccepted.toList ++ s.adminClients ++ s.probing.toList

/-- The numbers in use. -/
def used (s : Process) : Finset ℕ := s.others ∪ (s.held.map Descriptor.fd).toFinset

end Process

/-! ## What the threads do -/

inductive WorkerAct
  | connect
  | fail
  | sent
  | upgrade
  | release

/-- A step of `arws_stream_proxy_forward` that creates or closes a descriptor, or comes behind one
that does. -/
def Forwarding.turn (used : Finset ℕ) : Forwarding → WorkerAct → Option Forwarding
  | idle, .connect => (create used).map sending
  | sending _, .fail => some retrying
  | retrying, .connect => (create used).map relaying
  | sending target, .sent => some (relaying target)
  | relaying target, .upgrade => some (upgraded target)
  | idle, .release => none
  | _, .release => some idle
  | _, _ => none

inductive ProcessAct
  /-- The accept loop of `server_start`. -/
  | accept
  | count (alloc : Bool)
  | poolPush
  | poolPop
  /-- The worker that serves a connection. -/
  | worker (i : ℕ) (act : WorkerAct)
  | select (i : ℕ)
  | finish (i : ℕ)
  /-- `accept_loop` and `client_handler_loop`. -/
  | acceptAdmin
  | addClient
  | peek (i : ℕ)
  | closeAdmin (i : ℕ)
  /-- `probe_tcp_node`. -/
  | probe
  | probeSelect
  | probeEnd
  /-- Anything else. -/
  | openOther
  | closeOther (n : ℕ)

/-- The descriptors an action puts into a set. -/
def watches (s : Process) : ProcessAct → List Descriptor
  | .select i => s.serving[i]?.elim [] Serving.watched
  | .peek i => s.adminClients[i]?.toList
  | .probeSelect => s.probing.toList
  | _ => []

/-- The process behind an action; `maxClients` is `AR_IPC_MAX_CLIENTS`. -/
def processStep (maxClients : ℕ) (s : Process) (act : ProcessAct) : Option Process :=
  match act with
  | .accept =>
    if s.accepted = none ∧ s.pushing = none then
      (create s.used).map fun d => { s with accepted := some d }
    else none
  | .count alloc =>
    s.accepted.map fun d =>
      if s.activeConnections ≥ maxConnections ∨ alloc = false then { s with accepted := none }
      else { s with
        accepted := none
        pushing := some d
        activeConnections := s.activeConnections + 1 }
  | .poolPush =>
    s.pushing.bind fun d =>
      if s.jobQueue.length < queueSize then
        some { s with pushing := none, jobQueue := s.jobQueue ++ [d] }
      else none
  | .poolPop =>
    match s.jobQueue with
    | [] => none
    | d :: jobs =>
      if s.serving.length < poolSize then
        some { s with jobQueue := jobs, serving := s.serving ++ [⟨d, .idle⟩] }
      else none
  | .worker i act =>
    s.serving[i]?.bind fun w => (w.forwarding.turn s.used act).map fun f =>
      { s with serving := s.serving.set i ⟨w.client, f⟩ }
  | .finish i =>
    s.serving[i]?.bind fun w =>
      if w.forwarding.target = none then
        some { s with
          serving := s.serving.eraseIdx i, activeConnections := s.activeConnections - 1 }
      else none
  | .acceptAdmin =>
    if s.adminAccepted = none then
      (create s.used).map fun d => { s with adminAccepted := some d }
    else none
  | .addClient =>
    s.adminAccepted.map fun d =>
      if s.adminClients.length < maxClients then
        { s with adminAccepted := none, adminClients := s.adminClients ++ [d] }
      else { s with adminAccepted := none }
  | .closeAdmin i =>
    if i < s.adminClients.length then
      some { s with adminClients := s.adminClients.eraseIdx i }
    else none
  | .probe =>
    if s.probing = none then (create s.used).map fun d => { s with probing := some d } else none
  | .probeEnd => s.probing.map fun _ => { s with probing := none }
  | .openOther => (create s.used).map fun d => { s with others := insert d.fd s.others }
  | .closeOther n => if n ∈ s.others then some { s with others := s.others.erase n } else none
  | act =>
    if watches s act = [] then none
    else some { s with watched := s.watched ++ (watches s act).map Descriptor.fd }

/-- A process that has opened what it needs to listen, and serves nobody yet. -/
def processMachine (maxClients : ℕ) : Machine Process ProcessAct where
  init s := ∃ others, s = ⟨others, 0, none, none, [], [], none, [], none, []⟩
  step := processStep maxClients

/-- **Every number that was put into a set fits it.** -/
def SetsFit (s : Process) : Prop := ∀ fd ∈ s.watched, fd < fdSetsize

/-- What is put into a set was created while a number that fits was free. -/
def Roomy (s : Process) (act : ProcessAct) : Prop := ∀ d ∈ watches s act, ¬ Crowded d.among

/-! ## Numbers -/

theorem create_eq_some {used : Finset ℕ} {d : Descriptor} (h : create used = some d) :
    d.among = used := by
  rw [create] at h
  split_ifs at h
  cases h
  rfl

/-- **A number fits a set** just when its descriptor was created while one that fits was free. -/
theorem fd_lt_iff {d : Descriptor} : d.fd < fdSetsize ↔ ¬ Crowded d.among := by
  rw [Descriptor.fd, lowestFree_lt_iff, Crowded]
  simp only [not_forall, exists_prop]

theorem not_crowded_of_card_lt {used : Finset ℕ} (h : used.card < fdSetsize) : ¬ Crowded used := by
  obtain ⟨k, hk, hfree⟩ := lowestFree_lt_iff.1 ((lowestFree_le_card used).trans_lt h)
  exact fun hcrowded => hfree (hcrowded k hk)

/-! ## What a step does -/

variable {maxClients : ℕ} {s t : Process} {act : ProcessAct}

theorem mem_held {d : Descriptor} : d ∈ s.held ↔ s.accepted = some d ∨ s.pushing = some d ∨
    d ∈ s.jobQueue ∨ (∃ w ∈ s.serving, d ∈ w.held) ∨ s.adminAccepted = some d ∨
      d ∈ s.adminClients ∨ s.probing = some d := by
  simp only [Process.held, List.mem_append, Option.mem_toList, List.mem_flatMap,
    or_assoc]

/-- What a step puts into a set, and what it leaves open: that was open, or it created it. -/
structure Effect (s t : Process) (watches : List Descriptor) : Prop where
  watched : t.watched = s.watched ++ watches.map Descriptor.fd
  held : ∀ d ∈ t.held, d ∈ s.held ∨ d.among = s.used

/-- A step that puts nothing into a set. -/
theorem Effect.of_held (hwatched : t.watched = s.watched)
    (hheld : ∀ d ∈ t.held, d ∈ s.held ∨ d.among = s.used) : Effect s t [] :=
  ⟨by rw [hwatched, List.map_nil, List.append_nil], hheld⟩

theorem Forwarding.mem_target_of_turn {used : Finset ℕ} {f g : Forwarding} {act : WorkerAct}
    (h : f.turn used act = some g) {d : Descriptor} (hd : g.target = some d) :
    f.target = some d ∨ d.among = used := by
  unfold Forwarding.turn at h
  split at h
  · obtain ⟨target, htarget, rfl⟩ := Option.map_eq_some_iff.1 h
    cases hd
    exact Or.inr (create_eq_some htarget)
  · cases h
    cases hd
  · obtain ⟨target, htarget, rfl⟩ := Option.map_eq_some_iff.1 h
    cases hd
    exact Or.inr (create_eq_some htarget)
  · cases h
    exact Or.inl hd
  · cases h
    exact Or.inl hd
  · cases h
  · cases h
    cases hd
  · cases h

theorem effect_of_step (h : processStep maxClients s act = some t) :
    Effect s t (watches s act) := by
  cases act with
  | accept =>
    obtain ⟨-, h⟩ := Option.ite_none_right_eq_some.1 h
    obtain ⟨d, hd, rfl⟩ := Option.map_eq_some_iff.1 h
    refine .of_held rfl fun x hx => ?_
    rw [mem_held] at hx ⊢
    obtain hx | hx := hx
    · cases hx
      exact Or.inr (create_eq_some hd)
    · exact Or.inl (Or.inr hx)
  | count alloc =>
    obtain ⟨d, hd, rfl⟩ := Option.map_eq_some_iff.1 h
    split_ifs
    · exact .of_held rfl fun x hx => Or.inl (by rw [mem_held] at hx ⊢; grind)
    · exact .of_held rfl fun x hx => Or.inl (by rw [mem_held] at hx ⊢; grind)
  | poolPush =>
    obtain ⟨d, hd, h⟩ := Option.bind_eq_some_iff.1 h
    obtain ⟨-, h⟩ := Option.ite_none_right_eq_some.1 h
    cases h
    exact .of_held rfl fun x hx => Or.inl (by rw [mem_held] at hx ⊢; grind)
  | poolPop =>
    simp only [processStep] at h
    split at h
    · cases h
    · rename_i d jobs hjobs
      obtain ⟨-, h⟩ := Option.ite_none_right_eq_some.1 h
      cases h
      refine .of_held rfl fun x hx => Or.inl ?_
      rw [mem_held] at hx ⊢
      have hnew : Serving.held ⟨d, .idle⟩ = [d] := rfl
      grind
  | worker i act =>
    obtain ⟨w, hw, h⟩ := Option.bind_eq_some_iff.1 h
    obtain ⟨f, hf, rfl⟩ := Option.map_eq_some_iff.1 h
    refine .of_held rfl fun x hx => ?_
    have hheld : x ∈ Serving.held ⟨w.client, f⟩ → x ∈ w.held ∨ x.among = s.used := by
      intro hx
      obtain rfl | hx := List.mem_cons.1 hx
      · exact Or.inl (List.mem_cons_self ..)
      · exact (Forwarding.mem_target_of_turn hf (Option.mem_toList.1 hx)).imp_left fun ht =>
          List.mem_cons_of_mem _ (Option.mem_toList.2 ht)
    have hmem : w ∈ s.serving := List.mem_of_getElem? hw
    rw [mem_held] at hx ⊢
    obtain hx | hx | hx | ⟨v, hv, hx⟩ | hx := hx
    · exact Or.inl (Or.inl hx)
    · exact Or.inl (Or.inr (Or.inl hx))
    · exact Or.inl (Or.inr (Or.inr (Or.inl hx)))
    · obtain hv | rfl := List.mem_or_eq_of_mem_set hv
      · exact Or.inl (Or.inr (Or.inr (Or.inr (Or.inl ⟨v, hv, hx⟩))))
      · exact (hheld hx).imp_left fun hx => Or.inr (Or.inr (Or.inr (Or.inl ⟨w, hmem, hx⟩)))
    · exact Or.inl (Or.inr (Or.inr (Or.inr (Or.inr hx))))
  | finish i =>
    obtain ⟨w, hw, h⟩ := Option.bind_eq_some_iff.1 h
    obtain ⟨-, h⟩ := Option.ite_none_right_eq_some.1 h
    cases h
    refine .of_held rfl fun x hx => Or.inl ?_
    rw [mem_held] at hx ⊢
    grind [List.mem_of_mem_eraseIdx]
  | addClient =>
    obtain ⟨d, hd, rfl⟩ := Option.map_eq_some_iff.1 h
    split_ifs
    · exact .of_held rfl fun x hx => Or.inl (by rw [mem_held] at hx ⊢; grind)
    · exact .of_held rfl fun x hx => Or.inl (by rw [mem_held] at hx ⊢; grind)
  | closeAdmin i =>
    obtain ⟨-, h⟩ := Option.ite_none_right_eq_some.1 h
    cases h
    refine .of_held rfl fun x hx => Or.inl ?_
    rw [mem_held] at hx ⊢
    grind [List.mem_of_mem_eraseIdx]
  | acceptAdmin | probe =>
    obtain ⟨-, h⟩ := Option.ite_none_right_eq_some.1 h
    obtain ⟨d, hd, rfl⟩ := Option.map_eq_some_iff.1 h
    refine .of_held rfl fun x hx => ?_
    have := create_eq_some hd
    rw [mem_held] at hx ⊢
    grind
  | probeEnd =>
    obtain ⟨d, hd, rfl⟩ := Option.map_eq_some_iff.1 h
    exact .of_held rfl fun x hx => Or.inl (by rw [mem_held] at hx ⊢; grind)
  | openOther =>
    obtain ⟨d, -, rfl⟩ := Option.map_eq_some_iff.1 h
    exact .of_held rfl fun x hx => Or.inl hx
  | closeOther n =>
    obtain ⟨-, h⟩ := Option.ite_none_right_eq_some.1 h
    cases h
    exact .of_held rfl fun x hx => Or.inl hx
  | select i | peek i | probeSelect =>
    obtain ⟨-, h⟩ := Option.ite_none_left_eq_some.1 h
    cases h
    exact ⟨rfl, fun x hx => Or.inl hx⟩

theorem Serving.mem_held_of_mem_watched {w : Serving} {d : Descriptor} (h : d ∈ w.watched) :
    d ∈ w.held := by
  obtain ⟨client, forwarding⟩ := w
  cases forwarding with
  | relaying target => exact List.mem_cons_of_mem _ h
  | upgraded target =>
    obtain rfl | h := List.mem_cons.1 h
    · exact List.mem_cons_of_mem _ (List.mem_singleton_self _)
    · exact List.mem_cons.2 (Or.inl (List.mem_singleton.1 h))
  | _ => exact absurd h List.not_mem_nil

theorem mem_held_of_mem_watches {d : Descriptor} (h : d ∈ watches s act) : d ∈ s.held := by
  rw [mem_held]
  cases act with
  | select i =>
    cases hw : s.serving[i]? with
    | none =>
      rw [watches, hw] at h
      exact absurd h List.not_mem_nil
    | some w =>
      rw [watches, hw] at h
      exact Or.inr (Or.inr (Or.inr (Or.inl
        ⟨w, List.mem_of_getElem? hw, Serving.mem_held_of_mem_watched h⟩)))
  | peek i =>
    have := List.mem_of_getElem? (Option.mem_toList.1 h)
    exact Or.inr (Or.inr (Or.inr (Or.inr (Or.inr (Or.inl this)))))
  | probeSelect =>
    exact Or.inr (Or.inr (Or.inr (Or.inr (Or.inr (Or.inr (Option.mem_toList.1 h))))))
  | _ => exact absurd h List.not_mem_nil

/-- The runs in which every number fits are those in which each descriptor that is put into a set was
created while a number that fits was free. -/
theorem reachUnder_roomy_iff :
    (processMachine maxClients).ReachUnder Roomy s ↔
      (processMachine maxClients).Reach s ∧ SetsFit s := by
  refine Machine.reachUnder_iff_reach_and (I := fun _ => True) ?_ (fun _ _ _ _ _ => trivial) ?_
  · rintro s ⟨others, rfl⟩
    exact ⟨trivial, fun fd hfd => absurd hfd List.not_mem_nil⟩
  · intro s act t _ hs
    simp only [SetsFit, (effect_of_step hs).watched, List.forall_mem_append, List.forall_mem_map, fd_lt_iff,
      Roomy]

/-- Every number fits as long as few descriptors are open. -/
theorem setsFit_of_few
    (h : (processMachine maxClients).ReachUnder (fun s _ => s.used.card < fdSetsize) s) :
    SetsFit s := by
  have hall : SetsFit s ∧ ∀ d ∈ s.held, ¬ Crowded d.among := by
    refine h.invariant (I := fun s => SetsFit s ∧ ∀ d ∈ s.held, ¬ Crowded d.among) ?_ ?_
    · rintro s ⟨others, rfl⟩
      exact ⟨fun fd hfd => absurd hfd List.not_mem_nil, fun d hd => absurd hd List.not_mem_nil⟩
    · rintro s act t ⟨hfits, hroomy⟩ hfew hs
      refine ⟨?_, fun d hd => ?_⟩
      · rw [SetsFit, (effect_of_step hs).watched, List.forall_mem_append, List.forall_mem_map]
        exact ⟨hfits, fun d hd => fd_lt_iff.2 (hroomy d (mem_held_of_mem_watches hd))⟩
      · obtain hd | hd := (effect_of_step hs).held d hd
        · exact hroomy d hd
        · rw [hd]
          exact not_crowded_of_card_lt hfew
  exact hall.1

/-- **When every number fits**: exactly in the runs in which what is put into a set was created while
a number that fits was free, and so in all runs in which few descriptors are open. -/
theorem setsFit_iff (maxClients : ℕ) :
    (∀ s, (processMachine maxClients).ReachUnder Roomy s ↔
      (processMachine maxClients).Reach s ∧ SetsFit s) ∧
    ∀ s, (processMachine maxClients).ReachUnder (fun s _ => s.used.card < fdSetsize) s → SetsFit s :=
  ⟨fun _ => reachUnder_roomy_iff, fun _ => setsFit_of_few⟩

/-! ## How many connections there are -/

/-- A connection is counted from its admission until its worker is done with it. -/
structure Counted (s : Process) : Prop where
  loop : s.accepted = none ∨ s.pushing = none
  active : s.activeConnections = s.pushing.toList.length + s.jobQueue.length + s.serving.length
  queue : s.jobQueue.length ≤ queueSize
  pool : s.serving.length ≤ poolSize

theorem counted_of_step (h : Counted s) (hs : processStep maxClients s act = some t) :
    Counted t := by
  obtain ⟨hloop, hactive, hqueue, hpool⟩ := h
  cases act with
  | accept =>
    obtain ⟨⟨-, hpushing⟩, hs⟩ := Option.ite_none_right_eq_some.1 hs
    obtain ⟨d, -, rfl⟩ := Option.map_eq_some_iff.1 hs
    exact ⟨Or.inr hpushing, hactive, hqueue, hpool⟩
  | count alloc =>
    obtain ⟨d, hd, rfl⟩ := Option.map_eq_some_iff.1 hs
    have hnone : s.pushing = none := hloop.resolve_left (Option.ne_none_iff_exists'.2 ⟨d, hd⟩)
    split_ifs
    · exact ⟨Or.inl rfl, hactive, hqueue, hpool⟩
    · refine ⟨Or.inl rfl, ?_, hqueue, hpool⟩
      rw [hnone] at hactive
      simp only [Option.toList_none, Option.toList_some, List.length_nil, List.length_singleton]
        at hactive ⊢
      omega
  | poolPush =>
    obtain ⟨d, hd, hs⟩ := Option.bind_eq_some_iff.1 hs
    obtain ⟨hroom, hs⟩ := Option.ite_none_right_eq_some.1 hs
    cases hs
    rw [hd] at hactive
    refine ⟨Or.inr rfl, ?_, ?_, hpool⟩
    · simp only [Option.toList_none, Option.toList_some, List.length_nil, List.length_singleton,
        List.length_append] at hactive ⊢
      omega
    · rw [List.length_append, List.length_singleton]
      exact hroom
  | poolPop =>
    simp only [processStep] at hs
    split at hs
    · cases hs
    · rename_i d jobs hjobs
      obtain ⟨hroom, hs⟩ := Option.ite_none_right_eq_some.1 hs
      cases hs
      rw [hjobs, List.length_cons] at hactive hqueue
      refine ⟨hloop, ?_, ?_, ?_⟩
      · simp only [List.length_append, List.length_singleton]
        omega
      · exact Nat.le_of_succ_le hqueue
      · rw [List.length_append, List.length_singleton]
        exact hroom
  | worker i act =>
    obtain ⟨w, -, hs⟩ := Option.bind_eq_some_iff.1 hs
    obtain ⟨f, -, rfl⟩ := Option.map_eq_some_iff.1 hs
    exact ⟨hloop, by rw [hactive, List.length_set], hqueue, by rw [List.length_set]; exact hpool⟩
  | finish i =>
    obtain ⟨w, hw, hs⟩ := Option.bind_eq_some_iff.1 hs
    obtain ⟨-, hs⟩ := Option.ite_none_right_eq_some.1 hs
    cases hs
    obtain ⟨hi, -⟩ := List.getElem?_eq_some_iff.1 hw
    refine ⟨hloop, ?_, hqueue, ?_⟩
    · simp only [List.length_eraseIdx_of_lt hi]
      omega
    · simp only [List.length_eraseIdx_of_lt hi]
      omega
  | select i | peek i | probeSelect =>
    obtain ⟨-, hs⟩ := Option.ite_none_left_eq_some.1 hs
    cases hs
    exact ⟨hloop, hactive, hqueue, hpool⟩
  | addClient =>
    obtain ⟨d, -, rfl⟩ := Option.map_eq_some_iff.1 hs
    split_ifs
    · exact ⟨hloop, hactive, hqueue, hpool⟩
    · exact ⟨hloop, hactive, hqueue, hpool⟩
  | acceptAdmin | probe =>
    obtain ⟨-, hs⟩ := Option.ite_none_right_eq_some.1 hs
    obtain ⟨d, -, rfl⟩ := Option.map_eq_some_iff.1 hs
    exact ⟨hloop, hactive, hqueue, hpool⟩
  | probeEnd | openOther =>
    obtain ⟨d, -, rfl⟩ := Option.map_eq_some_iff.1 hs
    exact ⟨hloop, hactive, hqueue, hpool⟩
  | closeAdmin i | closeOther i =>
    obtain ⟨-, hs⟩ := Option.ite_none_right_eq_some.1 hs
    cases hs
    exact ⟨hloop, hactive, hqueue, hpool⟩

/-- **The queue is full long before `MAX_CONNECTIONS` is reached**: with a connection in `pool_push` the
accept loop waits. -/
theorem activeConnections_le (h : (processMachine maxClients).Reach s) :
    s.activeConnections ≤ queueSize + poolSize + 1 := by
  have hcounted : Counted s := by
    refine h.invariant (I := Counted) ?_ fun s act t hI _ hs => counted_of_step hI hs
    rintro s ⟨others, rfl⟩
    exact ⟨Or.inl rfl, rfl, Nat.zero_le _, Nat.zero_le _⟩
  have hpushing : s.pushing.toList.length ≤ 1 := by cases s.pushing <;> simp
  have := hcounted.active
  have := hcounted.queue
  have := hcounted.pool
  omega

/-! ## A thousand connections -/

/-- A process with the descriptors it starts and listens with, and connections in its queue. -/
private def waiting (jobs : List Descriptor) : Process :=
  ⟨Finset.range 5, jobs.length, none, none, jobs, [], none, [], none, []⟩

private theorem reach_step (h : (processMachine maxClients).Reach s)
    (hs : processStep maxClients s act = some t) : (processMachine maxClients).Reach t :=
  .next h trivial hs

private theorem exists_create {n : ℕ} (hn : n < maxDescriptors) :
    ∃ d, create (Finset.range n) = some d ∧ d.fd = n := by
  have hlt : lowestFree (Finset.range n) < maxDescriptors := by rwa [lowestFree_range]
  exact ⟨⟨_, hlt⟩, dif_pos hlt, lowestFree_range n⟩

/-- So many connections are accepted, and wait. -/
private theorem exists_waiting {n : ℕ} (hn : n ≤ 1019) : ∃ jobs : List Descriptor,
    jobs.length = n ∧ (processMachine 1).Reach (waiting jobs) ∧
      (waiting jobs).used = Finset.range (n + 5) := by
  induction n with
  | zero => exact ⟨[], rfl, .start ⟨_, rfl⟩, by decide⟩
  | succ n ih =>
    obtain ⟨jobs, hlen, hreach, hused⟩ := ih (by omega)
    obtain ⟨d, hd, hfd⟩ := exists_create (show n + 5 < maxDescriptors by rw [maxDescriptors]; omega)
    rw [← hused] at hd
    have haccept : processStep 1 (waiting jobs) .accept =
        some ⟨Finset.range 5, jobs.length, some d, none, jobs, [], none, [], none, []⟩ := by
      rw [processStep, if_pos ⟨rfl, rfl⟩, hd]
      rfl
    have hcount : processStep 1
        ⟨Finset.range 5, jobs.length, some d, none, jobs, [], none, [], none, []⟩ (.count true) =
          some ⟨Finset.range 5, jobs.length + 1, none, some d, jobs, [], none, [], none, []⟩ := by
      have hfew : ¬ (jobs.length ≥ maxConnections ∨ true = false) := by
        simp only [maxConnections, Bool.true_eq_false, or_false]
        omega
      exact congrArg some (if_neg hfew)
    have hpush : processStep 1
        ⟨Finset.range 5, jobs.length + 1, none, some d, jobs, [], none, [], none, []⟩ .poolPush =
          some (waiting (jobs ++ [d])) := by
      have hroom : jobs.length < queueSize := by
        rw [queueSize]
        omega
      have hqueued : waiting (jobs ++ [d]) =
          ⟨Finset.range 5, jobs.length + 1, none, none, jobs ++ [d], [], none, [], none, []⟩ := by
        rw [waiting, List.length_append]
        rfl
      rw [hqueued]
      exact if_pos hroom
    have hnumbers : (waiting (jobs ++ [d])).used = insert d.fd (waiting jobs).used := by
      ext k
      simp [waiting, Process.used, Process.held, or_left_comm]
    refine ⟨jobs ++ [d], by rw [List.length_append, hlen]; rfl,
      reach_step (reach_step (reach_step hreach haccept) hcount) hpush, ?_⟩
    rw [hnumbers, hused, hfd, ← Finset.range_add_one]

/-- **With a thousand idle connections, the descriptor of a control connection does not fit.** -/
theorem not_setsFit : ¬ ∀ maxClients s, (processMachine maxClients).Reach s → SetsFit s := by
  intro h
  obtain ⟨jobs, hlen, hreach, hused⟩ := exists_waiting (le_refl 1019)
  obtain ⟨d, hd, hfd⟩ := exists_create (show 1024 < maxDescriptors by decide)
  rw [← hused] at hd
  have haccept : processStep 1 (waiting jobs) .acceptAdmin =
      some ⟨Finset.range 5, jobs.length, none, none, jobs, [], some d, [], none, []⟩ := by
    have hnone : (waiting jobs).adminAccepted = none := rfl
    rw [processStep, if_pos hnone, hd]
    rfl
  have hadd : processStep 1
      ⟨Finset.range 5, jobs.length, none, none, jobs, [], some d, [], none, []⟩ .addClient =
        some ⟨Finset.range 5, jobs.length, none, none, jobs, [], none, [d], none, []⟩ := rfl
  have hpeek : processStep 1
      ⟨Finset.range 5, jobs.length, none, none, jobs, [], none, [d], none, []⟩ (.peek 0) =
        some ⟨Finset.range 5, jobs.length, none, none, jobs, [], none, [d], none, [d.fd]⟩ := rfl
  have hpeeked := h 1 _ (reach_step (reach_step (reach_step hreach haccept) hadd) hpeek)
  have hlt := hpeeked d.fd (List.mem_singleton_self _)
  rw [hfd] at hlt
  exact absurd hlt (by decide)

end Server
end Arws

import Arws.Session.Tokens

/-!
# The pointer to a session

`arws_session_verify` unlocks the table before it returns a pointer to a slot, and the caller reads the
user and the role through it.  In the meantime other threads may destroy the session, and
`arws_session_create` may write another one to the slot, field by field.

The calls hold the lock, so that only the writes of a create that is under way come between the reads.

* `arwsSessionCreate_eq_writes` — the writes of a create leave the table as `arws_session_create` does.
* `readsOwn_of_undisturbed` — what is read are the user and the role of a session that was created with
  the token, in the runs in which no other ones are written to the slot before.
* `not_readsOwn` — a session that is destroyed, and another one in its slot.
-/

set_option autoImplicit false

namespace Arws
namespace Session

open CString

/-- The fields of a slot, in the order in which `arws_session_create` writes them. -/
inductive SlotField
  | token
  | user
  | ip
  | role
  | createdAt
  | expiresAt
  | valid
  deriving DecidableEq

/-- A field of a slot is written. -/
def ArwsSession.write (new x : ArwsSession) : SlotField → ArwsSession
  | .token => { x with token := new.token }
  | .user => { x with user := new.user }
  | .ip => { x with ip := new.ip }
  | .role => { x with role := new.role }
  | .createdAt => { x with createdAt := new.createdAt }
  | .expiresAt => { x with expiresAt := new.expiresAt }
  | .valid => { x with valid := new.valid }

def slotFields : List SlotField := [.token, .user, .ip, .role, .createdAt, .expiresAt, .valid]

/-- A call of `arws_session_create` that holds the lock and has some fields still to write. -/
structure Creating where
  idx : Nat
  session : ArwsSession
  rest : List SlotField
  deriving DecidableEq

/-- The pointer that `arws_session_verify` returned, and what was read through it. -/
structure Held where
  token : Bytes
  idx : Nat
  user : Option Bytes
  role : Option Int
  deriving DecidableEq

structure PointerRun where
  store : SessionStore
  creating : Option Creating
  /-- The sessions created so far. -/
  created : List ArwsSession
  reader : Option Held
  deriving DecidableEq

inductive PointerAct
  /-- `arws_session_create` takes the lock and looks for a slot. -/
  | create (raw user ip : Bytes) (role ttlSeconds : Int) (now : Nat)
  /-- It writes the next field. -/
  | write
  /-- It gives the lock back. -/
  | leave
  | verify (token ip : Option Bytes) (now : Nat)
  | destroy (token : Option Bytes)
  | cleanup (now : Nat)
  /-- The thread that is looked at calls `arws_session_verify`. -/
  | readerVerify (token : Bytes) (ip : Option Bytes) (now : Nat)
  /-- It reads through the pointer. -/
  | readUser
  | readRole

/-- What any of the threads does next.  While a create holds the lock, no other call comes in, but the
reads do. -/
def pointerStep (s : PointerRun) : PointerAct → Option PointerRun
  | .create raw user ip role ttlSeconds now =>
    if s.creating.isSome then none
    else match s.store.sessions.findIdx? (!·.valid) with
      | none => some s
      | some idx => some { s with
          creating := some ⟨idx, createdSession raw user ip role ttlSeconds now, slotFields⟩ }
  | .write =>
    match s.creating with
    | some ⟨idx, session, field :: rest⟩ => some { s with
        store := ⟨s.store.sessions.modify idx fun x => session.write x field, s.store.sessionCount⟩
        creating := some ⟨idx, session, rest⟩ }
    | _ => none
  | .leave =>
    match s.creating with
    | some ⟨_, session, []⟩ => some { s with
        store := ⟨s.store.sessions, s.store.sessionCount + 1⟩
        creating := none
        created := session :: s.created }
    | _ => none
  | .verify token ip now =>
    if s.creating.isSome then none
    else some { s with store := (arwsSessionVerify s.store token ip now).1 }
  | .destroy token =>
    if s.creating.isSome then none
    else some { s with store := (arwsSessionDestroy s.store token).1 }
  | .cleanup now =>
    if s.creating.isSome then none else some { s with store := arwsSessionCleanup s.store now }
  | .readerVerify token ip now =>
    if s.creating.isSome then none
    else some { s with
      store := (arwsSessionVerify s.store (some token) ip now).1
      reader := (arwsSessionVerify s.store (some token) ip now).2.map fun i => ⟨token, i, none, none⟩ }
  | .readUser =>
    match s.reader with
    | some ⟨token, idx, none, role⟩ => (s.store.sessions[idx]?).map fun x =>
        { s with reader := some ⟨token, idx, some x.user, role⟩ }
    | _ => none
  | .readRole =>
    match s.reader with
    | some ⟨token, idx, user, none⟩ => (s.store.sessions[idx]?).map fun x =>
        { s with reader := some ⟨token, idx, user, some x.role⟩ }
    | _ => none

def pointerMachine : Machine PointerRun PointerAct where
  init s := s = ⟨arwsSessionInit, none, [], none⟩
  step := pointerStep

/-- **What is read belongs to the token**: there is a session that was created with the token, and what
was read of the user and the role are its own. -/
def ReadsOwn (s : PointerRun) : Prop :=
  ∀ h ∈ s.reader, ∃ e ∈ s.created, e.token = h.token ∧ (∀ user ∈ h.user, user = e.user) ∧
    ∀ role ∈ h.role, role = e.role

/-- No other user and no other role is written to the slot of a session that was verified, as long as it
is not read. -/
def Undisturbed (s : PointerRun) : PointerAct → Prop
  | .write => ∀ c ∈ s.creating, ∀ h ∈ s.reader, h.idx = c.idx → ∀ x ∈ s.store.sessions[c.idx]?,
      (c.rest.head? = some .user → h.user = none → c.session.user = x.user) ∧
        (c.rest.head? = some .role → h.role = none → c.session.role = x.role)
  | _ => True

/-! ## The writes of a create -/

/-- All fields are written. -/
theorem foldl_write (new x : ArwsSession) : slotFields.foldl new.write x = new := rfl

/-- **The writes are those of `arws_session_create`.** -/
theorem arwsSessionCreate_eq_writes (s : SessionStore) (raw user ip : Bytes) (role ttlSeconds : Int)
    (now : Nat) : arwsSessionCreate s raw user ip role ttlSeconds now =
      match s.sessions.findIdx? (!·.valid) with
      | none => (s, none)
      | some idx => (⟨s.sessions.modify idx fun x =>
          slotFields.foldl (createdSession raw user ip role ttlSeconds now).write x,
            s.sessionCount + 1⟩, some idx) := rfl

/-! ## What a call leaves in the slots -/

/-- The users and the roles stay where they are. -/
def Retains (s t : SessionStore) : Prop :=
  ∀ (i : Nat) (x : ArwsSession), s.sessions[i]? = some x →
    ∃ y, t.sessions[i]? = some y ∧ y.user = x.user ∧ y.role = x.role

theorem Retains.refl (s : SessionStore) : Retains s s := fun _ x h => ⟨x, h, rfl, rfl⟩

theorem retains_invalidate (s : SessionStore) (i : Nat) : Retains s (s.invalidate i) := by
  intro j x hget
  by_cases hj : j = i
  · subst hj
    refine ⟨{ x with valid := false }, ?_, rfl, rfl⟩
    rw [SessionStore.invalidate, List.getElem?_modify_eq, hget]
    rfl
  · exact ⟨x, (getElem?_invalidate_of_ne hj).trans hget, rfl, rfl⟩

theorem retains_verify (s : SessionStore) (token ip : Option Bytes) (now : Nat) :
    Retains s (arwsSessionVerify s token ip now).1 := by
  rw [arwsSessionVerify.eq_def]
  split
  · exact .refl s
  · split
    · exact .refl s
    · split_ifs
      · exact retains_invalidate s _
      · exact .refl s
      · exact .refl s

theorem retains_destroy (s : SessionStore) (token : Option Bytes) :
    Retains s (arwsSessionDestroy s token).1 := by
  rw [arwsSessionDestroy.eq_def]
  split
  · exact .refl s
  · split
    · exact .refl s
    · exact retains_invalidate s _

theorem retains_cleanup (s : SessionStore) (now : Nat) : Retains s (arwsSessionCleanup s now) := by
  intro i x hget
  refine ⟨_, by rw [arwsSessionCleanup, List.getElem?_map, hget]; rfl, ?_, ?_⟩
  · dsimp only
    split_ifs <;> rfl
  · dsimp only
    split_ifs <;> rfl

/-- The session that is returned is valid, stays where it is, and has the token. -/
theorem arwsSessionVerify_eq_some {s : SessionStore} {token : Bytes} {ip : Option Bytes} {now i : Nat}
    (h : (arwsSessionVerify s (some token) ip now).2 = some i) :
    (arwsSessionVerify s (some token) ip now).1 = s ∧
      ∃ x, s.sessions[i]? = some x ∧ x.valid = true ∧ x.token = token := by
  simp only [arwsSessionVerify] at h ⊢
  cases hfind : s.sessions.findIdx? fun x => x.valid && tokensMatch x.token token with
  | none =>
    rw [hfind] at h
    cases h
  | some j =>
    rw [hfind] at h
    simp only at h ⊢
    split_ifs at h ⊢ with hover hip
    cases h
    exact ⟨rfl, findIdx?_token hfind⟩

/-! ## One step -/

/-- The valid sessions were created, a create that is under way goes on to write all of its session, and
the pointer is to the user and the role of a session with the token, as far as they are not read. -/
structure Consistent (s : PointerRun) : Prop where
  logged : ∀ (i : Nat) (x : ArwsSession), s.store.sessions[i]? = some x → x.valid = true →
    (∀ c ∈ s.creating, c.idx ≠ i) → ∃ e ∈ s.created, e.token = x.token ∧ e.user = x.user ∧ e.role = x.role
  writing : ∀ c ∈ s.creating, ∃ x, s.store.sessions[c.idx]? = some x ∧
    c.rest.foldl c.session.write x = c.session
  held : ∀ h ∈ s.reader, ∃ e ∈ s.created, e.token = h.token ∧
    ∃ x, s.store.sessions[h.idx]? = some x ∧ h.user.getD x.user = e.user ∧ h.role.getD x.role = e.role

variable {s t : PointerRun}

theorem Consistent.readsOwn (h : Consistent s) : ReadsOwn s := by
  intro p hp
  obtain ⟨e, he, htoken, x, -, huser, hrole⟩ := h.held p hp
  refine ⟨e, he, htoken, fun user hu => ?_, fun role hr => ?_⟩
  · rwa [Option.mem_def.1 hu, Option.getD_some] at huser
  · rwa [Option.mem_def.1 hr, Option.getD_some] at hrole

/-- A call that gives sessions up, while no create is under way. -/
theorem Consistent.call (h : Consistent s) (hfree : s.creating = none) {store : SessionStore}
    (hsub : Shrinks s.store store) (hkeep : Retains s.store store) :
    Consistent { s with store := store } where
  logged i x hget hx hidle := h.logged i x (hsub i x hget hx) hx hidle
  writing c hc := by
    rw [hfree] at hc
    cases hc
  held p hp := by
    obtain ⟨e, he, htoken, x, hget, huser, hrole⟩ := h.held p hp
    obtain ⟨y, hy, hyu, hyr⟩ := hkeep p.idx x hget
    exact ⟨e, he, htoken, y, hy, hyu ▸ huser, hyr ▸ hrole⟩

theorem consistent_create (h : Consistent s) (hfree : s.creating = none) {idx : Nat}
    (hidx : s.store.sessions.findIdx? (!·.valid) = some idx) (session : ArwsSession) :
    Consistent { s with creating := some ⟨idx, session, slotFields⟩ } where
  logged i x hget hx _ := h.logged i x hget hx fun c hc => by
    rw [hfree] at hc
    cases hc
  writing c hc := by
    obtain rfl := Option.some.inj hc
    obtain ⟨hi, -, -⟩ := List.findIdx?_eq_some_iff_getElem.1 hidx
    exact ⟨_, List.getElem?_eq_getElem hi, foldl_write session _⟩
  held := h.held

/-- The field that is written is what matters of a slot. -/
theorem write_user {new x : ArwsSession} {field : SlotField} (h : field = .user → new.user = x.user) :
    (new.write x field).user = x.user := by
  cases field with
  | user => exact h rfl
  | _ => rfl

theorem write_role {new x : ArwsSession} {field : SlotField} (h : field = .role → new.role = x.role) :
    (new.write x field).role = x.role := by
  cases field with
  | role => exact h rfl
  | _ => rfl

theorem consistent_write (h : Consistent s) {idx : Nat} {session : ArwsSession} {field : SlotField}
    {rest : List SlotField} (hcreating : s.creating = some ⟨idx, session, field :: rest⟩)
    (hc : Undisturbed s .write) : Consistent { s with
      store := ⟨s.store.sessions.modify idx fun x => session.write x field, s.store.sessionCount⟩
      creating := some ⟨idx, session, rest⟩ } where
  logged i x hget hx hidle := by
    have hne : idx ≠ i := hidle _ rfl
    rw [List.getElem?_modify_ne _ _ hne] at hget
    exact h.logged i x hget hx fun c hmem => by
      rw [hcreating] at hmem
      cases hmem
      exact hne
  writing c hmem := by
    obtain rfl := Option.some.inj hmem
    obtain ⟨x, hget, hfold⟩ := h.writing _ hcreating
    exact ⟨session.write x field, by rw [List.getElem?_modify_eq, hget]; rfl, hfold⟩
  held p hp := by
    obtain ⟨e, he, htoken, x, hget, huser, hrole⟩ := h.held p hp
    refine ⟨e, he, htoken, ?_⟩
    by_cases hidx : p.idx = idx
    · subst hidx
      obtain ⟨hu, hr⟩ := hc _ hcreating p hp rfl x hget
      refine ⟨session.write x field, by rw [List.getElem?_modify_eq, hget]; rfl, ?_, ?_⟩
      · cases hread : p.user with
        | none =>
          rw [hread] at huser
          exact (write_user fun hf => hu (by rw [hf]; rfl) hread).trans huser
        | some user => rwa [hread] at huser
      · cases hread : p.role with
        | none =>
          rw [hread] at hrole
          exact (write_role fun hf => hr (by rw [hf]; rfl) hread).trans hrole
        | some role => rwa [hread] at hrole
    · exact ⟨x, (List.getElem?_modify_ne _ _ (Ne.symm hidx)).trans hget, huser, hrole⟩

theorem consistent_leave (h : Consistent s) {idx : Nat} {session : ArwsSession}
    (hcreating : s.creating = some ⟨idx, session, []⟩) : Consistent { s with
      store := ⟨s.store.sessions, s.store.sessionCount + 1⟩
      creating := none
      created := session :: s.created } where
  logged i x hget hx _ := by
    by_cases hi : idx = i
    · subst hi
      obtain ⟨y, hy, hfold⟩ := h.writing _ hcreating
      obtain rfl : x = y := Option.some.inj (hget.symm.trans hy)
      obtain rfl : x = session := hfold
      exact ⟨x, List.mem_cons_self .., rfl, rfl, rfl⟩
    · obtain ⟨e, he, hsame⟩ := h.logged i x hget hx fun c hmem => by
        rw [hcreating] at hmem
        cases hmem
        exact hi
      exact ⟨e, List.mem_cons_of_mem _ he, hsame⟩
  writing c hmem := by cases hmem
  held p hp := by
    obtain ⟨e, he, hsame⟩ := h.held p hp
    exact ⟨e, List.mem_cons_of_mem _ he, hsame⟩

theorem consistent_readerVerify (h : Consistent s) (hfree : s.creating = none) (token : Bytes)
    (ip : Option Bytes) (now : Nat) : Consistent { s with
      store := (arwsSessionVerify s.store (some token) ip now).1
      reader := (arwsSessionVerify s.store (some token) ip now).2.map fun i =>
        ⟨token, i, none, none⟩ } := by
  have hcall := h.call hfree (shrinks_verify s.store (some token) ip now)
    (retains_verify s.store (some token) ip now)
  refine ⟨hcall.logged, hcall.writing, fun p hp => ?_⟩
  obtain ⟨i, hi, rfl⟩ := Option.map_eq_some_iff.1 hp
  obtain ⟨hstore, x, hget, hx, rfl⟩ := arwsSessionVerify_eq_some hi
  obtain ⟨e, he, htoken, huser, hrole⟩ := h.logged i x hget hx fun c hc => by
    rw [hfree] at hc
    cases hc
  refine ⟨e, he, htoken, x, ?_, huser.symm, hrole.symm⟩
  rw [hstore]
  exact hget

theorem consistent_read (h : Consistent s) {token : Bytes} {idx : Nat} {user user' : Option Bytes}
    {role role' : Option Int} (hreader : s.reader = some ⟨token, idx, user, role⟩)
    (hsame : ∀ x, s.store.sessions[idx]? = some x →
      user'.getD x.user = user.getD x.user ∧ role'.getD x.role = role.getD x.role) :
    Consistent { s with reader := some ⟨token, idx, user', role'⟩ } := by
  refine ⟨h.logged, h.writing, fun p hp => ?_⟩
  obtain rfl := Option.some.inj hp
  obtain ⟨e, he, htoken, x, hget, huser, hrole⟩ := h.held _ hreader
  obtain ⟨hu, hr⟩ := hsame x hget
  exact ⟨e, he, htoken, x, hget, hu.trans huser, hr.trans hrole⟩

theorem creating_eq_none (h : ¬ s.creating.isSome = true) : s.creating = none := by
  simpa using h

theorem consistent_step {act : PointerAct} (h : Consistent s) (hc : Undisturbed s act)
    (hs : pointerStep s act = some t) : Consistent t := by
  cases act with
  | create raw user ip role ttlSeconds now =>
    obtain ⟨hfree, hs⟩ := Option.ite_none_left_eq_some.1 hs
    split at hs
    · cases hs
      exact h
    · rename_i idx hidx
      cases hs
      exact consistent_create h (creating_eq_none hfree) hidx _
  | write =>
    rw [pointerStep] at hs
    split at hs
    · rename_i hcreating
      cases hs
      exact consistent_write h hcreating hc
    · cases hs
  | leave =>
    rw [pointerStep] at hs
    split at hs
    · rename_i hcreating
      cases hs
      exact consistent_leave h hcreating
    · cases hs
  | verify token ip now =>
    obtain ⟨hfree, hs⟩ := Option.ite_none_left_eq_some.1 hs
    cases hs
    exact h.call (creating_eq_none hfree) (shrinks_verify s.store token ip now)
      (retains_verify s.store token ip now)
  | destroy token =>
    obtain ⟨hfree, hs⟩ := Option.ite_none_left_eq_some.1 hs
    cases hs
    exact h.call (creating_eq_none hfree) (shrinks_destroy s.store token) (retains_destroy s.store token)
  | cleanup now =>
    obtain ⟨hfree, hs⟩ := Option.ite_none_left_eq_some.1 hs
    cases hs
    exact h.call (creating_eq_none hfree) (shrinks_cleanup s.store now) (retains_cleanup s.store now)
  | readerVerify token ip now =>
    obtain ⟨hfree, hs⟩ := Option.ite_none_left_eq_some.1 hs
    cases hs
    exact consistent_readerVerify h (creating_eq_none hfree) token ip now
  | readUser =>
    rw [pointerStep] at hs
    split at hs
    · rename_i token idx role hreader
      obtain ⟨x, hget, rfl⟩ := Option.map_eq_some_iff.1 hs
      refine consistent_read h hreader fun y hy => ⟨?_, rfl⟩
      rw [hget, Option.some.injEq] at hy
      rw [hy]
      rfl
    · cases hs
  | readRole =>
    rw [pointerStep] at hs
    split at hs
    · rename_i token idx user hreader
      obtain ⟨x, hget, rfl⟩ := Option.map_eq_some_iff.1 hs
      refine consistent_read h hreader fun y hy => ⟨rfl, ?_⟩
      rw [hget, Option.some.injEq] at hy
      rw [hy]
      rfl
    · cases hs

/-! ## All runs -/

theorem consistent_of_reach (h : pointerMachine.ReachUnder Undisturbed s) : Consistent s := by
  refine h.invariant (I := Consistent) ?_ fun s act t hI hc hs => consistent_step hI hc hs
  rintro s rfl
  refine ⟨fun i x hget hx => ?_, fun c hc => absurd hc (Option.not_mem_none c),
    fun p hp => absurd hp (Option.not_mem_none p)⟩
  rw [List.eq_of_mem_replicate (List.mem_of_getElem? hget)] at hx
  cases hx

/-- **A verified session stays the verified one** in the runs in which no other user and no other role is
written to its slot before they are read. -/
theorem readsOwn_of_undisturbed (h : pointerMachine.ReachUnder Undisturbed s) : ReadsOwn s :=
  (consistent_of_reach h).readsOwn

instance (s : PointerRun) (act : PointerAct) : Decidable (Undisturbed s act) := by
  cases act <;> unfold Undisturbed <;> infer_instance

/-- A session is created without another call in between. -/
private def creates (raw user : Bytes) (role : Int) : List PointerAct :=
  .create raw user (ascii "10.0.0.1") role 60 1 :: List.replicate 7 .write ++ [.leave]

private def annToken : Bytes := generateRandomToken (List.replicate 127 0)

/-- The session is destroyed, and still its user and role are read. -/
theorem readsOwn_of_undisturbed_destroyed : ∃ s : PointerRun,
    s.reader = some ⟨annToken, 0, some (ascii "ann"), some 1⟩ ∧ ReadsOwn s := by
  have hrun : (pointerMachine.runUnder Undisturbed ⟨arwsSessionInit, none, [], none⟩
      (creates (List.replicate 127 0) (ascii "ann") 1 ++
        [.readerVerify annToken none 2, .destroy (some annToken), .readUser, .readRole])).map
          (·.reader) = some (some ⟨annToken, 0, some (ascii "ann"), some 1⟩) := by
    decide +kernel
  obtain ⟨s, hs, hreader⟩ := Option.map_eq_some_iff.1 hrun
  exact ⟨s, hreader, readsOwn_of_undisturbed (Machine.reachUnder_of_runUnder (.start rfl) hs)⟩

/-- **A session that was destroyed** is read as the next one in its slot. -/
theorem not_readsOwn : ¬ ∀ s, pointerMachine.Reach s → ReadsOwn s := by
  intro h
  have hrun : (pointerMachine.runUnder (fun _ _ => True) ⟨arwsSessionInit, none, [], none⟩
      (creates (List.replicate 127 0) (ascii "ann") 1 ++
        [.readerVerify annToken none 2, .destroy (some annToken)] ++
        creates (List.replicate 127 1) (ascii "bob") 9 ++ [.readUser, .readRole])).map (fun s =>
          (s.reader, s.created.map fun e => (decide (e.token = annToken), e.role))) =
      some (some ⟨annToken, 0, some (ascii "bob"), some 9⟩, [(false, 9), (true, 1)]) := by
    decide +kernel
  obtain ⟨s, hs, hboth⟩ := Option.map_eq_some_iff.1 hrun
  obtain ⟨hreader, hcreated⟩ := Prod.mk.inj hboth
  have hreach : pointerMachine.Reach s := Machine.reachUnder_of_runUnder (.start rfl) hs
  obtain ⟨e, he, htoken, -, hrole⟩ := h s hreach _ hreader
  have hmem : (decide (e.token = annToken), e.role) ∈ [(false, (9 : Int)), (true, 1)] := by
    rw [← hcreated]
    exact List.mem_map_of_mem he
  rw [← hrole 9 rfl, decide_eq_true htoken] at hmem
  exact absurd hmem (by decide)

end Session
end Arws

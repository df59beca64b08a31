import Arws.Library.CString
import Arws.Library.ExpiringMap
import Arws.Library.Transition

/-!
# The session store

`arws_session.c`: a table of sessions, each with a token that is looked for in constant time.  A session
whose time is expired stays in its slot until it is looked for or the table is cleaned up.

Times are readings of `ar_time_ms() / 1000`.  What `RAND_bytes` delivers is a parameter of
`arwsSessionCreate`, and where the code returns a pointer to a session the model returns its index.

* `refines_of_reach` — the table holds a map from tokens to sessions, each until it expires.
* `verify_iff` — so a session is found exactly if it was created, was not destroyed and has not expired,
  and the address that is asked for, if any, is its own.
-/

set_option autoImplicit false

namespace Arws
namespace Session

open CString

structure ArwsSession where
  token : Bytes
  user : Bytes
  ip : Bytes
  role : Int
  createdAt : Nat
  expiresAt : Nat
  valid : Bool
  deriving DecidableEq

structure SessionStore where
  sessions : List ArwsSession
  sessionCount : Int
  deriving DecidableEq

def arwsMaxSessions : Nat := 1024

/-- `arws_session_init`. -/
def arwsSessionInit : SessionStore :=
  ⟨List.replicate arwsMaxSessions ⟨[], [], [], 0, 0, 0, false⟩, 0⟩

/-! ## Tokens -/

/-- `ct_compare`: the bits in which the two differ in some byte. -/
def ctCompare (a b : Bytes) : UInt8 := (a.zip b).foldl (fun diff c => diff ||| (c.1 ^^^ c.2)) 0

/-- `tokens_match`. -/
def tokensMatch (a b : Bytes) : Bool := a.length == b.length && ctCompare a b == 0

/-- The letters of `generate_random_token`. -/
def tokenChars : Bytes :=
  ascii "abcdefghijklmnopqrstuvwxyzABCDEFGHIJKLMNOPQRSTUVWXYZ0123456789"

/-- `generate_random_token` for a buffer of 128 bytes. -/
def generateRandomToken (raw : Bytes) : Bytes :=
  (raw.take 127).map fun c => tokenChars.getD (c.toNat % 62) 0

/-! ## The functions -/

/-- What `arws_session_create` writes to a slot. -/
def createdSession (raw user ip : Bytes) (role ttlSeconds : Int) (now : Nat) : ArwsSession where
  token := (generateRandomToken raw).take 127
  user := user.take 63
  ip := ip.take 63
  role := role
  createdAt := now
  expiresAt := ((now + ttlSeconds) % 2 ^ 64).toNat
  valid := true

/-- `arws_session_create`. -/
def arwsSessionCreate (s : SessionStore) (raw user ip : Bytes) (role ttlSeconds : Int) (now : Nat) :
    SessionStore × Option Nat :=
  match s.sessions.findIdx? (!·.valid) with
  | none => (s, none)
  | some idx =>
    (⟨s.sessions.modify idx fun _ => createdSession raw user ip role ttlSeconds now,
      s.sessionCount + 1⟩, some idx)

/-- A session is given up. -/
def SessionStore.invalidate (s : SessionStore) (i : Nat) : SessionStore :=
  ⟨s.sessions.modify i fun x => { x with valid := false }, s.sessionCount - 1⟩

/-- `arws_session_verify`. -/
def arwsSessionVerify (s : SessionStore) (token ip : Option Bytes) (now : Nat) :
    SessionStore × Option Nat :=
  match token with
  | none => (s, none)
  | some token =>
    match s.sessions.findIdx? fun x => x.valid && tokensMatch x.token token with
    | none => (s, none)
    | some i =>
      if s.sessions[i]?.any (·.expiresAt ≤ now) then (s.invalidate i, none)
      else if ip.any fun ip => ip != [] && s.sessions[i]?.any (·.ip != ip) then (s, none)
      else (s, some i)

/-- `arws_session_destroy`. -/
def arwsSessionDestroy (s : SessionStore) (token : Option Bytes) : SessionStore × Int :=
  match token with
  | none => (s, -1)
  | some token =>
    match s.sessions.findIdx? fun x => x.valid && x.token == token with
    | none => (s, -1)
    | some i => (s.invalidate i, 0)

/-- `arws_session_cleanup`. -/
def arwsSessionCleanup (s : SessionStore) (now : Nat) : SessionStore :=
  let expired := fun x : ArwsSession => x.valid && decide (x.expiresAt ≤ now)
  ⟨s.sessions.map fun x => if expired x then { x with valid := false } else x,
    s.sessionCount - (s.sessions.countP expired : Nat)⟩

/-! ## Runs -/

/-- Whom a session is for. -/
structure Holder where
  user : Bytes
  ip : Bytes
  role : Int
  deriving DecidableEq

/-- The store, and the map of the sessions that were created and not destroyed. -/
structure SessionRun where
  store : SessionStore
  /-- The last reading of the clock. -/
  now : Nat
  /-- All tokens so far. -/
  tokens : List Bytes
  created : ExpiringMap Bytes Holder

/-- The map behind a call of `arws_session_create`. -/
def createdBehind (created : ExpiringMap Bytes Holder) (raw user ip : Bytes) (role ttlSeconds : Int)
    (now : Nat) (result : Option Nat) : ExpiringMap Bytes Holder :=
  if result.isSome then
    created.insert (generateRandomToken raw) ⟨user, ip, role⟩ (now + ttlSeconds.toNat)
  else created

inductive SessionCall
  | create (raw user ip : Bytes) (role ttlSeconds : Int)
  | verify (token ip : Option Bytes)
  | destroy (token : Option Bytes)
  | cleanup

/-- What a caller of `arws_session_create` keeps to, and the random bytes: there are as many as were
asked for, and no token comes twice. -/
structure CreateOk (tokens : List Bytes) (raw user ip : Bytes) (ttlSeconds : Int) : Prop where
  length_raw : raw.length = 127
  fresh : ∀ token ∈ tokens, token ≠ generateRandomToken raw
  length_user : user.length < 64
  length_ip : ip.length < 64
  ttl_nonneg : 0 ≤ ttlSeconds
  ttl_le : ttlSeconds < 2 ^ 31

instance (tokens : List Bytes) (raw user ip : Bytes) (ttlSeconds : Int) :
    Decidable (CreateOk tokens raw user ip ttlSeconds) :=
  decidable_of_iff (raw.length = 127 ∧ (∀ token ∈ tokens, token ≠ generateRandomToken raw) ∧
      user.length < 64 ∧ ip.length < 64 ∧ 0 ≤ ttlSeconds ∧ ttlSeconds < 2 ^ 31)
    ⟨fun ⟨h1, h2, h3, h4, h5, h6⟩ => ⟨h1, h2, h3, h4, h5, h6⟩,
      fun ⟨h1, h2, h3, h4, h5, h6⟩ => ⟨h1, h2, h3, h4, h5, h6⟩⟩

/-- A call at a reading of the clock, which does not go back.  The map gains a session that is created
and loses one that is destroyed. -/
def sessionStep (s : SessionRun) : Nat × SessionCall → Option SessionRun
  | (ms, call) =>
    let now := ms / 1000
    if s.now ≤ now ∧ ms < 2 ^ 64 then
      match call with
      | .create raw user ip role ttlSeconds =>
        if CreateOk s.tokens raw user ip ttlSeconds then
          let (store, created) := arwsSessionCreate s.store raw user ip role ttlSeconds now
          some
            { store := store
              now := now
              tokens := generateRandomToken raw :: s.tokens
              created := createdBehind s.created raw user ip role ttlSeconds now created }
        else none
      | .verify token ip =>
        some { s with store := (arwsSessionVerify s.store token ip now).1, now := now }
      | .destroy token =>
        some { s with
          store := (arwsSessionDestroy s.store token).1
          now := now
          created := token.elim s.created s.created.erase }
      | .cleanup => some { s with store := arwsSessionCleanup s.store now, now := now }
    else none

def sessionMachine : Machine SessionRun (Nat × SessionCall) where
  init s := s = ⟨arwsSessionInit, 0, [], .empty⟩
  step := sessionStep

/-! ## Tokens are compared -/

theorem foldl_or_eq_zero_iff (l : List (UInt8 × UInt8)) (diff : UInt8) :
    l.foldl (fun diff c => diff ||| (c.1 ^^^ c.2)) diff = 0 ↔ diff = 0 ∧ ∀ c ∈ l, c.1 = c.2 := by
  induction l generalizing diff with
  | nil => simp
  | cons c l ih =>
    rw [List.foldl_cons, ih, UInt8.or_eq_zero_iff, UInt8.xor_eq_zero_iff, List.forall_mem_cons, and_assoc]

/-- **The comparison in constant time is equality.** -/
theorem tokensMatch_iff {a b : Bytes} : tokensMatch a b = true ↔ a = b := by
  rw [tokensMatch, Bool.and_eq_true, beq_iff_eq, beq_iff_eq, ctCompare, foldl_or_eq_zero_iff]
  constructor
  · rintro ⟨hlen, -, hall⟩
    refine List.ext_getElem hlen fun i h1 h2 => ?_
    exact hall (a[i], b[i]) (List.mem_iff_getElem.2
      ⟨i, by rw [List.length_zip]; exact Nat.lt_min.2 ⟨h1, h2⟩, List.getElem_zip⟩)
  · rintro rfl
    refine ⟨rfl, rfl, fun c hc => ?_⟩
    obtain ⟨i, hi, rfl⟩ := List.mem_iff_getElem.1 hc
    rw [List.getElem_zip]

/-! ## What a slot is changed to -/

section Slots

variable {α : Type*} {p : α → Bool} {f : α → α} {l : List α} {i : Nat} {a : α}

theorem filter_eq_of_lt (p : α → Bool) (hi : i < l.length) :
    l.filter p = (l.take i).filter p ++ (l[i] :: l.drop (i + 1)).filter p := by
  rw [← List.filter_append, ← List.drop_eq_getElem_cons hi, List.take_append_drop]

theorem filter_modify_of_neg (hget : l[i]? = some a) (ha : p a = true) (hf : p (f a) = false) :
    (l.filter p).Perm (a :: (l.modify i f).filter p) := by
  obtain ⟨hi, rfl⟩ := List.getElem?_eq_some_iff.1 hget
  rw [filter_eq_of_lt p hi, List.modify_eq_take_cons_drop hi, List.filter_append,
    List.filter_cons_of_pos ha, List.filter_cons_of_neg (by rw [hf]; decide)]
  exact List.perm_middle

theorem filter_modify_of_pos (hget : l[i]? = some a) (ha : p a = false) (hf : p (f a) = true) :
    ((l.modify i f).filter p).Perm (f a :: l.filter p) := by
  obtain ⟨hi, rfl⟩ := List.getElem?_eq_some_iff.1 hget
  rw [filter_eq_of_lt p hi, List.modify_eq_take_cons_drop hi, List.filter_append,
    List.filter_cons_of_pos hf, List.filter_cons_of_neg (by rw [ha]; decide)]
  exact List.perm_middle

end Slots

/-! ## The store holds the map -/

/-- What the map should have of a session. -/
def ArwsSession.entry (x : ArwsSession) : Bytes × Holder × Nat :=
  (x.token, ⟨x.user, x.ip, x.role⟩, x.expiresAt)

/-- The valid sessions. -/
def SessionStore.entries (s : SessionStore) : List (Bytes × Holder × Nat) :=
  (s.sessions.filter (·.valid)).map (·.entry)

/-- **The store holds the map**, and counts the valid sessions. -/
structure Refines (s : SessionRun) : Prop where
  holds : s.created.Holds s.now s.store.entries
  tokens : ∀ e ∈ s.store.entries, e.1 ∈ s.tokens
  count : s.store.sessionCount = (s.store.sessions.countP (·.valid) : ℕ)

theorem length_entries (s : SessionStore) : s.entries.length = s.sessions.countP (·.valid) := by
  rw [SessionStore.entries, List.length_map, List.countP_eq_length_filter]

section Change

variable {s : SessionStore} {i : Nat} {x : ArwsSession}

/-- A session that is given up is one less. -/
theorem entries_invalidate (hget : s.sessions[i]? = some x) (hx : x.valid = true) :
    s.entries.Perm (x.entry :: (s.invalidate i).entries) := by
  have hperm := filter_modify_of_neg (p := ArwsSession.valid)
    (f := fun x => { x with valid := false }) hget hx rfl
  exact hperm.map ArwsSession.entry

theorem count_invalidate (hget : s.sessions[i]? = some x) (hx : x.valid = true)
    (hcount : s.sessionCount = (s.sessions.countP (·.valid) : ℕ)) :
    (s.invalidate i).sessionCount = ((s.invalidate i).sessions.countP (·.valid) : ℕ) := by
  have hlen := (entries_invalidate hget hx).length_eq
  rw [List.length_cons, length_entries, length_entries] at hlen
  show s.sessionCount - 1 = _
  rw [hcount, hlen]
  omega

theorem mem_entries_iff {e : Bytes × Holder × Nat} :
    e ∈ s.entries ↔ ∃ x ∈ s.sessions, x.valid = true ∧ x.entry = e := by
  simp only [SessionStore.entries, List.mem_map, List.mem_filter, and_assoc]

/-- The session that a token is searched with. -/
theorem findIdx?_token {token : Bytes} (h : (s.sessions.findIdx? fun x =>
    x.valid && tokensMatch x.token token) = some i) :
    ∃ x, s.sessions[i]? = some x ∧ x.valid = true ∧ x.token = token := by
  obtain ⟨hi, hp, -⟩ := List.findIdx?_eq_some_iff_getElem.1 h
  rw [Bool.and_eq_true, tokensMatch_iff] at hp
  exact ⟨_, List.getElem?_eq_getElem hi, hp⟩

theorem findIdx?_token_eq_none {token : Bytes} (h : (s.sessions.findIdx? fun x =>
    x.valid && tokensMatch x.token token) = none) : token ∉ s.entries.map (·.1) := by
  rintro hmem
  obtain ⟨e, he, rfl⟩ := List.mem_map.1 hmem
  obtain ⟨x, hx, hvalid, rfl⟩ := mem_entries_iff.1 he
  have hno := List.findIdx?_eq_none_iff.1 h x hx
  rw [hvalid, Bool.true_and, ← Bool.not_eq_true, tokensMatch_iff] at hno
  exact hno rfl

/-- `strcmp` finds the same session. -/
theorem findIdx?_strcmp (s : SessionStore) (token : Bytes) :
    (s.sessions.findIdx? fun x => x.valid && x.token == token) =
      s.sessions.findIdx? fun x => x.valid && tokensMatch x.token token := by
  congr 1
  funext x
  rw [Bool.eq_iff_iff, Bool.and_eq_true, Bool.and_eq_true, beq_iff_eq, tokensMatch_iff]

end Change

/-! ## The calls -/

variable {s : SessionRun} {now : Nat}

theorem entry_createdSession {tokens : List Bytes} {raw user ip : Bytes} {role ttlSeconds : Int}
    (hok : CreateOk tokens raw user ip ttlSeconds) (hnow : now ≤ (2 ^ 64 - 1) / 1000) :
    (createdSession raw user ip role ttlSeconds now).entry =
      (generateRandomToken raw, ⟨user, ip, role⟩, now + ttlSeconds.toNat) := by
  have htoken : (generateRandomToken raw).take 127 = generateRandomToken raw :=
    List.take_of_length_le (by rw [generateRandomToken, List.length_map]; exact List.length_take_le _ _)
  have hexpires : ((now + ttlSeconds) % 2 ^ 64).toNat = now + ttlSeconds.toNat := by
    have := hok.ttl_nonneg
    have := hok.ttl_le
    rw [Int.emod_eq_of_lt (by omega) (by omega)]
    omega
  rw [createdSession, ArwsSession.entry, htoken, List.take_of_length_le (Nat.le_of_lt_succ hok.length_user),
    List.take_of_length_le (Nat.le_of_lt_succ hok.length_ip), hexpires]

/-- A session is created in a free slot, if there is one. -/
theorem arwsSessionCreate_cases (s : SessionStore) (raw user ip : Bytes) (role ttlSeconds : Int)
    (now : Nat) :
    arwsSessionCreate s raw user ip role ttlSeconds now = (s, none) ∨
      ∃ i s', arwsSessionCreate s raw user ip role ttlSeconds now = (s', some i) ∧
        s'.entries.Perm ((createdSession raw user ip role ttlSeconds now).entry :: s.entries) ∧
        s'.sessionCount = s.sessionCount + 1 := by
  rw [arwsSessionCreate]
  cases hfree : s.sessions.findIdx? (!·.valid) with
  | none => exact Or.inl rfl
  | some i =>
    obtain ⟨hi, hinvalid, -⟩ := List.findIdx?_eq_some_iff_getElem.1 hfree
    rw [Bool.not_eq_true'] at hinvalid
    have hperm := filter_modify_of_pos (p := ArwsSession.valid)
      (f := fun _ => createdSession raw user ip role ttlSeconds now)
      (List.getElem?_eq_getElem hi) hinvalid rfl
    exact Or.inr ⟨i, _, rfl, hperm.map ArwsSession.entry, rfl⟩

theorem refines_create (h : Refines s) {raw user ip : Bytes} {role ttlSeconds : Int}
    (hok : CreateOk s.tokens raw user ip ttlSeconds) (hnow : s.now ≤ (2 ^ 64 - 1) / 1000) :
    Refines
      { store := (arwsSessionCreate s.store raw user ip role ttlSeconds s.now).1
        now := s.now
        tokens := generateRandomToken raw :: s.tokens
        created := createdBehind s.created raw user ip role ttlSeconds s.now
          (arwsSessionCreate s.store raw user ip role ttlSeconds s.now).2 } := by
  have htokens : ∀ e ∈ s.store.entries, e.1 ∈ generateRandomToken raw :: s.tokens := fun e he =>
    List.mem_cons_of_mem _ (h.tokens e he)
  obtain he | ⟨i, s', he, hperm, hcount⟩ :=
    arwsSessionCreate_cases s.store raw user ip role ttlSeconds s.now
  · rw [he]
    exact ⟨h.holds, htokens, h.count⟩
  · rw [he]
    rw [entry_createdSession hok hnow] at hperm
    have hfresh : generateRandomToken raw ∉ s.store.entries.map (·.1) := by
      intro hmem
      obtain ⟨e, he, hek⟩ := List.mem_map.1 hmem
      exact hok.fresh _ (h.tokens e he) hek
    refine ⟨(h.holds.insert hfresh _ _).perm hperm, fun e he => ?_, ?_⟩
    · rcases List.mem_cons.1 (hperm.mem_iff.1 he) with rfl | he
      · exact List.mem_cons_self
      · exact htokens e he
    · have hlen := hperm.length_eq
      rw [List.length_cons, length_entries, length_entries] at hlen
      show s'.sessionCount = _
      rw [hcount, h.count, hlen]
      rfl

/-- A session that is expired is given up when it is looked for. -/
theorem refines_invalidate (h : Refines s) {i : Nat} {x : ArwsSession}
    (hget : s.store.sessions[i]? = some x) (hx : x.valid = true) (hover : x.expiresAt ≤ s.now) :
    Refines { s with store := s.store.invalidate i } := by
  have hperm := entries_invalidate hget hx
  refine ⟨?_, fun e he => ?_, count_invalidate hget hx h.count⟩
  · refine (h.holds.perm hperm.symm).drop (List.sublist_cons_self _ _) fun e he hlive => ?_
    rcases List.mem_cons.1 he with rfl | he
    · exact absurd hlive (Nat.not_lt.2 hover)
    · exact he
  · exact h.tokens e (hperm.mem_iff.2 (List.mem_cons_of_mem _ he))

theorem refines_verify (h : Refines s) (token ip : Option Bytes) :
    Refines { s with store := (arwsSessionVerify s.store token ip s.now).1 } := by
  cases token with
  | none => exact h
  | some token =>
    simp only [arwsSessionVerify]
    cases hfind : s.store.sessions.findIdx? fun x => x.valid && tokensMatch x.token token with
    | none => exact h
    | some i =>
      obtain ⟨x, hget, hx, -⟩ := findIdx?_token hfind
      simp only [hget, Option.any_some, decide_eq_true_eq]
      split_ifs with hover
      · exact refines_invalidate h hget hx hover
      · exact h
      · exact h

theorem refines_destroy (h : Refines s) (token : Option Bytes) :
    Refines
      { s with
        store := (arwsSessionDestroy s.store token).1
        created := token.elim s.created s.created.erase } := by
  cases token with
  | none => exact h
  | some token =>
    simp only [arwsSessionDestroy, findIdx?_strcmp]
    cases hfind : s.store.sessions.findIdx? fun x => x.valid && tokensMatch x.token token with
    | none => exact ⟨h.holds.erase_of_notMem (findIdx?_token_eq_none hfind), h.tokens, h.count⟩
    | some i =>
      obtain ⟨x, hget, hx, rfl⟩ := findIdx?_token hfind
      have hperm := entries_invalidate hget hx
      refine ⟨(h.holds.perm hperm.symm).erase, fun e he => ?_, count_invalidate hget hx h.count⟩
      exact h.tokens e (hperm.mem_iff.2 (List.mem_cons_of_mem _ he))

/-- A clean up leaves the sessions that are not expired. -/
theorem entries_cleanup (s : SessionStore) (now : Nat) :
    (arwsSessionCleanup s now).entries = s.entries.filter fun e => now < e.2.2 := by
  simp only [SessionStore.entries, arwsSessionCleanup]
  induction s.sessions with
  | nil => rfl
  | cons x l ih =>
    rw [List.map_cons, List.filter_cons, List.filter_cons]
    by_cases hx : x.valid = true
    · by_cases hover : x.expiresAt ≤ now
      · simpa [hx, hover, ArwsSession.entry] using ih
      · simpa [hx, hover, ArwsSession.entry, Nat.lt_of_not_le hover] using ih
    · simpa [hx] using ih

theorem count_cleanup {s : SessionStore} (now : Nat)
    (h : s.sessionCount = (s.sessions.countP (·.valid) : ℕ)) :
    (arwsSessionCleanup s now).sessionCount =
      ((arwsSessionCleanup s now).sessions.countP (·.valid) : ℕ) := by
  have hlive := List.length_eq_length_filter_add (l := s.entries) fun e => now < e.2.2
  have hover : s.sessions.countP (fun x => x.valid && decide (x.expiresAt ≤ now)) =
      (s.entries.filter fun e => !decide (now < e.2.2)).length := by
    rw [← List.countP_eq_length_filter, SessionStore.entries, List.countP_map, List.countP_filter]
    refine List.countP_congr fun x _ => ?_
    simp [ArwsSession.entry, and_comm]
  rw [← length_entries, entries_cleanup]
  show s.sessionCount - (s.sessions.countP _ : ℕ) = _
  rw [h, hover, ← length_entries]
  omega

theorem refines_cleanup (h : Refines s) :
    Refines { s with store := arwsSessionCleanup s.store s.now } := by
  have hentries := entries_cleanup s.store s.now
  refine ⟨?_, fun e he => ?_, ?_⟩
  · show s.created.Holds s.now (arwsSessionCleanup s.store s.now).entries
    rw [hentries]
    exact h.holds.drop List.filter_sublist fun e he hlive =>
      List.mem_filter.2 ⟨he, decide_eq_true hlive⟩
  · refine h.tokens e (List.mem_of_mem_filter (p := fun e => s.now < e.2.2) ?_)
    rw [← hentries]
    exact he
  · exact count_cleanup s.now h.count

/-! ## All runs -/

theorem Refines.later (h : Refines s) (hle : s.now ≤ now) : Refines { s with now := now } :=
  ⟨h.holds.later hle, h.tokens, h.count⟩

theorem refines_of_step {t : SessionRun} {call : Nat × SessionCall} (h : Refines s)
    (hs : sessionMachine.step s call = some t) : Refines t := by
  obtain ⟨ms, call⟩ := call
  obtain ⟨⟨hle, hms⟩, hs⟩ := Option.ite_none_right_eq_some.1 hs
  have hlater := h.later hle
  cases call with
  | create raw user ip role ttlSeconds =>
    obtain ⟨hok, hs⟩ := Option.ite_none_right_eq_some.1 hs
    cases hs
    exact refines_create hlater hok (by show ms / 1000 ≤ _; omega)
  | verify token ip =>
    cases hs
    exact refines_verify hlater token ip
  | destroy token =>
    cases hs
    exact refines_destroy hlater token
  | cleanup =>
    cases hs
    exact refines_cleanup hlater

/-- **In every run the store holds the map.** -/
theorem refines_of_reach (h : sessionMachine.Reach s) : Refines s := by
  refine h.invariant (I := Refines) ?_ fun s call t hI _ hs => refines_of_step hI hs
  rintro s rfl
  have hnone : arwsSessionInit.sessions.filter (·.valid) = [] := by
    refine List.filter_eq_nil_iff.2 fun x hx => ?_
    rw [List.eq_of_mem_replicate hx]
    exact Bool.false_ne_true
  have hentries : arwsSessionInit.entries = [] := by rw [SessionStore.entries, hnone, List.map_nil]
  refine ⟨?_, fun e he => ?_, ?_⟩
  · show ExpiringMap.empty.Holds 0 arwsSessionInit.entries
    rw [hentries]
    exact .empty
  · rw [show SessionStore.entries _ = [] from hentries] at he
    cases he
  · show 0 = ((arwsSessionInit.sessions.countP (·.valid) : ℕ) : Int)
    rw [List.countP_eq_length_filter, hnone]
    rfl

/-- The address that is asked for is the one of the session, or none is asked for. -/
def AddressFits (ip : Option Bytes) (x : Holder) : Prop := ip = none ∨ ip = some [] ∨ ip = some x.ip

instance (ip : Option Bytes) (x : Holder) : Decidable (AddressFits ip x) :=
  inferInstanceAs (Decidable (_ ∨ _))

def ArwsSession.holder (x : ArwsSession) : Holder := ⟨x.user, x.ip, x.role⟩

/-- What the map has of a session that is in the store. -/
theorem Refines.lookup_eq (h : Refines s) {i : Nat} {x : ArwsSession}
    (hget : s.store.sessions[i]? = some x) (hx : x.valid = true) :
    s.created.lookup now x.token = if now < x.expiresAt then some x.holder else none := by
  have hcreated : s.created x.token = some (x.holder, x.expiresAt) :=
    h.holds.of_mem _ (mem_entries_iff.2 ⟨x, List.mem_of_getElem? hget, hx, rfl⟩)
  rw [ExpiringMap.lookup, hcreated, Option.filter_some]
  by_cases hlive : now < x.expiresAt
  · rw [if_pos hlive, if_pos (decide_eq_true hlive)]
    rfl
  · rw [if_neg hlive, if_neg fun hlive' => hlive (of_decide_eq_true hlive')]
    rfl

theorem Refines.lookup_eq_none (h : Refines s) (hnow : s.now ≤ now) {token : Bytes}
    (htoken : token ∉ s.store.entries.map (·.1)) : s.created.lookup now token = none := by
  rw [Option.eq_none_iff_forall_ne_some]
  intro x hx
  obtain ⟨expiry, hmem, -⟩ := (h.holds.later hnow).lookup_eq_some_iff.1 hx
  exact htoken (List.mem_map_of_mem hmem)

/-- What `arws_session_verify` asks of the address. -/
theorem addressFits_iff {ip : Option Bytes} {x : ArwsSession} :
    AddressFits ip x.holder ↔ (ip.any fun ip => ip != [] && x.ip != ip) = false := by
  cases ip with
  | none => exact iff_of_true (Or.inl rfl) rfl
  | some ip =>
    simp only [AddressFits, reduceCtorEq, Option.some.injEq, false_or, Option.any_some, ArwsSession.holder,
      Bool.and_eq_false_iff, bne_eq_false_iff_eq]
    exact or_congr_right eq_comm

/-- **What `arws_session_verify` returns** is what the map has for the token, if the address fits. -/
theorem Refines.verify_eq (h : Refines s) (hnow : s.now ≤ now) (token : Bytes) (ip : Option Bytes) :
    ((arwsSessionVerify s.store (some token) ip now).2 = none ∧
        ∀ x, s.created.lookup now token = some x → ¬ AddressFits ip x) ∨
      ∃ i x, (arwsSessionVerify s.store (some token) ip now).2 = some i ∧
        s.store.sessions[i]? = some x ∧ s.created.lookup now token = some x.holder ∧
        AddressFits ip x.holder := by
  simp only [arwsSessionVerify]
  cases hfind : s.store.sessions.findIdx? fun x => x.valid && tokensMatch x.token token with
  | none =>
    refine Or.inl ⟨rfl, fun x hx => ?_⟩
    rw [h.lookup_eq_none hnow (findIdx?_token_eq_none hfind)] at hx
    cases hx
  | some i =>
    obtain ⟨x, hget, hx, rfl⟩ := findIdx?_token hfind
    have hlookup : s.created.lookup now x.token = _ := h.lookup_eq hget hx
    simp only [hget, Option.any_some, decide_eq_true_eq]
    by_cases hover : x.expiresAt ≤ now
    · rw [if_pos hover]
      rw [if_neg (Nat.not_lt.2 hover)] at hlookup
      refine Or.inl ⟨rfl, fun y hy => ?_⟩
      rw [hlookup] at hy
      cases hy
    · rw [if_neg hover]
      rw [if_pos (Nat.lt_of_not_le hover)] at hlookup
      by_cases hip : AddressFits ip x.holder
      · rw [addressFits_iff.1 hip]
        exact Or.inr ⟨i, x, rfl, hget, hlookup, hip⟩
      · have hbad := (Bool.not_eq_false _).mp fun hno => hip (addressFits_iff.2 hno)
        rw [hbad]
        refine Or.inl ⟨rfl, fun y hy => ?_⟩
        rw [hlookup] at hy
        cases hy
        exact hip

/-- **A session is found exactly if** there is one with the token that was created and not destroyed, its
time is not expired, and the address fits; it then holds what it was created with.  And the valid
sessions are counted. -/
theorem verify_iff (h : sessionMachine.Reach s) (hnow : s.now ≤ now) (token ip : Option Bytes) :
    ((arwsSessionVerify s.store token ip now).2.isSome = true ↔
      ∃ t ∈ token, ∃ x, s.created.lookup now t = some x ∧ AddressFits ip x) ∧
    (∀ i ∈ (arwsSessionVerify s.store token ip now).2, ∃ t ∈ token, ∃ x ∈ s.store.sessions[i]?,
      s.created.lookup now t = some ⟨x.user, x.ip, x.role⟩) ∧
    s.store.sessionCount = (s.store.sessions.countP (·.valid) : ℕ) := by
  have hrefines := refines_of_reach h
  refine ⟨?_, ?_, hrefines.count⟩
  · cases token with
    | none => simp [arwsSessionVerify]
    | some token =>
      obtain ⟨he, hno⟩ | ⟨i, x, he, -, hlookup, hip⟩ := hrefines.verify_eq hnow token ip
      · rw [he]
        refine iff_of_false Bool.false_ne_true ?_
        rintro ⟨t, ⟨rfl⟩, x, hx, hip⟩
        exact hno x hx hip
      · rw [he]
        exact iff_of_true rfl ⟨token, rfl, x.holder, hlookup, hip⟩
  · intro i hi
    cases token with
    | none => cases hi
    | some token =>
      obtain ⟨he, -⟩ | ⟨j, x, he, hget, hlookup, -⟩ := hrefines.verify_eq hnow token ip
      · rw [he] at hi
        cases hi
      · rw [he] at hi
        cases hi
        exact ⟨token, rfl, x, hget, hlookup⟩

/-- A session for a minute, and the store behind it. -/
private def opened : Option SessionRun :=
  sessionMachine.step ⟨arwsSessionInit, 0, [], .empty⟩
    (1000, .create (List.replicate 127 0) (ascii "ann") (ascii "10.0.0.1") 0 60)

/-- It is found while it lasts. -/
theorem verify_iff_opened : ∃ s, sessionMachine.Reach s ∧ (arwsSessionVerify s.store
    (some (generateRandomToken (List.replicate 127 0))) none 60).2.isSome = true := by
  have hopened : opened.map (fun s => (s.now,
      s.created.lookup 60 (generateRandomToken (List.replicate 127 0)))) =
        some (1, some ⟨ascii "ann", ascii "10.0.0.1", 0⟩) := by decide +kernel
  obtain ⟨s, hs, hsame⟩ := Option.map_eq_some_iff.1 hopened
  obtain ⟨hnow, hlookup⟩ := Prod.mk.inj hsame
  have hreach : sessionMachine.Reach s := .next (.start rfl) trivial hs
  exact ⟨s, hreach, (verify_iff hreach (by omega) _ none).1.2 ⟨_, rfl, _, hlookup, Or.inl rfl⟩⟩

end Session
end Arws

import Arws.Session.Store

/-!
# Tokens that are not random

If `RAND_bytes` fails, `generate_random_token` takes the low byte of the clock in the place of each random
byte, so two sessions may be drawn the same bytes.  Here the store is run with either outcome at each call
of `arws_session_create`, and with any readings of the clock.

* `OwnSessions` — no two valid sessions have one token, so whoever has a token finds and destroys the
  session it was returned for.
* `generateRandomToken_eq_iff` — tokens are the same if the bytes are, up to multiples of 62.
* `reachUnder_drawsApart_iff` — the sessions are kept apart in the runs in which each session that is
  created is drawn other bytes, in this sense, than those that are valid.
* `not_ownSessions` — two sessions in the same millisecond.
-/

set_option autoImplicit false

namespace Arws
namespace Session

open CString

/-- The bytes a token is made of, for the outcome of `RAND_bytes` and what `ar_time_ms()` returns at each
byte. -/
def drawnBytes (random : Option (Vector UInt8 127)) (readings : Vector Nat 127) : Bytes :=
  match random with
  | some raw => raw.toList
  | none => readings.toList.map UInt8.ofNat

structure TokenRun where
  store : SessionStore
  /-- What the session in each slot was drawn. -/
  drawn : Nat → Bytes
  /-- The tokens that were made of random bytes. -/
  randomTokens : List Bytes

inductive TokenCall
  | create (random : Option (Vector UInt8 127)) (readings : Vector Nat 127) (user ip : Bytes)
      (role ttlSeconds : Int) (now : Nat)
  | verify (token ip : Option Bytes) (now : Nat)
  | destroy (token : Option Bytes)
  | cleanup (now : Nat)

/-- Random bytes make a token that none before them made. -/
def MakesNew (s : TokenRun) (random : Option (Vector UInt8 127)) : Prop :=
  ∀ raw ∈ random, generateRandomToken raw.toList ∉ s.randomTokens

theorem makesNew_some_iff (s : TokenRun) (raw : Vector UInt8 127) :
    (s.randomTokens.all fun token => token != generateRandomToken raw.toList) = true ↔
      MakesNew s (some raw) := by
  rw [List.all_eq_true]
  constructor
  · rintro h _ ⟨⟩ hmem
    exact (bne_iff_ne.1 (h _ hmem)) rfl
  · exact fun h token htoken => bne_iff_ne.2 fun he => h raw rfl (he ▸ htoken)

instance (s : TokenRun) : ∀ random, Decidable (MakesNew s random)
  | none => isTrue fun _ h => absurd h (Option.not_mem_none _)
  | some raw => decidable_of_iff _ (makesNew_some_iff s raw)

/-- A call at any reading of the clock. -/
def tokenStep (s : TokenRun) : TokenCall → Option TokenRun
  | .create random readings user ip role ttlSeconds now =>
    if MakesNew s random then
      let raw := drawnBytes random readings
      match arwsSessionCreate s.store raw user ip role ttlSeconds now with
      | (store, none) => some { s with store := store }
      | (store, some idx) =>
        some
          { store := store
            drawn := Function.update s.drawn idx raw
            randomTokens := (random.map fun raw => generateRandomToken raw.toList).toList ++
              s.randomTokens }
    else none
  | .verify token ip now => some { s with store := (arwsSessionVerify s.store token ip now).1 }
  | .destroy token => some { s with store := (arwsSessionDestroy s.store token).1 }
  | .cleanup now => some { s with store := arwsSessionCleanup s.store now }

def tokenMachine : Machine TokenRun TokenCall where
  init s := s = ⟨arwsSessionInit, fun _ => [], []⟩
  step := tokenStep

/-- No two valid sessions have one token. -/
def Apart (s : SessionStore) : Prop :=
  ∀ (i j : Nat) (x y : ArwsSession), s.sessions[i]? = some x → s.sessions[j]? = some y →
    x.valid = true → y.valid = true → x.token = y.token → i = j

/-- **A token is for one session**: no two valid sessions have the same, and with the token of a valid
session, `arws_session_verify` returns no other one and gives up no other one, and
`arws_session_destroy` gives up that one. -/
structure OwnSessions (s : SessionStore) : Prop where
  apart : Apart s
  verify : ∀ (i : Nat) (x : ArwsSession), s.sessions[i]? = some x → x.valid = true → ∀ ip now,
    (∀ j ∈ (arwsSessionVerify s (some x.token) ip now).2, j = i) ∧
      ∀ j : Nat, j ≠ i → (arwsSessionVerify s (some x.token) ip now).1.sessions[j]? = s.sessions[j]?
  destroy : ∀ (i : Nat) (x : ArwsSession), s.sessions[i]? = some x → x.valid = true →
    arwsSessionDestroy s (some x.token) = (s.invalidate i, 0)

/-- The same letters are chosen. -/
def SameLetters (a b : Bytes) : Prop := a.map (·.toNat % 62) = b.map (·.toNat % 62)

instance (a b : Bytes) : Decidable (SameLetters a b) := inferInstanceAs (Decidable (_ = _))

/-- A session that is created is drawn other bytes, up to multiples of 62, than those that are valid. -/
def DrawsApart (s : TokenRun) : TokenCall → Prop
  | .create random readings _ _ _ _ _ =>
    (∃ x ∈ s.store.sessions, x.valid = false) →
      ∀ (i : Nat) (x : ArwsSession), s.store.sessions[i]? = some x → x.valid = true →
        ¬ SameLetters (s.drawn i) (drawnBytes random readings)
  | _ => True

/-! ## Letters -/

theorem length_drawnBytes (random : Option (Vector UInt8 127)) (readings : Vector Nat 127) :
    (drawnBytes random readings).length = 127 := by
  cases random <;> simp [drawnBytes]

theorem tokenChars_inj : ∀ i < 62, ∀ j < 62, tokenChars.getD i 0 = tokenChars.getD j 0 → i = j := by
  decide +kernel

/-- **Tokens are the same** if and only if the same letters are chosen. -/
theorem generateRandomToken_eq_iff {a b : Bytes} (ha : a.length = 127) (hb : b.length = 127) :
    generateRandomToken a = generateRandomToken b ↔ SameLetters a b := by
  rw [generateRandomToken, generateRandomToken, List.take_of_length_le (Nat.le_of_eq ha),
    List.take_of_length_le (Nat.le_of_eq hb), SameLetters]
  constructor
  · intro h
    refine List.ext_getElem (by simp [ha, hb]) fun k hk hk' => ?_
    have hletter := List.getElem_of_eq h (by simpa using hk)
    rw [List.getElem_map, List.getElem_map] at hletter ⊢
    exact tokenChars_inj _ (Nat.mod_lt _ (by decide)) _ (Nat.mod_lt _ (by decide)) hletter
  · intro h
    have hletters := congrArg (List.map (tokenChars.getD · 0)) h
    rwa [List.map_map, List.map_map] at hletters

/-! ## Whose a token is -/

section Own

variable {s : SessionStore} {i : Nat} {x : ArwsSession}

/-- The search for the token of a valid session comes to it. -/
theorem Apart.findIdx?_eq (h : Apart s) (hget : s.sessions[i]? = some x) (hx : x.valid = true) :
    (s.sessions.findIdx? fun y => y.valid && tokensMatch y.token x.token) = some i := by
  cases hfind : s.sessions.findIdx? fun y => y.valid && tokensMatch y.token x.token with
  | none =>
    have hno := List.findIdx?_eq_none_iff.1 hfind x (List.mem_of_getElem? hget)
    rw [hx, Bool.true_and, tokensMatch_iff.2 rfl] at hno
    cases hno
  | some j =>
    obtain ⟨y, hy, hvalid, htoken⟩ := findIdx?_token hfind
    rw [h j i y x hy hget hvalid hx htoken]

theorem getElem?_invalidate_of_ne {j : Nat} (hj : j ≠ i) :
    (s.invalidate i).sessions[j]? = s.sessions[j]? :=
  List.getElem?_modify_ne _ _ (Ne.symm hj)

/-- **Where tokens are apart**, each is for its own session. -/
theorem Apart.own (h : Apart s) : OwnSessions s where
  apart := h
  verify i x hget hx ip now := by
    simp only [arwsSessionVerify, h.findIdx?_eq hget hx, hget, Option.any_some]
    split_ifs
    · exact ⟨fun j hj => absurd hj (Option.not_mem_none j),
        fun j hj => getElem?_invalidate_of_ne hj⟩
    · exact ⟨fun j hj => absurd hj (Option.not_mem_none j), fun j _ => rfl⟩
    · exact ⟨fun j hj => (Option.some.inj hj).symm, fun j _ => rfl⟩
  destroy i x hget hx := by
    simp only [arwsSessionDestroy, findIdx?_strcmp, h.findIdx?_eq hget hx]

/-- A session that is given up is not valid, and the others are as they were. -/
theorem getElem?_invalidate {j : Nat} {y : ArwsSession} (hget : (s.invalidate i).sessions[j]? = some y)
    (hy : y.valid = true) : s.sessions[j]? = some y := by
  by_cases hj : j = i
  · subst hj
    rw [SessionStore.invalidate, List.getElem?_modify_eq, Option.map_eq_map,
      Option.map_eq_some_iff] at hget
    obtain ⟨x, -, rfl⟩ := hget
    cases hy
  · rwa [getElem?_invalidate_of_ne hj] at hget

end Own

/-! ## One call -/

/-- Every valid session was there before. -/
def Shrinks (s t : SessionStore) : Prop :=
  ∀ (i : Nat) (x : ArwsSession), t.sessions[i]? = some x → x.valid = true → s.sessions[i]? = some x

theorem Shrinks.refl (s : SessionStore) : Shrinks s s := fun _ _ h _ => h

theorem Shrinks.apart {s t : SessionStore} (h : Shrinks s t) (hs : Apart s) : Apart t :=
  fun i j x y hx hy hvx hvy htoken => hs i j x y (h i x hx hvx) (h j y hy hvy) hvx hvy htoken

theorem shrinks_verify (s : SessionStore) (token ip : Option Bytes) (now : Nat) :
    Shrinks s (arwsSessionVerify s token ip now).1 := by
  rw [arwsSessionVerify.eq_def]
  split
  · exact .refl s
  · split
    · exact .refl s
    · split_ifs
      · exact fun _ _ => getElem?_invalidate
      · exact .refl s
      · exact .refl s

theorem shrinks_destroy (s : SessionStore) (token : Option Bytes) :
    Shrinks s (arwsSessionDestroy s token).1 := by
  rw [arwsSessionDestroy.eq_def]
  split
  · exact .refl s
  · split
    · exact .refl s
    · exact fun _ _ => getElem?_invalidate

theorem shrinks_cleanup (s : SessionStore) (now : Nat) : Shrinks s (arwsSessionCleanup s now) := by
  intro i x hget hx
  rw [arwsSessionCleanup, List.getElem?_map, Option.map_eq_some_iff] at hget
  obtain ⟨y, hy, rfl⟩ := hget
  split_ifs at hx ⊢
  exact hy

/-- The sessions are apart, and each token is made of what the session was drawn. -/
structure Drawn (s : TokenRun) : Prop where
  apart : Apart s.store
  token : ∀ (i : Nat) (x : ArwsSession), s.store.sessions[i]? = some x → x.valid = true →
    (s.drawn i).length = 127 ∧ x.token = generateRandomToken (s.drawn i)

variable {s t : TokenRun}

/-- A session that is created, in a slot that was free. -/
theorem arwsSessionCreate_eq_some {s s' : SessionStore} {raw user ip : Bytes} {role ttlSeconds : Int}
    {now i : Nat} (h : arwsSessionCreate s raw user ip role ttlSeconds now = (s', some i)) :
    (∃ x, s.sessions[i]? = some x ∧ x.valid = false) ∧
      ∀ j : Nat, s'.sessions[j]? = if j = i then
        some (createdSession raw user ip role ttlSeconds now) else s.sessions[j]? := by
  rw [arwsSessionCreate] at h
  split at h
  · cases h
  · rename_i idx hfree
    cases h
    obtain ⟨hi, hinvalid, -⟩ := List.findIdx?_eq_some_iff_getElem.1 hfree
    refine ⟨⟨_, List.getElem?_eq_getElem hi, by simpa using hinvalid⟩, fun j => ?_⟩
    split_ifs with hj
    · subst hj
      rw [List.getElem?_modify_eq, List.getElem?_eq_getElem hi]
      rfl
    · exact List.getElem?_modify_ne _ _ (Ne.symm hj)

/-- Without a free slot nothing is created. -/
theorem arwsSessionCreate_eq_none {s s' : SessionStore} {raw user ip : Bytes} {role ttlSeconds : Int}
    {now : Nat} (h : arwsSessionCreate s raw user ip role ttlSeconds now = (s', none)) :
    s' = s ∧ ¬ ∃ x ∈ s.sessions, x.valid = false := by
  rw [arwsSessionCreate] at h
  split at h
  · rename_i hfull
    refine ⟨(Prod.mk.inj h).1.symm, ?_⟩
    rintro ⟨x, hx, hinvalid⟩
    have := List.findIdx?_eq_none_iff.1 hfull x hx
    rw [hinvalid] at this
    cases this
  · cases h

theorem token_createdSession (raw user ip : Bytes) (role ttlSeconds : Int) (now : Nat) :
    (createdSession raw user ip role ttlSeconds now).token = generateRandomToken raw :=
  List.take_of_length_le (by rw [generateRandomToken, List.length_map]; exact List.length_take_le _ _)

/-- What a call does, where it is possible: it creates a session in a free slot, or what is valid behind it
was there before. -/
theorem tokenStep_cases {call : TokenCall} (h : tokenStep s call = some t) :
    (∃ random readings user ip role ttlSeconds now i x,
      call = .create random readings user ip role ttlSeconds now ∧
      s.store.sessions[i]? = some x ∧ x.valid = false ∧
      t.drawn = Function.update s.drawn i (drawnBytes random readings) ∧
      ∀ j : Nat, t.store.sessions[j]? = if j = i then
        some (createdSession (drawnBytes random readings) user ip role ttlSeconds now)
        else s.store.sessions[j]?) ∨
      Shrinks s.store t.store ∧ t.drawn = s.drawn ∧ DrawsApart s call := by
  cases call with
  | create random readings user ip role ttlSeconds now =>
    obtain ⟨-, h⟩ := Option.ite_none_right_eq_some.1 h
    cases hcreate : arwsSessionCreate s.store (drawnBytes random readings) user ip role ttlSeconds now with
    | mk store result =>
      rw [hcreate] at h
      cases result with
      | none =>
        obtain ⟨rfl, hfull⟩ := arwsSessionCreate_eq_none hcreate
        cases h
        exact Or.inr ⟨.refl _, rfl, fun hfree => absurd hfree hfull⟩
      | some i =>
        obtain ⟨⟨x, hget, hx⟩, hbehind⟩ := arwsSessionCreate_eq_some hcreate
        cases h
        exact Or.inl ⟨_, _, _, _, _, _, _, i, x, rfl, hget, hx, rfl, hbehind⟩
  | verify token ip now =>
    cases h
    exact Or.inr ⟨shrinks_verify s.store token ip now, rfl, trivial⟩
  | destroy token =>
    cases h
    exact Or.inr ⟨shrinks_destroy s.store token, rfl, trivial⟩
  | cleanup now =>
    cases h
    exact Or.inr ⟨shrinks_cleanup s.store now, rfl, trivial⟩

/-- A session in a free slot keeps the tokens apart if and only if it is drawn other bytes. -/
theorem drawn_create {random : Option (Vector UInt8 127)} {readings : Vector Nat 127}
    {user ip : Bytes} {role ttlSeconds : Int} {now i : Nat} {x : ArwsSession} (h : Drawn s)
    (hget : s.store.sessions[i]? = some x) (hx : x.valid = false)
    (hdrawn : t.drawn = Function.update s.drawn i (drawnBytes random readings))
    (hbehind : ∀ j : Nat, t.store.sessions[j]? = if j = i then
      some (createdSession (drawnBytes random readings) user ip role ttlSeconds now)
      else s.store.sessions[j]?) :
    (DrawsApart s (.create random readings user ip role ttlSeconds now) → Drawn t) ∧
      (OwnSessions t.store → DrawsApart s (.create random readings user ip role ttlSeconds now)) := by
  have hraw := length_drawnBytes random readings
  have hnew := hbehind i
  rw [if_pos rfl] at hnew
  have hother : ∀ {j : Nat} {y : ArwsSession}, j ≠ i → (t.store.sessions[j]? = some y ↔
      s.store.sessions[j]? = some y) := fun hj => by rw [hbehind, if_neg hj]
  -- a valid session is in another slot, and has the token of what it was drawn
  have hvalid : ∀ {j : Nat} {y : ArwsSession}, s.store.sessions[j]? = some y → y.valid = true →
      j ≠ i := by
    rintro j y hy hvy rfl
    rw [hget, Option.some.injEq] at hy
    rw [← hy, hx] at hvy
    cases hvy
  constructor
  · intro hapart
    have hdiffer : ∀ {j : Nat} {y : ArwsSession}, s.store.sessions[j]? = some y → y.valid = true →
        y.token ≠ generateRandomToken (drawnBytes random readings) := by
      intro j y hy hvy htoken
      obtain ⟨hlen, hyt⟩ := h.token j y hy hvy
      rw [hyt, generateRandomToken_eq_iff hlen hraw] at htoken
      exact hapart ⟨x, List.mem_of_getElem? hget, hx⟩ j y hy hvy htoken
    refine ⟨fun j k y z hy hz hvy hvz htoken => ?_, fun j y hy hvy => ?_⟩
    · by_cases hj : j = i
      · subst hj
        rw [hnew, Option.some.injEq] at hy
        subst hy
        by_contra hk
        refine hdiffer ((hother (Ne.symm hk)).1 hz) hvz ?_
        rw [← htoken, token_createdSession]
      · have hy' := (hother hj).1 hy
        by_cases hk : k = i
        · subst hk
          rw [hnew, Option.some.injEq] at hz
          subst hz
          exact absurd (htoken.trans (token_createdSession ..)) (hdiffer hy' hvy)
        · exact h.apart j k y z hy' ((hother hk).1 hz) hvy hvz htoken
    · rw [hdrawn]
      by_cases hj : j = i
      · subst hj
        rw [hnew, Option.some.injEq] at hy
        subst hy
        rw [Function.update_self]
        exact ⟨hraw, token_createdSession ..⟩
      · rw [Function.update_of_ne hj]
        exact h.token j y ((hother hj).1 hy) hvy
  · intro hown _ j y hy hvy hsame
    obtain ⟨hlen, hyt⟩ := h.token j y hy hvy
    have hj := hvalid hy hvy
    refine hj (hown.apart j i y _ ((hother hj).2 hy) hnew hvy rfl ?_)
    rw [hyt, token_createdSession, generateRandomToken_eq_iff hlen hraw]
    exact hsame

/-! ## All runs -/

theorem drawn_step {call : TokenCall} (h : Drawn s) (hc : DrawsApart s call)
    (hs : tokenStep s call = some t) : Drawn t := by
  obtain ⟨_, _, _, _, _, _, _, i, x, rfl, hget, hx, hdrawn, hbehind⟩ | ⟨hsub, hdrawn, -⟩ :=
    tokenStep_cases hs
  · exact (drawn_create h hget hx hdrawn hbehind).1 hc
  · refine ⟨hsub.apart h.apart, fun j y hy hvy => ?_⟩
    rw [hdrawn]
    exact h.token j y (hsub j y hy hvy) hvy

theorem drawsApart_of_own {call : TokenCall} (h : Drawn s) (hs : tokenStep s call = some t)
    (hown : OwnSessions t.store) : DrawsApart s call := by
  obtain ⟨_, _, _, _, _, _, _, i, x, rfl, hget, hx, hdrawn, hbehind⟩ | ⟨-, -, hapart⟩ :=
    tokenStep_cases hs
  · exact (drawn_create h hget hx hdrawn hbehind).2 hown
  · exact hapart

theorem drawn_init : Drawn ⟨arwsSessionInit, fun _ => [], []⟩ := by
  have hnone : ∀ (i : Nat) (x : ArwsSession), arwsSessionInit.sessions[i]? = some x →
      x.valid = true → False := by
    intro i x hget hx
    rw [List.eq_of_mem_replicate (List.mem_of_getElem? hget)] at hx
    cases hx
  exact ⟨fun i j x y hx hy hvx => absurd (hnone i x hx hvx) id,
    fun i x hget hx => absurd (hnone i x hget hx) id⟩

/-- **Sessions do not share tokens** in exactly the runs in which each session is drawn bytes that choose
other letters than those of each valid session. -/
theorem reachUnder_drawsApart_iff : tokenMachine.ReachUnder DrawsApart s ↔
    tokenMachine.ReachUnder (fun s call => ∃ t, tokenMachine.step s call = some t ∧
      OwnSessions t.store) s := by
  refine Machine.reachUnder_iff (I := Drawn) (P := fun t => OwnSessions t.store) ?_
    (fun s call t hI hc hs => drawn_step hI hc hs) fun s call t hI hs => ?_
  · rintro s rfl
    exact drawn_init
  · exact ⟨drawsApart_of_own hI hs, fun hc => (drawn_step hI hc hs).apart.own⟩

/-- A session for `user` while the clock stands at `ms`. -/
private def loginAt (ms : Nat) (user : Bytes) : TokenCall :=
  .create none (Vector.replicate 127 ms) user (ascii "10.0.0.1") 0 60 (ms / 1000)

/-- **Two sessions in the same millisecond** have the same token. -/
theorem not_ownSessions : ¬ ∀ s, tokenMachine.Reach s → OwnSessions s.store := by
  intro h
  have hrun : (tokenMachine.runUnder (fun _ _ => True) ⟨arwsSessionInit, fun _ => [], []⟩
      [loginAt 1000 (ascii "ann"), loginAt 1000 (ascii "bob")]).map (fun s =>
        ((s.store.sessions[0]?).map fun x => (x.valid, x.token),
          (s.store.sessions[1]?).map fun x => (x.valid, x.token))) =
      some (some (true, generateRandomToken (List.replicate 127 232)),
        some (true, generateRandomToken (List.replicate 127 232))) := by
    decide +kernel
  obtain ⟨s, hs, hboth⟩ := Option.map_eq_some_iff.1 hrun
  obtain ⟨hzero, hone⟩ := Prod.mk.inj hboth
  obtain ⟨x, hx, hxs⟩ := Option.map_eq_some_iff.1 hzero
  obtain ⟨y, hy, hys⟩ := Option.map_eq_some_iff.1 hone
  obtain ⟨hvx, htx⟩ := Prod.mk.inj hxs
  obtain ⟨hvy, hty⟩ := Prod.mk.inj hys
  have hreach : tokenMachine.Reach s := Machine.reachUnder_of_runUnder (.start rfl) hs
  exact absurd ((h s hreach).apart 0 1 x y hx hy hvx hvy (htx.trans hty.symm)) (by decide)

end Session
end Arws

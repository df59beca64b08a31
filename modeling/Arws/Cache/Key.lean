import Arws.Cache.Completeness
import Arws.Server.Request

/-!
# Which requests share a cache key

`arws_dispatch` looks a `GET` request up under a key made of its host, its path and its query, joined
by bars and cut to 511 bytes.  None of the parts is escaped, and a missing query is written `*`.

`separate_iff` says which requests are kept apart: all but three kinds.

* `StandIn` — one has no query and the other the query `*`.
* `Moved` — taken apart at their bars they have the same pieces in the same order, but the pieces
  belong to different parts.
* `Cut` — both are too long for a key, and they begin the same.
-/

set_option autoImplicit false

namespace Arws
namespace Cache

open CString

/-- What a `GET` request is looked up by. -/
@[ext] structure Lookup where
  host : Bytes
  path : Bytes
  query : Option Bytes
  deriving DecidableEq

def bar : UInt8 := 124

/-- `arws_cache_make_key` as `arws_dispatch` calls it for a `GET` request. -/
def Lookup.key (r : Lookup) : Bytes :=
  arwsCacheMakeKey 512 (some (ascii "GET")) (some r.host) (some r.path) r.query

/-- **Two requests are kept apart**: their keys differ, and a hit for the second is never on an entry
that was stored for the first. -/
def Separate (r₁ r₂ : Lookup) : Prop :=
  r₁.key ≠ r₂.key ∧ ∀ (c : Table) now alloc data, (arwsCacheGet c r₂.key now alloc).2 = .hit data →
    ∃ slot, findSlot c r₂.key = some slot ∧ keyAt c slot = some r₂.key ∧ keyAt c slot ≠ some r₁.key

/-- The query as it stands in the key. -/
def Lookup.queryText (r : Lookup) : Bytes := r.query.getD (ascii "*")

/-- The parts taken apart at every bar. -/
def Lookup.pieces (r : Lookup) : List Bytes :=
  r.host.splitOn bar ++ r.path.splitOn bar ++ r.queryText.splitOn bar

/-- The three parts with bars between them. -/
def Lookup.joined (r : Lookup) : Bytes := r.host ++ bar :: (r.path ++ bar :: r.queryText)

def StandIn (r₁ r₂ : Lookup) : Prop :=
  r₁.host = r₂.host ∧ r₁.path = r₂.path ∧
    (r₁.query = none ∧ r₂.query = some (ascii "*") ∨ r₁.query = some (ascii "*") ∧ r₂.query = none)

def Moved (r₁ r₂ : Lookup) : Prop :=
  r₁.pieces = r₂.pieces ∧
    ((r₁.host.splitOn bar).length ≠ (r₂.host.splitOn bar).length ∨
      (r₁.path.splitOn bar).length ≠ (r₂.path.splitOn bar).length)

/-- A key has room for 507 bytes behind `GET|`. -/
def Cut (r₁ r₂ : Lookup) : Prop :=
  r₁.pieces ≠ r₂.pieces ∧ 507 ≤ r₁.joined.length ∧ 507 ≤ r₂.joined.length ∧
    r₁.joined.take 507 = r₂.joined.take 507

theorem Lookup.key_eq (r : Lookup) : r.key = ascii "GET|" ++ r.joined.take 507 := by
  have htext : r.key = (ascii "GET|" ++ r.joined).take 511 := by
    simp only [Lookup.key, arwsCacheMakeKey, Option.getD_some, Lookup.joined, Lookup.queryText]
    congr 1
    simp [ascii, bar]
  rw [htext, List.take_append]
  rfl

theorem Lookup.key_eq_key_iff {r₁ r₂ : Lookup} :
    r₁.key = r₂.key ↔ r₁.joined.take 507 = r₂.joined.take 507 := by
  rw [Lookup.key_eq, Lookup.key_eq, List.append_cancel_left_eq]

theorem Lookup.splitOn_joined (r : Lookup) : r.joined.splitOn bar = r.pieces := by
  rw [Lookup.joined, List.splitOn_append_cons_self, List.splitOn_append_cons_self, Lookup.pieces,
    List.append_assoc]

/-- A text is the pieces it is taken apart into. -/
theorem eq_of_splitOn_eq {a b : Bytes} (h : a.splitOn bar = b.splitOn bar) : a = b := by
  have ha : [bar].intercalate (a.splitOn bar) = a := List.intercalate_splitOn bar
  rw [← ha, h, List.intercalate_splitOn]

theorem Lookup.pieces_eq_pieces_iff {r₁ r₂ : Lookup} :
    r₁.pieces = r₂.pieces ↔ r₁.joined = r₂.joined := by
  rw [← Lookup.splitOn_joined, ← Lookup.splitOn_joined]
  exact ⟨eq_of_splitOn_eq, fun h => by rw [h]⟩

/-- Requests with the same pieces have the same parts, unless a piece has moved. -/
theorem parts_eq_of_not_moved {r₁ r₂ : Lookup} (h : r₁.pieces = r₂.pieces) (hm : ¬ Moved r₁ r₂) :
    r₁.host = r₂.host ∧ r₁.path = r₂.path ∧ r₁.queryText = r₂.queryText := by
  simp only [Moved, h, true_and, not_or, Decidable.not_not] at hm
  obtain ⟨hhost, hpath⟩ := hm
  obtain ⟨hleft, hquery⟩ := List.append_inj h (by rw [List.length_append, List.length_append, hhost,
    hpath])
  obtain ⟨hh, hp⟩ := List.append_inj hleft hhost
  exact ⟨eq_of_splitOn_eq hh, eq_of_splitOn_eq hp, eq_of_splitOn_eq hquery⟩

/-- Two queries that read the same in the key are the same, or one is the stand-in for the other. -/
theorem query_eq_or_standIn {r₁ r₂ : Lookup} (hhost : r₁.host = r₂.host) (hpath : r₁.path = r₂.path)
    (hquery : r₁.queryText = r₂.queryText) : r₁ = r₂ ∨ StandIn r₁ r₂ := by
  rw [Lookup.queryText, Lookup.queryText] at hquery
  cases h₁ : r₁.query with
  | none =>
    cases h₂ : r₂.query with
    | none => exact Or.inl (Lookup.ext hhost hpath (h₁.trans h₂.symm))
    | some q₂ =>
      rw [h₁, h₂, Option.getD_none, Option.getD_some] at hquery
      exact Or.inr ⟨hhost, hpath, Or.inl ⟨h₁, by rw [h₂, hquery]⟩⟩
  | some q₁ =>
    cases h₂ : r₂.query with
    | none =>
      rw [h₁, h₂, Option.getD_none, Option.getD_some] at hquery
      exact Or.inr ⟨hhost, hpath, Or.inr ⟨by rw [h₁, hquery], h₂⟩⟩
    | some q₂ =>
      rw [h₁, h₂, Option.getD_some, Option.getD_some] at hquery
      exact Or.inl (Lookup.ext hhost hpath (by rw [h₁, h₂, hquery]))

/-- Texts that are equal up to a length are equal or reach that length. -/
theorem le_length_of_take_eq {a b : Bytes} {n : Nat} (h : a.take n = b.take n) (hne : a ≠ b) :
    n ≤ a.length := by
  by_contra hlt
  have hb : b.length < n := by
    have := congrArg List.length h
    rw [List.length_take, List.length_take] at this
    omega
  rw [List.take_of_length_le (by omega), List.take_of_length_le (by omega)] at h
  exact hne h

/-- **Which keys are shared**: those of the three kinds of requests. -/
theorem key_eq_key_iff_kinds {r₁ r₂ : Lookup} (h : r₁ ≠ r₂) :
    r₁.key = r₂.key ↔ StandIn r₁ r₂ ∨ Moved r₁ r₂ ∨ Cut r₁ r₂ := by
  rw [Lookup.key_eq_key_iff]
  constructor
  · intro hkey
    by_cases hpieces : r₁.pieces = r₂.pieces
    · by_cases hm : Moved r₁ r₂
      · exact Or.inr (Or.inl hm)
      · obtain ⟨hhost, hpath, hquery⟩ := parts_eq_of_not_moved hpieces hm
        exact Or.inl ((query_eq_or_standIn hhost hpath hquery).resolve_left h)
    · have hne : r₁.joined ≠ r₂.joined := fun he => hpieces (Lookup.pieces_eq_pieces_iff.2 he)
      exact Or.inr (Or.inr ⟨hpieces, le_length_of_take_eq hkey hne,
        le_length_of_take_eq hkey.symm hne.symm, hkey⟩)
  · rintro (⟨hhost, hpath, hquery⟩ | ⟨hpieces, -⟩ | ⟨-, -, -, hcut⟩)
    · have htext : r₁.queryText = r₂.queryText := by
        rcases hquery with ⟨h₁, h₂⟩ | ⟨h₁, h₂⟩ <;> simp [Lookup.queryText, h₁, h₂]
      rw [Lookup.joined, Lookup.joined, hhost, hpath, htext]
    · rw [Lookup.pieces_eq_pieces_iff.1 hpieces]
    · exact hcut

/-- **Different requests are kept apart exactly when** they are of none of the three kinds. -/
theorem separate_iff {r₁ r₂ : Lookup} (h : r₁ ≠ r₂) :
    Separate r₁ r₂ ↔ ¬ (StandIn r₁ r₂ ∨ Moved r₁ r₂ ∨ Cut r₁ r₂) := by
  rw [← key_eq_key_iff_kinds h]
  constructor
  · exact fun hsep => hsep.1
  · refine fun hne => ⟨hne, fun c now alloc data hhit => ?_⟩
    obtain ⟨slot, _, hfind, huse, hkey, -, -⟩ := arwsCacheGet_eq_hit hhit
    have hk := keyAt_eq_some_iff.2 ⟨huse, hkey⟩
    exact ⟨slot, hfind, hk, fun hk' => hne (Option.some.inj (hk'.symm.trans hk))⟩

instance (r₁ r₂ : Lookup) : Decidable (StandIn r₁ r₂) :=
  inferInstanceAs (Decidable (r₁.host = r₂.host ∧ r₁.path = r₂.path ∧
    (r₁.query = none ∧ r₂.query = some (ascii "*") ∨
      r₁.query = some (ascii "*") ∧ r₂.query = none)))

instance (r₁ r₂ : Lookup) : Decidable (Moved r₁ r₂) :=
  inferInstanceAs (Decidable (r₁.pieces = r₂.pieces ∧
    ((r₁.host.splitOn bar).length ≠ (r₂.host.splitOn bar).length ∨
      (r₁.path.splitOn bar).length ≠ (r₂.path.splitOn bar).length)))

instance (r₁ r₂ : Lookup) : Decidable (Cut r₁ r₂) :=
  inferInstanceAs (Decidable (r₁.pieces ≠ r₂.pieces ∧ 507 ≤ r₁.joined.length ∧
    507 ≤ r₂.joined.length ∧ r₁.joined.take 507 = r₂.joined.take 507))

/-- The query tells two requests for one path apart. -/
theorem separate_of_query :
    Separate ⟨ascii "a", ascii "/b", none⟩ ⟨ascii "a", ascii "/b", some (ascii "c")⟩ :=
  (separate_iff (by decide)).2 (by decide +kernel)

/-! ## Requests that share a key -/

/-- Some client gets `handle_client` to go on with a `GET` request that is looked up so. -/
def Accepted (r : Lookup) : Prop :=
  ∃ t env fullPath req, Server.readMachine.Reach t ∧ t.phase = .finished ∧
    Server.parseRequest env t = .request fullPath req ∧ req.method = ascii "GET" ∧
    r = ⟨req.host, req.path, req.queryParams⟩

theorem accepted_bar_in_path : Accepted ⟨ascii "a", ascii "/b|c", some (ascii "d")⟩ :=
  ⟨_, ⟨true, true⟩, ascii "/b|c?d", ⟨ascii "GET", ascii "/b|c", some (ascii "d"),
      [⟨ascii "d", []⟩], [⟨ascii "Host", ascii "a"⟩], ascii "a", [], 0⟩,
    @Server.reach_whole "GET /b|c?d HTTP/1.1\r\nHost: a\r\n\r\n" (by decide +kernel),
    by decide +kernel, by decide +kernel, rfl, rfl⟩

theorem accepted_bar_in_query : Accepted ⟨ascii "a", ascii "/b", some (ascii "c|d")⟩ :=
  ⟨_, ⟨true, true⟩, ascii "/b?c|d", ⟨ascii "GET", ascii "/b", some (ascii "c|d"),
      [⟨ascii "c|d", []⟩], [⟨ascii "Host", ascii "a"⟩], ascii "a", [], 0⟩,
    @Server.reach_whole "GET /b?c|d HTTP/1.1\r\nHost: a\r\n\r\n" (by decide +kernel),
    by decide +kernel, by decide +kernel, rfl, rfl⟩

/-- **`/b|c?d` and `/b?c|d` share their key**, and both are accepted. -/
theorem not_separate :
    ¬ ∀ r₁ r₂, Accepted r₁ → Accepted r₂ → r₁ ≠ r₂ → Separate r₁ r₂ := by
  intro h
  have hsep := h _ _ accepted_bar_in_path accepted_bar_in_query (by decide)
  exact hsep.1 (by decide)

end Cache
end Arws

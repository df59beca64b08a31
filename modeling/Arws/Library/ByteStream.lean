import Mathlib.Algebra.Group.Nat.Defs
import Mathlib.Data.List.Basic

/-!
# A stream read in pieces

What comes in on a connection is a stream of items cut into pieces: one read takes no more than it asks
for, and no more than the first piece.  A read that takes nothing has met the end, or an error.

* `readAll_eq_some` — what is read until enough has come is the front of the stream, however it is cut.
* `readAll_of_flatten` — a stream whose pieces are not empty is read as far as it goes.
* `bigEndian_bytes` — a number of 32 bits is the value of its four bytes.
-/

set_option autoImplicit false

namespace ByteStream

variable {α : Type*} {want n : ℕ} {pieces rest : List (List α)} {got front back : List α}

/-- One read: the items it takes, and what is left to come. -/
def read (want : ℕ) : List (List α) → List α × List (List α)
  | [] => ([], [])
  | piece :: pieces =>
    (piece.take want, if piece.length ≤ want then pieces else piece.drop want :: pieces)

theorem length_read_le (want : ℕ) (pieces : List (List α)) : (read want pieces).1.length ≤ want := by
  cases pieces with
  | nil => exact Nat.zero_le _
  | cons piece pieces => exact List.length_take_le _ _

/-- A read takes the front of the stream. -/
theorem read_flatten (want : ℕ) (pieces : List (List α)) :
    (read want pieces).1 ++ (read want pieces).2.flatten = pieces.flatten := by
  cases pieces with
  | nil => rfl
  | cons piece pieces =>
    rw [read]
    split_ifs with hle
    · rw [List.take_of_length_le hle, List.flatten_cons]
    · rw [List.flatten_cons, ← List.append_assoc, List.take_append_drop, List.flatten_cons]

/-- No piece is empty: no read meets the end before it. -/
def Flows (pieces : List (List α)) : Prop := ∀ piece ∈ pieces, piece ≠ []

theorem Flows.read (h : Flows pieces) : Flows (read want pieces).2 := by
  cases pieces with
  | nil => exact h
  | cons piece pieces =>
    rw [ByteStream.read]
    split_ifs with hle
    · exact fun p hp => h p (List.mem_cons_of_mem _ hp)
    · intro p hp
      rcases List.mem_cons.1 hp with rfl | hp
      · exact fun hnil => hle (List.drop_eq_nil_iff.1 hnil)
      · exact h p (List.mem_cons_of_mem _ hp)

theorem read_ne_nil (h : Flows pieces) (hwant : want ≠ 0) (hmore : pieces.flatten ≠ []) :
    (read want pieces).1 ≠ [] := by
  cases pieces with
  | nil => exact absurd rfl hmore
  | cons piece pieces =>
    intro hnil
    rcases List.take_eq_nil_iff.1 hnil with hzero | hnil
    · exact hwant hzero
    · exact h piece List.mem_cons_self hnil

/-- Read until enough has come; nothing, if a read takes nothing before. -/
def readAll (want : ℕ) (pieces : List (List α)) : Option (List α × List (List α)) :=
  if want = 0 then some ([], pieces)
  else if 0 < (read want pieces).1.length then
    (readAll (want - (read want pieces).1.length) (read want pieces).2).map fun r =>
      ((read want pieces).1 ++ r.1, r.2)
  else none
termination_by want

/-- **What is read is the front of the stream**, and the rest is left to come. -/
theorem readAll_eq_some (h : readAll want pieces = some (got, rest)) :
    got.length = want ∧ pieces.flatten = got ++ rest.flatten := by
  induction want, pieces using readAll.induct generalizing got with
  | case1 pieces =>
    rw [readAll, if_pos rfl] at h
    cases h
    exact ⟨rfl, rfl⟩
  | case2 want pieces hwant hpos ih =>
    rw [readAll, if_neg hwant, if_pos hpos] at h
    obtain ⟨⟨more, left⟩, hmore, he⟩ := Option.map_eq_some_iff.1 h
    obtain ⟨rfl, rfl⟩ := Prod.mk.inj he
    obtain ⟨hlen, hflat⟩ := ih hmore
    refine ⟨?_, ?_⟩
    · have hle := length_read_le want pieces
      rw [List.length_append, hlen]
      omega
    · rw [List.append_assoc, ← hflat, read_flatten]
  | case3 want pieces hwant hpos =>
    rw [readAll, if_neg hwant, if_neg hpos] at h
    cases h

/-- **A stream that flows is read as far as it goes**, however it is cut. -/
theorem readAll_of_flatten (h : Flows pieces) (hflat : pieces.flatten = front ++ back) :
    ∃ rest, readAll front.length pieces = some (front, rest) ∧ rest.flatten = back ∧ Flows rest := by
  generalize hwant : front.length = want
  induction want, pieces using readAll.induct generalizing front with
  | case1 pieces =>
    obtain rfl := List.length_eq_zero_iff.1 hwant
    rw [readAll, if_pos rfl]
    exact ⟨pieces, rfl, hflat, h⟩
  | case2 want pieces hne hpos ih =>
    have hle := length_read_le want pieces
    have hread := read_flatten want pieces
    rw [hflat] at hread
    -- what is taken is the front of what is wanted
    obtain ⟨more, rfl⟩ : (read want pieces).1 <+: front :=
      List.prefix_of_prefix_length_le ⟨_, hread⟩ (List.prefix_append _ _) (hwant ▸ hle)
    rw [List.append_assoc, List.append_cancel_left_eq] at hread
    rw [List.length_append] at hwant
    obtain ⟨rest, hrest, hback, hflows⟩ := ih h.read hread (by omega)
    rw [readAll, if_neg hne, if_pos hpos, hrest]
    exact ⟨rest, rfl, hback, hflows⟩
  | case3 want pieces hne hpos =>
    refine absurd (List.length_pos_of_ne_nil (read_ne_nil h hne ?_)) hpos
    rw [hflat]
    intro hnil
    rw [(List.append_eq_nil_iff.1 hnil).1] at hwant
    exact hne hwant.symm

/-- A piece is read as it came. -/
theorem readAll_piece (piece : List α) (hne : piece ≠ []) (pieces : List (List α)) :
    readAll piece.length (piece :: pieces) = some (piece, pieces) := by
  have hlen : piece.length ≠ 0 := fun h => hne (List.length_eq_zero_iff.1 h)
  have hread : read piece.length (piece :: pieces) = (piece, pieces) := by
    rw [read, List.take_length, if_pos (Nat.le_refl _)]
  rw [readAll, if_neg hlen, hread, if_pos (Nat.pos_of_ne_zero hlen), Nat.sub_self, readAll, if_pos rfl,
    Option.map_some, List.append_nil]

/-! ## Numbers of four bytes -/

/-- The value of bytes, the highest first. -/
def bigEndian (bytes : List UInt8) : ℕ := bytes.foldl (fun n c => n * 256 + c.toNat) 0

theorem bigEndian_four (a b c d : UInt8) : bigEndian [a, b, c, d] =
    a.toNat * 2 ^ 24 + b.toNat * 2 ^ 16 + c.toNat * 2 ^ 8 + d.toNat := by
  simp only [bigEndian, List.foldl_cons, List.foldl_nil]
  omega

theorem bigEndian_four_lt (a b c d : UInt8) : bigEndian [a, b, c, d] < 2 ^ 32 := by
  have ha := a.toNat_lt
  have hb := b.toNat_lt
  have hc := c.toNat_lt
  have hd := d.toNat_lt
  rw [bigEndian_four]
  omega

/-- The four bytes side by side are their value. -/
theorem or_shiftLeft_eq_bigEndian (a b c d : UInt8) :
    a.toNat <<< 24 ||| b.toNat <<< 16 ||| c.toNat <<< 8 ||| d.toNat = bigEndian [a, b, c, d] := by
  have hb := b.toNat_lt
  have hc := c.toNat_lt
  have hd := d.toNat_lt
  have hlow : c.toNat <<< 8 ||| d.toNat = c.toNat <<< 8 + d.toNat :=
    (Nat.shiftLeft_add_eq_or_of_lt hd _).symm
  have hmid : b.toNat <<< 16 ||| (c.toNat <<< 8 + d.toNat) =
      b.toNat <<< 16 + (c.toNat <<< 8 + d.toNat) := by
    refine (Nat.shiftLeft_add_eq_or_of_lt ?_ _).symm
    rw [Nat.shiftLeft_eq]
    omega
  have hhigh : a.toNat <<< 24 ||| (b.toNat <<< 16 + (c.toNat <<< 8 + d.toNat)) =
      a.toNat <<< 24 + (b.toNat <<< 16 + (c.toNat <<< 8 + d.toNat)) := by
    refine (Nat.shiftLeft_add_eq_or_of_lt ?_ _).symm
    rw [Nat.shiftLeft_eq, Nat.shiftLeft_eq]
    omega
  rw [Nat.or_assoc, Nat.or_assoc, hlow, hmid, hhigh, bigEndian_four]
  simp only [Nat.shiftLeft_eq]
  omega

/-- **A number of 32 bits is the value of its four bytes.** -/
theorem bigEndian_bytes (h : n < 2 ^ 32) :
    bigEndian [(n / 2 ^ 24).toUInt8, (n / 2 ^ 16).toUInt8, (n / 2 ^ 8).toUInt8, n.toUInt8] = n := by
  rw [bigEndian_four]
  simp only [Nat.toUInt8, UInt8.toNat_ofNat']
  omega

end ByteStream

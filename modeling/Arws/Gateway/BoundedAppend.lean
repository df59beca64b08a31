import Arws.Gateway.AdminQuery

/-!
# Appending to a reply

`append_resp` with the length of the reply as the `int` it is, next to a size that is a `size_t`.

* `foldlM_appendRespInt` — as long as an `int` is enough for the length, it is `append_resp` on numbers.
* `appendsRight_iff` — the buffer always holds as much of the pieces as its size leaves room for exactly if no
  length is left out of `int`: the size is at most 2^31, or the pieces are shorter than that together.
* `not_appendsRight` — behind 2^31 - 1 bytes there is room, and one byte more makes the length negative.
-/

set_option autoImplicit false

namespace Arws
namespace Gateway

open CString FormatBuffer

/-! ## The call -/

/-- `append_resp`, on a piece that `vsnprintf` formats; nothing if it writes in front of the buffer. -/
def appendRespInt (bufSize : ℕ) (resp : Buffer UInt8 × Int) (text : Bytes) : Option (Buffer UInt8 × Int) :=
  let (buf, curLen) := resp
  if curLen < 0 ∨ toSize ((bufSize : Int) - 1) ≤ toSize curLen then some (buf, curLen)
  else
    let rem := toSize ((bufSize : Int) - toSize curLen)
    let buf := format 0 buf (toSize curLen) rem text
    let written : Int := text.length
    if 0 < written then
      if toSize written < rem then some (buf, toInt (curLen + written))
      else
        let curLen := toInt (toInt bufSize - 1)
        if curLen < 0 then none else some (store buf curLen.toNat [0], curLen)
    else some (buf, curLen)

/-- The buffer holds a text that ends, its length is known, and nothing is written behind the buffer. -/
structure Appended (size : ℕ) (start : Buffer UInt8) (text : Bytes) (resp : Buffer UInt8 × Int) : Prop where
  holds : Holds resp.1 text
  ended : resp.1 text.length = some 0
  length : resp.2 = text.length
  outside : ∀ i, size ≤ i → resp.1 i = start i

/-- **Appends compose**: behind each of them the buffer holds what its size leaves room for of the pieces so
far. -/
def AppendsRight (size : ℕ) (pieces : List Bytes) : Prop :=
  ∀ (start : Buffer UInt8) (n : ℕ), start 0 = some 0 →
    ∃ resp, (pieces.take n).foldlM (appendRespInt size) (start, 0) = some resp ∧
      Appended size start ((pieces.take n).flatten.take (size - 1)) resp

/-! ## One append -/

variable {size curLen : ℕ} {buf : Buffer UInt8} {resp : Filled} {text : Bytes} {lines : List Bytes}

/-- The three cases of an append: the buffer is full, the piece fits, or it is cut. -/
theorem appendResp_cases (hlen : resp.2 < size) (text : Bytes) :
    (resp.2 = size - 1 ∧ appendResp size resp text = resp) ∨
      (resp.2 < size - 1 ∧ resp.2 + text.length < size ∧ appendResp size resp text =
        (format 0 resp.1 resp.2 (size - resp.2) text, resp.2 + text.length)) ∨
      (resp.2 < size - 1 ∧ size ≤ resp.2 + text.length ∧ appendResp size resp text =
        (store (format 0 resp.1 resp.2 (size - resp.2) text) (size - 1) [0], size - 1)) := by
  rw [appendResp]
  by_cases hfull : size - 1 ≤ resp.2
  · exact Or.inl ⟨by omega, if_pos hfull⟩
  · by_cases hfits : text.length < size - resp.2
    · exact Or.inr (Or.inl ⟨by omega, by omega, by rw [if_neg hfull]; exact if_pos hfits⟩)
    · exact Or.inr (Or.inr ⟨by omega, by omega, by rw [if_neg hfull]; exact if_neg hfits⟩)

theorem appendResp_lt (hlen : resp.2 < size) (text : Bytes) :
    (appendResp size resp text).2 < size ∧ (appendResp size resp text).2 ≤ resp.2 + text.length := by
  obtain ⟨-, he⟩ | ⟨-, hfits, he⟩ | ⟨hroom, hcut, he⟩ := appendResp_cases hlen text
  · rw [he]
    exact ⟨hlen, Nat.le_add_right _ _⟩
  · rw [he]
    exact ⟨hfits, le_rfl⟩
  · rw [he]
    exact ⟨by omega, by omega⟩

/-- A text that ended goes on to end. -/
theorem appendResp_ended (hlen : resp.2 < size) (hended : resp.1 resp.2 = some 0) (text : Bytes) :
    (appendResp size resp text).1 (appendResp size resp text).2 = some 0 := by
  obtain ⟨-, he⟩ | ⟨-, hfits, he⟩ | ⟨-, -, he⟩ := appendResp_cases hlen text
  · rwa [he]
  · have hend := format_end 0 resp.1 resp.2 (show size - resp.2 ≠ 0 by omega) text
    rw [List.take_of_length_le (by omega)] at hend
    rwa [he]
  · have hend : store (format 0 resp.1 resp.2 (size - resp.2) text) (size - 1) [0] (size - 1 + 0) = some 0 :=
      store_inside Nat.zero_lt_one
    rwa [he]

theorem appendResp_outside (hlen : resp.2 < size) (text : Bytes) {i : ℕ} (hi : size ≤ i) :
    (appendResp size resp text).1 i = resp.1 i := by
  have hformat : format 0 resp.1 resp.2 (size - resp.2) text i = resp.1 i :=
    format_outside (Or.inr (by omega))
  obtain ⟨-, he⟩ | ⟨-, -, he⟩ | ⟨-, -, he⟩ := appendResp_cases hlen text
  · rw [he]
  · rwa [he]
  · rw [he]
    refine (store_outside (Or.inr ?_)).trans hformat
    rw [List.length_singleton]
    omega

/-- The last place of a buffer, computed on `int`. -/
theorem toInt_last (hpos : 0 < size) (hint : size ≤ 2 ^ 31) :
    toInt (toInt size - 1) = ((size - 1 : ℕ) : Int) := by
  rcases hint.lt_or_eq with hlt | rfl
  · rw [toInt_natCast hlt, ← Nat.cast_pred hpos, toInt_natCast (by omega)]
  · decide

/-- **One append on an `int`**, as long as the length is one. -/
theorem appendRespInt_eq (hsize : size < 2 ^ 64) (hlen : resp.2 < size) (htext : text.length < 2 ^ 31)
    (hint : size ≤ 2 ^ 31 ∨ resp.2 + text.length < 2 ^ 31) :
    appendRespInt size (resp.1, resp.2) text =
      some ((appendResp size resp text).1, ((appendResp size resp text).2 : Int)) := by
  have hone : toSize ((size : Int) - 1) = size - 1 := by
    exact_mod_cast toSize_sub hsize (Nat.one_le_of_lt hlen)
  have hcur : toSize (resp.2 : Int) = resp.2 := toSize_natCast (by omega)
  have hwritten : toSize (text.length : Int) = text.length := toSize_natCast (by omega)
  have hrem : toSize ((size : Int) - resp.2) = size - resp.2 := toSize_sub hsize hlen.le
  rw [appendRespInt]
  simp only [hone, hcur, hrem, hwritten]
  obtain ⟨hfull, he⟩ | ⟨hroom, hfits, he⟩ | ⟨hroom, hcut, he⟩ := appendResp_cases hlen text
  · rw [he, if_pos (Or.inr hfull.ge)]
  · rw [he, if_neg (by omega)]
    cases text with
    | nil => rfl
    | cons c text =>
      have hpos : (0 : Int) < ((c :: text).length : ℕ) := Int.natCast_pos.2 (Nat.succ_pos _)
      have hnext : toInt (resp.2 + (c :: text).length) = ((resp.2 + (c :: text).length : ℕ) : Int) := by
        rw [← Nat.cast_add]
        exact toInt_natCast (by omega)
      rw [if_pos hpos, if_pos (by omega), hnext]
  · rw [he, if_neg (by omega), if_pos (by omega), if_neg (by omega),
      toInt_last (Nat.zero_lt_of_lt hlen) (by omega), if_neg (by omega), Int.toNat_natCast]

/-- The length behind an append is an `int`. -/
theorem appendRespInt_lt {before behind : Buffer UInt8 × Int}
    (h : appendRespInt size before text = some behind) (hbefore : before.2 < 2 ^ 31) : behind.2 < 2 ^ 31 := by
  have htoInt : ∀ x : Int, toInt x < 2 ^ 31 := fun x => by
    rw [toInt]
    omega
  simp only [appendRespInt] at h
  split_ifs at h
  · exact Option.some.inj h ▸ hbefore
  · exact Option.some.inj h ▸ htoInt _
  · exact Option.some.inj h ▸ htoInt _
  · exact Option.some.inj h ▸ hbefore

/-! ## All of them -/

/-- **Appends on an `int`** are those on numbers, as long as an `int` is enough for the length. -/
theorem foldlM_appendRespInt (resp : Filled) (hsize : size < 2 ^ 64) (hlen : resp.2 < size)
    (hlines : ∀ line ∈ lines, line.length < 2 ^ 31)
    (hint : size ≤ 2 ^ 31 ∨ resp.2 + lines.flatten.length < 2 ^ 31) :
    lines.foldlM (appendRespInt size) (resp.1, (resp.2 : Int)) =
      some ((lines.foldl (appendResp size) resp).1, ((lines.foldl (appendResp size) resp).2 : Int)) := by
  induction lines generalizing resp with
  | nil => rfl
  | cons line lines ih =>
    obtain ⟨hline, hlines⟩ := List.forall_mem_cons.1 hlines
    rw [List.flatten_cons, List.length_append] at hint
    obtain ⟨hlt, hle⟩ := appendResp_lt hlen line
    have hone := appendRespInt_eq hsize hlen hline (hint.imp_right fun h => by omega)
    have hrest := ih _ hlt hlines (hint.imp_right fun h => by omega)
    rw [List.foldlM_cons, hone]
    exact hrest

theorem foldlM_appendRespInt_lt {before behind : Buffer UInt8 × Int}
    (h : lines.foldlM (appendRespInt size) before = some behind) (hbefore : before.2 < 2 ^ 31) :
    behind.2 < 2 ^ 31 := by
  induction lines generalizing before with
  | nil => exact Option.some.inj h ▸ hbefore
  | cons line lines ih =>
    rw [List.foldlM_cons] at h
    obtain ⟨next, hnext, h⟩ := Option.bind_eq_some_iff.1 h
    exact ih h (appendRespInt_lt hnext hbefore)

/-- A text that ended goes on to end, and nothing is written behind the buffer. -/
theorem foldl_appendResp_spec (resp : Filled) (hlen : resp.2 < size) (hended : resp.1 resp.2 = some 0)
    (lines : List Bytes) :
    (lines.foldl (appendResp size) resp).1 (lines.foldl (appendResp size) resp).2 = some 0 ∧
      ∀ i, size ≤ i → (lines.foldl (appendResp size) resp).1 i = resp.1 i := by
  induction lines generalizing resp with
  | nil => exact ⟨hended, fun _ _ => rfl⟩
  | cons line lines ih =>
    obtain ⟨hend, houtside⟩ := ih _ (appendResp_lt hlen line).1 (appendResp_ended hlen hended line)
    exact ⟨hend, fun i hi => (houtside i hi).trans (appendResp_outside hlen line hi)⟩

/-- **What a reply holds** behind appends to an empty text, as long as an `int` is enough for its length. -/
theorem appended_of_int {start : Buffer UInt8} (hpos : 1 ≤ size) (hsize : size < 2 ^ 64)
    (hlines : ∀ line ∈ lines, line.length < 2 ^ 31)
    (hint : size ≤ 2 ^ 31 ∨ lines.flatten.length < 2 ^ 31) (hstart : start 0 = some 0) :
    ∃ resp, lines.foldlM (appendRespInt size) (start, 0) = some resp ∧
      Appended size start (lines.flatten.take (size - 1)) resp := by
  have hrun : lines.foldlM (appendRespInt size) (start, ((0 : ℕ) : Int)) = _ :=
    foldlM_appendRespInt (start, 0) hsize hpos hlines (by rwa [Nat.zero_add])
  obtain ⟨buf, hfold, hholds⟩ := holds_appendAll (holds_nil start) hpos lines
  rw [List.nil_append] at hfold hholds
  obtain ⟨hend, houtside⟩ := foldl_appendResp_spec (start, 0) hpos hstart lines
  have hfold' : lines.foldl (appendResp size) (start, 0) =
      (buf, (lines.flatten.take (size - 1)).length) := hfold
  rw [hfold'] at hrun hend houtside
  exact ⟨_, hrun, hholds, hend, rfl, houtside⟩

/-- A text that is longer than any `int` has no length. -/
theorem not_appendsRight_of_le {pieces : List Bytes} (hsize : 2 ^ 31 < size)
    (hlong : 2 ^ 31 ≤ pieces.flatten.length) : ¬ AppendsRight size pieces := by
  intro h
  obtain ⟨resp, hrun, happended⟩ := h (fun _ => some 0) pieces.length rfl
  have hsmall : resp.2 < 2 ^ 31 := foldlM_appendRespInt_lt hrun (by decide)
  rw [List.take_length] at happended
  have hlength := happended.length
  rw [List.length_take] at hlength
  omega

/-- **Bounded appends compose** exactly if an `int` is enough for the length of the reply. -/
theorem appendsRight_iff (hpos : 1 ≤ size) (hsize : size < 2 ^ 64) {pieces : List Bytes}
    (hpieces : ∀ piece ∈ pieces, piece.length < 2 ^ 31) :
    AppendsRight size pieces ↔ size ≤ 2 ^ 31 ∨ pieces.flatten.length < 2 ^ 31 := by
  constructor
  · intro h
    by_contra hlong
    rw [not_or, Nat.not_le, Nat.not_lt] at hlong
    exact not_appendsRight_of_le hlong.1 hlong.2 h
  · intro hint start n hstart
    have htaken : (pieces.take n).flatten.length ≤ pieces.flatten.length := by
      rw [← List.take_append_drop n pieces, List.flatten_append, List.length_append, List.take_append_drop]
      exact Nat.le_add_right _ _
    exact appended_of_int hpos hsize (fun piece hp => hpieces piece (List.mem_of_mem_take hp))
      (hint.imp_right fun hshort => Nat.lt_of_le_of_lt htaken hshort) hstart

/-- Appends to a buffer of 8 bytes, the second of which is cut. -/
theorem appendsRight_eight : AppendsRight 8 [ascii "mode", ascii "=test", ascii "!"] :=
  (appendsRight_iff (by decide) (by decide) (by decide)).2 (Or.inl (by decide))

/-- Behind 2^31 - 1 bytes there is room for another one. -/
theorem not_appendsRight : ¬ AppendsRight (2 ^ 31 + 1) [List.replicate (2 ^ 31 - 1) 97, [97]] := by
  refine not_appendsRight_of_le (by omega) ?_
  rw [List.flatten_cons, List.flatten_singleton, List.length_append, List.length_replicate,
    List.length_singleton]
  omega

end Gateway
end Arws

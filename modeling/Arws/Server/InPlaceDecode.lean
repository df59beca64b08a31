import Arws.Library.Transition
import Arws.Server.NestedTargets
import Arws.Server.QueryPairs

/-!
# Decoding in place

`url_decode` with its two pointers as places in one memory, as `handle_client` calls it: the text is written
over the text that is read.

* `urlDecodeAt_eq` — the memory behind it, as long as nothing is written where it is still to be read.
* `inPlace_decode` — decoding in place is decoding into another buffer, and what is escaped comes back.
-/

set_option autoImplicit false

namespace Arws
namespace Server

open CString

/-! ## The loop -/

structure DecodeState where
  mem : Bytes
  dst : ℕ
  src : ℕ

/-- The value of a `char`. -/
def signedChar (c : UInt8) : Int := if c < 128 then c.toNat else (c.toNat : Int) - 256

/-- The value of a hexadecimal digit, computed on `char`. -/
def nibble (c : Int) : Int :=
  let c := if 97 ≤ c then c - 32 else c
  if 65 ≤ c then c - 65 + 10 else c - 48

/-- The byte that is written for an escape. -/
def escapedByte (a b : UInt8) : UInt8 :=
  let val := UInt8.ofNat ((nibble (signedChar a)).toNat <<< 4 ||| (nibble (signedChar b)).toNat)
  if val = 0 then 1 else val

/-- A byte of the memory. -/
def DecodeState.at (s : DecodeState) (i : ℕ) : UInt8 := s.mem[i]?.getD 0

/-- `*dst++ = c`, and `src` goes on. -/
def DecodeState.put (s : DecodeState) (c : UInt8) (n : ℕ) : DecodeState :=
  ⟨s.mem.set s.dst c, s.dst + 1, s.src + n⟩

/-- A turn of the loop of `url_decode`; nothing at the end of the string. -/
def decodeTurn (s : DecodeState) : Option DecodeState :=
  if s.at s.src = 0 then none
  else if s.at s.src = 37 ∧ (s.at (s.src + 1) ≠ 0 ∧ s.at (s.src + 2) ≠ 0) ∧
      isXDigit (s.at (s.src + 1)) = true ∧ isXDigit (s.at (s.src + 2)) = true then
    some (s.put (escapedByte (s.at (s.src + 1)) (s.at (s.src + 2))) 3)
  else if s.at s.src = 43 then some (s.put 32 1)
  else some (s.put (s.at s.src) 1)

theorem decodeTurn_lt {s t : DecodeState} (h : decodeTurn s = some t) :
    t.mem.length - t.src < s.mem.length - s.src := by
  have hlt : s.at s.src ≠ 0 := fun hz => by
    rw [decodeTurn, if_pos hz] at h
    cases h
  have hin : s.src < s.mem.length := by
    by_contra hout
    rw [DecodeState.at, List.getElem?_eq_none (Nat.le_of_not_lt hout)] at hlt
    exact hlt rfl
  rw [decodeTurn, if_neg hlt] at h
  split_ifs at h <;>
  · obtain rfl := Option.some.inj h
    simp only [DecodeState.put, List.length_set]
    omega

/-- `url_decode`, from a state of its loop on: the memory behind it. -/
def urlDecodeAt (s : DecodeState) : Bytes :=
  match _h : decodeTurn s with
  | none => s.mem.set s.dst 0
  | some t => urlDecodeAt t
termination_by s.mem.length - s.src
decreasing_by exact decodeTurn_lt _h

/-- The turns of a call. -/
def decoder (start : DecodeState) : Machine DecodeState Unit where
  init s := s = start
  step s _ := decodeTurn s

/-! ## Strings in memory -/

/-- The string stands in the memory from a place on. -/
structure StandsAt (mem : Bytes) (p : ℕ) (s : Bytes) : Prop where
  zero : (0 : UInt8) ∉ s
  terminated : ∃ post, mem.drop p = s ++ 0 :: post

/-- A buffer that is apart from the string, with room for it. -/
structure BufferApart (mem : Bytes) (q p : ℕ) (s : Bytes) : Prop where
  apart : q + s.length < p ∨ p + s.length < q
  room : q + s.length < mem.length

/-- What is decoded from one place into another one. -/
def decodedAt (mem : Bytes) (dst src : ℕ) : Bytes := cstr ((urlDecodeAt ⟨mem, dst, src⟩).drop dst)

/-! ## A turn -/

theorem nibble_eq : ∀ c : UInt8, isXDigit c = true →
    nibble (signedChar c) = (xDigitValue c).toNat ∧ xDigitValue c < 16 :=
  forall_byte (by decide +kernel)

/-- The arithmetic on `char` is that of the digits. -/
theorem escapedByte_eq {a b : UInt8} (ha : isXDigit a = true) (hb : isXDigit b = true) :
    escapedByte a b = decodedByte a b := by
  have hval : UInt8.ofNat ((xDigitValue a).toNat <<< 4 ||| (xDigitValue b).toNat) =
      xDigitValue a <<< 4 ||| xDigitValue b := by
    have hlow := UInt8.lt_iff_toNat_lt.1 (nibble_eq b hb).2
    apply UInt8.toNat_inj.1
    rw [UInt8.toNat_ofNat', UInt8.toNat_or, UInt8.toNat_shiftLeft, Nat.or_mod_two_pow,
      Nat.mod_eq_of_lt (a := (xDigitValue b).toNat) (UInt8.toNat_lt _)]
    rfl
  simp only [escapedByte, decodedByte, (nibble_eq a ha).1, (nibble_eq b hb).1, Int.toNat_natCast, hval,
    beq_iff_eq]

section Turn

variable {st : DecodeState} {s post : Bytes} {c a b : UInt8}

theorem at_of_drop {rest : Bytes} (h : st.mem.drop st.src = rest) (k : ℕ) :
    st.at (st.src + k) = rest[k]?.getD 0 := by
  rw [DecodeState.at, ← h, List.getElem?_drop]

/-- **What a turn does**, by the string that is still to be read. -/
theorem decodeTurn_cases (h : st.mem.drop st.src = c :: s ++ 0 :: post) (hs : (0 : UInt8) ∉ c :: s) :
    (∃ a b t, c :: s = 37 :: a :: b :: t ∧ isXDigit a = true ∧ isXDigit b = true ∧
        decodeTurn st = some (st.put (decodedByte a b) 3)) ∨
      (decodeTurn st = some (st.put (plusDecoded c) 1) ∧
        urlDecode (c :: s) = plusDecoded c :: urlDecode s) := by
  have hc : c ≠ 0 := fun hz => hs (hz ▸ List.mem_cons_self)
  have h0 : st.at st.src = c := at_of_drop h 0
  have h1 : st.at (st.src + 1) = (s ++ 0 :: post)[0]?.getD 0 := at_of_drop h 1
  have h2 : st.at (st.src + 2) = (s ++ 0 :: post)[1]?.getD 0 := at_of_drop h 2
  have hplain : ∀ hno : ¬ (c = 37 ∧ (st.at (st.src + 1) ≠ 0 ∧ st.at (st.src + 2) ≠ 0) ∧
      isXDigit (st.at (st.src + 1)) = true ∧ isXDigit (st.at (st.src + 2)) = true),
      decodeTurn st = some (st.put (plusDecoded c) 1) := by
    intro hno
    rw [decodeTurn, h0, if_neg hc, if_neg hno, plusDecoded]
    by_cases hplus : c = 43
    · rw [if_pos hplus, if_pos (beq_iff_eq.2 hplus)]
    · rw [if_neg hplus, if_neg fun hh => hplus (beq_iff_eq.1 hh)]
  obtain _ | ⟨a, _ | ⟨b, t⟩⟩ := s
  · exact Or.inr ⟨hplain fun hh => hh.2.1.1 h1, rfl⟩
  · exact Or.inr ⟨hplain fun hh => hh.2.1.2 h2, rfl⟩
  · replace h1 : st.at (st.src + 1) = a := h1
    replace h2 : st.at (st.src + 2) = b := h2
    have ha : a ≠ 0 := fun hz => hs (hz ▸ List.mem_cons_of_mem _ List.mem_cons_self)
    have hb : b ≠ 0 := fun hz =>
      hs (hz ▸ List.mem_cons_of_mem _ (List.mem_cons_of_mem _ List.mem_cons_self))
    by_cases hesc : c = 37 ∧ isXDigit a = true ∧ isXDigit b = true
    · obtain ⟨rfl, hxa, hxb⟩ := hesc
      refine Or.inl ⟨a, b, t, rfl, hxa, hxb, ?_⟩
      rw [decodeTurn, h0, h1, h2, if_neg hc, if_pos ⟨rfl, ⟨ha, hb⟩, hxa, hxb⟩, escapedByte_eq hxa hxb]
    · refine Or.inr ⟨hplain fun hh => hesc ⟨hh.1, h1 ▸ hh.2.2.1, h2 ▸ hh.2.2.2⟩, ?_⟩
      rw [urlDecode, if_neg]
      · rfl
      · simpa only [Bool.and_eq_true, beq_iff_eq, and_assoc] using hesc

/-- The string ends. -/
theorem decodeTurn_end (h : st.mem.drop st.src = 0 :: post) : decodeTurn st = none :=
  if_pos (at_of_drop h 0)

end Turn

/-! ## The whole loop -/

/-- Nothing is written where the string is still to be read. -/
def WritesApart (st : DecodeState) (s : Bytes) : Prop :=
  (st.dst ≤ st.src ∨ st.src + s.length < st.dst) ∧ st.dst + s.length < st.mem.length

variable {st : DecodeState}

/-- What was read may be written over. -/
theorem drop_put (read rest : Bytes) {post : Bytes} (hne : read ≠ [])
    (h : st.mem.drop st.src = read ++ rest ++ 0 :: post) (hapart : WritesApart st (read ++ rest))
    (v : UInt8) :
    (∃ post', (st.put v read.length).mem.drop (st.put v read.length).src = rest ++ 0 :: post') ∧
      WritesApart (st.put v read.length) rest := by
  have hpos := List.length_pos_iff.2 hne
  obtain ⟨hplace, hroom⟩ := hapart
  rw [List.length_append] at hplace hroom
  have hdrop : st.mem.drop (st.src + read.length) = rest ++ 0 :: post := by
    rw [← List.drop_drop, h, List.append_assoc, List.drop_left]
  refine ⟨?_, ?_, ?_⟩
  · simp only [DecodeState.put]
    rcases hplace with hbelow | habove
    · exact ⟨post, by rw [List.drop_set_of_lt (by omega), hdrop]⟩
    · obtain ⟨k, hk⟩ : ∃ k, st.dst - (st.src + read.length) = rest.length + (k + 1) :=
        ⟨st.dst - (st.src + read.length) - rest.length - 1, by omega⟩
      refine ⟨post.set k v, ?_⟩
      rw [List.drop_set, if_neg (by omega), hdrop, hk, List.set_append_right _ _ (Nat.le_add_right _ _),
        Nat.add_sub_cancel_left, List.set_cons_succ]
  · simp only [DecodeState.put]
    omega
  · simp only [DecodeState.put, List.length_set]
    omega

theorem urlDecodeAt_none (h : decodeTurn st = none) : urlDecodeAt st = st.mem.set st.dst 0 := by
  rw [urlDecodeAt]
  split
  · rfl
  · rename_i t ht
    rw [h] at ht
    cases ht

theorem urlDecodeAt_some {t : DecodeState} (h : decodeTurn st = some t) :
    urlDecodeAt st = urlDecodeAt t := by
  rw [urlDecodeAt]
  split
  · rename_i hnone
    rw [h] at hnone
    cases hnone
  · rename_i u hu
    rw [h] at hu
    rw [Option.some.inj hu]

/-- The text is written from its place on. -/
theorem written_put (hdst : st.dst < st.mem.length) (v : UInt8) (n : ℕ) (text : Bytes) :
    (st.put v n).mem.take (st.put v n).dst ++
        (text ++ 0 :: (st.put v n).mem.drop ((st.put v n).dst + text.length + 1)) =
      st.mem.take st.dst ++ (v :: text ++ 0 :: st.mem.drop (st.dst + (v :: text).length + 1)) := by
  have htake : (st.mem.set st.dst v).take (st.dst + 1) = st.mem.take st.dst ++ [v] := by
    rw [List.take_add_one, List.take_set_of_le (Nat.le_refl _), List.getElem?_set_self hdst,
      Option.toList_some]
  simp only [DecodeState.put]
  rw [List.drop_set_of_lt (by omega), htake, List.append_assoc, List.singleton_append, List.length_cons,
    List.cons_append, Nat.add_right_comm st.dst 1, ← Nat.add_assoc st.dst text.length 1]

/-- **The memory behind the call**: the decoded text stands where it was to be written, and the rest is as it
was. -/
theorem urlDecodeAt_eq {s post : Bytes} (hs : (0 : UInt8) ∉ s) (h : st.mem.drop st.src = s ++ 0 :: post)
    (hapart : WritesApart st s) : urlDecodeAt st =
      st.mem.take st.dst ++ (urlDecode s ++ 0 :: st.mem.drop (st.dst + (urlDecode s).length + 1)) := by
  induction hlen : s.length using Nat.strong_induction_on generalizing s post st with
  | _ n ih =>
    subst hlen
    have hdst : st.dst < st.mem.length := Nat.lt_of_le_of_lt (Nat.le_add_right _ _) hapart.2
    cases s with
    | nil =>
      rw [urlDecodeAt_none (decodeTurn_end h), List.set_eq_take_append_cons_drop, if_pos hdst]
      rfl
    | cons c s =>
      obtain ⟨a, b, t, ht, ha, hb, hturn⟩ | ⟨hturn, hdecode⟩ := decodeTurn_cases h hs
      · obtain ⟨rfl, rfl⟩ := List.cons.inj ht
        obtain ⟨⟨post', hpost⟩, hapart'⟩ :=
          drop_put [37, a, b] t (List.cons_ne_nil _ _) h hapart (decodedByte a b)
        have hzero : (0 : UInt8) ∉ t := fun hz =>
          hs (List.mem_cons_of_mem _ (List.mem_cons_of_mem _ (List.mem_cons_of_mem _ hz)))
        have hrest := ih t.length (by simp only [List.length_cons]; omega) hzero hpost hapart' rfl
        rw [urlDecodeAt_some hturn, urlDecode_escape ha hb]
        exact hrest.trans (written_put hdst _ _ _)
      · obtain ⟨⟨post', hpost⟩, hapart'⟩ :=
          drop_put [c] s (List.cons_ne_nil _ _) h hapart (plusDecoded c)
        have hzero : (0 : UInt8) ∉ s := fun hz => hs (List.mem_cons_of_mem _ hz)
        have hrest := ih s.length (Nat.lt_succ_self _) hzero hpost hapart' rfl
        rw [urlDecodeAt_some hturn, hdecode]
        exact hrest.trans (written_put hdst _ _ _)

/-! ## Decoding in place -/

theorem zero_notMem_urlDecode {s : Bytes} (hs : (0 : UInt8) ∉ s) : (0 : UInt8) ∉ urlDecode s := by
  have hplus : ∀ c : UInt8, c ≠ 0 → (0 : UInt8) ≠ if c == 43 then 32 else c := by
    intro c hc
    split_ifs
    · decide
    · exact hc.symm
  fun_induction urlDecode s with
  | case1 => exact hs
  | case2 c =>
    obtain ⟨hc, -⟩ := List.ne_and_not_mem_of_not_mem_cons hs
    exact List.not_mem_cons_of_ne_of_not_mem (hplus c hc.symm) List.not_mem_nil
  | case3 c d ih =>
    obtain ⟨hc, hrest⟩ := List.ne_and_not_mem_of_not_mem_cons hs
    exact List.not_mem_cons_of_ne_of_not_mem (hplus c hc.symm) (ih hrest)
  | case4 c a b s _ ih =>
    obtain ⟨-, hrest⟩ := List.ne_and_not_mem_of_not_mem_cons hs
    obtain ⟨-, hrest⟩ := List.ne_and_not_mem_of_not_mem_cons hrest
    obtain ⟨-, hrest⟩ := List.ne_and_not_mem_of_not_mem_cons hrest
    refine List.not_mem_cons_of_ne_of_not_mem (fun hz => ?_) (ih hrest)
    rw [decodedByte] at hz
    split_ifs at hz with hval
    · exact absurd hz (by decide)
    · exact hval (beq_iff_eq.2 hz.symm)
  | case5 c a b s _ ih =>
    obtain ⟨hc, hrest⟩ := List.ne_and_not_mem_of_not_mem_cons hs
    exact List.not_mem_cons_of_ne_of_not_mem (hplus c hc.symm) (ih hrest)

/-- What is found where the text was written. -/
theorem decodedAt_eq {mem s : Bytes} {dst src : ℕ} (h : StandsAt mem src s)
    (hapart : WritesApart ⟨mem, dst, src⟩ s) : decodedAt mem dst src = urlDecode s := by
  obtain ⟨post, hpost⟩ := h.terminated
  have hdst : dst ≤ mem.length := Nat.le_of_lt (Nat.lt_of_le_of_lt (Nat.le_add_right _ _) hapart.2)
  rw [decodedAt, urlDecodeAt_eq h.zero hpost hapart,
    List.drop_left' (List.length_take_of_le hdst), cstr_append_zero (zero_notMem_urlDecode h.zero)]

theorem StandsAt.inPlace {mem s : Bytes} {p : ℕ} (h : StandsAt mem p s) :
    WritesApart ⟨mem, p, p⟩ s := by
  obtain ⟨post, hpost⟩ := h.terminated
  have hlen := congrArg List.length hpost
  rw [List.length_drop, List.length_append, List.length_cons] at hlen
  exact ⟨Or.inl (Nat.le_refl p), show p + s.length < mem.length by omega⟩

theorem BufferApart.writesApart {mem s : Bytes} {q p : ℕ} (h : BufferApart mem q p s) :
    WritesApart ⟨mem, q, p⟩ s :=
  ⟨h.apart.imp (fun hlt => by simp only; omega) id, h.room⟩

/-- **What is written stays behind what is read**. -/
theorem dst_le_src {start : DecodeState} (hstart : start.dst ≤ start.src) :
    ∀ st, (decoder start).Reach st → st.dst ≤ st.src := by
  intro st h
  refine h.invariant (fun s hs => hs ▸ hstart) fun s _ t hle _ hstep => ?_
  simp only [decoder, decodeTurn] at hstep
  split_ifs at hstep <;>
  · obtain rfl := Option.some.inj hstep
    simp only [DecodeState.put]
    omega

/-! ## Escaped texts -/

/-- A byte as an escape, with the cases of its digits. -/
def escapeOf (c : UInt8) (high low : Bool) : Bytes :=
  [37, hexDigitOf high (c >>> 4), hexDigitOf low (c &&& 15)]

/-- Every byte of a text escaped. -/
def escapedText (t : List (UInt8 × Bool × Bool)) : Bytes := t.flatMap fun e => escapeOf e.1 e.2.1 e.2.2

theorem urlDecode_escapedText {t : List (UInt8 × Bool × Bool)} (ht : ∀ e ∈ t, e.1 ≠ 0) :
    urlDecode (escapedText t) = t.map (·.1) := by
  induction t with
  | nil => rfl
  | cons e t ih =>
    obtain ⟨he, hall⟩ := List.forall_mem_cons.1 ht
    obtain ⟨hhigh, hlow, hbyte⟩ := decodedByte_hexDigitOf e.2.1 e.2.2 he
    have hsplit : escapedText (e :: t) = 37 :: hexDigitOf e.2.1 (e.1 >>> 4) ::
        hexDigitOf e.2.2 (e.1 &&& 15) :: escapedText t := rfl
    rw [hsplit, urlDecode_escape hhigh hlow, hbyte, ih hall, List.map_cons]

/-- An escaped zero byte, wherever it stands. -/
theorem urlDecode_zero (a b : Bytes) :
    urlDecode (a ++ 37 :: 48 :: 48 :: b) = urlDecode a ++ 1 :: urlDecode b := by
  have hhead : ∀ x ∈ ((37 : UInt8) :: 48 :: 48 :: b.map plusDecoded).head?,
      percentScheme.isDigit x = false := by
    rintro x ⟨⟩
    exact percentScheme.mark_not_digit
  simp only [urlDecode_eq, percentDecode, List.map_append, List.map_cons]
  refine (percentScheme.decode_append hhead _).trans ?_
  exact congrArg _ (percentScheme.decode_escape rfl rfl _)

/-- **Decoding in place is right**: it is decoding into another buffer, nothing is written in front of what is
read, the result is no longer, and what is escaped comes back. -/
theorem inPlace_decode :
    (∀ (s mem : Bytes) (p : ℕ), StandsAt mem p s →
      (∀ (mem' : Bytes) (q r : ℕ), StandsAt mem' r s → BufferApart mem' q r s →
        decodedAt mem p p = decodedAt mem' q r) ∧
      (∀ st, (decoder ⟨mem, p, p⟩).Reach st → st.dst ≤ st.src) ∧
      (decodedAt mem p p).length ≤ s.length) ∧
    (∀ (t : List (UInt8 × Bool × Bool)) (mem : Bytes) (p : ℕ), (∀ e ∈ t, e.1 ≠ 0) →
      StandsAt mem p (escapedText t) → decodedAt mem p p = t.map (·.1)) ∧
    ∀ (a b mem : Bytes) (p : ℕ), StandsAt mem p (a ++ 37 :: 48 :: 48 :: b) →
      decodedAt mem p p = urlDecode a ++ 1 :: urlDecode b := by
  have heq : ∀ (s mem : Bytes) (p : ℕ), StandsAt mem p s → decodedAt mem p p = urlDecode s :=
    fun s mem p h => decodedAt_eq h h.inPlace
  refine ⟨fun s mem p h => ⟨?_, ?_, ?_⟩, ?_, ?_⟩
  · intro mem' q r h' hapart
    rw [heq s mem p h, decodedAt_eq h' hapart.writesApart]
  · exact dst_le_src (Nat.le_refl p)
  · rw [heq s mem p h]
    exact length_urlDecode_le s
  · intro t mem p ht h
    rw [heq _ mem p h, urlDecode_escapedText ht]
  · intro a b mem p h
    rw [heq _ mem p h, urlDecode_zero]

/-- An escaped letter, a plus, an escaped zero byte and an escape that is cut. -/
private def someEscapes : Bytes := ascii "%41+%00b%7"

private theorem standsAt_someEscapes : StandsAt (ascii "id=" ++ someEscapes ++ [0]) 3 someEscapes :=
  ⟨by decide +kernel, [], by decide +kernel⟩

/-- It is the same in its own place and in a buffer in front of it. -/
theorem inPlace_decode_escaped :
    decodedAt (ascii "id=" ++ someEscapes ++ [0]) 3 3 =
      decodedAt (List.replicate 11 0 ++ someEscapes ++ [0]) 0 11 ∧
    (decodedAt (ascii "id=" ++ someEscapes ++ [0]) 3 3).length ≤ 10 ∧
    decodedAt (ascii "id=" ++ someEscapes ++ [0]) 3 3 = ascii "A " ++ 1 :: ascii "b%7" := by
  obtain ⟨hplace, -, hzero⟩ := inPlace_decode
  obtain ⟨hsame, -, hlength⟩ := hplace _ _ _ standsAt_someEscapes
  refine ⟨hsame _ _ _ ⟨by decide +kernel, [], by decide +kernel⟩ ⟨by decide +kernel, by decide +kernel⟩,
    hlength, ?_⟩
  refine (hzero (ascii "%41+") (ascii "b%7") _ 3 standsAt_someEscapes).trans ?_
  decide +kernel

end Server
end Arws

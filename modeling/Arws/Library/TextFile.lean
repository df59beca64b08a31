import Mathlib.Data.List.DropRight
import Mathlib.Data.List.Infix

/-!
# Text files read line by line

A file is read in pieces, as `fgets` does with a buffer: a piece ends behind a line end, or where
the buffer is full.  A line that fits is one piece (`piecesFrom_line`), and a line that does not fit is
cut without the lines around it being touched (`pieces_unlines_append`).

A file is written piece by piece, and what arrives of a piece may be less than the piece:
`arrived_eq_flatten_iff` says that the text is there only if all of each piece is.
-/

set_option autoImplicit false

namespace TextFile

variable {α : Type*}

/-- An element at the head of the first piece. -/
def consHead (c : α) : List (List α) → List (List α)
  | [] => [[c]]
  | piece :: rest => (c :: piece) :: rest

theorem consHead_ne_nil (c : α) (l : List (List α)) : consHead c l ≠ [] := by
  cases l <;> simp [consHead]

theorem consHead_append (c : α) {a : List (List α)} (h : a ≠ []) (b : List (List α)) :
    consHead c (a ++ b) = consHead c a ++ b := by
  cases a with
  | nil => exact absurd rfl h
  | cons piece a => rfl

variable [DecidableEq α]

/-- The pieces of a text, where `room` is what the buffer still takes behind the element that comes
next, and `size` what an empty buffer takes behind its first element. -/
def piecesFrom (eol : α) (size : Nat) : Nat → List α → List (List α)
  | _, [] => []
  | room, c :: s =>
    if c = eol ∨ room = 0 then [c] :: piecesFrom eol size size s
    else consHead c (piecesFrom eol size (room - 1) s)

/-- The pieces of a text that is read with room for `size + 1` elements. -/
def pieces (eol : α) (size : Nat) (s : List α) : List (List α) := piecesFrom eol size size s

/-- The text that is written for a list of lines. -/
def unlines (eol : α) (lines : List (List α)) : List α := lines.flatMap (· ++ [eol])

variable {eol : α} {size : Nat}

theorem piecesFrom_ne_nil {room : Nat} {s : List α} (h : s ≠ []) :
    piecesFrom eol size room s ≠ [] := by
  cases s with
  | nil => exact absurd rfl h
  | cons c s =>
    rw [piecesFrom]
    split
    · exact List.cons_ne_nil _ _
    · exact consHead_ne_nil _ _

/-- **Reading begins anew behind a line end.** -/
theorem piecesFrom_append (room : Nat) (a b : List α) :
    piecesFrom eol size room (a ++ eol :: b) =
      piecesFrom eol size room (a ++ [eol]) ++ pieces eol size b := by
  induction a generalizing room with
  | nil => simp [piecesFrom, pieces]
  | cons c a ih =>
    rw [List.cons_append, List.cons_append, piecesFrom, piecesFrom]
    split
    · rw [ih, List.cons_append]
    · rw [ih, consHead_append c (piecesFrom_ne_nil (by simp))]

theorem pieces_append (a b : List α) :
    pieces eol size (a ++ eol :: b) = pieces eol size (a ++ [eol]) ++ pieces eol size b :=
  piecesFrom_append size a b

/-- A line that fits is one piece. -/
theorem piecesFrom_line {room : Nat} {line : List α} (hnone : eol ∉ line)
    (hfits : line.length ≤ room) :
    piecesFrom eol size room (line ++ [eol]) = [line ++ [eol]] := by
  induction line generalizing room with
  | nil => simp [piecesFrom]
  | cons c line ih =>
    rw [List.mem_cons, not_or] at hnone
    rw [List.length_cons] at hfits
    rw [List.cons_append, piecesFrom, if_neg, ih hnone.2 (by omega)]
    · rfl
    · rintro (h | h)
      · exact hnone.1 h.symm
      · omega

/-- **Lines are read apart from the lines before them.** -/
theorem pieces_unlines_append (a b : List (List α)) :
    pieces eol size (unlines eol (a ++ b)) =
      pieces eol size (unlines eol a) ++ pieces eol size (unlines eol b) := by
  induction a using List.reverseRecOn generalizing b with
  | nil => rfl
  | append_singleton a line ih =>
    have hsplit : unlines eol (line :: b) = line ++ eol :: unlines eol b := by simp [unlines]
    have hlast : unlines eol [line] = line ++ [eol] := by simp [unlines]
    rw [List.append_assoc, List.singleton_append, ih, hsplit, pieces_append, ih [line], hlast,
      List.append_assoc]

/-- A line is cut into pieces of the size of the buffer. -/
theorem piecesFrom_oneLine {room : Nat} {s : List α} (hne : s ≠ []) (h : eol ∉ s.dropLast) :
    piecesFrom eol size room s = s.take (room + 1) :: pieces eol size (s.drop (room + 1)) := by
  induction s generalizing room with
  | nil => exact absurd rfl hne
  | cons c s ih =>
    cases s with
    | nil => by_cases hc : c = eol ∨ room = 0 <;> simp [piecesFrom, pieces, hc, consHead]
    | cons d s =>
      rw [List.dropLast_cons_cons, List.mem_cons, not_or] at h
      cases room with
      | zero => simp [piecesFrom, pieces]
      | succ room =>
        rw [piecesFrom, if_neg, Nat.add_sub_cancel, ih (List.cons_ne_nil d s) h.2]
        · rfl
        · rintro (hc | hc)
          · exact h.1 hc.symm
          · cases hc

theorem pieces_line {line : List α} (h : eol ∉ line) :
    pieces eol size (line ++ [eol]) =
      (line ++ [eol]).take (size + 1) :: pieces eol size ((line ++ [eol]).drop (size + 1)) :=
  piecesFrom_oneLine (by simp) (by simpa using h)

/-- A piece is a part of the text. -/
theorem infix_of_mem_piecesFrom {room : Nat} {s piece : List α}
    (h : piece ∈ piecesFrom eol size room s) : piece <:+: s := by
  suffices hhead : (∀ piece ∈ piecesFrom eol size room s, piece <:+: s) ∧
      ∀ piece, (piecesFrom eol size room s).head? = some piece → piece <+: s from hhead.1 piece h
  clear h piece
  induction s generalizing room with
  | nil => simp [piecesFrom]
  | cons c s ih =>
    rw [piecesFrom]
    split
    · refine ⟨?_, ?_⟩
      · rintro piece (_ | ⟨_, hpiece⟩)
        · exact (List.prefix_append [c] s).isInfix
        · exact (ih.1 piece hpiece).trans (List.suffix_cons c s).isInfix
      · rintro piece ⟨⟩
        exact List.prefix_append [c] s
    · obtain ⟨hall, hfirst⟩ := @ih (room - 1)
      cases hrest : piecesFrom eol size (room - 1) s with
      | nil =>
        simp only [consHead, List.mem_singleton, List.head?_cons, Option.some.injEq, forall_eq,
          forall_eq']
        exact ⟨(List.prefix_append [c] s).isInfix, List.prefix_append [c] s⟩
      | cons first rest =>
        rw [hrest] at hall hfirst
        have hbegins : c :: first <+: c :: s := (List.prefix_cons_inj c).2 (hfirst first rfl)
        refine ⟨?_, ?_⟩
        · rintro piece (_ | ⟨_, hpiece⟩)
          · exact hbegins.isInfix
          · exact (hall piece (List.mem_cons_of_mem _ hpiece)).trans
              (List.suffix_cons c s).isInfix
        · rintro piece ⟨⟩
          exact hbegins

theorem infix_of_mem_pieces {s piece : List α} (h : piece ∈ pieces eol size s) : piece <:+: s :=
  infix_of_mem_piecesFrom h

/-- Only the end of a piece is a line end. -/
theorem notMem_dropLast_of_mem_piecesFrom {room : Nat} {s piece : List α}
    (h : piece ∈ piecesFrom eol size room s) : eol ∉ piece.dropLast := by
  induction s generalizing room piece with
  | nil => simp [piecesFrom] at h
  | cons c s ih =>
    rw [piecesFrom] at h
    split at h
    · obtain rfl | h := List.mem_cons.1 h
      · simp
      · exact ih h
    · rename_i hgo
      cases hrest : piecesFrom eol size (room - 1) s with
      | nil =>
        rw [hrest, consHead, List.mem_singleton] at h
        rw [h]
        simp
      | cons first rest =>
        rw [hrest, consHead] at h
        obtain rfl | h := List.mem_cons.1 h
        · have hfirst := @ih (room - 1) first (by rw [hrest]; simp)
          cases first with
          | nil => simp
          | cons d first =>
            rw [List.dropLast_cons_cons, List.mem_cons, not_or]
            exact ⟨fun he => hgo (Or.inl he.symm), hfirst⟩
        · exact @ih (room - 1) _ (by rw [hrest]; exact List.mem_cons_of_mem _ h)

theorem notMem_dropLast_of_mem_pieces {s piece : List α} (h : piece ∈ pieces eol size s) :
    eol ∉ piece.dropLast :=
  notMem_dropLast_of_mem_piecesFrom h

/-! ## Blanks at the ends -/

section Strip

variable {α : Type*}

/-- A text without the elements at its ends for which `front` and `back` hold. -/
def strip (front back : α → Bool) (s : List α) : List α := (s.rdropWhile back).dropWhile front

variable {front back : α → Bool}

theorem strip_isInfix (s : List α) : strip front back s <:+: s :=
  (List.dropWhile_suffix _).isInfix.trans (List.rdropWhile_prefix back s).isInfix

/-- There is nothing to strip. -/
def Stripped (front back : α → Bool) (s : List α) : Prop :=
  (∀ c ∈ s.head?, front c = false) ∧ ∀ c ∈ s.getLast?, back c = false

instance (s : List α) : Decidable (Stripped front back s) := inferInstanceAs (Decidable (_ ∧ _))

theorem stripped_cons_append {c d : α} (hc : front c = false) (hd : back d = false) (s : List α) :
    Stripped front back (c :: s ++ [d]) := by
  refine ⟨fun a ha => ?_, fun a ha => ?_⟩
  · rw [List.cons_append, List.head?_cons, Option.mem_some_iff] at ha
    rwa [← ha]
  · rw [List.getLast?_concat, Option.mem_some_iff] at ha
    rwa [← ha]

theorem rdropWhile_eq_self {s : List α} (h : ∀ c ∈ s.getLast?, back c = false) :
    s.rdropWhile back = s := by
  rw [List.rdropWhile_eq_self_iff]
  intro hne
  rw [h _ (List.getLast_mem_getLast? hne)]
  exact Bool.false_ne_true

theorem strip_eq_self {s : List α} (h : Stripped front back s) : strip front back s = s := by
  rw [strip, rdropWhile_eq_self h.2]
  cases s with
  | nil => rfl
  | cons c s => rw [List.dropWhile_cons_of_neg (by rw [h.1 c rfl]; exact Bool.false_ne_true)]

theorem strip_append_singleton {s : List α} {c : α} (h : back c = true) :
    strip front back (s ++ [c]) = strip front back s := by
  rw [strip, strip, List.rdropWhile_concat_pos back s c h]

/-- **What stands behind a text with no blank at its ends is stripped at its end only.** -/
theorem strip_append {pre : List α} (hne : pre ≠ []) (hpre : Stripped front back pre) (s : List α) :
    strip front back (pre ++ s) = pre ++ s.rdropWhile back := by
  have hback : (pre ++ s).rdropWhile back = pre ++ s.rdropWhile back := by
    induction s using List.reverseRecOn with
    | nil => rw [List.rdropWhile_nil, List.append_nil, rdropWhile_eq_self hpre.2]
    | append_singleton s c ih =>
      rw [← List.append_assoc]
      by_cases hc : back c = true
      · rw [List.rdropWhile_concat_pos back _ c hc, List.rdropWhile_concat_pos back _ c hc, ih]
      · rw [List.rdropWhile_concat_neg back _ c hc, List.rdropWhile_concat_neg back _ c hc,
          List.append_assoc]
  rw [strip, hback]
  cases pre with
  | nil => exact absurd rfl hne
  | cons c pre =>
    rw [List.cons_append, List.dropWhile_cons_of_neg (by rw [hpre.1 c rfl]; exact Bool.false_ne_true)]

theorem strip_cons {c : α} (hfront : front c = true) (hback : back c = true) (s : List α) :
    strip front back (c :: s) = strip front back s := by
  have hsplit : ∀ s : List α, ((c :: s).rdropWhile back).dropWhile front =
      (s.rdropWhile back).dropWhile front := by
    intro s
    induction s using List.reverseRecOn with
    | nil => simp [List.rdropWhile, hback]
    | append_singleton s d ih =>
      rw [← List.cons_append]
      by_cases hd : back d = true
      · rw [List.rdropWhile_concat_pos back _ d hd, List.rdropWhile_concat_pos back _ d hd, ih]
      · rw [List.rdropWhile_concat_neg back _ d hd, List.rdropWhile_concat_neg back _ d hd,
          List.cons_append, List.dropWhile_cons_of_pos hfront]
  exact hsplit s

theorem strip_rdropWhile (s : List α) : strip front back (s.rdropWhile back) = strip front back s := by
  rw [strip, strip, List.rdropWhile_idempotent]

end Strip

/-! ## Short writes -/

/-- What arrives of pieces that are written one after the other, when no more of each arrives than its
size. -/
def arrived {α : Type*} (sizes : ℕ → ℕ) : List (List α) → List α
  | [] => []
  | piece :: rest => piece.take (sizes 0) ++ arrived (fun i => sizes (i + 1)) rest

theorem length_arrived_le {α : Type*} (sizes : ℕ → ℕ) (pieces : List (List α)) :
    (arrived sizes pieces).length ≤ pieces.flatten.length := by
  induction pieces generalizing sizes with
  | nil => exact le_rfl
  | cons piece rest ih =>
    rw [arrived, List.length_append, List.length_take, List.flatten_cons, List.length_append]
    exact Nat.add_le_add (Nat.min_le_right _ _) (ih _)

/-- **The whole text arrives exactly if all of each piece does.** -/
theorem arrived_eq_flatten_iff {α : Type*} (sizes : ℕ → ℕ) (pieces : List (List α)) :
    arrived sizes pieces = pieces.flatten ↔ ∀ i, ∀ piece ∈ pieces[i]?, piece.length ≤ sizes i := by
  induction pieces generalizing sizes with
  | nil => exact iff_of_true rfl fun i piece h => by cases h
  | cons piece rest ih =>
    rw [arrived, List.flatten_cons]
    constructor
    · intro heq
      have hlen := congrArg List.length heq
      rw [List.length_append, List.length_append, List.length_take] at hlen
      have hrest := length_arrived_le (fun i => sizes (i + 1)) rest
      have hfit : piece.length ≤ sizes 0 := by omega
      rw [List.take_of_length_le hfit, List.append_cancel_left_eq, ih] at heq
      rintro (- | i) p hp
      · cases hp
        exact hfit
      · exact heq i p hp
    · intro h
      rw [List.take_of_length_le (h 0 piece rfl), (ih _).2 fun i p hp => h (i + 1) p hp]

end TextFile

import Mathlib.Data.List.Basic
import Mathlib.Logic.Function.Iterate

/-!
# Escapes in escapes

Percent-encoding over any alphabet: a mark and two digits stand for a letter.  The letters of an escape may
be escaped themselves, so that only some more passes of decoding show what a text spells.

No two escapes overlap, since the mark is no digit.  So a pass decodes all of them at once, and what a word
spells does not depend on what stands around it.

* `Spells`, `SpellsAll` — a word spells a letter, or a text, through any number of escapes.
* `decode` — one pass.
* `exists_iterate_iff` — a text of letters that no escape is made of shows after some number of passes, if
  and only if some part of the text spells it.
-/

set_option autoImplicit false

namespace NestedEscapes

/-- How letters are escaped. -/
structure Scheme (α : Type*) where
  mark : α
  isDigit : α → Bool
  value : α → α → α
  mark_not_digit : isDigit mark = false

namespace Scheme

variable {α : Type*}

/-! ## Words that spell a letter -/

/-- The word spells the letter: it is the letter itself, or an escape of it whose parts are spelled. -/
inductive Spells (S : Scheme α) : α → List α → Prop
  | plain (c : α) : Spells S c [c]
  | escape {a b : α} {p x y : List α} (ha : S.isDigit a = true) (hb : S.isDigit b = true)
      (hp : Spells S S.mark p) (hx : Spells S a x) (hy : Spells S b y) :
      Spells S (S.value a b) (p ++ (x ++ y))

/-- The word spells a text, letter by letter. -/
inductive SpellsAll (S : Scheme α) : List α → List α → Prop
  | nil : SpellsAll S [] []
  | cons {c : α} {v w t : List α} (hc : Spells S c w) (ht : SpellsAll S v t) :
      SpellsAll S (c :: v) (w ++ t)

/-- Some part of the text spells this one. -/
def Hides (S : Scheme α) (v s : List α) : Prop := ∃ w, S.SpellsAll v w ∧ w <:+: s

/-- No escape is made of such a letter. -/
def Inert (S : Scheme α) (c : α) : Prop := c ≠ S.mark ∧ S.isDigit c = false

variable {S : Scheme α} {c a b : α} {s t u v w : List α}

/-- A word that is not the letter itself begins with the mark. -/
theorem Spells.eq_mark_cons (h : S.Spells c w) (hw : w ≠ [c]) : ∃ t, w = S.mark :: t := by
  induction h with
  | plain c => exact absurd rfl hw
  | @escape a b p x y ha hb hp hx hy ihp ihx ihy =>
    by_cases hmark : p = [S.mark]
    · exact ⟨x ++ y, by rw [hmark, List.singleton_append]⟩
    · obtain ⟨t, rfl⟩ := ihp hmark
      exact ⟨t ++ (x ++ y), rfl⟩

/-- Only marks, digits and the letter itself stand in the word. -/
theorem Spells.letters (h : S.Spells c w) {x : α} (hx : x ∈ w) :
    x = S.mark ∨ S.isDigit x = true ∨ x = c := by
  induction h with
  | plain c => exact Or.inr (Or.inr (List.mem_singleton.1 hx))
  | escape ha hb hp hx' hy ihp ihx ihy =>
    rw [List.mem_append, List.mem_append] at hx
    obtain hx | hx | hx := hx
    · obtain h | h | rfl := ihp hx
      · exact Or.inl h
      · exact Or.inr (Or.inl h)
      · exact Or.inl rfl
    · obtain h | h | rfl := ihx hx
      · exact Or.inl h
      · exact Or.inr (Or.inl h)
      · exact Or.inr (Or.inl ha)
    · obtain h | h | rfl := ihy hx
      · exact Or.inl h
      · exact Or.inr (Or.inl h)
      · exact Or.inr (Or.inl hb)

theorem SpellsAll.letters (h : S.SpellsAll v w) {x : α} (hx : x ∈ w) :
    x = S.mark ∨ S.isDigit x = true ∨ x ∈ v := by
  induction h with
  | nil => exact absurd hx List.not_mem_nil
  | cons hc ht ih =>
    obtain hx | hx := List.mem_append.1 hx
    · obtain h | h | rfl := hc.letters hx
      · exact Or.inl h
      · exact Or.inr (Or.inl h)
      · exact Or.inr (Or.inr (List.mem_cons_self ..))
    · obtain h | h | h := ih hx
      · exact Or.inl h
      · exact Or.inr (Or.inl h)
      · exact Or.inr (Or.inr (List.mem_cons_of_mem _ h))

/-! ## Words of words -/

theorem SpellsAll.refl (v : List α) : S.SpellsAll v v := by
  induction v with
  | nil => exact .nil
  | cons c v ih => exact .cons (.plain c) ih

/-- What spells a text in two parts has two parts. -/
theorem SpellsAll.split (h : S.SpellsAll (u ++ v) s) :
    ∃ s₁ s₂, s = s₁ ++ s₂ ∧ S.SpellsAll u s₁ ∧ S.SpellsAll v s₂ := by
  induction u generalizing s with
  | nil => exact ⟨[], s, rfl, .nil, h⟩
  | cons c u ih =>
    cases h with
    | @cons _ _ w t hc ht =>
      obtain ⟨s₁, s₂, rfl, hu, hv⟩ := ih ht
      exact ⟨w ++ s₁, s₂, (List.append_assoc ..).symm, .cons hc hu, hv⟩

/-- What spells a word that spells a letter, spells the letter. -/
theorem Spells.trans (h : S.Spells c w) (hs : S.SpellsAll w s) : S.Spells c s := by
  induction h generalizing s with
  | plain c =>
    cases hs with
    | cons hc ht =>
      cases ht
      rwa [List.append_nil]
  | escape ha hb hp hx hy ihp ihx ihy =>
    obtain ⟨sp, s', rfl, hsp, hs'⟩ := hs.split
    obtain ⟨sx, sy, rfl, hsx, hsy⟩ := hs'.split
    exact .escape ha hb (ihp hsp) (ihx hsx) (ihy hsy)

theorem SpellsAll.trans (h : S.SpellsAll v w) (hs : S.SpellsAll w s) : S.SpellsAll v s := by
  induction h generalizing s with
  | nil => exact hs
  | cons hc ht ih =>
    obtain ⟨s₁, s₂, rfl, h₁, h₂⟩ := hs.split
    exact .cons (hc.trans h₁) (ih h₂)

/-- What a text that is spelled hides, its spelling hides. -/
theorem Hides.trans (h : S.Hides v u) (hs : S.SpellsAll u s) : S.Hides v s := by
  obtain ⟨w, hw, before, behind, rfl⟩ := h
  obtain ⟨s', s₃, rfl, hs', -⟩ := hs.split
  obtain ⟨s₁, s₂, rfl, -, hs₂⟩ := hs'.split
  exact ⟨s₂, hw.trans hs₂, s₁, s₃, rfl⟩

/-- A change of letters that no spelling has hides nothing and shows nothing. -/
theorem hides_map_iff {f : α → α}
    (hf : ∀ x y, x = S.mark ∨ S.isDigit x = true ∨ x ∈ v → (f y = x ↔ y = x)) :
    S.Hides v (s.map f) ↔ S.Hides v s := by
  constructor
  · rintro ⟨w, hw, hi⟩
    obtain ⟨w', hi', rfl⟩ := List.infix_map_iff.1 hi
    have hsame : w'.map f = w' := (List.map_congr_left fun y hy =>
      ((hf (f y) y (hw.letters (List.mem_map_of_mem hy))).1 rfl).symm).trans (List.map_id w')
    exact ⟨w', hsame ▸ hw, hi'⟩
  · rintro ⟨w, hw, hi⟩
    have hsame : w.map f = w := (List.map_congr_left fun y hy =>
      (hf y y (hw.letters hy)).2 rfl).trans (List.map_id w)
    exact ⟨w, hw, hsame ▸ hi.map f⟩

/-- Without a mark, a word spells itself. -/
theorem SpellsAll.eq_of_notMem (h : S.SpellsAll v w) (hw : S.mark ∉ w) : w = v := by
  induction h with
  | nil => rfl
  | @cons c v w t hc ht ih =>
    rw [List.mem_append, not_or] at hw
    have hplain : w = [c] := by
      by_contra hne
      obtain ⟨r, rfl⟩ := hc.eq_mark_cons hne
      exact hw.1 (List.mem_cons_self ..)
    rw [hplain, ih hw.2, List.singleton_append]

theorem length_le_of_shrunk {w' : List α} (h : w'.length < w.length ∨ w = u ∧ w' = u) :
    w'.length ≤ w.length := by
  obtain h | ⟨rfl, rfl⟩ := h
  · exact Nat.le_of_lt h
  · exact Nat.le_refl _

/-! ## One pass -/

variable [DecidableEq α]

/-- One pass of decoding. -/
def decode (S : Scheme α) : List α → List α
  | [] => []
  | [c] => [c]
  | [c, d] => [c, d]
  | c :: a :: b :: s =>
    if c = S.mark ∧ S.isDigit a = true ∧ S.isDigit b = true then S.value a b :: decode S s
    else c :: decode S (a :: b :: s)

theorem decode_escape (ha : S.isDigit a = true) (hb : S.isDigit b = true) (s : List α) :
    S.decode (S.mark :: a :: b :: s) = S.value a b :: S.decode s := by
  rw [decode, if_pos ⟨rfl, ha, hb⟩]

theorem decode_cons_of_not (h : ¬ (c = S.mark ∧ S.isDigit a = true ∧ S.isDigit b = true)) (s : List α) :
    S.decode (c :: a :: b :: s) = c :: S.decode (a :: b :: s) := by
  rw [decode, if_neg h]

theorem decode_cons_of_ne (hc : c ≠ S.mark) (s : List α) : S.decode (c :: s) = c :: S.decode s := by
  match s with
  | [] => rfl
  | [d] => rfl
  | a :: b :: s => exact decode_cons_of_not (fun h => hc h.1) s

/-- Behind a mark, an escape begins with a digit. -/
theorem decode_cons_of_head (hs : ∀ a ∈ s.head?, S.isDigit a = false) :
    S.decode (c :: s) = c :: S.decode s := by
  match s with
  | [] => rfl
  | [d] => rfl
  | a :: b :: s =>
    have ha : S.isDigit a = false := hs a rfl
    refine decode_cons_of_not ?_ s
    rintro ⟨-, hdigit, -⟩
    exact Bool.false_ne_true (ha.symm.trans hdigit)

/-- Behind a mark and a digit, it ends with a digit. -/
theorem decode_cons_cons_of_head (hs : ∀ b ∈ s.head?, S.isDigit b = false) :
    S.decode (c :: a :: s) = c :: S.decode (a :: s) := by
  match s with
  | [] => rfl
  | b :: s =>
    have hb : S.isDigit b = false := hs b rfl
    refine decode_cons_of_not ?_ s
    rintro ⟨-, -, hdigit⟩
    exact Bool.false_ne_true (hb.symm.trans hdigit)

/-- **A text is decoded part by part** where the second part does not begin with a digit. -/
theorem decode_append (ht : ∀ a ∈ t.head?, S.isDigit a = false) (s : List α) :
    S.decode (s ++ t) = S.decode s ++ S.decode t := by
  fun_induction decode S s with
  | case1 => rfl
  | case2 c => exact decode_cons_of_head ht
  | case3 c d =>
    refine (decode_cons_cons_of_head ht).trans (congrArg _ ?_)
    exact decode_cons_of_head ht
  | case4 c a b s hescape ih =>
    obtain ⟨rfl, ha, hb⟩ := hescape
    exact (decode_escape ha hb _).trans (congrArg _ ih)
  | case5 c a b s hescape ih =>
    exact (decode_cons_of_not hescape _).trans (congrArg _ ih)

/-- A text spells what it is decoded to. -/
theorem spellsAll_decode (S : Scheme α) (s : List α) : S.SpellsAll (S.decode s) s := by
  fun_induction decode S s with
  | case1 => exact .nil
  | case2 c => exact .refl _
  | case3 c d => exact .refl _
  | case4 c a b s hescape ih =>
    obtain ⟨rfl, ha, hb⟩ := hescape
    exact .cons (.escape ha hb (.plain _) (.plain _) (.plain _)) ih
  | case5 c a b s hescape ih => exact .cons (.plain c) ih

/-! ## A pass over a word -/

/-- The mark of an escape waits until both digits are there. -/
theorem decode_mark_waiting {x y : List α} (hx : S.Spells a x) (hy : S.Spells b y)
    (hwait : x = [a] → y ≠ [b]) (t : List α) :
    S.decode (S.mark :: (x ++ (y ++ t))) = S.mark :: S.decode (x ++ (y ++ t)) := by
  by_cases hxa : x = [a]
  · subst hxa
    obtain ⟨r, rfl⟩ := hy.eq_mark_cons (hwait rfl)
    refine decode_cons_cons_of_head ?_
    rintro d ⟨⟩
    exact S.mark_not_digit
  · obtain ⟨r, rfl⟩ := hx.eq_mark_cons hxa
    refine decode_cons_of_head ?_
    rintro d ⟨⟩
    exact S.mark_not_digit

/-- A pass makes a word that spells a letter shorter, wherever it stands, unless it is that letter. -/
theorem Spells.decode (h : S.Spells c w) (hc : c = S.mark → w ≠ [c]) :
    ∃ w', S.Spells c w' ∧ (∀ t, S.decode (w ++ t) = w' ++ S.decode t) ∧
      (w'.length < w.length ∨ w = [c] ∧ w' = [c]) := by
  induction h with
  | plain c => exact ⟨[c], .plain c, decode_cons_of_ne fun h => hc h rfl, Or.inr ⟨rfl, rfl⟩⟩
  | @escape a b p x y ha hb hp hx hy ihp ihx ihy =>
    have hne {d : α} (hd : S.isDigit d = true) : d ≠ S.mark := by
      rintro rfl
      exact Bool.false_ne_true (S.mark_not_digit.symm.trans hd)
    obtain ⟨x', hx', hdx, hlx⟩ := ihx fun h => absurd h (hne ha)
    obtain ⟨y', hy', hdy, hly⟩ := ihy fun h => absurd h (hne hb)
    have hxy (t : List α) : S.decode (x ++ (y ++ t)) = x' ++ (y' ++ S.decode t) := by
      rw [hdx, hdy]
    have hlx' := length_le_of_shrunk hlx
    have hly' := length_le_of_shrunk hly
    by_cases hmark : p = [S.mark]
    · subst hmark
      by_cases hplain : x = [a] ∧ y = [b]
      · -- the escape is ready to be decoded
        obtain ⟨rfl, rfl⟩ := hplain
        exact ⟨[S.value a b], .plain _, decode_escape ha hb, Or.inl (by simp)⟩
      · refine ⟨S.mark :: (x' ++ y'), .escape ha hb (.plain _) hx' hy', fun t => ?_, Or.inl ?_⟩
        · refine (congrArg S.decode (by simp)).trans
            ((decode_mark_waiting hx hy (not_and.1 hplain) t).trans ?_)
          rw [hxy, List.cons_append, List.append_assoc]
        · have hshort : x'.length < x.length ∨ y'.length < y.length := by
            obtain hlx | ⟨hxa, -⟩ := hlx
            · exact Or.inl hlx
            · exact Or.inr (hly.resolve_right fun hyb => hplain ⟨hxa, hyb.1⟩)
          simp only [List.length_cons, List.length_append, List.length_nil]
          omega
    · obtain ⟨p', hp', hdp, hlp⟩ := ihp fun _ => hmark
      have hlp' : p'.length < p.length := hlp.resolve_right fun h => hmark h.1
      refine ⟨p' ++ (x' ++ y'), .escape ha hb hp' hx' hy', fun t => ?_, Or.inl ?_⟩
      · rw [List.append_assoc, List.append_assoc, hdp, hxy]
        simp only [List.append_assoc]
      · simp only [List.length_append]
        omega

theorem SpellsAll.decode (h : S.SpellsAll v w) (hv : ∀ c ∈ v, c ≠ S.mark) :
    ∃ w', S.SpellsAll v w' ∧ (∀ t, S.decode (w ++ t) = w' ++ S.decode t) ∧
      (w'.length < w.length ∨ w = v ∧ w' = v) := by
  induction h with
  | nil => exact ⟨[], .nil, fun t => rfl, Or.inr ⟨rfl, rfl⟩⟩
  | @cons c v w t hc ht ih =>
    obtain ⟨w', hw', hdw, hlw⟩ := hc.decode fun h => absurd h (hv c (List.mem_cons_self ..))
    obtain ⟨t', ht', hdt, hlt⟩ := ih fun d hd => hv d (List.mem_cons_of_mem _ hd)
    refine ⟨w' ++ t', .cons hw' ht', fun r => ?_, ?_⟩
    · rw [List.append_assoc, hdw, hdt, List.append_assoc]
    · rw [List.length_append, List.length_append]
      obtain hlw | ⟨rfl, rfl⟩ := hlw
      · obtain hlt | ⟨rfl, rfl⟩ := hlt
        · exact Or.inl (by omega)
        · exact Or.inl (by omega)
      · obtain hlt | ⟨rfl, rfl⟩ := hlt
        · exact Or.inl (by omega)
        · exact Or.inr ⟨rfl, rfl⟩

/-! ## Any number of passes -/

/-- A pass over a text leaves a shorter word for the text it spells, or that text. -/
theorem decode_infix (h : S.SpellsAll v w) (hv : ∀ c ∈ v, S.Inert c) (hi : w <:+: s) :
    ∃ w', S.SpellsAll v w' ∧ w' <:+: S.decode s ∧ (w'.length < w.length ∨ w = v ∧ w' = v) := by
  obtain ⟨w', hw', hdw, hlw⟩ := h.decode fun c hc => (hv c hc).1
  refine ⟨w', hw', ?_, hlw⟩
  obtain ⟨before, behind, rfl⟩ := hi
  cases h with
  | nil =>
    obtain h0 | ⟨-, rfl⟩ := hlw
    · exact absurd h0 (Nat.not_lt_zero _)
    · exact List.nil_infix
  | @cons c v w t hc ht =>
    have hinert : S.Inert c := hv c (List.mem_cons_self ..)
    have hhead : ∀ a ∈ (w ++ t ++ behind).head?, S.isDigit a = false := by
      by_cases hplain : w = [c]
      · subst hplain
        rintro d ⟨⟩
        exact hinert.2
      · obtain ⟨r, rfl⟩ := hc.eq_mark_cons hplain
        rintro d ⟨⟩
        exact S.mark_not_digit
    rw [List.append_assoc, decode_append hhead, hdw]
    exact ⟨S.decode before, S.decode behind, List.append_assoc ..⟩

/-- A pass hides nothing and shows nothing. -/
theorem hides_decode_iff (hv : ∀ c ∈ v, S.Inert c) : S.Hides v (S.decode s) ↔ S.Hides v s := by
  constructor
  · exact fun h => h.trans (spellsAll_decode S s)
  · rintro ⟨w, hw, hi⟩
    obtain ⟨w', hw', hi', -⟩ := decode_infix hw hv hi
    exact ⟨w', hw', hi'⟩

/-- **What a text hides shows after some number of passes**, and nothing else does. -/
theorem exists_iterate_iff (hv : ∀ c ∈ v, S.Inert c) :
    (∃ k, v <:+: S.decode^[k] s) ↔ S.Hides v s := by
  constructor
  · rintro ⟨k, hk⟩
    induction k generalizing s with
    | zero => exact ⟨v, .refl v, hk⟩
    | succ k ih => exact (hides_decode_iff hv).1 (ih hk)
  · rintro ⟨w, hw, hi⟩
    -- each pass makes the word shorter, until it is the text itself
    induction hn : w.length using Nat.strongRecOn generalizing w s with
    | _ n ih =>
      subst hn
      obtain ⟨w', hw', hi', hlt | ⟨-, rfl⟩⟩ := decode_infix hw hv hi
      · obtain ⟨k, hk⟩ := ih w'.length hlt w' hw' hi' rfl
        exact ⟨k + 1, hk⟩
      · exact ⟨1, hi'⟩

end Scheme
end NestedEscapes

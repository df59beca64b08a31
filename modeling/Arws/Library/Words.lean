import Arws.Library.CString

/-!
# Texts of words

Words with one blank before each of them, and the search for a pattern without a blank in such a text:
it finds the first word that has the pattern in it.

* `strstr_behind` — where a pattern is found.
* `exists_first` — the first word that has it.
-/

set_option autoImplicit false

namespace CString

/-- A word has no blank in it, and is not empty. -/
structure IsWord (w : Bytes) : Prop where
  ne : w ≠ []
  plain : ∀ c ∈ w, isSpace c = false ∧ c ≠ 0

/-- Each of the words behind a blank. -/
def behind (words : List Bytes) : Bytes := words.flatMap fun w => 32 :: w

/-- No word has the pattern in it. -/
def Unmentioned (pat : Bytes) (words : List Bytes) : Prop := ∀ w ∈ words, strstr pat w = none

variable {pat w t : Bytes} {words pre post : List Bytes}

theorem behind_cons (w : Bytes) (words : List Bytes) : behind (w :: words) = 32 :: w ++ behind words :=
  List.flatMap_cons

theorem behind_append (a b : List Bytes) : behind (a ++ b) = behind a ++ behind b := List.flatMap_append

/-- What is behind a word ends it. -/
theorem head?_behind : ∀ c ∈ (behind words).head?, c = 32 := by
  cases words with
  | nil => exact fun c hc => by cases hc
  | cons w words =>
    rw [behind_cons]
    exact fun c hc => (Option.some.inj hc).symm

theorem not_prefix_of_strstr_eq_none (h : strstr pat w = none) {i : ℕ} (hi : i ≤ w.length) :
    ¬ pat <+: w.drop i := by
  intro hp
  obtain ⟨j, -, hj⟩ := strstr_isSome_of_prefix_drop hi hp
  rw [h] at hj
  cases hj

theorem strstr_nil (h : pat ≠ []) : strstr pat [] = none := by
  rw [strstr, if_neg (by rwa [List.isEmpty_iff])]

/-- A pattern that has not the byte behind a text is in the text, or behind it. -/
theorem strstr_append_of_head {c : UInt8} (hc : c ∉ pat) (ht : ∀ d ∈ t.head?, d = c)
    (hnone : strstr pat w = none) :
    strstr pat (w ++ t) = (strstr pat t).map (· + w.length) := by
  have hnot : ∀ j < w.length, ¬ pat <+: (w ++ t).drop j := by
    intro j hj hp
    rw [List.drop_append_of_le_length (Nat.le_of_lt hj)] at hp
    refine not_prefix_of_strstr_eq_none hnone (Nat.le_of_lt hj) ?_
    cases t with
    | nil => rwa [List.append_nil] at hp
    | cons d t =>
      obtain rfl := ht d rfl
      exact prefix_of_notMem hc hp
  rw [strstr_drop (by rw [List.length_append]; omega) hnot, List.drop_left]

theorem strstr_cons_blank (hblank : (32 : UInt8) ∉ pat) (hne : pat ≠ []) (s : Bytes) :
    strstr pat (32 :: s) = (strstr pat s).map (· + 1) := by
  rw [strstr, if_neg]
  intro hp
  obtain ⟨c, pat, rfl⟩ := List.exists_cons_of_ne_nil hne
  obtain ⟨rfl, -⟩ := List.cons_prefix_cons.1 (List.isPrefixOf_iff_prefix.1 hp)
  exact hblank List.mem_cons_self

section Search

variable (hblank : (32 : UInt8) ∉ pat) (hne : pat ≠ [])

include hblank hne

theorem strstr_behind_none (h : Unmentioned pat words) : strstr pat (behind words) = none := by
  induction words with
  | nil => exact strstr_nil hne
  | cons w words ih =>
    have hrest := ih fun w hw => h w (List.mem_cons_of_mem _ hw)
    rw [behind_cons, List.cons_append, strstr_cons_blank hblank hne,
      strstr_append_of_head hblank head?_behind (h w List.mem_cons_self), hrest]
    rfl

/-- **A pattern is found** in the first word that has it. -/
theorem strstr_behind (h : Unmentioned pat pre) {j : ℕ} (hw : strstr pat w = some j) (post : List Bytes) :
    strstr pat (behind (pre ++ w :: post)) = some ((behind pre).length + 1 + j) := by
  induction pre with
  | nil =>
    rw [List.nil_append, behind_cons, List.cons_append, strstr_cons_blank hblank hne,
      strstr_mono (List.prefix_append w _) hw, Option.map_some]
    exact congrArg some (Nat.add_comm j 1)
  | cons u pre ih =>
    have hrest := ih fun u hu => h u (List.mem_cons_of_mem _ hu)
    rw [List.cons_append, behind_cons, List.cons_append, strstr_cons_blank hblank hne,
      strstr_append_of_head hblank head?_behind (h u List.mem_cons_self), hrest, behind_cons,
      Option.map_some, Option.map_some, List.length_append, List.length_cons]
    congr 1
    omega

end Search

/-- The first word that has the pattern in it. -/
theorem exists_first (pat : Bytes) (words : List Bytes) : Unmentioned pat words ∨
    ∃ pre w post j, words = pre ++ w :: post ∧ Unmentioned pat pre ∧ strstr pat w = some j := by
  cases hfind : words.find? fun w => (strstr pat w).isSome with
  | none =>
    refine Or.inl fun w hw => ?_
    have := List.find?_eq_none.1 hfind w hw
    rwa [Option.not_isSome_iff_eq_none] at this
  | some w =>
    obtain ⟨hw, pre, post, rfl, hpre⟩ := List.find?_eq_some_iff_append.1 hfind
    obtain ⟨j, hj⟩ := Option.isSome_iff_exists.1 hw
    refine Or.inr ⟨pre, w, post, j, rfl, fun u hu => ?_, hj⟩
    have := hpre u hu
    rwa [Bool.not_eq_true', Option.isSome_eq_false_iff, Option.isNone_iff_eq_none] at this

/-- What stands behind the pattern in the text. -/
theorem drop_behind {j : ℕ} (hw : strstr pat w = some j) (pre post : List Bytes) :
    (behind (pre ++ w :: post)).drop ((behind pre).length + 1 + j + pat.length) =
      w.drop (j + pat.length) ++ behind post := by
  have hle := strstr_add_le hw
  rw [behind_append, behind_cons, Nat.add_assoc, Nat.add_assoc, List.drop_length_add_append,
    Nat.add_comm 1, List.cons_append, List.drop_succ_cons, List.drop_append_of_le_length hle]

end CString

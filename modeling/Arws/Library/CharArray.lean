import Arws.Library.CString

/-!
# Character arrays

A `char` array of a fixed size that C code uses as a string: `CharArray n` has exactly `n` bytes,
whatever they are.

* `string?` — the string in it, undefined when there is no terminator among its bytes: a string
  function would read on behind the array.
* `store` — bytes written at an offset, undefined when they do not fit.
* `ofString` — `strncpy` of at most `n` bytes into `n + 1`, and a terminator at the end.
* `strncpy` — the same without the terminator: the last byte stays what it was.
* `appendText` — `snprintf` at the end of the string, cut where the array ends.

`string?_store` is what the rest follows from: a text and a terminator stored at the end of the
string make the longer string.
-/

set_option autoImplicit false

open CString

/-- An array of `n` characters. -/
structure CharArray (n : Nat) where
  bytes : Bytes
  length_eq : bytes.length = n
  deriving DecidableEq

namespace CharArray

variable {n : Nat} {a b : CharArray n} {s t : Bytes}

/-- The string in the array, as `strlen` and `%s` read it. -/
def string? (a : CharArray n) : Option Bytes :=
  if (0 : UInt8) ∈ a.bytes then some (cstr a.bytes) else none

/-- Bytes written at an offset. -/
def store (a : CharArray n) (i : Nat) (s : Bytes) : Option (CharArray n) :=
  if h : i + s.length ≤ n then
    some ⟨a.bytes.take i ++ s ++ a.bytes.drop (i + s.length), by
      have := a.length_eq
      simp only [List.length_append, List.length_take, List.length_drop]
      omega⟩
  else none

/-- One character written. -/
def put (a : CharArray n) (i : Nat) (c : UInt8) : CharArray n :=
  ⟨a.bytes.set i c, by rw [List.length_set, a.length_eq]⟩

/-- `strncpy` of at most `n` bytes, and a terminator behind them. -/
def ofString (n : Nat) (s : Bytes) : CharArray (n + 1) :=
  ⟨s.take n ++ List.replicate (n + 1 - (s.take n).length) 0, by
    simp only [List.length_append, List.length_take, List.length_replicate]
    omega⟩

/-- `strncpy` of at most `n` bytes into `n + 1`. -/
def strncpy (a : CharArray (n + 1)) (s : Bytes) : CharArray (n + 1) :=
  ⟨s.take n ++ List.replicate (n - (s.take n).length) 0 ++ a.bytes.drop n, by
    have := a.length_eq
    simp only [List.length_append, List.length_take, List.length_replicate, List.length_drop]
    omega⟩

/-- What the array reads as, where nobody reads on behind it. -/
def text (a : CharArray n) : Bytes := cstr a.bytes

/-- `snprintf(a + strlen(a), n - strlen(a), ..)`: the text, as far as there is room for it. -/
def appendText (a : CharArray n) (text : Bytes) : Option (CharArray n) :=
  a.string?.bind fun s => a.store s.length (text.take (n - s.length - 1) ++ [0])

/-- The same string is in both arrays. -/
def Alike (a b : CharArray n) : Prop := ∃ s, a.string? = some s ∧ b.string? = some s

theorem string?_eq_some_iff :
    a.string? = some s ↔ (0 : UInt8) ∈ a.bytes ∧ cstr a.bytes = s := by
  rw [string?]
  split_ifs with h <;> simp [h]

theorem length_lt_of_string? (h : a.string? = some s) : s.length < n := by
  obtain ⟨hmem, rfl⟩ := string?_eq_some_iff.1 h
  have hle : (cstr a.bytes).length ≤ n := (cstr_isPrefix _).length_le.trans_eq a.length_eq
  refine lt_of_le_of_ne hle fun he => ?_
  rw [← (cstr_isPrefix a.bytes).eq_of_length (he.trans a.length_eq.symm)] at hmem
  exact zero_notMem_cstr _ hmem

/-- What stands before the terminator is the string. -/
theorem take_of_string? (h : a.string? = some s) : a.bytes.take s.length = s := by
  obtain ⟨-, rfl⟩ := string?_eq_some_iff.1 h
  exact List.prefix_iff_eq_take.1 (cstr_isPrefix _) |>.symm

/-- **A text stored at the end of the string extends it.** -/
theorem string?_store (h : a.string? = some s) (hfit : s.length + t.length + 1 ≤ n) :
    ∃ a', a.store s.length (t ++ [0]) = some a' ∧ a'.string? = some (s ++ cstr t) := by
  have hs : (0 : UInt8) ∉ s := by
    obtain ⟨-, rfl⟩ := string?_eq_some_iff.1 h
    exact zero_notMem_cstr _
  refine ⟨_, dif_pos (by rw [List.length_append, List.length_singleton]; omega),
    string?_eq_some_iff.2 ⟨by simp, ?_⟩⟩
  simp only [take_of_string? h, List.append_assoc s]
  rw [cstr_append hs, cstr_append_of_mem (by simp), cstr_append_terminator]

/-- `snprintf` at the end of the string always fits. -/
theorem string?_appendText (h : a.string? = some s) (text : Bytes) :
    ∃ a', a.appendText text = some a' ∧
      a'.string? = some (s ++ cstr (text.take (n - s.length - 1))) := by
  have hlt := length_lt_of_string? h
  rw [appendText, h, Option.bind_some]
  refine string?_store h ?_
  rw [List.length_take]
  omega

theorem zero_mem_put (h : (0 : UInt8) ∈ a.bytes) (i : Nat) : (0 : UInt8) ∈ (a.put i 0).bytes := by
  obtain ⟨j, hj, hget⟩ := List.mem_iff_getElem.1 h
  refine List.mem_iff_getElem.2 ⟨j, by simpa [put] using hj, ?_⟩
  simp only [put, List.getElem_set, hget, ite_self]

theorem zero_mem_ofString (n : Nat) (s : Bytes) : (0 : UInt8) ∈ (ofString n s).bytes := by
  refine List.mem_append_right _ (List.mem_replicate.2 ⟨?_, rfl⟩)
  rw [List.length_take]
  omega

/-- A string that leaves room for its terminator is read back. -/
theorem text_strncpy (a : CharArray (n + 1)) (hs : (0 : UInt8) ∉ s) (hlen : s.length < n) :
    (a.strncpy s).text = s := by
  obtain ⟨k, hk⟩ : ∃ k, n - s.length = k + 1 := ⟨n - s.length - 1, by omega⟩
  simp only [text, strncpy, List.take_of_length_le hlen.le, hk, List.replicate_succ,
    List.append_assoc, List.cons_append]
  exact cstr_append_zero hs _

/-- A string has its terminator when it is copied to the array: there is room for it, or the byte that
`strncpy` leaves as it was is one. -/
def Terminates (a : CharArray (n + 1)) (s : Bytes) : Prop := s.length < n ∨ a.bytes.drop n = [0]

instance (a : CharArray (n + 1)) (s : Bytes) : Decidable (a.Terminates s) :=
  inferInstanceAs (Decidable (_ ∨ _))

/-- What is copied is read back, and the last byte behind it if there is no terminator. -/
theorem text_strncpy_append (a : CharArray (n + 1)) (hs : (0 : UInt8) ∉ s) (hlen : s.length ≤ n) :
    (a.strncpy s).text = s ++ if s.length < n then [] else cstr (a.bytes.drop n) := by
  split
  · rename_i h
    rw [text_strncpy a hs h, List.append_nil]
  · rename_i h
    have hzero : n - s.length = 0 := by omega
    simp only [text, strncpy, List.take_of_length_le hlen, hzero, List.replicate_zero, List.append_nil]
    exact cstr_append hs _

/-- An array begins with what is copied to it, and is that if it reads as something short. -/
theorem text_strncpy_cases (a : CharArray (n + 1)) (hs : (0 : UInt8) ∉ s) (hlen : s.length ≤ n) :
    s <+: (a.strncpy s).text ∧ ((a.strncpy s).text.length < n → (a.strncpy s).text = s) := by
  have htext := text_strncpy_append a hs hlen
  refine ⟨htext ▸ List.prefix_append _ _, fun hlt => ?_⟩
  rw [htext, List.length_append] at hlt
  rw [htext, if_pos (by omega), List.append_nil]

theorem text_strncpy_eq_iff (a : CharArray (n + 1)) (hs : (0 : UInt8) ∉ s) (hlen : s.length ≤ n) :
    (a.strncpy s).text = s ↔ a.Terminates s := by
  rw [text_strncpy_append a hs hlen, List.append_right_eq_self, Terminates]
  split
  · rename_i h
    exact iff_of_true rfl (Or.inl h)
  · rename_i h
    obtain ⟨c, hc⟩ : ∃ c, a.bytes.drop n = [c] := by
      rw [← List.length_eq_one_iff, List.length_drop, a.length_eq]
      omega
    rw [hc, or_iff_right h, cstr]
    by_cases hzero : c = 0 <;> simp [hzero]

/-- There is a terminator among the bytes exactly if the string has its own. -/
theorem zero_mem_strncpy_iff (a : CharArray (n + 1)) (hs : (0 : UInt8) ∉ s) :
    (0 : UInt8) ∈ (a.strncpy s).bytes ↔ a.Terminates s := by
  have hcut : (0 : UInt8) ∉ s.take n := fun h => hs (List.mem_of_mem_take h)
  obtain ⟨c, hc⟩ : ∃ c, a.bytes.drop n = [c] := by
    rw [← List.length_eq_one_iff, List.length_drop, a.length_eq]
    omega
  simp only [strncpy, Terminates, hc, List.mem_append, or_iff_right hcut, List.mem_replicate,
    List.mem_singleton, List.length_take, List.cons.injEq, and_true, @eq_comm _ 0 c]
  refine or_congr ?_ Iff.rfl
  omega

/-- As much of a string as fits is read back, when there is a terminator. -/
theorem text_strncpy_of_terminates (a : CharArray (n + 1)) (hs : (0 : UInt8) ∉ s) (h : a.Terminates s) :
    (a.strncpy s).text = s.take n := by
  have hcut : (0 : UInt8) ∉ s.take n := fun hmem => hs (List.mem_of_mem_take hmem)
  have hsame : a.strncpy (s.take n) = a.strncpy s := by
    simp only [strncpy, List.take_take, Nat.min_self]
  rw [← hsame, text_strncpy_eq_iff a hcut (List.length_take_le n s), Terminates, List.length_take]
  exact h.imp_left fun hlt => (Nat.min_le_right n _).trans_lt hlt

theorem text_eq_nil_iff (a : CharArray (n + 1)) : a.text = [] ↔ a.bytes.head? = some 0 := by
  have hlen := a.length_eq
  rw [text]
  cases hb : a.bytes with
  | nil => simp [hb] at hlen
  | cons c cs => by_cases hc : c = 0 <;> simp [cstr, hc]

/-- The byte behind a string is not the one in front of it. -/
theorem terminates_put (a : CharArray (n + 1)) (hn : 0 < n) (c : UInt8) :
    (a.put 0 c).Terminates s ↔ a.Terminates s := by
  rw [Terminates, Terminates, put, List.drop_set_of_lt hn]

/-- A string that starts with its terminator is empty. -/
theorem head?_eq_zero_iff (h : a.string? = some s) : a.bytes.head? = some 0 ↔ s = [] := by
  obtain ⟨hmem, rfl⟩ := string?_eq_some_iff.1 h
  cases hb : a.bytes with
  | nil => simp [hb] at hmem
  | cons c cs => by_cases hc : c = 0 <;> simp [cstr, hc]

/-! ## Arrays that hold the same string -/

theorem alike_self (h : (0 : UInt8) ∈ a.bytes) : Alike a a :=
  have hs := string?_eq_some_iff.2 ⟨h, rfl⟩
  ⟨_, hs, hs⟩

theorem Alike.head?_iff (h : Alike a b) :
    a.bytes.head? = some 0 ↔ b.bytes.head? = some 0 := by
  obtain ⟨s, ha, hb⟩ := h
  rw [head?_eq_zero_iff ha, head?_eq_zero_iff hb]

theorem Alike.appendText (h : Alike a b) (text : Bytes) :
    ∃ a' b', a.appendText text = some a' ∧ b.appendText text = some b' ∧ Alike a' b' := by
  obtain ⟨s, ha, hb⟩ := h
  obtain ⟨a', ha', has⟩ := string?_appendText ha text
  obtain ⟨b', hb', hbs⟩ := string?_appendText hb text
  exact ⟨a', b', ha', hb', _, has, hbs⟩

end CharArray

import Arws.Library.HttpMessage

/-!
# Decimal numbers in a text

Where a number stands in a text is said by the parts of the text, without a reader.

* `NumberStands` — blanks, a sign or none, and digits up to a byte that is no digit.  `strtol` returns
  the number that stands at the beginning of a text, as far as it fits, and 0 if there is none
  (`strtol_eq_natCast_iff`).
* `FieldNumber` — a name, a colon, and digits with nothing but blanks around them.  Then the value of
  the field is a decimal number (`decimal_trim_iff`).
-/

set_option autoImplicit false

namespace Http

open CString

/-! ## Numbers as `strtol` takes them -/

/-- A number stands at the beginning of the text. -/
def NumberStands (text : Bytes) (x : Int) : Prop :=
  ∃ blanks sign digits rest : Bytes, text = blanks ++ (sign ++ (digits ++ rest)) ∧
    (∀ c ∈ blanks, isSpace c = true) ∧ digits ≠ [] ∧ (∀ c ∈ digits, isDigit c = true) ∧
    (∀ c ∈ rest.head?, isDigit c = false) ∧
    ((sign = [] ∨ sign = [43]) ∧ x = digitsValue digits ∨ sign = [45] ∧ x = -(digitsValue digits : Int))

theorem takeWhile_append_of_stop {p : UInt8 → Bool} {a rest : Bytes} (ha : ∀ c ∈ a, p c = true)
    (hrest : ∀ c ∈ rest.head?, p c = false) : (a ++ rest).takeWhile p = a := by
  rw [List.takeWhile_append_of_pos ha]
  cases rest with
  | nil => rw [List.takeWhile_nil, List.append_nil]
  | cons c rest =>
    have hc := hrest c rfl
    rw [List.takeWhile_cons_of_neg (by rw [hc]; decide), List.append_nil]

theorem dropWhile_append_of_stop {p : UInt8 → Bool} {a rest : Bytes} (ha : ∀ c ∈ a, p c = true)
    (hrest : ∀ c ∈ rest.head?, p c = false) : (a ++ rest).dropWhile p = rest := by
  rw [List.dropWhile_append_of_pos ha]
  cases rest with
  | nil => rfl
  | cons c rest =>
    have hc := hrest c rfl
    rw [List.dropWhile_cons_of_neg (by rw [hc]; decide)]

theorem isSpace_of_isDigit {c : UInt8} (h : isDigit c = true) : isSpace c = false := by
  by_contra hspace
  rw [isDigit_of_isSpace (Bool.not_eq_false _ ▸ hspace)] at h
  cases h

/-- **What `strtol` returns** is the number that stands there, as far as it fits. -/
theorem strtol_of_numberStands {text : Bytes} {x : Int} (h : NumberStands text x) :
    strtol text = max longMin (min longMax x) := by
  obtain ⟨blanks, sign, digits, rest, rfl, hblanks, hne, hdigits, hrest, hx⟩ := h
  obtain ⟨d, more, rfl⟩ := List.exists_cons_of_ne_nil hne
  have hd : isDigit d = true := hdigits d (List.mem_cons_self ..)
  have hvalue := takeWhile_append_of_stop hdigits hrest
  have hle : (0 : Int) ≤ digitsValue (d :: more) := Int.natCast_nonneg _
  have hbegin : ∀ c ∈ (sign ++ (d :: more ++ rest)).head?, isSpace c = false := by
    rcases hx with ⟨rfl | rfl, -⟩ | ⟨rfl, -⟩
    · rintro c ⟨⟩
      exact isSpace_of_isDigit hd
    · rintro c ⟨⟩
      rfl
    · rintro c ⟨⟩
      rfl
  have hdrop := dropWhile_append_of_stop hblanks hbegin
  rcases hx with ⟨rfl | rfl, rfl⟩ | ⟨rfl, rfl⟩
  · have hhead : ((blanks ++ ([] ++ (d :: more ++ rest))).dropWhile isSpace).head? = some d := by
      rw [hdrop]
      rfl
    rw [strtol_of_unsigned, hdrop, List.nil_append, hvalue, longMax, longMin]
    · omega
    · rw [hhead]
      rintro ⟨⟩
      exact absurd hd (by decide)
    · rw [hhead]
      rintro ⟨⟩
      exact absurd hd (by decide)
  · rw [strtol, hdrop, List.singleton_append]
    show min longMax (digitsValue ((d :: more ++ rest).takeWhile isDigit) : Int) = _
    rw [hvalue, longMax, longMin]
    omega
  · rw [strtol, hdrop, List.singleton_append]
    show max longMin (-(digitsValue ((d :: more ++ rest).takeWhile isDigit) : Int)) = _
    rw [hvalue, longMax, longMin]
    omega

theorem head?_dropWhile_eq_false {p : UInt8 → Bool} (s : Bytes) :
    ∀ c ∈ (s.dropWhile p).head?, p c = false := by
  intro c hc
  rw [Option.mem_def] at hc
  have := List.head?_dropWhile_not p s
  rw [hc] at this
  simpa using this

/-- Behind blanks and a sign, what stands there is a number or begins with no digit. -/
theorem digitsValue_of_not_numberStands {text sign t : Bytes}
    (hs : text.dropWhile isSpace = sign ++ t) (hsign : (sign = [] ∨ sign = [43]) ∨ sign = [45])
    (h : ∀ x, ¬ NumberStands text x) : digitsValue (t.takeWhile isDigit) = 0 := by
  by_cases hne : t.takeWhile isDigit = []
  · rw [hne]
    rfl
  · have hparts : ∀ x : Int, ((sign = [] ∨ sign = [43]) ∧ x = digitsValue (t.takeWhile isDigit) ∨
        sign = [45] ∧ x = -(digitsValue (t.takeWhile isDigit) : Int)) → NumberStands text x := by
      intro x hx
      refine ⟨text.takeWhile isSpace, sign, t.takeWhile isDigit, t.dropWhile isDigit, ?_,
        fun c hc => List.mem_takeWhile_imp hc, hne, fun c hc => List.mem_takeWhile_imp hc,
        head?_dropWhile_eq_false t, hx⟩
      rw [List.takeWhile_append_dropWhile, ← hs, List.takeWhile_append_dropWhile]
    obtain hplus | hminus := hsign
    · exact absurd (hparts _ (.inl ⟨hplus, rfl⟩)) (h _)
    · exact absurd (hparts _ (.inr ⟨hminus, rfl⟩)) (h _)

theorem strtol_of_not_numberStands {text : Bytes} (h : ∀ x, ¬ NumberStands text x) : strtol text = 0 := by
  rw [strtol]
  split
  · rename_i t hs
    rw [@digitsValue_of_not_numberStands _ [45] _ hs (.inr rfl) h]
    rfl
  · rename_i t hs
    rw [@digitsValue_of_not_numberStands _ [43] _ hs (.inl (.inr rfl)) h]
    rfl
  · rename_i hs
    rw [@digitsValue_of_not_numberStands _ [] _ rfl (.inl (.inl rfl)) h]
    rfl

/-- **`strtol` returns `n`** where `n` stands, or a number beyond all that it can return and `n` is the
last of these, or no number and `n` is 0. -/
theorem strtol_eq_natCast_iff {text : Bytes} {n : Nat} : strtol text = n ↔
    (∃ x, NumberStands text x ∧ min longMax x = n) ∨ n = 0 ∧ ∀ x, ¬ NumberStands text x := by
  by_cases hex : ∃ x, NumberStands text x
  · obtain ⟨x, hx⟩ := hex
    rw [strtol_of_numberStands hx]
    constructor
    · intro hn
      refine .inl ⟨x, hx, ?_⟩
      rw [longMax, longMin] at *
      omega
    · rintro (⟨y, hy, hn⟩ | ⟨-, hnone⟩)
      · have hsame := (strtol_of_numberStands hx).symm.trans (strtol_of_numberStands hy)
        rw [hsame, hn, longMin]
        omega
      · exact absurd hx (hnone x)
  · have hnone : ∀ x, ¬ NumberStands text x := fun x hx => hex ⟨x, hx⟩
    rw [strtol_of_not_numberStands hnone]
    constructor
    · intro hn
      exact .inr ⟨by omega, hnone⟩
    · rintro (⟨x, hx, -⟩ | ⟨rfl, -⟩)
      · exact absurd hx (hnone x)
      · rfl

/-! ## Fields with a number -/

/-- The value is the number, with blanks around it. -/
def ValueNumber (v : Bytes) (n : Nat) : Prop :=
  ∃ blanks digits blanks' : Bytes, v = blanks ++ (digits ++ blanks') ∧
    (∀ c ∈ blanks, isSpace c = true) ∧ (∀ c ∈ blanks', isSpace c = true) ∧
    digits ≠ [] ∧ (∀ c ∈ digits, isDigit c = true) ∧ digitsValue digits = n

/-- The line is a field with the number. -/
def FieldNumber (line : Bytes) (n : Nat) : Prop :=
  ∃ name v : Bytes, line = name ++ 58 :: v ∧ 58 ∉ name ∧ ValueNumber v n

/-- **A value is a decimal number** where it is digits with blanks around them. -/
theorem decimal_trim_iff {v : Bytes} {n : Nat} : decimal (trim v) = some n ↔ ValueNumber v n := by
  constructor
  · intro h
    obtain ⟨hne, hdigits, hn⟩ := decimal_eq_some h
    obtain ⟨blanks', hblanks', hspace⟩ := trim_append v
    refine ⟨v.takeWhile isSpace, trim v, blanks', ?_, fun c hc => List.mem_takeWhile_imp hc, hspace, hne,
      hdigits, hn⟩
    rw [← hblanks', List.takeWhile_append_dropWhile]
  · rintro ⟨blanks, digits, blanks', rfl, hblanks, hblanks', hne, hdigits, rfl⟩
    have hhead : ∀ c ∈ (digits ++ blanks').head?, isSpace c = false := by
      intro c hc
      rw [List.head?_append_of_ne_nil _ hne] at hc
      exact isSpace_of_isDigit (hdigits c (List.mem_of_head? hc))
    have hlast : ∀ c ∈ digits.reverse.head?, isSpace c = false := fun c hc =>
      isSpace_of_isDigit (hdigits c (List.mem_reverse.1 (List.mem_of_head? hc)))
    have htrim : trim (blanks ++ (digits ++ blanks')) = digits := by
      rw [trim, dropWhile_append_of_stop hblanks hhead, List.reverse_append,
        dropWhile_append_of_stop (fun c hc => hblanks' c (List.mem_reverse.1 hc)) hlast,
        List.reverse_reverse]
    rw [htrim, decimal, if_pos]
    rw [Bool.and_eq_true, List.all_eq_true]
    exact ⟨by simpa using hne, hdigits⟩

theorem trim_dropWhile_spaces (v : Bytes) : trim (v.dropWhile (· == 32)) = trim v := by
  rw [trim, dropWhile_isSpace_spaces, trim]

/-- The value of a field is what stands behind the first colon. -/
theorem fieldNumber_iff {line : Bytes} {i n : Nat} (hi : strchr 58 line = some i) :
    FieldNumber line n ↔ ValueNumber (line.drop (i + 1)) n := by
  obtain ⟨hline, hname⟩ := strchr_eq_some hi
  constructor
  · rintro ⟨name, v, rfl, hcolon, hv⟩
    obtain rfl := Option.some.inj ((strchr_append hcolon v).symm.trans hi)
    rwa [List.append_cons, List.drop_left' (by rw [List.length_append]; rfl)]
  · exact fun hv => ⟨_, _, hline, hname, hv⟩

end Http

import Mathlib.Algebra.Group.Int.Defs
import Mathlib.Algebra.Group.Nat.Defs
import Mathlib.Data.List.Infix
import Mathlib.Data.List.TakeWhile

/-!
# Bytes and C strings

The C library functions a server reads its input with, on lists of bytes.  A memory area is the
list of its bytes; the C string that starts at its head is what stands before the first zero byte
(`cstr`).  The functions that C declares on strings are stated here on the string itself, so a
caller that holds memory applies `cstr` first.

`strstr` is the one the proofs work with: `strstr_eq_some_iff` says that it returns the first
offset at which the pattern occurs, `strstr_mono` that more text behind the string does not
move an occurrence that was already there, and `strstr_take` that cutting the text behind the
occurrence does not lose it.
-/

set_option autoImplicit false

/-- A memory area, a string or a piece of a byte stream. -/
abbrev Bytes := List UInt8

namespace CString

/-- The bytes of a text literal. -/
def ascii (s : String) : Bytes := s.toList.map fun c => c.toNat.toUInt8

/-- A literal is made of its characters: the kernel need not decode it. -/
theorem ascii_eq {s : String} {l : List Char} (h : s = String.ofList l) :
    ascii s = l.map fun c => c.toNat.toUInt8 := by
  rw [ascii, h, String.toList_ofList]

theorem length_ascii {s : String} {l : List Char} (h : s = String.ofList l) :
    (ascii s).length = l.length := by
  rw [ascii_eq h, List.length_map]

/-- A statement on the bytes of a text is decided along the text, not over all bytes. -/
instance (priority := 2000) decidableForallMem (s : Bytes) (p : UInt8 → Prop) [DecidablePred p] :
    Decidable (∀ c ∈ s, p c) :=
  List.decidableBAll p s

instance (priority := 2000) decidableExistsMem (s : Bytes) (p : UInt8 → Prop) [DecidablePred p] :
    Decidable (∃ c ∈ s, p c) :=
  List.decidableBEx p s

/-- A statement on bytes is decided byte by byte. -/
theorem forall_byte {P : UInt8 → Prop} (h : ∀ n : Fin 256, P (UInt8.ofNat n)) (c : UInt8) : P c := by
  have hc := h ⟨c.toNat, c.toNat_lt⟩
  rwa [UInt8.ofNat_toNat] at hc

def cr : UInt8 := 13
def lf : UInt8 := 10

/-- The line end of HTTP. -/
def crlf : Bytes := [cr, lf]

/-- The empty line that ends a header block, with the line end before it. -/
def crlfcrlf : Bytes := [cr, lf, cr, lf]

/-! ## Zero-terminated strings -/

/-- The C string at the head of a memory area. -/
def cstr (mem : Bytes) : Bytes := mem.takeWhile (· != 0)

theorem zero_notMem_cstr (mem : Bytes) : (0 : UInt8) ∉ cstr mem := fun h => by
  simpa using List.mem_takeWhile_imp h

theorem cstr_isPrefix (mem : Bytes) : cstr mem <+: mem := List.takeWhile_prefix _

theorem ne_zero_of_notMem {s : Bytes} (h : (0 : UInt8) ∉ s) : ∀ c ∈ s, (c != 0) = true := by
  intro c hc
  simp only [bne_iff_ne, ne_eq]
  rintro rfl
  exact h hc

theorem cstr_eq_self {s : Bytes} (h : (0 : UInt8) ∉ s) : cstr s = s :=
  List.takeWhile_eq_self_iff.2 (ne_zero_of_notMem h)

theorem cstr_append {s : Bytes} (h : (0 : UInt8) ∉ s) (rest : Bytes) :
    cstr (s ++ rest) = s ++ cstr rest :=
  List.takeWhile_append_of_pos (ne_zero_of_notMem h)

/-- A string followed by its terminator reads as that string, whatever comes after. -/
theorem cstr_append_zero {s : Bytes} (h : (0 : UInt8) ∉ s) (rest : Bytes) :
    cstr (s ++ 0 :: rest) = s := by
  rw [cstr_append h, cstr, List.takeWhile_cons_of_neg (by simp), List.append_nil]

/-- A terminator in memory ends a string there. -/
theorem exists_eq_cstr_append {mem : Bytes} (h : (0 : UInt8) ∈ mem) : ∃ t, mem = cstr mem ++ 0 :: t := by
  obtain ⟨s, t, hmem, hs⟩ := List.eq_append_cons_of_mem h
  refine ⟨t, ?_⟩
  conv_lhs => rw [hmem]
  rw [hmem, cstr_append_zero hs]

/-- Once the terminator is inside, more memory behind changes nothing. -/
theorem cstr_append_of_mem {a : Bytes} (h : (0 : UInt8) ∈ a) (rest : Bytes) :
    cstr (a ++ rest) = cstr a := by
  induction a with
  | nil => simp at h
  | cons c a ih =>
    by_cases hc : c = 0
    · subst hc
      simp [cstr]
    · have ha : (0 : UInt8) ∈ a := (List.mem_cons.1 h).resolve_left fun e => hc e.symm
      have := ih ha
      simp only [cstr] at this
      simp [cstr, hc, this]

/-- A terminator behind the string is not part of it. -/
@[simp] theorem cstr_append_terminator (a : Bytes) : cstr (a ++ [0]) = cstr a := by
  by_cases h : (0 : UInt8) ∈ a
  · exact cstr_append_of_mem h [0]
  · rw [cstr_append_zero h, cstr_eq_self h]

/-- Reading on in the same memory extends the string at its head. -/
theorem cstr_mono {a b : Bytes} (h : a <+: b) : cstr a <+: cstr b := by
  obtain ⟨t, rfl⟩ := h
  by_cases ha : (0 : UInt8) ∈ a
  · rw [cstr_append_of_mem ha]
  · rw [cstr_append ha, cstr_eq_self ha]
    exact List.prefix_append _ _

/-! ## Searching -/

/-- `strstr`: the offset of the first occurrence of the pattern. -/
def strstr (pat : Bytes) : Bytes → Option Nat
  | [] => if pat.isEmpty then some 0 else none
  | c :: s => if pat.isPrefixOf (c :: s) then some 0 else (strstr pat s).map (· + 1)

/-- `strchr`, as the offset of the first occurrence of the byte. -/
def strchr (c : UInt8) (s : Bytes) : Option Nat := s.findIdx? (· == c)

theorem strstr_eq_some_iff {pat : Bytes} : ∀ {s : Bytes} {i : Nat},
    strstr pat s = some i ↔
      i ≤ s.length ∧ pat <+: s.drop i ∧ ∀ j, j < i → ¬ pat <+: s.drop j
  | [], i => by
    rw [strstr]
    split
    · rename_i h
      rw [List.isEmpty_iff.1 h]
      simp only [Option.some.injEq, List.length_nil, Nat.le_zero, List.nil_prefix, true_and,
        not_true]
      constructor
      · rintro rfl
        exact ⟨rfl, fun j hj => absurd hj (by omega)⟩
      · rintro ⟨rfl, _⟩
        rfl
    · rename_i h
      simp only [reduceCtorEq, List.drop_nil, List.prefix_nil, false_iff, not_and]
      intro _ hp
      exact absurd (List.isEmpty_iff.2 hp) h
  | c :: s, i => by
    rw [strstr]
    by_cases h : pat <+: c :: s
    · rw [if_pos (List.isPrefixOf_iff_prefix.2 h), Option.some.injEq]
      constructor
      · rintro rfl
        exact ⟨Nat.zero_le _, h, fun j hj => absurd hj (by omega)⟩
      · rintro ⟨_, _, hj⟩
        by_contra hne
        exact hj 0 (by omega) h
    · rw [if_neg (fun hp => h (List.isPrefixOf_iff_prefix.1 hp)), Option.map_eq_some_iff]
      constructor
      · rintro ⟨k, hk, rfl⟩
        obtain ⟨hl, hp, hj⟩ := strstr_eq_some_iff.1 hk
        refine ⟨by simpa using hl, by simpa using hp, fun j hjk => ?_⟩
        cases j with
        | zero => exact h
        | succ j => simpa using hj j (by omega)
      · rintro ⟨hl, hp, hj⟩
        cases i with
        | zero => exact absurd hp h
        | succ i =>
          refine ⟨i, strstr_eq_some_iff.2 ⟨by simpa using hl, by simpa using hp, fun j hji => ?_⟩,
            rfl⟩
          simpa using hj (j + 1) (by omega)

/-- An occurrence lies inside the text. -/
theorem strstr_add_le {pat s : Bytes} {i : Nat} (h : strstr pat s = some i) :
    i + pat.length ≤ s.length := by
  obtain ⟨hl, hp, _⟩ := strstr_eq_some_iff.1 h
  have := hp.length_le
  rw [List.length_drop] at this
  omega

/-- What begins a text and does not have a byte in it ends before that byte. -/
theorem prefix_of_notMem {pat a b : Bytes} {c : UInt8} (hc : c ∉ pat) (h : pat <+: a ++ c :: b) :
    pat <+: a := by
  obtain hp | ⟨t, rfl⟩ := List.prefix_or_prefix_of_prefix h (List.prefix_append a (c :: b))
  · exact hp
  · cases t with
    | nil => exact ⟨[], by simp⟩
    | cons d t =>
      rw [List.prefix_append_right_inj] at h
      obtain ⟨rfl, -⟩ := List.cons_prefix_cons.1 h
      exact absurd (List.mem_append_right a (List.mem_cons_self ..)) hc

/-- An occurrence is on one side of a byte that is not in the pattern. -/
theorem infix_of_notMem {pat a b : Bytes} {c : UInt8} (hc : c ∉ pat) (h : pat <:+: a ++ c :: b) :
    pat <:+: a ∨ pat <:+: b := by
  induction a with
  | nil =>
    obtain hp | hi := List.infix_cons_iff.1 h
    · exact Or.inl (prefix_of_notMem (a := []) hc hp).isInfix
    · exact Or.inr hi
  | cons d a ih =>
    obtain hp | hi := List.infix_cons_iff.1 h
    · exact Or.inl (prefix_of_notMem (a := d :: a) hc hp).isInfix
    · exact (ih hi).imp_left fun ha => ha.trans (List.suffix_cons d a).isInfix

/-- An occurrence is one for every text that starts the same. -/
theorem prefix_drop_mono {pat s t : Bytes} {i : Nat} (hst : s <+: t)
    (h : pat <+: s.drop i) : pat <+: t.drop i :=
  h.trans (hst.drop i)

/-- An occurrence that ends inside a prefix of the text is one in that prefix. -/
theorem prefix_drop_take {pat t : Bytes} {i m : Nat} (h : pat <+: t.drop i)
    (hm : i + pat.length ≤ m) : pat <+: (t.take m).drop i := by
  rw [List.drop_take]
  exact List.prefix_take_iff.2 ⟨h, by omega⟩

/-- Whatever follows the text, the first occurrence stays where it is. -/
theorem strstr_mono {pat s t : Bytes} {i : Nat} (hst : s <+: t)
    (h : strstr pat s = some i) : strstr pat t = some i := by
  have hlen := strstr_add_le h
  obtain ⟨hl, hp, hj⟩ := strstr_eq_some_iff.1 h
  refine strstr_eq_some_iff.2 ⟨hl.trans hst.length_le, prefix_drop_mono hst hp, ?_⟩
  intro j hji hpj
  refine hj j hji ?_
  obtain ⟨u, rfl⟩ := hst
  have := prefix_drop_take hpj (m := s.length) (by omega)
  simpa using this

/-- Cutting the text behind the first occurrence does not lose it. -/
theorem strstr_take {pat t : Bytes} {i m : Nat} (h : strstr pat t = some i)
    (hm : i + pat.length ≤ m) : strstr pat (t.take m) = some i := by
  have hlen := strstr_add_le h
  obtain ⟨hl, hp, hj⟩ := strstr_eq_some_iff.1 h
  refine strstr_eq_some_iff.2 ⟨by rw [List.length_take]; omega, prefix_drop_take hp hm, ?_⟩
  intro j hji hpj
  exact hj j hji (prefix_drop_mono (List.take_prefix m t) hpj)

/-- A text with an occurrence of the pattern is searched with success. -/
theorem strstr_isSome_of_prefix_drop {pat s : Bytes} {i : Nat} (hi : i ≤ s.length)
    (h : pat <+: s.drop i) : ∃ j, j ≤ i ∧ strstr pat s = some j := by
  induction i using Nat.strongRecOn with
  | ind i ih =>
    by_cases hex : ∃ j, j < i ∧ pat <+: s.drop j
    · obtain ⟨j, hj, hp⟩ := hex
      obtain ⟨k, hk, hs⟩ := ih j hj (by omega) hp
      exact ⟨k, by omega, hs⟩
    · exact ⟨i, Nat.le_refl i,
        strstr_eq_some_iff.2 ⟨hi, h, fun j hj hp => hex ⟨j, hj, hp⟩⟩⟩

/-- A search has a result if and only if there is an occurrence. -/
theorem strstr_isSome_iff {pat s : Bytes} : (strstr pat s).isSome = true ↔ pat <:+: s := by
  constructor
  · intro h
    obtain ⟨i, hi⟩ := Option.isSome_iff_exists.1 h
    exact (strstr_eq_some_iff.1 hi).2.1.isInfix.trans (List.drop_suffix i s).isInfix
  · rintro ⟨a, b, rfl⟩
    obtain ⟨j, -, hj⟩ := @strstr_isSome_of_prefix_drop pat (a ++ pat ++ b) a.length
      (by simp only [List.length_append]; omega)
      (by rw [List.append_assoc, List.drop_left]; exact List.prefix_append _ _)
    rw [hj]
    rfl

/-- Where the pattern does not occur at first, the search may begin behind. -/
theorem strstr_drop {pat s : Bytes} {k : Nat} (hk : k ≤ s.length)
    (h : ∀ j, j < k → ¬ pat <+: s.drop j) : strstr pat s = (strstr pat (s.drop k)).map (· + k) := by
  induction k generalizing s with
  | zero => simp
  | succ k ih =>
    cases s with
    | nil => simp at hk
    | cons c s =>
      have hc : ¬ pat.isPrefixOf (c :: s) = true := fun hp =>
        h 0 (Nat.succ_pos k) (List.isPrefixOf_iff_prefix.1 hp)
      rw [strstr, if_neg hc, List.drop_succ_cons,
        ih (by simpa using hk) fun j hj hp => h (j + 1) (by omega) hp, Option.map_map]
      rfl

theorem strchr_append {c : UInt8} {a : Bytes} (h : c ∉ a) (b : Bytes) :
    strchr c (a ++ c :: b) = some a.length := by
  induction a with
  | nil =>
    rw [List.nil_append, strchr, List.findIdx?_cons, beq_self_eq_true, if_pos rfl]
    rfl
  | cons d a ih =>
    rw [List.mem_cons, not_or] at h
    have hd : (d == c) = false := beq_eq_false_iff_ne.2 fun he => h.1 he.symm
    rw [strchr] at ih ⊢
    rw [List.cons_append, List.findIdx?_cons, hd, ih h.2]
    rfl

theorem strchr_eq_none_iff {c : UInt8} {s : Bytes} : strchr c s = none ↔ c ∉ s := by
  rw [strchr, List.findIdx?_eq_none_iff]
  exact ⟨fun h hc => by simpa using h c hc, fun h d hd => by
    simpa using fun he : d = c => h (he ▸ hd)⟩

/-- The byte that is found parts the text. -/
theorem strchr_eq_some {c : UInt8} {s : Bytes} {i : Nat} (h : strchr c s = some i) :
    s = s.take i ++ c :: s.drop (i + 1) ∧ c ∉ s.take i := by
  obtain ⟨hlt, hi, hbefore⟩ := List.findIdx?_eq_some_iff_getElem.1 h
  rw [beq_iff_eq] at hi
  refine ⟨?_, fun hmem => ?_⟩
  · rw [← hi, ← List.drop_eq_getElem_cons hlt, List.take_append_drop]
  · obtain ⟨j, hj, hget⟩ := List.mem_iff_getElem.1 hmem
    rw [List.length_take] at hj
    rw [List.getElem_take] at hget
    exact hbefore j (by omega) (beq_iff_eq.2 hget)

/-! ## Lines -/

/-- The lines of a text, by searching for each next line end. -/
def splitLines : Bytes → List Bytes
  | [] => [[]]
  | [c] => [[c]]
  | c :: d :: s =>
    if c == cr && d == lf then [] :: splitLines s
    else match splitLines (d :: s) with
      | line :: lines => (c :: line) :: lines
      | [] => [[c]]

/-! ## Numbers

`long` has 64 bits and `int` has 32; `strtol` saturates, and `atoi` is `strtol` cast to `int`. -/

def longMax : Int := 2 ^ 63 - 1
def longMin : Int := -2 ^ 63

/-- The value of a 64-bit register after a computation that may have overflowed. -/
def toLong (x : Int) : Int := (x + 2 ^ 63) % 2 ^ 64 - 2 ^ 63

/-- The value of a 32-bit register after a cast. -/
def toInt (x : Int) : Int := (x + 2 ^ 31) % 2 ^ 32 - 2 ^ 31

theorem toLong_eq_self {x : Int} (h1 : longMin ≤ x) (h2 : x ≤ longMax) : toLong x = x := by
  simp only [longMin, longMax] at h1 h2
  rw [toLong, Int.emod_eq_of_lt (by omega) (by omega)]
  omega

theorem toLong_le (x : Int) : toLong x ≤ longMax := by
  rw [toLong, longMax]
  omega

/-- A `char` promoted to `int` and added to an `unsigned int`. -/
def promotedChar (c : UInt8) : UInt32 := if c < 128 then c.toUInt32 else c.toUInt32 + 0xFFFFFF00

def isSpace (c : UInt8) : Bool := c == 32 || (9 ≤ c && c ≤ 13)
def isDigit (c : UInt8) : Bool := 48 ≤ c && c ≤ 57

/-- The number a run of decimal digits denotes. -/
def digitsValue (s : Bytes) : Nat := s.foldl (fun n c => 10 * n + (c.toNat - 48)) 0

/-- `strtol(s, NULL, 10)`: blanks, an optional sign and digits, saturated to `long`. -/
def strtol (s : Bytes) : Int :=
  match s.dropWhile isSpace with
  | 45 :: t => max longMin (-(digitsValue (t.takeWhile isDigit) : Int))
  | 43 :: t => min longMax (digitsValue (t.takeWhile isDigit))
  | t => min longMax (digitsValue (t.takeWhile isDigit))

/-- `atoi`. -/
def atoi (s : Bytes) : Int := toInt (strtol s)

theorem le_strtol (s : Bytes) : longMin ≤ strtol s := by
  rw [strtol, longMax, longMin]
  split <;> omega

/-- A number below 2^31 is an `int`. -/
theorem toInt_natCast {n : Nat} (h : n < 2 ^ 31) : toInt n = n := by
  rw [toInt]
  omega

theorem toInt_le {x : Int} (h : 0 ≤ x) : toInt x ≤ x := by
  rw [toInt]
  omega

theorem isDigit_of_isSpace {c : UInt8} (h : isSpace c = true) : isDigit c = false := by
  rw [isSpace, Bool.or_eq_true, beq_iff_eq, Bool.and_eq_true, decide_eq_true_eq, decide_eq_true_eq,
    UInt8.le_iff_toNat_le, UInt8.le_iff_toNat_le] at h
  rw [isDigit, Bool.and_eq_false_iff, decide_eq_false_iff_not, UInt8.le_iff_toNat_le]
  obtain rfl | ⟨-, hle⟩ := h
  · exact Or.inl (by decide)
  · exact Or.inl (Nat.not_le.2 (Nat.lt_of_le_of_lt hle (by decide)))

/-- Spaces are among the blanks `strtol` passes over. -/
theorem dropWhile_isSpace_spaces (s : Bytes) :
    (s.dropWhile (· == 32)).dropWhile isSpace = s.dropWhile isSpace := by
  induction s with
  | nil => rfl
  | cons c s ih =>
    by_cases hc : c = 32
    · subst hc
      exact ih
    · rw [List.dropWhile_cons, if_neg (by simpa using hc)]

/-- More digits, more value. -/
theorem digitsValue_mono {a b : Bytes} (h : a <+: b) : digitsValue a ≤ digitsValue b := by
  have hle : ∀ (s : Bytes) (n : Nat), n ≤ s.foldl (fun n c => 10 * n + (c.toNat - 48)) n := by
    intro s
    induction s with
    | nil => exact fun n => Nat.le_refl n
    | cons c s ih => exact fun n => Nat.le_trans (show n ≤ 10 * n + (c.toNat - 48) by omega) (ih _)
  obtain ⟨t, rfl⟩ := h
  rw [digitsValue, digitsValue, List.foldl_append]
  exact hle t _

/-- A number without a sign. -/
theorem strtol_of_unsigned {s : Bytes} (h45 : (s.dropWhile isSpace).head? ≠ some 45)
    (h43 : (s.dropWhile isSpace).head? ≠ some 43) :
    strtol s = min longMax (digitsValue ((s.dropWhile isSpace).takeWhile isDigit)) := by
  rw [strtol]
  split
  · rename_i heq
    exact absurd (congrArg List.head? heq) h45
  · rename_i heq
    exact absurd (congrArg List.head? heq) h43
  · rfl

theorem takeWhile_prefix_of_prefix {a b : Bytes} (p : UInt8 → Bool) (h : a <+: b) :
    a.takeWhile p <+: b.takeWhile p := by
  obtain ⟨t, rfl⟩ := h
  rw [List.takeWhile_append]
  split_ifs
  · exact (List.takeWhile_prefix p).trans (List.prefix_append _ _)
  · exact List.prefix_rfl

/-- Of a text that was cut, no more is left behind its first bytes. -/
theorem dropWhile_take_prefix (p : UInt8 → Bool) (s : Bytes) (n : Nat) :
    (s.take n).dropWhile p <+: s.dropWhile p := by
  induction s generalizing n with
  | nil => simp
  | cons c s ih =>
    cases n with
    | zero => exact List.nil_prefix
    | succ n =>
      rw [List.take_succ_cons, List.dropWhile_cons, List.dropWhile_cons]
      split_ifs
      · exact ih n
      · exact List.cons_prefix_cons.2 ⟨rfl, List.take_prefix n s⟩

/-- `%d` and `%ld`. -/
def printDecimal (n : Int) : Bytes :=
  let digits := (Nat.toDigits 10 n.natAbs).map fun c => c.toNat.toUInt8
  if n < 0 then 45 :: digits else digits

/-- A digit fits a byte. -/
theorem toNat_of_isDigit {d : Char} (h : d.isDigit = true) :
    d.toNat.toUInt8.toNat = d.toNat ∧ 48 ≤ d.toNat ∧ d.toNat ≤ 57 := by
  obtain ⟨hlo, hhi⟩ := Char.isDigit_iff_toNat.1 h
  have h0 : '0'.toNat = 48 := rfl
  have h9 : '9'.toNat = 57 := rfl
  rw [Nat.toUInt8_eq, UInt8.toNat_ofNat']
  omega

/-- A number is printed with digits, and a sign where it needs one. -/
theorem mem_printDecimal {n : Int} {c : UInt8} (h : c ∈ printDecimal n) : c = 45 ∨ 48 ≤ c ∧ c ≤ 57 := by
  have hdigit : c ∈ (Nat.toDigits 10 n.natAbs).map (fun c => c.toNat.toUInt8) → 48 ≤ c ∧ c ≤ 57 := by
    intro hc
    obtain ⟨d, hd, rfl⟩ := List.mem_map.1 hc
    obtain ⟨hnat, hlo, hhi⟩ :=
      toNat_of_isDigit (Nat.isDigit_of_mem_toDigits (by decide) (by decide) hd)
    rw [UInt8.le_iff_toNat_le, UInt8.le_iff_toNat_le, hnat]
    exact ⟨hlo, hhi⟩
  rw [printDecimal] at h
  split at h
  · exact (List.mem_cons.1 h).imp_right hdigit
  · exact Or.inr (hdigit h)

/-- A number that is not negative is printed with its digits. -/
theorem printDecimal_natCast (n : Nat) :
    printDecimal n = (Nat.toDigits 10 n).map fun c => c.toNat.toUInt8 := by
  rw [printDecimal, if_neg (Int.not_lt.2 (Int.natCast_nonneg n)), Int.natAbs_natCast]

theorem isDigit_of_mem_printDecimal {n : Nat} {c : UInt8} (h : c ∈ printDecimal n) :
    isDigit c = true := by
  obtain rfl | ⟨hlo, hhi⟩ := mem_printDecimal h
  · rw [printDecimal_natCast] at h
    obtain ⟨d, hd, h45⟩ := List.mem_map.1 h
    obtain ⟨hnat, hlo, -⟩ :=
      toNat_of_isDigit (Nat.isDigit_of_mem_toDigits (by decide) (by decide) hd)
    rw [h45] at hnat
    exact absurd (hnat ▸ hlo) (by decide)
  · simp [isDigit, hlo, hhi]

/-- **What is printed denotes the number.** -/
theorem digitsValue_printDecimal (n : Nat) : digitsValue (printDecimal n) = n := by
  have hbytes : ∀ (l : List Char) (m : Nat), (∀ d ∈ l, d.isDigit = true) →
      (l.map fun c => c.toNat.toUInt8).foldl (fun n c => 10 * n + (c.toNat - 48)) m =
        Nat.ofDigitChars 10 l m := by
    intro l
    induction l with
    | nil => simp
    | cons d l ih =>
      intro m hdigits
      rw [List.map_cons, List.foldl_cons, (toNat_of_isDigit (hdigits d List.mem_cons_self)).1,
        ih _ fun c hc => hdigits c (List.mem_cons_of_mem _ hc), Nat.ofDigitChars_cons]
      rfl
  rw [digitsValue, printDecimal_natCast,
    hbytes _ 0 fun d hd => Nat.isDigit_of_mem_toDigits (by decide) (by decide) hd,
    Nat.ofDigitChars_ten_toDigits]

theorem length_printDecimal_le_iff {n k : Nat} (hk : 0 < k) :
    (printDecimal n).length ≤ k ↔ n < 10 ^ k := by
  rw [printDecimal_natCast, List.length_map, Nat.length_toDigits_le_iff (by decide) hk]

/-- An `int` is printed with eleven bytes at most. -/
theorem length_printDecimal_int {n : Int} (hlo : -2 ^ 31 ≤ n) (hhi : n < 2 ^ 31) :
    (printDecimal n).length ≤ 11 := by
  have hdigits : (Nat.toDigits 10 n.natAbs).length ≤ 10 :=
    (Nat.length_toDigits_le_iff (by decide) (by decide)).2 (by omega)
  rw [printDecimal]
  split
  · rw [List.length_cons, List.length_map]
    omega
  · rw [List.length_map]
    omega

/-! ## Letter case -/

def toLower (c : UInt8) : UInt8 := if 65 ≤ c && c ≤ 90 then c + 32 else c

/-- `strcasecmp(a, b) == 0`. -/
def strcaseeq (a b : Bytes) : Bool := a.map toLower == b.map toLower

theorem length_eq_of_strcaseeq {a b : Bytes} (h : strcaseeq a b = true) : a.length = b.length := by
  have := congrArg List.length (beq_iff_eq.1 h)
  rwa [List.length_map, List.length_map] at this

end CString

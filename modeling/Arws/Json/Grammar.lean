import Arws.Json.Strings

/-!
# The texts of items

`Denotes` is the grammar: which texts stand for an item, with blanks between the tokens.  It is the grammar of
this parser, which has all texts of JSON and more: every byte up to a space is a blank, control bytes may stand
in a string as they are, and a number is whatever begins with a digit or a minus, has only bytes that
`parse_number` takes, and is taken by `strtod` as a whole, such as `01` or `1.`.  The parser is run on a text that
goes on behind the value, and reads the value and nothing behind it.

* `parseValue_denotes`, `parseElements_denotes`, `parseMembers_denotes` — the recursion of the parser, one
  constructor of the grammar at a time.
* `parse_document`, `cJsonParse_document` — every text that is not nested too deeply is read as its item, with
  blanks or a byte order mark in front of it.
-/

set_option autoImplicit false

namespace Arws
namespace Json

open CString Checked

variable {D : Type} {ops : Doubles D}

/-- Bytes that `buffer_skip_whitespace` skips. -/
def Blank (w : Bytes) : Prop := ∀ c ∈ w, c ≤ 32

instance (w : Bytes) : Decidable (Blank w) := inferInstanceAs (Decidable (∀ c ∈ w, _))

theorem blank_nil : Blank [] := fun _ h => nomatch h

/-- A text that `parse_value` takes for a number as a whole, if `strtod` does; JSON has fewer. -/
structure NumberSyntax (t : Bytes) : Prop where
  chars : ∀ c ∈ t, isNumberChar c = Bool.true
  head : ∃ c u, t = c :: u ∧ (c = 45 ∨ 48 ≤ c ∧ c ≤ 57)

/-- A colon with blanks. -/
inductive DenotesColon : Bytes → Prop
  | mk {w w' : Bytes} (hw : Blank w) (hw' : Blank w') : DenotesColon (w ++ 58 :: w')

mutual

/-- The texts of an item. -/
inductive Denotes (ops : Doubles D) : Item D → Bytes → Prop
  | null : Denotes ops .null (ascii "null")
  | false : Denotes ops .false (ascii "false")
  | true : Denotes ops .true (ascii "true")
  | number {d : D} {t : Bytes} (ht : NumberSyntax t) (hd : ops.strtod t = some (d, t.length)) :
      Denotes ops (.number d) t
  | string {s body : Bytes} (h : Reads body s) :
      Denotes ops (.string s) (JsonText.quote :: (body ++ [JsonText.quote]))
  | array {l : List (Item D)} {t : Bytes} (h : DenotesElements ops l t) :
      Denotes ops (.array l) (91 :: (t ++ [93]))
  | object {l : List (Bytes × Item D)} {t : Bytes} (h : DenotesMembers ops l t) :
      Denotes ops (.object l) (123 :: (t ++ [125]))

/-- The texts of the elements of an array. -/
inductive DenotesElements (ops : Doubles D) : List (Item D) → Bytes → Prop
  | nil {w : Bytes} (hw : Blank w) : DenotesElements ops [] w
  | last {w t w' : Bytes} {v : Item D} (hw : Blank w) (h : Denotes ops v t) (hw' : Blank w') :
      DenotesElements ops [v] (w ++ (t ++ w'))
  | more {w t w' u : Bytes} {v : Item D} {l : List (Item D)} (hw : Blank w) (h : Denotes ops v t)
      (hw' : Blank w') (hl : l ≠ []) (hu : DenotesElements ops l u) :
      DenotesElements ops (v :: l) (w ++ (t ++ (w' ++ 44 :: u)))

/-- The texts of the members of an object. -/
inductive DenotesMembers (ops : Doubles D) : List (Bytes × Item D) → Bytes → Prop
  | nil {w : Bytes} (hw : Blank w) : DenotesMembers ops [] w
  | last {w name s c t w' : Bytes} {v : Item D} (hw : Blank w) (hname : Reads name s) (hc : DenotesColon c)
      (h : Denotes ops v t) (hw' : Blank w') :
      DenotesMembers ops [(s, v)]
        (w ++ (JsonText.quote :: (name ++ JsonText.quote :: (c ++ (t ++ w')))))
  | more {w name s c t w' u : Bytes} {v : Item D} {l : List (Bytes × Item D)} (hw : Blank w)
      (hname : Reads name s) (hc : DenotesColon c) (h : Denotes ops v t) (hw' : Blank w') (hl : l ≠ [])
      (hu : DenotesMembers ops l u) :
      DenotesMembers ops ((s, v) :: l)
        (w ++ (JsonText.quote :: (name ++ JsonText.quote :: (c ++ (t ++ (w' ++ 44 :: u))))))

end

/-! ## The buffer, in terms of what is left of the text -/

namespace ParseBuffer

variable {b : ParseBuffer} {c : UInt8} {s t : Bytes}

theorem rest_advance (h : b.rest = s ++ t) : (b.advance s.length).rest = t := by
  rw [rest, advance, ← List.drop_drop, ← rest, h, List.drop_left]

theorem advance_advance (b : ParseBuffer) (n m : ℕ) : (b.advance n).advance m = b.advance (n + m) := by
  rw [advance, advance, advance, Nat.add_assoc]

theorem canAccessAtIndex_iff (b : ParseBuffer) (i : ℕ) : b.canAccessAtIndex i ↔ i < b.rest.length := by
  rw [canAccessAtIndex, length_rest]
  omega

theorem canAccess_of_cons (h : b.rest = c :: t) : b.canAccessAtIndex 0 := by
  rw [canAccessAtIndex_iff, h]
  exact Nat.succ_pos _

theorem read_of_cons (h : b.rest = c :: t) : b.read 0 = .ok c := by
  rw [read, h]
  rfl

theorem readsByte_of_cons (h : b.rest = c :: t) (d : UInt8) : b.readsByte d = .ok (c == d) := by
  rw [readsByte, if_pos (canAccess_of_cons h), read_of_cons h]
  rfl

theorem readsWord_of_append {word : Bytes} (h : b.rest = word ++ t) (hword : word ≠ []) : b.readsWord word := by
  refine ⟨?_, by rw [h, List.take_left]⟩
  have hlength := congrArg List.length h
  have hpos := List.length_pos_of_ne_nil hword
  rw [length_rest, List.length_append] at hlength
  rw [canRead]
  omega

theorem not_readsWord {word : Bytes} (h : b.rest = c :: t) (hword : word.head? ≠ some c) (hnil : word ≠ []) :
    ¬ b.readsWord word := by
  rintro ⟨-, htake⟩
  obtain ⟨d, word, rfl⟩ := List.exists_cons_of_ne_nil hnil
  rw [h, List.length_cons, List.take_succ_cons] at htake
  exact hword (congrArg some (List.cons.inj htake).1.symm)

theorem length_le_content (h : b.rest = s ++ t) : s.length ≤ b.content.length := by
  have hlength := congrArg List.length h
  rw [length_rest, List.length_append] at hlength
  exact le_trans (Nat.le_add_right ..) (hlength.symm.trans_le (Nat.sub_le ..))

end ParseBuffer

/-- **Blanks** are skipped up to the byte that is none. -/
theorem bufferSkipWhitespace_eq {b : ParseBuffer} {w t : Bytes} {c : UInt8} (h : b.rest = w ++ c :: t)
    (hw : Blank w) (hc : 32 < c) : bufferSkipWhitespace b = b.advance w.length := by
  have hlength := congrArg List.length h
  rw [length_rest, List.length_append, List.length_cons] at hlength
  have htake : b.rest.takeWhile (· ≤ 32) = w := by
    rw [h, List.takeWhile_append_of_pos fun a ha => decide_eq_true (hw a ha), List.takeWhile_cons,
      if_neg (by simpa using hc), List.append_nil]
  have hin : b.canAccessAtIndex 0 := show b.offset + 0 < b.content.length by omega
  rw [bufferSkipWhitespace, if_pos hin, htake]
  exact if_neg (show b.offset + w.length ≠ b.content.length by omega)

/-! ## How texts begin and end -/

/-- What stands behind a number. -/
def NumberEnds (tail : Bytes) : Prop := ∀ c ∈ tail.head?, isNumberChar c = Bool.false

theorem not_isNumberChar_of_le {c : UInt8} : c ≤ 32 → isNumberChar c = Bool.false := by
  have hbyte : ∀ c : UInt8, c ≤ 32 → isNumberChar c = Bool.false := forall_byte (by decide +kernel)
  exact hbyte c

theorem numberEnds_cons {c : UInt8} (hc : isNumberChar c = Bool.false) (t : Bytes) : NumberEnds (c :: t) := by
  rintro d hd
  cases hd
  exact hc

theorem numberEnds_blank {w t : Bytes} (hw : Blank w) (ht : NumberEnds t) : NumberEnds (w ++ t) := by
  cases w with
  | nil => exact ht
  | cons c w => exact numberEnds_cons (not_isNumberChar_of_le (hw c (List.mem_cons_self ..))) _

theorem takeWhile_number {t tail : Bytes} (ht : NumberSyntax t) (hend : NumberEnds tail) :
    (t ++ tail).takeWhile isNumberChar = t := by
  rw [List.takeWhile_append_of_pos ht.chars]
  cases tail with
  | nil => exact List.append_nil t
  | cons c tail => rw [List.takeWhile_cons, hend c rfl, if_neg Bool.false_ne_true, List.append_nil]

/-- The first byte of a value: no blank, and not the bracket that closes an array. -/
theorem Denotes.head {v : Item D} {t : Bytes} (h : Denotes ops v t) :
    ∃ c u, t = c :: u ∧ 32 < c ∧ c ≠ 93 := by
  cases h with
  | null | false | true => exact ⟨_, _, rfl, by decide, by decide⟩
  | string h => exact ⟨_, _, rfl, by decide, by decide⟩
  | array h => exact ⟨_, _, rfl, by decide, by decide⟩
  | object h => exact ⟨_, _, rfl, by decide, by decide⟩
  | number ht hd =>
    have hdigit : ∀ c : UInt8, c = 45 ∨ 48 ≤ c ∧ c ≤ 57 → 32 < c ∧ c ≠ 93 := forall_byte (by decide +kernel)
    obtain ⟨c, u, rfl, hc⟩ := ht.head
    exact ⟨c, u, rfl, hdigit c hc⟩

/-- Elements without the blanks in front of the first. -/
theorem DenotesElements.trim {l : List (Item D)} {t : Bytes} (h : DenotesElements ops l t) (hl : l ≠ []) :
    ∃ w c u, t = w ++ c :: u ∧ Blank w ∧ 32 < c ∧ c ≠ 93 ∧ DenotesElements ops l (c :: u) := by
  cases h with
  | nil hw => exact absurd rfl hl
  | @last w t w' v hw h hw' =>
    obtain ⟨c, u, rfl, hc, hclose⟩ := h.head
    exact ⟨w, c, u ++ w', rfl, hw, hc, hclose, .last (w := []) (fun _ h => nomatch h) h hw'⟩
  | @more w t w' u v l hw h hw' hmore hu =>
    obtain ⟨c, t, rfl, hc, hclose⟩ := h.head
    exact ⟨w, c, _, rfl, hw, hc, hclose, .more (w := []) (fun _ h => nomatch h) h hw' hmore hu⟩

/-- Members without the blanks in front of the first. -/
theorem DenotesMembers.trim {l : List (Bytes × Item D)} {t : Bytes} (h : DenotesMembers ops l t)
    (hl : l ≠ []) : ∃ w u, t = w ++ JsonText.quote :: u ∧ Blank w ∧
      DenotesMembers ops l (JsonText.quote :: u) := by
  cases h with
  | nil hw => exact absurd rfl hl
  | last hw hname hc h hw' =>
    exact ⟨_, _, rfl, hw, .last (w := []) (fun _ h => nomatch h) hname hc h hw'⟩
  | more hw hname hc h hw' hmore hu =>
    exact ⟨_, _, rfl, hw, .more (w := []) (fun _ h => nomatch h) hname hc h hw' hmore hu⟩

/-! ## Children -/

section Children

variable {α : Type} {b : ParseBuffer} {closing : UInt8}

theorem parseRest_more {child : α} {l : List α} {t : Bytes} {b' : ParseBuffer}
    {loop : ParseBuffer → Except Stop (List α × ParseBuffer)} (hb : b.rest = 44 :: t)
    (hloop : loop b = .ok (l, b')) : parseRest closing child b loop = .ok (child :: l, b') := by
  rw [parseRest, ParseBuffer.readsByte_of_cons hb, ok_bind]
  simp only [beq_self_eq_true, if_true]
  rw [hloop, ok_bind]

theorem parseRest_last {child : α} {t : Bytes} {loop : ParseBuffer → Except Stop (List α × ParseBuffer)}
    (hb : b.rest = closing :: t) (hclosing : closing ≠ 44) :
    parseRest closing child b loop = .ok ([child], b) := by
  rw [parseRest, ParseBuffer.readsByte_of_cons hb, ok_bind, if_neg (by simpa using hclosing),
    ParseBuffer.readsByte_of_cons hb, ok_bind, if_pos (by simp)]

/-- The buffer inside of the brackets, in front of the first byte that is no blank. -/
theorem inner_eq {opened c : UInt8} {w t : Bytes} (hb : b.rest = opened :: (w ++ c :: t)) (hw : Blank w)
    (hc : 32 < c) :
    ∃ inner, bufferSkipWhitespace { b.advance 1 with depth := b.depth + 1 } = inner ∧ inner.rest = c :: t ∧
      inner.content = b.content ∧ inner.offset = b.offset + w.length + 1 ∧ inner.depth = b.depth + 1 := by
  have hrest : (b.advance 1).rest = w ++ c :: t := ParseBuffer.rest_advance (s := [opened]) hb
  refine ⟨_, bufferSkipWhitespace_eq (b := { b.advance 1 with depth := b.depth + 1 }) hrest hw hc, ?_, rfl, ?_,
    rfl⟩
  · exact (ParseBuffer.rest_advance (b := b.advance 1) hrest)
  · exact Nat.add_right_comm ..

/-- No children. -/
theorem parseChildren_empty {opened : UInt8} {w tail : Bytes} (hb : b.rest = opened :: (w ++ closing :: tail))
    (hw : Blank w) (hclosing : 32 < closing) (loop : ℕ → ParseBuffer → Except Stop (List α × ParseBuffer)) :
    parseChildren closing b loop = .ok ([], b.advance (w.length + 2)) := by
  obtain ⟨inner, hinner, hrest, hcontent, hoffset, -⟩ := inner_eq hb hw hclosing
  rw [parseChildren]
  simp only
  rw [hinner, ParseBuffer.readsByte_of_cons hrest, ok_bind, if_pos (by simp), ParseBuffer.advance,
    ParseBuffer.advance, hcontent, hoffset]
  rfl

/-- The loop is entered in front of the first child. -/
theorem parseChildren_loop {opened c : UInt8} {w t : Bytes} {l : List α} {n : ℕ}
    {loop : ℕ → ParseBuffer → Except Stop (List α × ParseBuffer)} (hb : b.rest = opened :: (w ++ c :: t))
    (hw : Blank w) (hc : 32 < c) (hclosing : c ≠ closing)
    (hloop : loop b.content.length { b.advance w.length with depth := b.depth + 1 } =
      .ok (l, ({ b.advance w.length with depth := b.depth + 1 } : ParseBuffer).advance n)) :
    parseChildren closing b loop = .ok (l, b.advance (w.length + n + 1)) := by
  obtain ⟨inner, hinner, hrest, hcontent, hoffset, hdepth⟩ := inner_eq hb hw hc
  rw [parseChildren]
  simp only
  rw [hinner, ParseBuffer.readsByte_of_cons hrest, ok_bind, if_neg (by simpa using hclosing),
    if_pos (ParseBuffer.canAccess_of_cons hrest), hcontent, hoffset, hdepth, Nat.add_sub_cancel]
  refine (congrArg (· >>= _) hloop).trans ?_
  simp only [ok_bind, ParseBuffer.advance, Nat.add_assoc]

end Children

/-! ## Values -/

/-- A value that is none of the three words. -/
theorem parseValue_of_cons {b : ParseBuffer} {c : UInt8} {t : Bytes} {calls : ℕ} (hb : b.rest = c :: t)
    (hc : c ≠ 110 ∧ c ≠ 102 ∧ c ≠ 116) :
    parseValue ops (calls + 1) b =
      if c = JsonText.quote then (parseString b).map fun (s, b) => (.string s, b)
      else if c = 45 ∨ 48 ≤ c ∧ c ≤ 57 then parseNumber ops b
      else if c = 91 then parseArray (parseValue ops calls) b
      else if c = 123 then parseObject (parseValue ops calls) b
      else .error .refused := by
  have hnull : ¬ b.readsWord (ascii "null") :=
    ParseBuffer.not_readsWord hb (fun h => hc.1 (Option.some.inj h).symm) (by decide)
  have hfalse : ¬ b.readsWord (ascii "false") :=
    ParseBuffer.not_readsWord hb (fun h => hc.2.1 (Option.some.inj h).symm) (by decide)
  have htrue : ¬ b.readsWord (ascii "true") :=
    ParseBuffer.not_readsWord hb (fun h => hc.2.2 (Option.some.inj h).symm) (by decide)
  rw [parseValue, if_neg hnull, if_neg hfalse, if_neg htrue, if_pos (ParseBuffer.canAccess_of_cons hb),
    ParseBuffer.read_of_cons hb, ok_bind]

theorem parseNumber_eq {b : ParseBuffer} {d : D} {t tail : Bytes} (ht : NumberSyntax t)
    (hd : ops.strtod t = some (d, t.length)) (hb : b.rest = t ++ tail) (hend : NumberEnds tail) :
    parseNumber ops b = .ok (.number d, b.advance t.length) := by
  rw [parseNumber, hb, takeWhile_number ht hend, hd]

/-- **A string** as a token. -/
theorem parseString_token {b : ParseBuffer} {s body tail : Bytes} (h : Reads body s)
    (hb : b.rest = JsonText.quote :: (body ++ JsonText.quote :: tail)) :
    parseString b = .ok (s, b.advance (body.length + 2)) ∧ (b.advance (body.length + 2)).rest = tail := by
  refine ⟨parseString_reads h hb, ?_⟩
  have hlength : body.length + 2 = (JsonText.quote :: (body ++ [JsonText.quote])).length := by simp
  rw [hlength]
  refine ParseBuffer.rest_advance (hb.trans ?_)
  simp

/-- Blanks in front of a byte that is none. -/
theorem skip_byte {b : ParseBuffer} {w t : Bytes} {c : UInt8} (hb : b.rest = w ++ c :: t) (hw : Blank w)
    (hc : 32 < c) : bufferSkipWhitespace b = b.advance w.length ∧ (b.advance w.length).rest = c :: t :=
  ⟨bufferSkipWhitespace_eq hb hw hc, ParseBuffer.rest_advance hb⟩

/-- Blanks in front of a value. -/
theorem skip_value {b : ParseBuffer} {v : Item D} {w t tail : Bytes} (hb : b.rest = w ++ (t ++ tail))
    (hw : Blank w) (h : Denotes ops v t) :
    bufferSkipWhitespace b = b.advance w.length ∧ (b.advance w.length).rest = t ++ tail := by
  obtain ⟨c, u, rfl, hc, -⟩ := h.head
  exact skip_byte hb hw hc

section Step

variable (valueParser : ParseBuffer → Except Stop (Item D × ParseBuffer))

/-- A value is read from a text at this depth. -/
def ReadsValue (depth : ℕ) (v : Item D) (t : Bytes) : Prop :=
  ∀ (b : ParseBuffer) (tail : Bytes), b.rest = t ++ tail → NumberEnds tail → b.depth = depth →
    valueParser b = .ok (v, b.advance t.length)

variable {valueParser} {b : ParseBuffer} {v : Item D} {w t w' tail : Bytes} {d : UInt8}

/-- An element, up to what follows it. -/
theorem parseElements_succ (turns : ℕ) (h : Denotes ops v t) (hvalue : ReadsValue valueParser b.depth v t)
    (hw : Blank w)
    (hw' : Blank w') (hd : 32 < d ∧ isNumberChar d = Bool.false)
    (hb : (b.advance 1).rest = w ++ (t ++ (w' ++ d :: tail))) :
    let b' := b.advance (1 + w.length + t.length + w'.length)
    parseElements valueParser (turns + 1) b = parseRest 93 v b' (parseElements valueParser turns) ∧
      b'.rest = d :: tail := by
  obtain ⟨hskip, hrest⟩ := skip_value hb hw h
  obtain ⟨hskip', hrest'⟩ := skip_byte (ParseBuffer.rest_advance hrest) hw' hd.1
  simp only [ParseBuffer.advance_advance] at hskip hskip' hrest hrest'
  refine ⟨?_, hrest'⟩
  rw [parseElements, hskip, hvalue _ _ hrest (numberEnds_blank hw' (numberEnds_cons hd.2 _)) rfl, ok_bind]
  simp only [ParseBuffer.advance_advance]
  rw [hskip']

/-- A member, up to what follows it. -/
theorem parseMembers_succ (turns : ℕ) {name s c : Bytes} (h : Denotes ops v t)
    (hvalue : ReadsValue valueParser b.depth v t)
    (hw : Blank w) (hname : Reads name s) (hc : DenotesColon c) (hw' : Blank w')
    (hd : 32 < d ∧ isNumberChar d = Bool.false)
    (hb : (b.advance 1).rest =
      w ++ JsonText.quote :: (name ++ JsonText.quote :: (c ++ (t ++ (w' ++ d :: tail))))) :
    let b' := b.advance (1 + w.length + (name.length + 2) + c.length + t.length + w'.length)
    parseMembers valueParser (turns + 1) b = parseRest 125 (s, v) b' (parseMembers valueParser turns) ∧
      b'.rest = d :: tail := by
  cases hc with | @mk w₁ w₂ hw₁ hw₂
  have hin : b.canAccessAtIndex 1 := by
    have hlength := congrArg List.length hb
    rw [length_rest, List.length_append, List.length_cons] at hlength
    change b.content.length - (b.offset + 1) = _ at hlength
    show b.offset + 1 < b.content.length
    omega
  rw [List.append_assoc, List.cons_append] at hb
  obtain ⟨hskip, hrest⟩ := skip_byte hb hw (by decide)
  obtain ⟨hstring, hrest⟩ := parseString_token hname hrest
  obtain ⟨hskip₁, hrest⟩ := skip_byte hrest hw₁ (by decide)
  have hcolon := ParseBuffer.readsByte_of_cons hrest 58
  obtain ⟨hskip₂, hrest⟩ := skip_value (ParseBuffer.rest_advance (s := [58]) hrest) hw₂ h
  obtain ⟨hskip', hrest'⟩ := skip_byte (ParseBuffer.rest_advance hrest) hw' hd.1
  simp only [ParseBuffer.advance_advance, List.length_singleton] at hskip hstring hskip₁ hcolon hskip₂
  simp only [ParseBuffer.advance_advance, List.length_singleton] at hskip' hrest hrest'
  have hlength : 1 + w.length + (name.length + 2) + w₁.length + 1 + w₂.length + t.length + w'.length =
      1 + w.length + (name.length + 2) + (w₁ ++ 58 :: w₂).length + t.length + w'.length := by
    rw [List.length_append, List.length_cons]
    omega
  rw [hlength] at hskip' hrest'
  refine ⟨?_, hrest'⟩
  rw [parseMembers, if_pos hin, hskip, hstring, ok_bind]
  simp only
  rw [hskip₁, hcolon, ok_bind, if_pos (beq_self_eq_true _)]
  simp only [ParseBuffer.advance_advance]
  rw [hskip₂, hvalue _ _ hrest (numberEnds_blank hw' (numberEnds_cons hd.2 _)) rfl, ok_bind]
  simp only [ParseBuffer.advance_advance]
  rw [hskip']

end Step

mutual

/-- **A value** is read from each of its texts. -/
theorem parseValue_denotes (ops : Doubles D) : ∀ (v : Item D) (calls : ℕ) {t tail : Bytes} {b : ParseBuffer},
    Denotes ops v t → b.rest = t ++ tail → NumberEnds tail → v.depth + b.depth ≤ nestingLimit →
      v.depth < calls → parseValue ops calls b = .ok (v, b.advance t.length)
  | .null, calls + 1, t, tail, b, h, hb, hend, hdepth, hcalls => by
    cases h
    rw [parseValue, if_pos (ParseBuffer.readsWord_of_append hb (by decide))]
    rfl
  | .false, calls + 1, t, tail, b, h, hb, hend, hdepth, hcalls => by
    cases h
    have hb' : b.rest = 102 :: (ascii "alse" ++ tail) := hb
    rw [parseValue, if_neg (ParseBuffer.not_readsWord hb' (by decide) (by decide)),
      if_pos (ParseBuffer.readsWord_of_append hb (by decide))]
    rfl
  | .true, calls + 1, t, tail, b, h, hb, hend, hdepth, hcalls => by
    cases h
    have hb' : b.rest = 116 :: (ascii "rue" ++ tail) := hb
    rw [parseValue, if_neg (ParseBuffer.not_readsWord hb' (by decide) (by decide)),
      if_neg (ParseBuffer.not_readsWord hb' (by decide) (by decide)),
      if_pos (ParseBuffer.readsWord_of_append hb (by decide))]
    rfl
  | .raw s, calls, t, tail, b, h, hb, hend, hdepth, hcalls => by cases h
  | .number d, calls + 1, t, tail, b, h, hb, hend, hdepth, hcalls => by
    cases h with
    | number ht hd =>
      have hdigit : ∀ c : UInt8, c = 45 ∨ 48 ≤ c ∧ c ≤ 57 →
          (c ≠ 110 ∧ c ≠ 102 ∧ c ≠ 116) ∧ c ≠ JsonText.quote := forall_byte (by decide +kernel)
      obtain ⟨c, u, hcu, hc⟩ := ht.head
      have hb' : b.rest = c :: (u ++ tail) := by rw [hb, hcu, List.cons_append]
      rw [parseValue_of_cons hb' (hdigit c hc).1, if_neg (hdigit c hc).2, if_pos hc,
        parseNumber_eq ht hd hb hend]
  | .string s, calls + 1, t, tail, b, h, hb, hend, hdepth, hcalls => by
    cases h with
    | @string _ body h =>
      rw [List.cons_append, List.append_assoc] at hb
      rw [parseValue_of_cons hb (by decide), if_pos rfl, (parseString_token h hb).1, List.length_cons,
        List.length_append, List.length_singleton]
      rfl
  | .array l, calls + 1, t, tail, b, h, hb, hend, hdepth, hcalls => by
    cases h with
    | @array _ t h =>
      rw [Item.depth] at hdepth hcalls
      rw [List.cons_append, List.append_assoc] at hb
      rw [parseValue_of_cons hb (by decide), if_neg (by decide), if_neg (by decide), if_pos rfl, parseArray,
        if_neg (by omega), ParseBuffer.read_of_cons hb, ok_bind, if_neg (by decide), List.length_cons,
        List.length_append, List.length_singleton]
      have hchildren : parseChildren 93 b (parseElements (parseValue ops calls)) =
          .ok (l, b.advance (t.length + 2)) := by
        by_cases hl : l = []
        · subst hl
          cases h with
          | nil hw => exact parseChildren_empty hb hw (by decide) _
        · obtain ⟨w, c, u, rfl, hw, hc, hclose, htrim⟩ := h.trim hl
          rw [List.append_assoc, List.cons_append] at hb
          have hrest : ((b.advance w.length).advance 1).rest = (c :: u) ++ 93 :: tail := by
            rw [ParseBuffer.advance_advance]
            exact ParseBuffer.rest_advance (s := 91 :: w) hb
          have hloop := parseElements_denotes ops l calls b.content.length
            (b := { b.advance w.length with depth := b.depth + 1 })
            htrim hl hrest (by omega : depthOfElements l + (b.depth + 1) ≤ nestingLimit) (by omega)
            (ParseBuffer.length_le_content (b := (b.advance w.length).advance 1) hrest)
          refine (parseChildren_loop hb hw hc hclose hloop).trans ?_
          simp only [List.length_append, Nat.add_assoc, Nat.reduceAdd]
      rw [hchildren]
      rfl
  | .object l, calls + 1, t, tail, b, h, hb, hend, hdepth, hcalls => by
    cases h with
    | @object _ t h =>
      rw [Item.depth] at hdepth hcalls
      rw [List.cons_append, List.append_assoc] at hb
      rw [parseValue_of_cons hb (by decide), if_neg (by decide), if_neg (by decide), if_neg (by decide),
        if_pos rfl, parseObject, if_neg (by omega), ParseBuffer.readsByte_of_cons hb, ok_bind,
        if_pos (beq_self_eq_true _), List.length_cons, List.length_append, List.length_singleton]
      have hchildren : parseChildren 125 b (parseMembers (parseValue ops calls)) =
          .ok (l, b.advance (t.length + 2)) := by
        by_cases hl : l = []
        · subst hl
          cases h with
          | nil hw => exact parseChildren_empty hb hw (by decide) _
        · obtain ⟨w, u, rfl, hw, htrim⟩ := h.trim hl
          rw [List.append_assoc, List.cons_append] at hb
          have hrest : ((b.advance w.length).advance 1).rest = (JsonText.quote :: u) ++ 125 :: tail := by
            rw [ParseBuffer.advance_advance]
            exact ParseBuffer.rest_advance (s := 123 :: w) hb
          have hloop := parseMembers_denotes ops l calls b.content.length
            (b := { b.advance w.length with depth := b.depth + 1 })
            htrim hl hrest (by omega : depthOfMembers l + (b.depth + 1) ≤ nestingLimit) (by omega)
            (ParseBuffer.length_le_content (b := (b.advance w.length).advance 1) hrest)
          refine (parseChildren_loop hb hw (by decide) (by decide) hloop).trans ?_
          simp only [List.length_append, Nat.add_assoc, Nat.reduceAdd]
      rw [hchildren]
      rfl

/-- **The elements** of an array, from the byte in front of them up to the bracket. -/
theorem parseElements_denotes (ops : Doubles D) : ∀ (l : List (Item D)) (calls turns : ℕ) {t tail : Bytes}
    {b : ParseBuffer}, DenotesElements ops l t → l ≠ [] → (b.advance 1).rest = t ++ 93 :: tail →
      depthOfElements l + b.depth ≤ nestingLimit → depthOfElements l < calls → t.length ≤ turns →
        parseElements (parseValue ops calls) turns b = .ok (l, b.advance (t.length + 1))
  | [], calls, turns, t, tail, b, h, hl, hb, hdepth, hcalls, hturns => absurd rfl hl
  | v :: l, calls, turns, t, tail, b, h, hl, hb, hdepth, hcalls, hturns => by
    rw [depthOfElements] at hdepth hcalls
    have hpos : 0 < t.length := by
      obtain ⟨w, c, u, rfl, -⟩ := h.trim hl
      rw [List.length_append, List.length_cons]
      omega
    obtain ⟨turns, rfl⟩ : ∃ n, turns = n + 1 := ⟨turns - 1, by omega⟩
    cases h with
    | @last w t w' v hw h hw' =>
      simp only [List.append_assoc] at hb
      have hvalue : ReadsValue (parseValue ops calls) b.depth v t := fun b₁ tail hb₁ hend hd =>
        parseValue_denotes ops v calls h hb₁ hend (by omega) (by omega)
      obtain ⟨hstep, hrest⟩ := parseElements_succ turns h hvalue hw hw' (by decide) hb
      rw [hstep, parseRest_last hrest (by decide)]
      simp only [List.length_append]
      congr 3
      omega
    | @more w t w' u v l hw h hw' hmore hu =>
      simp only [List.append_assoc, List.cons_append] at hb
      simp only [List.length_append, List.length_cons] at hturns
      have hvalue : ReadsValue (parseValue ops calls) b.depth v t := fun b₁ tail hb₁ hend hd =>
        parseValue_denotes ops v calls h hb₁ hend (by omega) (by omega)
      obtain ⟨hstep, hrest⟩ := parseElements_succ turns h hvalue hw hw' (by decide) hb
      have hnext := parseElements_denotes ops l calls turns hu hmore
        (ParseBuffer.rest_advance (s := [44]) hrest) (by show depthOfElements l + b.depth ≤ _; omega) (by omega)
        (show u.length ≤ turns by omega)
      rw [hstep, parseRest_more hrest hnext]
      simp only [ParseBuffer.advance_advance, List.length_append, List.length_cons]
      congr 3
      omega

/-- **The members** of an object, from the byte in front of them up to the brace. -/
theorem parseMembers_denotes (ops : Doubles D) : ∀ (l : List (Bytes × Item D)) (calls turns : ℕ)
    {t tail : Bytes} {b : ParseBuffer}, DenotesMembers ops l t → l ≠ [] →
      (b.advance 1).rest = t ++ 125 :: tail → depthOfMembers l + b.depth ≤ nestingLimit →
        depthOfMembers l < calls → t.length ≤ turns →
          parseMembers (parseValue ops calls) turns b = .ok (l, b.advance (t.length + 1))
  | [], calls, turns, t, tail, b, h, hl, hb, hdepth, hcalls, hturns => absurd rfl hl
  | (s, v) :: l, calls, turns, t, tail, b, h, hl, hb, hdepth, hcalls, hturns => by
    rw [depthOfMembers] at hdepth hcalls
    have hpos : 0 < t.length := by
      obtain ⟨w, u, rfl, -⟩ := h.trim hl
      rw [List.length_append, List.length_cons]
      omega
    obtain ⟨turns, rfl⟩ : ∃ n, turns = n + 1 := ⟨turns - 1, by omega⟩
    cases h with
    | @last w name s c t w' v hw hname hc h hw' =>
      simp only [List.append_assoc, List.cons_append] at hb
      have hvalue : ReadsValue (parseValue ops calls) b.depth v t := fun b₁ tail hb₁ hend hd =>
        parseValue_denotes ops v calls h hb₁ hend (by omega) (by omega)
      obtain ⟨hstep, hrest⟩ := parseMembers_succ turns h hvalue hw hname hc hw' (by decide) hb
      rw [hstep, parseRest_last hrest (by decide)]
      simp only [List.length_append, List.length_cons]
      congr 3
      omega
    | @more w name s c t w' u v l hw hname hc h hw' hmore hu =>
      simp only [List.append_assoc, List.cons_append] at hb
      simp only [List.length_append, List.length_cons] at hturns
      have hvalue : ReadsValue (parseValue ops calls) b.depth v t := fun b₁ tail hb₁ hend hd =>
        parseValue_denotes ops v calls h hb₁ hend (by omega) (by omega)
      obtain ⟨hstep, hrest⟩ := parseMembers_succ turns h hvalue hw hname hc hw' (by decide) hb
      have hnext := parseMembers_denotes ops l calls turns hu hmore
        (ParseBuffer.rest_advance (s := [44]) hrest) (by show depthOfMembers l + b.depth ≤ _; omega) (by omega)
        (show u.length ≤ turns by omega)
      rw [hstep, parseRest_more hrest hnext]
      simp only [ParseBuffer.advance_advance, List.length_append, List.length_cons]
      congr 3
      omega

end

/-! ## Whole texts -/

/-- The byte order mark. -/
def bom : Bytes := [0xEF, 0xBB, 0xBF]

theorem skipUtf8Bom_mark {text : Bytes} (htext : 2 ≤ text.length) :
    skipUtf8Bom ⟨bom ++ text, 0, 0⟩ = ⟨bom ++ text, 3, 0⟩ := by
  have hin : (⟨bom ++ text, 0, 0⟩ : ParseBuffer).canAccessAtIndex 4 := by
    show 0 + 4 < (bom ++ text).length
    rw [List.length_append]
    exact Nat.add_lt_add_left htext 3
  exact if_pos ⟨hin, rfl⟩

theorem skipUtf8Bom_none {c : UInt8} (hc : c ≠ 0xEF) (text : Bytes) :
    skipUtf8Bom ⟨c :: text, 0, 0⟩ = ⟨c :: text, 0, 0⟩ :=
  if_neg fun h => hc (List.cons.inj h.2).1

/-- The first byte of a value in a text is not the one of a byte order mark. -/
theorem Denotes.head_ne {v : Item D} {t : Bytes} (h : Denotes ops v t) : t.head? ≠ some 0xEF := by
  cases h with
  | null | false | true => decide
  | string h | array h | object h => exact fun h => absurd (Option.some.inj h) (by decide)
  | number ht hd =>
    have hdigit : ∀ c : UInt8, c = 45 ∨ 48 ≤ c ∧ c ≤ 57 → c ≠ 0xEF := forall_byte (by decide +kernel)
    obtain ⟨c, u, rfl, hc⟩ := ht.head
    exact fun h => hdigit c hc (Option.some.inj h)

/-- **A text** with a value in it, behind blanks or a byte order mark, is read as the value; what stands behind
the value is left. -/
theorem parse_document {v : Item D} {t w tail : Bytes} (h : Denotes ops v t) (hdepth : v.depth ≤ nestingLimit)
    (hw : Blank w) (htail : NumberEnds tail) (hne : tail ≠ []) {mark : Bytes} (hmark : mark = [] ∨ mark = bom) :
    let text := mark ++ (w ++ (t ++ tail))
    cJsonParseWithLengthOpts ops text Bool.false =
      .ok (v, ⟨text, mark.length + w.length + t.length, 0⟩) := by
  intro text
  obtain ⟨c, u, ht, hc, -⟩ := h.head
  have hlong : 2 ≤ (w ++ (t ++ tail)).length := by
    have := List.length_pos_of_ne_nil hne
    rw [List.length_append, List.length_append, ht, List.length_cons]
    omega
  have hbom : skipUtf8Bom ⟨text, 0, 0⟩ = ⟨text, mark.length, 0⟩ := by
    rcases hmark with rfl | rfl
    · cases w with
      | nil =>
        have hne := h.head_ne
        rw [ht] at hne
        have htext : text = c :: (u ++ tail) := by
          show [] ++ ([] ++ (t ++ tail)) = _
          rw [ht]
          rfl
        rw [htext]
        exact skipUtf8Bom_none (fun h => hne (congrArg some h)) _
      | cons d w =>
        refine skipUtf8Bom_none ?_ (w ++ (t ++ tail))
        rintro rfl
        exact absurd (hw _ (List.mem_cons_self ..)) (by decide)
    · exact skipUtf8Bom_mark hlong
  have hrest : (⟨text, mark.length, 0⟩ : ParseBuffer).rest = w ++ (t ++ tail) := List.drop_left
  obtain ⟨hskip, hrest'⟩ := skip_value hrest hw h
  have hvalue := parseValue_denotes ops v (nestingLimit + 1) h hrest' htail hdepth (by omega)
  have hlength : text.length ≠ 0 := by
    rw [List.length_append]
    omega
  rw [cJsonParseWithLengthOpts, if_neg hlength, hbom, hskip, hvalue, ok_bind]
  rfl

/-- `cJSON_Parse` reads the text of an item. -/
theorem cJsonParse_text {v : Item D} {t : Bytes} (h : Denotes ops v t) (hdepth : v.depth ≤ nestingLimit) :
    cJsonParse ops t = .ok v := by
  have hdocument := parse_document (w := []) h hdepth blank_nil (numberEnds_cons (c := 0) rfl [])
    (List.cons_ne_nil 0 []) (.inl rfl)
  rw [List.nil_append, List.nil_append] at hdocument
  rw [cJsonParse, hdocument]
  rfl

/-- Doubles that are integers. -/
def integers : Doubles Int where
  strtod s :=
    let sign := (s.take 1).filter (· == 45)
    let digits := (s.drop sign.length).takeWhile isDigit
    if digits = [] then none
    else some (if sign = [] then digitsValue digits else -digitsValue digits, sign.length + digits.length)
  strtod_taken s d n h := by
    simp only at h
    split_ifs at h with hdigits
    all_goals
      cases h
      have hpos := List.length_pos_of_ne_nil hdigits
      have htake := (List.takeWhile_prefix isDigit (l := s.drop ((s.take 1).filter (· == 45)).length)).length_le
      have hsign := (List.length_filter_le (· == 45) (s.take 1)).trans (List.length_take_le ..)
      rw [List.length_drop] at htake
      omega
  notFinite _ := Bool.false
  valueint d := max (-2 ^ 31) (min d (2 ^ 31 - 1))
  valueint_fits d := by omega
  equals d n := d == n
  print15 := printDecimal
  print17 := printDecimal
  print15_ne_zero d h := absurd (mem_printDecimal h) (by decide)
  print17_ne_zero d h := absurd (mem_printDecimal h) (by decide)
  scan _ := none
  compareDouble d n := d == n

/-- **`cJSON_Parse`** reads every text of an item that is not nested too deeply. -/
theorem cJsonParse_document {v : Item D} {t w tail : Bytes} (h : Denotes ops v t)
    (hdepth : v.depth ≤ nestingLimit) (hw : Blank w) (htail : NumberEnds tail) {mark : Bytes}
    (hmark : mark = [] ∨ mark = bom) : cJsonParse ops (mark ++ (w ++ (t ++ tail))) = .ok v := by
  have htail' : NumberEnds (tail ++ [0]) := by
    cases tail with
    | nil => exact numberEnds_cons rfl []
    | cons c tail => exact htail
  have hdocument := parse_document h hdepth hw htail' (by simp) hmark
  rw [cJsonParse]
  simp only [List.append_assoc] at hdocument ⊢
  rw [hdocument]
  rfl

/-- An array behind a byte order mark and blanks, with other bytes behind it. -/
theorem cJsonParse_document_array :
    cJsonParse integers (bom ++ ([32, 10] ++ (ascii "[-17 ]" ++ ascii "x"))) =
      .ok (.array [.number (-17)]) :=
  cJsonParse_document
    (.array (.last (by decide : Blank [])
      (.number (t := ascii "-17") ⟨by decide, 45, ascii "17", rfl, by decide⟩ rfl) (by decide : Blank [32])))
    (by decide) (by decide) (numberEnds_cons rfl []) (.inr rfl)

end Json
end Arws

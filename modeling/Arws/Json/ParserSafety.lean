import Arws.Json.Parser

/-!
# The JSON parser stays inside of its memory

`parse_string` works in two loops: the first looks for the closing quote and skips what follows a backslash,
the second reads the escapes, of which `\u` takes six bytes or twelve whatever they are.  The second may
therefore step onto the byte that the first has skipped, and read an escape from there.  `Ahead` is what is
left for it in either case, and `Ahead.drop_two` that two bytes in front of the closing quote hold at most one
of the skipped backslashes; that makes the output large enough.

* `parseString_returns` — what is read is text, and what is written has been allocated.
* `parseValue_returns` — the recursion ends before the number of nested calls does.
* `parser_stays_inside` — `cJSON_ParseWithLengthOpts` on every text, and `cJSON_Parse` on every string.
-/

set_option autoImplicit false

namespace Arws
namespace Json

open CString Checked

/-! ## Two loops over a string -/

/-- A text up to its closing quote, with how far that is and how many backslashes were skipped. -/
inductive Closed : Bytes → ℕ → ℕ → Prop
  | quote (t : Bytes) : Closed (JsonText.quote :: t) 0 0
  | escape (e : UInt8) {t : Bytes} {n k : ℕ} (h : Closed t n k) :
      Closed (JsonText.backslash :: e :: t) (n + 2) (k + 1)
  | plain {c : UInt8} {t : Bytes} {n k : ℕ} (hb : c ≠ JsonText.backslash) (h : Closed t n k) :
      Closed (c :: t) (n + 1) k

theorem closed_of_stringEnd {m : Bytes} {n k : ℕ} (h : stringEnd m = some (n, k)) : Closed m n k := by
  fun_induction stringEnd m generalizing n k with
  | case1 => cases h
  | case2 t =>
    obtain ⟨rfl, rfl⟩ := Prod.mk.inj (Option.some.inj h)
    exact .quote t
  | case3 => cases h
  | case4 e t _ ih =>
    obtain ⟨⟨n', k'⟩, hn, hk⟩ := Option.map_eq_some_iff.1 h
    obtain ⟨rfl, rfl⟩ := Prod.mk.inj hk
    exact .escape e (ih hn)
  | case5 c t _ hb ih =>
    obtain ⟨⟨n', k'⟩, hn, hk⟩ := Option.map_eq_some_iff.1 h
    obtain ⟨rfl, rfl⟩ := Prod.mk.inj hk
    exact .plain hb (ih hn)

theorem Closed.two_mul_le {m : Bytes} {n k : ℕ} (h : Closed m n k) : 2 * k ≤ n := by
  induction h with
  | quote t => exact le_rfl
  | escape e h ih => omega
  | plain hb h ih => omega

theorem Closed.lt_length {m : Bytes} {n k : ℕ} (h : Closed m n k) : n < m.length := by
  induction h with
  | quote t => exact Nat.succ_pos _
  | escape e h ih => exact Nat.add_lt_add_right ih 2
  | plain hb h ih => exact Nat.succ_lt_succ ih

/-- What is left for the second loop, with the number of backslashes that the first has skipped there: the
second stands where the first has stood, or on a byte that it has skipped. -/
inductive Ahead : Bytes → ℕ → ℕ → Prop
  | aligned {m : Bytes} {left k : ℕ} (h : Closed m left k) : Ahead m left k
  | skipped (c : UInt8) {m : Bytes} {left k : ℕ} (h : Closed m left k) : Ahead (c :: m) (left + 1) k

namespace Ahead

variable {m : Bytes} {left k : ℕ}

theorem two_mul_le (h : Ahead m left k) : 2 * k ≤ left := by
  cases h with
  | aligned h => exact h.two_mul_le
  | skipped c h => exact h.two_mul_le.trans (Nat.le_succ _)

theorem lt_length (h : Ahead m left k) : left < m.length := by
  cases h with
  | aligned h => exact h.lt_length
  | skipped c h => exact Nat.succ_lt_succ h.lt_length

/-- One byte that is no backslash. -/
theorem drop_plain (h : Ahead m left k) (hleft : 0 < left) (hm : m[0]? ≠ some JsonText.backslash) :
    Ahead (m.drop 1) (left - 1) k := by
  cases h with
  | skipped c h => exact .aligned h
  | aligned h =>
    cases h with
    | quote t => exact absurd hleft (Nat.lt_irrefl 0)
    | escape e h => exact absurd rfl hm
    | plain hb h => exact .aligned h

/-- **Two bytes** hold at most one backslash that was skipped. -/
theorem drop_two (h : Ahead m left k) (hleft : 2 ≤ left) :
    ∃ k', Ahead (m.drop 2) (left - 2) k' ∧ k' ≤ k ∧ k ≤ k' + 1 := by
  have hnext : ∀ {t : Bytes} {n k : ℕ}, Closed t n k → 0 < n →
      ∃ k', Ahead (t.drop 1) (n - 1) k' ∧ k' ≤ k ∧ k ≤ k' + 1 := by
    intro t n k h hn
    cases h with
    | quote t => exact absurd hn (Nat.lt_irrefl 0)
    | escape e h => exact ⟨_, .skipped e h, Nat.le_succ _, le_rfl⟩
    | plain hb h => exact ⟨_, .aligned h, le_rfl, Nat.le_succ _⟩
  cases h with
  | skipped c h => exact hnext h (Nat.lt_of_succ_lt_succ hleft)
  | aligned h =>
    cases h with
    | quote t => exact absurd hleft (by omega)
    | escape e h => exact ⟨_, .aligned h, Nat.le_succ _, le_rfl⟩
    | plain hb h => exact hnext h (Nat.lt_of_succ_lt_succ hleft)

/-- An even number of bytes holds at most half as many. -/
theorem drop_even (n : ℕ) (h : Ahead m left k) (hleft : 2 * n ≤ left) :
    ∃ k', Ahead (m.drop (2 * n)) (left - 2 * n) k' ∧ k' ≤ k ∧ k ≤ k' + n := by
  induction n with
  | zero => exact ⟨k, h, le_rfl, le_rfl⟩
  | succ n ih =>
    obtain ⟨k₁, h₁, hle₁, hge₁⟩ := ih (by omega)
    obtain ⟨k₂, h₂, hle₂, hge₂⟩ := h₁.drop_two (by omega)
    refine ⟨k₂, ?_, by omega, by omega⟩
    rw [List.drop_drop] at h₂
    exact h₂

end Ahead

/-! ## The literals -/

theorem hexValue_lt {c : UInt8} {d : ℕ} (h : JsonText.hexValue c = some d) : d < 16 := by
  have hc := c.toNat_lt
  simp only [JsonText.hexValue, UInt8.le_iff_toNat_le] at h
  split_ifs at h with h₁ h₂ h₃
  all_goals
    obtain rfl := Option.some.inj h
    simp only [UInt8.toNat_ofNat] at *
    omega

theorem parseHexLoop_returns (digits h : ℕ) {m : Bytes} (hm : digits < m.length) :
    Returns (fun code => code < (h + 16) * 16 ^ digits) (parseHexLoop (digits + 1) h m) := by
  induction digits generalizing h m with
  | zero =>
    rw [parseHexLoop, readAt_of_lt hm, ok_bind]
    cases hd : JsonText.hexValue m[0] with
    | none => exact Nat.mul_pos (Nat.succ_pos _) (by decide)
    | some d =>
      have := hexValue_lt hd
      simp only [parseHexLoop, if_pos, returns_ok, Nat.pow_zero, Nat.mul_one]
      omega
  | succ digits ih =>
    rw [parseHexLoop, readAt_of_lt (Nat.lt_of_le_of_lt (Nat.zero_le _) hm), ok_bind]
    cases hd : JsonText.hexValue m[0] with
    | none => exact Nat.mul_pos (Nat.succ_pos _) (Nat.pow_pos (by decide))
    | some d =>
      have hlt := hexValue_lt hd
      have hm' : digits < (m.drop 1).length := by
        rw [List.length_drop]
        omega
      refine (ih ((h + d) <<< 4) hm').mono fun code hcode => hcode.trans_le ?_
      rw [Nat.shiftLeft_eq, Nat.pow_succ 16 digits, Nat.mul_comm (16 ^ digits), ← Nat.mul_assoc]
      exact Nat.mul_le_mul_right _ (by omega)

/-- **Four digits** are two bytes. -/
theorem parseHex4_returns {m : Bytes} (hm : 4 ≤ m.length) :
    Returns (fun code => code < 0x10000) (parseHex4 m) :=
  (parseHexLoop_returns 3 0 hm).mono fun _ hcode => hcode

theorem length_continuationBytes (n codepoint : ℕ) : (continuationBytes n codepoint).1.length = n := by
  induction n generalizing codepoint with
  | zero => rfl
  | succ n ih =>
    rw [continuationBytes, List.length_append, ih]
    rfl

/-- A code point takes at most four bytes, and one of the first plane at most three. -/
theorem length_encodeUtf8 {codepoint : ℕ} {bytes : Bytes} (h : encodeUtf8 codepoint = some bytes) :
    0 < bytes.length ∧ bytes.length ≤ 4 ∧ (codepoint < 0x10000 → bytes.length ≤ 3) := by
  simp only [encodeUtf8] at h
  split_ifs at h with h₁ h₂ h₃ h₄
  all_goals
    obtain rfl := Option.some.inj h
    simp only [List.length_cons, List.length_nil, length_continuationBytes]
    omega

theorem literalBytes_returns (codepoint sequenceLength : ℕ) :
    Returns (fun r => encodeUtf8 codepoint = some r.1 ∧ r.2 = sequenceLength)
      (literalBytes codepoint sequenceLength) := by
  rw [literalBytes]
  cases h : encodeUtf8 codepoint with
  | none => exact returns_refused
  | some bytes => exact ⟨rfl, rfl⟩

theorem secondSequence_returns {m : Bytes} {left : ℕ} (hm : left < m.length) :
    Returns (fun _ => 6 ≤ left) (secondSequence m left) := by
  rw [secondSequence]
  refine Returns.ite (fun _ => returns_refused) fun hleft => ?_
  rw [not_lt] at hleft
  refine (returns_readAt (by omega)).bind fun c _ => Returns.ite (fun _ => returns_refused) fun _ => ?_
  refine (returns_readAt (by omega)).bind fun u _ => Returns.ite (fun _ => returns_refused) fun _ => ?_
  refine (parseHex4_returns (by rw [List.length_drop]; omega)).bind fun code _ => ?_
  exact Returns.ite (fun _ => returns_refused) fun _ => hleft

/-- **A literal** ends in front of the closing quote, and is twice as long as what it stands for, or longer. -/
theorem utf16LiteralToUtf8_returns {m : Bytes} {left : ℕ} (hm : left < m.length) :
    Returns (fun r => ∃ n, r.2 = 2 * n ∧ r.2 ≤ left ∧ 0 < n ∧ r.1.length ≤ n) (utf16LiteralToUtf8 m left) := by
  rw [utf16LiteralToUtf8]
  refine Returns.ite (fun _ => returns_refused) fun hleft => ?_
  rw [not_lt] at hleft
  refine (parseHex4_returns (by rw [List.length_drop]; omega)).bind fun firstCode hfirst => ?_
  refine Returns.ite (fun _ => returns_refused) fun _ => Returns.ite (fun _ => ?_) fun _ => ?_
  · refine (secondSequence_returns (by rw [List.length_drop]; omega)).bind fun secondCode hsecond => ?_
    refine (literalBytes_returns _ _).mono fun r hr => ⟨6, hr.2, by omega, by decide, ?_⟩
    exact (length_encodeUtf8 hr.1).2.1.trans (by decide)
  · refine (literalBytes_returns _ _).mono fun r hr => ⟨3, hr.2, by omega, by decide, ?_⟩
    exact (length_encodeUtf8 hr.1).2.2 hfirst

/-! ## Strings -/

/-- What the second loop has left to read and to write. -/
structure Roomy (room left : ℕ) (m out : Bytes) : Prop where
  unfilled : out.length < room
  ahead : 0 < left → ∃ k, Ahead m left k ∧ out.length + (left - k) < room

theorem returns_put {room : ℕ} {out s : Bytes} (h : out.length + s.length ≤ room) :
    Returns (fun r => r = out ++ s) (put room out s) := by
  rw [put_of_le h]
  rfl

theorem unescapeLoop_returns {room turns left : ℕ} {m out : Bytes} (hturns : left < turns)
    (h : Roomy room left m out) : Returns (fun _ => True) (unescapeLoop room turns left m out) := by
  induction turns generalizing left m out with
  | zero => exact absurd hturns (Nat.not_lt_zero _)
  | succ turns ih =>
    rw [unescapeLoop]
    refine Returns.ite (fun _ => ?_) fun hleft => ?_
    · exact (returns_put h.unfilled).bind fun _ _ => trivial
    have hpos : 0 < left := Nat.pos_of_ne_zero hleft
    obtain ⟨k, hahead, hroom⟩ := h.ahead hpos
    have hlength := hahead.lt_length
    have hk := hahead.two_mul_le
    refine (returns_readAt (by omega)).bind fun c hc => Returns.ite (fun hplain => ?_) fun _ => ?_
    · refine (returns_put (by simp only [List.length_singleton]; omega)).bind fun out' hout => ?_
      subst hout
      refine ih (by omega) ⟨?_, fun _ => ⟨k, hahead.drop_plain hpos ?_, ?_⟩⟩
      · rw [List.length_append, List.length_singleton]
        omega
      · rw [hc]
        exact fun heq => hplain (Option.some.inj heq)
      · rw [List.length_append, List.length_singleton]
        omega
    refine (returns_readAt (by omega)).bind fun e _ => Returns.ite (fun _ => ?_) fun _ => ?_
    · refine (utf16LiteralToUtf8_returns hlength).bind fun r hr => ?_
      obtain ⟨n, hr2, hle, hn, hr1⟩ := hr
      rw [hr2] at hle ⊢
      obtain ⟨k', hahead', hk', hkk'⟩ := hahead.drop_even n hle
      have hk'' := hahead'.two_mul_le
      refine (returns_put (by omega)).bind fun out' hout => ?_
      subst hout
      refine ih (by omega) ⟨?_, fun _ => ⟨k', hahead', ?_⟩⟩
      · rw [List.length_append]
        omega
      · rw [List.length_append]
        omega
    · cases JsonText.shortEscape e with
      | none => exact returns_refused
      | some d =>
        refine (returns_put (by simp only [List.length_singleton]; omega)).bind fun out' hout => ?_
        subst hout
        refine ih (by omega) ⟨?_, fun hleft' => ?_⟩
        · rw [List.length_append, List.length_singleton]
          omega
        · obtain ⟨k', hahead', hk', hkk'⟩ := hahead.drop_two (by omega)
          refine ⟨k', hahead', ?_⟩
          rw [List.length_append, List.length_singleton]
          omega

/-- What a part of the parser leaves of the buffer: it has read something, and it stands in the text or
behind it. -/
structure Passes (b b' : ParseBuffer) : Prop where
  content : b'.content = b.content
  depth : b'.depth = b.depth
  lt : b.offset < b'.offset
  le : b'.offset ≤ b.content.length

theorem length_rest (b : ParseBuffer) : b.rest.length = b.content.length - b.offset := List.length_drop ..

/-- **A string** is read from the text, and its output has the room that it needs. -/
theorem parseString_returns {b : ParseBuffer} (hb : b.canAccessAtIndex 0) :
    Returns (fun r => Passes b r.2) (parseString b) := by
  have hb' : b.offset < b.content.length := hb
  have hrest := length_rest b
  refine (returns_readAt (by omega)).bind fun c _ => Returns.ite (fun _ => returns_refused) fun _ => ?_
  cases hend : stringEnd (b.rest.drop 1) with
  | none => exact returns_refused
  | some nk =>
    obtain ⟨n, k⟩ := nk
    have hclosed := closed_of_stringEnd hend
    have hlength := hclosed.lt_length
    have hk := hclosed.two_mul_le
    rw [List.length_drop] at hlength
    refine (unescapeLoop_returns (Nat.lt_succ_self n) ⟨Nat.succ_pos _, fun _ => ⟨k, .aligned hclosed, ?_⟩⟩).bind
      fun out _ => ⟨rfl, rfl, ?_, ?_⟩
    · rw [List.length_nil]
      omega
    · show b.offset < b.offset + (n + 2)
      omega
    · show b.offset + (n + 2) ≤ b.content.length
      omega

/-! ## Between the values -/

/-- White space is skipped forwards, and not out of the text. -/
structure Skips (b b' : ParseBuffer) : Prop where
  content : b'.content = b.content
  depth : b'.depth = b.depth
  le : b.offset ≤ b'.offset
  lt : b.offset < b.content.length → b'.offset < b.content.length
  same : b.content.length ≤ b.offset → b'.offset = b.offset

theorem bufferSkipWhitespace_skips (b : ParseBuffer) : Skips b (bufferSkipWhitespace b) := by
  rw [bufferSkipWhitespace]
  by_cases hin : b.canAccessAtIndex 0
  · have hlt : b.offset < b.content.length := hin
    have hle : (b.rest.takeWhile (· ≤ 32)).length ≤ b.rest.length := (List.takeWhile_prefix _).length_le
    rw [length_rest] at hle
    rw [if_pos hin]
    generalize (b.rest.takeWhile (· ≤ 32)).length = n at hle
    by_cases hend : b.offset + n = b.content.length
    · -- the last byte is not left
      refine (if_pos hend : ite _ _ (b.advance n) = _).symm ▸ ⟨rfl, rfl, ?_, fun _ => ?_, fun h => by omega⟩
      · show b.offset ≤ b.offset + n - 1
        omega
      · show b.offset + n - 1 < b.content.length
        omega
    · refine (if_neg hend : ite _ _ (b.advance n) = _).symm ▸ ⟨rfl, rfl, Nat.le_add_right _ _, fun _ => ?_,
        fun h => by omega⟩
      show b.offset + n < b.content.length
      omega
  · rw [if_neg hin]
    exact ⟨rfl, rfl, le_rfl, fun h => h, fun _ => rfl⟩

theorem readsByte_returns (b : ParseBuffer) (c : UInt8) :
    Returns (fun found => found = true → b.canAccessAtIndex 0) (b.readsByte c) := by
  rw [ParseBuffer.readsByte]
  by_cases hb : b.canAccessAtIndex 0
  · rw [if_pos hb, ParseBuffer.read]
    have hb' : b.offset < b.content.length := hb
    rw [readAt_of_lt (by rw [length_rest]; omega)]
    exact fun _ => hb
  · rw [if_neg hb]
    exact fun h => absurd h Bool.false_ne_true

/-! ## Arrays and objects -/

section Children

variable {α : Type} {content : Bytes} {depth : ℕ}

/-- A loop over the children ends in front of the closing byte. -/
structure ReadsOn (b b' : ParseBuffer) : Prop where
  content : b'.content = b.content
  depth : b'.depth = b.depth
  lt : b.offset < b'.offset
  inside : b'.offset < b.content.length

/-- The loop goes on behind a comma with one turn less, and one byte less at least. -/
theorem parseRest_returns {closing : UInt8} {child : α} {b : ParseBuffer}
    {loop : ParseBuffer → Except Stop (List α × ParseBuffer)}
    (hloop : b.canAccessAtIndex 0 → Returns (fun r => ReadsOn b r.2) (loop b)) :
    Returns (fun r => r.2.content = b.content ∧ r.2.depth = b.depth ∧ b.offset ≤ r.2.offset ∧
      r.2.offset < b.content.length) (parseRest closing child b loop) := by
  refine (readsByte_returns b 44).bind fun comma hcomma => Returns.ite (fun hc => ?_) fun _ => ?_
  · refine (hloop (hcomma hc)).bind fun r hr => ?_
    exact ⟨hr.content, hr.depth, hr.lt.le, hr.inside⟩
  · refine (readsByte_returns b closing).bind fun closed hclosed => Returns.ite (fun hc => ?_) fun _ => ?_
    · exact ⟨rfl, rfl, le_rfl, hclosed hc⟩
    · exact returns_refused

variable {D : Type} {parse : ParseBuffer → Except Stop (Item D × ParseBuffer)}

/-- What the loops and the values in them have in common: they read on from where white space ends. -/
theorem Skips.readsOn {b b₁ b₂ b₃ : ParseBuffer} (h₁ : Skips (b.advance 1) b₁) (h₂ : Passes b₁ b₂)
    (h₃ : Skips b₂ b₃) : b₃.content = b.content ∧ b₃.depth = b.depth ∧ b.offset + 2 ≤ b₃.offset := by
  have hoffset : b.offset + 1 ≤ b₁.offset := h₁.le
  refine ⟨(h₃.content.trans h₂.content).trans h₁.content, (h₃.depth.trans h₂.depth).trans h₁.depth, ?_⟩
  have := h₂.lt
  have := h₃.le
  omega

theorem parseElements_returns (hparse : ∀ b : ParseBuffer, b.content = content → b.depth = depth →
      Returns (fun r => Passes b r.2) (parse b)) {turns : ℕ} {b : ParseBuffer} (hcontent : b.content = content)
    (hdepth : b.depth = depth) (hin : b.offset < content.length) (hturns : content.length ≤ turns + b.offset) :
    Returns (fun r => ReadsOn b r.2) (parseElements parse turns b) := by
  induction turns generalizing b with
  | zero => omega
  | succ turns ih =>
    have hskip := bufferSkipWhitespace_skips (b.advance 1)
    refine (hparse _ (hskip.content.trans hcontent) (hskip.depth.trans hdepth)).bind fun r hr => ?_
    have hskip' := bufferSkipWhitespace_skips r.2
    obtain ⟨hc, hd, ho⟩ := hskip.readsOn hr hskip'
    refine (parseRest_returns fun hin' => ?_).mono fun q hq => ?_
    · have hlt : (bufferSkipWhitespace r.2).offset < (bufferSkipWhitespace r.2).content.length := hin'
      rw [hc, hcontent] at hlt
      exact ih (hc.trans hcontent) (hd.trans hdepth) hlt (by omega)
    · obtain ⟨hqc, hqd, hle, hlt⟩ := hq
      exact ⟨hqc.trans hc, hqd.trans hd, by omega, hc ▸ hlt⟩

theorem parseMembers_returns (hparse : ∀ b : ParseBuffer, b.content = content → b.depth = depth →
      Returns (fun r => Passes b r.2) (parse b)) {turns : ℕ} {b : ParseBuffer} (hcontent : b.content = content)
    (hdepth : b.depth = depth) (hin : b.offset < content.length) (hturns : content.length ≤ turns + b.offset) :
    Returns (fun r => ReadsOn b r.2) (parseMembers parse turns b) := by
  induction turns generalizing b with
  | zero => omega
  | succ turns ih =>
    rw [parseMembers]
    refine Returns.ite (fun hnext => ?_) fun _ => returns_refused
    have hskip := bufferSkipWhitespace_skips (b.advance 1)
    have hname : (bufferSkipWhitespace (b.advance 1)).canAccessAtIndex 0 := by
      have := hskip.lt hnext
      rwa [← hskip.content] at this
    refine (parseString_returns hname).bind fun r hr => ?_
    have hskip' := bufferSkipWhitespace_skips r.2
    obtain ⟨hc, hd, ho⟩ := hskip.readsOn hr hskip'
    refine (readsByte_returns _ 58).bind fun colon _ => Returns.ite (fun _ => ?_) fun _ => returns_refused
    have hskip₂ := bufferSkipWhitespace_skips ((bufferSkipWhitespace r.2).advance 1)
    refine (hparse _ (hskip₂.content.trans (hc.trans hcontent)) (hskip₂.depth.trans (hd.trans hdepth))).bind
      fun r₂ hr₂ => ?_
    have hskip₂' := bufferSkipWhitespace_skips r₂.2
    obtain ⟨hc₂, hd₂, ho₂⟩ := hskip₂.readsOn hr₂ hskip₂'
    refine (parseRest_returns fun hin' => ?_).mono fun q hq => ?_
    · have hlt : (bufferSkipWhitespace r₂.2).offset < (bufferSkipWhitespace r₂.2).content.length := hin'
      rw [hc₂, hc, hcontent] at hlt
      exact ih (hc₂.trans (hc.trans hcontent)) (hd₂.trans (hd.trans hdepth)) hlt (by omega)
    · obtain ⟨hqc, hqd, hle, hlt⟩ := hq
      rw [hc₂, hc] at hlt
      exact ⟨hqc.trans (hc₂.trans hc), hqd.trans (hd₂.trans hd), by omega, hlt⟩

/-- **The children** are read one level further down. -/
theorem parseChildren_returns {closing : UInt8} {b : ParseBuffer}
    {loop : ℕ → ParseBuffer → Except Stop (List α × ParseBuffer)}
    (hloop : ∀ inner : ParseBuffer, inner.content = b.content → inner.depth = b.depth + 1 →
      inner.offset < b.content.length → Returns (fun r => ReadsOn inner r.2) (loop b.content.length inner)) :
    Returns (fun r => Passes b r.2) (parseChildren closing b loop) := by
  have hskip := bufferSkipWhitespace_skips { b.advance 1 with depth := b.depth + 1 }
  have hoffset : b.offset + 1 ≤ _ := hskip.le
  have hcontent : _ = b.content := hskip.content
  rw [parseChildren]
  generalize bufferSkipWhitespace { b.advance 1 with depth := b.depth + 1 } = inner at hskip hoffset hcontent
  refine (readsByte_returns inner closing).bind fun empty hempty => Returns.ite (fun he => ?_) fun _ => ?_
  · have hlt : inner.offset < inner.content.length := hempty he
    rw [hcontent] at hlt
    exact ⟨hcontent, rfl, hoffset.trans (Nat.le_succ _), hlt⟩
  refine Returns.ite (fun hinner => ?_) fun _ => returns_refused
  have hlt : inner.offset < inner.content.length := hinner
  rw [hcontent] at hlt
  have hloop' := hloop { inner with offset := inner.offset - 1 } hcontent hskip.depth
    (Nat.lt_of_le_of_lt (Nat.sub_le _ _) hlt)
  rw [← hcontent] at hloop'
  refine hloop'.bind fun r hr => ⟨hr.content.trans hcontent, rfl, ?_, ?_⟩
  · have : inner.offset - 1 < r.2.offset := hr.lt
    show b.offset < r.2.offset + 1
    omega
  · have : r.2.offset < inner.content.length := hr.inside
    rw [hcontent] at this
    exact this

end Children

/-! ## Values -/

variable {D : Type} {ops : Doubles D}

theorem parseNumber_returns (ops : Doubles D) {b : ParseBuffer} (hb : b.canAccessAtIndex 0) :
    Returns (fun r => Passes b r.2) (parseNumber ops b) := by
  have hb' : b.offset < b.content.length := hb
  rw [parseNumber]
  cases hread : ops.strtod (b.rest.takeWhile isNumberChar) with
  | none => exact returns_refused
  | some r =>
    obtain ⟨number, taken⟩ := r
    obtain ⟨hpos, hle⟩ := ops.strtod_taken _ _ _ hread
    have hprefix := (List.takeWhile_prefix (l := b.rest) isNumberChar).length_le
    rw [length_rest] at hprefix
    refine ⟨rfl, rfl, ?_, ?_⟩
    · show b.offset < b.offset + taken
      omega
    · show b.offset + taken ≤ b.content.length
      omega

theorem passes_word {b : ParseBuffer} {word : Bytes} (h : b.readsWord word) (hword : 0 < word.length) :
    Passes b (b.advance word.length) :=
  ⟨rfl, rfl, Nat.lt_add_of_pos_right hword, h.1⟩

/-- **A value** is read within the calls that its depth leaves. -/
theorem parseValue_returns (ops : Doubles D) (calls : ℕ) {b : ParseBuffer}
    (hcalls : nestingLimit < calls + b.depth) (hdepth : b.depth ≤ nestingLimit) :
    Returns (fun r => Passes b r.2) (parseValue ops calls b) := by
  induction calls generalizing b with
  | zero => omega
  | succ calls ih =>
    have hchildren : b.canAccessAtIndex 0 → ¬ nestingLimit ≤ b.depth →
        ∀ inner : ParseBuffer, inner.content = b.content → inner.depth = b.depth + 1 →
          Returns (fun r => Passes inner r.2) (parseValue ops calls inner) :=
      fun _ hroom inner _ hd => ih (by omega) (by omega)
    rw [parseValue]
    refine Returns.ite (fun h => passes_word h (by decide)) fun _ => ?_
    refine Returns.ite (fun h => passes_word h (by decide)) fun _ => ?_
    refine Returns.ite (fun h => passes_word h (by decide)) fun _ => ?_
    refine Returns.ite (fun hb => ?_) fun _ => returns_refused
    have hb' : b.offset < b.content.length := hb
    refine (returns_readAt (by rw [length_rest]; omega)).bind fun c _ => ?_
    refine Returns.ite (fun _ => ?_) fun _ => Returns.ite (fun _ => parseNumber_returns ops hb) fun _ => ?_
    · exact (parseString_returns hb).bind fun r hr => hr
    refine Returns.ite (fun _ => ?_) fun _ => Returns.ite (fun _ => ?_) fun _ => returns_refused
    · refine Returns.ite (fun _ => returns_refused) fun hroom => ?_
      refine (returns_readAt (by rw [length_rest]; omega)).bind fun _ _ =>
        Returns.ite (fun _ => returns_refused) fun _ => ?_
      refine (parseChildren_returns fun inner hc hd hin => ?_).bind fun r hr => hr
      exact parseElements_returns (hchildren hb hroom) hc hd hin (Nat.le_add_right _ _)
    · refine Returns.ite (fun _ => returns_refused) fun hroom => ?_
      refine (readsByte_returns b 123).bind fun _ _ => Returns.ite (fun _ => ?_) fun _ => returns_refused
      refine (parseChildren_returns fun inner hc hd hin => ?_).bind fun r hr => hr
      exact parseMembers_returns (hchildren hb hroom) hc hd hin (Nat.le_add_right _ _)

/-- **The parser** ends on every text: with an item and a place in the text or behind it, or without one. -/
theorem parser_stays_inside (ops : Doubles D) (value : Bytes) (requireNullTerminated : Bool) :
    Returns (fun r => r.2.content = value ∧ r.2.offset ≤ value.length)
      (cJsonParseWithLengthOpts ops value requireNullTerminated) := by
  rw [cJsonParseWithLengthOpts]
  refine Returns.ite (fun _ => returns_refused) fun _ => ?_
  have hbom : (skipUtf8Bom ⟨value, 0, 0⟩).content = value ∧ (skipUtf8Bom ⟨value, 0, 0⟩).depth = 0 := by
    rw [skipUtf8Bom]
    split_ifs
    · exact ⟨rfl, rfl⟩
    · exact ⟨rfl, rfl⟩
  have hskip := bufferSkipWhitespace_skips (skipUtf8Bom ⟨value, 0, 0⟩)
  have hdepth : (bufferSkipWhitespace (skipUtf8Bom ⟨value, 0, 0⟩)).depth = 0 := hskip.depth.trans hbom.2
  have hvalue := parseValue_returns ops (nestingLimit + 1)
    (b := bufferSkipWhitespace (skipUtf8Bom ⟨value, 0, 0⟩)) (by omega) (by omega)
  refine hvalue.bind fun r hr => ?_
  have hcontent : r.2.content = value := hr.content.trans (hskip.content.trans hbom.1)
  have hle : r.2.offset ≤ value.length := by
    have := hr.le
    rwa [hskip.content, hbom.1] at this
  refine Returns.ite (fun _ => ?_) fun _ => ⟨hcontent, hle⟩
  have hend := bufferSkipWhitespace_skips r.2
  refine (readsByte_returns _ 0).bind fun _ hin => Returns.ite (fun hfound => ?_) fun _ => returns_refused
  have hlt : (bufferSkipWhitespace r.2).offset < (bufferSkipWhitespace r.2).content.length := hin hfound
  rw [hend.content, hcontent] at hlt
  exact ⟨hend.content.trans hcontent, hlt.le⟩

end Json
end Arws

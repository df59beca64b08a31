import Arws.Json.Strings

/-!
# The strings that are read

`parse_string` reads more than the strings of JSON: where `\u` stands in front of four bytes that are no digits,
`parse_hex4` returns zero, and the string gets a zero byte.  A string without a zero byte was spelled as one of
JSON is, and no string is longer than what stands between its quotes.

* `parseString_read` — what stands between the quotes of a string that was read.
-/

set_option autoImplicit false

namespace Arws
namespace Json

open CString Checked

/-! ## Plain strings -/

/-- A string without quotes and backslashes is spelled by itself. -/
theorem reads_self {s : Bytes} (hq : JsonText.quote ∉ s) (hb : JsonText.backslash ∉ s) : Reads s s := by
  induction s with
  | nil => exact .nil
  | cons c s ih =>
    rw [List.mem_cons, not_or] at hq hb
    exact .plain (Ne.symm hq.1) (Ne.symm hb.1) (ih hq.2 hb.2)

/-- **No string is longer** than a spelling of it, and one that is as long has no quote and no backslash. -/
theorem length_of_reads {t s : Bytes} (h : Reads t s) :
    s.length ≤ t.length ∧ (t.length ≤ s.length → JsonText.quote ∉ s ∧ JsonText.backslash ∉ s) := by
  induction h with
  | nil => exact ⟨le_rfl, fun _ => ⟨List.not_mem_nil, List.not_mem_nil⟩⟩
  | @plain c t s hq hb h ih =>
    simp only [List.length_cons]
    refine ⟨Nat.succ_le_succ ih.1, fun hle => ?_⟩
    obtain ⟨hqs, hbs⟩ := ih.2 (Nat.le_of_succ_le_succ hle)
    rw [List.mem_cons, List.mem_cons, not_or, not_or]
    exact ⟨⟨Ne.symm hq, hqs⟩, Ne.symm hb, hbs⟩
  | short he h ih =>
    simp only [List.length_cons]
    exact ⟨by omega, fun hle => by omega⟩
  | @unit h1 h2 h3 h4 n bytes t s hn _ hbytes h ih =>
    have hfour := (length_encodeUtf8 hbytes).2.1
    have hsix : (JsonText.unicodeText h1 h2 h3 h4).length = 6 := rfl
    simp only [List.length_append, hsix]
    exact ⟨by omega, fun hle => by omega⟩
  | @pair h1 h2 h3 h4 l1 l2 l3 l4 high low bytes t s _ _ _ _ hbytes h ih =>
    have hfour := (length_encodeUtf8 hbytes).2.1
    have hsix : (JsonText.unicodeText h1 h2 h3 h4).length = 6 := rfl
    have hsix' : (JsonText.unicodeText l1 l2 l3 l4).length = 6 := rfl
    simp only [List.length_append, hsix, hsix']
    exact ⟨by omega, fun hle => by omega⟩

/-! ## Escapes of code units -/

/-- Four bytes that are read as a number other than zero are its digits. -/
theorem digits_of_parseHexLoop {digits n h : ℕ} {m : Bytes} (hread : parseHexLoop (digits + 1) (16 * h) m = .ok n)
    (hn : n ≠ 0) : ∃ ds t, m = ds ++ t ∧ ds.length = digits + 1 ∧
      ds.foldlM (fun n c => (JsonText.hexValue c).map (16 * n + ·)) h = some n := by
  induction digits generalizing h m with
  | zero =>
    rw [parseHexLoop] at hread
    obtain ⟨c, hc, hread⟩ := bind_eq_ok hread
    obtain ⟨t, rfl⟩ := cons_of_readAt hc
    cases hd : JsonText.hexValue c with
    | none =>
      rw [hd] at hread
      exact absurd (Except.ok.inj hread).symm hn
    | some d =>
      rw [hd] at hread
      obtain rfl : 16 * h + d = n := Except.ok.inj hread
      exact ⟨[c], t, rfl, rfl, by simp [hd]⟩
  | succ digits ih =>
    rw [parseHexLoop] at hread
    obtain ⟨c, hc, hread⟩ := bind_eq_ok hread
    obtain ⟨t, rfl⟩ := cons_of_readAt hc
    cases hd : JsonText.hexValue c with
    | none =>
      rw [hd] at hread
      exact absurd (Except.ok.inj hread).symm hn
    | some d =>
      rw [hd] at hread
      have hshift : (16 * h + d) <<< 4 = 16 * (16 * h + d) := by
        rw [Nat.shiftLeft_eq]
        omega
      have hread' : parseHexLoop (digits + 1) (16 * (16 * h + d)) t = .ok n := by
        rw [← hshift]
        exact hread
      obtain ⟨ds, u, rfl, hlength, hfold⟩ := ih hread'
      exact ⟨c :: ds, u, rfl, by rw [List.length_cons, hlength], by simp [hd, hfold]⟩

theorem digits_of_parseHex4 {n : ℕ} {m : Bytes} (hread : parseHex4 m = .ok n) (hn : n ≠ 0) :
    ∃ h1 h2 h3 h4 t, m = h1 :: h2 :: h3 :: h4 :: t ∧ JsonText.unitValue [h1, h2, h3, h4] = some n := by
  obtain ⟨ds, t, rfl, hlength, hfold⟩ := digits_of_parseHexLoop (h := 0) hread hn
  match ds, hlength with
  | [h1, h2, h3, h4], _ => exact ⟨h1, h2, h3, h4, t, rfl, hfold⟩

/-- Four bytes that are no digits are read as zero. -/
example : parseHex4 (ascii "zzzz") = .ok 0 := rfl

theorem literalBytes_eq_ok {codepoint length : ℕ} {r : Bytes × ℕ} (h : literalBytes codepoint length = .ok r) :
    encodeUtf8 codepoint = some r.1 ∧ r.2 = length := by
  rw [literalBytes] at h
  cases hbytes : encodeUtf8 codepoint with
  | none =>
    rw [hbytes] at h
    cases h
  | some bytes =>
    rw [hbytes] at h
    cases h
    exact ⟨rfl, rfl⟩

theorem secondSequence_eq_ok {m : Bytes} {left low : ℕ} (h : secondSequence m left = .ok low) :
    6 ≤ left ∧ (0xDC00 ≤ low ∧ low ≤ 0xDFFF) ∧ ∃ l1 l2 l3 l4 t, m = JsonText.unicodeText l1 l2 l3 l4 ++ t ∧
      JsonText.unitValue [l1, l2, l3, l4] = some low := by
  obtain ⟨hleft, h⟩ := of_ite_refused h
  obtain ⟨c, hc, h⟩ := bind_eq_ok h
  obtain ⟨hbackslash, h⟩ := of_ite_refused h
  obtain ⟨u, hu, h⟩ := bind_eq_ok h
  obtain ⟨hletter, h⟩ := of_ite_refused h
  obtain ⟨code, hcode, h⟩ := bind_eq_ok h
  obtain ⟨hlow, h⟩ := of_ite_refused h
  obtain rfl := Except.ok.inj h
  obtain ⟨t, rfl⟩ := cons_of_readAt hc
  obtain ⟨t, rfl⟩ := cons_of_readAt hu
  obtain rfl := not_not.1 hbackslash
  obtain rfl := not_not.1 hletter
  obtain ⟨l1, l2, l3, l4, t, ht, hvalue⟩ := digits_of_parseHex4 (m := t) hcode (by omega)
  exact ⟨by omega, by omega, l1, l2, l3, l4, t, by rw [ht]; rfl, hvalue⟩

/-- A literal takes six bytes at least, and stands for four at most. -/
theorem literal_length {m : Bytes} {left : ℕ} {r : Bytes × ℕ} (h : utf16LiteralToUtf8 m left = .ok r) :
    r.1.length ≤ 4 ∧ 6 ≤ r.2 ∧ 6 ≤ left := by
  obtain ⟨hleft, h⟩ := of_ite_refused h
  obtain ⟨first, -, h⟩ := bind_eq_ok h
  obtain ⟨-, h⟩ := of_ite_refused h
  split_ifs at h
  · obtain ⟨second, -, h⟩ := bind_eq_ok h
    obtain ⟨hbytes, hlength⟩ := literalBytes_eq_ok h
    exact ⟨(length_encodeUtf8 hbytes).2.1, by omega, by omega⟩
  · obtain ⟨hbytes, hlength⟩ := literalBytes_eq_ok h
    exact ⟨(length_encodeUtf8 hbytes).2.1, by omega, by omega⟩

/-- A literal without a zero byte is an escape of a code unit, or of a surrogate pair. -/
theorem literal_read {t : Bytes} {left : ℕ} {r : Bytes × ℕ}
    (h : utf16LiteralToUtf8 (JsonText.backslash :: 117 :: t) left = .ok r) (hzero : (0 : UInt8) ∉ r.1) :
    ∃ escape u, JsonText.backslash :: 117 :: t = escape ++ u ∧ r.2 = escape.length ∧ r.2 ≤ left ∧
      (∃ k, ∀ tail, stringEnd (escape ++ tail) = (stringEnd tail).map fun e => (e.1 + r.2, e.2 + k)) ∧
      ∀ {body s : Bytes}, Reads body s → Reads (escape ++ body) (r.1 ++ s) := by
  obtain ⟨hleft, h⟩ := of_ite_refused h
  obtain ⟨first, hfirst, h⟩ := bind_eq_ok h
  obtain ⟨hnotLow, h⟩ := of_ite_refused h
  have hne : first ≠ 0 := by
    rintro rfl
    rw [if_neg (by omega)] at h
    obtain ⟨hbytes, -⟩ := literalBytes_eq_ok h
    have hone : r.1 = [0] := (Option.some.inj hbytes).symm
    exact hzero (hone ▸ List.mem_singleton_self 0)
  obtain ⟨h1, h2, h3, h4, u, rfl, hvalue⟩ := digits_of_parseHex4 (m := t) hfirst hne
  by_cases hhigh : 0xD800 ≤ first ∧ first ≤ 0xDBFF
  · rw [if_pos hhigh] at h
    obtain ⟨low, hsecond, h⟩ := bind_eq_ok h
    obtain ⟨hleft', hlow, l1, l2, l3, l4, u', hu, hvalue'⟩ := secondSequence_eq_ok (m := u) hsecond
    obtain ⟨hbytes, hlength⟩ := literalBytes_eq_ok h
    subst hu
    refine ⟨JsonText.unicodeText h1 h2 h3 h4 ++ JsonText.unicodeText l1 l2 l3 l4, u', rfl, hlength, by omega,
      ⟨2, fun tail => ?_⟩, fun hbody => ?_⟩
    · rw [List.append_assoc, stringEnd_unicodeText hvalue, stringEnd_unicodeText hvalue', Option.map_map, hlength]
      rfl
    · rw [List.append_assoc]
      exact .pair hvalue hhigh hvalue' hlow hbytes hbody
  · rw [if_neg hhigh] at h
    obtain ⟨hbytes, hlength⟩ := literalBytes_eq_ok h
    refine ⟨JsonText.unicodeText h1 h2 h3 h4, u, rfl, hlength, by omega, ⟨1, fun tail => ?_⟩, fun hbody => ?_⟩
    · rw [stringEnd_unicodeText hvalue, hlength]
    · exact .unit hvalue (by omega) hbytes hbody

/-! ## The two loops -/

/-- The first loop, at its first turn. -/
theorem stringEnd_cases {c : UInt8} {t : Bytes} {n k : ℕ} (h : stringEnd (c :: t) = some (n, k)) (hn : n ≠ 0) :
    c ≠ JsonText.quote ∧ (c ≠ JsonText.backslash ∧ stringEnd t = some (n - 1, k) ∨
      ∃ e u k', c = JsonText.backslash ∧ t = e :: u ∧ 2 ≤ n ∧ stringEnd u = some (n - 2, k')) := by
  by_cases hq : c = JsonText.quote
  · rw [stringEnd.eq_def] at h
    simp only [if_pos hq, Option.some.injEq, Prod.mk.injEq] at h
    exact absurd h.1.symm hn
  refine ⟨hq, ?_⟩
  by_cases hb : c = JsonText.backslash
  · subst hb
    cases t with
    | nil => simp [stringEnd, JsonText.quote, JsonText.backslash] at h
    | cons e u =>
      rw [stringEnd_escape] at h
      obtain ⟨⟨n', k'⟩, hend, heq⟩ := Option.map_eq_some_iff.1 h
      obtain ⟨rfl, rfl⟩ := Prod.mk.inj heq
      exact .inr ⟨e, u, k', rfl, rfl, Nat.le_add_left .., hend⟩
  · rw [stringEnd_plain hq hb] at h
    obtain ⟨⟨n', k'⟩, hend, heq⟩ := Option.map_eq_some_iff.1 h
    obtain ⟨rfl, rfl⟩ := Prod.mk.inj heq
    exact .inl ⟨hb, hend⟩

/-- A quote stands where the first loop ends. -/
theorem quote_of_stringEnd {m : Bytes} {n k : ℕ} (h : stringEnd m = some (n, k)) :
    ∃ tail, m = m.take n ++ JsonText.quote :: tail ∧ (m.take n).length = n := by
  have hclosed := closed_of_stringEnd h
  clear h
  induction hclosed with
  | quote t => exact ⟨t, rfl, rfl⟩
  | @escape e t n k h ih =>
    obtain ⟨tail, ht, hlength⟩ := ih
    refine ⟨tail, ?_, by simp [hlength]⟩
    rw [List.take_succ_cons, List.take_succ_cons, List.cons_append, List.cons_append, ← ht]
  | @plain c t n k hb h ih =>
    obtain ⟨tail, ht, hlength⟩ := ih
    refine ⟨tail, ?_, by simp [hlength]⟩
    rw [List.take_succ_cons, List.cons_append, ← ht]

/-- A string that is read is no longer than what stands between its quotes. -/
theorem unescapeLoop_eq_ok {room turns left : ℕ} {m out r : Bytes}
    (h : unescapeLoop room turns left m out = .ok r) : ∃ s, r = out ++ s ∧ s.length ≤ left := by
  induction turns generalizing left m out with
  | zero => cases h
  | succ turns ih =>
    rw [unescapeLoop] at h
    by_cases hleft : left = 0
    · rw [if_pos hleft] at h
      obtain ⟨_, -, h⟩ := bind_eq_ok h
      obtain rfl := Except.ok.inj h
      exact ⟨[], (List.append_nil _).symm, Nat.zero_le _⟩
    rw [if_neg hleft] at h
    obtain ⟨c, -, h⟩ := bind_eq_ok h
    by_cases hc : c ≠ JsonText.backslash
    · rw [if_pos hc] at h
      obtain ⟨out', hput, h⟩ := bind_eq_ok h
      obtain rfl := eq_of_put hput
      obtain ⟨s, rfl, hs⟩ := ih h
      exact ⟨c :: s, by simp, by rw [List.length_cons]; omega⟩
    rw [if_neg hc] at h
    obtain ⟨e, -, h⟩ := bind_eq_ok h
    by_cases he : e = 117
    · rw [if_pos he] at h
      obtain ⟨⟨bytes, length⟩, hliteral, h⟩ := bind_eq_ok h
      obtain ⟨out', hput, h⟩ := bind_eq_ok h
      obtain rfl := eq_of_put hput
      obtain ⟨s, rfl, hs⟩ := ih h
      obtain ⟨hbytes, hlong, hleft'⟩ := literal_length hliteral
      refine ⟨bytes ++ s, by simp, ?_⟩
      simp only [List.length_append] at hbytes hlong hs ⊢
      omega
    · rw [if_neg he] at h
      cases hd : JsonText.shortEscape e with
      | none =>
        rw [hd] at h
        cases h
      | some d =>
        rw [hd] at h
        obtain ⟨out', hput, h⟩ := bind_eq_ok h
        obtain rfl := eq_of_put hput
        obtain ⟨s, rfl, hs⟩ := ih h
        exact ⟨d :: s, by simp, by rw [List.length_cons]; omega⟩

/-- What one turn writes stands in front of what the others write. -/
theorem unescaped_step {room turns left : ℕ} {m out out' bytes s : Bytes} (hput : put room out bytes = .ok out')
    (h : unescapeLoop room turns left m out' = .ok (out ++ s)) :
    ∃ s', s = bytes ++ s' ∧ unescapeLoop room turns left m (out ++ bytes) = .ok (out ++ bytes ++ s') := by
  obtain rfl := eq_of_put hput
  obtain ⟨s', heq, -⟩ := unescapeLoop_eq_ok h
  rw [List.append_assoc] at heq
  obtain rfl := List.append_cancel_left heq
  exact ⟨s', rfl, by rw [h, List.append_assoc]⟩

/-- **The second loop**, from where the first has stood: what it has read without a zero byte was spelled. -/
theorem reads_of_unescapeLoop {room turns left k : ℕ} {m out s : Bytes}
    (h : unescapeLoop room turns left m out = .ok (out ++ s)) (hzero : (0 : UInt8) ∉ s)
    (hend : stringEnd m = some (left, k)) : Reads (m.take left) s := by
  induction turns generalizing left k m out s with
  | zero => cases h
  | succ turns ih =>
    rw [unescapeLoop] at h
    by_cases hleft : left = 0
    · rw [if_pos hleft] at h
      obtain ⟨_, -, h⟩ := bind_eq_ok h
      obtain rfl : s = [] := List.self_eq_append_right.1 (Except.ok.inj h)
      rw [hleft, List.take_zero]
      exact .nil
    rw [if_neg hleft] at h
    obtain ⟨c, hc, h⟩ := bind_eq_ok h
    obtain ⟨t, rfl⟩ := cons_of_readAt hc
    obtain ⟨hquote, ⟨hplain, hend'⟩ | ⟨e, u, k', rfl, rfl, htwo, hend'⟩⟩ := stringEnd_cases hend hleft
    · rw [if_pos hplain] at h
      obtain ⟨out', hput, h⟩ := bind_eq_ok h
      obtain ⟨s', rfl, hnext⟩ := unescaped_step hput h
      obtain ⟨left, rfl⟩ := Nat.exists_eq_succ_of_ne_zero hleft
      rw [List.take_succ_cons]
      exact .plain hquote hplain (ih hnext (fun hmem => hzero (List.mem_append_right _ hmem)) hend')
    rw [if_neg (not_not.2 rfl)] at h
    obtain ⟨e', he', h⟩ := bind_eq_ok h
    obtain rfl : e = e' := Except.ok.inj he'
    by_cases hletter : e = 117
    · subst hletter
      rw [if_pos rfl] at h
      obtain ⟨⟨bytes, length⟩, hliteral, h⟩ := bind_eq_ok h
      obtain ⟨out', hput, h⟩ := bind_eq_ok h
      obtain ⟨s', rfl, hnext⟩ := unescaped_step hput h
      obtain ⟨escape, u', heq, hlength, hle, ⟨k₁, hescape⟩, hreads⟩ :=
        literal_read hliteral fun hmem => hzero (List.mem_append_left _ hmem)
      simp only at hlength hle
      subst hlength
      rw [heq, hescape] at hend
      obtain ⟨⟨n', k'⟩, hbehind, hsame⟩ := Option.map_eq_some_iff.1 hend
      obtain ⟨rfl, rfl⟩ := Prod.mk.inj hsame
      rw [heq, List.drop_left, Nat.add_sub_cancel] at hnext
      rw [heq, Nat.add_comm, List.take_length_add_append]
      exact hreads (ih hnext (fun hmem => hzero (List.mem_append_right _ hmem)) hbehind)
    · rw [if_neg hletter] at h
      cases hd : JsonText.shortEscape e with
      | none =>
        rw [hd] at h
        cases h
      | some d =>
        rw [hd] at h
        obtain ⟨out', hput, h⟩ := bind_eq_ok h
        obtain ⟨s', rfl, hnext⟩ := unescaped_step hput h
        obtain ⟨left, rfl⟩ := Nat.exists_eq_add_of_le' htwo
        rw [List.take_succ_cons, List.take_succ_cons]
        exact .short hd (ih hnext (fun hmem => hzero (List.mem_append_right _ hmem)) hend')

/-- **A string** that is read: how it is delimited, and, without a zero byte, how it is spelled. -/
theorem parseString_read {b b' : ParseBuffer} {s : Bytes} (h : parseString b = .ok (s, b')) :
    ∃ body tail, b.rest = JsonText.quote :: (body ++ JsonText.quote :: tail) ∧
      b' = b.advance (body.length + 2) ∧ s.length ≤ body.length ∧ ((0 : UInt8) ∉ s → Reads body s) := by
  rw [parseString] at h
  obtain ⟨c, hc, h⟩ := bind_eq_ok h
  obtain ⟨t, hrest⟩ := cons_of_readAt hc
  obtain ⟨hquote, h⟩ := of_ite_refused h
  obtain rfl := not_not.1 hquote
  rw [hrest, List.drop_succ_cons, List.drop_zero] at h
  cases hend : stringEnd t with
  | none =>
    rw [hend] at h
    cases h
  | some nk =>
    obtain ⟨n, k⟩ := nk
    rw [hend] at h
    obtain ⟨out, hout, h⟩ := bind_eq_ok h
    obtain ⟨rfl, rfl⟩ := Prod.mk.inj (Except.ok.inj h)
    obtain ⟨tail, ht, hlength⟩ := quote_of_stringEnd hend
    obtain ⟨s, rfl, hs⟩ := unescapeLoop_eq_ok hout
    refine ⟨t.take n, tail, by rw [hrest, ← ht], by rw [hlength], ?_, fun hzero => ?_⟩
    · rw [hlength]
      exact hs
    · exact reads_of_unescapeLoop hout hzero hend

end Json
end Arws

import Arws.Server.RequestLine

/-!
# Query parameters

A client writes pairs of a key and a value into a query, each byte that is no letter or digit with a
percent sign.  `handle_client` decodes the whole target before it looks for the question mark, the
ampersands and the equals signs, and decodes it once more if a percent sign is left.

* `checkTarget_append` — such a query is accepted with every path that is, and decoded with it.
* `parseQuery_eq` — what the loop over the query reads.
* `queryKept_iff` — every pair is returned by `get_query_param`, if and only if no ampersand or equals
  sign is in its way, no plus sign is decoded a second time, and the path has no question mark of its own
  that takes the pairs apart differently.
* `not_queryKept` — an ampersand in a value.
-/

set_option autoImplicit false

namespace Arws
namespace Server

open CString

/-- `get_query_param`. -/
def getQueryParam (req : HttpRequest) (key : Bytes) : Option Bytes :=
  (req.parsedQuery.find? fun p => p.key == key).map (·.value)

/-! ## The query that a client writes -/

def isAlnum (c : UInt8) : Bool := isDigit c || (65 ≤ c && c ≤ 90) || (97 ≤ c && c ≤ 122)

/-- A hexadecimal digit, the letters in lower case or not. -/
def hexDigitOf (lower : Bool) (c : UInt8) : UInt8 :=
  if c < 10 then c + 48 else if lower then c + 87 else c + 55

def encodeByte (lower : Bool) (c : UInt8) : Bytes :=
  if isAlnum c then [c] else [37, hexDigitOf lower (c >>> 4), hexDigitOf lower (c &&& 15)]

/-- Percent-encoding of every byte that is no letter or digit. -/
def percentEncode (lower : Bool) (s : Bytes) : Bytes := s.flatMap (encodeByte lower)

/-- The query with pairs in it. -/
def encodeQuery (lower : Bool) (pairs : List QueryParam) : Bytes :=
  [38].intercalate (pairs.map fun p =>
    percentEncode lower p.key ++ 61 :: percentEncode lower p.value)

/-- A printable character that the filter for paths lets pass. -/
def Passable (c : UInt8) : Prop :=
  0x20 ≤ c ∧ c ≤ 0x7E ∧ c ≠ 47 ∧ c ≠ 92 ∧ c ≠ 37 ∧ c ≠ 46

instance : DecidablePred Passable := fun c =>
  inferInstanceAs (Decidable (0x20 ≤ c ∧ c ≤ 0x7E ∧ c ≠ 47 ∧ c ≠ 92 ∧ c ≠ 37 ∧ c ≠ 46))

/-- The pairs that a client may want to send. -/
structure Sendable (pairs : List QueryParam) : Prop where
  room : pairs.length ≤ 50
  keys : ∀ p ∈ pairs, p.key ≠ [] ∧ ∀ c ∈ p.key, Passable c
  values : ∀ p ∈ pairs, ∀ c ∈ p.value, Passable c
  nodup : (pairs.map (·.key)).Nodup

/-- The request in the buffer has this target. -/
def Sends (s : ReadState) (target : Bytes) : Prop :=
  ∃ off method rest rest', lastBodyStart s = some (s.block, off) ∧
    strtok ((splitLines ((s.bytes ++ s.rest).take off)).headD []) = some (method, rest) ∧
      strtok rest = some (target, rest')

/-- **The query parameters are kept**: the request goes on, and has every pair. -/
def QueryKept (env : ParseEnv) (s : ReadState) (pairs : List QueryParam) : Prop :=
  ∃ fullPath req, parseRequest env s = .request fullPath req ∧
    ∀ p ∈ pairs, getQueryParam req p.key = some p.value

/-! ## What arrives -/

/-- A pair as it stands in a decoded query. -/
def pairText (p : QueryParam) : Bytes := p.key ++ 61 :: p.value

/-- The decoded query. -/
def joinPairs (pairs : List QueryParam) : Bytes := [38].intercalate (pairs.map pairText)

variable {lower : Bool}

/-- The case of a digit does not matter. -/
theorem xDigit_hexDigitOf (lower : Bool) : ∀ c : UInt8, c < 16 →
    isXDigit (hexDigitOf lower c) = true ∧ xDigitValue (hexDigitOf lower c) = c := by
  cases lower <;> exact forall_byte (by decide +kernel)

theorem nibbles_of_byte : ∀ c : UInt8, c >>> 4 < 16 ∧ c &&& 15 < 16 ∧ (c >>> 4) <<< 4 ||| c &&& 15 = c :=
  forall_byte (by decide +kernel)

/-- The digits of a byte are read back, each of them in either case. -/
theorem decodedByte_hexDigitOf (high low : Bool) {c : UInt8} (hc : c ≠ 0) :
    isXDigit (hexDigitOf high (c >>> 4)) = true ∧ isXDigit (hexDigitOf low (c &&& 15)) = true ∧
      decodedByte (hexDigitOf high (c >>> 4)) (hexDigitOf low (c &&& 15)) = c := by
  obtain ⟨hhigh, hlow, hbyte⟩ := nibbles_of_byte c
  obtain ⟨hxhigh, hvhigh⟩ := xDigit_hexDigitOf high _ hhigh
  obtain ⟨hxlow, hvlow⟩ := xDigit_hexDigitOf low _ hlow
  refine ⟨hxhigh, hxlow, ?_⟩
  simp only [decodedByte, hvhigh, hvlow, hbyte]
  exact if_neg fun hz => hc (beq_iff_eq.1 hz)

theorem isAlnum_plain : ∀ c : UInt8, isAlnum c = true → c ≠ 37 ∧ c ≠ 43 :=
  forall_byte (by decide +kernel)

theorem isAlnum_of_isXDigit {c : UInt8} (h : isXDigit c = true) : isAlnum c = true := by
  simp only [isXDigit, isAlnum, Bool.or_eq_true, Bool.and_eq_true, decide_eq_true_eq,
    UInt8.le_iff_toNat_le] at h ⊢
  obtain (hdigit | hupper) | hlower := h
  · exact Or.inl (Or.inl hdigit)
  · exact Or.inl (Or.inr ⟨hupper.1, hupper.2.trans (by decide)⟩)
  · exact Or.inr ⟨hlower.1, hlower.2.trans (by decide)⟩

/-- The digits of a byte are letters and digits. -/
theorem isAlnum_hexDigitOf (c : UInt8) :
    isAlnum (hexDigitOf lower (c >>> 4)) = true ∧ isAlnum (hexDigitOf lower (c &&& 15)) = true :=
  ⟨isAlnum_of_isXDigit (xDigit_hexDigitOf lower _ (nibbles_of_byte c).1).1,
    isAlnum_of_isXDigit (xDigit_hexDigitOf lower _ (nibbles_of_byte c).2.1).1⟩

theorem encodeByte_cases (lower : Bool) (c : UInt8) :
    isAlnum c = true ∧ encodeByte lower c = [c] ∨
      encodeByte lower c = [37, hexDigitOf lower (c >>> 4), hexDigitOf lower (c &&& 15)] := by
  rw [encodeByte]
  split_ifs with h
  · exact Or.inl ⟨h, rfl⟩
  · exact Or.inr rfl

/-- What is encoded are letters, digits and percent signs. -/
theorem mem_encodeByte (c : UInt8) : ∀ x ∈ encodeByte lower c, x = 37 ∨ isAlnum x = true := by
  obtain ⟨hhigh, hlow⟩ := @isAlnum_hexDigitOf lower c
  obtain ⟨halnum, he⟩ | he := encodeByte_cases lower c
  · rw [he, List.forall_mem_singleton]
    exact Or.inr halnum
  · rw [he, List.forall_mem_cons, List.forall_mem_cons, List.forall_mem_singleton]
    exact ⟨Or.inl rfl, Or.inr hhigh, Or.inr hlow⟩

/-- A byte is read back. -/
theorem urlDecode_encodeByte {c : UInt8} (hc : c ≠ 0) (rest : Bytes) :
    urlDecode (encodeByte lower c ++ rest) = c :: urlDecode rest := by
  obtain ⟨halnum, he⟩ | he := encodeByte_cases lower c
  · obtain ⟨h37, h43⟩ := isAlnum_plain c halnum
    rw [he, List.singleton_append, urlDecode_cons_of_ne h37, plusDecoded,
      if_neg (by rw [beq_iff_eq]; exact h43)]
  · obtain ⟨hhigh, hlow, hbyte⟩ := decodedByte_hexDigitOf lower lower hc
    rw [he, List.cons_append, List.cons_append, List.singleton_append, urlDecode_escape hhigh hlow,
      hbyte]

/-- **A text is read back**. -/
theorem urlDecode_percentEncode {s : Bytes} (hs : ∀ c ∈ s, Passable c) (rest : Bytes) :
    urlDecode (percentEncode lower s ++ rest) = s ++ urlDecode rest := by
  induction s with
  | nil => rfl
  | cons c s ih =>
    obtain ⟨hc, hall⟩ := List.forall_mem_cons.1 hs
    have hzero : c ≠ 0 := by
      rintro rfl
      exact absurd hc (by decide)
    rw [percentEncode, List.flatMap_cons, List.append_assoc, urlDecode_encodeByte hzero,
      ← percentEncode, ih hall, List.cons_append]

theorem urlDecode_equals (s t : Bytes) :
    urlDecode (s ++ 61 :: t) = urlDecode s ++ 61 :: urlDecode t :=
  urlDecode_append (by decide) (by decide) (by decide) s t

theorem urlDecode_ampersand (s t : Bytes) :
    urlDecode (s ++ 38 :: t) = urlDecode s ++ 38 :: urlDecode t :=
  urlDecode_append (by decide) (by decide) (by decide) s t

/-- A pair is read back. -/
theorem urlDecode_pair {p : QueryParam} (hkey : ∀ c ∈ p.key, Passable c)
    (hvalue : ∀ c ∈ p.value, Passable c) :
    urlDecode (percentEncode lower p.key ++ 61 :: percentEncode lower p.value) = pairText p := by
  have hk := @urlDecode_percentEncode lower _ hkey []
  have hv := @urlDecode_percentEncode lower _ hvalue []
  rw [List.append_nil, urlDecode, List.append_nil] at hk hv
  rw [urlDecode_equals, hk, hv, pairText]

theorem intercalate_map_cons (f : QueryParam → Bytes) (p : QueryParam) {pairs : List QueryParam}
    (h : pairs ≠ []) : [38].intercalate ((p :: pairs).map f) =
      f p ++ 38 :: [38].intercalate (pairs.map f) := by
  rw [List.map_cons, List.intercalate_cons_of_ne_nil (mt List.map_eq_nil_iff.1 h), List.append_assoc,
    List.singleton_append]

/-- **The pairs are read back**, joined in the same way. -/
theorem urlDecode_encodeQuery {pairs : List QueryParam}
    (hkeys : ∀ p ∈ pairs, ∀ c ∈ p.key, Passable c) (hvalues : ∀ p ∈ pairs, ∀ c ∈ p.value, Passable c) :
    urlDecode (encodeQuery lower pairs) = joinPairs pairs := by
  induction pairs with
  | nil => rfl
  | cons p pairs ih =>
    obtain ⟨hkey, hkeys⟩ := List.forall_mem_cons.1 hkeys
    obtain ⟨hvalue, hvalues⟩ := List.forall_mem_cons.1 hvalues
    have hrest := ih hkeys hvalues
    have hpair := @urlDecode_pair lower _ hkey hvalue
    by_cases hnil : pairs = []
    · rw [hnil, encodeQuery, joinPairs, List.map_singleton, List.map_singleton,
        List.intercalate_singleton, List.intercalate_singleton, hpair]
    · rw [encodeQuery, joinPairs, intercalate_map_cons _ _ hnil, intercalate_map_cons _ _ hnil,
        urlDecode_ampersand, hpair, ← encodeQuery, ← joinPairs, hrest]

/-- What holds of the bytes of pairs, and of the two separators, holds of what they are joined to. -/
theorem forall_mem_joinPairs {P : UInt8 → Prop} {pairs : List QueryParam}
    (hkeys : ∀ p ∈ pairs, ∀ c ∈ p.key, P c) (hvalues : ∀ p ∈ pairs, ∀ c ∈ p.value, P c)
    (hequals : P 61) (hamp : P 38) : ∀ c ∈ joinPairs pairs, P c := by
  induction pairs with
  | nil => exact fun c hc => absurd hc List.not_mem_nil
  | cons p pairs ih =>
    obtain ⟨hkey, hkeys⟩ := List.forall_mem_cons.1 hkeys
    obtain ⟨hvalue, hvalues⟩ := List.forall_mem_cons.1 hvalues
    have hpair : ∀ c ∈ pairText p, P c := by
      rw [pairText, List.forall_mem_append, List.forall_mem_cons]
      exact ⟨hkey, hequals, hvalue⟩
    by_cases hnil : pairs = []
    · rw [hnil, joinPairs, List.map_singleton, List.intercalate_singleton]
      exact hpair
    · rw [joinPairs, intercalate_map_cons _ _ hnil, List.forall_mem_append, List.forall_mem_cons]
      exact ⟨hpair, hamp, ih hkeys hvalues⟩

/-- The decoded query is passable. -/
theorem passable_joinPairs {pairs : List QueryParam} (h : Sendable pairs) :
    ∀ c ∈ joinPairs pairs, Passable c :=
  forall_mem_joinPairs (fun p hp => (h.keys p hp).2) h.values (by decide) (by decide)

/-! ## The target is accepted -/

theorem infix_cons_of_ne {a b c : UInt8} {s : Bytes} (hc : c ≠ 37) (h : [37, a, b] <:+: c :: s) :
    [37, a, b] <:+: s := by
  obtain hp | hi := List.infix_cons_iff.1 h
  · exact absurd (List.cons_prefix_cons.1 hp).1.symm hc
  · exact hi

/-- An escape in an encoded text is one of its bytes. -/
theorem escape_of_part {a b : UInt8} {s rest : Bytes}
    (h : [37, a, b] <:+: percentEncode lower s ++ rest) :
    (∃ c ∈ s, encodeByte lower c = [37, a, b]) ∨ [37, a, b] <:+: rest := by
  induction s with
  | nil => exact Or.inr h
  | cons c s ih =>
    rw [percentEncode, List.flatMap_cons, ← percentEncode, List.append_assoc] at h
    have hlater : [37, a, b] <:+: percentEncode lower s ++ rest →
        (∃ c' ∈ c :: s, encodeByte lower c' = [37, a, b]) ∨ [37, a, b] <:+: rest := fun h =>
      (ih h).imp_left fun ⟨c', hc', he⟩ => ⟨c', List.mem_cons_of_mem _ hc', he⟩
    obtain ⟨halnum, he⟩ | he := encodeByte_cases lower c
    · rw [he, List.singleton_append] at h
      exact hlater (infix_cons_of_ne (isAlnum_plain c halnum).1 h)
    · rw [he, List.cons_append, List.cons_append, List.singleton_append] at h
      obtain hp | hi := List.infix_cons_iff.1 h
      · simp only [List.cons_prefix_cons, List.nil_prefix, and_true, true_and] at hp
        obtain ⟨rfl, rfl⟩ := hp
        exact Or.inl ⟨c, List.mem_cons_self .., he⟩
      · obtain ⟨hhigh, hlow⟩ := @isAlnum_hexDigitOf lower c
        exact hlater (infix_cons_of_ne (isAlnum_plain _ hlow).1
          (infix_cons_of_ne (isAlnum_plain _ hhigh).1 hi))

/-- **An escape in a query** is a byte of a key or a value. -/
theorem escape_of_part_query {a b : UInt8} {pairs : List QueryParam}
    (h : [37, a, b] <:+: encodeQuery lower pairs) :
    ∃ p ∈ pairs, ∃ c ∈ p.key ++ p.value, encodeByte lower c = [37, a, b] := by
  induction pairs with
  | nil => exact absurd (List.infix_nil.1 h) (List.cons_ne_nil _ _)
  | cons p pairs ih =>
    have hpair : ∀ rest : Bytes,
        [37, a, b] <:+: percentEncode lower p.key ++ 61 :: percentEncode lower p.value ++ rest →
        (∃ c ∈ p.key ++ p.value, encodeByte lower c = [37, a, b]) ∨ [37, a, b] <:+: rest := by
      intro rest h
      rw [List.append_assoc, List.cons_append] at h
      obtain ⟨c, hc, he⟩ | h := escape_of_part h
      · exact Or.inl ⟨c, List.mem_append_left _ hc, he⟩
      · obtain ⟨c, hc, he⟩ | h := escape_of_part (infix_cons_of_ne (by decide) h)
        · exact Or.inl ⟨c, List.mem_append_right _ hc, he⟩
        · exact Or.inr h
    by_cases hnil : pairs = []
    · rw [hnil, encodeQuery, List.map_singleton, List.intercalate_singleton] at h
      obtain ⟨c, hc, he⟩ | h := hpair [] (by rwa [List.append_nil])
      · exact ⟨p, List.mem_cons_self .., c, hc, he⟩
      · exact absurd (List.infix_nil.1 h) (List.cons_ne_nil _ _)
    · rw [encodeQuery, intercalate_map_cons _ _ hnil, ← encodeQuery] at h
      obtain ⟨c, hc, he⟩ | h := hpair _ h
      · exact ⟨p, List.mem_cons_self .., c, hc, he⟩
      · obtain ⟨q, hq, hbyte⟩ := ih (infix_cons_of_ne (by decide) h)
        exact ⟨q, List.mem_cons_of_mem _ hq, hbyte⟩

/-- No byte that the filter lets pass is encoded as the filter refuses. -/
theorem encodeByte_passable : ∀ c : UInt8, Passable c →
    encodeByte lower c ≠ ascii "%00" ∧ ∀ pat ∈ refusedTexts, encodeByte lower c ≠ pat := by
  cases lower <;> exact forall_byte (by decide +kernel)

/-- What is refused has a dot in it, or is an escape. -/
theorem refusedTexts_cases {pat : Bytes} (h : pat ∈ refusedTexts) :
    (46 : UInt8) ∈ pat ∨ ∃ a b, pat = [37, a, b] := by
  simp only [refusedTexts, List.mem_cons, List.not_mem_nil, or_false] at h
  obtain rfl | rfl | rfl | rfl | rfl | rfl | rfl := h
  · exact Or.inl (by decide +kernel)
  all_goals exact Or.inr ⟨_, _, rfl⟩

/-- The bytes of an encoded query. -/
theorem mem_encodeQuery {pairs : List QueryParam} : ∀ c ∈ encodeQuery lower pairs,
    c = 37 ∨ c = 38 ∨ c = 61 ∨ isAlnum c = true := by
  induction pairs with
  | nil => exact fun c hc => absurd hc List.not_mem_nil
  | cons p pairs ih =>
    have hencoded : ∀ s : Bytes, ∀ c ∈ percentEncode lower s,
        c = 37 ∨ c = 38 ∨ c = 61 ∨ isAlnum c = true := by
      intro s c hc
      obtain ⟨x, -, hx⟩ := List.mem_flatMap.1 hc
      exact (mem_encodeByte x c hx).imp_right fun h => Or.inr (Or.inr h)
    have hpair : ∀ c ∈ percentEncode lower p.key ++ 61 :: percentEncode lower p.value,
        c = 37 ∨ c = 38 ∨ c = 61 ∨ isAlnum c = true := by
      rw [List.forall_mem_append, List.forall_mem_cons]
      exact ⟨hencoded _, Or.inr (Or.inr (Or.inl rfl)), hencoded _⟩
    by_cases hnil : pairs = []
    · rw [hnil, encodeQuery, List.map_singleton, List.intercalate_singleton]
      exact hpair
    · rw [encodeQuery, intercalate_map_cons _ _ hnil, List.forall_mem_append, List.forall_mem_cons]
      exact ⟨hpair, Or.inr (Or.inl rfl), ih⟩

/-- Texts on both sides of a question mark are safe together. -/
theorem safe_append {path query : Bytes} (hpath : serverPathSafe path = true)
    (hpats : ∀ pat ∈ refusedTexts, ¬ pat <:+: query)
    (hbytes : ∀ c ∈ query, c ≠ 92 ∧ 0x20 ≤ c ∧ c ≠ 0x7F) :
    serverPathSafe (path ++ 63 :: query) = true := by
  have hmark : ∀ pat ∈ refusedTexts, (63 : UInt8) ∉ pat := by decide +kernel
  obtain ⟨-, hpathPats, hslash, hpathBytes⟩ := safe_iff.1 hpath
  refine safe_iff.2 ⟨by simp, fun pat hpat hi => ?_, ?_, ?_⟩
  · obtain hi | hi := infix_of_notMem (hmark pat hpat) hi
    · exact hpathPats pat hpat hi
    · exact hpats pat hpat hi
  · rw [List.mem_append, List.mem_cons]
    rintro (h | h | h)
    · exact hslash h
    · exact absurd h (by decide)
    · exact (hbytes 92 h).1 rfl
  · rw [List.forall_mem_append, List.forall_mem_cons]
    exact ⟨hpathBytes, by decide, fun c hc => (hbytes c hc).2⟩

/-- No byte of a query is encoded as the filter refuses. -/
theorem not_infix_encodeQuery {pairs : List QueryParam} (h : Sendable pairs) :
    ¬ ascii "%00" <:+: encodeQuery lower pairs ∧
      ∀ pat ∈ refusedTexts, ¬ pat <:+: encodeQuery lower pairs := by
  have hbyte : ∀ p ∈ pairs, ∀ c ∈ p.key ++ p.value, Passable c := by
    intro p hp
    rw [List.forall_mem_append]
    exact ⟨(h.keys p hp).2, h.values p hp⟩
  have hdot : (46 : UInt8) ∉ encodeQuery lower pairs := fun hmem =>
    absurd (mem_encodeQuery 46 hmem) (by decide)
  refine ⟨fun hi => ?_, fun pat hpat hi => ?_⟩
  · obtain ⟨p, hp, c, hc, he⟩ := escape_of_part_query hi
    exact (encodeByte_passable c (hbyte p hp c hc)).1 he
  · obtain hmem | ⟨a, b, rfl⟩ := refusedTexts_cases hpat
    · exact hdot (hi.subset hmem)
    · obtain ⟨p, hp, c, hc, he⟩ := escape_of_part_query hi
      exact (encodeByte_passable c (hbyte p hp c hc)).2 _ hpat he

/-- What is decoded once more. -/
def plusPair (p : QueryParam) : QueryParam := ⟨p.key.map plusDecoded, p.value.map plusDecoded⟩

/-- The path has a percent sign left behind the first decoding, so that there is a second one. -/
def DecodedTwice (env : ParseEnv) (path : Bytes) : Prop :=
  env.secondPass = true ∧ (37 : UInt8) ∈ urlDecode path

instance (env : ParseEnv) (path : Bytes) : Decidable (DecodedTwice env path) :=
  inferInstanceAs (Decidable (env.secondPass = true ∧ (37 : UInt8) ∈ urlDecode path))

/-- The pairs as they are behind the decoding. -/
def arrived (env : ParseEnv) (path : Bytes) (pairs : List QueryParam) : List QueryParam :=
  if DecodedTwice env path then pairs.map plusPair else pairs

theorem joinPairs_map_plusPair (pairs : List QueryParam) :
    joinPairs (pairs.map plusPair) = (joinPairs pairs).map plusDecoded := by
  have hequals : plusDecoded 61 = 61 := by decide
  have hamp : plusDecoded 38 = 38 := by decide
  have hpair : ∀ p, pairText (plusPair p) = (pairText p).map plusDecoded := by
    intro p
    rw [pairText, pairText, plusPair, List.map_append, List.map_cons, hequals]
  induction pairs with
  | nil => rfl
  | cons p pairs ih =>
    by_cases hnil : pairs = []
    · rw [hnil, List.map_singleton, joinPairs, joinPairs, List.map_singleton, List.map_singleton,
        List.intercalate_singleton, List.intercalate_singleton, hpair]
    · rw [List.map_cons, joinPairs, joinPairs, intercalate_map_cons _ _ (mt List.map_eq_nil_iff.1 hnil),
        intercalate_map_cons _ _ hnil, ← joinPairs, ← joinPairs, ih, hpair, List.map_append,
        List.map_cons, hamp]

theorem passable_plusDecoded : ∀ c : UInt8, Passable c → Passable (plusDecoded c) :=
  forall_byte (by decide +kernel)

theorem passable_arrived {env : ParseEnv} {path : Bytes} {pairs : List QueryParam} (h : Sendable pairs) :
    ∀ c ∈ joinPairs (arrived env path pairs), Passable c := by
  have hpassable := passable_joinPairs h
  rw [arrived]
  split_ifs
  · rw [joinPairs_map_plusPair]
    intro c hc
    obtain ⟨x, hx, rfl⟩ := List.mem_map.1 hc
    exact passable_plusDecoded x (hpassable x hx)
  · exact hpassable

/-- What the second decoding makes of a target with pairs. -/
theorem decodeAgain_append {env : ParseEnv} {path decoded : Bytes} {pairs : List QueryParam}
    (h : Sendable pairs) (hdecode : decodeAgain env (urlDecode path) = .ok decoded) :
    decodeAgain env (urlDecode path ++ 63 :: joinPairs pairs) =
      .ok (decoded ++ 63 :: joinPairs (arrived env path pairs)) := by
  have hpercent : (37 : UInt8) ∉ joinPairs pairs := fun hmem =>
    absurd (passable_joinPairs h 37 hmem) (by decide)
  have hmem : ∀ s t : Bytes, (37 : UInt8) ∉ t → ((37 : UInt8) ∈ s ++ 63 :: t ↔ (37 : UInt8) ∈ s) := by
    intro s t ht
    rw [List.mem_append, List.mem_cons]
    exact ⟨fun hor => hor.resolve_right fun hor => hor.elim (by decide) ht, Or.inl⟩
  rw [decodeAgain, arrived]
  obtain ⟨rfl, honce⟩ | ⟨rfl, htwice, hmemory, hleft⟩ := decodeAgain_cases hdecode
  · have honce' : ¬ DecodedTwice env path := by
      intro htwice
      obtain hnone | hfalse := honce
      · exact hnone htwice.2
      · exact Bool.noConfusion (htwice.1.symm.trans hfalse)
    rw [if_neg honce', if_neg]
    rw [Bool.and_eq_true, List.contains_iff_mem, hmem _ _ hpercent]
    exact fun hboth => honce' ⟨hboth.2, hboth.1⟩
  · have hpercent' : (37 : UInt8) ∉ (joinPairs pairs).map plusDecoded := by
      intro hm
      obtain ⟨c, hc, he⟩ := List.mem_map.1 hm
      exact absurd (he ▸ passable_plusDecoded c (passable_joinPairs h c hc)) (by decide)
    have hagain : urlDecode (urlDecode path ++ 63 :: joinPairs pairs) =
        urlDecode (urlDecode path) ++ 63 :: (joinPairs pairs).map plusDecoded := by
      rw [urlDecode_append (by decide) (by decide) (by decide), urlDecode_of_notMem hpercent]
    have hpart : ((urlDecode path ++ 63 :: joinPairs pairs).contains 37 && env.secondPass) = true := by
      rw [Bool.and_eq_true, List.contains_iff_mem, hmem _ _ hpercent]
      exact ⟨htwice, hmemory⟩
    have hnone : ¬ (urlDecode (urlDecode path) ++ 63 :: (joinPairs pairs).map plusDecoded).contains 37 =
        true := by
      rw [List.contains_iff_mem, hmem _ _ hpercent']
      exact hleft
    have htwice' : DecodedTwice env path := ⟨hmemory, htwice⟩
    rw [if_pos hpart, hagain, if_pos htwice', joinPairs_map_plusPair]
    exact if_neg hnone

/-- **With every path that is accepted, the query is accepted**, and decoded behind it. -/
theorem checkTarget_append {env : ParseEnv} {path decoded : Bytes} {pairs : List QueryParam}
    (h : Sendable pairs) (hpath : checkTarget env path = .ok decoded) :
    checkTarget env (path ++ 63 :: encodeQuery lower pairs) =
      .ok (decoded ++ 63 :: joinPairs (arrived env path pairs)) := by
  obtain ⟨hzero, hsafe, hdecode, hsafe'⟩ := checkTarget_iff.1 hpath
  obtain ⟨hzeroQuery, hpats⟩ := not_infix_encodeQuery h
  have hpassable := @passable_arrived env path pairs h
  have hfirst : urlDecode (path ++ 63 :: encodeQuery lower pairs) =
      urlDecode path ++ 63 :: joinPairs pairs := by
    rw [urlDecode_append (by decide) (by decide) (by decide),
      urlDecode_encodeQuery (fun p hp => (h.keys p hp).2) h.values]
  have hencoded : ∀ c ∈ encodeQuery lower pairs, c ≠ 92 ∧ 0x20 ≤ c ∧ c ≠ 0x7F := by
    have hbytes : ∀ c : UInt8, c = 37 ∨ c = 38 ∨ c = 61 ∨ isAlnum c = true →
        c ≠ 92 ∧ 0x20 ≤ c ∧ c ≠ 0x7F := forall_byte (by decide +kernel)
    exact fun c hc => hbytes c (mem_encodeQuery c hc)
  have hdecoded : ∀ c ∈ joinPairs (arrived env path pairs), c ≠ 92 ∧ 0x20 ≤ c ∧ c ≠ 0x7F := by
    have hbytes : ∀ c : UInt8, Passable c → c ≠ 92 ∧ 0x20 ≤ c ∧ c ≠ 0x7F :=
      forall_byte (by decide +kernel)
    exact fun c hc => hbytes c (hpassable c hc)
  refine checkTarget_iff.2 ⟨fun hi => ?_, safe_append hsafe hpats hencoded,
    hfirst ▸ decodeAgain_append h hdecode, safe_append hsafe' (fun pat hpat hi => ?_) hdecoded⟩
  · exact (infix_of_notMem (by rw [ascii_eq rfl]; decide) hi).elim hzero hzeroQuery
  · obtain hmem | ⟨a, b, rfl⟩ := refusedTexts_cases hpat
    · exact absurd (hpassable 46 (hi.subset hmem)) (by decide)
    · exact absurd (hpassable 37 (hi.subset (List.mem_cons_self ..))) (by decide)

/-! ## The loop over the query -/

/-- **What the loop reads**: the pieces between ampersands, as many as there is room for. -/
theorem parseQuery_eq (room : Nat) {q : Bytes} (hne : q ≠ []) (hlast : q.getLast? ≠ some 38) :
    parseQuery room q = ((q.splitOn 38).map queryParam).take room := by
  induction room generalizing q with
  | zero => rfl
  | succ room ih =>
    rw [parseQuery, if_neg (by rw [List.isEmpty_iff]; exact hne)]
    cases hamp : strchr 38 q with
    | none =>
      rw [List.splitOn_eq_singleton (strchr_eq_none_iff.1 hamp), List.map_singleton,
        List.take_succ_cons, List.take_nil]
    | some i =>
      obtain ⟨hsplit, hfirst⟩ := strchr_eq_some hamp
      have hrest : q.drop (i + 1) ≠ [] := by
        intro hnil
        rw [hnil] at hsplit
        exact hlast (by rw [hsplit, List.getLast?_append]; rfl)
      have hrestLast : (q.drop (i + 1)).getLast? ≠ some 38 := by
        intro hend
        refine hlast ?_
        rw [hsplit, List.getLast?_append, List.getLast?_cons, hend]
        rfl
      have hpieces : q.splitOn 38 = q.take i :: (q.drop (i + 1)).splitOn 38 := by
        conv_lhs => rw [hsplit]
        exact List.splitOn_append_cons_self_of_not_mem hfirst _
      simp only [hpieces, List.map_cons, List.take_succ_cons, ih hrest hrestLast]

/-- What is read has no separator in it. -/
theorem separators_notMem (room : Nat) (q : Bytes) : ∀ p ∈ parseQuery room q,
    (38 : UInt8) ∉ p.key ∧ (61 : UInt8) ∉ p.key ∧ (38 : UInt8) ∉ p.value := by
  have hparam : ∀ piece : Bytes, (38 : UInt8) ∉ piece → (38 : UInt8) ∉ (queryParam piece).key ∧
      (61 : UInt8) ∉ (queryParam piece).key ∧ (38 : UInt8) ∉ (queryParam piece).value := by
    intro piece hpiece
    rw [queryParam]
    cases heq : strchr 61 piece with
    | none => exact ⟨hpiece, strchr_eq_none_iff.1 heq, List.not_mem_nil⟩
    | some i =>
      exact ⟨fun h => hpiece (List.mem_of_mem_take h), (strchr_eq_some heq).2,
        fun h => hpiece (List.mem_of_mem_drop h)⟩
  fun_induction parseQuery room q with
  | case1 => exact fun p hp => absurd hp List.not_mem_nil
  | case2 => exact fun p hp => absurd hp List.not_mem_nil
  | case3 room q hne i hi ih =>
    exact List.forall_mem_cons.2 ⟨hparam _ (strchr_eq_some hi).2, ih⟩
  | case4 room q hne hi =>
    exact List.forall_mem_cons.2 ⟨hparam _ (strchr_eq_none_iff.1 hi), fun p hp =>
      absurd hp List.not_mem_nil⟩

/-- The value of the first parameter with a key. -/
def valueOf (key : Bytes) (params : List QueryParam) : Option Bytes :=
  (params.find? fun p => p.key == key).map (·.value)

/-- No separator is in the way of the pairs. -/
def Separable (pairs : List QueryParam) : Prop :=
  ∀ p ∈ pairs, (38 : UInt8) ∉ p.key ∧ (61 : UInt8) ∉ p.key ∧ (38 : UInt8) ∉ p.value

/-- The parameters of a text with pairs behind it: the first pair is in the last piece of the text. -/
def readParams (lead : Bytes) : List QueryParam → List QueryParam
  | [] => []
  | first :: rest => ((lead ++ pairText first).splitOn 38).map queryParam ++ rest

/-- **Where the pairs are read as they are sent**: no separator is in their way; a path without a question
mark of its own leaves no plus sign to be decoded twice; and behind a question mark of its own, the
parameters that the path begins with have the values of the pairs all the same. -/
def ReadAsSent (env : ParseEnv) (path decoded : Bytes) (pairs : List QueryParam) : Prop :=
  Separable pairs ∧
    match strchr 63 decoded with
    | none => DecodedTwice env path → ∀ p ∈ pairs, (43 : UInt8) ∉ p.key ∧ (43 : UInt8) ∉ p.value
    | some i => ∀ p ∈ pairs, valueOf p.key
        ((readParams (decoded.drop (i + 1) ++ [63]) (arrived env path pairs)).take 50) = some p.value

theorem exists_of_valueOf {key value : Bytes} {params : List QueryParam}
    (h : valueOf key params = some value) : ∃ p ∈ params, p.key = key ∧ p.value = value := by
  obtain ⟨p, hp, rfl⟩ := Option.map_eq_some_iff.1 h
  exact ⟨p, List.mem_of_find?_eq_some hp, by simpa using List.find?_some hp, rfl⟩

/-- With distinct keys, every parameter is found. -/
theorem valueOf_of_mem {params : List QueryParam} (hnodup : (params.map (·.key)).Nodup) :
    ∀ p ∈ params, valueOf p.key params = some p.value := by
  induction params with
  | nil => exact fun p hp => absurd hp List.not_mem_nil
  | cons q params ih =>
    rw [List.map_cons, List.nodup_cons] at hnodup
    refine List.forall_mem_cons.2 ⟨?_, fun p hp => ?_⟩
    · rw [valueOf, List.find?_cons, beq_self_eq_true]
      rfl
    · have hne : (q.key == p.key) = false :=
        beq_eq_false_iff_ne.2 fun he => hnodup.1 (he ▸ List.mem_map_of_mem hp)
      rw [valueOf, List.find?_cons, hne]
      exact ih hnodup.2 p hp

theorem queryParam_pairText {p : QueryParam} (h : (61 : UInt8) ∉ p.key) :
    queryParam (pairText p) = p := by
  have hdrop : (p.key ++ 61 :: p.value).drop (p.key.length + 1) = p.value := by
    rw [← List.drop_drop, List.drop_left]
    rfl
  rw [queryParam, pairText, strchr_append h]
  simp only [List.take_left, hdrop]

theorem pairText_notMem {p : QueryParam} (hkey : (38 : UInt8) ∉ p.key) (hvalue : (38 : UInt8) ∉ p.value) :
    (38 : UInt8) ∉ pairText p := by
  rw [pairText, List.mem_append, List.mem_cons]
  rintro (h | h | h)
  · exact hkey h
  · exact absurd h (by decide)
  · exact hvalue h

theorem map_queryParam_pairText {pairs : List QueryParam} (h : Separable pairs) :
    (pairs.map pairText).map queryParam = pairs := by
  rw [List.map_map]
  refine (List.map_congr_left fun p hp => ?_).trans (List.map_id pairs)
  exact queryParam_pairText (h p hp).2.1

theorem splitOn_joinPairs {pairs : List QueryParam} (h : Separable pairs) (hne : pairs ≠ []) :
    (joinPairs pairs).splitOn 38 = pairs.map pairText := by
  refine List.splitOn_intercalate 38 (fun l hl => ?_) (mt List.map_eq_nil_iff.1 hne)
  obtain ⟨p, hp, rfl⟩ := List.mem_map.1 hl
  exact pairText_notMem (h p hp).1 (h p hp).2.2

/-- The pairs end with no ampersand. -/
theorem getLast?_joinPairs {pairs : List QueryParam} (h : Separable pairs) (hne : pairs ≠ []) :
    ∃ c, (joinPairs pairs).getLast? = some c ∧ c ≠ 38 := by
  have hpieces := splitOn_joinPairs h hne
  have hnil : [] ∉ (joinPairs pairs).splitOn 38 := by
    rw [hpieces, List.mem_map]
    rintro ⟨p, -, hp⟩
    exact absurd hp (by rw [pairText]; simp)
  cases hlast : (joinPairs pairs).getLast? with
  | none =>
    rw [List.getLast?_eq_none_iff.1 hlast, List.splitOn_nil] at hnil
    exact absurd (List.mem_singleton.2 rfl) hnil
  | some c =>
    refine ⟨c, rfl, ?_⟩
    rintro rfl
    obtain ⟨a, ha⟩ := List.getLast?_eq_some_iff.1 hlast
    rw [ha, List.splitOn_append_cons_self, List.splitOn_nil] at hnil
    exact hnil (List.mem_append_right _ (List.mem_singleton.2 rfl))

/-- **What is read of a text with pairs behind it**. -/
theorem parseQuery_append {pairs : List QueryParam} (h : Separable pairs) (hne : pairs ≠ [])
    (lead : Bytes) (room : Nat) :
    parseQuery room (lead ++ joinPairs pairs) = (readParams lead pairs).take room := by
  obtain ⟨c, hc, hc38⟩ := getLast?_joinPairs h hne
  have hlast : (lead ++ joinPairs pairs).getLast? = some c := by
    rw [List.getLast?_append, hc, Option.some_or]
  have hfull : lead ++ joinPairs pairs ≠ [] := by
    intro hnil
    rw [hnil] at hlast
    cases hlast
  rw [parseQuery_eq room hfull (by rw [hlast]; exact fun he => hc38 (Option.some.inj he))]
  cases pairs with
  | nil => exact absurd rfl hne
  | cons first rest =>
    have hrest : Separable rest := fun p hp => h p (List.mem_cons_of_mem _ hp)
    by_cases hnil : rest = []
    · rw [hnil, readParams, joinPairs, List.map_singleton, List.intercalate_singleton, List.append_nil]
    · rw [joinPairs, intercalate_map_cons _ _ hnil, ← joinPairs, ← List.append_assoc,
        List.splitOn_append_cons_self, splitOn_joinPairs hrest hnil, List.map_append,
        map_queryParam_pairText hrest, readParams]

/-- Alone, the pairs are read as they are. -/
theorem readParams_nil {pairs : List QueryParam} (h : Separable pairs) : readParams [] pairs = pairs := by
  cases pairs with
  | nil => rfl
  | cons first rest =>
    obtain ⟨hkey, hequals, hvalue⟩ := h first (List.mem_cons_self ..)
    rw [readParams, List.nil_append, List.splitOn_eq_singleton (pairText_notMem hkey hvalue),
      List.map_singleton, queryParam_pairText hequals, List.singleton_append]

/-! ## Which pairs are kept -/

theorem plusDecoded_separator : ∀ c : UInt8, (plusDecoded c = 38 ↔ c = 38) ∧ (plusDecoded c = 61 ↔ c = 61) :=
  forall_byte (by decide +kernel)

/-- The decoding makes no separators. -/
theorem separable_arrived {env : ParseEnv} {path : Bytes} {pairs : List QueryParam}
    (h : Separable pairs) : Separable (arrived env path pairs) := by
  have hmap : ∀ {c : UInt8} {s : Bytes}, c = 38 ∨ c = 61 → c ∉ s → c ∉ s.map plusDecoded := by
    intro c s hc hs hmem
    obtain ⟨x, hx, hxc⟩ := List.mem_map.1 hmem
    obtain ⟨hamp, hequals⟩ := plusDecoded_separator x
    obtain rfl | rfl := hc
    · exact hs (hamp.1 hxc ▸ hx)
    · exact hs (hequals.1 hxc ▸ hx)
  rw [arrived]
  split_ifs
  · intro p hp
    obtain ⟨q, hq, rfl⟩ := List.mem_map.1 hp
    obtain ⟨hkey, hequals, hvalue⟩ := h q hq
    exact ⟨hmap (Or.inl rfl) hkey, hmap (Or.inr rfl) hequals, hmap (Or.inl rfl) hvalue⟩
  · exact h

/-- Behind a path without a question mark, the pairs have their values if no plus sign was decoded a
second time. -/
theorem valueOf_arrived {env : ParseEnv} {path : Bytes} {pairs : List QueryParam}
    (hnodup : (pairs.map (·.key)).Nodup) :
    (∀ p ∈ pairs, valueOf p.key (arrived env path pairs) = some p.value) ↔
      (DecodedTwice env path → ∀ p ∈ pairs, (43 : UInt8) ∉ p.key ∧ (43 : UInt8) ∉ p.value) := by
  rw [arrived]
  by_cases htwice : DecodedTwice env path
  · rw [if_pos htwice, forall_prop_of_true htwice]
    constructor
    · intro h p hp
      obtain ⟨q, hq, hkey, hvalue⟩ := exists_of_valueOf (h p hp)
      obtain ⟨q, -, rfl⟩ := List.mem_map.1 hq
      rw [← hkey, ← hvalue]
      exact ⟨notMem_map_plusDecoded _, notMem_map_plusDecoded _⟩
    · intro h
      have hsame : pairs.map plusPair = pairs := by
        refine (List.map_congr_left fun p hp => ?_).trans (List.map_id pairs)
        obtain ⟨hkey, hvalue⟩ := h p hp
        rw [plusPair, map_plusDecoded hkey, map_plusDecoded hvalue]
        rfl
      rw [hsame]
      exact valueOf_of_mem hnodup
  · rw [if_neg htwice]
    exact iff_of_true (valueOf_of_mem hnodup) fun h => absurd h htwice

variable {env : ParseEnv} {s : ReadState} {path decoded : Bytes} {pairs : List QueryParam}

/-- The request that goes on with a target that is accepted. -/
theorem parseRequest_of_sends {target fullPath : Bytes} (hs : Sends s target)
    (hcheck : checkTarget env target = .ok fullPath) :
    ∃ req, parseRequest env s = .request fullPath req ∧
      req.parsedQuery = (splitTarget env fullPath).2.2 := by
  obtain ⟨off, method, rest, rest', hlast, hmethod, htarget⟩ := hs
  have hline : parseRequestLine env ((splitLines ((s.bytes ++ s.rest).take off)).headD []) =
      .ok (method, fullPath) := by
    rw [parseRequestLine, hmethod]
    simp only [htarget, hcheck]
    rfl
  rw [parseRequest, hlast]
  simp only [ne_eq, not_true, if_false]
  rw [parseHead, hline]
  exact ⟨_, rfl, rfl⟩

/-- The pairs of a query are kept if they are read of what is behind the first question mark. -/
theorem queryKept_iff_valueOf (h : Sendable pairs) (hpath : checkTarget env path = .ok decoded)
    (hs : Sends s (path ++ 63 :: encodeQuery lower pairs)) :
    QueryKept env s pairs ↔ ∀ p ∈ pairs, valueOf p.key
      (splitTarget env (decoded ++ 63 :: joinPairs (arrived env path pairs))).2.2 = some p.value := by
  obtain ⟨req, hreq, hparsed⟩ := parseRequest_of_sends hs (checkTarget_append h hpath)
  rw [← hparsed]
  constructor
  · rintro ⟨fullPath, req', hreq', hall⟩
    cases hreq.symm.trans hreq'
    exact hall
  · exact fun hall => ⟨_, req, hreq, hall⟩

/-- What is read behind the first question mark. -/
theorem parsed_eq (query : Bytes) : (splitTarget env (decoded ++ 63 :: query)).2.2 =
    match strchr 63 decoded with
    | none => parseQuery 50 query
    | some i => parseQuery 50 (decoded.drop (i + 1) ++ [63] ++ query) := by
  cases hmark : strchr 63 decoded with
  | none => rw [splitTarget_append _ (strchr_eq_none_iff.1 hmark)]
  | some i =>
    obtain ⟨hsplit, hfirst⟩ := strchr_eq_some hmark
    have hwhole : decoded ++ 63 :: query =
        decoded.take i ++ 63 :: (decoded.drop (i + 1) ++ [63] ++ query) := by
      conv_lhs => rw [hsplit]
      simp only [List.append_assoc, List.cons_append, List.nil_append]
    rw [hwhole, splitTarget_append _ hfirst]

/-- Only pairs without separators are found. -/
theorem separable_of_valueOf {q : Bytes}
    (h : ∀ p ∈ pairs, valueOf p.key (parseQuery 50 q) = some p.value) : Separable pairs := by
  intro p hp
  obtain ⟨x, hx, hkey, hvalue⟩ := exists_of_valueOf (h p hp)
  rw [← hkey, ← hvalue]
  exact separators_notMem 50 q x hx

theorem length_arrived (env : ParseEnv) (path : Bytes) (pairs : List QueryParam) :
    (arrived env path pairs).length = pairs.length := by
  rw [arrived]
  split_ifs
  · exact List.length_map _
  · rfl

/-- **The query parameters are kept** if and only if the pairs are read as they are sent. -/
theorem queryKept_iff (h : Sendable pairs) (hpath : checkTarget env path = .ok decoded)
    (hs : Sends s (path ++ 63 :: encodeQuery lower pairs)) :
    QueryKept env s pairs ↔ ReadAsSent env path decoded pairs := by
  rw [queryKept_iff_valueOf h hpath hs, parsed_eq, ReadAsSent]
  by_cases hnil : pairs = []
  · subst hnil
    refine iff_of_true (fun p hp => absurd hp List.not_mem_nil)
      ⟨fun p hp => absurd hp List.not_mem_nil, ?_⟩
    cases strchr 63 decoded with
    | none => exact fun _ p hp => absurd hp List.not_mem_nil
    | some i => exact fun p hp => absurd hp List.not_mem_nil
  · have hlen := length_arrived env path pairs
    have harrived : arrived env path pairs ≠ [] := by
      rw [← List.length_pos_iff, hlen, List.length_pos_iff]
      exact hnil
    cases strchr 63 decoded with
    | none =>
      -- there is room for all of the pairs, and nothing is in front of them
      have hparsed : Separable pairs →
          parseQuery 50 (joinPairs (arrived env path pairs)) = arrived env path pairs := by
        intro hsep
        have hread := parseQuery_append (separable_arrived hsep) harrived [] 50
        rwa [List.nil_append, readParams_nil (separable_arrived hsep),
          List.take_of_length_le (hlen ▸ h.room)] at hread
      refine ⟨fun hall => ?_, fun hread => ?_⟩
      · have hsep := separable_of_valueOf hall
        rw [hparsed hsep] at hall
        exact ⟨hsep, (valueOf_arrived h.nodup).1 hall⟩
      · rw [hparsed hread.1]
        exact (valueOf_arrived h.nodup).2 hread.2
    | some i =>
      refine ⟨fun hall => ?_, fun hread => ?_⟩
      · have hsep := separable_of_valueOf hall
        simp only [parseQuery_append (separable_arrived hsep) harrived] at hall
        exact ⟨hsep, hall⟩
      · simp only [parseQuery_append (separable_arrived hread.1) harrived]
        exact hread.2

instance (pairs : List QueryParam) : Decidable (Separable pairs) :=
  inferInstanceAs (Decidable (∀ p ∈ pairs, (38 : UInt8) ∉ p.key ∧ (61 : UInt8) ∉ p.key ∧
    (38 : UInt8) ∉ p.value))

private def twoPairs : List QueryParam := [⟨ascii "b", ascii "c+d"⟩, ⟨ascii "e", ascii "f g"⟩]

/-- Two pairs behind a path. -/
theorem queryKept_of_two_pairs :
    ∃ s, Sends s (ascii "/a" ++ 63 :: encodeQuery false twoPairs) ∧ QueryKept ⟨true, true⟩ s twoPairs := by
  have hs : Sends (readTurn .start
      ⟨none, some (ascii "GET /a?b=c%2Bd&e=f%20g HTTP/1.1\r\n\r\n"), true, 0⟩)
        (ascii "/a" ++ 63 :: encodeQuery false twoPairs) :=
    ⟨31, ascii "GET", ascii "/a?b=c%2Bd&e=f%20g HTTP/1.1", ascii "HTTP/1.1", by decide +kernel⟩
  have hread : ReadAsSent ⟨true, true⟩ (ascii "/a") (ascii "/a") twoPairs :=
    ⟨by decide +kernel, fun htwice => absurd htwice (by decide +kernel)⟩
  exact ⟨_, hs, (queryKept_iff ⟨by decide, by decide +kernel, by decide +kernel, by decide +kernel⟩
    (by decide +kernel) hs).2 hread⟩

private def ampersandPair : List QueryParam := [⟨ascii "b", ascii "c&d"⟩]

/-- **An ampersand in a value** ends it, and what is behind it is a parameter of its own. -/
theorem not_queryKept : ¬ ∀ env s path decoded lower pairs, readMachine.Reach s → Sendable pairs →
    checkTarget env path = .ok decoded → Sends s (path ++ 63 :: encodeQuery lower pairs) →
      QueryKept env s pairs := by
  intro h
  have hreach : readMachine.Reach (readTurn .start
      ⟨none, some (ascii "GET /a?b=c%26d HTTP/1.1\r\n\r\n"), true, 0⟩) :=
    .next (.start rfl) trivial (if_pos (by decide +kernel))
  have hreq : parseRequest ⟨true, true⟩ (readTurn .start
      ⟨none, some (ascii "GET /a?b=c%26d HTTP/1.1\r\n\r\n"), true, 0⟩) =
        .request (ascii "/a?b=c&d") ⟨ascii "GET", ascii "/a", some (ascii "b=c&d"),
          [⟨ascii "b", ascii "c"⟩, ⟨ascii "d", []⟩], [], [], [], 0⟩ := by rw [ascii_eq rfl]; decide
  obtain ⟨fullPath, req, hreq', hall⟩ := h ⟨true, true⟩ _ (ascii "/a") (ascii "/a") false ampersandPair hreach
    ⟨by decide, by decide, by decide +kernel, by decide +kernel⟩ (by rw [ascii_eq rfl]; decide)
    ⟨23, ascii "GET", ascii "/a?b=c%26d HTTP/1.1", ascii "HTTP/1.1", by decide +kernel⟩
  cases hreq.symm.trans hreq'
  exact absurd (hall ⟨ascii "b", ascii "c&d"⟩ (List.mem_singleton.2 rfl)) (by decide +kernel)

end Server
end Arws

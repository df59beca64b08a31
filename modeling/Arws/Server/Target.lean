import Arws.Server.ForwardedFor

/-!
# The request target

What the checks of `handle_client` on a target and its decoding come to.

* `length_urlDecode_le` — decoding never makes a text longer, and one that stays as long has no escape.
* `urlDecode_append` — a byte that is no hexadecimal digit keeps what is before it and behind it apart.
* `safe_iff` — what `server_path_safe` refuses.
* `checkTarget_iff` — which targets are accepted, and what they are decoded to.
-/

set_option autoImplicit false

namespace Arws
namespace Server

open CString

/-! ## Decoding -/

/-- A plus sign is a space. -/
def plusDecoded (c : UInt8) : UInt8 := if c == 43 then 32 else c

theorem length_urlDecode_le (s : Bytes) : (urlDecode s).length ≤ s.length := by
  fun_induction urlDecode s with
  | case1 => exact Nat.le_refl _
  | case2 c => exact Nat.le_refl _
  | case3 c d ih => exact Nat.succ_le_succ ih
  | case4 c a b s hescape ih =>
    simp only [List.length_cons]
    omega
  | case5 c a b s hescape ih => exact Nat.succ_le_succ ih

/-- A text that stays as long has no escape in it. -/
theorem urlDecode_of_length_eq {s : Bytes} (h : (urlDecode s).length = s.length) :
    urlDecode s = s.map plusDecoded := by
  fun_induction urlDecode s with
  | case1 => rfl
  | case2 c => rfl
  | case3 c d ih => rw [List.map_cons, ← ih (Nat.succ.inj h)]; rfl
  | case4 c a b s hescape ih =>
    have := length_urlDecode_le s
    simp only [List.length_cons] at h
    omega
  | case5 c a b s hescape ih => rw [List.map_cons, ← ih (Nat.succ.inj h)]; rfl

/-- A text without percent signs has no escape in it. -/
theorem urlDecode_of_notMem {s : Bytes} (h : (37 : UInt8) ∉ s) : urlDecode s = s.map plusDecoded := by
  fun_induction urlDecode s with
  | case1 => rfl
  | case2 c => rfl
  | case3 c d ih => rw [List.map_cons, ← ih (fun hd => h (List.mem_cons_of_mem _ hd))]; rfl
  | case4 c a b s hescape ih =>
    simp only [Bool.and_eq_true, beq_iff_eq] at hescape
    exact absurd (hescape.1.1 ▸ List.mem_cons_self ..) h
  | case5 c a b s hescape ih =>
    rw [List.map_cons, ← ih (fun hd => h (List.mem_cons_of_mem _ hd))]
    rfl

theorem map_plusDecoded {s : Bytes} (h : (43 : UInt8) ∉ s) : s.map plusDecoded = s := by
  refine (List.map_congr_left fun c hc => ?_).trans (List.map_id s)
  rw [plusDecoded, if_neg]
  · rfl
  · rw [beq_iff_eq]
    rintro rfl
    exact h hc

theorem notMem_map_plusDecoded (s : Bytes) : (43 : UInt8) ∉ s.map plusDecoded := by
  intro h
  obtain ⟨c, -, hc⟩ := List.mem_map.1 h
  rw [plusDecoded] at hc
  split_ifs at hc with h43
  · exact absurd hc (by decide)
  · exact h43 (beq_iff_eq.2 hc)

theorem urlDecode_cons_of_ne {c : UInt8} (hc : c ≠ 37) (s : Bytes) :
    urlDecode (c :: s) = plusDecoded c :: urlDecode s := by
  match s with
  | [] => rfl
  | [d] => rfl
  | a :: b :: s =>
    rw [urlDecode, if_neg]
    · rfl
    · rw [Bool.and_eq_true, Bool.and_eq_true, beq_iff_eq]
      exact fun h => hc h.1.1

theorem urlDecode_escape {a b : UInt8} (ha : isXDigit a = true) (hb : isXDigit b = true) (s : Bytes) :
    urlDecode (37 :: a :: b :: s) = decodedByte a b :: urlDecode s := by
  rw [urlDecode, if_pos]
  rw [ha, hb]
  rfl

/-- **A byte that is no part of an escape** keeps what is before it and behind it apart. -/
theorem urlDecode_append {c : UInt8} (hc : isXDigit c = false) (h37 : c ≠ 37) (h43 : c ≠ 43)
    (s t : Bytes) : urlDecode (s ++ c :: t) = urlDecode s ++ c :: urlDecode t := by
  have hplain : urlDecode (c :: t) = c :: urlDecode t := by
    rw [urlDecode_cons_of_ne h37, plusDecoded, if_neg (by rw [beq_iff_eq]; exact h43)]
  fun_induction urlDecode s with
  | case1 => exact hplain
  | case2 x =>
    rw [List.cons_append, List.nil_append, List.cons_append, List.nil_append, ← hplain]
    cases t with
    | nil => rfl
    | cons y t =>
      rw [urlDecode, if_neg (by rw [hc, Bool.and_false, Bool.false_and]; decide)]
  | case3 x y ih =>
    have hstep : urlDecode (x :: y :: c :: t) = plusDecoded x :: urlDecode (y :: c :: t) := by
      rw [urlDecode, if_neg (by rw [hc, Bool.and_false]; decide)]
      rfl
    exact hstep.trans (congrArg _ ih)
  | case4 x a b s hescape ih =>
    rw [List.cons_append, List.cons_append, List.cons_append, urlDecode, if_pos hescape, ih,
      List.cons_append]
  | case5 x a b s hescape ih =>
    rw [List.cons_append, List.cons_append, List.cons_append, urlDecode, if_neg hescape,
      List.cons_append, ← ih]
    rfl

/-- What the second decoding comes to. -/
theorem decodeAgain_cases {env : ParseEnv} {decoded fullPath : Bytes}
    (h : decodeAgain env decoded = .ok fullPath) :
    fullPath = decoded ∧ ((37 : UInt8) ∉ decoded ∨ env.secondPass = false) ∨
      fullPath = urlDecode decoded ∧ (37 : UInt8) ∈ decoded ∧ env.secondPass = true ∧
        (37 : UInt8) ∉ fullPath := by
  rw [decodeAgain] at h
  split at h
  · rename_i hagain
    rw [Bool.and_eq_true, List.contains_iff_mem] at hagain
    change (if _ then _ else _) = _ at h
    split at h
    · cases h
    · rename_i hleft
      cases h
      exact Or.inr ⟨rfl, hagain.1, hagain.2, fun hmem => hleft (List.contains_iff_mem.2 hmem)⟩
  · rename_i hagain
    rw [Bool.and_eq_true, List.contains_iff_mem, not_and_or, Bool.not_eq_true] at hagain
    cases h
    exact Or.inl ⟨rfl, hagain⟩

/-! ## Safe paths -/

/-- The texts that `server_path_safe` looks for. -/
def refusedTexts : List Bytes :=
  [ascii "..", ascii "%2e", ascii "%2E", ascii "%2f", ascii "%2F", ascii "%5c", ascii "%5C"]

theorem contains_iff {pat s : Bytes} : contains pat s = true ↔ pat <:+: s := strstr_isSome_iff

/-- **What `server_path_safe` refuses**. -/
theorem safe_iff {path : Bytes} : serverPathSafe path = true ↔
    path ≠ [] ∧ (∀ pat ∈ refusedTexts, ¬ pat <:+: path) ∧ (92 : UInt8) ∉ path ∧
      ∀ c ∈ path, 0x20 ≤ c ∧ c ≠ 0x7F := by
  simp only [serverPathSafe, refusedTexts, Bool.and_eq_true, Bool.not_eq_true', List.forall_mem_cons,
    List.not_mem_nil, false_implies, implies_true, and_true, ← contains_iff, Bool.not_eq_true,
    List.all_eq_true, and_assoc, List.isEmpty_eq_false_iff, List.contains_eq_mem, decide_eq_false_iff_not,
    Bool.or_eq_false_iff, UInt8.not_lt, beq_eq_false_iff_ne, ne_eq]

/-- **Which targets are accepted**, and what they are decoded to. -/
theorem checkTarget_iff {env : ParseEnv} {target fullPath : Bytes} :
    checkTarget env target = .ok fullPath ↔
      ¬ ascii "%00" <:+: target ∧ serverPathSafe target = true ∧
        decodeAgain env (urlDecode target) = .ok fullPath ∧ serverPathSafe fullPath = true := by
  rw [checkTarget, ← contains_iff]
  by_cases hbad : (contains (ascii "%00") target || !serverPathSafe target) = true
  · rw [if_pos hbad]
    rw [Bool.or_eq_true, Bool.not_eq_true'] at hbad
    refine iff_of_false (fun h => by cases h) ?_
    rintro ⟨hzero, hsafe, -⟩
    exact hbad.elim hzero fun hunsafe => by cases hsafe.symm.trans hunsafe
  · rw [if_neg hbad]
    rw [Bool.or_eq_true, not_or, Bool.not_eq_true', Bool.not_eq_false] at hbad
    rw [and_iff_right hbad.1, and_iff_right hbad.2]
    cases hdecode : decodeAgain env (urlDecode target) with
    | error text => exact iff_of_false (fun h => by cases h) fun h => by cases h.1
    | ok decoded =>
      change (if _ then _ else if _ then _ else _) = _ ↔ _
      by_cases hsafe : serverPathSafe decoded = true
      · -- a safe text has no control character
        have hlow : ¬ (decoded.any (· < 0x20)) = true := by
          rw [List.any_eq_true]
          rintro ⟨c, hc, hlt⟩
          exact absurd ((safe_iff.1 hsafe).2.2.2 c hc).1 (UInt8.not_le.2 (of_decide_eq_true hlt))
        rw [if_neg hlow, if_neg (by rw [hsafe]; decide)]
        exact ⟨fun h => ⟨h, by cases h; exact hsafe⟩, fun h => h.1⟩
      · refine iff_of_false (fun h => ?_) fun h => ?_
        · split_ifs at h with hlow hunsafe
          rw [Bool.not_eq_true', Bool.not_eq_false] at hunsafe
          exact hsafe hunsafe
        · cases h.1
          exact hsafe h.2

/-- A beginning of a safe text is safe. -/
theorem safe_of_begins {a b : Bytes} (ha : a ≠ []) (hab : a <+: b) (h : serverPathSafe b = true) :
    serverPathSafe a = true := by
  obtain ⟨-, hpat, hslash, hall⟩ := safe_iff.1 h
  exact safe_iff.2 ⟨ha, fun pat hp hi => hpat pat hp (hi.trans hab.isInfix),
    fun hmem => hslash (hab.subset hmem), fun c hc => hall c (hab.subset hc)⟩

/-- Without a percent or a plus sign, a target is decoded to itself. -/
theorem checkTarget_of_plain {env : ParseEnv} {target : Bytes} (hpercent : (37 : UInt8) ∉ target)
    (hplus : (43 : UInt8) ∉ target) (hsafe : serverPathSafe target = true) :
    checkTarget env target = .ok target := by
  have hagain : decodeAgain env target = .ok target := by
    rw [decodeAgain, if_neg]
    rw [Bool.and_eq_true, List.contains_iff_mem]
    exact fun h => hpercent h.1
  refine checkTarget_iff.2 ⟨fun hi => hpercent (hi.subset (by decide +kernel)), hsafe, ?_, hsafe⟩
  rwa [urlDecode_of_notMem hpercent, map_plusDecoded hplus]

/-- **A target is decoded to a text as long as itself** only without an escape, and by turning plus signs
to spaces. -/
theorem decoded_of_checkTarget {env : ParseEnv} {target fullPath : Bytes}
    (h : checkTarget env target = .ok fullPath) : fullPath.length ≤ target.length ∧
      (fullPath.length = target.length → (43 : UInt8) ∉ fullPath) := by
  obtain ⟨-, -, hdecode, -⟩ := checkTarget_iff.1 h
  have hfirst := length_urlDecode_le target
  obtain ⟨rfl, -⟩ | ⟨rfl, -⟩ := decodeAgain_cases hdecode
  · exact ⟨hfirst, fun hlen => urlDecode_of_length_eq hlen ▸ notMem_map_plusDecoded target⟩
  · have hsecond := length_urlDecode_le (urlDecode target)
    refine ⟨by omega, fun hlen => ?_⟩
    rw [urlDecode_of_length_eq (by omega)]
    exact notMem_map_plusDecoded _

/-- With memory for the second decoding, no percent sign is left. -/
theorem percent_notMem {env : ParseEnv} {target fullPath : Bytes}
    (h : checkTarget env target = .ok fullPath) (henv : env.secondPass = true) :
    (37 : UInt8) ∉ fullPath := by
  obtain ⟨-, -, hdecode, -⟩ := checkTarget_iff.1 h
  obtain ⟨rfl, hnone | hfalse⟩ | ⟨-, -, -, hnone⟩ := decodeAgain_cases hdecode
  · exact hnone
  · cases henv.symm.trans hfalse
  · exact hnone

/-! ## The path and the query -/

/-- **The target is split** at its first question mark. -/
theorem splitTarget_cases (env : ParseEnv) (fullPath : Bytes) :
    (63 : UInt8) ∉ fullPath ∧ splitTarget env fullPath = (fullPath, none, []) ∨
      ∃ path query, fullPath = path ++ 63 :: query ∧ (63 : UInt8) ∉ path ∧
        splitTarget env fullPath = (path,
          some (if env.queryCopy then query else query.takeWhile fun c => c != 38 && c != 61),
            parseQuery 50 query) := by
  cases hmark : strchr 63 fullPath with
  | none => exact Or.inl ⟨strchr_eq_none_iff.1 hmark, by rw [splitTarget, hmark]⟩
  | some i =>
    obtain ⟨hsplit, hpath⟩ := strchr_eq_some hmark
    exact Or.inr ⟨fullPath.take i, fullPath.drop (i + 1), hsplit, hpath, by rw [splitTarget, hmark]⟩

/-- What is behind a path and a question mark is the query. -/
theorem splitTarget_append (env : ParseEnv) {path : Bytes} (h : (63 : UInt8) ∉ path) (query : Bytes) :
    splitTarget env (path ++ 63 :: query) = (path,
      some (if env.queryCopy then query else query.takeWhile fun c => c != 38 && c != 61),
        parseQuery 50 query) := by
  have hdrop : (path ++ 63 :: query).drop (path.length + 1) = query := by
    rw [← List.drop_drop, List.drop_left]
    rfl
  rw [splitTarget, strchr_append h]
  simp only [List.take_left, hdrop]

theorem splitTarget_of_notMem (env : ParseEnv) {path : Bytes} (h : (63 : UInt8) ∉ path) :
    splitTarget env path = (path, none, []) := by
  rw [splitTarget, strchr_eq_none_iff.2 h]

/-! ## The request line -/

theorem notMem_strtok {s token rest : Bytes} (h : strtok s = some (token, rest)) :
    (32 : UInt8) ∉ token := by
  rw [strtok] at h
  split at h
  · cases h
  · cases h
    intro hmem
    exact absurd (List.mem_takeWhile_imp hmem) (by decide)

theorem dropWhile_space {token : Bytes} (hne : token ≠ []) (h : (32 : UInt8) ∉ token) (rest : Bytes) :
    (token ++ rest).dropWhile (· == 32) = token ++ rest := by
  obtain ⟨c, t, rfl⟩ := List.exists_cons_of_ne_nil hne
  refine List.dropWhile_cons_of_neg ?_
  rw [beq_iff_eq]
  rintro rfl
  exact h (List.mem_cons_self ..)

/-- A token ends at the first space behind it. -/
theorem strtok_token {token : Bytes} (hne : token ≠ []) (h : (32 : UInt8) ∉ token) (rest : Bytes) :
    strtok (token ++ 32 :: rest) = some (token, rest) := by
  have hall : ∀ c ∈ token, (c != 32) = true := by
    intro c hc
    rw [bne_iff_ne]
    rintro rfl
    exact h hc
  have htake : (token ++ 32 :: rest).takeWhile (· != 32) = token := by
    rw [List.takeWhile_append_of_pos hall, List.takeWhile_cons_of_neg (by decide), List.append_nil]
  have hdrop : (token ++ 32 :: rest).dropWhile (· != 32) = 32 :: rest := by
    rw [List.dropWhile_append_of_pos hall, List.dropWhile_cons_of_neg (by decide)]
  rw [strtok, dropWhile_space hne h]
  split
  · rename_i hnil
    exact absurd hnil (by simp)
  · rw [htake, hdrop, List.tail_cons]

/-- The last token. -/
theorem strtok_last {token : Bytes} (hne : token ≠ []) (h : (32 : UInt8) ∉ token) :
    strtok token = some (token, []) := by
  have hall : ∀ c ∈ token, (c != 32) = true := by
    intro c hc
    rw [bne_iff_ne]
    rintro rfl
    exact h hc
  have hdrop := dropWhile_space hne h []
  rw [List.append_nil] at hdrop
  rw [strtok, hdrop]
  split
  · exact absurd rfl hne
  · rw [List.takeWhile_eq_self_iff.2 hall, List.dropWhile_eq_nil_iff.2 hall, List.tail_nil]

theorem strtok_space (s : Bytes) : strtok (32 :: s) = strtok s := by
  rw [strtok, strtok, List.dropWhile_cons_of_pos (by decide)]

/-- In front of a space, the first token is in the text, or the text is nothing but spaces. -/
theorem strtok_append_cases (s rest : Bytes) :
    (∃ token r, strtok (s ++ 32 :: rest) = some (token, r) ∧ token <+: s.dropWhile (· == 32)) ∨
      strtok (s ++ 32 :: rest) = strtok rest := by
  induction s with
  | nil => exact Or.inr (strtok_space rest)
  | cons c s ih =>
    by_cases hc : c = 32
    · rw [hc, List.cons_append, strtok_space, List.dropWhile_cons_of_pos (by decide)]
      exact ih
    · have hstop : ∀ t : Bytes, (c :: t).dropWhile (· == 32) = c :: t := fun t =>
        List.dropWhile_cons_of_neg (by simpa using hc)
      have htoken : strtok (c :: s ++ 32 :: rest) =
          some ((c :: s ++ 32 :: rest).takeWhile (· != 32),
            ((c :: s ++ 32 :: rest).dropWhile (· != 32)).tail) := by
        rw [strtok, List.cons_append, hstop]
      have hend : (32 :: rest).takeWhile (· != 32) = [] := List.takeWhile_cons_of_neg (by decide)
      refine Or.inl ⟨_, _, htoken, ?_⟩
      rw [hstop, List.takeWhile_append, hend, List.append_nil]
      split_ifs
      · exact List.prefix_refl _
      · exact List.takeWhile_prefix _

end Server
end Arws

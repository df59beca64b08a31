import Mathlib.Data.List.DropRight
import Arws.Server.ForwardedFor

/-!
# The trusted proxies

`trusted_proxies_parse` takes the text of `ARWS_TRUSTED_PROXY` apart at its commas and reads each entry
as an address, with the length of its network behind a slash.  The length is read by `atoi`, which
takes `10.0.0.0/` and `10.0.0.0/all` for networks of length zero, and of the text only 2047 bytes are
copied, so that the last entry may lose its end.

* `and_mask_eq_iff` — what `ip_is_trusted_proxy` compares: the bits in front of the two addresses.
* `inetPton_inetNtop` — every address has a text that is read as it.
* `readEntry_of_entryOf` — an entry that is well formed is read as it is meant, if it is not cut.
* `othersWithin_of_wellFormed` — a text of well-formed entries, short enough, makes no trouble.
* `trustedExactly_iff` — the networks that are trusted are those that are meant, as long as what is
  read otherwise lies within the rest.
* `not_trustedExactly` — a slash too many, and everyone is trusted.
-/

set_option autoImplicit false

namespace Arws
namespace Server

open CString

/-! ## What is read -/

/-- `ARWS_MAX_TRUSTED_PROXIES`. -/
def maxTrustedProxies : Nat := 32

/-- An entry without the spaces and tabs around it. -/
def trimEntry (tok : Bytes) : Bytes :=
  (tok.dropWhile fun c => c == 32 || c == 9).rdropWhile fun c => c == 32 || c == 9

/-- An entry as it is read: of `host`, which has 127 bytes, what stands behind a slash is the length. -/
def readEntry (t : Bytes) : Option TrustedNet :=
  let host := t.take 127
  match strchr 47 host with
  | none => (inetPton host).map fun net => ⟨net, 32⟩
  | some slash =>
    let prefixLen := atoi (host.drop (slash + 1))
    if 0 ≤ prefixLen ∧ prefixLen ≤ 32 then
      (inetPton (host.take slash)).map fun net => ⟨net, prefixLen.toNat⟩
    else none

/-- The loop over the tokens, with room for so many networks. -/
def readEntries : Nat → List Bytes → List TrustedNet
  | 0, _ => []
  | _ + 1, [] => []
  | room + 1, tok :: toks =>
    let t := trimEntry tok
    if t = [] then readEntries (room + 1) toks
    else match readEntry t with
      | some net => net :: readEntries room toks
      | none => readEntries (room + 1) toks

/-- `trusted_proxies_parse`, for a variable that may not be set. -/
def trustedProxiesParse (env : Option Bytes) : List TrustedNet :=
  match env with
  | none => []
  | some env =>
    let list := env.take 2047
    readEntries maxTrustedProxies ((list.splitOn 44).filter (· ≠ []))

/-! ## What is meant -/

/-- A decimal number up to 32. -/
def prefixOf (s : Bytes) : Option Nat :=
  if s ≠ [] ∧ s.all isDigit = true ∧ digitsValue s ≤ 32 then some (digitsValue s) else none

/-- An address, or one with the length of its network behind a slash, and nothing else. -/
def entryOf (e : Bytes) : Option TrustedNet :=
  match strchr 47 e with
  | none => (inetPton e).map fun net => ⟨net, 32⟩
  | some slash => (inetPton (e.take slash)).bind fun net =>
      (prefixOf (e.drop (slash + 1))).map fun prefixLen => ⟨net, prefixLen⟩

/-- The entries of a text, without the blanks around them. -/
def entries (text : Bytes) : List Bytes := (text.splitOn 44).map trimEntry

/-- The first 32 entries that are well formed. -/
def wanted (env : Bytes) : List Bytes :=
  ((entries env).filter fun e => (entryOf e).isSome).take maxTrustedProxies

/-- The first 32 entries the code accepts, among the bytes it copies. -/
def accepted (env : Bytes) : List Bytes :=
  ((entries (env.take 2047)).filter fun e => (readEntry e).isSome).take maxTrustedProxies

/-- The address lies in the network: its first bits are those of the network's own. -/
def InNetwork (ip : UInt32) (t : TrustedNet) : Prop :=
  ip.toNat / 2 ^ (32 - t.prefixLen) = t.net.toNat / 2 ^ (32 - t.prefixLen)

instance (ip : UInt32) (t : TrustedNet) : Decidable (InNetwork ip t) :=
  inferInstanceAs (Decidable (_ = _))

/-- The address lies in the network of one of the entries, as they are read. -/
def Listed (read : Bytes → Option TrustedNet) (es : List Bytes) (ip : UInt32) : Prop :=
  ∃ e ∈ es, ∃ t, read e = some t ∧ InNetwork ip t

/-- The peers that are trusted are those in the networks that are meant. -/
def TrustedExactly (env : Option Bytes) : Prop :=
  ∀ (peerIp : Bytes) (ip : UInt32), inetPton peerIp = some ip →
    (ipIsTrustedProxy (trustedProxiesParse env) peerIp = true ↔
      Listed entryOf (wanted (env.getD [])) ip)

/-! ## Networks -/

/-- The bits of a mask: those in front. -/
theorem testBit_mask {t : TrustedNet} (ht : t.prefixLen ≤ 32) (j : Nat) :
    t.mask.toNat.testBit j = (decide (32 - t.prefixLen ≤ j) && decide (j < 32)) := by
  rw [TrustedNet.mask]
  split_ifs with h
  · rw [h, show (0 : UInt32).toNat = 0 from rfl, Nat.zero_testBit]
    by_cases hj : j < 32
    · rw [decide_eq_false (by omega), Bool.false_and]
    · rw [decide_eq_false hj, Bool.and_false]
  · have hshift : (UInt32.ofNat (32 - t.prefixLen)).toNat % 32 = 32 - t.prefixLen := by
      rw [UInt32.toNat_ofNat', Nat.mod_eq_of_lt (by omega : 32 - t.prefixLen < 2 ^ 32)]
      exact Nat.mod_eq_of_lt (by omega)
    rw [UInt32.toNat_shiftLeft, hshift, Nat.testBit_mod_two_pow, Nat.testBit_shiftLeft,
      show (0xFFFFFFFF : UInt32).toNat = 2 ^ 32 - 1 from rfl, Nat.testBit_two_pow_sub_one]
    by_cases hj : j < 32
    · rw [decide_eq_true hj, decide_eq_true (by omega : j - (32 - t.prefixLen) < 32), Bool.true_and,
        Bool.and_true]
    · rw [decide_eq_false hj, Bool.false_and, Bool.and_false]

/-- **The comparison of the code**: what is left of two addresses under a mask is the same exactly if
one lies in the network of the other. -/
theorem and_mask_eq_iff {t : TrustedNet} (ht : t.prefixLen ≤ 32) (ip : UInt32) :
    (ip &&& t.mask == t.net &&& t.mask) = true ↔ InNetwork ip t := by
  rw [beq_iff_eq, ← UInt32.toNat_inj, UInt32.toNat_and, UInt32.toNat_and, InNetwork]
  constructor
  · intro h
    refine Nat.eq_of_testBit_eq fun i => ?_
    have hbit := congrArg (fun n : Nat => n.testBit (i + (32 - t.prefixLen))) h
    simp only [Nat.testBit_and, testBit_mask ht] at hbit
    rw [Nat.testBit_div_two_pow, Nat.testBit_div_two_pow]
    by_cases hi : i + (32 - t.prefixLen) < 32
    · simpa [hi] using hbit
    · have hpow : 2 ^ 32 ≤ 2 ^ (i + (32 - t.prefixLen)) := Nat.pow_le_pow_right (by decide) (by omega)
      rw [Nat.testBit_lt_two_pow (Nat.lt_of_lt_of_le ip.toNat_lt hpow),
        Nat.testBit_lt_two_pow (Nat.lt_of_lt_of_le t.net.toNat_lt hpow)]
  · intro h
    refine Nat.eq_of_testBit_eq fun i => ?_
    rw [Nat.testBit_and, Nat.testBit_and, testBit_mask ht]
    by_cases hi : 32 - t.prefixLen ≤ i
    · have hbit := congrArg (fun n : Nat => n.testBit (i - (32 - t.prefixLen))) h
      simp only [Nat.testBit_div_two_pow, Nat.sub_add_cancel hi] at hbit
      rw [hbit]
    · rw [decide_eq_false hi, Bool.false_and, Bool.and_false, Bool.and_false]

/-! ## Every address has a text -/

theorem octet_printDecimal {n : Nat} (hn : n < 256) : octet (printDecimal n) = some n := by
  have hall : ∀ n : Fin 256, octet (printDecimal (n.1 : Int)) = some n.1 := by decide +kernel
  exact hall ⟨n, hn⟩

/-- **`inet_pton` reads what `inet_ntop` writes.** -/
theorem inetPton_inetNtop (addr : UInt32) : inetPton (inetNtop addr) = some addr := by
  have hlt := addr.toNat_lt
  have hbyte : ∀ n : UInt32, n.toNat < 32 →
      ((addr >>> n) &&& 0xFF).toNat = addr.toNat / 2 ^ n.toNat % 256 := by
    intro n hn
    rw [UInt32.toNat_and, UInt32.toNat_shiftRight, Nat.mod_eq_of_lt hn, Nat.shiftRight_eq_div_pow,
      show (0xFF : UInt32).toNat = 2 ^ 8 - 1 from rfl, Nat.and_two_pow_sub_one_eq_mod]
  have hdot : ∀ s ∈ [addr >>> 24, addr >>> 16, addr >>> 8, addr].map (fun octet =>
      printDecimal (octet &&& 0xFF).toNat), (46 : UInt8) ∉ s := by
    intro s hs h46
    obtain ⟨o, -, rfl⟩ := List.mem_map.1 hs
    obtain h | ⟨h, -⟩ := mem_printDecimal h46
    · exact absurd h (by decide)
    · exact absurd h (by decide)
  have h24 : ((addr >>> 24) &&& 0xFF).toNat = addr.toNat / 2 ^ 24 % 256 := hbyte 24 (by decide)
  have h16 : ((addr >>> 16) &&& 0xFF).toNat = addr.toNat / 2 ^ 16 % 256 := hbyte 16 (by decide)
  have h8 : ((addr >>> 8) &&& 0xFF).toNat = addr.toNat / 2 ^ 8 % 256 := hbyte 8 (by decide)
  have h0 : (addr &&& 0xFF).toNat = addr.toNat % 256 := by
    rw [UInt32.toNat_and]
    exact Nat.and_two_pow_sub_one_eq_mod addr.toNat 8
  have hread : ([addr >>> 24, addr >>> 16, addr >>> 8, addr].map fun octet =>
      printDecimal (octet &&& 0xFF).toNat).mapM octet = some
        [addr.toNat / 2 ^ 24 % 256, addr.toNat / 2 ^ 16 % 256, addr.toNat / 2 ^ 8 % 256,
          addr.toNat % 256] := by
    simp only [List.map_cons, List.map_nil, List.mapM_cons, List.mapM_nil]
    rw [octet_printDecimal (by rw [h24]; omega), octet_printDecimal (by rw [h16]; omega),
      octet_printDecimal (by rw [h8]; omega), octet_printDecimal (by rw [h0]; omega), h24, h16, h8, h0]
    rfl
  rw [inetPton, inetNtop, List.splitOn_intercalate 46 hdot (by simp), hread]
  refine congrArg some (UInt32.toNat_inj.1 ?_)
  rw [UInt32.toNat_ofNat', Nat.mod_eq_of_lt (by omega)]
  omega

/-! ## The entries that are read -/

/-- The first of what is read of a list, entry by entry. -/
theorem take_filterMap {α β : Type} (f : α → Option β) (n : Nat) (l : List α) :
    (l.filterMap f).take n = ((l.filter fun a => (f a).isSome).take n).filterMap f := by
  induction l generalizing n with
  | nil => rw [List.filter_nil, List.filterMap_nil, List.take_nil, List.take_nil, List.filterMap_nil]
  | cons a l ih =>
    cases n with
    | zero => rw [List.take_zero, List.take_zero, List.filterMap_nil]
    | succ n =>
      cases hfa : f a with
      | none => rw [List.filterMap_cons_none hfa, List.filter_cons_of_neg (by simp [hfa]), ih]
      | some b =>
        rw [List.filterMap_cons_some hfa, List.filter_cons_of_pos (by simp [hfa]), List.take_succ_cons,
          List.take_succ_cons, List.filterMap_cons_some hfa, ih]

/-- An empty entry is not an address. -/
theorem readEntry_nil : readEntry [] = none := by decide

theorem readEntries_eq (room : Nat) (toks : List Bytes) :
    readEntries room toks = ((toks.map trimEntry).filterMap readEntry).take room := by
  induction toks generalizing room with
  | nil => cases room <;> rfl
  | cons tok toks ih =>
    cases room with
    | zero => rfl
    | succ room =>
      rw [readEntries, List.map_cons]
      split_ifs with hempty
      · rw [hempty, List.filterMap_cons_none readEntry_nil, ih]
      · cases hread : readEntry (trimEntry tok) with
        | none => rw [List.filterMap_cons_none hread, ← ih]
        | some net => rw [List.filterMap_cons_some hread, List.take_succ_cons, ← ih]

/-- **The list that is parsed**: the first 32 entries that are accepted. -/
theorem trustedProxiesParse_eq (env : Option Bytes) :
    trustedProxiesParse env = (accepted (env.getD [])).filterMap readEntry := by
  have hskip : ∀ toks : List Bytes, ((toks.filter (· ≠ [])).map trimEntry).filterMap readEntry =
      (toks.map trimEntry).filterMap readEntry := by
    intro toks
    induction toks with
    | nil => rfl
    | cons tok toks ih =>
      by_cases htok : tok = []
      · rw [List.filter_cons_of_neg (by simp [htok]), List.map_cons, htok,
          List.filterMap_cons_none (show readEntry (trimEntry []) = none from readEntry_nil), ih]
      · rw [List.filter_cons_of_pos (by simp [htok]), List.map_cons, List.map_cons,
          List.filterMap_cons, List.filterMap_cons, ih]
  cases env with
  | none => rfl
  | some env =>
    rw [trustedProxiesParse, readEntries_eq, hskip, take_filterMap]
    rfl

/-- The length of a network that is read is one the mask is made for. -/
theorem prefixLen_of_readEntry {e : Bytes} {t : TrustedNet} (h : readEntry e = some t) :
    t.prefixLen ≤ 32 := by
  rw [readEntry] at h
  split at h
  · obtain ⟨net, -, rfl⟩ := Option.map_eq_some_iff.1 h
    exact Nat.le_refl 32
  · simp only at h
    split_ifs at h with hrange
    obtain ⟨net, -, rfl⟩ := Option.map_eq_some_iff.1 h
    exact Int.toNat_le.2 hrange.2

/-- **Who is trusted**: a peer in the network of an entry that is accepted. -/
theorem ipIsTrustedProxy_iff {env : Option Bytes} {peerIp : Bytes} {ip : UInt32}
    (hip : inetPton peerIp = some ip) :
    ipIsTrustedProxy (trustedProxiesParse env) peerIp = true ↔
      Listed readEntry (accepted (env.getD [])) ip := by
  rw [ipIsTrustedProxy, hip, trustedProxiesParse_eq]
  simp only [List.any_eq_true, List.mem_filterMap, Listed]
  constructor
  · rintro ⟨t, ⟨e, he, hread⟩, hmask⟩
    exact ⟨e, he, t, hread, (and_mask_eq_iff (prefixLen_of_readEntry hread) ip).1 hmask⟩
  · rintro ⟨e, he, t, hread, hnet⟩
    exact ⟨t, ⟨e, he, hread⟩, (and_mask_eq_iff (prefixLen_of_readEntry hread) ip).2 hnet⟩

/-! ## An entry that is well formed -/

/-- A decimal number is read by `atoi` as what it is. -/
theorem atoi_of_prefixOf {s : Bytes} {n : Nat} (h : prefixOf s = some n) : atoi s = n ∧ n ≤ 32 := by
  obtain ⟨⟨hne, hdigits, hle⟩, hn⟩ := Option.ite_none_right_eq_some.1 h
  obtain rfl : digitsValue s = n := Option.some_inj.1 hn
  rw [List.all_eq_true] at hdigits
  obtain ⟨c, t, rfl⟩ := List.exists_cons_of_ne_nil hne
  have hc := hdigits c (List.mem_cons_self ..)
  have hspace : isSpace c = false := by
    cases hspace : isSpace c with
    | false => rfl
    | true => exact absurd (isDigit_of_isSpace hspace) (by rw [hc]; decide)
  have hdrop : (c :: t).dropWhile isSpace = c :: t := by
    rw [List.dropWhile_cons, if_neg (by rw [hspace]; decide)]
  have hsign : ∀ d : UInt8, isDigit d = false → (c :: t).head? ≠ some d := by
    rintro d hd heq
    rw [Option.some_inj.1 heq, hd] at hc
    cases hc
  refine ⟨?_, hle⟩
  rw [atoi, strtol_of_unsigned (by rw [hdrop]; exact hsign 45 (by decide))
    (by rw [hdrop]; exact hsign 43 (by decide)), hdrop,
    List.takeWhile_eq_self_iff.2 fun d hd => hdigits d hd, longMax, toInt]
  omega

/-- **An entry that is well formed is read as it is meant**, if it is not cut. -/
theorem readEntry_of_entryOf {e : Bytes} {t : TrustedNet} (hlen : e.length ≤ 127)
    (h : entryOf e = some t) : readEntry e = some t := by
  rw [readEntry]
  simp only [List.take_of_length_le hlen]
  rw [entryOf] at h
  split at h
  · exact h
  · rename_i slash hslash
    obtain ⟨net, hnet, h⟩ := Option.bind_eq_some_iff.1 h
    obtain ⟨n, hn, rfl⟩ := Option.map_eq_some_iff.1 h
    obtain ⟨hatoi, hle⟩ := atoi_of_prefixOf hn
    simp only [hatoi]
    rw [if_pos ⟨Int.natCast_nonneg n, by omega⟩, hnet]
    rfl

/-! ## What is trusted and what is meant -/

/-- The entry is accepted and meant, and not cut. -/
def Kept (env e : Bytes) : Prop := e ∈ accepted env ∧ e ∈ wanted env ∧ e.length ≤ 127

instance (env e : Bytes) : Decidable (Kept env e) := inferInstanceAs (Decidable (_ ∧ _ ∧ _))

/-- What is read otherwise makes no difference: the networks of the other entries that are accepted lie
within those that are meant, and the networks of the other entries that are meant within those that are
accepted. -/
def OthersWithin (env : Bytes) : Prop :=
  (∀ e ∈ accepted env, ¬ Kept env e → ∀ ip, Listed readEntry [e] ip → Listed entryOf (wanted env) ip) ∧
  ∀ e ∈ wanted env, ¬ Kept env e → ∀ ip, Listed entryOf [e] ip → Listed readEntry (accepted env) ip

theorem entryOf_of_kept {env e : Bytes} (h : Kept env e) : readEntry e = entryOf e := by
  obtain ⟨-, hwanted, hlen⟩ := h
  have hsome := (List.mem_filter.1 (List.mem_of_mem_take hwanted)).2
  obtain ⟨t, ht⟩ := Option.isSome_iff_exists.1 hsome
  rw [ht, readEntry_of_entryOf hlen ht]

/-- **A text that is copied whole is read as it is meant**, if its entries are short enough and those
the code accepts are well formed. -/
theorem othersWithin_of_wellFormed {env : Bytes} (hcopied : env.length ≤ 2047)
    (hshort : ∀ e ∈ entries env, e.length ≤ 127)
    (h : ∀ e ∈ entries env, (readEntry e).isSome = true → (entryOf e).isSome = true) :
    OthersWithin env := by
  have hsame : accepted env = wanted env := by
    rw [accepted, wanted, List.take_of_length_le hcopied]
    congr 1
    refine List.filter_congr fun e he => Bool.eq_iff_iff.2 ⟨h e he, fun hentry => ?_⟩
    obtain ⟨t, ht⟩ := Option.isSome_iff_exists.1 hentry
    rw [readEntry_of_entryOf (hshort e he) ht]
    rfl
  have hkept : ∀ e ∈ wanted env, Kept env e := fun e he =>
    ⟨hsame ▸ he, he, hshort e (List.mem_filter.1 (List.mem_of_mem_take he)).1⟩
  exact ⟨fun e he hnot => absurd (hkept e (hsame ▸ he)) hnot, fun e he hnot => absurd (hkept e he) hnot⟩

/-- **Everyone is trusted who is meant, and no one else, exactly if what is read otherwise makes no
difference.** -/
theorem trustedExactly_iff (env : Option Bytes) : TrustedExactly env ↔ OthersWithin (env.getD []) := by
  constructor
  · intro h
    have hsame : ∀ ip, Listed readEntry (accepted (env.getD [])) ip ↔
        Listed entryOf (wanted (env.getD [])) ip := fun ip =>
      (ipIsTrustedProxy_iff (inetPton_inetNtop ip)).symm.trans (h _ ip (inetPton_inetNtop ip))
    refine ⟨fun e he _ ip hip => (hsame ip).1 ?_, fun e he _ ip hip => (hsame ip).2 ?_⟩
    · obtain ⟨e', he', hlisted⟩ := hip
      exact ⟨e', List.mem_singleton.1 he' ▸ he, hlisted⟩
    · obtain ⟨e', he', hlisted⟩ := hip
      exact ⟨e', List.mem_singleton.1 he' ▸ he, hlisted⟩
  · rintro ⟨haccepted, hwanted⟩ peerIp ip hip
    rw [ipIsTrustedProxy_iff hip]
    constructor
    · rintro ⟨e, he, t, hread, hnet⟩
      by_cases hkept : Kept (env.getD []) e
      · exact ⟨e, hkept.2.1, t, entryOf_of_kept hkept ▸ hread, hnet⟩
      · exact haccepted e he hkept ip ⟨e, List.mem_singleton_self e, t, hread, hnet⟩
    · rintro ⟨e, he, t, hread, hnet⟩
      by_cases hkept : Kept (env.getD []) e
      · exact ⟨e, hkept.1, t, (entryOf_of_kept hkept).trans hread, hnet⟩
      · exact hwanted e he hkept ip ⟨e, List.mem_singleton_self e, t, hread, hnet⟩

/-- **A slash with nothing behind it trusts everyone.** -/
theorem not_trustedExactly : ¬ TrustedExactly (some (ascii "10.0.0.0/")) := by
  intro h
  have heq := h (ascii "8.8.8.8") 0x08080808 (by rw [ascii_eq rfl]; decide +kernel)
  have htrusted : ipIsTrustedProxy (trustedProxiesParse (some (ascii "10.0.0.0/"))) (ascii "8.8.8.8") =
      true := by
    rw [ascii_eq rfl, ascii_eq rfl]
    decide +kernel
  obtain ⟨e, he, -⟩ := heq.1 htrusted
  have hnone : wanted (ascii "10.0.0.0/") = [] := by
    rw [ascii_eq rfl]
    decide +kernel
  rw [Option.getD_some, hnone] at he
  cases he

end Server
end Arws

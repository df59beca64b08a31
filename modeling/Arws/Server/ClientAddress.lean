import Arws.Server.HandleClient

/-!
# Who says where a request comes from

`handle_client` takes the client's address from the `X-Forwarded-For` field when its peer is a trusted
proxy.  A proxy appends the address it saw to what the client sent in that field, and the code takes
the first address in it: the one the client put there.

* `resolvedIp_eq` — the address that is resolved is the one a text begins with, if it is valid.
* `resolvedIp_eq_iff` — two requests through a trusted proxy resolve to one address exactly if the
  texts their clients sent begin with the same valid address, if with any; the headers of an untrusted
  peer do not count.
* `not_resolvedIp_eq` — a client gets any address it likes.
-/

set_option autoImplicit false

namespace Arws
namespace Server

open CString

/-! ## Dotted addresses -/

/-- A number without a zero in front has as many digits as it needs. -/
theorem le_digitsValue {c : UInt8} (hc : 49 ≤ c) (s : Bytes) :
    10 ^ s.length ≤ digitsValue (c :: s) := by
  have hle : ∀ (s : Bytes) (n : Nat), n * 10 ^ s.length ≤
      s.foldl (fun n c => 10 * n + (c.toNat - 48)) n := by
    intro s
    induction s with
    | nil => exact fun n => Nat.le_of_eq (Nat.mul_one n)
    | cons d s ih =>
      intro n
      refine Nat.le_trans ?_ (ih (10 * n + (d.toNat - 48)))
      rw [List.length_cons, Nat.pow_succ, ← Nat.mul_assoc, Nat.mul_right_comm, Nat.mul_comm n 10]
      exact Nat.mul_le_mul_right _ (Nat.le_add_right _ _)
  have hpos : 1 ≤ 10 * 0 + (c.toNat - 48) := by
    have := UInt8.le_iff_toNat_le.1 hc
    have h49 : (49 : UInt8).toNat = 49 := rfl
    omega
  calc 10 ^ s.length = 1 * 10 ^ s.length := (Nat.one_mul _).symm
    _ ≤ (10 * 0 + (c.toNat - 48)) * 10 ^ s.length := Nat.mul_le_mul_right _ hpos
    _ ≤ digitsValue (c :: s) := hle s _

theorem octet_cases {s : Bytes} {n : Nat} (h : octet s = some n) :
    (∀ c ∈ s, isDigit c = true) ∧ s ≠ [] ∧ s.length ≤ 3 := by
  obtain ⟨⟨hne, hdigits, hzero, hle⟩, -⟩ := Option.ite_none_right_eq_some.1 h
  rw [List.all_eq_true] at hdigits
  refine ⟨hdigits, hne, ?_⟩
  obtain ⟨c, s, rfl⟩ := List.exists_cons_of_ne_nil hne
  by_cases hc : c = 48
  · rw [hzero (congrArg some hc)]
    decide
  · have hdigit := hdigits c (List.mem_cons_self ..)
    have h49 : 49 ≤ c := by
      rw [isDigit, Bool.and_eq_true, decide_eq_true_eq, UInt8.le_iff_toNat_le] at hdigit
      have hne : c.toNat ≠ 48 := fun he => hc (UInt8.toNat_inj.1 he)
      have h48 : (48 : UInt8).toNat = 48 := rfl
      rw [UInt8.le_iff_toNat_le, show (49 : UInt8).toNat = 49 from rfl]
      omega
    have hpow := le_digitsValue h49 s
    by_contra hlong
    rw [List.length_cons] at hlong
    have := Nat.pow_le_pow_right (show 0 < 10 by decide) (show 3 ≤ s.length by omega)
    omega

theorem mapM_octet {parts : List Bytes} {ns : List Nat} (h : parts.mapM octet = some ns) :
    parts.length = ns.length ∧ ∀ s ∈ parts, ∃ n, octet s = some n := by
  induction parts generalizing ns with
  | nil =>
    cases h
    exact ⟨rfl, by simp⟩
  | cons s parts ih =>
    rw [List.mapM_cons] at h
    obtain ⟨n, hn, h⟩ := Option.bind_eq_some_iff.1 h
    obtain ⟨ns', hns', h⟩ := Option.bind_eq_some_iff.1 h
    cases h
    obtain ⟨hlen, hall⟩ := ih hns'
    exact ⟨congrArg (· + 1) hlen, List.forall_mem_cons.2 ⟨⟨n, hn⟩, hall⟩⟩

/-- What an address is made of. -/
theorem address_cases {ip : Bytes} (h : ipLooksValid ip = true) :
    ip ≠ [] ∧ ip.length ≤ 15 ∧ ∀ c ∈ ip, isDigit c = true ∨ c = 46 := by
  obtain ⟨addr, haddr⟩ := Option.isSome_iff_exists.1 h
  rw [inetPton] at haddr
  split at haddr
  · rename_i hparts
    obtain ⟨hlen, hall⟩ := mapM_octet hparts
    obtain ⟨p, q, r, t, heq⟩ : ∃ p q r t, ip.splitOn 46 = [p, q, r, t] :=
      List.length_eq_four.1 hlen
    have hip : ip = p ++ 46 :: (q ++ 46 :: (r ++ 46 :: t)) := by
      calc ip = [46].intercalate [p, q, r, t] := by rw [← heq, List.intercalate_splitOn]
        _ = _ := by simp [List.intercalate]
    have hoctet : ∀ s ∈ [p, q, r, t], (∀ c ∈ s, isDigit c = true) ∧ s ≠ [] ∧ s.length ≤ 3 :=
      fun s hs => octet_cases (hall s (heq ▸ hs)).choose_spec
    simp only [List.forall_mem_cons] at hoctet
    obtain ⟨⟨hp, -, hp3⟩, ⟨hq, -, hq3⟩, ⟨hr, -, hr3⟩, ⟨ht, -, ht3⟩, -⟩ := hoctet
    subst hip
    refine ⟨by simp, ?_, fun c hc => ?_⟩
    · simp only [List.length_append, List.length_cons]
      omega
    · simp only [List.mem_append, List.mem_cons] at hc
      obtain hc | rfl | hc | rfl | hc | rfl | hc := hc
      · exact Or.inl (hp c hc)
      · exact Or.inr rfl
      · exact Or.inl (hq c hc)
      · exact Or.inr rfl
      · exact Or.inl (hr c hc)
      · exact Or.inr rfl
      · exact Or.inl (ht c hc)
  · cases haddr

/-! ## The address a text begins with -/

/-- A text behind its blanks, up to a comma or a control character. -/
def leading (text : Bytes) : Bytes :=
  (text.dropWhile fun c => c == 32 || c == 9).takeWhile fun c => c != 44 && 0x20 ≤ c

/-- The text begins with the address. -/
def Claims (text ip : Bytes) : Prop := leading text = ip ∧ ipLooksValid ip = true

instance (text ip : Bytes) : Decidable (Claims text ip) :=
  inferInstanceAs (Decidable (_ ∧ _))

theorem firstForwarded_eq (xff : Bytes) : firstForwarded xff = (leading xff).take 63 := by
  rw [firstForwarded, leading, List.takeWhile_takeWhile, List.take_takeWhile]
  congr 1
  funext c
  rw [Bool.decide_and, Bool.decide_eq_true, Bool.decide_eq_true, Bool.and_comm]

/-- A valid address is not cut. -/
theorem valid_firstForwarded_iff {xff ip : Bytes} :
    firstForwarded xff = ip ∧ ipLooksValid ip = true ↔ Claims xff ip := by
  rw [firstForwarded_eq, Claims]
  constructor
  · rintro ⟨rfl, hvalid⟩
    obtain ⟨-, hlen, -⟩ := address_cases hvalid
    rw [List.length_take] at hlen
    rw [List.take_of_length_le (by omega)] at hvalid ⊢
    exact ⟨rfl, hvalid⟩
  · rintro ⟨rfl, hvalid⟩
    obtain ⟨-, hlen, -⟩ := address_cases hvalid
    rw [List.take_of_length_le (by omega)]
    exact ⟨rfl, hvalid⟩

/-- What is appended behind a comma is not looked at. -/
theorem leading_append (text appended : Bytes) : leading (text ++ 44 :: appended) = leading text := by
  have hstop : ∀ s : Bytes, (s ++ 44 :: appended).takeWhile (fun c => c != 44 && 0x20 ≤ c) =
      s.takeWhile fun c => c != 44 && 0x20 ≤ c := by
    intro s
    induction s with
    | nil => rfl
    | cons c s ih => rw [List.cons_append, List.takeWhile_cons, List.takeWhile_cons, ih]
  induction text with
  | nil => rfl
  | cons c text ih =>
    rw [leading, leading, List.cons_append, List.dropWhile_cons, List.dropWhile_cons]
    split_ifs
    · exact ih
    · exact hstop (c :: text)

/-! ## Which address is resolved -/

variable {trusted : List TrustedNet} {peerIp : Bytes} {req : HttpRequest}

/-- A trusted proxy is believed. -/
theorem resolvedIp_of_claims {xff ip : Bytes} (htrusted : ipIsTrustedProxy trusted peerIp = true)
    (hxff : getHeader req (ascii "X-Forwarded-For") = some xff) (h : Claims xff ip) :
    resolvedIp trusted false req peerIp = ip := by
  obtain ⟨hfirst, hvalid⟩ := valid_firstForwarded_iff.2 h
  obtain ⟨-, hlen, -⟩ := address_cases hvalid
  have hforwarded : forwardedIp false req = some ip := by
    rw [forwardedIp, if_neg (by decide), hxff, Option.map_some, hfirst]
    exact Option.filter_some_pos hvalid
  rw [resolvedIp, if_pos htrusted, hforwarded]
  exact List.take_of_length_le (by omega)

/-- Without an address in front, it is the proxy's own. -/
theorem resolvedIp_of_no_claim {xff : Bytes} (htrusted : ipIsTrustedProxy trusted peerIp = true)
    (hxff : getHeader req (ascii "X-Forwarded-For") = some xff) (h : ∀ ip, ¬ Claims xff ip) :
    resolvedIp trusted false req peerIp = peerIp := by
  have hinvalid : ¬ ipLooksValid (firstForwarded xff) = true := fun hvalid =>
    h _ (valid_firstForwarded_iff.1 ⟨rfl, hvalid⟩)
  have hforwarded : forwardedIp false req = none := by
    rw [forwardedIp, if_neg (by decide), hxff, Option.map_some]
    exact Option.filter_some_neg (Bool.not_eq_true _ ▸ hinvalid)
  rw [resolvedIp, if_pos htrusted, hforwarded]

/-- **The address that is resolved** for a client of a trusted proxy. -/
theorem resolvedIp_eq {xff ip : Bytes} (htrusted : ipIsTrustedProxy trusted peerIp = true)
    (hxff : getHeader req (ascii "X-Forwarded-For") = some xff) (hip : ip ≠ peerIp) :
    resolvedIp trusted false req peerIp = ip ↔ Claims xff ip := by
  refine ⟨fun hresolved => ?_, resolvedIp_of_claims htrusted hxff⟩
  by_cases hclaim : ∃ other, Claims xff other
  · obtain ⟨other, hother⟩ := hclaim
    rwa [← hresolved, resolvedIp_of_claims htrusted hxff hother]
  · rw [resolvedIp_of_no_claim htrusted hxff (not_exists.1 hclaim)] at hresolved
    exact absurd hresolved.symm hip

/-- `client_ip` when the request is handled. -/
theorem clientIp_identify {env : Shared} {fullPath : Bytes} {s s' : Session}
    (h : identify env fullPath req s = some s') :
    s'.conn.clientIp = resolvedIp env.trustedProxies env.behindCf req s.conn.clientIp := by
  simp only [identify, assignAnonId] at h
  split at h
  · split at h
    · cases h
      rfl
    · obtain ⟨anonId, -, h⟩ := Option.bind_eq_some_iff.1 h
      obtain ⟨id, -, h⟩ := Option.bind_eq_some_iff.1 h
      obtain ⟨responseHeaders, -, rfl⟩ := Option.map_eq_some_iff.1 h
      rfl
  · cases h
    rfl

/-! ## Two requests -/

/-- The field a proxy sends on, for what its client sent in it, if anything: it appends the address
it saw. -/
def sentOn (seen : Bytes) : Option Bytes → Bytes
  | none => seen
  | some text => text ++ 44 :: seen

/-- The address a client's text begins with; without a text, it is the one the proxy saw. -/
def ClientClaims (seen : Bytes) : Option Bytes → Bytes → Prop
  | none, ip => Claims seen ip
  | some text, ip => Claims text ip

theorem claims_sentOn_iff {seen ip : Bytes} {t : Option Bytes} :
    Claims (sentOn seen t) ip ↔ ClientClaims seen t ip := by
  cases t with
  | none => rfl
  | some text => rw [sentOn, Claims, leading_append, ClientClaims, Claims]

/-- **Through a trusted proxy, two requests come from one address exactly if their clients' texts
begin with the same one** other than the proxy's own; the headers of any other peer do not count. -/
theorem resolvedIp_eq_iff (trusted : List TrustedNet) (peerIp : Bytes) :
    (ipIsTrustedProxy trusted peerIp = true →
      ∀ (req₁ req₂ : HttpRequest) (seen : Bytes) (text₁ text₂ : Option Bytes),
        getHeader req₁ (ascii "X-Forwarded-For") = some (sentOn seen text₁) →
        getHeader req₂ (ascii "X-Forwarded-For") = some (sentOn seen text₂) →
        (resolvedIp trusted false req₁ peerIp = resolvedIp trusted false req₂ peerIp ↔
          ∀ ip, ip ≠ peerIp → (ClientClaims seen text₁ ip ↔ ClientClaims seen text₂ ip))) ∧
    (ipIsTrustedProxy trusted peerIp = false →
      ∀ (behindCf : Bool) (req : HttpRequest), resolvedIp trusted behindCf req peerIp = peerIp) := by
  refine ⟨fun htrusted req₁ req₂ seen text₁ text₂ h₁ h₂ => ?_, fun huntrusted behindCf req => ?_⟩
  · simp only [← claims_sentOn_iff]
    constructor
    · intro heq ip hip
      rw [← resolvedIp_eq htrusted h₁ hip, ← resolvedIp_eq htrusted h₂ hip, heq]
    · intro hclaims
      by_cases hip₁ : resolvedIp trusted false req₁ peerIp = peerIp
      · by_cases hip₂ : resolvedIp trusted false req₂ peerIp = peerIp
        · rw [hip₁, hip₂]
        · have hclaim := (resolvedIp_eq htrusted h₂ hip₂).1 rfl
          exact (resolvedIp_eq htrusted h₁ hip₂).2 ((hclaims _ hip₂).2 hclaim)
      · have hclaim := (resolvedIp_eq htrusted h₁ hip₁).1 rfl
        exact ((resolvedIp_eq htrusted h₂ hip₁).2 ((hclaims _ hip₁).1 hclaim)).symm
  · rw [resolvedIp, if_neg (by rw [huntrusted]; decide)]

/-- A request with a text in `X-Forwarded-For`. -/
def forwardedRequest (value : Bytes) : HttpRequest :=
  ⟨ascii "GET", ascii "/", none, [], [⟨ascii "X-Forwarded-For", value⟩], [], [], 0⟩

theorem getHeader_forwardedRequest (value : Bytes) :
    getHeader (forwardedRequest value) (ascii "X-Forwarded-For") = some value := by
  rw [getHeader, forwardedRequest, ascii_eq rfl]
  rfl

/-- The proxy 10.0.0.1. -/
def oneProxy : List TrustedNet := [⟨0x0A000001, 32⟩]

theorem oneProxy_trusted : ipIsTrustedProxy oneProxy (ascii "10.0.0.1") = true := by
  rw [ascii_eq rfl]
  decide +kernel

/-- Texts without an address in front make no difference. -/
theorem resolvedIp_eq_of_no_claims :
    resolvedIp oneProxy false (forwardedRequest (sentOn (ascii " 9.9.9.9") (some (ascii "x"))))
        (ascii "10.0.0.1") =
      resolvedIp oneProxy false (forwardedRequest (sentOn (ascii " 9.9.9.9") (some (ascii "y"))))
        (ascii "10.0.0.1") := by
  have hno : ∀ c, c = ascii "x" ∨ c = ascii "y" → ∀ ip, ¬ Claims c ip := by
    rintro c hc ip ⟨rfl, hvalid⟩
    obtain rfl | rfl := hc <;> exact absurd hvalid (by rw [ascii_eq rfl]; decide +kernel)
  refine ((resolvedIp_eq_iff oneProxy (ascii "10.0.0.1")).1 oneProxy_trusted _ _ _ _ _
    (getHeader_forwardedRequest _) (getHeader_forwardedRequest _)).2 fun ip _ => ?_
  exact iff_of_false (hno _ (Or.inl rfl) ip) (hno _ (Or.inr rfl) ip)

/-- **A client gets the address it asks for.** -/
theorem not_resolvedIp_eq : ¬ ∀ (trusted : List TrustedNet) (peerIp seen text₁ text₂ : Bytes)
    (req₁ req₂ : HttpRequest), ipIsTrustedProxy trusted peerIp = true →
      getHeader req₁ (ascii "X-Forwarded-For") = some (sentOn seen (some text₁)) →
      getHeader req₂ (ascii "X-Forwarded-For") = some (sentOn seen (some text₂)) →
      resolvedIp trusted false req₁ peerIp = resolvedIp trusted false req₂ peerIp := by
  intro h
  have heq := h oneProxy (ascii "10.0.0.1") (ascii " 9.9.9.9") (ascii "1.1.1.1") (ascii "2.2.2.2")
    _ _ oneProxy_trusted (getHeader_forwardedRequest _) (getHeader_forwardedRequest _)
  have hone : Claims (ascii "1.1.1.1") (ascii "1.1.1.1") := by
    rw [ascii_eq rfl]
    decide +kernel
  have htwo : Claims (ascii "2.2.2.2") (ascii "2.2.2.2") := by
    rw [ascii_eq rfl]
    decide +kernel
  rw [resolvedIp_of_claims oneProxy_trusted (getHeader_forwardedRequest _)
      ((claims_sentOn_iff (t := some _)).2 hone),
    resolvedIp_of_claims oneProxy_trusted (getHeader_forwardedRequest _)
      ((claims_sentOn_iff (t := some _)).2 htwo)] at heq
  repeat rw [ascii_eq rfl] at heq
  revert heq
  decide

end Server
end Arws

import Arws.Proxy.NodeTarget

/-!
# The two readers of target URLs

`parse_url` of the buffered proxy and `parse_target` of the stream proxy know different schemes; what follows
them is read by the same loops.

* `parseUrl_eq` — so a URL of a scheme that both know is read alike.
* `portLoop_eq` — the port is computed without overflow.
* `targetRight_iff` — and the host is the whole one exactly if it fits its buffer.
* `not_targetRight` — a host of 256 bytes loses its last one, and the port behind it is not read.
-/

set_option autoImplicit false

namespace Arws
namespace Proxy

open CString

/-! ## The loops -/

/-- The value of an `int` expression, if there is one. -/
def intValue (x : Int) : Option Int := if -2 ^ 31 ≤ x ∧ x < 2 ^ 31 then some x else none

/-- The loop over the host, by the bytes that are still free: what was copied, and what `p` points to. -/
def hostLoop : ℕ → Bytes → Bytes × Bytes
  | _, [] => ([], [])
  | 0, c :: s => ([], c :: s)
  | free + 1, c :: s =>
    if isHostByte c then (c :: (hostLoop free s).1, (hostLoop free s).2) else ([], c :: s)

/-- The loop over the port, computed in `int`: undefined if an expression has no value, and nothing if the
function returns from it. -/
def portLoop : ℕ → Int → Bytes → Option (Option Int)
  | _, port, [] => some (some port)
  | digits, port, c :: s =>
    if isDigit c then do
      let digit ← intValue ((c.toNat : Int) - 48)
      let room ← intValue (65535 - digit)
      if digits ≥ 5 ∨ port > room.tdiv 10 then some none
      else do
        let tens ← intValue (port * 10)
        let port ← intValue (tens + digit)
        portLoop (digits + 1) port s
    else some (some port)

/-- What both functions do behind the scheme. -/
def parseRest (hostSize : ℕ) (rest : Bytes) (port : Int) : Option (Option (Bytes × Int)) :=
  let (host, p) := hostLoop (hostSize - 1) rest
  match p with
  | 58 :: digits => do
    let read ← portLoop 0 0 digits
    some (read.bind fun port => if port ≤ 0 then none else some (host, port))
  | _ => some (some (host, port))

/-- `parse_url`. -/
def parseUrl (url : Bytes) (hostSize : ℕ) : Option (Option (Bytes × Int)) :=
  if hostSize < 1 then some none
  else if (ascii "http://").isPrefixOf url then parseRest hostSize (url.drop 7) 80
  else if (ascii "https://").isPrefixOf url then parseRest hostSize (url.drop 8) 443
  else some none

/-- `parse_target`, loop by loop. -/
def parseTargetInt (url : Bytes) (hostSize : ℕ) : Option (Option (Bytes × Int)) :=
  if hostSize < 1 then some none
  else if (ascii "ws://").isPrefixOf url then parseRest hostSize (url.drop 5) 80
  else if (ascii "wss://").isPrefixOf url then parseRest hostSize (url.drop 6) 443
  else if (ascii "http://").isPrefixOf url then parseRest hostSize (url.drop 7) 80
  else if (ascii "https://").isPrefixOf url then parseRest hostSize (url.drop 8) 443
  else some none

/-! ## What a URL says -/

/-- The host that is named behind a scheme. -/
def authority (rest : Bytes) : Bytes := rest.takeWhile isHostByte

/-- The digits behind the colon, if the host is followed by one. -/
def portDigits (rest : Bytes) : Option Bytes :=
  match rest.dropWhile isHostByte with
  | 58 :: s => some (s.takeWhile isDigit)
  | _ => none

/-- The port that is named, or the one of the scheme. -/
def namedPort (rest : Bytes) (standard : Int) : Int := (portDigits rest).elim standard fun s => digitsValue s

/-- The URL is read correctly, without overflow and alike. -/
structure TargetRight (url : Bytes) (hostSize : ℕ) : Prop where
  defined : parseTargetInt url hostSize = some (parseTarget url hostSize)
  read : ∀ host port, parseTarget url hostSize = some (host, port) →
    ∃ rest standard, parseScheme url = some (rest, standard) ∧ 1 ≤ port ∧ port ≤ 65535 ∧
      port = namedPort rest standard ∧ host = authority rest
  alike : ascii "http://" <+: url ∨ ascii "https://" <+: url →
    parseUrl url hostSize = some (parseTarget url hostSize)

/-! ## The loops by what they read -/

theorem hostLoop_eq (free : ℕ) (s : Bytes) :
    hostLoop free s = ((authority s).take free, s.drop ((authority s).take free).length) := by
  rw [authority]
  induction s generalizing free with
  | nil =>
    cases free with
    | zero => rfl
    | succ free => rfl
  | cons c s ih =>
    cases free with
    | zero => rfl
    | succ free =>
      rw [hostLoop]
      split_ifs with hc
      · rw [ih free, List.takeWhile_cons_of_pos hc, List.take_succ_cons, List.length_cons,
          List.drop_succ_cons]
      · rw [List.takeWhile_cons_of_neg hc]
        rfl

theorem intValue_of {x : Int} (hlo : -2 ^ 31 ≤ x) (hhi : x < 2 ^ 31) : intValue x = some x :=
  if_pos ⟨hlo, hhi⟩

/-- **Nothing overflows**: what is checked before a digit is added keeps the port in its range. -/
theorem portLoop_eq {digits : ℕ} {port : Int} {s : Bytes} (hlo : 0 ≤ port) (hhi : port ≤ 65535) :
    portLoop digits port s = some (parsePort digits port s) := by
  induction s generalizing digits port with
  | nil => rfl
  | cons c s ih =>
    have hbyte : (c.toNat : Int) < 256 := by exact_mod_cast UInt8.toNat_lt c
    rw [portLoop, parsePort]
    split_ifs with hc hstop
    · simp only [intValue_of (show -2 ^ 31 ≤ (c.toNat : Int) - 48 by omega) (by omega),
        intValue_of (show -2 ^ 31 ≤ 65535 - ((c.toNat : Int) - 48) by omega) (by omega),
        Option.bind_eq_bind, Option.bind_some, if_pos hstop]
    · have hdigit : 48 ≤ c.toNat := by
        rw [isDigit, Bool.and_eq_true, decide_eq_true_eq] at hc
        exact UInt8.le_iff_toNat_le.1 hc.1
      have hroom : port ≤ (65535 - ((c.toNat : Int) - 48)) / 10 := by
        rw [← Int.tdiv_eq_ediv_of_nonneg (by omega)]
        omega
      simp only [intValue_of (show -2 ^ 31 ≤ (c.toNat : Int) - 48 by omega) (by omega),
        intValue_of (show -2 ^ 31 ≤ 65535 - ((c.toNat : Int) - 48) by omega) (by omega),
        intValue_of (show -2 ^ 31 ≤ port * 10 by omega) (by omega),
        intValue_of (show -2 ^ 31 ≤ port * 10 + ((c.toNat : Int) - 48) by omega) (by omega),
        Option.bind_eq_bind, Option.bind_some, if_neg hstop]
      exact ih (by omega) (by omega)
    · rfl

/-- A port ends at the first byte that is no digit. -/
theorem parsePort_takeWhile (digits : ℕ) (port : Int) (s : Bytes) :
    parsePort digits port s = parsePort digits port (s.takeWhile isDigit) := by
  induction s generalizing digits port with
  | nil => rfl
  | cons c s ih =>
    by_cases hc : isDigit c = true
    · rw [List.takeWhile_cons_of_pos hc, parsePort, parsePort, if_pos hc, if_pos hc, ih]
    · rw [List.takeWhile_cons_of_neg hc, parsePort, parsePort, if_neg hc]

/-- What `parse_target` does behind the scheme. -/
def targetRest (hostSize : ℕ) (rest : Bytes) (port : Int) : Option (Bytes × Int) :=
  let host := (authority rest).take (hostSize - 1)
  match rest.drop host.length with
  | 58 :: digits => (parsePort 0 0 digits).bind fun port => if port ≤ 0 then none else some (host, port)
  | _ => some (host, port)

theorem parseTarget_eq {hostSize : ℕ} (hsize : ¬ hostSize < 1) (url : Bytes) :
    parseTarget url hostSize = (parseScheme url).bind fun (rest, port) => targetRest hostSize rest port :=
  if_neg hsize

theorem parseRest_eq (hostSize : ℕ) (rest : Bytes) (port : Int) :
    parseRest hostSize rest port = some (targetRest hostSize rest port) := by
  rw [parseRest, targetRest, hostLoop_eq]
  generalize (authority rest).take (hostSize - 1) = host
  generalize rest.drop host.length = p
  simp only
  split
  · rw [portLoop_eq (Int.le_refl 0) (by decide)]
    rfl
  · rename_i hother
    split
    · exact absurd rfl (hother _)
    · rfl

/-- **`parse_target` is defined** on every string. -/
theorem parseTargetInt_eq (url : Bytes) (hostSize : ℕ) :
    parseTargetInt url hostSize = some (parseTarget url hostSize) := by
  rw [parseTargetInt]
  split_ifs with hsize hws hwss hhttp hhttps
  · rw [parseTarget, if_pos hsize]
  · rw [parseTarget_eq hsize, parseScheme, if_pos hws, parseRest_eq, Option.bind_some]
  · rw [parseTarget_eq hsize, parseScheme, if_neg hws, if_pos hwss, parseRest_eq, Option.bind_some]
  · rw [parseTarget_eq hsize, parseScheme, if_neg hws, if_neg hwss, if_pos hhttp, parseRest_eq,
      Option.bind_some]
  · rw [parseTarget_eq hsize, parseScheme, if_neg hws, if_neg hwss, if_neg hhttp, if_pos hhttps,
      parseRest_eq, Option.bind_some]
  · rw [parseTarget_eq hsize, parseScheme, if_neg hws, if_neg hwss, if_neg hhttp, if_neg hhttps,
      Option.bind_none]

/-- **The readers agree** on the schemes that both of them know. -/
theorem parseUrl_eq {url : Bytes} (h : ascii "http://" <+: url ∨ ascii "https://" <+: url) (hostSize : ℕ) :
    parseUrl url hostSize = some (parseTarget url hostSize) := by
  have hother : (ascii "ws://").isPrefixOf url = false ∧ (ascii "wss://").isPrefixOf url = false := by
    obtain ⟨rest, rfl⟩ | ⟨rest, rfl⟩ := h
    · exact ⟨rfl, rfl⟩
    · exact ⟨rfl, rfl⟩
  rw [← parseTargetInt_eq, parseTargetInt, parseUrl, hother.1, hother.2]
  rfl

/-! ## When the host is whole -/

/-- The port behind a host that fits is the one that is named. -/
theorem targetRest_of_lt {hostSize : ℕ} {rest host : Bytes} {standard port : Int}
    (hfit : (authority rest).length < hostSize) (hstandard : 1 ≤ standard ∧ standard ≤ 65535)
    (h : targetRest hostSize rest standard = some (host, port)) :
    1 ≤ port ∧ port ≤ 65535 ∧ port = namedPort rest standard ∧ host = authority rest := by
  have hbehind : rest.drop (authority rest).length = rest.dropWhile isHostByte := by
    have hsplit : authority rest ++ rest.dropWhile isHostByte = rest := List.takeWhile_append_dropWhile
    calc rest.drop (authority rest).length
        = (authority rest ++ rest.dropWhile isHostByte).drop (authority rest).length := by rw [hsplit]
      _ = rest.dropWhile isHostByte := List.drop_left
  rw [targetRest, List.take_of_length_le (by omega), hbehind] at h
  rw [namedPort, portDigits]
  split at h
  · rename_i digits _
    obtain ⟨value, hvalue, h⟩ := Option.bind_eq_some_iff.1 h
    rw [Option.ite_none_left_eq_some, Option.some.injEq, Prod.mk.injEq] at h
    obtain ⟨hpos, rfl, rfl⟩ := h
    rw [parsePort_takeWhile] at hvalue
    have hdigits : ∀ c ∈ digits.takeWhile isDigit, isDigit c = true := fun c hc =>
      List.mem_takeWhile_imp hc
    obtain ⟨hnumber, hsmall, -⟩ :=
      @parsePort_eq_some 0 0 _ _ hdigits hvalue (Nat.zero_le _) (Nat.zero_le _)
    exact ⟨by omega, hsmall, hnumber, rfl⟩
  · rw [Option.some.injEq, Prod.mk.injEq] at h
    obtain ⟨rfl, rfl⟩ := h
    exact ⟨hstandard.1, hstandard.2, rfl, rfl⟩

/-- A host that does not fit is cut, and what is behind it is not read. -/
theorem targetRest_of_le {hostSize : ℕ} (hsize : 0 < hostSize) {rest : Bytes} (standard : Int)
    (hlong : hostSize ≤ (authority rest).length) :
    targetRest hostSize rest standard = some ((authority rest).take (hostSize - 1), standard) := by
  have hcut : ((authority rest).take (hostSize - 1)).length = hostSize - 1 :=
    List.length_take_of_le (by omega)
  have hbyte : ∀ s : Bytes, rest.drop (hostSize - 1) ≠ 58 :: s := by
    intro s hs
    have hlt : hostSize - 1 < (authority rest).length := by omega
    have hget : rest[hostSize - 1]? = some (authority rest)[hostSize - 1] :=
      List.prefix_iff_getElem?.1 (List.takeWhile_prefix _) _ hlt
    have hcolon : rest[hostSize - 1]? = some 58 := by
      rw [← Nat.add_zero (hostSize - 1), ← List.getElem?_drop, hs]
      rfl
    have hhost : isHostByte (authority rest)[hostSize - 1] = true :=
      List.mem_takeWhile_imp (List.getElem_mem hlt)
    rw [Option.some.inj (hget.symm.trans hcolon)] at hhost
    exact absurd hhost (by decide)
  rw [targetRest, hcut]
  split
  · rename_i digits hcolon
    exact absurd hcolon (hbyte digits)
  · rfl

theorem standardPort {url rest : Bytes} {standard : Int} (h : parseScheme url = some (rest, standard)) :
    1 ≤ standard ∧ standard ≤ 65535 := by
  rw [parseScheme] at h
  split_ifs at h <;>
  · obtain ⟨-, rfl⟩ := Prod.mk.inj (Option.some.inj h)
    decide

/-- A host that is read correctly fits. -/
theorem TargetRight.fits {url : Bytes} {hostSize : ℕ} (h : TargetRight url hostSize) (hsize : 0 < hostSize)
    {rest : Bytes} {standard : Int} (hscheme : parseScheme url = some (rest, standard)) :
    (authority rest).length < hostSize := by
  by_contra hlong
  have hcut : parseTarget url hostSize = some ((authority rest).take (hostSize - 1), standard) := by
    rw [parseTarget_eq (by omega), hscheme, Option.bind_some]
    exact targetRest_of_le hsize standard (Nat.not_lt.1 hlong)
  obtain ⟨rest', standard', hscheme', -, -, -, hwhole⟩ := h.read _ _ hcut
  rw [hscheme, Option.some.injEq, Prod.mk.injEq] at hscheme'
  obtain ⟨rfl, rfl⟩ := hscheme'
  have hlen := congrArg List.length hwhole
  rw [List.length_take] at hlen
  omega

/-- **Target URLs are read correctly** exactly if the host fits its buffer. -/
theorem targetRight_iff (url : Bytes) (hostSize : ℕ) :
    TargetRight url hostSize ↔ (0 < hostSize → ∀ rest standard, parseScheme url = some (rest, standard) →
      (authority rest).length < hostSize) := by
  constructor
  · exact fun h hsize rest standard hscheme => h.fits hsize hscheme
  · intro h
    refine ⟨parseTargetInt_eq url hostSize, ?_, fun hscheme => parseUrl_eq hscheme hostSize⟩
    intro host port hread
    by_cases hsize : hostSize < 1
    · rw [parseTarget, if_pos hsize] at hread
      cases hread
    · rw [parseTarget_eq hsize] at hread
      obtain ⟨⟨rest, standard⟩, hscheme, hread⟩ := Option.bind_eq_some_iff.1 hread
      have hfit := h (Nat.not_lt.1 hsize) rest standard hscheme
      exact ⟨rest, standard, hscheme, targetRest_of_lt hfit (standardPort hscheme) hread⟩

/-- A host of 256 bytes and its port, read with the buffer of the proxies. -/
theorem not_targetRight :
    ¬ TargetRight (ascii "http://" ++ (List.replicate 256 97 ++ ascii ":8080/")) 256 := by
  intro h
  have hwhole : ∀ c ∈ List.replicate 256 (97 : UInt8), isHostByte c = true := fun c hc =>
    List.eq_of_mem_replicate hc ▸ rfl
  have hlen := h.fits (by decide) (parseScheme_http _)
  rw [authority, List.takeWhile_append_of_pos hwhole, List.length_append, List.length_replicate] at hlen
  omega

end Proxy
end Arws

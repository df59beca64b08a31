import Arws.Config.RoutesKept
import Arws.Gateway.Register

/-!
# Patterns that match the same

A registration goes to the router and to the configuration.  The router puts a slash before a prefix that
has none, and the handler takes the slashes away before it hands the prefix on; the configuration cuts it
to its array, and the router gets what is left.

* `pathMatches_ext_iff` — two prefixes match the same paths exactly if they have the same stem, and
  either both or none of them match whatever the stem begins.
* `eq_of_hostMatches_ext` — a host that is cut short matches other hosts.
* `PrefixReadsBack.pathMatches_eq`, `prefixReadsBack_of_ext` — the prefixes that come back as prefixes
  for the same paths.
-/

set_option autoImplicit false

namespace Arws
namespace Gateway

open CString Router
open Config hiding hostMatches
open Config.Routes

/-! ## Paths -/

/-- The prefix matches every path that its stem begins. -/
def MatchesAll (p : Bytes) : Prop :=
  p = [] ∨ p.getLast? = some 42 ∨ 1 < p.length ∧ p.getLast? = some 47

instance (p : Bytes) : Decidable (MatchesAll p) :=
  inferInstanceAs (Decidable (_ ∨ _ ∨ _))

theorem stem_isPrefix (p : Bytes) : stem p <+: p := by
  rw [stem]
  split
  · exact List.dropLast_prefix p
  · exact List.prefix_refl p

theorem stem_of_plain {p : Bytes} (h : p.getLast? ≠ some 42) : stem p = p := if_neg h

theorem length_le_length_stem (p : Bytes) : p.length ≤ (stem p).length + 1 := by
  rw [stem]
  split
  · rw [List.length_dropLast]
    omega
  · exact Nat.le_succ _

theorem pathMatches_of_matchesAll {p path : Bytes} (h : MatchesAll p) (hpath : stem p <+: path) :
    Router.pathMatches p path = true := by
  rw [Router.pathMatches]
  split_ifs with hnil hstar hself
  · rfl
  · rw [stem, if_pos hstar] at hpath
    exact List.isPrefixOf_iff_prefix.2 hpath
  · rfl
  · obtain ⟨hlong, hslash⟩ := (h.resolve_left hnil).resolve_left hstar
    rw [stem_of_plain hstar] at hpath
    rw [decide_eq_true hlong, List.isPrefixOf_iff_prefix.2 hpath, hslash]
    cases (path.drop p.length).head? <;> simp

/-- It is enough to try one path: the stem and a letter. -/
theorem matchesAll_iff (p : Bytes) :
    MatchesAll p ↔ Router.pathMatches p (stem p ++ [97]) = true := by
  refine ⟨fun h => pathMatches_of_matchesAll h (List.prefix_append _ _), fun h => ?_⟩
  by_cases hnil : p = []
  · exact Or.inl hnil
  by_cases hstar : p.getLast? = some 42
  · exact Or.inr (Or.inl hstar)
  rw [stem_of_plain hstar, Router.pathMatches, if_neg hnil, if_neg hstar, if_neg (by simp),
    List.drop_left] at h
  simp only [Bool.and_eq_true, decide_eq_true_eq, List.head?_cons, Bool.or_eq_true, beq_iff_eq] at h
  obtain ⟨⟨hlong, -⟩, hc⟩ := h
  refine Or.inr (Or.inr ⟨hlong, ?_⟩)
  rcases hc with (hc | hc) | hc
  · cases hc
  · cases hc
  · exact hc

/-- **Two prefixes match the same paths** exactly if they have the same stem, and either both or none of
them match whatever it begins. -/
theorem pathMatches_ext_iff {p q : Bytes} :
    (∀ path, Router.pathMatches p path = Router.pathMatches q path) ↔
      stem p = stem q ∧ (MatchesAll p ↔ MatchesAll q) := by
  constructor
  · intro h
    have hpq : stem p <+: stem q := stem_prefix_of_pathMatches ((h _).trans (pathMatches_stem q))
    have hqp : stem q <+: stem p := stem_prefix_of_pathMatches ((h _).symm.trans (pathMatches_stem p))
    have hstem : stem p = stem q := hpq.eq_of_length_le hqp.length_le
    refine ⟨hstem, ?_⟩
    rw [matchesAll_iff, matchesAll_iff, hstem, h]
  · rintro ⟨hstem, hall⟩ path
    by_cases hp : MatchesAll p
    · rw [Bool.eq_iff_iff]
      constructor
      · intro h
        exact pathMatches_of_matchesAll (hall.1 hp) (hstem ▸ stem_prefix_of_pathMatches h)
      · intro h
        exact pathMatches_of_matchesAll hp (hstem ▸ stem_prefix_of_pathMatches h)
    · -- neither ends with an asterisk, so the stems are the prefixes
      have hplain : ∀ r : Bytes, ¬ MatchesAll r → stem r = r := fun r hr =>
        stem_of_plain fun hstar => hr (Or.inr (Or.inl hstar))
      rw [← hplain p hp, hstem, hplain q fun hq => hp (hall.2 hq)]

/-! ## Hosts -/

/-- No loopback host begins as `www` does. -/
theorem isLoopbackHost_of_head {c : UInt8} (hc : toLower c = 119) (s : Bytes) :
    isLoopbackHost (c :: s) = false := by
  have hne : ∀ (d : UInt8) (t : Bytes), toLower d ≠ 119 → strcaseeq (c :: s) (d :: t) = false := by
    intro d t hd
    rw [strcaseeq, beq_eq_false_iff_ne, List.map_cons, List.map_cons]
    exact fun h => hd ((List.cons.inj h).1.symm.trans hc)
  have hdigit : (ascii "127.").isPrefixOf (c :: s) = false := by
    rw [← Bool.not_eq_true, List.isPrefixOf_iff_prefix]
    intro h
    have hhead : 49 = c := (List.cons_prefix_cons.1 h).1
    rw [← hhead] at hc
    revert hc
    decide
  rw [isLoopbackHost, hdigit, show ascii "localhost" = 108 :: ascii "ocalhost" from rfl,
    show ascii "0.0.0.0" = 48 :: ascii ".0.0.0" from rfl, show ascii "::1" = 58 :: ascii ":1" from rfl,
    show ascii "[::1]" = 91 :: ascii "::1]" from rfl, hne _ _ (by decide), hne _ _ (by decide),
    hne _ _ (by decide), hne _ _ (by decide)]
  rfl

/-- A host that is cut short does not match the whole host with `www.` before it. -/
theorem hostMatches_www_cut {a b : Bytes} (hab : a <+: b) (hne : a ≠ b) (hnil : a ≠ [])
    (hstar : a ≠ [42]) : hostMatches a (ascii "www." ++ b) = false := by
  have hlt : a.length < b.length := lt_of_le_of_ne hab.length_le fun he => hne (hab.eq_of_length he)
  have hwww : ascii "www." = [119, 119, 119, 46] := rfl
  have hdrop : (ascii "www." ++ b).drop 4 = b := List.drop_left' rfl
  have hcase : ∀ t : Bytes, b.length ≤ t.length → strcaseeq a t = false := fun t ht =>
    Bool.eq_false_iff.2 fun h => by
      have := length_eq_of_strcaseeq h
      omega
  have hloop : isLoopbackHost (ascii "www." ++ b) = false := isLoopbackHost_of_head rfl _
  have hlabel : sameLoopbackLabel a (ascii "www." ++ b) = false := by
    have hdot : strchr 46 (ascii "www." ++ b) = some 3 := rfl
    rw [sameLoopbackLabel, hdot]
    cases hfound : strchr 46 a with
    | none => rfl
    | some r =>
      dsimp only
      by_cases hr : r = 3
      · subst hr
        rw [hdrop]
        by_cases hlower : strcaseeq (a.take 3) ((ascii "www." ++ b).take 3) = true
        · -- the label is `www`, and so the host itself is no loopback host
          obtain ⟨c, a, rfl⟩ := List.exists_cons_of_ne_nil hnil
          obtain ⟨t, rfl⟩ := hab
          have hc : toLower c = 119 := by
            have := beq_iff_eq.1 hlower
            rw [hwww] at this
            exact (List.cons.inj this).1
          rw [List.cons_append, isLoopbackHost_of_head hc, Bool.and_false]
        · rw [Bool.not_eq_true] at hlower
          rw [hlower, Bool.and_false, Bool.false_and, Bool.false_and]
      · rw [beq_eq_false_iff_ne.2 hr, Bool.false_and, Bool.false_and, Bool.false_and]
  rw [hostMatches, if_neg (not_or.2 ⟨hnil, hstar⟩), if_neg (by simp [hwww]), hloop, hlabel, hdrop,
    hcase b le_rfl, hcase _ (by simp)]
  simp

/-- **A host that is cut short matches other hosts.** -/
theorem eq_of_hostMatches_ext {a b : Bytes} (hab : a <+: b) (hb : b ≠ [42])
    (h : ∀ host, hostMatches a host = hostMatches b host) : a = b := by
  by_contra hne
  have hbnil : b ≠ [] := by
    rintro rfl
    exact hne (List.prefix_nil.1 hab)
  by_cases hall : a = [] ∨ a = [42]
  · have := h []
    rw [hostMatches, if_pos hall, hostMatches, if_neg (not_or.2 ⟨hbnil, hb⟩), if_pos rfl] at this
    cases this
  · obtain ⟨hnil, hstar⟩ := not_or.1 hall
    have := h (ascii "www." ++ b)
    rw [hostMatches_www_cut hab hne hnil hstar, hostMatches_www] at this
    cases this

/-! ## Prefixes that are read back -/

/-- `cfg_path`. -/
def cfgPath (pathPrefix : Bytes) : Bytes :=
  let p := pathPrefix.dropWhile (· == 47)
  if p = [42] ∨ pathPrefix = ascii "/*" ∨ pathPrefix = [42] then [42]
  else if p = [] ∨ pathPrefix = [47] then [42]
  else p

/-- It is what `save_config` would write of the prefix. -/
theorem cfgPath_eq (pathPrefix : Bytes) : cfgPath pathPrefix = writtenPath pathPrefix := by
  rw [cfgPath, writtenPath]
  by_cases hnil : pathPrefix.dropWhile (· == 47) = []
  · rw [if_pos hnil, if_pos (Or.inl hnil), ite_self]
  · have hroot : pathPrefix ≠ [47] := by
      rintro rfl
      exact hnil rfl
    rw [if_neg hnil, if_neg (not_or.2 ⟨hnil, hroot⟩)]
    split_ifs with hstar
    · rcases hstar with hstar | rfl | rfl
      · exact hstar.symm
      · rfl
      · rfl
    · rfl

/-- A path that fits its array, or loses only an asterisk behind a slash. -/
def PathFits (path : Bytes) : Prop := path.length ≤ 127 ∨ path.length = 128 ∧ ascii "/*" <:+ path

/-- **A prefix that comes back**: it has at most one slash at its front and something behind it, no
quote, and fits. -/
structure PrefixReadsBack (pathPrefix : Bytes) : Prop where
  kept : PathKept pathPrefix
  quote_notMem : (34 : UInt8) ∉ pathPrefix
  fits : PathFits (pathPrefix.dropWhile (· == 47))

theorem writtenPath_ne_nil (path : Bytes) : writtenPath path ≠ [] := by
  rw [writtenPath]
  split
  · exact List.cons_ne_nil _ _
  · assumption

theorem head?_writtenPath (path : Bytes) : (writtenPath path).head? ≠ some 47 := by
  rw [writtenPath]
  split
  · decide
  · intro h
    have := List.head?_dropWhile_not (· == (47 : UInt8)) path
    rw [h] at this
    exact absurd this (by decide)

theorem writtenPath_of_kept {path : Bytes} (h : PathKept path) :
    writtenPath path = path.dropWhile (· == 47) := by
  rw [writtenPath]
  rw [if_neg]
  obtain ⟨hne, hslash⟩ := h
  obtain ⟨c, rest, rfl⟩ := List.exists_cons_of_ne_nil hne
  by_cases hc : c = 47
  · subst hc
    obtain ⟨htail, h47, -⟩ := hslash rfl
    obtain ⟨d, rest, rfl⟩ := List.exists_cons_of_ne_nil (show rest ≠ [] from htail)
    have hd : ¬ (d == 47) = true := fun he => h47 (by rw [beq_iff_eq.1 he]; rfl)
    rw [List.dropWhile_cons_of_pos rfl, List.dropWhile_cons_of_neg (p := (· == 47)) hd]
    exact List.cons_ne_nil _ _
  · rw [List.dropWhile_cons_of_neg (by rwa [beq_iff_eq])]
    exact List.cons_ne_nil _ _

theorem writtenPath_subset (path : Bytes) : writtenPath path ⊆ 42 :: path := by
  rw [writtenPath]
  split
  · simp
  · exact List.Subset.trans (List.dropWhile_suffix _).subset (List.subset_cons_self _ _)

/-- The path without its slash is cut to the array. -/
theorem take_writtenPath {path : Bytes} : (writtenPath path).take 127 ≠ [] ∧
    ((writtenPath path).take 127).head? ≠ some 47 := by
  obtain ⟨c, rest, hc⟩ := List.exists_cons_of_ne_nil (writtenPath_ne_nil path)
  have h47 := head?_writtenPath path
  rw [hc] at h47 ⊢
  exact ⟨List.cons_ne_nil _ _, h47⟩

/-- A path that does not fit goes on where its prefix is cut. -/
theorem exists_cut {c : Bytes} (h47 : c.head? ≠ some 47) (hlong : 127 < c.length)
    (hlen : c.length ≤ 255) : ∃ k, 127 ≤ k ∧
      normalizedPrefix c = normalizedPrefix (c.take 127) ++ (c.drop 127).take k ∧
      (normalizedPrefix (c.take 127)).getLast? = (c.take 127).getLast? ∧
      1 < (normalizedPrefix (c.take 127)).length := by
  have hhead : (c.take 127).head? = c.head? := by
    rw [List.head?_take, if_neg (by decide)]
  have htake : (c.take 127).length = 127 := by
    rw [List.length_take]
    omega
  by_cases h42 : c.head? = some 42
  · have hself : ∀ s : Bytes, s.head? = some 42 → 1 < s.length → normalizedPrefix s = s := by
      intro s hs hlt
      rw [normalizedPrefix, if_neg, if_pos (Or.inr hs)]
      rintro rfl
      exact absurd hlt (by decide)
    rw [hself c h42 (by omega), hself (c.take 127) (hhead.trans h42) (by omega)]
    refine ⟨128, by decide, ?_, rfl, by omega⟩
    have hrest : (c.drop 127).length ≤ 128 := by
      rw [List.length_drop]
      omega
    rw [List.take_of_length_le hrest, List.take_append_drop]
  · rw [RegisterFrame.normalizedPrefix_of_plain h47 h42,
      RegisterFrame.normalizedPrefix_of_plain (hhead ▸ h47) (hhead ▸ h42),
      List.take_of_length_le (by omega : (c.take 127).length ≤ 254)]
    have hsplit : c.take 254 = c.take 127 ++ (c.drop 127).take 127 :=
      List.take_add (i := 127) (j := 127)
    refine ⟨127, le_rfl, by rw [hsplit, List.cons_append], ?_, ?_⟩
    · have hne : c.take 127 ≠ [] := List.length_pos_iff.1 (by omega)
      obtain ⟨d, u, hdu⟩ := List.exists_cons_of_ne_nil hne
      rw [hdu, List.getLast?_cons_cons]
    · rw [List.length_cons]
      omega

/-- **Cut to the array, a path matches the same** exactly if it fits. -/
theorem pathMatches_take_iff {c : Bytes} (h47 : c.head? ≠ some 47) (hlen : c.length ≤ 255) :
    (∀ path, Router.pathMatches (normalizedPrefix c) path =
      Router.pathMatches (normalizedPrefix (c.take 127)) path) ↔ PathFits c := by
  by_cases hshort : c.length ≤ 127
  · rw [List.take_of_length_le hshort]
    exact iff_of_true (fun _ => rfl) (Or.inl hshort)
  obtain ⟨k, hk, hcut, hlast, hlong⟩ := exists_cut h47 (Nat.lt_of_not_le hshort) hlen
  have hy := List.take_append_drop 127 c
  have hylen : (c.take 127).length = 127 := by
    rw [List.length_take]
    omega
  rw [pathMatches_ext_iff, hcut, PathFits, or_iff_right hshort]
  generalize normalizedPrefix (c.take 127) = q at hlast hlong ⊢
  have hrest : (c.drop 127).length = c.length - 127 := List.length_drop
  generalize ht : (c.drop 127).take k = t
  have htlen : t.length = min k (c.length - 127) := by rw [← ht, List.length_take, hrest]
  have htone : t.length = 1 → t = c.drop 127 := by
    intro hone
    rw [← ht, List.take_of_length_le (by omega)]
  constructor
  · rintro ⟨hstem, hall⟩
    -- one byte is cut off, and it is an asterisk
    have hle := length_le_length_stem (q ++ t)
    have hqle := (stem_isPrefix q).length_le
    rw [hstem, List.length_append] at hle
    have hq : stem q = q := (stem_isPrefix q).eq_of_length_le (by omega)
    have hone : t.length = 1 := by omega
    have hstar : (q ++ t).getLast? = some 42 := by
      by_contra hplain
      rw [stem_of_plain hplain, hq] at hstem
      have := congrArg List.length hstem
      rw [List.length_append] at this
      omega
    have hqplain : q.getLast? ≠ some 42 := by
      intro hq42
      have := congrArg List.length hq
      rw [stem, if_pos hq42, List.length_dropLast] at this
      omega
    have hslash : q.getLast? = some 47 := by
      rcases hall.1 (Or.inr (Or.inl hstar)) with hnil | h42 | ⟨-, h47⟩
      · rw [hnil] at hlong
        cases hlong
      · exact absurd h42 hqplain
      · exact h47
    obtain ⟨d, hd⟩ := List.length_eq_one_iff.1 hone
    rw [← htone hone, hd] at hy
    rw [hd, List.getLast?_concat] at hstar
    obtain rfl := Option.some.inj hstar
    rw [hlast] at hslash
    obtain ⟨y, hysplit⟩ := List.getLast?_eq_some_iff.1 hslash
    refine ⟨?_, y, ?_⟩
    · rw [← hy, List.length_append, hylen]
      rfl
    · rw [← hy, hysplit, List.append_assoc]
      rfl
  · rintro ⟨h128, z, hz⟩
    have hzlen : z.length = 126 := by
      have := congrArg List.length hz
      rw [List.length_append, h128] at this
      exact Nat.add_right_cancel (this : z.length + 2 = 126 + 2)
    have htake : c.take 127 = z ++ [47] := by
      rw [← hz, show ascii "/*" = [47] ++ [42] from rfl, ← List.append_assoc]
      exact List.take_left' (by rw [List.length_append, hzlen]; rfl)
    have hdrop : c.drop 127 = [42] := by
      rw [htake] at hy
      refine List.append_cancel_left (hy.trans (hz.symm.trans ?_))
      rw [List.append_assoc]
      rfl
    have htstar : t = [42] := by
      rw [← hdrop]
      exact htone (by omega)
    have hq47 : q.getLast? = some 47 := by rw [hlast, htake, List.getLast?_concat]
    rw [htstar]
    have hstar : (q ++ [42]).getLast? = some 42 := List.getLast?_concat
    refine ⟨?_, iff_of_true (Or.inr (Or.inl hstar)) (Or.inr (Or.inr ⟨hlong, hq47⟩))⟩
    rw [stem, if_pos hstar, List.dropLast_concat, stem_of_plain (by rw [hq47]; decide)]

theorem length_writtenPath_le {path : Bytes} (hne : path ≠ []) :
    (writtenPath path).length ≤ path.length := by
  rw [writtenPath]
  split
  · exact List.length_pos_iff.2 hne
  · exact (List.dropWhile_suffix _).length_le

/-- **A prefix that comes back matches the same paths.** -/
theorem PrefixReadsBack.pathMatches_eq {p : Bytes} (h : PrefixReadsBack p) (hlen : p.length ≤ 255)
    (path : Bytes) : Router.pathMatches (normalizedPrefix ((writtenPath p).take 127)) path =
      Router.pathMatches (normalizedPrefix p) path := by
  rw [← normalizedPrefix_writtenPath h.kept hlen]
  have hfits : PathFits (writtenPath p) := by
    rw [writtenPath_of_kept h.kept]
    exact h.fits
  have hwritten := (length_writtenPath_le h.kept.1).trans hlen
  exact ((pathMatches_take_iff (head?_writtenPath p) hwritten).2 hfits path).symm

theorem length_normalizedPrefix_le (p : Bytes) : (normalizedPrefix p).length ≤ p.length + 1 := by
  rw [normalizedPrefix]
  split_ifs with hstar
  · rw [hstar]
    rfl
  · exact Nat.le_succ _
  · exact List.length_take_le' _ _

/-- A prefix that matches the same is not much longer. -/
theorem length_le_of_ext {p q : Bytes}
    (h : ∀ path, Router.pathMatches (normalizedPrefix q) path = Router.pathMatches p path) :
    p.length ≤ q.length + 2 := by
  have hstem := (pathMatches_ext_iff.1 h).1
  have hp := length_le_length_stem p
  have hq := (stem_isPrefix (normalizedPrefix q)).length_le
  have hnorm := length_normalizedPrefix_le q
  rw [hstem] at hq
  omega

theorem mem_stem {c : UInt8} {p : Bytes} (hc : c ≠ 42) (h : c ∈ p) : c ∈ stem p := by
  rw [stem]
  split
  · rename_i hlast
    obtain ⟨s, rfl⟩ := List.getLast?_eq_some_iff.1 hlast
    rw [List.dropLast_concat]
    exact (List.mem_append.1 h).resolve_right fun h => hc (List.mem_singleton.1 h)
  · exact h

theorem mem_normalizedPrefix {c : UInt8} {p : Bytes} (hc : c ≠ 42) (h : c ∈ p)
    (hlen : (normalizedPrefix p).length ≤ 254) : c ∈ normalizedPrefix p := by
  rw [normalizedPrefix] at hlen ⊢
  split_ifs at hlen ⊢ with hstar
  · rw [hstar] at h
    exact absurd (List.mem_singleton.1 h) hc
  · exact h
  · rw [List.length_take] at hlen
    rw [List.take_of_length_le (by omega)]
    exact List.mem_cons_of_mem _ h

theorem mem_of_mem_normalizedPrefix {c : UInt8} {p : Bytes} (h42 : c ≠ 42) (h47 : c ≠ 47)
    (h : c ∈ normalizedPrefix p) : c ∈ p := by
  rw [normalizedPrefix] at h
  split_ifs at h
  · have hstar : c = 47 ∨ c = 42 := by simpa [ascii] using h
    exact absurd hstar (not_or.2 ⟨h47, h42⟩)
  · exact h
  · exact (List.mem_cons.1 (List.mem_of_mem_take h)).resolve_left h47

/-- **A prefix with more slashes, nothing behind its slash, or an asterisk there and more,** comes back
for other paths. -/
theorem kept_of_ext {p : Bytes} (hne : p ≠ [])
    (h : ∀ path, Router.pathMatches (normalizedPrefix ((writtenPath p).take 127)) path =
      Router.pathMatches (normalizedPrefix p) path) : PathKept p := by
  refine ⟨hne, fun hhead => ?_⟩
  rw [RegisterFrame.normalizedPrefix_of_slash hhead] at h
  obtain ⟨hstem, hall⟩ := pathMatches_ext_iff.1 h
  obtain ⟨hcut, hcut47⟩ := @take_writtenPath p
  obtain ⟨_, rest, rfl⟩ := List.exists_cons_of_ne_nil hne
  obtain rfl := Option.some.inj hhead
  rw [List.tail_cons]
  refine ⟨?_, fun h47 => ?_, fun h42 => ?_⟩
  · -- the root comes back as a prefix of every path
    rintro rfl
    exact absurd (hall.1 (by decide)) (by decide)
  · -- two slashes at the front of the stem
    cases rest with
    | nil => cases h47
    | cons d rest =>
      obtain rfl := Option.some.inj h47
      have htwo : [(47 : UInt8), 47] <+: stem (47 :: 47 :: rest) := by
        rw [stem]
        split
        · cases rest with
          | nil => contradiction
          | cons c s => exact ⟨(c :: s).dropLast, rfl⟩
        · exact ⟨rest, rfl⟩
      have hslashes := htwo.trans (hstem ▸ stem_isPrefix _)
      generalize (writtenPath (47 :: 47 :: rest)).take 127 = y at hcut hcut47 hslashes
      rw [normalizedPrefix] at hslashes
      split_ifs at hslashes
      · revert hslashes
        decide
      · exact hcut47 (head?_of_isPrefix hslashes rfl)
      · obtain ⟨c, y, rfl⟩ := List.exists_cons_of_ne_nil hcut
        have hc : 47 = c := (List.cons_prefix_cons.1 (List.cons_prefix_cons.1 hslashes).2).1
        exact hcut47 (by rw [← hc]; rfl)
  · by_contra hmore
    cases rest with
    | nil => cases h42
    | cons d rest =>
      obtain rfl := Option.some.inj h42
      obtain ⟨e, rest, rfl⟩ := List.exists_cons_of_ne_nil (fun hnil => hmore (by rw [hnil]) : rest ≠ [])
      have hwritten : writtenPath (47 :: 42 :: e :: rest) = 42 :: e :: rest := rfl
      have hself : normalizedPrefix ((42 :: e :: rest).take 127) = (42 :: e :: rest).take 127 := by
        have hfront : ((42 :: e :: rest).take 127).head? = some 42 := rfl
        rw [normalizedPrefix, if_neg (by simp), if_pos (Or.inr hfront)]
      rw [hwritten, hself] at hstem
      have hheads := congrArg List.head? hstem
      rw [head?_stem (by simp), head?_stem (by simp)] at hheads
      cases hheads

theorem length_le_of_cut {q y : Bytes} (h : q ++ [34] <+: y.take 127 ++ [34]) : q.length ≤ 127 := by
  have := h.length_le
  rw [List.length_append, List.length_append, List.length_take] at this
  exact (Nat.le_of_succ_le_succ this).trans (Nat.min_le_left _ _)

/-- **The prefixes that come back.**  What is read back of a path is the path as far as a quote. -/
theorem prefixReadsBack_of_ext {p q : Bytes} (hne : p ≠ []) (hlen : p.length ≤ 255)
    (hq : q ++ [34] <+: (writtenPath p).take 127 ++ [34]) (hquote : (34 : UInt8) ∉ q)
    (h : ∀ path, Router.pathMatches (normalizedPrefix q) path =
      Router.pathMatches (normalizedPrefix p) path) : PrefixReadsBack p := by
  have hqlen := length_le_of_cut hq
  have hplen := length_le_of_ext h
  have hnotMem : (34 : UInt8) ∉ p := by
    intro hmem
    have hstem := mem_stem (by decide) (mem_normalizedPrefix (by decide) hmem (by omega))
    rw [← (pathMatches_ext_iff.1 h).1] at hstem
    exact hquote (mem_of_mem_normalizedPrefix (by decide) (by decide) ((stem_isPrefix _).subset hstem))
  -- so the path is read back as it was cut
  have hwhole : q = (writtenPath p).take 127 := by
    have hprefix : q <+: (writtenPath p).take 127 ++ [34] := (List.prefix_append q [34]).trans hq
    rcases List.prefix_concat_iff.1 hprefix with he | hprefix
    · exact absurd (he ▸ List.mem_append_right _ (List.mem_singleton_self _)) hquote
    · refine hprefix.eq_of_length_le (Nat.le_of_not_lt fun hlt => ?_)
      have hcut := List.prefix_of_prefix_length_le hq (List.prefix_append _ [34])
        (by rw [List.length_append]; exact hlt)
      have hmem := writtenPath_subset p (List.mem_of_mem_take (hcut.subset (List.mem_append_right q
        (List.mem_singleton_self 34))))
      exact hnotMem ((List.mem_cons.1 hmem).resolve_left (by decide))
  rw [hwhole] at h
  have hkept := kept_of_ext hne h
  rw [← normalizedPrefix_writtenPath hkept hlen] at h
  refine ⟨hkept, hnotMem, ?_⟩
  rw [← writtenPath_of_kept hkept]
  exact (pathMatches_take_iff (head?_writtenPath p) ((length_writtenPath_le hne).trans hlen)).1
    fun path => (h path).symm

end Gateway
end Arws

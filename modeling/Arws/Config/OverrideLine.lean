import Arws.Config.File

/-!
# The lines that set a mode

A line `"host/path" = mode` sets an override.  Its path is stored as it stands behind the slash and
compared with the path of a request, which begins with one; the router stores the path of a route
with the slash.

`effectiveMode_iff` — the mode of a line is the answer if the override matches the request by its
own pattern, and otherwise only if what answers instead says the same.
-/

set_option autoImplicit false

namespace Arws
namespace Config

open CString Router

/-! ## The mode that is looked up -/

/-- What is answered where neither the global mode nor the address of the client decides. -/
theorem effectiveMode_eq {s : ArwsConfig} {clientIp : Option Bytes}
    (hglobal : s.globalMode ≠ ascii "maintenance") (hip : s.isMaintenanceIp clientIp = false)
    (host path : Bytes) :
    arwsConfigGetEffectiveMode s host path clientIp =
      (s.overrideFor host path).elim s.globalMode (·.mode) := by
  rw [arwsConfigGetEffectiveMode, if_neg hglobal]
  cases s.overrideFor host path with
  | none => rfl
  | some o => simp [hip]

/-- The overrides before the first that can match do not matter. -/
theorem find?_drop {α : Type*} {p : α → Bool} {l : List α} {k : Nat}
    (h : ∀ a ∈ l.take k, p a = false) : l.find? p = (l.drop k).find? p := by
  conv_lhs => rw [← List.take_append_drop k l, List.find?_append]
  have hnone : (l.take k).find? p = none := List.find?_eq_none.2 fun a ha => by simp [h a ha]
  rw [hnone, Option.none_or]

/-- The two matchers of hosts agree. -/
theorem hostMatches_eq (pattern host : Bytes) :
    hostMatches pattern host = Router.hostMatches pattern host := by
  have hloop : ∀ h, isLoopbackAddr h = isLoopbackHost h := by
    intro h
    cases h with
    | nil => decide
    | cons c h => rfl
  rw [hostMatches, Router.hostMatches, sameLoopbackLabel]
  simp only [hloop]
  by_cases hany : pattern = [] ∨ pattern = [42]
  · rw [if_pos hany]
    obtain rfl | rfl := hany <;> simp
  · rw [if_neg hany]
    obtain ⟨hnil, hstar⟩ := not_or.1 hany
    cases host with
    | nil =>
      have hne : strcaseeq pattern [] = false := by
        cases pattern with
        | nil => exact absurd rfl hnil
        | cons c pattern => rfl
      have hloop : isLoopbackHost [] = false := by decide
      have hwww : strcaseeq [] (ascii "www.") = false := by decide
      have hdot : strchr 46 ([] : Bytes) = none := rfl
      simp [hne, hloop, hwww, hdot, hnil, hstar]
    | cons c host =>
      rw [if_neg (List.cons_ne_nil c host), beq_eq_false_iff_ne.2 hnil, beq_eq_false_iff_ne.2 hstar]
      cases strchr 46 pattern <;> cases strchr 46 (c :: host) <;> simp [Bool.and_assoc]

/-- A path without a slash at its front is not the pattern of a request. -/
theorem pathMatchesPattern_eq_false {path pattern : Bytes} (hpath : path.head? = some 47)
    (hslash : pattern.head? ≠ some 47) (hstar : pattern ≠ [42]) :
    pathMatchesPattern path pattern = false := by
  rw [pathMatchesPattern]
  split_ifs with hlast
  · rw [Bool.eq_false_iff, Ne, List.isPrefixOf_iff_prefix]
    rintro ⟨t, rfl⟩
    match pattern, hlast, hstar with
    | [c], hlast, hstar => exact hstar (by simpa using hlast)
    | c :: d :: pattern, _, _ => exact hslash hpath
  · rw [beq_eq_false_iff_ne]
    rintro rfl
    exact hslash hpath

/-! ## The line -/

/-- `"host/path" = mode`, for one of the three modes. -/
structure OverrideLine (line host path mode : Bytes) : Prop where
  parsed : parseLine line = .keyed (host ++ 47 :: path) mode
  host_ok : (47 : UInt8) ∉ host
  mode_ok : mode ∈ [ascii "production", ascii "test", ascii "maintenance"]

variable {line host path mode : Bytes}

theorem OverrideLine.not_isUrl (h : OverrideLine line host path mode) :
    isUrl (targetOf mode).2 = false := by
  have hmode := h.mode_ok
  simp only [List.mem_cons, List.not_mem_nil, or_false] at hmode
  obtain rfl | rfl | rfl := hmode <;> decide

theorem OverrideLine.modeOf (h : OverrideLine line host path mode) (env : LoadEnv) :
    (Config.modeOf env mode).1 = mode := by
  have hmode := h.mode_ok
  simp only [List.mem_cons, List.not_mem_nil, or_false] at hmode
  obtain rfl | rfl | rfl := hmode <;> rfl

/-- Where the override of a line stands in the tables; a line that is not read stands behind all
of them. -/
def linePlace (before loaded : ArwsConfig) (host path : Bytes) : Nat :=
  if before.overrides.length < maxOverrides then overridePlace before.overrides host path
  else loaded.overrides.length

/-- The line is read, and its override is one for the request. -/
def LineServes (before : ArwsConfig) (host path rhost rpath : Bytes) : Prop :=
  before.overrides.length < maxOverrides ∧ hostMatches (host.take 127) rhost = true ∧
    pathMatchesPattern rpath (path.take 127) = true

/-- So a line for a path behind the host is read for nothing. -/
theorem not_lineServes {before : ArwsConfig} {rhost rpath : Bytes} (hpath : rpath.head? = some 47)
    (hslash : path.head? ≠ some 47) (hstar : path ≠ [42]) :
    ¬ LineServes before host path rhost rpath := by
  rintro ⟨-, -, hmatch⟩
  rw [pathMatchesPattern_eq_false hpath] at hmatch
  · cases hmatch
  · rw [List.head?_take]
    simpa using hslash
  · intro hcut
    have hlen := congrArg List.length hcut
    rw [List.length_take, List.length_singleton] at hlen
    rw [List.take_of_length_le (by omega)] at hcut
    exact hstar hcut

/-- The override that a line has set is found in the tables that the file is loaded to. -/
theorem OverrideLine.stored (h : OverrideLine line host path mode) (env : LoadEnv) {st : Loading}
    (post : List Bytes) (hroom : st.config.overrides.length < maxOverrides)
    (hsized : ∀ o ∈ st.config.overrides, o.Sized) :
    ∃ o, (st.readLines env (line :: post)).config.overrides[
        overridePlace st.config.overrides host path]? = some o ∧
      o.host = host.take 127 ∧ o.path = path.take 127 := by
  have hread : (st.readLine env line).config =
      st.config.setOverride host path mode (Config.modeOf env mode).2 := by
    rw [Loading.readLine, h.parsed, Loading.read, readKeyed_slash env h.host_ok path mode hroom,
      h.not_isUrl, h.modeOf env]
    rfl
  have hset := setOverride_place st.config host path mode (Config.modeOf env mode).2
  rw [← hread] at hset
  have hkeys := (readLines_keys env post (readLine_sized env line hsized)).2
  obtain ⟨rest, hrest⟩ := hkeys
  have hkey : ((st.readLines env (line :: post)).config.overrides.map (·.key))[
      overridePlace st.config.overrides host path]? = some (host.take 127, path.take 127) := by
    have hlt := (List.getElem?_eq_some_iff.1 hset).1
    have : (st.readLines env (line :: post)).config.overrides.map (·.key) =
        (st.readLine env line).config.overrides.map (·.key) ++ rest := hrest.symm
    rw [this, List.getElem?_append_left (by simpa using hlt), List.getElem?_map, hset]
    rfl
  rw [List.getElem?_map, Option.map_eq_some_iff] at hkey
  obtain ⟨o, ho, hpair⟩ := hkey
  exact ⟨o, ho, congrArg Prod.fst hpair, congrArg Prod.snd hpair⟩

/-- **The mode of a line is the answer exactly if** the override of the line still has it and is one
for the request, or the override is none for the request and what answers instead has the mode: the
first override behind it that is one, or the global mode. -/
theorem effectiveMode_iff (env : LoadEnv) (s₀ : ArwsConfig) {file : Bytes} {pre post : List Bytes}
    (hfile : fgetsLines file = pre ++ line :: post) (h : OverrideLine line host path mode)
    {before loaded : ArwsConfig} (hbefore : before = (Loading.readLines env ⟨s₀.reset, []⟩ pre).config)
    (hloaded : loaded = (arwsConfigLoad env file s₀).config) {rhost rpath : Bytes}
    {clientIp : Option Bytes} (hglobal : loaded.globalMode ≠ ascii "maintenance")
    (hip : loaded.isMaintenanceIp clientIp = false)
    (hearlier : ∀ o ∈ loaded.overrides.take (linePlace before loaded host path),
      o.serves rhost rpath = false) :
    arwsConfigGetEffectiveMode loaded rhost rpath clientIp = mode ↔
      (LineServes before host path rhost rpath ∧
        ∃ o, loaded.overrides[linePlace before loaded host path]? = some o ∧ o.mode = mode) ∨
      (¬ LineServes before host path rhost rpath ∧
        ((loaded.overrides.drop (linePlace before loaded host path + 1)).find?
          (·.serves rhost rpath)).elim loaded.globalMode (·.mode) = mode) := by
  rw [effectiveMode_eq hglobal hip, ArwsConfig.overrideFor, find?_drop hearlier]
  by_cases hroom : before.overrides.length < maxOverrides
  · -- the line is read
    have hplace : linePlace before loaded host path = overridePlace before.overrides host path :=
      if_pos hroom
    rw [hplace]
    have hload : loaded = (Loading.readLines env (Loading.readLines env ⟨s₀.reset, []⟩ pre)
        (line :: post)).config := by
      rw [hloaded, arwsConfigLoad, hfile, Loading.readLines, Loading.readLines, Loading.readLines,
        List.foldl_append]
    have hsized : ∀ o ∈ (Loading.readLines env ⟨s₀.reset, []⟩ pre).config.overrides, o.Sized :=
      (readLines_keys env pre (by simp [ArwsConfig.reset])).1
    obtain ⟨o, ho, hohost, hopath⟩ := h.stored env post (hbefore ▸ hroom) hsized
    rw [← hload, ← hbefore] at ho
    obtain ⟨hlt, hget⟩ := List.getElem?_eq_some_iff.1 ho
    have hserves : o.serves rhost rpath = true ↔ LineServes before host path rhost rpath := by
      rw [ModeOverride.serves, hohost, hopath, Bool.and_eq_true]
      exact ⟨fun h => ⟨hroom, h⟩, fun h => h.2⟩
    rw [List.drop_eq_getElem_cons hlt, hget, List.find?_cons, ho]
    cases hcase : o.serves rhost rpath with
    | true => simp [hserves.1 hcase]
    | false =>
      have hno : ¬ LineServes before host path rhost rpath := fun hyes => by
        rw [hserves.2 hyes] at hcase
        cases hcase
      simp [hno]
  · -- the tables are full
    have hplace : linePlace before loaded host path = loaded.overrides.length := if_neg hroom
    have hno : ¬ LineServes before host path rhost rpath := fun hyes => hroom hyes.1
    rw [hplace, List.drop_length, List.drop_eq_nil_of_le (Nat.le_succ _)]
    simp [hno]

/-- A line for every path of a host. -/
theorem effectiveMode_of_star : arwsConfigGetEffectiveMode
    (arwsConfigLoad ⟨fun _ => none, fun _ => []⟩ (ascii "\"example.com/*\" = maintenance")
      ArwsConfig.initial).config (ascii "example.com") (ascii "/api") none = ascii "maintenance" :=
  (@effectiveMode_iff _ (ascii "example.com") [42] (ascii "maintenance")
    ⟨fun _ => none, fun _ => []⟩ ArwsConfig.initial _ [] [] rfl ⟨by decide, by decide, by decide⟩
    _ _ rfl rfl _ _ _ (by decide) (by decide) (by decide)).2
    (Or.inl ⟨⟨by decide, by decide, by decide⟩, _, rfl, rfl⟩)

/-- A line for a path behind the host, and a request for the route of the same key. -/
theorem not_effectiveMode : ¬ ∀ (env : LoadEnv) (s₀ : ArwsConfig) (file : Bytes)
    (pre post : List Bytes) (line host path mode : Bytes) (before loaded : ArwsConfig)
    (rhost rpath : Bytes) (clientIp : Option Bytes),
    fgetsLines file = pre ++ line :: post → OverrideLine line host path mode →
    before = (Loading.readLines env ⟨s₀.reset, []⟩ pre).config →
    loaded = (arwsConfigLoad env file s₀).config → loaded.globalMode ≠ ascii "maintenance" →
    loaded.isMaintenanceIp clientIp = false →
    (∀ o ∈ loaded.overrides.take (linePlace before loaded host path),
      o.serves rhost rpath = false) →
    hostMatches host rhost = true →
    (∀ node : ArwsRoute, Router.pathMatches
      (node.written path (ascii "*") (some host) none (-1) false false).pathPrefix.text rpath = true) →
    arwsConfigGetEffectiveMode loaded rhost rpath clientIp = mode := by
  intro h
  have hroute : ∀ node : ArwsRoute, Router.pathMatches
      (node.written (ascii "api/admin") (ascii "*") (some (ascii "example.com")) none (-1) false
        false).pathPrefix.text (ascii "/api/admin") = true := by
    intro node
    have htext : (node.written (ascii "api/admin") (ascii "*") (some (ascii "example.com")) none (-1)
        false false).pathPrefix.text = ascii "/api/admin" :=
      CharArray.text_strncpy _ (by decide) (by decide)
    rw [htext]
    decide
  have := h ⟨fun _ => none, fun _ => []⟩ ArwsConfig.initial
    (ascii "\"example.com/api/admin\" = maintenance") [] [] _ (ascii "example.com")
    (ascii "api/admin") (ascii "maintenance") _ _ (ascii "example.com") (ascii "/api/admin") none rfl
    ⟨by decide, by decide, by decide⟩ rfl rfl (by decide) (by decide) (by decide) (by decide) hroute
  revert this
  decide

end Config
end Arws

import Arws.Config.OverrideTable

/-!
# The lines that only keep answers out of the cache

A line `"host/path" = no-cache` sets an override without a mode.  The empty mode is what is then looked
up for the requests of the line, where without it the global mode was, and the override takes one of the
128 places of the table.

* `inserted_nextOverrides` — reading on behind the line, the table is the one without the line and with
  one place less, but for its override.
* `changesCachingOnly_iff` — when the line changes what is cached and nothing else.
-/

set_option autoImplicit false

namespace Arws
namespace Config

open CString TextFile

/-! ## The table -/

/-- The mode and the flag that a line sets. -/
def lineMode (env : LoadEnv) (line : Bytes) : Bytes × Bool :=
  match parseLine line with
  | .keyed _ val => modeOf env val
  | _ => ([], false)

/-- An override put into a table. -/
def putOverride (overrides : List ModeOverride) (k : Bytes × Bytes) (mode : Bytes × Bool) :
    List ModeOverride :=
  let entry : ModeOverride := ⟨k.1.take 127, k.2.take 127, mode.1, mode.2⟩
  match overrideIdx overrides k.1 k.2 with
  | some i => overrides.set i entry
  | none => overrides ++ [entry]

/-- A line read into a table with so many places. -/
def nextOverrides (env : LoadEnv) (places : Nat) (overrides : List ModeOverride) (line : Bytes) :
    List ModeOverride :=
  match overrideKey? line with
  | some k =>
    if overrides.length < places then putOverride overrides k (lineMode env line) else overrides
  | none => overrides

/-- Lines read into a table with so many places. -/
def overridesFrom (env : LoadEnv) (places : Nat) (overrides : List ModeOverride) (lines : List Bytes) :
    List ModeOverride :=
  lines.foldl (nextOverrides env places) overrides

theorem overrides_readLine (env : LoadEnv) (st : Loading) (line : Bytes) :
    (st.readLine env line).config.overrides =
      nextOverrides env maxOverrides st.config.overrides line := by
  rw [Loading.readLine, nextOverrides, overrideKey?, lineMode]
  cases parseLine line with
  | nothing => rfl
  | setting name value => exact (readSetting_tables env st.config name value).1
  | keyed key val =>
    rw [Loading.read, Loading.readKeyed]
    dsimp only
    cases strchr 47 key with
    | none => split_ifs <;> rfl
    | some slash =>
      by_cases hurl : isUrl (targetOf val).2 = true
      · simp only [if_pos hurl]
        split_ifs
        · rw [addRoute_overrides]
        · rfl
      · simp only [if_neg hurl]
        split_ifs
        · rw [putOverride, ArwsConfig.setOverride]
          cases overrideIdx st.config.overrides (key.take slash) (key.drop (slash + 1)) <;> rfl
        · rfl

theorem overrides_readLines (env : LoadEnv) (st : Loading) (lines : List Bytes) :
    (st.readLines env lines).config.overrides =
      overridesFrom env maxOverrides st.config.overrides lines := by
  induction lines generalizing st with
  | nil => rfl
  | cons line lines ih => rw [readLines_cons, ih, overrides_readLine, overridesFrom, overridesFrom,
      List.foldl_cons]

theorem overridesFrom_append (env : LoadEnv) (places : Nat) (overrides : List ModeOverride)
    (a b : List Bytes) : overridesFrom env places overrides (a ++ b) =
      overridesFrom env places (overridesFrom env places overrides a) b :=
  List.foldl_append

theorem mem_putOverride {overrides : List ModeOverride} {k : Bytes × Bytes} {mode : Bytes × Bool}
    {o : ModeOverride} (h : o ∈ putOverride overrides k mode) :
    o ∈ overrides ∨ o.key = storedKey k := by
  rw [putOverride] at h
  cases hidx : overrideIdx overrides k.1 k.2 with
  | none =>
    rw [hidx, List.mem_append, List.mem_singleton] at h
    exact h.imp id fun h => congrArg ModeOverride.key h
  | some i =>
    rw [hidx] at h
    exact (List.mem_or_eq_of_mem_set h).imp id fun h => congrArg ModeOverride.key h

/-- Every override of the table is one of the lines. -/
theorem mem_overridesFrom {env : LoadEnv} {places : Nat} {overrides : List ModeOverride}
    {lines : List Bytes} {o : ModeOverride} (h : o ∈ overridesFrom env places overrides lines) :
    o ∈ overrides ∨ o.key ∈ storedKeys lines := by
  induction lines generalizing overrides with
  | nil => exact Or.inl h
  | cons line lines ih =>
    have hkeys : ∀ k ∈ storedKeys lines, k ∈ storedKeys (line :: lines) := by
      intro k hk
      rw [storedKeys, List.mem_map] at hk ⊢
      obtain ⟨k', hk', rfl⟩ := hk
      obtain ⟨l, hl, hk'⟩ := List.mem_filterMap.1 hk'
      exact ⟨k', List.mem_filterMap.2 ⟨l, List.mem_cons_of_mem _ hl, hk'⟩, rfl⟩
    have hrest : o ∈ overridesFrom env places (nextOverrides env places overrides line) lines := h
    rcases ih hrest with h | h
    · rw [nextOverrides] at h
      cases hkey : overrideKey? line with
      | none =>
        rw [hkey] at h
        exact Or.inl h
      | some k =>
        rw [hkey] at h
        dsimp only at h
        split_ifs at h
        · refine (mem_putOverride h).imp id fun h => ?_
          rw [h, storedKeys, List.filterMap_cons_some hkey]
          exact List.mem_cons_self
        · exact Or.inl h
    · exact Or.inr (hkeys _ h)

/-! ## The table with one override more -/

/-- A table with an override that the other has not. -/
def Inserted (entry : ModeOverride) (without table : List ModeOverride) : Prop :=
  ∃ a b, without = a ++ b ∧ table = a ++ entry :: b

theorem Inserted.length {entry : ModeOverride} {without table : List ModeOverride}
    (h : Inserted entry without table) : table.length = without.length + 1 := by
  obtain ⟨a, b, rfl, rfl⟩ := h
  simp only [List.length_append, List.length_cons]
  omega

theorem inserted_putOverride {entry : ModeOverride} {without table : List ModeOverride}
    (h : Inserted entry without table) {k : Bytes × Bytes} (hk : entry.key ≠ k)
    (mode : Bytes × Bool) :
    Inserted entry (putOverride without k mode) (putOverride table k mode) := by
  obtain ⟨a, b, rfl, rfl⟩ := h
  have hentry : (entry.host == k.1 && entry.path == k.2) = false := by
    rw [Bool.eq_false_iff]
    intro heq
    rw [Bool.and_eq_true, beq_iff_eq, beq_iff_eq] at heq
    exact hk (Prod.ext heq.1 heq.2)
  rw [putOverride, putOverride, overrideIdx, overrideIdx, List.findIdx?_append, List.findIdx?_append,
    List.findIdx?_cons, hentry]
  generalize (⟨k.1.take 127, k.2.take 127, mode.1, mode.2⟩ : ModeOverride) = new
  cases ha : a.findIdx? (fun o => o.host == k.1 && o.path == k.2) with
  | some i =>
    obtain ⟨hi, -⟩ := List.findIdx?_eq_some_iff_getElem.1 ha
    exact ⟨a.set i new, b, List.set_append_left _ _ hi, List.set_append_left _ _ hi⟩
  | none =>
    cases b.findIdx? (fun o => o.host == k.1 && o.path == k.2) with
    | some j =>
      refine ⟨a, b.set j new, ?_, ?_⟩
      · show (a ++ b).set (j + a.length) new = _
        rw [List.set_append_right _ _ (Nat.le_add_left _ _), Nat.add_sub_cancel]
      · show (a ++ entry :: b).set (j + 1 + a.length) new = _
        rw [List.set_append_right _ _ (Nat.le_add_left _ _), Nat.add_sub_cancel, List.set_cons_succ]
    | none => exact ⟨a, b ++ [new], List.append_assoc _ _ _, List.append_assoc _ _ _⟩

/-- Behind the line the table with its override is read on as the other one with a place less. -/
theorem inserted_nextOverrides {env : LoadEnv} {entry : ModeOverride}
    {without table : List ModeOverride} (h : Inserted entry without table) {line : Bytes}
    {places : Nat} (hline : ∀ k, overrideKey? line = some k → entry.key ≠ k) :
    Inserted entry (nextOverrides env places without line)
      (nextOverrides env (places + 1) table line) := by
  rw [nextOverrides, nextOverrides]
  cases hkey : overrideKey? line with
  | none => exact h
  | some k =>
    have hlength := h.length
    dsimp only
    by_cases hroom : without.length < places
    · rw [if_pos hroom, if_pos (by omega)]
      exact inserted_putOverride h (hline k hkey) _
    · rw [if_neg hroom, if_neg (by omega)]
      exact h

theorem inserted_overridesFrom {env : LoadEnv} {entry : ModeOverride}
    {without table : List ModeOverride} (h : Inserted entry without table) {lines : List Bytes}
    {places : Nat} (hlines : ∀ line ∈ lines, ∀ k, overrideKey? line = some k → entry.key ≠ k) :
    Inserted entry (overridesFrom env places without lines)
      (overridesFrom env (places + 1) table lines) := by
  induction lines generalizing without table with
  | nil => exact h
  | cons line lines ih =>
    exact ih (inserted_nextOverrides h (hlines line List.mem_cons_self))
      fun l hl => hlines l (List.mem_cons_of_mem _ hl)

/-- The override answers its own requests, and the others are answered as without it. -/
theorem Inserted.find? {entry : ModeOverride} {without table : List ModeOverride}
    (h : Inserted entry without table) {host path : Bytes}
    (hother : entry.serves host path = true → ∀ o ∈ without, o.serves host path = false) :
    table.find? (·.serves host path) =
      if entry.serves host path then some entry else without.find? (·.serves host path) := by
  obtain ⟨a, b, rfl, rfl⟩ := h
  cases hentry : entry.serves host path with
  | true =>
    have hnone : a.find? (·.serves host path) = none :=
      List.find?_eq_none.2 fun o ho => by simp [hother hentry o (List.mem_append_left _ ho)]
    rw [List.find?_append, hnone, Option.none_or, if_pos rfl]
    exact List.find?_cons_of_pos hentry
  | false =>
    rw [List.find?_append, List.find?_append, List.find?_cons_of_neg (by simp [hentry]),
      if_neg Bool.false_ne_true]

/-! ## The global mode and the addresses -/

/-- What a line makes of the global mode. -/
def nextGlobalMode (mode : Bytes) (line : Bytes) : Bytes :=
  match parseLine line with
  | .setting name value =>
    if ¬ strcaseeq name (ascii "mode") ∧ strcaseeq name (ascii "global_mode") then value.take 15
    else mode
  | _ => mode

/-- The global mode that the lines of a file set. -/
def globalModeOf (lines : List Bytes) : Bytes := lines.foldl nextGlobalMode (ascii "production")

/-- A line with a key leaves both alone, -/
theorem readKeyed_globals (env : LoadEnv) (st : Loading) (key val : Bytes) :
    (st.readKeyed env key val).config.globalMode = st.config.globalMode ∧
      (st.readKeyed env key val).config.maintenanceIps = st.config.maintenanceIps := by
  rw [Loading.readKeyed]
  split
  · cases strchr 47 key with
    | none => exact ⟨rfl, rfl⟩
    | some slash =>
      dsimp only
      split
      · cases (targetOf val).1 <;> exact ⟨rfl, rfl⟩
      · rw [ArwsConfig.setOverride]
        split <;> exact ⟨rfl, rfl⟩
  · exact ⟨rfl, rfl⟩

/-- and a setting does to both what it does whatever else is in the tables. -/
theorem readSetting_globals (env : LoadEnv) {s s' : ArwsConfig} (hmode : s.globalMode = s'.globalMode)
    (hips : s.maintenanceIps = s'.maintenanceIps) (name value : Bytes) :
    (s.readSetting env name value).globalMode = (s'.readSetting env name value).globalMode ∧
      (s.readSetting env name value).maintenanceIps =
        (s'.readSetting env name value).maintenanceIps := by
  constructor
  · rw [readSetting_globalMode, readSetting_globalMode, hmode]
  · rw [ArwsConfig.readSetting, ArwsConfig.readSetting]
    cases env.cJSONArray value <;> simp only [apply_ite ArwsConfig.maintenanceIps, hips]

theorem readLines_globals (env : LoadEnv) {st st' : Loading}
    (hmode : st.config.globalMode = st'.config.globalMode)
    (hips : st.config.maintenanceIps = st'.config.maintenanceIps) (lines : List Bytes) :
    (st.readLines env lines).config.globalMode = (st'.readLines env lines).config.globalMode ∧
      (st.readLines env lines).config.maintenanceIps =
        (st'.readLines env lines).config.maintenanceIps := by
  induction lines generalizing st st' with
  | nil => exact ⟨hmode, hips⟩
  | cons line lines ih =>
    rw [readLines_cons, readLines_cons]
    have hline : (st.readLine env line).config.globalMode = (st'.readLine env line).config.globalMode ∧
        (st.readLine env line).config.maintenanceIps =
          (st'.readLine env line).config.maintenanceIps := by
      rw [Loading.readLine, Loading.readLine]
      cases parseLine line with
      | nothing => exact ⟨hmode, hips⟩
      | setting name value => exact readSetting_globals env hmode hips name value
      | keyed key val =>
        obtain ⟨hmode₁, hips₁⟩ := readKeyed_globals env st key val
        obtain ⟨hmode₂, hips₂⟩ := readKeyed_globals env st' key val
        exact ⟨hmode₁.trans (hmode.trans hmode₂.symm), hips₁.trans (hips.trans hips₂.symm)⟩
    exact ih hline.1 hline.2

theorem globalMode_readLines (env : LoadEnv) (st : Loading) (lines : List Bytes) :
    (st.readLines env lines).config.globalMode = lines.foldl nextGlobalMode st.config.globalMode := by
  induction lines generalizing st with
  | nil => rfl
  | cons line lines ih =>
    rw [readLines_cons, ih, List.foldl_cons]
    congr 1
    rw [Loading.readLine, nextGlobalMode]
    cases parseLine line with
    | nothing => rfl
    | setting name value => exact readSetting_globalMode env st.config name value
    | keyed key val => exact (readKeyed_globals env st key val).1

/-! ## The line -/

/-- `"host/path" = no-cache`, or with the other spelling. -/
structure NoCacheLine (line host path : Bytes) : Prop where
  parsed : parseLine line = .keyed (host ++ 47 :: path) (ascii "no-cache") ∨
    parseLine line = .keyed (host ++ 47 :: path) (ascii "no_cache")
  host_ok : (47 : UInt8) ∉ host

/-- A host and a path are one for a request. -/
def matchesRequest (k : Bytes × Bytes) (rhost rpath : Bytes) : Bool :=
  hostMatches k.1 rhost && pathMatchesPattern rpath k.2

/-- No other line sets an override for a request of the line. -/
def NoOtherMatches (lines : List Bytes) (host path : Bytes) : Prop :=
  ∀ rhost rpath, (matchesRequest (host, path) rhost rpath = true ∨
      matchesRequest (storedKey (host, path)) rhost rpath = true) →
    ∀ k ∈ storedKeys lines, matchesRequest k rhost rpath = false

/-- **What the line is for**: the answers for its requests are not cached, and nothing else changes. -/
structure ChangesCachingOnly (without config : ArwsConfig) (host path : Bytes) : Prop where
  mode : ∀ rhost rpath clientIp, arwsConfigGetEffectiveMode config rhost rpath clientIp =
    arwsConfigGetEffectiveMode without rhost rpath clientIp
  noCache : ∀ rhost rpath, arwsConfigIsNoCache config rhost rpath =
    (arwsConfigIsNoCache without rhost rpath || matchesRequest (host, path) rhost rpath)

/-- Two tables have the same flags for every request, and the same modes if the global mode lets them
decide. -/
structure SameLookups (globalMode : Bytes) (a b : List ModeOverride) : Prop where
  noCache : ∀ rhost rpath, (a.find? (·.serves rhost rpath)).any (·.noCache) =
    (b.find? (·.serves rhost rpath)).any (·.noCache)
  mode : globalMode = ascii "maintenance" ∨ ∀ rhost rpath,
    (a.find? (·.serves rhost rpath)).elim globalMode (·.mode) =
      (b.find? (·.serves rhost rpath)).elim globalMode (·.mode)

/-- The line is read, its host and path can be stored, the empty mode makes no difference, and the line
takes no place away that a line behind it needs. -/
structure Harmless (env : LoadEnv) (pre post : List Bytes) (host path : Bytes) : Prop where
  read : (overridesFrom env maxOverrides [] pre).length < maxOverrides
  stored : ∀ rhost rpath, matchesRequest (storedKey (host, path)) rhost rpath =
    matchesRequest (host, path) rhost rpath
  mode : globalModeOf (pre ++ post) = ascii "maintenance" ∨ globalModeOf (pre ++ post) = []
  places : SameLookups (globalModeOf (pre ++ post))
    (overridesFrom env (maxOverrides - 1) (overridesFrom env maxOverrides [] pre) post)
    (overridesFrom env maxOverrides (overridesFrom env maxOverrides [] pre) post)

section

variable {line host path : Bytes}

theorem serves_eq_matchesRequest (o : ModeOverride) (rhost rpath : Bytes) :
    o.serves rhost rpath = matchesRequest o.key rhost rpath := rfl

theorem storedKey_storedKey (k : Bytes × Bytes) : storedKey (storedKey k) = storedKey k := by
  simp [storedKey]

/-- Every host and path are those of a request that they match. -/
theorem exists_request (k : Bytes × Bytes) : ∃ rhost rpath, matchesRequest k rhost rpath = true := by
  refine ⟨k.1, if k.2.getLast? = some 42 then k.2.dropLast else k.2, ?_⟩
  rw [matchesRequest, Bool.and_eq_true]
  refine ⟨?_, ?_⟩
  · have hself : strcaseeq k.1 k.1 = true := by simp [strcaseeq]
    rw [hostMatches, hself]
    simp
  · rw [pathMatchesPattern]
    split
    · exact List.isPrefixOf_iff_prefix.2 (List.prefix_refl _)
    · exact beq_self_eq_true _

theorem NoCacheLine.overrideKey (h : NoCacheLine line host path) :
    overrideKey? line = some (host, path) := by
  have htake : (host ++ 47 :: path).take host.length = host := List.take_left' rfl
  have hdrop : (host ++ 47 :: path).drop (host.length + 1) = path := by
    rw [← List.drop_drop, List.drop_left' rfl]
    rfl
  rw [overrideKey?]
  rcases h.parsed with hparsed | hparsed <;>
  · rw [hparsed]
    dsimp only
    rw [strchr_append h.host_ok]
    simp only [htake, hdrop]
    exact if_neg (by decide)

theorem NoCacheLine.lineMode (h : NoCacheLine line host path) (env : LoadEnv) :
    Config.lineMode env line = ([], true) := by
  rw [Config.lineMode]
  rcases h.parsed with hparsed | hparsed <;> rw [hparsed] <;> rfl

/-- No override of the other lines is one for a request of the line. -/
theorem NoOtherMatches.find?_eq_none {lines : List Bytes} (h : NoOtherMatches lines host path)
    {overrides : List ModeOverride} (hkeys : ∀ o ∈ overrides, o.key ∈ storedKeys lines)
    {rhost rpath : Bytes} (hmatch : matchesRequest (host, path) rhost rpath = true ∨
      matchesRequest (storedKey (host, path)) rhost rpath = true) :
    overrides.find? (·.serves rhost rpath) = none := by
  refine List.find?_eq_none.2 fun o ho => ?_
  rw [serves_eq_matchesRequest, h rhost rpath hmatch o.key (hkeys o ho)]
  exact Bool.false_ne_true

/-- The override of the line. -/
def noCacheEntry (host path : Bytes) : ModeOverride := ⟨host.take 127, path.take 127, [], true⟩

theorem storedKeys_append (a b : List Bytes) : storedKeys (a ++ b) = storedKeys a ++ storedKeys b := by
  rw [storedKeys, List.filterMap_append, List.map_append, storedKeys, storedKeys]

theorem mem_storedKeys_of_overrideKey {lines : List Bytes} {l : Bytes} (hl : l ∈ lines)
    {k : Bytes × Bytes} (hk : overrideKey? l = some k) : storedKey k ∈ storedKeys lines :=
  List.mem_map_of_mem (List.mem_filterMap.2 ⟨l, hl, hk⟩)

variable {env : LoadEnv} {pre post : List Bytes}

/-- A line that is read puts its override behind those before it, and there it stays. -/
theorem NoCacheLine.inserted (h : NoCacheLine line host path)
    (hother : NoOtherMatches (pre ++ post) host path)
    (hread : (overridesFrom env maxOverrides [] pre).length < maxOverrides) :
    Inserted (noCacheEntry host path)
      (overridesFrom env (maxOverrides - 1) (overridesFrom env maxOverrides [] pre) post)
      (overridesFrom env maxOverrides
        (nextOverrides env maxOverrides (overridesFrom env maxOverrides [] pre) line) post) := by
  have hnew : overrideIdx (overridesFrom env maxOverrides [] pre) host path = none := by
    rw [overrideIdx_eq_none_iff]
    intro hmem
    obtain ⟨o, ho, hkey⟩ := List.mem_map.1 hmem
    have hstored : o.key ∈ storedKeys (pre ++ post) := by
      rw [storedKeys_append]
      exact List.mem_append_left _ ((mem_overridesFrom ho).resolve_left List.not_mem_nil)
    obtain ⟨rhost, rpath, hmatch⟩ := exists_request (host, path)
    have hnone := hother rhost rpath (Or.inl hmatch) o.key hstored
    rw [hkey, hmatch] at hnone
    cases hnone
  have hput : nextOverrides env maxOverrides (overridesFrom env maxOverrides [] pre) line =
      overridesFrom env maxOverrides [] pre ++ [noCacheEntry host path] := by
    rw [nextOverrides, h.overrideKey]
    dsimp only
    rw [if_pos hread, putOverride, hnew, h.lineMode env]
    rfl
  rw [hput]
  refine @inserted_overridesFrom env _ _ _ ⟨_, [], by simp, rfl⟩ _ (maxOverrides - 1)
    fun l hl k hk hsame => ?_
  -- a line behind it with that key would be one for the same requests
  have hstored : storedKey k ∈ storedKeys (pre ++ post) :=
    mem_storedKeys_of_overrideKey (List.mem_append_right _ hl) hk
  have hk : storedKey k = storedKey (host, path) := by
    rw [← hsame]
    exact storedKey_storedKey (host, path)
  obtain ⟨rhost, rpath, hmatch⟩ := exists_request (storedKey (host, path))
  have hnone := hother rhost rpath (Or.inr hmatch) _ hstored
  rw [hk, hmatch] at hnone
  cases hnone

end

/-! ## With the line and without it -/

/-- Two files, one with the line more, loaded at any time. -/
structure LineAdded (env : LoadEnv) (pre post : List Bytes) (line : Bytes)
    (without config : ArwsConfig) : Prop where
  without_eq : without.overrides =
    overridesFrom env maxOverrides (overridesFrom env maxOverrides [] pre) post
  config_eq : config.overrides = overridesFrom env maxOverrides
    (nextOverrides env maxOverrides (overridesFrom env maxOverrides [] pre) line) post
  globalMode : config.globalMode = without.globalMode
  maintenanceIps : config.maintenanceIps = without.maintenanceIps
  globalMode_eq : without.globalMode = globalModeOf (pre ++ post)

theorem lineAdded_load (env : LoadEnv) {s₀ s₁ : ArwsConfig} {file file' : Bytes}
    {pre post : List Bytes} {line host path : Bytes} (hfile : fgetsLines file = pre ++ post)
    (hfile' : fgetsLines file' = pre ++ line :: post) (h : NoCacheLine line host path) :
    LineAdded env pre post line (arwsConfigLoad env file s₀).config
      (arwsConfigLoad env file' s₁).config := by
  have hglobals : (arwsConfigLoad env file' s₁).config.globalMode =
        (arwsConfigLoad env file s₀).config.globalMode ∧
      (arwsConfigLoad env file' s₁).config.maintenanceIps =
        (arwsConfigLoad env file s₀).config.maintenanceIps := by
    rw [arwsConfigLoad, arwsConfigLoad, hfile, hfile', readLines_append, readLines_append,
      readLines_cons]
    have hpre := @readLines_globals env ⟨s₁.reset, []⟩ ⟨s₀.reset, []⟩ rfl rfl pre
    have hline : ((Loading.readLines env ⟨s₁.reset, []⟩ pre).readLine env line).config.globalMode =
          (Loading.readLines env ⟨s₁.reset, []⟩ pre).config.globalMode ∧
        ((Loading.readLines env ⟨s₁.reset, []⟩ pre).readLine env line).config.maintenanceIps =
          (Loading.readLines env ⟨s₁.reset, []⟩ pre).config.maintenanceIps := by
      rw [Loading.readLine]
      rcases h.parsed with hparsed | hparsed <;> rw [hparsed] <;> exact readKeyed_globals env _ _ _
    exact readLines_globals env (hline.1.trans hpre.1) (hline.2.trans hpre.2) post
  exact {
    without_eq := by
      rw [arwsConfigLoad, hfile, overrides_readLines, overridesFrom_append]
      rfl
    config_eq := by
      rw [arwsConfigLoad, hfile', overrides_readLines, overridesFrom_append]
      rfl
    globalMode := hglobals.1
    maintenanceIps := hglobals.2
    globalMode_eq := by
      rw [arwsConfigLoad, hfile, globalMode_readLines]
      rfl }

section

variable {env : LoadEnv} {pre post : List Bytes} {line host path : Bytes} {without config : ArwsConfig}

/-- What is answered for the modes, where the global mode lets the overrides decide. -/
theorem effectiveMode_of_ne {s : ArwsConfig} (hglobal : s.globalMode ≠ ascii "maintenance")
    (rhost rpath : Bytes) (clientIp : Option Bytes) :
    arwsConfigGetEffectiveMode s rhost rpath clientIp =
      if (s.overrideFor rhost rpath).elim s.globalMode (·.mode) = ascii "maintenance" ∧
          s.isMaintenanceIp clientIp then ascii "production"
      else (s.overrideFor rhost rpath).elim s.globalMode (·.mode) := by
  rw [arwsConfigGetEffectiveMode, if_neg hglobal]
  cases s.overrideFor rhost rpath with
  | none => exact (if_neg fun h => hglobal h.1).symm
  | some o => rfl

theorem key_mem_storedKeys {places : Nat} {o : ModeOverride}
    (ho : o ∈ overridesFrom env places (overridesFrom env maxOverrides [] pre) post) :
    o.key ∈ storedKeys (pre ++ post) := by
  rw [storedKeys_append, List.mem_append]
  rcases mem_overridesFrom ho with ho | ho
  · exact Or.inl ((mem_overridesFrom ho).resolve_left List.not_mem_nil)
  · exact Or.inr ho

/-- What is looked up with the line, if it is read. -/
theorem LineAdded.overrideFor (h : LineAdded env pre post line without config)
    (hline : NoCacheLine line host path) (hother : NoOtherMatches (pre ++ post) host path)
    (hread : (overridesFrom env maxOverrides [] pre).length < maxOverrides) (rhost rpath : Bytes) :
    config.overrideFor rhost rpath =
      if matchesRequest (storedKey (host, path)) rhost rpath then some (noCacheEntry host path)
      else (overridesFrom env (maxOverrides - 1) (overridesFrom env maxOverrides [] pre) post).find?
        (·.serves rhost rpath) := by
  rw [ArwsConfig.overrideFor, h.config_eq]
  refine (hline.inserted hother hread).find? fun hserves o ho => ?_
  exact hother rhost rpath (Or.inr hserves) o.key (key_mem_storedKeys ho)

/-- Without the line nothing is set for its requests. -/
theorem LineAdded.overrideFor_without (h : LineAdded env pre post line without config)
    (hother : NoOtherMatches (pre ++ post) host path) {rhost rpath : Bytes}
    (hmatch : matchesRequest (host, path) rhost rpath = true ∨
      matchesRequest (storedKey (host, path)) rhost rpath = true) :
    without.overrideFor rhost rpath = none := by
  rw [ArwsConfig.overrideFor, h.without_eq]
  exact hother.find?_eq_none (fun o ho => key_mem_storedKeys ho) hmatch

theorem LineAdded.changesCachingOnly (h : LineAdded env pre post line without config)
    (hline : NoCacheLine line host path) (hother : NoOtherMatches (pre ++ post) host path)
    (hharmless : Harmless env pre post host path) : ChangesCachingOnly without config host path where
  mode := by
    intro rhost rpath clientIp
    by_cases hglobal : without.globalMode = ascii "maintenance"
    · rw [arwsConfigGetEffectiveMode, arwsConfigGetEffectiveMode, h.globalMode, if_pos hglobal,
        if_pos hglobal, ArwsConfig.isMaintenanceIp, h.maintenanceIps]
      rfl
    · have hempty : without.globalMode = [] := by
        rw [h.globalMode_eq] at hglobal ⊢
        exact hharmless.mode.resolve_left hglobal
      have hsame : (config.overrideFor rhost rpath).elim config.globalMode (·.mode) =
          (without.overrideFor rhost rpath).elim without.globalMode (·.mode) := by
        rw [h.overrideFor hline hother hharmless.read, h.globalMode]
        split_ifs with hmatch
        · rw [h.overrideFor_without hother (Or.inr hmatch), hempty]
          rfl
        · have hmodes := hharmless.places.mode.resolve_left (h.globalMode_eq ▸ hglobal) rhost rpath
          rw [ArwsConfig.overrideFor, h.without_eq, h.globalMode_eq]
          exact hmodes
      rw [effectiveMode_of_ne hglobal, effectiveMode_of_ne (h.globalMode ▸ hglobal), hsame,
        ArwsConfig.isMaintenanceIp, h.maintenanceIps]
      rfl
  noCache := by
    intro rhost rpath
    rw [arwsConfigIsNoCache, arwsConfigIsNoCache, h.overrideFor hline hother hharmless.read,
      ← hharmless.stored]
    split_ifs with hmatch
    · rw [hmatch, Bool.or_true]
      rfl
    · rw [Bool.eq_false_iff.2 hmatch, Bool.or_false, ArwsConfig.overrideFor, h.without_eq]
      exact hharmless.places.noCache rhost rpath

theorem LineAdded.harmless (h : LineAdded env pre post line without config)
    (hline : NoCacheLine line host path) (hother : NoOtherMatches (pre ++ post) host path)
    (hchanges : ChangesCachingOnly without config host path) : Harmless env pre post host path := by
  have hflag : ∀ rhost rpath, (matchesRequest (host, path) rhost rpath = true ∨
      matchesRequest (storedKey (host, path)) rhost rpath = true) →
      arwsConfigIsNoCache config rhost rpath = matchesRequest (host, path) rhost rpath := by
    intro rhost rpath hmatch
    rw [hchanges.noCache, arwsConfigIsNoCache, h.overrideFor_without hother hmatch]
    rfl
  have hread : (overridesFrom env maxOverrides [] pre).length < maxOverrides := by
    by_contra hfull
    -- the line changes nothing then
    have hsame : config.overrides = without.overrides := by
      rw [h.config_eq, h.without_eq, nextOverrides, hline.overrideKey]
      dsimp only
      rw [if_neg hfull]
    obtain ⟨rhost, rpath, hmatch⟩ := exists_request (host, path)
    have hyes := hflag rhost rpath (Or.inl hmatch)
    have hnone := h.overrideFor_without hother (Or.inl hmatch)
    rw [hmatch, arwsConfigIsNoCache, ArwsConfig.overrideFor, hsame] at hyes
    rw [ArwsConfig.overrideFor] at hnone
    rw [hnone] at hyes
    cases hyes
  have hstored : ∀ rhost rpath, matchesRequest (storedKey (host, path)) rhost rpath =
      matchesRequest (host, path) rhost rpath := by
    intro rhost rpath
    by_cases hmatch : matchesRequest (host, path) rhost rpath = true ∨
        matchesRequest (storedKey (host, path)) rhost rpath = true
    · rw [← hflag rhost rpath hmatch, arwsConfigIsNoCache,
        h.overrideFor hline hother hread]
      split_ifs with hcut
      · exact hcut
      · rw [hother.find?_eq_none (fun o ho => key_mem_storedKeys ho) hmatch]
        exact Bool.eq_false_iff.2 hcut
    · obtain ⟨hline, hcut⟩ := not_or.1 hmatch
      rw [Bool.eq_false_iff.2 hline, Bool.eq_false_iff.2 hcut]
  refine ⟨hread, hstored, ?_, ?_, ?_⟩
  · rw [← h.globalMode_eq]
    refine or_iff_not_imp_left.2 fun hglobal => ?_
    obtain ⟨rhost, rpath, hmatch⟩ := exists_request (storedKey (host, path))
    have hmode := hchanges.mode rhost rpath none
    rw [effectiveMode_of_ne hglobal, effectiveMode_of_ne (h.globalMode ▸ hglobal),
      h.overrideFor hline hother hread, if_pos hmatch, h.overrideFor_without hother (Or.inr hmatch)]
      at hmode
    simpa [noCacheEntry, ArwsConfig.isMaintenanceIp] using hmode.symm
  · intro rhost rpath
    cases hmatch : matchesRequest (storedKey (host, path)) rhost rpath with
    | true =>
      rw [hother.find?_eq_none (fun o ho => key_mem_storedKeys ho) (Or.inr hmatch),
        hother.find?_eq_none (fun o ho => key_mem_storedKeys ho) (Or.inr hmatch)]
    | false =>
      have hnoCache := hchanges.noCache rhost rpath
      rw [← hstored, hmatch, Bool.or_false, arwsConfigIsNoCache, arwsConfigIsNoCache,
        h.overrideFor hline hother hread, hmatch, if_neg Bool.false_ne_true, ArwsConfig.overrideFor,
        h.without_eq] at hnoCache
      exact hnoCache
  · rw [← h.globalMode_eq]
    refine or_iff_not_imp_left.2 fun hglobal rhost rpath => ?_
    cases hmatch : matchesRequest (storedKey (host, path)) rhost rpath with
    | true =>
      rw [hother.find?_eq_none (fun o ho => key_mem_storedKeys ho) (Or.inr hmatch),
        hother.find?_eq_none (fun o ho => key_mem_storedKeys ho) (Or.inr hmatch)]
    | false =>
      have hmode := hchanges.mode rhost rpath none
      rw [effectiveMode_of_ne hglobal, effectiveMode_of_ne (h.globalMode ▸ hglobal),
        h.overrideFor hline hother hread, hmatch, if_neg Bool.false_ne_true, h.globalMode,
        ArwsConfig.overrideFor, h.without_eq] at hmode
      simpa [ArwsConfig.isMaintenanceIp] using hmode

end

/-- **A line without a mode changes what is cached and nothing else exactly if** it is read, its host and
path can be stored, the global mode is empty or decides alone, and the place that it takes makes no
difference to the lines behind it. -/
theorem changesCachingOnly_iff (env : LoadEnv) (s₀ s₁ : ArwsConfig) {file file' : Bytes}
    {pre post : List Bytes} {line host path : Bytes} (hfile : fgetsLines file = pre ++ post)
    (hfile' : fgetsLines file' = pre ++ line :: post) (hline : NoCacheLine line host path)
    (hother : NoOtherMatches (pre ++ post) host path) :
    ChangesCachingOnly (arwsConfigLoad env file s₀).config (arwsConfigLoad env file' s₁).config
      host path ↔ Harmless env pre post host path :=
  have hadded := lineAdded_load env hfile hfile' hline
  ⟨hadded.harmless hline hother, hadded.changesCachingOnly hline hother⟩

private def envWithoutLists : LoadEnv := ⟨fun _ => none, fun _ => []⟩

private theorem noOtherMatches_of_nil {lines : List Bytes} (h : storedKeys lines = []) (host path : Bytes) :
    NoOtherMatches lines host path := by
  intro rhost rpath _ k hk
  rw [h] at hk
  cases hk

/-- During maintenance the line changes what is cached and nothing else. -/
theorem changesCachingOnly_in_maintenance :
    ChangesCachingOnly
      (arwsConfigLoad envWithoutLists (ascii "global_mode=maintenance") ArwsConfig.initial).config
      (arwsConfigLoad envWithoutLists (ascii "\"example.com/*\" = no-cache\nglobal_mode=maintenance")
        ArwsConfig.initial).config (ascii "example.com") (ascii "*") := by
  have hfile : fgetsLines (ascii "global_mode=maintenance") =
      [] ++ [ascii "global_mode=maintenance"] := by decide +kernel
  have hfile' : fgetsLines (ascii "\"example.com/*\" = no-cache\nglobal_mode=maintenance") =
      [] ++ ascii "\"example.com/*\" = no-cache\n" :: [ascii "global_mode=maintenance"] := by
    decide +kernel
  have hline : NoCacheLine (ascii "\"example.com/*\" = no-cache\n") (ascii "example.com") (ascii "*") :=
    ⟨Or.inl (by decide +kernel), by decide +kernel⟩
  have hother : NoOtherMatches ([] ++ [ascii "global_mode=maintenance"]) (ascii "example.com")
      (ascii "*") := noOtherMatches_of_nil (by decide +kernel) _ _
  have hmode : globalModeOf ([] ++ [ascii "global_mode=maintenance"]) = ascii "maintenance" := by
    decide +kernel
  exact (changesCachingOnly_iff envWithoutLists _ _ hfile hfile' hline hother).2
    ⟨by decide +kernel, fun _ _ => rfl, Or.inl hmode, fun _ _ => rfl, Or.inl hmode⟩

/-- **The line takes the mode away**: with `"example.com/*" = no-cache` alone in the file, the mode of
every request for the host is the empty one, and no longer the global mode. -/
theorem not_changesCachingOnly :
    ¬ ∀ (env : LoadEnv) (s₀ s₁ : ArwsConfig) (file file' : Bytes) (pre post : List Bytes)
      (line host path : Bytes), fgetsLines file = pre ++ post → fgetsLines file' = pre ++ line :: post →
      NoCacheLine line host path → NoOtherMatches (pre ++ post) host path →
      ChangesCachingOnly (arwsConfigLoad env file s₀).config (arwsConfigLoad env file' s₁).config
        host path := by
  intro h
  have hline : NoCacheLine (ascii "\"example.com/*\" = no-cache") (ascii "example.com") (ascii "*") :=
    ⟨Or.inl (by decide +kernel), by decide +kernel⟩
  have hmode := (h envWithoutLists ArwsConfig.initial ArwsConfig.initial []
    (ascii "\"example.com/*\" = no-cache") [] [] _ _ _ rfl (by decide +kernel) hline
    (noOtherMatches_of_nil rfl _ _)).mode (ascii "example.com") (ascii "/shop") none
  revert hmode
  decide +kernel

end Config
end Arws

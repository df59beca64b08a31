import Arws.Library.TextFile
import Arws.Router.Route

/-!
# The configuration file

`arws_config.c`: the tables that `arws_config_load` fills from the lines of a file, and what is
looked up in them.

The arrays of the source stand in memory that holds zeros at first, and `strncpy` never writes the
last byte of a field, so a field is the text that was cut to its length.  What `cJSON_Parse` makes of
a list of addresses is a parameter.

* `readLine_cases` — all that a line can do.
-/

set_option autoImplicit false

namespace Arws
namespace Config

open CString TextFile Router

/-! ## The tables -/

/-- `MAX_OVERRIDES`. -/
def maxOverrides : Nat := 128

/-- `MAX_MAINTENANCE_IPS`. -/
def maxMaintenanceIps : Nat := 32

inductive ArwsMode
  | test
  | production
  deriving DecidableEq

structure ModeOverride where
  host : Bytes
  path : Bytes
  mode : Bytes
  noCache : Bool
  deriving DecidableEq

structure ProxyRouteEntry where
  host : Bytes
  path : Bytes
  targetUrl : Bytes
  deriving DecidableEq

structure ArwsConfig where
  /-- `cached_mode`, or nothing for `-1`. -/
  cachedMode : Option ArwsMode
  configPort : Int
  configBind : Bytes
  globalMode : Bytes
  cacheTtlConfig : Int
  overrides : List ModeOverride
  /-- What the slots of the array behind the overrides hold. -/
  spare : List ModeOverride
  proxyRoutes : List ProxyRouteEntry
  streamRoutes : List ProxyRouteEntry
  maintenanceIps : List Bytes
  deriving DecidableEq

/-- The configuration before a file has been loaded. -/
def ArwsConfig.initial : ArwsConfig :=
  ⟨none, 0, [], ascii "production", 60, [], [], [], [], []⟩

/-- The functions of the router that a line can call. -/
inductive RouteKind
  | proxy
  | stream
  | redirect
  deriving DecidableEq

/-- A call of one of them. -/
structure Registration where
  kind : RouteKind
  path : Bytes
  host : Bytes
  mode : Bytes
  target : Bytes
  deriving DecidableEq

/-- What `arws_config_load` works on: the tables, and the calls of the router that it has made. -/
structure Loading where
  config : ArwsConfig
  registered : List Registration

structure LoadEnv where
  /-- The strings of the array that `cJSON_Parse` reads from a text, if it reads an array. -/
  cJSONArray : Bytes → Option (List Bytes)
  /-- What stands in memory behind the array `value`, which has no terminator when the text of the
  line fills it. -/
  behind : Bytes → Bytes

/-! ## The parts of a line -/

/-- The buffer of a line takes `MAX_LINE - 1` bytes. -/
def fgetsLines (file : Bytes) : List Bytes := pieces 10 510 file

def isBlank (c : UInt8) : Bool := c == 32 || c == 9
def isEndBlank (c : UInt8) : Bool := c == 32 || c == 9 || c == 13 || c == 10

/-- `trim`. -/
def trim (s : Bytes) : Bytes := strip isBlank isEndBlank s

/-- A text without the quotes around it. -/
def unquote (s : Bytes) : Bytes :=
  if 2 ≤ s.length ∧ s.head? = some 34 ∧ s.getLast? = some 34 then s.tail.dropLast else s

inductive ConfigLine
  | nothing
  /-- `"key" = val`. -/
  | keyed (key val : Bytes)
  /-- `name = value`. -/
  | setting (name value : Bytes)
  deriving DecidableEq

/-- A line taken apart.  The arrays the parts are copied to are as long as the line. -/
def parseLine (line : Bytes) : ConfigLine :=
  match trim (cstr line) with
  | [] => .nothing
  | 34 :: rest =>
    match strchr 34 rest with
    | none => .nothing
    | some close =>
      match strchr 61 (rest.drop (close + 1)) with
      | none => .nothing
      | some eq => .keyed (rest.take close) (unquote (trim (rest.drop (close + 1 + (eq + 1)))))
  | c :: rest =>
    if c = 35 then .nothing
    else match strchr 61 (c :: rest) with
      | none => .nothing
      | some eq => .setting (trim ((c :: rest).take eq)) (trim ((c :: rest).drop (eq + 1)))

/-- The target that a value names, and the kind of its route. -/
def targetOf (val : Bytes) : RouteKind × Bytes :=
  let clean (s : Bytes) := trim (unquote (trim s))
  if ascii "stream " <+: val then (.stream, clean (val.drop 7))
  else if ascii "redirect " <+: val then (.redirect, clean (val.drop 9))
  else (.proxy, clean val)

/-- The target is one that a route is registered for. -/
def isUrl (target : Bytes) : Bool :=
  (ascii "http://").isPrefixOf target || (ascii "https://").isPrefixOf target ||
    (ascii "ws://").isPrefixOf target || (ascii "wss://").isPrefixOf target

def isNoCacheWord (s : Bytes) : Bool :=
  strcaseeq s (ascii "no-cache") || strcaseeq s (ascii "no_cache")

/-- `mode` and `no_cache` of an override with a value. -/
def modeOf (env : LoadEnv) (val : Bytes) : Bytes × Bool :=
  let value := if val.length < 255 then val else val.take 255 ++ env.behind val
  let mode := value.takeWhile (· != 32)
  let flags := trim (value.drop (mode.length + 1))
  if isNoCacheWord mode then ([], true) else (mode.take 31, isNoCacheWord flags)

/-! ## Reading a line -/

/-- The override of a host and a path. -/
def overrideIdx (overrides : List ModeOverride) (host path : Bytes) : Option Nat :=
  overrides.findIdx? fun o => o.host == host && o.path == path

/-- An override that a line sets. -/
def ArwsConfig.setOverride (s : ArwsConfig) (host path mode : Bytes) (noCache : Bool) : ArwsConfig :=
  let entry : ModeOverride := ⟨host.take 127, path.take 127, mode, noCache⟩
  match overrideIdx s.overrides host path with
  | some i => { s with overrides := s.overrides.set i entry }
  | none => { s with overrides := s.overrides ++ [entry], spare := s.spare.tail }

def recordRoute (routes : List ProxyRouteEntry) (host path target : Bytes) : List ProxyRouteEntry :=
  if routes.length < maxOverrides then
    routes ++ [⟨host.take 127, path.take 127, target.take 255⟩]
  else routes

/-- A route that a line names. -/
def Loading.addRoute (st : Loading) (kind : RouteKind) (host path target : Bytes) : Loading where
  config := match kind with
    | .redirect => st.config
    | .stream =>
      { st.config with streamRoutes := recordRoute st.config.streamRoutes host path target }
    | .proxy =>
      { st.config with proxyRoutes := recordRoute st.config.proxyRoutes host path target }
  registered := st.registered ++ [⟨kind, path, host, st.config.globalMode, target⟩]

/-- A line with a quoted key. -/
def Loading.readKeyed (env : LoadEnv) (st : Loading) (key val : Bytes) : Loading :=
  if st.config.overrides.length < maxOverrides then
    match strchr 47 key with
    | none => st
    | some slash =>
      let host := key.take slash
      let path := key.drop (slash + 1)
      let (kind, target) := targetOf val
      if isUrl target then st.addRoute kind host path target
      else
        let (mode, noCache) := modeOf env val
        { st with config := st.config.setOverride host path mode noCache }
  else st

/-- A line with a name. -/
def ArwsConfig.readSetting (env : LoadEnv) (s : ArwsConfig) (name value : Bytes) : ArwsConfig :=
  if strcaseeq name (ascii "mode") then
    if strcaseeq value (ascii "production") then { s with cachedMode := some .production }
    else if strcaseeq value (ascii "test") then { s with cachedMode := some .test }
    else s
  else if strcaseeq name (ascii "global_mode") then { s with globalMode := value.take 15 }
  else if strcaseeq name (ascii "port") then
    if 0 < atoi value ∧ atoi value ≤ 65535 then { s with configPort := atoi value } else s
  else if strcaseeq name (ascii "bind") then { s with configBind := value.take 63 }
  else if strcaseeq name (ascii "cache_ttl") then
    if 0 ≤ atoi value then { s with cacheTtlConfig := atoi value } else s
  else if strcaseeq name (ascii "maintenance_ips") then
    match env.cJSONArray value with
    | none => s
    | some ips =>
      { s with maintenanceIps := (ips.take maxMaintenanceIps).map fun ip => (cstr ip).take 63 }
  else s

def Loading.read (env : LoadEnv) (st : Loading) : ConfigLine → Loading
  | .nothing => st
  | .keyed key val => st.readKeyed env key val
  | .setting name value => { st with config := st.config.readSetting env name value }

def Loading.readLine (env : LoadEnv) (st : Loading) (line : Bytes) : Loading :=
  st.read env (parseLine line)

/-- What `arws_config_load` begins with. -/
def ArwsConfig.reset (s : ArwsConfig) : ArwsConfig :=
  { s with
    cachedMode := none
    configPort := 0
    configBind := []
    globalMode := ascii "production"
    cacheTtlConfig := 60
    overrides := []
    spare := s.overrides ++ s.spare
    proxyRoutes := []
    streamRoutes := []
    maintenanceIps := [] }

def Loading.readLines (env : LoadEnv) (st : Loading) (lines : List Bytes) : Loading :=
  lines.foldl (Loading.readLine env) st

theorem readLines_nil (env : LoadEnv) (st : Loading) : st.readLines env [] = st := rfl

theorem readLines_cons (env : LoadEnv) (st : Loading) (line : Bytes) (lines : List Bytes) :
    st.readLines env (line :: lines) = (st.readLine env line).readLines env lines := rfl

theorem readLines_append (env : LoadEnv) (st : Loading) (a b : List Bytes) :
    st.readLines env (a ++ b) = (st.readLines env a).readLines env b :=
  List.foldl_append

/-- `arws_config_load` of a file that can be read: the tables behind it and the calls of the router. -/
def arwsConfigLoad (env : LoadEnv) (file : Bytes) (s : ArwsConfig) : Loading :=
  Loading.readLines env ⟨s.reset, []⟩ (fgetsLines file)

/-! ## Looking up -/

/-- `path_matches_pattern`. -/
def pathMatchesPattern (path pattern : Bytes) : Bool :=
  if pattern.getLast? = some 42 then pattern.dropLast.isPrefixOf path else path == pattern

/-- `is_loopback_addr`. -/
def isLoopbackAddr (h : Bytes) : Bool := h != [] && isLoopbackHost h

/-- `host_matches`. -/
def hostMatches (pattern host : Bytes) : Bool :=
  pattern == [] || pattern == [42] || strcaseeq pattern host ||
    (isLoopbackAddr pattern && isLoopbackAddr host) ||
    (match strchr 46 pattern, strchr 46 host with
      | some p, some h =>
        p == h && strcaseeq (pattern.take p) (host.take h) &&
          (isLoopbackAddr (pattern.drop (p + 1)) && isLoopbackAddr (host.drop (h + 1)))
      | _, _ => false) ||
    (strcaseeq (host.take 4) (ascii "www.") && strcaseeq pattern (host.drop 4))

/-- The override is one for a host and a path. -/
def ModeOverride.serves (o : ModeOverride) (host path : Bytes) : Bool :=
  hostMatches o.host host && pathMatchesPattern path o.path

/-- The override that is looked up for a host and a path. -/
def ArwsConfig.overrideFor (s : ArwsConfig) (host path : Bytes) : Option ModeOverride :=
  s.overrides.find? (·.serves host path)

/-- `arws_config_is_maintenance_ip`. -/
def ArwsConfig.isMaintenanceIp (s : ArwsConfig) (clientIp : Option Bytes) : Bool :=
  clientIp.any fun ip => s.maintenanceIps.any (· == ip)

/-- `arws_config_get_effective_mode`. -/
def arwsConfigGetEffectiveMode (s : ArwsConfig) (host path : Bytes) (clientIp : Option Bytes) :
    Bytes :=
  if s.globalMode = ascii "maintenance" then
    if s.isMaintenanceIp clientIp then ascii "production" else ascii "maintenance"
  else match s.overrideFor host path with
    | some o =>
      if o.mode = ascii "maintenance" ∧ s.isMaintenanceIp clientIp then ascii "production" else o.mode
    | none => s.globalMode

/-- `arws_config_is_no_cache`. -/
def arwsConfigIsNoCache (s : ArwsConfig) (host path : Bytes) : Bool :=
  (s.overrideFor host path).any (·.noCache)

/-! ## What a line does -/

/-- **A line with a key** that names a host and a path registers a route or sets an override. -/
theorem readKeyed_slash (env : LoadEnv) {st : Loading} {host : Bytes} (hhost : (47 : UInt8) ∉ host)
    (path val : Bytes) (hroom : st.config.overrides.length < maxOverrides) :
    st.readKeyed env (host ++ 47 :: path) val =
      if isUrl (targetOf val).2 then st.addRoute (targetOf val).1 host path (targetOf val).2
      else
        { st with
          config := st.config.setOverride host path (modeOf env val).1 (modeOf env val).2 } := by
  have htake : (host ++ 47 :: path).take host.length = host := List.take_left' rfl
  have hdrop : (host ++ 47 :: path).drop (host.length + 1) = path := by
    rw [← List.drop_drop, List.drop_left' rfl]
    rfl
  rw [Loading.readKeyed, if_pos hroom, strchr_append hhost]
  simp only [htake, hdrop]

/-- What a line does to the tables. -/
inductive LineEffect (env : LoadEnv) (st : Loading) (line : Bytes) : Loading → Prop
  | nothing : LineEffect env st line st
  | setting (name value : Bytes) (hline : parseLine line = .setting name value) :
    LineEffect env st line { st with config := st.config.readSetting env name value }
  | route (host path val : Bytes) (hline : parseLine line = .keyed (host ++ 47 :: path) val)
    (hhost : (47 : UInt8) ∉ host) (hroom : st.config.overrides.length < maxOverrides)
    (hurl : isUrl (targetOf val).2 = true) :
    LineEffect env st line (st.addRoute (targetOf val).1 host path (targetOf val).2)
  | override (host path val : Bytes) (hline : parseLine line = .keyed (host ++ 47 :: path) val)
    (hhost : (47 : UInt8) ∉ host) (hroom : st.config.overrides.length < maxOverrides)
    (hurl : isUrl (targetOf val).2 = false) :
    LineEffect env st line
      { st with config := st.config.setOverride host path (modeOf env val).1 (modeOf env val).2 }

/-- **This is all that a line can do.** -/
theorem lineEffect_readLine (env : LoadEnv) (st : Loading) (line : Bytes) :
    LineEffect env st line (st.readLine env line) := by
  rw [Loading.readLine]
  cases hline : parseLine line with
  | nothing => exact .nothing
  | setting name value => exact .setting name value hline
  | keyed key val =>
    rw [Loading.read]
    by_cases hroom : st.config.overrides.length < maxOverrides
    · cases hslash : strchr 47 key with
      | none =>
        have : st.readKeyed env key val = st := by rw [Loading.readKeyed, if_pos hroom, hslash]
        rw [this]
        exact .nothing
      | some slash =>
        obtain ⟨hkey, hhost⟩ := strchr_eq_some hslash
        rw [hkey] at hline ⊢
        rw [readKeyed_slash env hhost _ val hroom]
        cases hurl : isUrl (targetOf val).2 with
        | true => exact .route _ _ val hline hhost hroom hurl
        | false => exact .override _ _ val hline hhost hroom hurl
    · have : st.readKeyed env key val = st := if_neg hroom
      rw [this]
      exact .nothing

/-- A setting leaves the overrides and the routes alone. -/
theorem readSetting_tables (env : LoadEnv) (s : ArwsConfig) (name value : Bytes) :
    (s.readSetting env name value).overrides = s.overrides ∧
      (s.readSetting env name value).proxyRoutes = s.proxyRoutes ∧
      (s.readSetting env name value).streamRoutes = s.streamRoutes := by
  rw [ArwsConfig.readSetting]
  cases env.cJSONArray value <;> split_ifs <;> exact ⟨rfl, rfl, rfl⟩

theorem readSetting_globalMode (env : LoadEnv) (s : ArwsConfig) (name value : Bytes) :
    (s.readSetting env name value).globalMode =
      if ¬ strcaseeq name (ascii "mode") ∧ strcaseeq name (ascii "global_mode") then value.take 15
      else s.globalMode := by
  by_cases hmode : strcaseeq name (ascii "mode") = true
  · rw [if_neg fun h => h.1 hmode, ArwsConfig.readSetting, if_pos hmode]
    split_ifs <;> rfl
  · by_cases hglobal : strcaseeq name (ascii "global_mode") = true
    · rw [if_pos ⟨hmode, hglobal⟩, ArwsConfig.readSetting, if_neg hmode, if_pos hglobal]
    · rw [if_neg fun h => hglobal h.2, ArwsConfig.readSetting, if_neg hmode, if_neg hglobal]
      cases env.cJSONArray value <;> split_ifs <;> rfl

@[simp] theorem addRoute_overrides (st : Loading) (kind : RouteKind) (host path target : Bytes) :
    (st.addRoute kind host path target).config.overrides = st.config.overrides := by
  cases kind <;> rfl

@[simp] theorem addRoute_globalMode (st : Loading) (kind : RouteKind) (host path target : Bytes) :
    (st.addRoute kind host path target).config.globalMode = st.config.globalMode := by
  cases kind <;> rfl

theorem addRoute_registered (st : Loading) (kind : RouteKind) (host path target : Bytes) :
    (st.addRoute kind host path target).registered =
      st.registered ++ [⟨kind, path, host, st.config.globalMode, target⟩] := rfl

/-- What an override is found by. -/
def ModeOverride.key (o : ModeOverride) : Bytes × Bytes := (o.host, o.path)

theorem key_of_overrideIdx {overrides : List ModeOverride} {host path : Bytes} {i : Nat}
    (h : overrideIdx overrides host path = some i) :
    ∃ o, overrides[i]? = some o ∧ o.host = host ∧ o.path = path := by
  obtain ⟨hlt, hpair, -⟩ := List.findIdx?_eq_some_iff_getElem.1 h
  rw [Bool.and_eq_true, beq_iff_eq, beq_iff_eq] at hpair
  exact ⟨overrides[i], List.getElem?_eq_getElem hlt, hpair⟩

/-- Where the override of a host and a path stands, or will stand. -/
def overridePlace (overrides : List ModeOverride) (host path : Bytes) : Nat :=
  (overrideIdx overrides host path).getD overrides.length

/-- **The override is set**, -/
theorem setOverride_place (s : ArwsConfig) (host path mode : Bytes) (noCache : Bool) :
    (s.setOverride host path mode noCache).overrides[overridePlace s.overrides host path]? =
      some ⟨host.take 127, path.take 127, mode, noCache⟩ := by
  rw [ArwsConfig.setOverride, overridePlace]
  cases hidx : overrideIdx s.overrides host path with
  | none => simp
  | some i =>
    obtain ⟨o, ho, -⟩ := key_of_overrideIdx hidx
    have hlt := (List.getElem?_eq_some_iff.1 ho).1
    simp [hlt]

/-- A host and a path as they are stored. -/
def ModeOverride.Sized (o : ModeOverride) : Prop := o.host.length ≤ 127 ∧ o.path.length ≤ 127

theorem mem_setOverride {s : ArwsConfig} {host path mode : Bytes} {noCache : Bool} {o : ModeOverride}
    (h : o ∈ (s.setOverride host path mode noCache).overrides) :
    o ∈ s.overrides ∨ o = ⟨host.take 127, path.take 127, mode, noCache⟩ := by
  rw [ArwsConfig.setOverride] at h
  cases hidx : overrideIdx s.overrides host path with
  | none =>
    rw [hidx] at h
    simpa using h
  | some i =>
    rw [hidx] at h
    exact List.mem_or_eq_of_mem_set h

theorem overrideIdx_eq_none_iff {overrides : List ModeOverride} {host path : Bytes} :
    overrideIdx overrides host path = none ↔ (host, path) ∉ overrides.map (·.key) := by
  simp [overrideIdx, ModeOverride.key]

/-- under its key if there was none of it. -/
theorem keys_setOverride {s : ArwsConfig} {host path : Bytes} (mode : Bytes) (noCache : Bool)
    (hsized : ∀ o ∈ s.overrides, o.Sized) :
    (s.setOverride host path mode noCache).overrides.map (·.key) =
      if (host, path) ∈ s.overrides.map (·.key) then s.overrides.map (·.key)
      else s.overrides.map (·.key) ++ [(host.take 127, path.take 127)] := by
  rw [ArwsConfig.setOverride]
  cases hidx : overrideIdx s.overrides host path with
  | none =>
    rw [if_neg (overrideIdx_eq_none_iff.1 hidx), List.map_append]
    rfl
  | some i =>
    obtain ⟨o, ho, rfl, rfl⟩ := key_of_overrideIdx hidx
    obtain ⟨hlt, hget⟩ := List.getElem?_eq_some_iff.1 ho
    have hmem : o ∈ s.overrides := hget ▸ List.getElem_mem hlt
    obtain ⟨hh, hp⟩ := hsized o hmem
    have hkey : ModeOverride.key ⟨o.host.take 127, o.path.take 127, mode, noCache⟩ =
        (s.overrides.map (·.key)).get ⟨i, by simpa using hlt⟩ := by
      rw [List.get_eq_getElem, List.getElem_map, hget, ModeOverride.key, List.take_of_length_le hh,
        List.take_of_length_le hp]
      rfl
    have hold : (o.host, o.path) ∈ s.overrides.map (·.key) := List.mem_map.2 ⟨o, hmem, rfl⟩
    rw [if_pos hold]
    simp only [List.map_set]
    rw [hkey, List.get_eq_getElem, List.set_getElem_self]

/-- No override is lost or gets another host or path. -/
theorem setOverride_keys {s : ArwsConfig} {host path : Bytes} (mode : Bytes) (noCache : Bool)
    (hsized : ∀ o ∈ s.overrides, o.Sized) :
    s.overrides.map (·.key) <+: (s.setOverride host path mode noCache).overrides.map (·.key) := by
  rw [keys_setOverride mode noCache hsized]
  split
  · exact List.prefix_refl _
  · exact List.prefix_append _ _

theorem readLine_sized (env : LoadEnv) {st : Loading} (line : Bytes)
    (h : ∀ o ∈ st.config.overrides, o.Sized) :
    ∀ o ∈ (st.readLine env line).config.overrides, o.Sized := by
  have heffect := lineEffect_readLine env st line
  generalize st.readLine env line = st' at heffect ⊢
  cases heffect with
  | nothing => exact h
  | setting name value hline => rwa [(readSetting_tables env st.config name value).1]
  | route host path val hline hhost hroom hurl => rwa [addRoute_overrides]
  | override host path val hline hhost hroom hurl =>
    intro o ho
    obtain ho | rfl := mem_setOverride ho
    · exact h o ho
    · exact ⟨List.length_take_le _ _, List.length_take_le _ _⟩

theorem readLine_keys (env : LoadEnv) {st : Loading} (line : Bytes)
    (h : ∀ o ∈ st.config.overrides, o.Sized) :
    st.config.overrides.map (·.key) <+: (st.readLine env line).config.overrides.map (·.key) := by
  have heffect := lineEffect_readLine env st line
  generalize st.readLine env line = st' at heffect ⊢
  cases heffect with
  | nothing => exact List.prefix_refl _
  | setting name value hline => rw [(readSetting_tables env st.config name value).1]
  | route host path val hline hhost hroom hurl => rw [addRoute_overrides]
  | override host path val hline hhost hroom hurl => exact setOverride_keys _ _ h

/-- Over the lines of a file the overrides stay where they are, with their hosts and paths. -/
theorem readLines_keys (env : LoadEnv) {st : Loading} (lines : List Bytes)
    (h : ∀ o ∈ st.config.overrides, o.Sized) :
    (∀ o ∈ (st.readLines env lines).config.overrides, o.Sized) ∧
      st.config.overrides.map (·.key) <+:
        (st.readLines env lines).config.overrides.map (·.key) := by
  induction lines generalizing st with
  | nil => exact ⟨h, List.prefix_refl _⟩
  | cons line lines ih =>
    obtain ⟨hsized, hkeys⟩ := ih (readLine_sized env line h)
    exact ⟨hsized, (readLine_keys env line h).trans hkeys⟩

end Config
end Arws

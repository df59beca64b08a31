import Arws.Config.FileLines
import Arws.Config.Reload
import Arws.Router.ExactPath

/-!
# The order of the lines of a file

The lines of `arws.cfg` are about different things, and what a load comes to is meant not to depend on their
order.  But a line with a redirect registers it under the global mode that is in force when the line is
read, and `arws_route_match` compares that mode: a redirect in front of the line `global_mode` works in
production, and behind it in that mode.

* `Setting.get_foldl_perm` — the settings do not depend on the order.
* `tables_foldl` — the overrides and the lists of routes are those of the lines.
* `permutedLines_iff` — the routes do not, if and only if the global mode is that of the start, or the
  redirects in front of its line are the same.
* `not_permutedLines` — a redirect in front of the line and behind it.
-/

set_option autoImplicit false

namespace Arws
namespace Router

open CString Server

/-- What a route is apart from the mode it works in. -/
def ArwsRoute.withoutMode (route : ArwsRoute) : ArwsRoute := { route with mode := .ofString 15 [] }

/-- The request is one for the route, whatever the mode. -/
def ArwsRoute.concerns (route : ArwsRoute) (req : HttpRequest) : Bool :=
  (route.method.text == req.method || route.method.text == [42]) &&
    hostMatches route.host.text req.host && pathMatches route.pathPrefix.text req.path

/-- The route works in the mode, whatever the request. -/
def ArwsRoute.accepts (route : ArwsRoute) (effectiveMode : Bytes) : Bool :=
  route.mode.text == [] || route.useStream || route.proxyTarget.text != [] ||
    route.mode.text == effectiveMode || route.mode.text == [42]

theorem ArwsRoute.serves_eq (route : ArwsRoute) (req : HttpRequest) (effectiveMode : Bytes) :
    route.serves req effectiveMode = (route.withoutMode.concerns req && route.accepts effectiveMode) := rfl

end Router

namespace Config

open CString TextFile Router Server

/-! ## The settings -/

/-- Two lines set the same name. -/
def ConfigLine.sameName : ConfigLine → ConfigLine → Bool
  | .setting name _, .setting name' _ => strcaseeq name name'
  | _, _ => false

theorem strcaseeq_comm (a b : Bytes) : strcaseeq a b = strcaseeq b a := BEq.comm

/-- Two names that a third one is equal to are equal. -/
theorem strcaseeq_of_common {a b c : Bytes} (ha : strcaseeq a c = true) (hb : strcaseeq b c = true) :
    strcaseeq a b = true := by
  rw [strcaseeq, beq_iff_eq] at ha hb ⊢
  exact ha.trans hb.symm

instance symm_sameName : Std.Symm fun d d' : ConfigLine => ¬ d.sameName d' = true where
  symm d d' h := by
    cases d with
    | nothing => cases d' <;> exact h
    | keyed key val => cases d' <;> exact h
    | setting name value =>
      cases d' with
      | nothing => exact h
      | keyed key val => exact h
      | setting name' value' =>
        rw [ConfigLine.sameName, strcaseeq_comm]
        exact h

/-- A field of the tables that the lines with one name set, and no other line. -/
structure Setting (env : LoadEnv) (β : Type) where
  name : Bytes
  get : ArwsConfig → β
  update : Bytes → β → β
  get_readSetting (s : ArwsConfig) (n v : Bytes) :
    get (s.readSetting env n v) = if strcaseeq n name = true then update v (get s) else get s
  get_setOverride (s : ArwsConfig) (host path mode : Bytes) (noCache : Bool) :
    get (s.setOverride host path mode noCache) = get s
  get_addRoute (st : Loading) (kind : RouteKind) (host path target : Bytes) :
    get (st.addRoute kind host path target).config = get st.config

namespace Setting

variable {env : LoadEnv} {β : Type} (f : Setting env β)

/-- What a line does to the field. -/
def step (x : β) : ConfigLine → β
  | .setting name value => if strcaseeq name f.name = true then f.update value x else x
  | _ => x

theorem get_read (st : Loading) (d : ConfigLine) :
    f.get (st.read env d).config = f.step (f.get st.config) d := by
  cases d with
  | nothing => rfl
  | setting name value => exact f.get_readSetting _ _ _
  | keyed key val =>
    rw [Loading.read, Loading.readKeyed]
    split_ifs
    · cases strchr 47 key with
      | none => rfl
      | some slash =>
        dsimp only
        split_ifs
        · exact f.get_addRoute _ _ _ _ _
        · exact f.get_setOverride _ _ _ _ _
    · rfl

theorem get_foldl (ds : List ConfigLine) (st : Loading) :
    f.get (ds.foldl (Loading.read env) st).config = ds.foldl f.step (f.get st.config) := by
  induction ds generalizing st with
  | nil => rfl
  | cons d ds ih => rw [List.foldl_cons, ih, get_read, List.foldl_cons]

/-- **The settings do not depend on the order** of lines with different names. -/
theorem get_foldl_perm {ds ds' : List ConfigLine} (hperm : ds.Perm ds')
    (hnames : ds.Pairwise fun d d' => ¬ d.sameName d' = true) (st : Loading) :
    f.get (ds.foldl (Loading.read env) st).config = f.get (ds'.foldl (Loading.read env) st).config := by
  rw [get_foldl, get_foldl]
  refine hperm.foldl_eq' (fun d hd d' hd' x => ?_) _
  by_cases heq : d = d'
  · rw [heq]
  · have hdiff : ¬ d.sameName d' = true := hnames.forall hd hd' heq
    cases d with
    | nothing => rfl
    | keyed key val => rfl
    | setting name value =>
      cases d' with
      | nothing => rfl
      | keyed key val => rfl
      | setting name' value' =>
        simp only [step]
        split_ifs with h' h
        · exact absurd (strcaseeq_of_common h h') hdiff
        · rfl
        · rfl
        · rfl

end Setting

variable {env : LoadEnv}

/-- A name is not two of them. -/
theorem not_strcaseeq {n a b : Bytes} (ha : strcaseeq n a = true) (hab : strcaseeq a b = false) :
    ¬ strcaseeq n b = true := by
  intro hb
  rw [strcaseeq_comm] at ha hb
  rw [strcaseeq_of_common ha hb] at hab
  cases hab

def modeSetting (env : LoadEnv) : Setting env (Option ArwsMode) where
  name := ascii "mode"
  get := (·.cachedMode)
  update value mode :=
    if strcaseeq value (ascii "production") then some .production
    else if strcaseeq value (ascii "test") then some .test else mode
  get_readSetting s n v := by
    rw [ArwsConfig.readSetting]
    cases env.cJSONArray v <;> split_ifs <;> rfl
  get_setOverride s host path mode noCache := by
    rw [ArwsConfig.setOverride]
    cases overrideIdx s.overrides host path <;> rfl
  get_addRoute st kind host path target := by cases kind <;> rfl

def globalModeSetting (env : LoadEnv) : Setting env Bytes where
  name := ascii "global_mode"
  get := (·.globalMode)
  update value _ := value.take 15
  get_readSetting s n v := by
    by_cases h : strcaseeq n (ascii "global_mode") = true
    · rw [if_pos h, ArwsConfig.readSetting, if_neg (not_strcaseeq h (by decide)), if_pos h]
    · rw [if_neg h, ArwsConfig.readSetting, if_neg h]
      cases env.cJSONArray v <;> split_ifs <;> rfl
  get_setOverride := setOverride_globalMode
  get_addRoute := addRoute_globalMode

def portSetting (env : LoadEnv) : Setting env Int where
  name := ascii "port"
  get := (·.configPort)
  update value port := if 0 < atoi value ∧ atoi value ≤ 65535 then atoi value else port
  get_readSetting s n v := by
    by_cases h : strcaseeq n (ascii "port") = true
    · rw [if_pos h, ArwsConfig.readSetting, if_neg (not_strcaseeq h (by decide)),
        if_neg (not_strcaseeq h (by decide)), if_pos h]
      split_ifs <;> rfl
    · rw [if_neg h, ArwsConfig.readSetting, if_neg h]
      cases env.cJSONArray v <;> split_ifs <;> rfl
  get_setOverride s host path mode noCache := by
    rw [ArwsConfig.setOverride]
    cases overrideIdx s.overrides host path <;> rfl
  get_addRoute st kind host path target := by cases kind <;> rfl

def bindSetting (env : LoadEnv) : Setting env Bytes where
  name := ascii "bind"
  get := (·.configBind)
  update value _ := value.take 63
  get_readSetting s n v := by
    by_cases h : strcaseeq n (ascii "bind") = true
    · rw [if_pos h, ArwsConfig.readSetting, if_neg (not_strcaseeq h (by decide)),
        if_neg (not_strcaseeq h (by decide)), if_neg (not_strcaseeq h (by decide)), if_pos h]
    · rw [if_neg h, ArwsConfig.readSetting, if_neg h]
      cases env.cJSONArray v <;> split_ifs <;> rfl
  get_setOverride s host path mode noCache := by
    rw [ArwsConfig.setOverride]
    cases overrideIdx s.overrides host path <;> rfl
  get_addRoute st kind host path target := by cases kind <;> rfl

def cacheTtlSetting (env : LoadEnv) : Setting env Int where
  name := ascii "cache_ttl"
  get := (·.cacheTtlConfig)
  update value ttl := if 0 ≤ atoi value then atoi value else ttl
  get_readSetting s n v := by
    by_cases h : strcaseeq n (ascii "cache_ttl") = true
    · rw [if_pos h, ArwsConfig.readSetting, if_neg (not_strcaseeq h (by decide)),
        if_neg (not_strcaseeq h (by decide)), if_neg (not_strcaseeq h (by decide)),
        if_neg (not_strcaseeq h (by decide)), if_pos h]
      split_ifs <;> rfl
    · rw [if_neg h, ArwsConfig.readSetting, if_neg h]
      cases env.cJSONArray v <;> split_ifs <;> rfl
  get_setOverride := setOverride_cacheTtlConfig
  get_addRoute := addRoute_cacheTtlConfig

def maintenanceIpsSetting (env : LoadEnv) : Setting env (List Bytes) where
  name := ascii "maintenance_ips"
  get := (·.maintenanceIps)
  update value ips :=
    match env.cJSONArray value with
    | none => ips
    | some ips => (ips.take maxMaintenanceIps).map fun ip => (cstr ip).take 63
  get_readSetting s n v := by
    by_cases h : strcaseeq n (ascii "maintenance_ips") = true
    · rw [if_pos h, ArwsConfig.readSetting, if_neg (not_strcaseeq h (by decide)),
        if_neg (not_strcaseeq h (by decide)), if_neg (not_strcaseeq h (by decide)),
        if_neg (not_strcaseeq h (by decide)), if_neg (not_strcaseeq h (by decide)), if_pos h]
      cases env.cJSONArray v <;> rfl
    · rw [if_neg h, ArwsConfig.readSetting, if_neg h]
      split_ifs <;> rfl
  get_setOverride s host path mode noCache := by
    rw [ArwsConfig.setOverride]
    cases overrideIdx s.overrides host path <;> rfl
  get_addRoute st kind host path target := by cases kind <;> rfl

/-! ## The entries -/

def ConfigLine.overrideEntry (env : LoadEnv) (d : ConfigLine) : Option ModeOverride :=
  if isUrl (targetOf d.val).2 then none
  else d.hostPath.map fun (host, path) =>
    ⟨host.take 127, path.take 127, (modeOf env d.val).1, (modeOf env d.val).2⟩

/-- The route is of a kind that is recorded. -/
def ConfigLine.recordedAs (kind : RouteKind) (d : ConfigLine) : Option ProxyRouteEntry :=
  (d.routeEntry.filter (·.kind = kind)).map (·.recorded)

/-- There is room in the tables for some more entries. -/
def ArwsConfig.Room (s : ArwsConfig) (n : Nat) : Prop :=
  s.overrides.length + s.proxyRoutes.length + s.streamRoutes.length + n ≤ maxOverrides

/-- What a line that is read adds. -/
structure Adds (env : LoadEnv) (d : ConfigLine) (st st' : Loading) : Prop where
  overrides : st'.config.overrides = st.config.overrides ++ (d.overrideEntry env).toList
  proxyRoutes : st'.config.proxyRoutes = st.config.proxyRoutes ++ (d.recordedAs .proxy).toList
  streamRoutes : st'.config.streamRoutes = st.config.streamRoutes ++ (d.recordedAs .stream).toList
  registered : st'.registered =
    st.registered ++ (d.routeEntry.map (·.registration st.config.globalMode)).toList

theorem setOverride_of_fresh {s : ArwsConfig} {host path : Bytes} (mode : Bytes) (noCache : Bool)
    (hsized : ∀ o ∈ s.overrides, o.Sized)
    (hfresh : (host.take 127, path.take 127) ∉ s.overrides.map (·.key)) :
    s.setOverride host path mode noCache = { s with
      overrides := s.overrides ++ [⟨host.take 127, path.take 127, mode, noCache⟩]
      spare := s.spare.tail } := by
  rw [ArwsConfig.setOverride]
  cases hidx : overrideIdx s.overrides host path with
  | none => rfl
  | some i =>
    obtain ⟨o, ho, rfl, rfl⟩ := key_of_overrideIdx hidx
    have hmem := List.mem_of_getElem? ho
    obtain ⟨hhost, hpath⟩ := hsized o hmem
    refine absurd (List.mem_map.2 ⟨o, hmem, ?_⟩) hfresh
    rw [List.take_of_length_le hhost, List.take_of_length_le hpath]
    rfl

/-- **What a line adds** to tables that have room for it and none of its key. -/
theorem adds_read {st : Loading} {d : ConfigLine} (hsized : ∀ o ∈ st.config.overrides, o.Sized)
    (hroom : d.hostPath.isSome = true → st.config.Room 1)
    (hfresh : ∀ o ∈ d.overrideEntry env, o.key ∉ st.config.overrides.map (·.key)) :
    Adds env d st (st.read env d) := by
  cases d with
  | nothing =>
    constructor <;> simp [Loading.read, ConfigLine.overrideEntry, ConfigLine.recordedAs,
      ConfigLine.routeEntry, ConfigLine.hostPath]
  | setting name value =>
    obtain ⟨ho, hp, hs⟩ := readSetting_tables env st.config name value
    constructor <;> simp [Loading.read, ConfigLine.overrideEntry, ConfigLine.recordedAs,
      ConfigLine.routeEntry, ConfigLine.hostPath, ho, hp, hs]
  | keyed key val =>
    cases hslash : strchr 47 key with
    | none =>
      have hread : st.read env (.keyed key val) = st := by
        rw [Loading.read, Loading.readKeyed, hslash]
        split_ifs <;> rfl
      constructor <;> simp [hread, ConfigLine.overrideEntry, ConfigLine.recordedAs,
        ConfigLine.routeEntry, ConfigLine.hostPath, hslash]
    | some slash =>
      have hpath : (ConfigLine.keyed key val).hostPath = some (key.take slash, key.drop (slash + 1)) := by
        rw [ConfigLine.hostPath, hslash]
        rfl
      have hroom := hroom (by rw [hpath]; rfl)
      rw [ArwsConfig.Room] at hroom
      obtain ⟨hkey, hhost⟩ := strchr_eq_some hslash
      have hfree : st.config.overrides.length < maxOverrides := by omega
      have hread := readKeyed_slash env hhost (key.drop (slash + 1)) val hfree
      rw [← hkey] at hread
      rw [Loading.read, hread]
      generalize key.take slash = host at hpath hread ⊢
      generalize key.drop (slash + 1) = path at hpath hread ⊢
      by_cases hurl : isUrl (targetOf val).2 = true
      · rw [if_pos hurl]
        have hroute : (ConfigLine.keyed key val).routeEntry =
            some ⟨(targetOf val).1, host, path, (targetOf val).2⟩ := by
          rw [ConfigLine.routeEntry, hpath, ConfigLine.val, if_pos hurl]
          rfl
        have hnone : (ConfigLine.keyed key val).overrideEntry env = none := if_pos hurl
        have hproxy : st.config.proxyRoutes.length < maxOverrides := by omega
        have hstream : st.config.streamRoutes.length < maxOverrides := by omega
        generalize (targetOf val).1 = kind at hroute ⊢
        constructor
        · rw [addRoute_overrides, hnone, Option.toList_none, List.append_nil]
        · cases kind <;>
            simp [Loading.addRoute, recordRoute, hproxy, ConfigLine.recordedAs, hroute, RouteEntry.recorded,
              Option.filter]
        · cases kind <;>
            simp [Loading.addRoute, recordRoute, hstream, ConfigLine.recordedAs, hroute,
              RouteEntry.recorded, Option.filter]
        · rw [addRoute_registered, hroute]
          rfl
      · rw [if_neg hurl]
        have hnone : (ConfigLine.keyed key val).routeEntry = none := if_neg hurl
        have hover : (ConfigLine.keyed key val).overrideEntry env =
            some ⟨host.take 127, path.take 127, (modeOf env val).1, (modeOf env val).2⟩ := by
          rw [ConfigLine.overrideEntry, hpath, ConfigLine.val, if_neg hurl]
          rfl
        rw [setOverride_of_fresh _ _ hsized (hfresh _ hover)]
        constructor
        · rw [hover]
          rfl
        · simp [ConfigLine.recordedAs, hnone]
        · simp [ConfigLine.recordedAs, hnone]
        · simp [hnone]

/-- The entries of lines that are independent of each other: there is room for all of them, and no two
overrides are stored under one key. -/
structure Separate (env : LoadEnv) (s : ArwsConfig) (ds : List ConfigLine) : Prop where
  sized : ∀ o ∈ s.overrides, o.Sized
  room : s.Room (ds.countP (·.hostPath.isSome))
  keys : ((s.overrides ++ ds.filterMap (·.overrideEntry env)).map (·.key)).Nodup

theorem sized_overrideEntry {d : ConfigLine} {o : ModeOverride} (h : d.overrideEntry env = some o) :
    o.Sized := by
  rw [ConfigLine.overrideEntry] at h
  split_ifs at h
  obtain ⟨hostPath, -, rfl⟩ := Option.map_eq_some_iff.1 h
  exact ⟨List.length_take_le _ _, List.length_take_le _ _⟩

/-- A line is an override or a route, or neither. -/
theorem length_entries_le (d : ConfigLine) :
    (d.overrideEntry env).toList.length + (d.recordedAs .proxy).toList.length +
      (d.recordedAs .stream).toList.length ≤ if d.hostPath.isSome = true then 1 else 0 := by
  rw [ConfigLine.recordedAs, ConfigLine.recordedAs, ConfigLine.routeEntry, ConfigLine.overrideEntry]
  cases hpath : d.hostPath with
  | none => split_ifs <;> simp
  | some hostPath =>
    by_cases hurl : isUrl (targetOf d.val).2 = true
    · generalize (targetOf d.val).1 = kind
      cases kind <;> simp [hurl, Option.filter]
    · simp [hurl]

theorem separate_cons {d : ConfigLine} {ds : List ConfigLine} {st : Loading}
    (h : Separate env st.config (d :: ds)) :
    Adds env d st (st.read env d) ∧ Separate env (st.read env d).config ds := by
  obtain ⟨hsized, hroom, hkeys⟩ := h
  have hentries : (d :: ds).filterMap (·.overrideEntry env) =
      (d.overrideEntry env).toList ++ ds.filterMap (·.overrideEntry env) := by
    rw [List.filterMap_cons]
    cases d.overrideEntry env <;> rfl
  rw [List.countP_cons, ArwsConfig.Room] at hroom
  rw [hentries, ← List.append_assoc] at hkeys
  have hadds : Adds env d st (st.read env d) := by
    refine adds_read hsized (fun hd => ?_) fun o ho hmem => ?_
    · rw [if_pos hd] at hroom
      rw [ArwsConfig.Room]
      omega
    · rw [List.map_append, List.map_append, List.nodup_append] at hkeys
      rw [Option.mem_def.1 ho] at hkeys
      have hdisjoint := (List.nodup_append.1 hkeys.1).2.2
      exact hdisjoint _ hmem _ (List.mem_cons_self ..) rfl
  refine ⟨hadds, ?_, ?_, ?_⟩
  · intro o ho
    rw [hadds.overrides] at ho
    obtain ho | ho := List.mem_append.1 ho
    · exact hsized o ho
    · exact sized_overrideEntry (Option.mem_toList.1 ho)
  · have hlen := @length_entries_le env d
    rw [ArwsConfig.Room, hadds.overrides, hadds.proxyRoutes, hadds.streamRoutes, List.length_append,
      List.length_append, List.length_append]
    omega
  · rwa [hadds.overrides]

/-- The calls of the router for some lines, where the global mode is this in front of them. -/
def registrations (env : LoadEnv) (globalMode : Bytes) : List ConfigLine → List Registration
  | [] => []
  | d :: ds => (d.routeEntry.map (·.registration globalMode)).toList ++
      registrations env ((globalModeSetting env).step globalMode d) ds

theorem filterMap_eq_toList_append {α β : Type} (f : α → Option β) (a : α) (l : List α) :
    (a :: l).filterMap f = (f a).toList ++ l.filterMap f := by
  rw [List.filterMap_cons]
  cases f a <;> rfl

/-- **The tables hold what the lines say**, in their order. -/
theorem tables_foldl {ds : List ConfigLine} {st : Loading} (h : Separate env st.config ds) :
    let st' := ds.foldl (Loading.read env) st
    st'.config.overrides = st.config.overrides ++ ds.filterMap (·.overrideEntry env) ∧
      st'.config.proxyRoutes = st.config.proxyRoutes ++ ds.filterMap (·.recordedAs .proxy) ∧
      st'.config.streamRoutes = st.config.streamRoutes ++ ds.filterMap (·.recordedAs .stream) ∧
      st'.registered = st.registered ++ registrations env st.config.globalMode ds := by
  induction ds generalizing st with
  | nil => simp [registrations]
  | cons d ds ih =>
    obtain ⟨hadds, hrest⟩ := separate_cons h
    obtain ⟨ho, hp, hs, hr⟩ := ih hrest
    have hglobal : (st.read env d).config.globalMode =
        (globalModeSetting env).step st.config.globalMode d := (globalModeSetting env).get_read st d
    simp only [List.foldl_cons, filterMap_eq_toList_append, registrations]
    rw [ho, hp, hs, hr, hadds.overrides, hadds.proxyRoutes, hadds.streamRoutes, hadds.registered, hglobal]
    simp only [List.append_assoc, and_self]

/-! ## Around the line of the global mode -/

def ConfigLine.isGlobalMode : ConfigLine → Bool
  | .setting name _ => strcaseeq name (ascii "global_mode")
  | _ => false

/-- The lines in front of that of the global mode; all of them, if there is none. -/
def beforeGlobalMode (ds : List ConfigLine) : List ConfigLine := ds.takeWhile fun d => !d.isGlobalMode

def afterGlobalMode (ds : List ConfigLine) : List ConfigLine :=
  (ds.dropWhile fun d => !d.isGlobalMode).tail

/-- The global mode behind the lines. -/
def globalModeBehind (ds : List ConfigLine) : Bytes :=
  match ds.find? (·.isGlobalMode) with
  | some (.setting _ value) => value.take 15
  | _ => ascii "production"

theorem step_of_not_global {d : ConfigLine} (h : d.isGlobalMode = false) (g : Bytes) :
    (globalModeSetting env).step g d = g := by
  cases d with
  | setting name value => exact if_neg (by rw [← Bool.not_eq_true] at h; exact h)
  | nothing => rfl
  | keyed key val => rfl

/-- Without a line of the global mode, it is the same in all calls. -/
theorem registrations_of_none (g : Bytes) {ds : List ConfigLine} (h : ∀ d ∈ ds, d.isGlobalMode = false) :
    registrations env g ds = (ds.filterMap (·.routeEntry)).map (·.registration g) := by
  induction ds with
  | nil => rfl
  | cons d ds ih =>
    obtain ⟨hd, hds⟩ := List.forall_mem_cons.1 h
    rw [registrations, step_of_not_global hd, ih hds, filterMap_eq_toList_append, List.map_append]
    cases d.routeEntry <;> rfl

theorem registrations_append (g : Bytes) {as : List ConfigLine} (bs : List ConfigLine)
    (h : ∀ d ∈ as, d.isGlobalMode = false) :
    registrations env g (as ++ bs) = registrations env g as ++ registrations env g bs := by
  induction as with
  | nil => rfl
  | cons d as ih =>
    obtain ⟨hd, has⟩ := List.forall_mem_cons.1 h
    rw [List.cons_append, registrations, registrations, step_of_not_global hd, ih has, List.append_assoc]

/-- **Lines with different names** have one line of the global mode, or none. -/
theorem split_globalMode {ds : List ConfigLine} (hnames : ds.Pairwise fun d d' => ¬ d.sameName d' = true) :
    (∀ d ∈ beforeGlobalMode ds, d.isGlobalMode = false) ∧
      (∀ d ∈ afterGlobalMode ds, d.isGlobalMode = false) ∧
      (beforeGlobalMode ds = ds ∧ afterGlobalMode ds = [] ∧ globalModeBehind ds = ascii "production" ∨
        ∃ name value, ds = beforeGlobalMode ds ++ .setting name value :: afterGlobalMode ds ∧
          strcaseeq name (ascii "global_mode") = true ∧ globalModeBehind ds = value.take 15) := by
  have hbefore : ∀ d ∈ beforeGlobalMode ds, d.isGlobalMode = false := fun d hd => by
    simpa using List.mem_takeWhile_imp hd
  refine ⟨hbefore, ?_⟩
  have hsplit : beforeGlobalMode ds ++ ds.dropWhile (fun d => !d.isGlobalMode) = ds :=
    List.takeWhile_append_dropWhile
  rw [afterGlobalMode]
  cases hrest : ds.dropWhile fun d => !d.isGlobalMode with
  | nil =>
    rw [hrest, List.append_nil] at hsplit
    refine ⟨by simp, Or.inl ⟨hsplit, rfl, ?_⟩⟩
    have hfind : ds.find? (·.isGlobalMode) = none := by
      rw [List.find?_eq_none, ← hsplit]
      exact fun d hd => Bool.not_eq_true _ ▸ hbefore d hd
    rw [globalModeBehind, hfind]
  | cons d rest =>
    rw [hrest] at hsplit
    have hglobal : d.isGlobalMode = true := by
      have hhead := List.head?_dropWhile_not (fun d : ConfigLine => !d.isGlobalMode) ds
      rw [hrest] at hhead
      simpa using hhead
    obtain ⟨name, value, rfl⟩ : ∃ name value, d = .setting name value := by
      cases d with
      | setting name value => exact ⟨name, value, rfl⟩
      | nothing => cases hglobal
      | keyed key val => cases hglobal
    refine ⟨fun d' hd' => ?_, Or.inr ⟨name, value, hsplit.symm, hglobal, ?_⟩⟩
    · -- a second line of the global mode has the name of the first
      rw [← hsplit, List.pairwise_append, List.pairwise_cons] at hnames
      have hdiff := hnames.2.1.1 d' hd'
      rw [← Bool.not_eq_true]
      intro hglobal'
      cases d' with
      | setting name' value' => exact hdiff (strcaseeq_of_common hglobal hglobal')
      | nothing => cases hglobal'
      | keyed key val => cases hglobal'
    · have hfind : ds.find? (·.isGlobalMode) = some (.setting name value) := by
        rw [← hsplit, List.find?_append, List.find?_eq_none.2 fun d hd => Bool.not_eq_true _ ▸ hbefore d hd,
          List.find?_cons_of_pos hglobal]
        rfl
      rw [globalModeBehind, hfind]

theorem foldl_of_none (g : Bytes) {ds : List ConfigLine} (h : ∀ d ∈ ds, d.isGlobalMode = false) :
    ds.foldl (globalModeSetting env).step g = g := by
  induction ds with
  | nil => rfl
  | cons d ds ih =>
    obtain ⟨hd, hds⟩ := List.forall_mem_cons.1 h
    rw [List.foldl_cons, step_of_not_global hd, ih hds]

theorem foldl_globalMode {ds : List ConfigLine} (hnames : ds.Pairwise fun d d' => ¬ d.sameName d' = true) :
    ds.foldl (globalModeSetting env).step (ascii "production") = globalModeBehind ds := by
  obtain ⟨hbefore, hafter, ⟨hall, -, hglobal⟩ | ⟨name, value, hsplit, hname, hglobal⟩⟩ :=
    split_globalMode hnames
  · rw [hglobal, ← hall, foldl_of_none _ hbefore]
  · have hstep : (globalModeSetting env).step (ascii "production") (.setting name value) = value.take 15 :=
      if_pos hname
    rw [hglobal, hsplit, List.foldl_append, foldl_of_none _ hbefore, List.foldl_cons, hstep,
      foldl_of_none _ hafter]

theorem registrations_split {ds : List ConfigLine}
    (hnames : ds.Pairwise fun d d' => ¬ d.sameName d' = true) :
    registrations env (ascii "production") ds =
      ((beforeGlobalMode ds).filterMap (·.routeEntry)).map (·.registration (ascii "production")) ++
        ((afterGlobalMode ds).filterMap (·.routeEntry)).map (·.registration (globalModeBehind ds)) := by
  obtain ⟨hbefore, hafter, ⟨hall, hnone, -⟩ | ⟨name, value, hsplit, hname, hglobal⟩⟩ :=
    split_globalMode hnames
  · rw [hnone, List.filterMap_nil, List.map_nil, List.append_nil, ← registrations_of_none _ hbefore, hall]
  · have hstep : (globalModeSetting env).step (ascii "production") (.setting name value) = value.take 15 :=
      if_pos hname
    have hentry : (ConfigLine.setting name value).routeEntry = none := by
      rw [ConfigLine.routeEntry]
      split_ifs <;> rfl
    rw [hglobal, ← registrations_of_none _ hbefore, ← registrations_of_none _ hafter]
    conv_lhs => rw [hsplit]
    rw [registrations_append _ _ hbefore, registrations, hstep, hentry]
    rfl

theorem routeEntries_split {ds : List ConfigLine}
    (hnames : ds.Pairwise fun d d' => ¬ d.sameName d' = true) :
    ds.filterMap (·.routeEntry) =
      (beforeGlobalMode ds).filterMap (·.routeEntry) ++ (afterGlobalMode ds).filterMap (·.routeEntry) := by
  obtain ⟨-, -, ⟨hall, hnone, -⟩ | ⟨name, value, hsplit, -, -⟩⟩ := split_globalMode hnames
  · rw [hnone, List.filterMap_nil, List.append_nil, hall]
  · have hentry : (ConfigLine.setting name value).routeEntry = none := by
      rw [ConfigLine.routeEntry]
      split_ifs <;> rfl
    conv_lhs => rw [hsplit]
    rw [List.filterMap_append, List.filterMap_cons_none hentry]

/-! ## The routes of the entries -/

/-- The route of an entry, in memory that holds this. -/
def RouteEntry.routeAt (e : RouteEntry) (node : ArwsRoute) (globalMode : Bytes) : ArwsRoute :=
  (e.registration globalMode).node node

/-- The route of an entry, whatever the mode. -/
def RouteEntry.route (node : ArwsRoute) (e : RouteEntry) : ArwsRoute := (e.routeAt node []).withoutMode

theorem withoutMode_routeAt (e : RouteEntry) (node : ArwsRoute) (globalMode : Bytes) :
    (e.routeAt node globalMode).withoutMode = e.route node := by
  obtain ⟨kind, host, path, target⟩ := e
  cases kind <;> rfl

/-- What the mode of a route that is registered under a global mode reads as. -/
def modeText (node : ArwsRoute) (globalMode : Bytes) : Bytes :=
  (optionalField node.mode (some globalMode)).text

/-- A redirect that is registered under a global mode works in an effective one. -/
def redirectAccepts (node : ArwsRoute) (globalMode effectiveMode : Bytes) : Bool :=
  modeText node globalMode == [] || node.proxyTarget.text != [] ||
    modeText node globalMode == effectiveMode || modeText node globalMode == [42]

/-- **Only a redirect is asked for its mode.** -/
theorem accepts_routeAt {e : RouteEntry} (hurl : isUrl e.target = true) (node : ArwsRoute)
    (globalMode effectiveMode : Bytes) :
    (e.routeAt node globalMode).accepts effectiveMode =
      (e.kind != .redirect || redirectAccepts node globalMode effectiveMode) := by
  obtain ⟨kind, host, path, target⟩ := e
  have htarget : (node.proxyTarget.strncpy target).text ≠ [] := text_strncpy_url hurl
  rw [Bool.eq_iff_iff]
  cases kind <;>
    simp [ArwsRoute.accepts, RouteEntry.routeAt, RouteEntry.registration, Registration.node,
      ArwsRoute.written, redirectAccepts, modeText, htarget]

/-- The routes of some entries that a request is served by, where the global mode is this. -/
def served (node : ArwsRoute) (es : List RouteEntry) (globalMode : Bytes) (req : HttpRequest)
    (effectiveMode : Bytes) : List ArwsRoute :=
  ((es.map (·.routeAt node globalMode)).filter fun route => route.serves req effectiveMode).map
    (·.withoutMode)

/-- How many of the entries are redirects, or not, and have a certain route. -/
def countOf (node : ArwsRoute) (redirect : Bool) (route : ArwsRoute) (es : List RouteEntry) : Nat :=
  es.countP fun e => (e.kind == .redirect) == redirect && e.route node == route

/-- **How often a route serves a request.** -/
theorem count_served {node : ArwsRoute} {es : List RouteEntry} (hurl : ∀ e ∈ es, isUrl e.target = true)
    (globalMode : Bytes) (req : HttpRequest) (effectiveMode : Bytes) (route : ArwsRoute) :
    (served node es globalMode req effectiveMode).count route =
      if route.concerns req = true then
        countOf node false route es +
          if redirectAccepts node globalMode effectiveMode = true then countOf node true route es else 0
      else 0 := by
  have hcount : (served node es globalMode req effectiveMode).count route =
      es.countP fun e => route.concerns req && (e.route node == route &&
        (e.kind != .redirect || redirectAccepts node globalMode effectiveMode)) := by
    rw [served, List.count, List.countP_map, List.countP_filter, List.countP_map]
    refine List.countP_congr fun e he => ?_
    have hserves := (e.routeAt node globalMode).serves_eq req effectiveMode
    rw [withoutMode_routeAt, accepts_routeAt (hurl e he)] at hserves
    simp only [Function.comp_apply, hserves, withoutMode_routeAt, Bool.and_eq_true, beq_iff_eq]
    exact ⟨fun ⟨hroute, hconcerns, haccepts⟩ => ⟨hroute ▸ hconcerns, hroute, haccepts⟩,
      fun ⟨hconcerns, hroute, haccepts⟩ => ⟨hroute, hroute ▸ hconcerns, haccepts⟩⟩
  rw [hcount, countOf, countOf]
  by_cases hconcerns : route.concerns req = true
  · by_cases haccepts : redirectAccepts node globalMode effectiveMode = true
    · rw [if_pos hconcerns, if_pos haccepts, List.countP_eq_countP_filter_add _ _ (·.kind != .redirect),
        List.countP_filter, List.countP_filter]
      congr 1 <;> refine List.countP_congr fun e _ => ?_ <;> simp [hconcerns, haccepts] <;> tauto
    · rw [if_pos hconcerns, if_neg haccepts, Nat.add_zero]
      refine List.countP_congr fun e _ => ?_
      simp [hconcerns, haccepts]
      tauto
  · rw [if_neg hconcerns, List.countP_eq_zero]
    simp [hconcerns]

/-- A route is for a request of its own host and prefix. -/
theorem exists_concerns (node : ArwsRoute) (e : RouteEntry) :
    ∃ req : HttpRequest, (e.route node).concerns req = true := by
  have hmethod : (e.route node).method.text = [42] := by
    have htext : (node.method.strncpy [42]).text = [42] :=
      CharArray.text_strncpy _ (by decide) (by decide)
    obtain ⟨kind, host, path, target⟩ := e
    cases kind <;> exact htext
  have hhost (host : Bytes) : Router.hostMatches host host = true := by
    rw [Router.hostMatches]
    split_ifs with hany hnone
    · rfl
    · exact absurd (Or.inl hnone) hany
    · simp [strcaseeq]
  have hpath (path : Bytes) : pathMatches path path = true := by
    rw [pathMatches, if_pos rfl]
    split_ifs
    · rfl
    · exact List.isPrefixOf_iff_prefix.2 (List.dropLast_prefix path)
    · rfl
  refine ⟨⟨[], (e.route node).pathPrefix.text, none, [], [], (e.route node).host.text, [], 0⟩, ?_⟩
  rw [ArwsRoute.concerns, hmethod, hhost, hpath]
  simp

/-- The redirects among some entries. -/
def redirectsOf (node : ArwsRoute) (es : List RouteEntry) : List ArwsRoute :=
  (es.filter (·.kind == .redirect)).map (·.route node)

theorem count_redirectsOf (node : ArwsRoute) (es : List RouteEntry) (route : ArwsRoute) :
    (redirectsOf node es).count route = countOf node true route es := by
  rw [redirectsOf, List.count, List.countP_map, List.countP_filter, countOf]
  refine List.countP_congr fun e _ => ?_
  simp [and_comm]

theorem countOf_append (node : ArwsRoute) (redirect : Bool) (route : ArwsRoute) (es es' : List RouteEntry) :
    countOf node redirect route (es ++ es') =
      countOf node redirect route es + countOf node redirect route es' :=
  List.countP_append

/-- **Entries under two global modes** serve the same whatever their order is, exactly if the modes are
the same to a redirect, or the redirects under the first one are the same. -/
theorem served_perm_iff {node : ArwsRoute} {bs as bs' as' : List RouteEntry}
    (hall : (bs ++ as).Perm (bs' ++ as'))
    (hurl : ∀ e ∈ bs ++ as, isUrl e.target = true) (globalMode globalMode' : Bytes) :
    (∀ req effectiveMode,
      (served node bs globalMode req effectiveMode ++ served node as globalMode' req effectiveMode).Perm
        (served node bs' globalMode req effectiveMode ++ served node as' globalMode' req effectiveMode)) ↔
      (∀ effectiveMode,
        redirectAccepts node globalMode effectiveMode = redirectAccepts node globalMode' effectiveMode) ∨
        (redirectsOf node bs).Perm (redirectsOf node bs') := by
  obtain ⟨hbs, has⟩ := List.forall_mem_append.1 hurl
  obtain ⟨hbs', has'⟩ := List.forall_mem_append.1 fun e he => hurl e (hall.mem_iff.2 he)
  have htotal (redirect : Bool) (route : ArwsRoute) :
      countOf node redirect route bs + countOf node redirect route as =
        countOf node redirect route bs' + countOf node redirect route as' := by
    rw [← countOf_append, ← countOf_append]
    exact hall.countP_eq _
  simp only [List.perm_iff_count, List.count_append, count_served hbs, count_served has,
    count_served hbs', count_served has', count_redirectsOf]
  constructor
  · intro h
    by_contra hno
    obtain ⟨hmodes, hredirects⟩ := not_or.1 hno
    obtain ⟨effectiveMode, hmode⟩ := not_forall.1 hmodes
    obtain ⟨route, hroute⟩ := not_forall.1 hredirects
    -- a redirect that is more often in front in one order, and a request for it
    obtain ⟨e, he⟩ : ∃ e : RouteEntry, e.route node = route := by
      by_contra hnone
      have hzero (es : List RouteEntry) : countOf node true route es = 0 := by
        rw [countOf, List.countP_eq_zero]
        intro e _ hmem
        exact hnone ⟨e, beq_iff_eq.1 (Bool.and_eq_true_iff.1 hmem).2⟩
      exact hroute (by rw [hzero, hzero])
    obtain ⟨req, hreq⟩ := exists_concerns node e
    specialize h req effectiveMode route
    have hfalse := htotal false route
    have htrue := htotal true route
    rw [he] at hreq
    simp only [if_pos hreq] at h
    cases hfirst : redirectAccepts node globalMode effectiveMode <;>
      cases hsecond : redirectAccepts node globalMode' effectiveMode
    · exact hmode (hfirst.trans hsecond.symm)
    · simp only [hfirst, hsecond, if_true, if_false, Bool.false_eq_true] at h
      omega
    · simp only [hfirst, hsecond, if_true, if_false, Bool.false_eq_true] at h
      omega
    · exact hmode (hfirst.trans hsecond.symm)
  · rintro h req effectiveMode route
    have hfalse := htotal false route
    have htrue := htotal true route
    obtain hmodes | hredirects := h
    · rw [hmodes]
      split_ifs <;> omega
    · have hsame := hredirects route
      split_ifs <;> omega

/-! ## Two orders of a file -/

theorem modeText_production (node : ArwsRoute) : modeText node (ascii "production") = ascii "production" :=
  CharArray.text_strncpy _ (by decide) (by decide)

/-- The mode of a route reads as a short name exactly if that is the global mode. -/
theorem modeText_eq_iff (node : ArwsRoute) {globalMode s : Bytes} (hzero : (0 : UInt8) ∉ globalMode)
    (hlen : globalMode.length ≤ 15) (hs : s.length < 15) :
    modeText node globalMode = s ↔ globalMode = s := by
  obtain ⟨hbegins, hshort⟩ := CharArray.text_strncpy_cases (node.mode.put 0 0) hzero hlen
  constructor
  · intro h
    rw [← hshort (lt_of_eq_of_lt (congrArg List.length h) hs)]
    exact h
  · rintro rfl
    exact CharArray.text_strncpy _ hzero hs

/-- **A redirect tells production from any other mode**, unless the memory of a route reads as a target
of a proxy. -/
theorem redirectAccepts_eq_iff (node : ArwsRoute) {globalMode : Bytes} (hzero : (0 : UInt8) ∉ globalMode)
    (hlen : globalMode.length ≤ 15) :
    (∀ effectiveMode, redirectAccepts node (ascii "production") effectiveMode =
      redirectAccepts node globalMode effectiveMode) ↔
      node.proxyTarget.text ≠ [] ∨ globalMode = ascii "production" := by
  have hmode {s : Bytes} (hs : s.length < 15) := modeText_eq_iff node hzero hlen hs
  constructor
  · intro h
    by_contra hno
    obtain ⟨htarget, hproduction⟩ := not_or.1 hno
    rw [not_not] at htarget
    simp only [redirectAccepts, modeText_production, htarget] at h
    by_cases hany : globalMode = [] ∨ globalMode = [42]
    · -- behind the line a redirect works in the mode "test", too
      have htest := h (ascii "test")
      obtain hnil | hstar := hany
      · rw [(hmode (by decide)).2 hnil] at htest
        exact absurd htest (by decide)
      · rw [(hmode (by decide)).2 hstar] at htest
        exact absurd htest (by decide)
    · -- behind the line it does not work in production
      obtain ⟨hnil, hstar⟩ := not_or.1 hany
      have hprod := h (ascii "production")
      rw [beq_false_of_ne (mt (hmode (by decide)).1 hnil), beq_false_of_ne (mt (hmode (by decide)).1 hstar),
        beq_false_of_ne (mt (hmode (by decide)).1 hproduction)] at hprod
      exact absurd hprod (by decide)
  · rintro (htarget | rfl) effectiveMode
    · rw [redirectAccepts, redirectAccepts, bne_iff_ne.2 htarget]
      simp only [Bool.or_true, Bool.true_or]
    · rfl

/-- The settings and the entries of a file do not get in each other's way. -/
structure Independent (env : LoadEnv) (file : Bytes) : Prop where
  names : (settingsOf file).Pairwise fun d d' => ¬ d.sameName d' = true
  keys : (((settingsOf file).filterMap (·.overrideEntry env)).map (·.key)).Nodup
  entries : (settingsOf file).countP (·.hostPath.isSome) ≤ maxOverrides

/-- Two loads have come to the same: the settings, the tables up to their order, and which routes serve a
request. -/
structure SameLoad (a b : ArwsConfig × RouteTable) : Prop where
  cachedMode : a.1.cachedMode = b.1.cachedMode
  globalMode : a.1.globalMode = b.1.globalMode
  configPort : a.1.configPort = b.1.configPort
  configBind : a.1.configBind = b.1.configBind
  cacheTtlConfig : a.1.cacheTtlConfig = b.1.cacheTtlConfig
  maintenanceIps : a.1.maintenanceIps = b.1.maintenanceIps
  overrides : a.1.overrides.Perm b.1.overrides
  proxyRoutes : a.1.proxyRoutes.Perm b.1.proxyRoutes
  streamRoutes : a.1.streamRoutes.Perm b.1.streamRoutes
  routes (req : HttpRequest) (effectiveMode : Bytes) :
    ((a.2.serving req effectiveMode).map (·.withoutMode)).Perm
      ((b.2.serving req effectiveMode).map (·.withoutMode))

/-- The redirects in front of the line of the global mode. -/
def redirectsAhead (node : ArwsRoute) (file : Bytes) : List ArwsRoute :=
  redirectsOf node ((beforeGlobalMode (settingsOf file)).filterMap (·.routeEntry))

theorem settingsOf_perm {file file' : Bytes} (h : (fileLines file).Perm (fileLines file')) :
    (settingsOf file).Perm (settingsOf file') := by
  rw [settingsOf_eq_flatMap, settingsOf_eq_flatMap]
  exact h.flatMap_right _

theorem Independent.perm {file file' : Bytes} (h : Independent env file)
    (hlines : (fileLines file).Perm (fileLines file')) : Independent env file' := by
  have hperm := settingsOf_perm hlines
  refine ⟨?_, ?_, ?_⟩
  · exact hperm.pairwise h.names (symm_sameName.symm _ _)
  · exact ((hperm.filterMap _).map _).nodup_iff.1 h.keys
  · rw [← hperm.countP_eq]
    exact h.entries

theorem Independent.separate {file : Bytes} (h : Independent env file) (s : ArwsConfig) :
    Separate env s.reset (settingsOf file) := by
  refine ⟨?_, ?_, ?_⟩
  · intro o ho
    exact absurd ho (List.not_mem_nil)
  · rw [ArwsConfig.Room]
    exact (Nat.zero_add _).trans_le h.entries
  · exact h.keys

/-- The global mode is a string of at most 15 bytes. -/
theorem globalModeBehind_text (file : Bytes) :
    (0 : UInt8) ∉ globalModeBehind (settingsOf file) ∧
      (globalModeBehind (settingsOf file)).length ≤ 15 := by
  rw [globalModeBehind]
  cases hfind : (settingsOf file).find? (·.isGlobalMode) with
  | none => decide
  | some d =>
    have hstart : (0 : UInt8) ∉ ascii "production" ∧ (ascii "production").length ≤ 15 := by decide
    cases d with
    | nothing => exact hstart
    | keyed key val => exact hstart
    | setting name value =>
      have hmem := (List.mem_filter.1 (List.mem_of_find?_eq_some hfind)).1
      obtain ⟨piece, hpiece, hparse⟩ := List.mem_map.1 hmem
      have hclean := clean_parseLine (notMem_dropLast_of_mem_pieces hpiece)
      rw [hparse] at hclean
      have hzero : (0 : UInt8) ∉ value.take 15 := fun hmem => hclean 0 (by simp) (List.mem_of_mem_take hmem)
      exact ⟨hzero, List.length_take_le _ _⟩

/-- The global mode does not depend on the order. -/
theorem globalModeBehind_perm (env : LoadEnv) {ds ds' : List ConfigLine} (hperm : ds.Perm ds')
    (hnames : ds.Pairwise fun d d' => ¬ d.sameName d' = true) :
    globalModeBehind ds = globalModeBehind ds' := by
  let f := globalModeSetting env
  let start : Loading := ⟨ArwsConfig.initial.reset, []⟩
  have hnames' := hperm.pairwise hnames (symm_sameName.symm _ _)
  calc globalModeBehind ds = ds.foldl f.step (f.get start.config) := (foldl_globalMode hnames).symm
    _ = f.get (ds.foldl (Loading.read env) start).config := (f.get_foldl ds start).symm
    _ = f.get (ds'.foldl (Loading.read env) start).config := f.get_foldl_perm hperm hnames start
    _ = ds'.foldl f.step (f.get start.config) := f.get_foldl ds' start
    _ = globalModeBehind ds' := foldl_globalMode hnames'

theorem nodesOf_same (node : ArwsRoute) (calls : List Registration) :
    nodesOf (fun _ => some node) calls.zipIdx = calls.map (·.node node) := by
  rw [nodesOf]
  generalize 0 = i
  induction calls generalizing i with
  | nil => rfl
  | cons call calls ih => rw [List.zipIdx_cons, List.flatMap_cons, ih, List.map_cons]; rfl

/-- **The routes that serve a request after a load**: those of the file, and those from before it. -/
theorem serving_run {file : Bytes} (h : Independent env file) (node : ArwsRoute)
    (st : ArwsConfig × RouteTable) (req : HttpRequest) (effectiveMode : Bytes) :
    (((Load.run st ⟨env, file, fun _ => some node⟩).2.serving req effectiveMode).map (·.withoutMode)).Perm
      (served node ((beforeGlobalMode (settingsOf file)).filterMap (·.routeEntry)) (ascii "production") req
          effectiveMode ++
        served node ((afterGlobalMode (settingsOf file)).filterMap (·.routeEntry))
          (globalModeBehind (settingsOf file)) req effectiveMode ++
        (st.2.serving req effectiveMode).map (·.withoutMode)) := by
  obtain ⟨-, -, -, hregistered⟩ := @tables_foldl env _ ⟨st.1.reset, []⟩ (h.separate st.1)
  have hstart : st.1.reset.globalMode = ascii "production" := rfl
  have hnodes : nodesOf (fun _ => some node) (arwsConfigLoad env file st.1).registered.zipIdx =
      ((beforeGlobalMode (settingsOf file)).filterMap (·.routeEntry)).map
          (·.routeAt node (ascii "production")) ++
        ((afterGlobalMode (settingsOf file)).filterMap (·.routeEntry)).map
          (·.routeAt node (globalModeBehind (settingsOf file))) := by
    rw [nodesOf_same, load_eq_foldl, hregistered, List.nil_append, hstart, registrations_split h.names,
      List.map_append, List.map_map, List.map_map]
    rfl
  have hroutes := routes_registerAll (fun _ => some node) st.2 (arwsConfigLoad env file st.1).registered
  rw [hnodes] at hroutes
  have hserving := (hroutes.filter fun route => route.serves req effectiveMode).map (·.withoutMode)
  rw [List.filter_append, List.filter_append, List.map_append, List.map_append] at hserving
  exact hserving

theorem isUrl_routeEntry {d : ConfigLine} {e : RouteEntry} (h : d.routeEntry = some e) :
    isUrl e.target = true := by
  rw [ConfigLine.routeEntry] at h
  split_ifs at h with hurl
  obtain ⟨hostPath, -, rfl⟩ := Option.map_eq_some_iff.1 h
  exact hurl

/-- **A file and its lines in another order** come to the same, exactly if the global mode is that of the
start or the redirects in front of its line are the same in both; or the memory of a route reads as the
target of a proxy, and no mode is asked for. -/
theorem permutedLines_iff (env : LoadEnv) (node : ArwsRoute) (st : ArwsConfig × RouteTable)
    (file file' : Bytes) (hlines : (fileLines file).Perm (fileLines file')) (h : Independent env file) :
    SameLoad (Load.run st ⟨env, file, fun _ => some node⟩) (Load.run st ⟨env, file', fun _ => some node⟩) ↔
      node.proxyTarget.text ≠ [] ∨ globalModeBehind (settingsOf file) = ascii "production" ∨
        (redirectsAhead node file).Perm (redirectsAhead node file') := by
  have h' := h.perm hlines
  have hperm := settingsOf_perm hlines
  have hglobal := globalModeBehind_perm env hperm h.names
  have hentries := hperm.filterMap (·.routeEntry)
  rw [routeEntries_split h.names, routeEntries_split h'.names] at hentries
  have hurl : ∀ e ∈ (beforeGlobalMode (settingsOf file)).filterMap (·.routeEntry) ++
      (afterGlobalMode (settingsOf file)).filterMap (·.routeEntry), isUrl e.target = true := by
    rw [← routeEntries_split h.names]
    intro e he
    obtain ⟨d, -, hd⟩ := List.mem_filterMap.1 he
    exact isUrl_routeEntry hd
  obtain ⟨hzero, hlen⟩ := globalModeBehind_text file
  -- the routes are the same exactly under the condition
  have hroutes : (∀ req effectiveMode,
      (((Load.run st ⟨env, file, fun _ => some node⟩).2.serving req effectiveMode).map (·.withoutMode)).Perm
        (((Load.run st ⟨env, file', fun _ => some node⟩).2.serving req effectiveMode).map
          (·.withoutMode))) ↔
      node.proxyTarget.text ≠ [] ∨ globalModeBehind (settingsOf file) = ascii "production" ∨
        (redirectsAhead node file).Perm (redirectsAhead node file') := by
    rw [← or_assoc, ← redirectAccepts_eq_iff node hzero hlen, redirectsAhead, redirectsAhead,
      ← served_perm_iff hentries hurl]
    refine forall₂_congr fun req effectiveMode => ?_
    rw [(serving_run h node st req effectiveMode).congr_left,
      (serving_run h' node st req effectiveMode).congr_right, List.perm_append_right_iff, hglobal]
  rw [← hroutes]
  refine ⟨fun hsame => hsame.routes, fun hsame => ?_⟩
  obtain ⟨ho, hp, hs, -⟩ := @tables_foldl env _ ⟨st.1.reset, []⟩ (h.separate st.1)
  obtain ⟨ho', hp', hs', -⟩ := @tables_foldl env _ ⟨st.1.reset, []⟩ (h'.separate st.1)
  have hsetting {β : Type} (f : Setting env β) : f.get (arwsConfigLoad env file st.1).config =
      f.get (arwsConfigLoad env file' st.1).config := by
    rw [load_eq_foldl, load_eq_foldl]
    exact f.get_foldl_perm hperm h.names _
  refine ⟨hsetting (modeSetting env), hsetting (globalModeSetting env), hsetting (portSetting env),
    hsetting (bindSetting env), hsetting (cacheTtlSetting env), hsetting (maintenanceIpsSetting env),
    ?_, ?_, ?_, hsame⟩
  · rw [Load.run, Load.run, load_eq_foldl, load_eq_foldl, ho, ho']
    exact (hperm.filterMap _).append_left _
  · rw [Load.run, Load.run, load_eq_foldl, load_eq_foldl, hp, hp']
    exact (hperm.filterMap _).append_left _
  · rw [Load.run, Load.run, load_eq_foldl, load_eq_foldl, hs, hs']
    exact (hperm.filterMap _).append_left _

private def noArrays : LoadEnv := ⟨fun _ => none, fun _ => []⟩

private def redirectFirst : Bytes := ascii "\"a.org/p\" = \"redirect http://b.org\"\nglobal_mode=test"

private def redirectLast : Bytes := ascii "global_mode=test\n\"a.org/p\" = \"redirect http://b.org\""

private theorem lines_redirectFirst : (fileLines redirectFirst).Perm (fileLines redirectLast) := by
  decide +kernel

private theorem independent_redirectFirst : Independent noArrays redirectFirst := by
  refine ⟨?_, ?_, ?_⟩ <;> decide +kernel

/-- A redirect in front of the line of the global mode, and behind it. -/
theorem permutedLines_iff_redirect :
    (fileLines redirectFirst).Perm (fileLines redirectLast) ∧
      (SameLoad (Load.run (.initial, fun _ => []) ⟨noArrays, redirectFirst, fun _ => some .zero⟩)
          (Load.run (.initial, fun _ => []) ⟨noArrays, redirectLast, fun _ => some .zero⟩) ↔
        ArwsRoute.zero.proxyTarget.text ≠ [] ∨
          globalModeBehind (settingsOf redirectFirst) = ascii "production" ∨
          (redirectsAhead .zero redirectFirst).Perm (redirectsAhead .zero redirectLast)) :=
  ⟨lines_redirectFirst,
    permutedLines_iff noArrays .zero (.initial, fun _ => []) redirectFirst redirectLast lines_redirectFirst
      independent_redirectFirst⟩

/-- **The order of independent lines matters**: in production nothing serves a request for a redirect that
is behind the line of the global mode, and the same redirect in front of it does. -/
theorem not_permutedLines : ¬ ∀ (env : LoadEnv) (node : ArwsRoute) (st : ArwsConfig × RouteTable)
    (file file' : Bytes), (fileLines file).Perm (fileLines file') → Independent env file →
      SameLoad (Load.run st ⟨env, file, fun _ => some node⟩)
        (Load.run st ⟨env, file', fun _ => some node⟩) := by
  intro h
  have hsame := h noArrays .zero (.initial, fun _ => []) redirectFirst redirectLast lines_redirectFirst
    independent_redirectFirst
  let req : HttpRequest := ⟨ascii "GET", ascii "/p", none, [], [], ascii "a.org", [], 0⟩
  have hfirst := serving_run independent_redirectFirst .zero (.initial, fun _ => []) req
    (ascii "production")
  have hlast := serving_run (independent_redirectFirst.perm lines_redirectFirst) .zero
    (.initial, fun _ => []) req (ascii "production")
  have hlen := (hfirst.symm.trans ((hsame.routes req (ascii "production")).trans hlast)).length_eq
  revert hlen
  decide +kernel

end Config
end Arws

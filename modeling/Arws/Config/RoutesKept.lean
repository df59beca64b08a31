import Arws.Config.Reload
import Arws.Config.WrittenLines

/-!
# The routes of a written file

A file declares routes, and so do the calls of `arws_config_add_proxy_route` and
`arws_config_add_stream_route`; `save_config` writes those that are in its two tables, and the file is
loaded again.

`routesKept` — every declared route is registered again if each of them can be recorded and read
back (`KeptAt`, `CallsKept`), and there is room for the routes behind the overrides of the file
(`RoomBehind`).
-/

set_option autoImplicit false

namespace Arws
namespace Config
namespace Routes

open CString TextFile Router

/-! ## Declarations -/

/-- The route that a line declares. -/
def routeOf? (line : Bytes) : Option RouteEntry := (parseLine line).routeEntry

def declaredBy (file : Bytes) : List RouteEntry := (fgetsLines file).filterMap routeOf?

/-- The calls that declare a route. -/
inductive RouteCall
  | proxy (host path target : Bytes)
  | stream (host path target : Bytes)

def RouteCall.declared : RouteCall → RouteEntry
  | .proxy host path target => ⟨.proxy, host, path, target⟩
  | .stream host path target => ⟨.stream, host, path, target⟩

def RouteCall.apply (s : ArwsConfig) : RouteCall → ArwsConfig × Int
  | .proxy host path target => arwsConfigAddProxyRoute s host path target
  | .stream host path target => arwsConfigAddStreamRoute s host path target

def applyAll (s : ArwsConfig) (calls : List RouteCall) : ArwsConfig :=
  calls.foldl (fun s call => (call.apply s).1) s

/-- A call of the router that fills the fields of a route as the declaration did: a target is cut to
255 bytes there. -/
structure SameRoute (r : Registration) (d : RouteEntry) : Prop where
  kind : r.kind = d.kind
  host : r.host = d.host
  path : normalizedPrefix r.path = normalizedPrefix d.path
  target : r.target = d.target.take 255

theorem strncpy_take (a : CharArray 256) (s : Bytes) : a.strncpy (s.take 255) = a.strncpy s := by
  simp only [CharArray.strncpy, List.take_take, Nat.min_self]

/-- The route is the same, whatever memory it is given: host, path and target. -/
theorem SameRoute.node_eq {r : Registration} {d : RouteEntry} (h : SameRoute r d) (mode : Bytes)
    (node : ArwsRoute) :
    (r.node node).host = (Registration.node ⟨d.kind, d.path, d.host, mode, d.target⟩ node).host ∧
      (r.node node).pathPrefix =
        (Registration.node ⟨d.kind, d.path, d.host, mode, d.target⟩ node).pathPrefix ∧
      (r.node node).proxyTarget =
        (Registration.node ⟨d.kind, d.path, d.host, mode, d.target⟩ node).proxyTarget ∧
      (r.node node).redirectTarget =
        (Registration.node ⟨d.kind, d.path, d.host, mode, d.target⟩ node).redirectTarget := by
  obtain ⟨kind, path, host, rmode, target⟩ := r
  obtain ⟨dkind, dhost, dpath, dtarget⟩ := d
  obtain ⟨hkind, hhost, hpath, htarget⟩ := h
  dsimp only at hkind hhost hpath htarget
  subst hkind hhost htarget
  cases kind <;> simp [Registration.node, ArwsRoute.written, hpath, strncpy_take]

/-! ## What can be recorded and read back -/

/-- The table of the routes of a kind; there is none of redirects. -/
def routesOf (s : ArwsConfig) : RouteKind → List ProxyRouteEntry
  | .proxy => s.proxyRoutes
  | .stream => s.streamRoutes
  | .redirect => []

def lineOf (e : ProxyRouteEntry) : RouteKind → Bytes
  | .stream => e.streamLine
  | _ => e.proxyLine

/-- The path that is written has the prefix of the path that was declared. -/
def PathKept (path : Bytes) : Prop :=
  path ≠ [] ∧ (path.head? = some 47 → path.tail ≠ [] ∧ path.tail.head? ≠ some 47 ∧
    (path.tail.head? = some 42 → path.tail = [42]))

/-- **A declaration that can be read back**: it is none of a redirect, its parts fit the table and its
line the buffer, and no part has bytes that have a meaning in a line. -/
structure GoodRoute (d : RouteEntry) : Prop where
  not_redirect : d.kind ≠ .redirect
  host_le : d.host.length ≤ 127
  path_le : d.path.length ≤ 127
  pathKept : PathKept d.path
  stored : StoredRoute d.recorded
  trimmed : trim d.recorded.targetUrl = d.recorded.targetUrl
  fits : (lineOf d.recorded d.kind).length ≤ 511

theorem normalizedPrefix_writtenPath {path : Bytes} (h : PathKept path) (hlen : path.length ≤ 255) :
    normalizedPrefix (writtenPath path) = normalizedPrefix path := by
  obtain ⟨hne, hslash⟩ := h
  by_cases hhead : path.head? = some 47
  · obtain ⟨htail, h47, h42⟩ := hslash hhead
    match path, hhead with
    | _ :: rest, rfl =>
      rw [List.tail_cons] at htail h47 h42
      have hwritten : writtenPath (47 :: rest) = rest := by
        have := writtenPath_of_head htail h47
        rwa [writtenPath, List.dropWhile_cons_of_pos rfl]
      have hself : normalizedPrefix (47 :: rest) = 47 :: rest := by
        rw [normalizedPrefix, if_neg (by simp),
          if_pos (Or.inl (List.head?_cons : (47 :: rest).head? = some 47))]
      rw [hwritten, hself, normalizedPrefix]
      split_ifs with hstar hfront
      · rw [hstar]
        rfl
      · obtain hfront | hfront := hfront
        · exact absurd hfront h47
        · exact absurd (h42 hfront) hstar
      · exact List.take_of_length_le (by omega)
  · rw [writtenPath_of_head hne hhead]

/-! ## Loading the file -/

theorem routesOf_addRoute (st : Loading) (kind : RouteKind) (host path target : Bytes)
    (k : RouteKind) :
    routesOf (st.addRoute kind host path target).config k =
      if k = kind ∧ kind ≠ .redirect then recordRoute (routesOf st.config k) host path target
      else routesOf st.config k := by
  cases kind <;> cases k <;> rfl

theorem readLine_of_routeOf? (env : LoadEnv) {st : Loading} {line : Bytes} {d : RouteEntry}
    (h : routeOf? line = some d) (hroom : st.config.overrides.length < maxOverrides) :
    st.readLine env line = st.addRoute d.kind d.host d.path d.target := by
  rw [routeOf?, ConfigLine.routeEntry] at h
  split_ifs at h with hurl
  obtain ⟨⟨host, path⟩, hpath, rfl⟩ := Option.map_eq_some_iff.1 h
  cases hline : parseLine line with
  | nothing => rw [hline] at hpath; cases hpath
  | setting name value => rw [hline] at hpath; cases hpath
  | keyed key val =>
    rw [hline] at hpath hurl
    obtain ⟨slash, hslash, hkeyed⟩ := Option.map_eq_some_iff.1 hpath
    cases hkeyed
    obtain ⟨hkey, hhost⟩ := strchr_eq_some hslash
    rw [Loading.readLine, hline, Loading.read]
    conv_lhs => rw [hkey]
    rw [readKeyed_slash env hhost _ val hroom]
    exact if_pos hurl

/-- Every other line leaves the routes alone. -/
theorem routesOf_readLine (env : LoadEnv) {st : Loading} {line : Bytes} (h : routeOf? line = none)
    (k : RouteKind) : routesOf (st.readLine env line).config k = routesOf st.config k := by
  have heffect := lineEffect_readLine env st line
  generalize st.readLine env line = st' at heffect ⊢
  cases heffect with
  | nothing => rfl
  | setting name value hline =>
    obtain ⟨-, hproxy, hstream⟩ := readSetting_tables env st.config name value
    cases k
    · exact hproxy
    · exact hstream
    · rfl
  | route host path val hline hhost hroom hurl =>
    simp [routeOf?, ConfigLine.routeEntry, ConfigLine.hostPath, ConfigLine.val, hline, strchr_append hhost,
      hurl] at h
  | override host path val hline hhost hroom hurl =>
    rw [ArwsConfig.setOverride]
    cases overrideIdx st.config.overrides host path <;> cases k <;> rfl

/-- A line that declares a route is read, and there is room to record the route. -/
structure KeptAt (st : Loading) (d : RouteEntry) : Prop where
  good : GoodRoute d
  room : st.config.overrides.length < maxOverrides
  recorded : (routesOf st.config d.kind).length < maxOverrides

/-- **The tables hold what has been declared**, and nothing else. -/
structure Holds (s : ArwsConfig) (declared : List RouteEntry) : Prop where
  good : ∀ d ∈ declared, GoodRoute d
  mem : ∀ d ∈ declared, d.recorded ∈ routesOf s d.kind
  only : ∀ k, ∀ e ∈ routesOf s k, ∃ d ∈ declared, d.kind = k ∧ d.recorded = e

/-- A route that is recorded. -/
theorem Holds.record {s s' : ArwsConfig} {declared : List RouteEntry} {d : RouteEntry}
    (h : Holds s declared) (hgood : GoodRoute d)
    (hroutes : ∀ k, routesOf s' k = if k = d.kind then routesOf s k ++ [d.recorded] else routesOf s k) :
    Holds s' (declared ++ [d]) where
  good := by
    intro d' hd'
    obtain hd' | hd' := List.mem_append.1 hd'
    · exact h.good d' hd'
    · rwa [List.mem_singleton.1 hd']
  mem := by
    intro d' hd'
    rw [hroutes]
    obtain hd' | hd' := List.mem_append.1 hd'
    · have hmem := h.mem d' hd'
      split_ifs
      · exact List.mem_append_left _ hmem
      · exact hmem
    · rw [List.mem_singleton.1 hd', if_pos rfl]
      exact List.mem_append_right _ (List.mem_singleton_self _)
  only := by
    intro k e he
    rw [hroutes] at he
    have hold : e ∈ routesOf s k → ∃ d' ∈ declared ++ [d], d'.kind = k ∧ d'.recorded = e := by
      intro he
      obtain ⟨d', hd', hk, hentry⟩ := h.only k e he
      exact ⟨d', List.mem_append_left _ hd', hk, hentry⟩
    split_ifs at he with hk
    · obtain he | he := List.mem_append.1 he
      · exact hold he
      · exact ⟨d, List.mem_append_right _ (List.mem_singleton_self _), hk.symm,
          (List.mem_singleton.1 he).symm⟩
    · exact hold he

/-- **Step**: a line that declares a route. -/
theorem Holds.readLine (env : LoadEnv) {st : Loading} {line : Bytes} {d : RouteEntry}
    {declared : List RouteEntry} (h : Holds st.config declared) (hline : routeOf? line = some d)
    (hkept : KeptAt st d) : Holds (st.readLine env line).config (declared ++ [d]) := by
  refine h.record hkept.good fun k => ?_
  rw [readLine_of_routeOf? env hline hkept.room, routesOf_addRoute]
  by_cases hk : k = d.kind
  · rw [if_pos ⟨hk, hkept.good.not_redirect⟩, if_pos hk, recordRoute, if_pos (by rw [hk]; exact hkept.recorded)]
    rfl
  · rw [if_neg fun hboth => hk hboth.1, if_neg hk]

/-- **Run**: all lines of a file. -/
theorem Holds.readLines (env : LoadEnv) {st : Loading} {lines : List Bytes}
    {declared : List RouteEntry} (h : Holds st.config declared)
    (hlines : ∀ pre line post d, lines = pre ++ line :: post → routeOf? line = some d →
      KeptAt (st.readLines env pre) d) :
    Holds (st.readLines env lines).config (declared ++ lines.filterMap routeOf?) := by
  induction lines generalizing st declared with
  | nil =>
    rw [List.filterMap_nil, List.append_nil]
    exact h
  | cons line lines ih =>
    have hrest : ∀ pre l post d, lines = pre ++ l :: post → routeOf? l = some d →
        KeptAt ((st.readLine env line).readLines env pre) d :=
      fun pre l post d hsplit hl => hlines (line :: pre) l post d (by rw [hsplit]; rfl) hl
    have hcons : st.readLines env (line :: lines) = (st.readLine env line).readLines env lines := rfl
    rw [hcons]
    cases hline : routeOf? line with
    | none =>
      rw [List.filterMap_cons_none hline]
      refine ih ⟨h.good, fun d hd => ?_, fun k e he => ?_⟩ hrest
      · rw [routesOf_readLine env hline]
        exact h.mem d hd
      · rw [routesOf_readLine env hline] at he
        exact h.only k e he
    | some d =>
      rw [List.filterMap_cons_some hline]
      have := ih (h.readLine env hline (hlines [] line lines d rfl hline)) hrest
      rwa [List.append_assoc, List.singleton_append] at this

/-! ## The calls -/

/-- A call that succeeds, for a route that can be read back; no route of the same pair has another
target. -/
structure CallKept (s : ArwsConfig) (declared : List RouteEntry) (call : RouteCall) : Prop where
  good : GoodRoute call.declared
  succeeds : (call.apply s).2 = 0
  agrees : ∀ d ∈ declared, d.kind = call.declared.kind → d.host = call.declared.host →
    d.path = call.declared.path → d.target = call.declared.target

/-- Every call is one of these, where it is made. -/
def CallsKept : ArwsConfig → List RouteEntry → List RouteCall → Prop
  | _, _, [] => True
  | s, declared, call :: calls =>
    CallKept s declared call ∧ CallsKept (call.apply s).1 (declared ++ [call.declared]) calls

/-- What a call does to its table: the route is there already, or is one more. -/
theorem addEntry_cases {routes : List ProxyRouteEntry} {d : RouteEntry} (hgood : GoodRoute d)
    (hsucceeds : (addEntry routes d.host d.path d.target).2 = 0)
    (hagrees : ∀ e ∈ routes, e.host = d.host → e.path = d.path → e.targetUrl = d.recorded.targetUrl) :
    (addEntry routes d.host d.path d.target).1 = routes ∧ d.recorded ∈ routes ∨
      (addEntry routes d.host d.path d.target).1 = routes ++ [d.recorded] := by
  rw [addEntry] at hsucceeds ⊢
  cases hidx : routes.findIdx? fun r => r.host == d.host && r.path == d.path with
  | none =>
    rw [hidx] at hsucceeds
    dsimp only at hsucceeds ⊢
    by_cases hfull : maxOverrides ≤ routes.length
    · rw [if_pos hfull] at hsucceeds
      cases hsucceeds
    · rw [if_neg hfull]
      exact Or.inr rfl
  | some i =>
    obtain ⟨hlt, hpair, -⟩ := List.findIdx?_eq_some_iff_getElem.1 hidx
    rw [Bool.and_eq_true, beq_iff_eq, beq_iff_eq] at hpair
    have htarget := hagrees _ (List.getElem_mem hlt) hpair.1 hpair.2
    have hentry : routes.get ⟨i, hlt⟩ = d.recorded := by
      rw [List.get_eq_getElem, RouteEntry.recorded, List.take_of_length_le hgood.host_le,
        List.take_of_length_le hgood.path_le, ← hpair.1, ← hpair.2]
      exact congrArg (ProxyRouteEntry.mk _ _) htarget
    refine Or.inl ⟨?_, hentry ▸ List.get_mem _ _⟩
    refine List.ext_getElem (List.length_modify _ _ _) fun j hj hj' => ?_
    rw [List.getElem_modify]
    split_ifs with hij
    · subst hij
      exact congrArg (ProxyRouteEntry.mk _ _) htarget.symm
    · rfl

/-- **Step**: a call. -/
theorem Holds.apply {s : ArwsConfig} {declared : List RouteEntry} {call : RouteCall}
    (h : Holds s declared) (hkept : CallKept s declared call) :
    Holds (call.apply s).1 (declared ++ [call.declared]) := by
  have hagrees : ∀ e ∈ routesOf s call.declared.kind, e.host = call.declared.host →
      e.path = call.declared.path → e.targetUrl = call.declared.recorded.targetUrl := by
    intro e he hhost hpath
    obtain ⟨d, hd, hkind, rfl⟩ := h.only _ e he
    have hgood := h.good d hd
    have htarget := hkept.agrees d hd hkind ((List.take_of_length_le hgood.host_le).symm.trans hhost)
      ((List.take_of_length_le hgood.path_le).symm.trans hpath)
    exact congrArg (List.take 255) htarget
  have hsame : (call.declared.recorded ∈ routesOf s call.declared.kind) →
      (∀ k, routesOf (call.apply s).1 k = routesOf s k) →
      Holds (call.apply s).1 (declared ++ [call.declared]) := by
    intro hmem hroutes
    refine ⟨fun d hd => ?_, fun d hd => ?_, fun k e he => ?_⟩
    · obtain hd | hd := List.mem_append.1 hd
      · exact h.good d hd
      · rw [List.mem_singleton.1 hd]
        exact hkept.good
    · rw [hroutes]
      obtain hd | hd := List.mem_append.1 hd
      · exact h.mem d hd
      · rwa [List.mem_singleton.1 hd]
    · rw [hroutes] at he
      obtain ⟨d, hd, hk, hentry⟩ := h.only k e he
      exact ⟨d, List.mem_append_left _ hd, hk, hentry⟩
  obtain ⟨hgood, hsucceeds, -⟩ := hkept
  cases call with
  | proxy host path target =>
    obtain ⟨heq, hmem⟩ | heq := addEntry_cases (d := ⟨.proxy, host, path, target⟩) hgood hsucceeds hagrees
    · exact hsame hmem fun k => by cases k <;> first | exact heq | rfl
    · exact h.record hgood fun k => by cases k <;> first | exact heq | rfl
  | stream host path target =>
    obtain ⟨heq, hmem⟩ | heq := addEntry_cases (d := ⟨.stream, host, path, target⟩) hgood hsucceeds hagrees
    · exact hsame hmem fun k => by cases k <;> first | exact heq | rfl
    · exact h.record hgood fun k => by cases k <;> first | exact heq | rfl

/-- **Run**: all calls. -/
theorem Holds.applyAll {s : ArwsConfig} {declared : List RouteEntry} {calls : List RouteCall}
    (h : Holds s declared) (hkept : CallsKept s declared calls) :
    Holds (applyAll s calls) (declared ++ calls.map (·.declared)) := by
  induction calls generalizing s declared with
  | nil =>
    rw [List.map_nil, List.append_nil]
    exact h
  | cons call calls ih =>
    have := ih (h.apply hkept.1) hkept.2
    rwa [List.append_assoc, List.singleton_append] at this

/-! ## The file that is written -/

theorem length_readLine_le (env : LoadEnv) (st : Loading) (piece : Bytes) :
    (st.readLine env piece).config.overrides.length ≤ st.config.overrides.length + 1 := by
  have heffect := lineEffect_readLine env st piece
  generalize st.readLine env piece = st' at heffect ⊢
  cases heffect with
  | nothing => exact Nat.le_succ _
  | setting name value hline => rw [(readSetting_tables env st.config name value).1]; exact Nat.le_succ _
  | route host path val hline hhost hroom hurl => rw [addRoute_overrides]; exact Nat.le_succ _
  | override host path val hline hhost hroom hurl =>
    rw [ArwsConfig.setOverride]
    cases overrideIdx st.config.overrides host path <;> simp

/-- A piece sets at most one override. -/
theorem length_readLines_le (env : LoadEnv) (st : Loading) (pieces : List Bytes) :
    (st.readLines env pieces).config.overrides.length ≤
      st.config.overrides.length + pieces.length := by
  induction pieces generalizing st with
  | nil => exact Nat.le_refl _
  | cons piece pieces ih =>
    have h1 := ih (st.readLine env piece)
    have h2 := length_readLine_le env st piece
    have hcons : st.readLines env (piece :: pieces) = (st.readLine env piece).readLines env pieces := rfl
    rw [hcons, List.length_cons]
    omega

/-- Settings set none. -/
theorem overrides_readLines_settings (env : LoadEnv) (st : Loading) {pieces : List Bytes}
    (h : ∀ piece ∈ pieces, ∃ name value, parseLine piece = .setting name value) :
    (st.readLines env pieces).config.overrides = st.config.overrides := by
  induction pieces generalizing st with
  | nil => rfl
  | cons piece pieces ih =>
    obtain ⟨name, value, hpiece⟩ := h piece List.mem_cons_self
    have hone : (st.readLine env piece).config.overrides = st.config.overrides := by
      rw [Loading.readLine, hpiece]
      exact (readSetting_tables env st.config name value).1
    exact (ih (st.readLine env piece) fun p hp => h p (List.mem_cons_of_mem _ hp)).trans hone

/-- The modes of a file have no line end. -/
theorem lf_notMem_mode (env : LoadEnv) (file : Bytes) (s₀ : ArwsConfig) :
    ∀ o ∈ (arwsConfigLoad env file s₀).config.overrides, (10 : UInt8) ∉ o.mode := by
  rw [arwsConfigLoad, Loading.readLines]
  have hpieces : ∀ piece ∈ fgetsLines file, (10 : UInt8) ∉ piece.dropLast :=
    fun piece hpiece => notMem_dropLast_of_mem_pieces hpiece
  generalize fgetsLines file = pieces at hpieces
  have hstart : ∀ o ∈ (⟨s₀.reset, []⟩ : Loading).config.overrides, (10 : UInt8) ∉ o.mode := by
    simp [ArwsConfig.reset]
  generalize (⟨s₀.reset, []⟩ : Loading) = st at hstart
  induction pieces generalizing st with
  | nil => exact hstart
  | cons piece pieces ih =>
    refine ih (fun p hp => hpieces p (List.mem_cons_of_mem _ hp)) (st.readLine env piece) ?_
    have hclean := clean_parseLine (hpieces piece List.mem_cons_self)
    have heffect := lineEffect_readLine env st piece
    generalize st.readLine env piece = st' at heffect ⊢
    cases heffect with
    | nothing => exact hstart
    | setting name value hline => rwa [(readSetting_tables env st.config name value).1]
    | route host path val hline hhost hroom hurl => rwa [addRoute_overrides]
    | override host path val hline hhost hroom hurl =>
      rw [hline] at hclean
      intro o ho
      obtain ho | rfl := mem_setOverride ho
      · exact hstart o ho
      · exact fun hmem => hclean.2 10 (by simp) ((modeOf_subset env val).1 hmem)

/-- The line of an override fits. -/
theorem overrideLine_fits {o : ModeOverride} (hkey : StoredKey o.host o.path)
    (hlen : o.mode.length ≤ 31) (hlf : (10 : UInt8) ∉ o.mode) {line : Bytes}
    (hline : o.line? = some line) : (10 : UInt8) ∉ line ∧ line.length ≤ 511 := by
  have hle := keyLength_le hkey
  have hflag : (ascii " no-cache").length = 9 := rfl
  have hword : (ascii "no-cache").length = 8 := rfl
  rw [ModeOverride.line?] at hline
  split_ifs at hline with hmode hnoCache hnoCache
  · cases hline
    refine ⟨lf_notMem_keyedLine hkey fun hmem => ?_, ?_⟩
    · obtain hmem | hmem := List.mem_append.1 hmem
      · exact hlf hmem
      · revert hmem
        decide
    · rw [length_keyedLine, List.length_append, hflag]
      omega
  · cases hline
    refine ⟨lf_notMem_keyedLine hkey (by simpa using hlf), ?_⟩
    rw [length_keyedLine, List.length_append, List.length_nil]
    omega
  · cases hline
    refine ⟨lf_notMem_keyedLine hkey (by decide), ?_⟩
    rw [length_keyedLine, hword]
    omega

/-- An entry that is read back. -/
structure GoodEntry (e : ProxyRouteEntry) (kind : RouteKind) : Prop where
  not_redirect : kind ≠ .redirect
  stored : StoredRoute e
  trimmed : trim e.targetUrl = e.targetUrl
  fits : (lineOf e kind).length ≤ 511

theorem GoodRoute.goodEntry {d : RouteEntry} (h : GoodRoute d) : GoodEntry d.recorded d.kind :=
  ⟨h.not_redirect, h.stored, h.trimmed, h.fits⟩

/-- **The line of a route** is read as that route. -/
theorem GoodEntry.readLine {e : ProxyRouteEntry} {kind : RouteKind} (h : GoodEntry e kind)
    (env : LoadEnv) {st : Loading} (hroom : st.config.overrides.length < maxOverrides) :
    st.readLine env (firstPiece (lineOf e kind)) =
      st.addRoute kind e.host (writtenPath e.path) e.targetUrl := by
  obtain ⟨hkind, hstored, htrimmed, hfits⟩ := h
  have hzero := hstored.target_without 0 (by simp)
  have hkey := keyLength_le hstored.key
  have hslash := hstored.key.host_without 47 (by simp)
  cases kind with
  | redirect => exact absurd rfl hkind
  | proxy =>
    have hline : lineOf e .proxy = keyedLine e.host e.path e.targetUrl := rfl
    rw [hline, length_keyedLine] at hfits
    have htarget := targetOf_proxy hstored.target_isUrl
    rw [htrimmed] at htarget
    rw [hline, Loading.readLine, parseLine_keyedLine hstored.key hzero, Loading.read,
      readKeyed_slash env hslash _ _ hroom, trim_take_line_end (by omega), htrimmed, htarget,
      if_pos hstored.target_isUrl]
  | stream =>
    have hline : lineOf e .stream = keyedLine e.host e.path (ascii "stream " ++ e.targetUrl) := rfl
    have hword : (ascii "stream ").length = 7 := rfl
    have hval : (0 : UInt8) ∉ ascii "stream " ++ e.targetUrl := by
      intro hmem
      obtain hmem | hmem := List.mem_append.1 hmem
      · revert hmem
        decide
      · exact hzero hmem
    rw [hline, length_keyedLine, List.length_append, hword] at hfits
    have htarget := targetOf_stream hstored.target_isUrl
    rw [htrimmed] at htarget
    rw [hline, Loading.readLine, parseLine_keyedLine hstored.key hval, Loading.read,
      readKeyed_slash env hslash _ _ hroom,
      trim_take_line_end (by rw [List.length_append, hword]; omega), htarget,
      if_pos hstored.target_isUrl]

/-- **The routes of a table** are read one after the other. -/
theorem readLines_routes (env : LoadEnv) {kind : RouteKind} {entries : List ProxyRouteEntry}
    (h : ∀ e ∈ entries, GoodEntry e kind) {st : Loading}
    (hroom : st.config.overrides.length < maxOverrides) :
    (st.readLines env (fgetsLines (unlines 10 (entries.map fun e => lineOf e kind)))).config.overrides =
        st.config.overrides ∧
      ∀ e ∈ entries, ∃ mode, ⟨kind, writtenPath e.path, e.host, mode, e.targetUrl⟩ ∈
        (st.readLines env (fgetsLines (unlines 10 (entries.map fun e => lineOf e kind)))).registered := by
  have hlines : ∀ line ∈ entries.map (fun e => lineOf e kind),
      (10 : UInt8) ∉ line ∧ RestSaysNothing line := by
    intro line hline
    obtain ⟨e, he, rfl⟩ := List.mem_map.1 hline
    obtain ⟨hkind, hstored, -, hfits⟩ := h e he
    have hlf := hstored.target_without 10 (by simp)
    refine ⟨?_, restSaysNothing_of_length_le hfits⟩
    cases kind with
    | redirect => exact absurd rfl hkind
    | proxy => exact lf_notMem_keyedLine hstored.key hlf
    | stream =>
      refine lf_notMem_keyedLine hstored.key fun hmem => ?_
      obtain hmem | hmem := List.mem_append.1 hmem
      · revert hmem
        decide
      · exact hlf hmem
  rw [readLines_unlines env st hlines, List.map_map]
  clear hlines
  induction entries generalizing st with
  | nil => exact ⟨rfl, fun e he => absurd he List.not_mem_nil⟩
  | cons e entries ih =>
    have hone := (h e List.mem_cons_self).readLine env hroom
    have hcons : st.readLines env ((e :: entries).map (firstPiece ∘ fun e => lineOf e kind)) =
        (st.readLine env (firstPiece (lineOf e kind))).readLines env
          (entries.map (firstPiece ∘ fun e => lineOf e kind)) := rfl
    rw [hcons, hone]
    have hroom' : (st.addRoute kind e.host (writtenPath e.path) e.targetUrl).config.overrides.length <
        maxOverrides := by rwa [addRoute_overrides]
    obtain ⟨hover, hall⟩ := ih (fun e' he' => h e' (List.mem_cons_of_mem _ he')) hroom'
    refine ⟨hover.trans (addRoute_overrides _ _ _ _ _), fun e' he' => ?_⟩
    obtain rfl | he' := List.mem_cons.1 he'
    · refine ⟨st.config.globalMode, (registered_readLines_mono env _ _).subset ?_⟩
      rw [addRoute_registered]
      exact List.mem_append_right _ (List.mem_singleton_self _)
    · exact hall e' he'

/-- **There is room** behind the lines that are written for the overrides, and what is left of the
line of the addresses says nothing. -/
structure RoomBehind (s : ArwsConfig) : Prop where
  overrides : (s.overrides.filterMap (·.line?)).length < maxOverrides
  ips : ∀ ip ∈ s.maintenanceIps, Without [10, 61] ip

/-- The routes in the tables are registered by the load of the file that is written. -/
theorem registered_of_saved (env : LoadEnv) {s : ArwsConfig} {declared : List RouteEntry} (h : Stored s)
    (hlf : ∀ o ∈ s.overrides, (10 : UInt8) ∉ o.mode) (hholds : Holds s declared)
    (hroom : RoomBehind s) (s₀ : ArwsConfig) :
    ∀ d ∈ declared, ∃ r ∈ (arwsConfigLoad env (saveConfig s) s₀).registered, SameRoute r d := by
  have hsettings := h.settingLines (fun ip hip => hroom.ips ip hip 10 (by simp))
    (Or.inr fun ip hip => hroom.ips ip hip 61 (by simp))
  have hover : ∀ line ∈ s.overrides.filterMap (·.line?), (10 : UInt8) ∉ line ∧ RestSaysNothing line := by
    intro line hline
    obtain ⟨o, ho, hline⟩ := List.mem_filterMap.1 hline
    obtain ⟨hkey, -, hlen⟩ := h.overrides o ho
    obtain ⟨h10, hfits⟩ := overrideLine_fits hkey hlen (hlf o ho) hline
    exact ⟨h10, restSaysNothing_of_length_le hfits⟩
  have hgood : ∀ kind, ∀ e ∈ routesOf s kind, GoodEntry e kind := by
    intro kind e he
    obtain ⟨d, hd, rfl, rfl⟩ := hholds.only kind e he
    exact (hholds.good d hd).goodEntry
  rw [load_saveConfig, readLines_unlines env _ fun line hline =>
    ⟨(hsettings line hline).lf_notMem, (hsettings line hline).rest⟩, readLines_unlines env _ hover]
  have hset : ∀ piece ∈ s.settingLines.map firstPiece,
      ∃ name value, parseLine piece = .setting name value := by
    intro piece hpiece
    obtain ⟨line, hline, rfl⟩ := List.mem_map.1 hpiece
    exact (hsettings line hline).setting
  have h₁ := overrides_readLines_settings env ⟨s₀.reset, []⟩ hset
  generalize Loading.readLines env ⟨s₀.reset, []⟩ (s.settingLines.map firstPiece) = st₁ at h₁
  have h₂ := length_readLines_le env st₁ ((s.overrides.filterMap (·.line?)).map firstPiece)
  generalize st₁.readLines env ((s.overrides.filterMap (·.line?)).map firstPiece) = st₂ at h₂
  have hroom₂ : st₂.config.overrides.length < maxOverrides := by
    have hnone : st₁.config.overrides.length = 0 := by rw [h₁]; rfl
    have := hroom.overrides
    rw [List.length_map] at h₂
    omega
  obtain ⟨hover₃, hproxy⟩ := readLines_routes env (hgood .proxy) hroom₂
  have hproxyLines : s.proxyRoutes.map (·.proxyLine) =
      (routesOf s .proxy).map fun e => lineOf e .proxy := rfl
  have hstreamLines : s.streamRoutes.map (·.streamLine) =
      (routesOf s .stream).map fun e => lineOf e .stream := rfl
  rw [hproxyLines, hstreamLines]
  generalize st₂.readLines env (fgetsLines (unlines 10 ((routesOf s .proxy).map
    fun e => lineOf e .proxy))) = st₃ at hover₃ hproxy
  obtain ⟨-, hstream⟩ := readLines_routes env (hgood .stream) (hover₃ ▸ hroom₂)
  have hmono := registered_readLines_mono env st₃ (fgetsLines (unlines 10
    ((routesOf s .stream).map fun e => lineOf e .stream)))
  intro d hd
  have hd' := hholds.good d hd
  have hmem := hholds.mem d hd
  have hsame : ∀ mode, SameRoute
      ⟨d.kind, writtenPath d.recorded.path, d.recorded.host, mode, d.recorded.targetUrl⟩ d := by
    intro mode
    have hpath : d.recorded.path = d.path := List.take_of_length_le hd'.path_le
    refine ⟨rfl, List.take_of_length_le hd'.host_le, ?_, rfl⟩
    rw [hpath]
    exact normalizedPrefix_writtenPath hd'.pathKept (hd'.path_le.trans (by decide))
  cases hkind : d.kind with
  | redirect => exact absurd hkind hd'.not_redirect
  | proxy =>
    rw [hkind] at hmem hsame
    obtain ⟨mode, hr⟩ := hproxy _ hmem
    exact ⟨_, hmono.subset hr, hsame mode⟩
  | stream =>
    rw [hkind] at hmem hsame
    obtain ⟨mode, hr⟩ := hstream _ hmem
    exact ⟨_, hr, hsame mode⟩

/-- A call leaves the overrides alone. -/
theorem apply_overrides (s : ArwsConfig) (call : RouteCall) :
    (call.apply s).1.overrides = s.overrides ∧ (call.apply s).1.maintenanceIps = s.maintenanceIps := by
  cases call <;> exact ⟨rfl, rfl⟩

theorem Stored.apply {s : ArwsConfig} {declared : List RouteEntry} {call : RouteCall} (h : Stored s)
    (hholds : Holds (call.apply s).1 declared) : Stored (call.apply s).1 := by
  have hroutes : ∀ k, ∀ e ∈ routesOf (call.apply s).1 k, StoredRoute e := by
    intro k e he
    obtain ⟨d, hd, -, rfl⟩ := hholds.only k e he
    exact (hholds.good d hd).stored
  cases call with
  | proxy host path target => exact { h with proxyRoutes := hroutes .proxy }
  | stream host path target => exact { h with streamRoutes := hroutes .stream }

theorem applyAll_kept {s : ArwsConfig} {declared : List RouteEntry} {calls : List RouteCall}
    (h : Stored s) (hholds : Holds s declared) (hkept : CallsKept s declared calls) :
    Stored (applyAll s calls) ∧ (applyAll s calls).overrides = s.overrides := by
  induction calls generalizing s declared with
  | nil => exact ⟨h, rfl⟩
  | cons call calls ih =>
    have hnext := hholds.apply hkept.1
    obtain ⟨hstored, hover⟩ := ih (Stored.apply h hnext) hnext hkept.2
    exact ⟨hstored, hover.trans (apply_overrides s call).1⟩

/-- **Every declared route is registered again**, in every run that keeps to these conditions. -/
theorem routesKept (env env' : LoadEnv) (file : Bytes) (s₀ : ArwsConfig) {calls : List RouteCall}
    (hfile : ∀ pre line post d, fgetsLines file = pre ++ line :: post → routeOf? line = some d →
      KeptAt (Loading.readLines env ⟨s₀.reset, []⟩ pre) d)
    (hcalls : CallsKept (arwsConfigLoad env file s₀).config (declaredBy file) calls)
    (hroom : RoomBehind (applyAll (arwsConfigLoad env file s₀).config calls)) :
    ∀ d ∈ declaredBy file ++ calls.map (·.declared),
      ∃ r ∈ (arwsConfigLoad env' (saveConfig (applyAll (arwsConfigLoad env file s₀).config calls))
        (applyAll (arwsConfigLoad env file s₀).config calls)).registered, SameRoute r d := by
  have hstart : Holds (⟨s₀.reset, []⟩ : Loading).config [] := by
    refine ⟨fun d hd => absurd hd List.not_mem_nil, fun d hd => absurd hd List.not_mem_nil, ?_⟩
    intro k e he
    cases k <;> exact absurd he List.not_mem_nil
  have hloaded : Holds (arwsConfigLoad env file s₀).config (declaredBy file) := by
    have := hstart.readLines env hfile
    rwa [List.nil_append] at this
  obtain ⟨hstored, hover⟩ := applyAll_kept (stored_load env file s₀) hloaded hcalls
  refine registered_of_saved env' hstored ?_ (hloaded.applyAll hcalls) hroom _
  rw [hover]
  exact lf_notMem_mode env file s₀

/-- A file with a route, and a call for another one. -/
theorem routesKept_of_two : ∃ (env : LoadEnv) (s : ArwsConfig), ∀ d ∈
    [(⟨.proxy, ascii "a.com", [42], ascii "http://a"⟩ : RouteEntry),
      ⟨.stream, ascii "b.com", ascii "live/*", ascii "ws://b"⟩],
    ∃ r ∈ (arwsConfigLoad env (saveConfig s) s).registered, SameRoute r d := by
  let env : LoadEnv := ⟨fun _ => none, fun _ => []⟩
  let file := ascii "\"a.com/*\" = http://a\n"
  let calls := [RouteCall.stream (ascii "b.com") (ascii "live/*") (ascii "ws://b")]
  have hlines : fgetsLines file = [file] := by decide
  have hroute : routeOf? file = some ⟨.proxy, ascii "a.com", [42], ascii "http://a"⟩ := by decide
  have hcalls : CallsKept (arwsConfigLoad env file .initial).config (declaredBy file) calls := by
    refine ⟨⟨⟨by decide, by decide, by decide, ⟨by decide, by decide⟩,
      ⟨⟨by decide, by decide, by decide, by decide⟩, by decide, by decide, by decide⟩, by decide,
      by decide⟩, by decide, by decide⟩, trivial⟩
  refine ⟨env, applyAll (arwsConfigLoad env file .initial).config calls, ?_⟩
  refine @routesKept env env file .initial calls ?_ hcalls ⟨by decide, by decide⟩
  intro pre line post d hsplit hline
  rw [hlines] at hsplit
  cases pre with
  | nil =>
    cases hsplit
    rw [hroute] at hline
    cases hline
    exact ⟨⟨by decide, by decide, by decide, ⟨by decide, by decide⟩,
      ⟨⟨by decide, by decide, by decide, by decide⟩, by decide, by decide, by decide⟩, by decide,
      by decide⟩, by decide, by decide⟩
  | cons l pre => simp at hsplit

/-- A file with a redirect. -/
theorem not_routesKept : ¬ ∀ (env env' : LoadEnv) (file : Bytes) (s₀ : ArwsConfig)
    (calls : List RouteCall), (∀ line ∈ fgetsLines file, line.length ≤ 511) →
    (∀ call ∈ calls, isUrl call.declared.target = true ∨ call.declared.target.head? = some 64) →
    (∀ pre call post, calls = pre ++ call :: post →
      (call.apply (applyAll (arwsConfigLoad env file s₀).config pre)).2 = 0) →
    ∀ d ∈ declaredBy file ++ calls.map (·.declared),
      ∃ r ∈ (arwsConfigLoad env' (saveConfig (applyAll (arwsConfigLoad env file s₀).config calls))
        (applyAll (arwsConfigLoad env file s₀).config calls)).registered, SameRoute r d := by
  intro h
  let env : LoadEnv := ⟨fun _ => none, fun _ => []⟩
  let file := ascii "\"a.com/old\" = redirect http://b\n"
  have hload : (arwsConfigLoad env file .initial).config = .initial := by decide
  obtain ⟨r, hr, -⟩ := h env env file .initial [] (by decide) (by simp) (by simp)
    ⟨.redirect, ascii "a.com", ascii "old", ascii "http://b"⟩ (by decide)
  have hnone : (arwsConfigLoad env (saveConfig .initial) .initial).registered = [] := by
    rw [load_saveConfig]
    decide
  rw [applyAll, List.foldl_nil, hload, hnone] at hr
  exact absurd hr List.not_mem_nil

end Routes
end Config
end Arws

import Arws.Config.OverrideTable
import Arws.Gateway.Control
import Arws.Gateway.FrameOptions
import Arws.Gateway.Patterns

/-!
# The route of a registration, and the one that is loaded

An `IPC_REGISTER` frame with a target adds a route to the router, and has it written to the
configuration; when the file is loaded again, a line of it adds a route once more.

* `routes_addRoutes` — what a frame for one host adds to the router.
* `load_take_succ` — where in the load of a written file the line of the route is read.
* `reloads_iff` — the two routes match the same requests exactly if the frame names every method, a host
  and a prefix that come back, and there is room in both tables.
-/

set_option autoImplicit false

namespace Arws
namespace Gateway

open CString TextFile Router
open Config hiding hostMatches
open Config.Routes

namespace RegisterFrame

variable (frame : RegisterFrame)

/-! ## What the handler does for a host -/

/-- The node that `arws_add_stream_route` or `arws_add_proxy_route` links for a host. -/
def node (host : Bytes) (node : ArwsRoute) : ArwsRoute :=
  let route := node.written frame.pathPrefix frame.method (some host) (some (frame.routeMode host)) (-1)
    frame.isStream false
  { route with proxyTarget := route.proxyTarget.strncpy frame.proxyUrl }

/-- The call of `arws_config_add_stream_route` or `arws_config_add_proxy_route` for a host. -/
def routeCall (host : Bytes) : RouteCall :=
  if frame.isStream then .stream host (cfgPath frame.pathPrefix) frame.proxyUrl
  else .proxy host (cfgPath frame.pathPrefix) frame.proxyUrl

/-- `save_mode`. -/
def saveMode (s : ArwsConfig) (host : Bytes) : Bytes :=
  if frame.routeMode host ≠ [] ∧ frame.routeMode host ≠ [42] then frame.routeMode host
  else s.globalMode

/-- What the handler does to the configuration for a host, and what adding the route answers. -/
def configure (s : ArwsConfig) (host : Bytes) : ArwsConfig × Int :=
  if frame.pathPrefix = [] then (s, 0)
  else
    let (s, result) := (frame.routeCall host).apply s
    if arwsConfigHasOverride s host (cfgPath frame.pathPrefix) then (s, result)
    else
      ((arwsConfigAddOverride s host (cfgPath frame.pathPrefix) (frame.saveMode s host)).1, result)

/-- The line that `save_config` writes for the route. -/
def line (host : Bytes) : Bytes :=
  lineOf (frame.routeCall host).declared.recorded (frame.routeCall host).declared.kind

end RegisterFrame

/-- The lines of the file that `save_config` writes. -/
def savedLines (s : ArwsConfig) : List Bytes :=
  guideComments ++ s.settingLines ++ s.overrides.filterMap (·.line?) ++
    s.proxyRoutes.map (·.proxyLine) ++ s.streamRoutes.map (·.streamLine)

theorem saveConfig_eq (s : ArwsConfig) : saveConfig s = unlines 10 (savedLines s) := rfl

/-- The load of a written file, before a line of it is read. -/
def loadedBefore (env : LoadEnv) (s s₀ : ArwsConfig) (i : ℕ) : Loading :=
  arwsConfigLoad env (unlines 10 ((savedLines s).take i)) s₀

namespace RegisterFrame

variable (frame : RegisterFrame)

/-- The frame proxies one host to a url. -/
structure ProxiesOne (host : Bytes) : Prop where
  not_redirect : frame.isRedirect = false
  url : isUrl frame.proxyUrl = true
  hosts : frame.hosts = [host]

/-- **The route of the frame is loaded again**: it is recorded, and wherever its line stands in the file
a route is added that serves the requests that the route of the frame serves. -/
structure Reloads (host : Bytes) (s : ArwsConfig) (env : LoadEnv) (s₀ : ArwsConfig)
    (memory memory' : ArwsRoute) : Prop where
  recorded : (frame.configure s host).2 = 0
  same : ∀ i, (savedLines (frame.configure s host).1)[i]? = some (frame.line host) →
    ∃ r, ((loadedBefore env (frame.configure s host).1 s₀ i).readLine env
          (firstPiece (frame.line host))).registered =
        (loadedBefore env (frame.configure s host).1 s₀ i).registered ++ [r] ∧
      ∀ req effectiveMode, (r.node memory').serves req effectiveMode =
        (frame.node host memory).serves req effectiveMode

/-- The table has a route of the host and the path, or room for one. -/
def HasRouteRoom (s : ArwsConfig) (host : Bytes) : Prop :=
  (∃ e ∈ routesOf s (frame.routeCall host).declared.kind,
      e.host = host ∧ e.path = cfgPath frame.pathPrefix) ∨
    (routesOf s (frame.routeCall host).declared.kind).length < maxOverrides

/-- **What comes back**: every method, a host that fits and has none of the bytes that end a host in a
line, and such a prefix. -/
structure ReadsBack (host : Bytes) : Prop where
  method : frame.method = [42]
  host_le : host.length ≤ 127
  host_without : Without [34, 47] host
  pathPrefix : PrefixReadsBack frame.pathPrefix

end RegisterFrame

/-- The arrays of the routes take 127 bytes. -/
def RoutesSized (s : ArwsConfig) : Prop :=
  ∀ kind, ∀ e ∈ routesOf s kind, e.host.length ≤ 127 ∧ e.path.length ≤ 127

/-! ## The words of a frame -/

section Words

variable {s w rest : Bytes} {width : ℕ}

theorem fits_scanWord (hzero : (0 : UInt8) ∉ s) (h : scanWord width s = some (w, rest)) :
    Fits width w ∧ (0 : UInt8) ∉ rest := by
  have hle := length_scanWord_le h
  rw [scanWord] at h
  split_ifs at h with hne
  obtain ⟨hw, hrest⟩ := Prod.mk.inj (Option.some.inj h)
  have hdrop : s.dropWhile isSpace ⊆ s := (List.dropWhile_suffix _).subset
  refine ⟨⟨⟨hw ▸ hne, fun c hc => ?_⟩, hle⟩, fun hmem => ?_⟩
  · rw [← hw] at hc
    have hc := List.mem_of_mem_take hc
    refine ⟨by simpa using List.mem_takeWhile_imp hc, ?_⟩
    rintro rfl
    exact hzero (hdrop ((List.takeWhile_prefix _).subset hc))
  · rw [← hrest] at hmem
    exact hzero (hdrop (List.mem_of_mem_drop hmem))

/-- The words that `sscanf` has read are words for their fields. -/
theorem fits_scanWords (widths : List ℕ) (hzero : (0 : UInt8) ∉ s) :
    (∀ i < (scanWords widths s).1.length,
        Fits (widths.getD i 0) ((scanWords widths s).1.getD i [])) ∧
      (0 : UInt8) ∉ (scanWords widths s).2 := by
  induction widths generalizing s with
  | nil => exact ⟨fun i hi => absurd hi (Nat.not_lt_zero i), hzero⟩
  | cons width widths ih =>
    rw [scanWords]
    cases hword : scanWord width s with
    | none => exact ⟨fun i hi => absurd hi (Nat.not_lt_zero i), hzero⟩
    | some r =>
      obtain ⟨w, rest⟩ := r
      obtain ⟨hfits, hrest⟩ := fits_scanWord hzero hword
      obtain ⟨hall, hend⟩ := ih hrest
      refine ⟨fun i hi => ?_, hend⟩
      cases i with
      | zero => exact hfits
      | succ i => exact hall i (Nat.lt_of_succ_lt_succ hi)

end Words

/-- A frame with a target has all of its words. -/
structure Scanned (frame : RegisterFrame) : Prop where
  pathPrefix : Fits 255 frame.pathPrefix
  method : Fits 15 frame.method
  host : Fits 255 frame.host
  proxyUrl : Fits 255 frame.proxyUrl

theorem scanned_parseRegister {buf : Bytes} (h : (parseRegister (cstr buf)).proxyUrl ≠ []) :
    Scanned (parseRegister (cstr buf)) := by
  obtain ⟨hfits, hrest⟩ := fits_scanWords [63, 255, 15, 255, 15] (zero_notMem_cstr buf)
  rw [parseRegister] at h ⊢
  generalize scanWords [63, 255, 15, 255, 15] (cstr buf) = scanned at hfits hrest h ⊢
  dsimp only at h ⊢
  by_cases hproxy : scanned.1.length = 5 ∧ ascii "proxy=" <+: scanned.2.dropWhile isSpace
  · rw [if_pos hproxy] at h
    have hzero : (0 : UInt8) ∉ (scanned.2.dropWhile isSpace).drop 6 := fun hmem =>
      hrest ((List.dropWhile_suffix _).subset (List.mem_of_mem_drop hmem))
    refine ⟨hfits 1 (by omega), hfits 2 (by omega), hfits 3 (by omega), ?_⟩
    rw [if_pos hproxy]
    cases hword : scanWord 255 ((scanned.2.dropWhile isSpace).drop 6) with
    | none =>
      rw [hword] at h
      exact absurd rfl h
    | some r => exact (fits_scanWord hzero hword).1
  · rw [if_neg hproxy] at h
    exact absurd rfl h

theorem infix_intercalate {sep part : Bytes} {parts : List Bytes} (h : part ∈ parts) :
    part <:+: sep.intercalate parts := by
  induction parts with
  | nil => cases h
  | cons p parts ih =>
    cases parts with
    | nil =>
      rw [List.mem_singleton.1 h, List.intercalate_singleton]
    | cons q parts =>
      rw [List.intercalate_cons_cons]
      rcases List.mem_cons.1 h with rfl | h
      · exact ((List.prefix_append part sep).trans (List.prefix_append _ _)).isInfix
      · exact (ih h).trans (List.suffix_append _ _).isInfix

/-- A host of the frame is a part of its word. -/
theorem infix_of_mem_hosts {frame : RegisterFrame} {host : Bytes} (h : host ∈ frame.hosts) :
    host <:+: frame.hostList := by
  rw [RegisterFrame.hosts, List.mem_filter, List.mem_map] at h
  obtain ⟨⟨part, hpart, rfl⟩, -⟩ := h
  have hwhole : part <:+: frame.hostList := by
    have hmem : part ∈ frame.hostList.splitOn 44 := List.mem_of_mem_filter hpart
    have := @infix_intercalate [44] part _ hmem
    rwa [List.intercalate_splitOn] at this
  have hback : ∀ t : Bytes, (t.reverse.dropWhile RegisterFrame.isBlank).reverse <+: t := by
    intro t
    have := List.reverse_prefix.2 (List.dropWhile_suffix (l := t.reverse) RegisterFrame.isBlank)
    rwa [List.reverse_reverse] at this
  exact ((hback _).isInfix.trans (List.dropWhile_suffix _).isInfix).trans hwhole

/-- A host has the bytes of a word, and no more than fit the word. -/
theorem Scanned.host_of_mem {frame : RegisterFrame} (h : Scanned frame) {host : Bytes}
    (hhost : host ∈ frame.hosts) : (∀ c ∈ host, isSpace c = false ∧ c ≠ 0) ∧ host.length ≤ 255 := by
  have hpart := infix_of_mem_hosts hhost
  rw [RegisterFrame.hostList, if_neg h.host.ne] at hpart
  exact ⟨fun c hc => h.host.plain c (hpart.subset hc), hpart.length_le.trans h.host.length_le⟩

/-- A text of the bytes of words has neither a terminator nor a line end. -/
theorem without_of_plain {t : Bytes} (h : ∀ c ∈ t, isSpace c = false ∧ c ≠ 0) :
    Without [0, 10] t := by
  intro c hc hmem
  rcases List.mem_cons.1 hc with rfl | hc
  · exact (h 0 hmem).2 rfl
  · rw [List.mem_singleton.1 hc] at hmem
    exact absurd (h 10 hmem).1 (by decide)

/-! ## What a route serves -/

section Serves

variable {route route' : ArwsRoute}

/-- A route with a target serves whatever the mode is. -/
theorem serves_of_target (h : route.proxyTarget.text ≠ []) (req : Server.HttpRequest)
    (effectiveMode : Bytes) : route.serves req effectiveMode =
      ((route.method.text == req.method || route.method.text == [42]) &&
        hostMatches route.host.text req.host && pathMatches route.pathPrefix.text req.path) := by
  have htarget : (route.proxyTarget.text != []) = true := bne_iff_ne.2 h
  rw [ArwsRoute.serves, htarget, Bool.or_true, Bool.true_or, Bool.true_or, Bool.and_true]

/-- A request without headers. -/
def plainRequest (method host path : Bytes) : Server.HttpRequest :=
  ⟨method, path, none, [], [], host, [], 0⟩

/-- **A route of every method serves what another one serves** only if that is one of every method, and
the hosts and the prefixes match the same. -/
theorem ext_of_serves_eq (htarget : route.proxyTarget.text ≠ []) (hmethod : route'.method.text = [42])
    (h : ∀ req effectiveMode, route'.serves req effectiveMode = route.serves req effectiveMode) :
    route.method.text = [42] ∧
      (∀ host, hostMatches route'.host.text host = hostMatches route.host.text host) ∧
      ∀ path, pathMatches route'.pathPrefix.text path = pathMatches route.pathPrefix.text path := by
  have hone : route.serves (plainRequest route.method.text route.host.text (stem route.pathPrefix.text)) [] =
      true := by
    rw [serves_of_target htarget]
    simp [plainRequest, hostMatches_self, pathMatches_stem]
  have hone' := (h _ _).trans hone
  simp only [ArwsRoute.serves, plainRequest, Bool.and_eq_true] at hone'
  obtain ⟨⟨⟨-, hhost⟩, hpath⟩, hmode⟩ := hone'
  -- what is left of the two routes
  have hrest : ∀ method host path,
      (hostMatches route'.host.text host && pathMatches route'.pathPrefix.text path) =
        ((route.method.text == method || route.method.text == [42]) &&
          hostMatches route.host.text host && pathMatches route.pathPrefix.text path) := by
    intro method host path
    have := h (plainRequest method host path) []
    rw [serves_of_target htarget, ArwsRoute.serves, hmode, hmethod] at this
    simpa [plainRequest] using this
  have hall : route.method.text = [42] := by
    have := hrest (route.method.text ++ [0]) route.host.text (stem route.pathPrefix.text)
    rw [hhost, hpath] at this
    simpa [hostMatches_self, pathMatches_stem] using this.symm
  refine ⟨hall, fun host => ?_, fun path => ?_⟩
  · have := hrest [] host (stem route.pathPrefix.text)
    rw [hpath, hall, pathMatches_stem] at this
    simpa using this
  · have := hrest [] route.host.text path
    rw [hhost, hall, hostMatches_self] at this
    simpa using this

theorem serves_eq_of_ext (htarget : route.proxyTarget.text ≠ []) (htarget' : route'.proxyTarget.text ≠ [])
    (hmethod : route.method.text = [42]) (hmethod' : route'.method.text = [42])
    (hhost : ∀ host, hostMatches route'.host.text host = hostMatches route.host.text host)
    (hpath : ∀ path, pathMatches route'.pathPrefix.text path = pathMatches route.pathPrefix.text path)
    (req : Server.HttpRequest) (effectiveMode : Bytes) :
    route'.serves req effectiveMode = route.serves req effectiveMode := by
  rw [serves_of_target htarget, serves_of_target htarget', hmethod, hmethod', hhost, hpath]

end Serves

/-! ## The fields of a route -/

section Node

variable (r : Registration) (m : ArwsRoute)

theorem text_method_node : (r.node m).method.text = [42] := by
  have htext : (m.method.strncpy [42]).text = [42] :=
    CharArray.text_strncpy _ (by decide) (by decide)
  obtain ⟨kind, path, host, mode, target⟩ := r
  cases kind <;> exact htext

theorem host_node : (r.node m).host = (m.host.put 0 0).strncpy r.host := by
  obtain ⟨kind, path, host, mode, target⟩ := r
  cases kind <;> rfl

theorem pathPrefix_node : (r.node m).pathPrefix = m.pathPrefix.strncpy (normalizedPrefix r.path) := by
  obtain ⟨kind, path, host, mode, target⟩ := r
  cases kind <;> rfl

theorem proxyTarget_node (h : r.kind ≠ .redirect) :
    (r.node m).proxyTarget = m.proxyTarget.strncpy r.target := by
  obtain ⟨kind, path, host, mode, target⟩ := r
  cases kind with
  | redirect => exact absurd rfl h
  | proxy => rfl
  | stream => rfl

end Node

/-! ## The line is read -/

/-- The key of a line ends at the first quote. -/
theorem key_isPrefix {line key val : Bytes} (h : parseLine (34 :: line) = .keyed key val) :
    (34 : UInt8) ∉ key ∧ key ++ [34] <+: line := by
  have hcstr : cstr (34 :: line) = [34] ++ cstr line := by simp [cstr]
  have htrim : trim (cstr (34 :: line)) = 34 :: (cstr line).rdropWhile isEndBlank := by
    rw [hcstr, trim_append (by decide) (by decide)]
    rfl
  have hsub : (cstr line).rdropWhile isEndBlank <+: line :=
    (List.rdropWhile_prefix _ _).trans (cstr_isPrefix line)
  rw [parseLine, htrim] at h
  split at h
  · cases h
  · rename_i rest heq
    obtain ⟨-, rfl⟩ := List.cons.inj heq
    cases hclose : strchr 34 ((cstr line).rdropWhile isEndBlank) with
    | none =>
      rw [hclose] at h
      cases h
    | some close =>
      rw [hclose] at h
      dsimp only at h
      obtain ⟨hsplit, hnotMem⟩ := strchr_eq_some hclose
      split at h
      · cases h
      · obtain ⟨rfl, -⟩ := ConfigLine.keyed.inj h
        refine ⟨hnotMem, List.IsPrefix.trans ?_ hsub⟩
        conv_rhs => rw [hsplit]
        rw [List.prefix_append_right_inj]
        exact ⟨_, rfl⟩
  · rename_i c rest hc heq
    exact absurd (List.cons.inj heq).1.symm hc

/-- A byte that ends a text, and the same byte behind another text that goes on in the same way. -/
theorem isPrefix_of_end {c : UInt8} {a b t : Bytes} (ha : c ∉ a) (hat : a ++ [c] <+: t)
    (hbt : b ++ [c] <+: t) : a ++ [c] <+: b ++ [c] := by
  refine List.prefix_of_prefix_length_le hat hbt (Nat.le_of_not_lt fun hlt => ?_)
  have hba := List.prefix_of_prefix_length_le hbt ((List.prefix_append a [c]).trans hat)
    (by rw [List.length_append, List.length_append, List.length_singleton] at *; omega)
  exact ha (hba.subset (List.mem_append_right _ (List.mem_singleton_self c)))

theorem length_writtenPath_le_of {path : Bytes} (h : path.length ≤ 127) :
    (writtenPath path).length ≤ 127 := by
  rw [writtenPath]
  split
  · decide
  · exact (List.dropWhile_suffix _).length_le.trans h

/-- **The key that is read** of the line of a host and a path, whatever is in them. -/
theorem key_of_keyedLine {host path val key val' : Bytes} (hhost : host.length ≤ 127)
    (hpath : path.length ≤ 127)
    (h : parseLine (firstPiece (keyedLine host path val)) = .keyed key val') :
    (34 : UInt8) ∉ key ∧ key ++ [34] <+: host ++ 47 :: writtenPath path ++ [34] := by
  have hlen := length_writtenPath_le_of hpath
  have hsplit : keyedLine host path val =
      (34 :: (host ++ 47 :: writtenPath path) ++ [34]) ++ (ascii " = " ++ val) := by
    simp [keyedLine, ascii]
  have hkey : (34 :: (host ++ 47 :: writtenPath path) ++ [34]).length ≤ 511 := by
    simp only [List.length_append, List.length_cons, List.length_nil]
    omega
  rw [hsplit, firstPiece_append hkey] at h
  obtain ⟨hquote, hprefix⟩ := key_isPrefix h
  exact ⟨hquote, isPrefix_of_end hquote hprefix (List.prefix_append _ _)⟩

/-- The host and the path that are read. -/
theorem parts_of_key {host host' path path' : Bytes} (hslash : (47 : UInt8) ∉ host')
    (h : (host' ++ 47 :: path') ++ [34] <+: host ++ 47 :: path ++ [34]) :
    host' <+: host ∧ (host' = host → path' ++ [34] <+: path ++ [34]) ∧
      (host' = [] → host ≠ [] → host.head? = some 47) := by
  have hsplit : ∀ a b : Bytes, a ++ 47 :: b ++ [34] = a ++ [47] ++ (b ++ [34]) := by simp
  refine ⟨?_, ?_, ?_⟩
  · have hone : host' ++ [47] <+: host ++ 47 :: path ++ [34] := by
      refine List.IsPrefix.trans ?_ h
      rw [hsplit]
      exact List.prefix_append _ _
    have hhost : host ++ [47] <+: host ++ 47 :: path ++ [34] := by
      rw [hsplit]
      exact List.prefix_append _ _
    have := isPrefix_of_end hslash hone hhost
    refine List.prefix_of_prefix_length_le ((List.prefix_append _ _).trans this)
      (List.prefix_append host [47]) ?_
    have := this.length_le
    rw [List.length_append, List.length_append] at this
    exact Nat.le_of_succ_le_succ this
  · rintro rfl
    rwa [hsplit, hsplit, List.prefix_append_right_inj] at h
  · rintro rfl hne
    obtain ⟨c, host, rfl⟩ := List.exists_cons_of_ne_nil hne
    have hc : 47 = c := (List.cons_prefix_cons.1 h).1
    rw [← hc, List.head?_cons]

/-- **The line of a route is read as a route** of its host and its path, even when its target does not
fit the buffer. -/
theorem readLine_lineOf {e : ProxyRouteEntry} {kind : RouteKind} (hkind : kind ≠ .redirect)
    (hkey : StoredKey e.host e.path) (hurl : isUrl e.targetUrl = true)
    (hzero : (0 : UInt8) ∉ e.targetUrl) (env : LoadEnv) {st : Loading}
    (hroom : st.config.overrides.length < maxOverrides) :
    ∃ target, isUrl target = true ∧ st.readLine env (firstPiece (lineOf e kind)) =
      st.addRoute kind e.host (writtenPath e.path) target := by
  have hlen := keyLength_le hkey
  have hslash := hkey.host_without 47 (by simp)
  have hcut : ∀ k, 8 ≤ k → isUrl ((e.targetUrl ++ [10]).take k) = true := fun k hk =>
    isUrl_take (isUrl_append hurl _) hk
  cases kind with
  | redirect => exact absurd rfl hkind
  | proxy =>
    have hline : lineOf e .proxy = keyedLine e.host e.path e.targetUrl := rfl
    have hread := hcut (511 - keyLength e.host e.path) (by omega)
    rw [hline, Loading.readLine, parseLine_keyedLine hkey hzero, Loading.read,
      readKeyed_slash env hslash _ _ hroom, targetOf_proxy hread, if_pos (trim_of_isUrl hread).1]
    exact ⟨_, (trim_of_isUrl hread).1, rfl⟩
  | stream =>
    have hline : lineOf e .stream = keyedLine e.host e.path (ascii "stream " ++ e.targetUrl) := rfl
    have hval : (0 : UInt8) ∉ ascii "stream " ++ e.targetUrl := by
      rw [List.mem_append, not_or]
      exact ⟨by decide, hzero⟩
    have hword : (ascii "stream ").length = 7 := rfl
    have hread := hcut (511 - keyLength e.host e.path - 7) (by omega)
    have htake : (ascii "stream " ++ e.targetUrl ++ [10]).take (511 - keyLength e.host e.path) =
        ascii "stream " ++ (e.targetUrl ++ [10]).take (511 - keyLength e.host e.path - 7) := by
      rw [List.append_assoc, List.take_append, List.take_of_length_le (by omega), hword]
    rw [hline, Loading.readLine, parseLine_keyedLine hkey hval, Loading.read,
      readKeyed_slash env hslash _ _ hroom, htake, targetOf_stream hread,
      if_pos (trim_of_isUrl hread).1]
    exact ⟨_, (trim_of_isUrl hread).1, rfl⟩

/-- What a line that adds a route has been read as. -/
theorem exists_of_registered {env : LoadEnv} {st : Loading} {line : Bytes} {r : Registration}
    (h : (st.readLine env line).registered = st.registered ++ [r]) :
    ∃ host path val, parseLine line = .keyed (host ++ 47 :: path) val ∧ (47 : UInt8) ∉ host ∧
      st.config.overrides.length < maxOverrides ∧ r.host = host ∧ r.path = path := by
  have hnone : st.registered ≠ st.registered ++ [r] := by simp
  have heffect := lineEffect_readLine env st line
  generalize st.readLine env line = st' at heffect h
  cases heffect with
  | nothing => exact absurd h hnone
  | setting name value hline => exact absurd h hnone
  | override host path val hline hhost hroom hurl => exact absurd h hnone
  | route host path val hline hhost hroom hurl =>
    rw [addRoute_registered] at h
    have hr := List.append_cancel_left h
    rw [List.cons.injEq] at hr
    refine ⟨host, path, val, hline, hhost, hroom, ?_, ?_⟩
    · rw [← hr.1]
    · rw [← hr.1]

/-! ## The line of a frame -/

section Frame

variable {frame : RegisterFrame} {host : Bytes}

theorem declared_routeCall (frame : RegisterFrame) (host : Bytes) :
    (frame.routeCall host).declared.recorded =
        ⟨host.take 127, (cfgPath frame.pathPrefix).take 127, frame.proxyUrl.take 255⟩ ∧
      (frame.routeCall host).declared.kind ≠ .redirect := by
  rw [RegisterFrame.routeCall]
  split
  · exact ⟨rfl, RouteKind.noConfusion⟩
  · exact ⟨rfl, RouteKind.noConfusion⟩

theorem exists_keyedLine (frame : RegisterFrame) (host : Bytes) : ∃ val, frame.line host =
    keyedLine (host.take 127) ((cfgPath frame.pathPrefix).take 127) val := by
  rw [RegisterFrame.line, RegisterFrame.routeCall]
  split
  · exact ⟨_, rfl⟩
  · exact ⟨_, rfl⟩

/-- A path without a slash at its front is written as it is. -/
theorem writtenPath_cfgPath (pathPrefix : Bytes) :
    writtenPath ((cfgPath pathPrefix).take 127) = (writtenPath pathPrefix).take 127 := by
  rw [cfgPath_eq]
  exact writtenPath_of_head take_writtenPath.1 take_writtenPath.2

theorem normalizedPrefix_facts {p : Bytes} (hzero : (0 : UInt8) ∉ p) (hlen : p.length ≤ 255) :
    (0 : UInt8) ∉ normalizedPrefix p ∧ (normalizedPrefix p).length ≤ 255 := by
  refine ⟨fun h => hzero (mem_of_mem_normalizedPrefix (by decide) (by decide) h), ?_⟩
  rw [normalizedPrefix]
  split_ifs
  · decide
  · exact hlen
  · exact List.length_take_le _ _

theorem target_node (h : frame.ProxiesOne host) (memory : ArwsRoute) :
    (frame.node host memory).proxyTarget.text ≠ [] := text_strncpy_url h.url

/-- A host that is cut short, while the whole host stands at the front of a field, has lost nothing if
the two match the same. -/
theorem host_eq_of_ext {host' text : Bytes} (hne : host ≠ []) (hcut : host' <+: host)
    (hnil : host' = [] → host ≠ [42]) (hbegins : host <+: text)
    (h : ∀ x, hostMatches host' x = hostMatches text x) : host' = host := by
  by_cases h42 : host = [42]
  · subst h42
    exact hcut.eq_of_length_le (List.length_pos_iff.2 fun hnone => hnil hnone rfl)
  · have hstar : text ≠ [42] := by
      rintro rfl
      exact h42 (hbegins.eq_of_length_le (List.length_pos_iff.2 hne))
    have htext := eq_of_hostMatches_ext (hcut.trans hbegins) hstar h
    refine hcut.eq_of_length_le ?_
    rw [htext]
    exact hbegins.length_le

/-- The path that is read back has room in the field. -/
theorem text_normalizedPrefix_of_cut (hscan : Scanned frame) {path' : Bytes}
    (hpath : path' ++ [34] <+: (writtenPath frame.pathPrefix).take 127 ++ [34]) (a : CharArray 256) :
    (a.strncpy (normalizedPrefix path')).text = normalizedPrefix path' := by
  have hlen := length_le_of_cut hpath
  have hzero : (0 : UInt8) ∉ path' := by
    intro hmem
    have hmem := hpath.subset (List.mem_append_left [34] hmem)
    rcases List.mem_append.1 hmem with hmem | hmem
    · have hmem := writtenPath_subset _ (List.mem_of_mem_take hmem)
      exact without_of_plain hscan.pathPrefix.plain 0 (by simp)
        ((List.mem_cons.1 hmem).resolve_left (by decide))
    · exact absurd (List.mem_singleton.1 hmem) (by decide)
  have hnorm := length_normalizedPrefix_le path'
  exact CharArray.text_strncpy _ (normalizedPrefix_facts hzero (by omega)).1 (by omega)

/-- A field for a prefix, read as it is when it matches the same as a short prefix. -/
theorem prefixReadsBack_of_text (hscan : Scanned frame) {path' : Bytes} (a : CharArray 256)
    (hpath : path' ++ [34] <+: (writtenPath frame.pathPrefix).take 127 ++ [34])
    (hquote : (34 : UInt8) ∉ path')
    (h : ∀ x, pathMatches (normalizedPrefix path') x =
      pathMatches (a.strncpy (normalizedPrefix frame.pathPrefix)).text x) :
    PrefixReadsBack frame.pathPrefix := by
  have hlen := length_le_of_cut hpath
  obtain ⟨hzero, hnlen⟩ := normalizedPrefix_facts
    (without_of_plain hscan.pathPrefix.plain 0 (by simp)) hscan.pathPrefix.length_le
  obtain ⟨-, hshort⟩ := CharArray.text_strncpy_cases a hzero hnlen
  have hle := length_le_of_ext h
  rw [hshort (by omega)] at h
  exact prefixReadsBack_of_ext hscan.pathPrefix.ne hscan.pathPrefix.length_le hpath hquote h

/-- **A frame whose route is loaded again is one that comes back**, and there is room at its line. -/
theorem readsBack_of_same (hscan : Scanned frame) (hone : frame.ProxiesOne host) {env : LoadEnv}
    {st : Loading} {r : Registration} {memory memory' : ArwsRoute}
    (hr : (st.readLine env (firstPiece (frame.line host))).registered = st.registered ++ [r])
    (hsame : ∀ req effectiveMode, (r.node memory').serves req effectiveMode =
      (frame.node host memory).serves req effectiveMode) :
    frame.ReadsBack host ∧ st.config.overrides.length < maxOverrides := by
  have hmem : host ∈ frame.hosts := hone.hosts ▸ List.mem_singleton_self host
  obtain ⟨hplain, hlen⟩ := hscan.host_of_mem hmem
  have hne : host ≠ [] := by
    rw [RegisterFrame.hosts, List.mem_filter] at hmem
    simpa using hmem.2
  have hzero : (0 : UInt8) ∉ host := without_of_plain hplain 0 (by simp)
  -- what the line has been read as
  obtain ⟨host', path', val', hline, hslash, hroom, rfl, rfl⟩ := exists_of_registered hr
  obtain ⟨val, hval⟩ := exists_keyedLine frame host
  rw [hval] at hline
  obtain ⟨hquote, hkey⟩ := key_of_keyedLine (List.length_take_le _ _) (List.length_take_le _ _) hline
  rw [writtenPath_cfgPath] at hkey
  obtain ⟨hcut, hpath, hnil⟩ := parts_of_key hslash hkey
  obtain ⟨hmethod, hhosts, hpaths⟩ :=
    ext_of_serves_eq (target_node hone memory) (text_method_node r memory') hsame
  -- the method
  obtain ⟨-, hmshort⟩ := CharArray.text_strncpy_cases memory.method
    (without_of_plain hscan.method.plain 0 (by simp)) hscan.method.length_le
  have hstar : frame.method = [42] := by
    rw [← hmshort (show (frame.node host memory).method.text.length < 15 by rw [hmethod]; decide)]
    exact hmethod
  -- the host
  have hlen' : r.host.length ≤ 127 := hcut.length_le.trans (List.length_take_le _ _)
  have htext' : (r.node memory').host.text = r.host := by
    rw [host_node]
    refine CharArray.text_strncpy _ (fun h => hzero ?_) (by omega)
    exact List.mem_of_mem_take (hcut.subset h)
  rw [htext'] at hhosts
  have hhost : r.host = host := by
    refine host_eq_of_ext hne (hcut.trans (List.take_prefix _ _)) (fun hnone h42 => ?_)
      (CharArray.text_strncpy_cases (memory.host.put 0 0) hzero hlen).1 hhosts
    rw [h42] at hnil
    exact absurd (hnil hnone (by decide)) (by decide)
  rw [hhost] at hlen' hslash hquote
  have hwithout : Without [34, 47] host := by
    intro c hc
    rcases List.mem_cons.1 hc with rfl | hc
    · exact fun hmem => hquote (List.mem_append_left _ hmem)
    · rwa [List.mem_singleton.1 hc]
  -- the path
  have hpath := hpath (by rw [hhost, List.take_of_length_le hlen'])
  have hquote' : (34 : UInt8) ∉ r.path := fun hmem =>
    hquote (List.mem_append_right _ (List.mem_cons_of_mem _ hmem))
  have hptext' : (r.node memory').pathPrefix.text = normalizedPrefix r.path := by
    rw [pathPrefix_node]
    exact text_normalizedPrefix_of_cut hscan hpath _
  rw [hptext'] at hpaths
  exact ⟨⟨hstar, hlen', hwithout, prefixReadsBack_of_text hscan _ hpath hquote' hpaths⟩, hroom⟩

/-- **A frame that comes back is loaded again** where there is room. -/
theorem same_of_readsBack (hscan : Scanned frame) (hone : frame.ProxiesOne host)
    (h : frame.ReadsBack host) (env : LoadEnv) {st : Loading}
    (hroom : st.config.overrides.length < maxOverrides) (memory memory' : ArwsRoute) :
    ∃ r, (st.readLine env (firstPiece (frame.line host))).registered = st.registered ++ [r] ∧
      ∀ req effectiveMode, (r.node memory').serves req effectiveMode =
        (frame.node host memory).serves req effectiveMode := by
  obtain ⟨hplain, -⟩ := hscan.host_of_mem (hone.hosts ▸ List.mem_singleton_self host)
  have hhost := without_of_plain hplain
  have hzero : (0 : UInt8) ∉ host := hhost 0 (by simp)
  have hp := without_of_plain hscan.pathPrefix.plain
  have hpzero : (0 : UInt8) ∉ frame.pathPrefix := hp 0 (by simp)
  have hlen := h.host_le
  have htake : host.take 127 = host := List.take_of_length_le hlen
  obtain ⟨hentry, hkind⟩ := declared_routeCall frame host
  have hpath : ∀ c ∈ [(0 : UInt8), 10, 34], c ∉ (writtenPath frame.pathPrefix).take 127 := by
    intro c hc hmem
    have hmem := writtenPath_subset _ (List.mem_of_mem_take hmem)
    simp only [List.mem_cons, List.not_mem_nil, or_false] at hc
    rcases hc with rfl | rfl | rfl
    · exact hpzero ((List.mem_cons.1 hmem).resolve_left (by decide))
    · exact hp 10 (by simp) ((List.mem_cons.1 hmem).resolve_left (by decide))
    · exact h.pathPrefix.quote_notMem ((List.mem_cons.1 hmem).resolve_left (by decide))
  have hkey : StoredKey host ((cfgPath frame.pathPrefix).take 127) := by
    refine ⟨fun c hc => ?_, ?_, hlen, List.length_take_le _ _⟩
    · simp only [List.mem_cons, List.not_mem_nil, or_false] at hc
      rcases hc with rfl | rfl | rfl | rfl
      · exact hzero
      · exact hhost 10 (by simp)
      · exact h.host_without 34 (by simp)
      · exact h.host_without 47 (by simp)
    · rw [cfgPath_eq]
      exact hpath
  have huzero : (0 : UInt8) ∉ frame.proxyUrl.take 255 := fun hmem =>
    without_of_plain hscan.proxyUrl.plain 0 (by simp) (List.mem_of_mem_take hmem)
  obtain ⟨target, hurl, hread⟩ := readLine_lineOf
    (e := ⟨host, (cfgPath frame.pathPrefix).take 127, frame.proxyUrl.take 255⟩) hkind hkey
    (isUrl_take hone.url (by decide)) huzero env hroom
  have hline : frame.line host = lineOf
      ⟨host, (cfgPath frame.pathPrefix).take 127, frame.proxyUrl.take 255⟩
      (frame.routeCall host).declared.kind := by
    rw [RegisterFrame.line, hentry, htake]
  refine ⟨_, by rw [hline, hread, addRoute_registered], ?_⟩
  have hmethod : (frame.node host memory).method.text = [42] := by
    have : (memory.method.strncpy frame.method).text = frame.method := by
      rw [h.method]
      exact CharArray.text_strncpy _ (by decide) (by decide)
    exact this.trans h.method
  have hhosts : ∀ a : CharArray 256, (a.strncpy host).text = host := fun a =>
    CharArray.text_strncpy a hzero (by omega)
  have hback := h.pathPrefix.pathMatches_eq hscan.pathPrefix.length_le
  obtain ⟨hnzero, -⟩ := normalizedPrefix_facts hpzero hscan.pathPrefix.length_le
  have hshort := length_le_of_ext hback
  have hcut := List.length_take_le 127 (writtenPath frame.pathPrefix)
  have hptext : (frame.node host memory).pathPrefix.text = normalizedPrefix frame.pathPrefix :=
    CharArray.text_strncpy _ hnzero (by omega)
  refine serves_eq_of_ext (target_node hone memory) ?_ hmethod (text_method_node _ _) ?_ ?_
  · rw [proxyTarget_node _ _ hkind]
    exact text_strncpy_url hurl
  · intro x
    rw [host_node, hhosts, show (frame.node host memory).host.text = host from hhosts _]
  · intro x
    rw [pathPrefix_node, hptext, writtenPath_cfgPath,
      text_normalizedPrefix_of_cut hscan (List.prefix_refl _)]
    exact hback x

/-! ## The tables and the file -/

theorem apply_snd (s : ArwsConfig) : ((frame.routeCall host).apply s).2 =
    (addEntry (routesOf s (frame.routeCall host).declared.kind) host (cfgPath frame.pathPrefix)
      frame.proxyUrl).2 := by
  rw [RegisterFrame.routeCall]
  split
  · rfl
  · rfl

theorem hasRouteRoom_iff (s : ArwsConfig) :
    ((frame.routeCall host).apply s).2 = 0 ↔ frame.HasRouteRoom s host := by
  rw [RegisterFrame.HasRouteRoom, apply_snd]
  generalize routesOf s (frame.routeCall host).declared.kind = routes
  rw [addEntry]
  cases hidx : routes.findIdx? fun r => r.host == host && r.path == cfgPath frame.pathPrefix with
  | none =>
    have hnone : ¬ ∃ e ∈ routes, e.host = host ∧ e.path = cfgPath frame.pathPrefix := by
      rintro ⟨e, he, hh, hp⟩
      have := List.findIdx?_eq_none_iff.1 hidx e he
      rw [hh, hp] at this
      simp at this
    rw [or_iff_right hnone]
    dsimp only
    split
    · exact iff_of_false (show (-1 : Int) ≠ 0 by decide) (by omega)
    · exact iff_of_true rfl (by omega)
  | some i =>
    obtain ⟨hlt, hpair, -⟩ := List.findIdx?_eq_some_iff_getElem.1 hidx
    rw [Bool.and_eq_true, beq_iff_eq, beq_iff_eq] at hpair
    exact iff_of_true rfl (Or.inl ⟨_, List.getElem_mem hlt, hpair⟩)

/-- An override leaves the routes alone. -/
theorem routesOf_addOverride (s : ArwsConfig) (host path mode : Bytes) (kind : RouteKind) :
    routesOf (arwsConfigAddOverride s host path mode).1 kind = routesOf s kind := by
  rw [arwsConfigAddOverride]
  cases overrideIdx s.overrides host path with
  | some i => cases kind <;> rfl
  | none =>
    dsimp only
    split
    · rfl
    · cases kind <;> rfl

theorem configure_snd (hne : frame.pathPrefix ≠ []) (s : ArwsConfig) :
    (frame.configure s host).2 = ((frame.routeCall host).apply s).2 := by
  rw [RegisterFrame.configure, if_neg hne]
  dsimp only
  split
  · rfl
  · rfl

theorem routesOf_configure (hne : frame.pathPrefix ≠ []) (s : ArwsConfig) (kind : RouteKind) :
    routesOf (frame.configure s host).1 kind = routesOf ((frame.routeCall host).apply s).1 kind := by
  rw [RegisterFrame.configure, if_neg hne]
  dsimp only
  split
  · rfl
  · exact routesOf_addOverride _ _ _ _ _

/-- What adding a route does to its table: the target of an entry is written, or there is one more. -/
theorem mem_addEntry {routes : List ProxyRouteEntry} {host path target : Bytes} {e : ProxyRouteEntry}
    (h : e ∈ (addEntry routes host path target).1) :
    (∃ e' ∈ routes, e.host = e'.host ∧ e.path = e'.path) ∨
      e = ⟨host.take 127, path.take 127, target.take 255⟩ := by
  rw [addEntry] at h
  cases hidx : routes.findIdx? fun r => r.host == host && r.path == path with
  | none =>
    rw [hidx] at h
    dsimp only at h
    split at h
    · exact Or.inl ⟨e, h, rfl, rfl⟩
    · rcases List.mem_append.1 h with h | h
      · exact Or.inl ⟨e, h, rfl, rfl⟩
      · exact Or.inr (List.mem_singleton.1 h)
  | some i =>
    rw [hidx] at h
    obtain ⟨j, hj, rfl⟩ := List.mem_iff_getElem.1 h
    rw [List.length_modify] at hj
    refine Or.inl ⟨_, List.getElem_mem hj, ?_⟩
    rw [List.getElem_modify]
    split
    · exact ⟨rfl, rfl⟩
    · exact ⟨rfl, rfl⟩

/-- The route that is recorded is in the table. -/
theorem entry_mem_addEntry {routes : List ProxyRouteEntry} {host path target : Bytes}
    (hsized : ∀ e ∈ routes, e.host.length ≤ 127 ∧ e.path.length ≤ 127)
    (h : (addEntry routes host path target).2 = 0) :
    (⟨host.take 127, path.take 127, target.take 255⟩ : ProxyRouteEntry) ∈
      (addEntry routes host path target).1 := by
  rw [addEntry] at h ⊢
  cases hidx : routes.findIdx? fun r => r.host == host && r.path == path with
  | none =>
    rw [hidx] at h
    dsimp only at h ⊢
    split at h
    · cases h
    · rename_i hroom
      rw [if_neg hroom]
      exact List.mem_append_right _ (List.mem_singleton_self _)
  | some i =>
    obtain ⟨hlt, hpair, -⟩ := List.findIdx?_eq_some_iff_getElem.1 hidx
    rw [Bool.and_eq_true, beq_iff_eq, beq_iff_eq] at hpair
    obtain ⟨hh, hp⟩ := hsized _ (List.getElem_mem hlt)
    rw [hpair.1] at hh
    rw [hpair.2] at hp
    refine List.mem_iff_getElem.2 ⟨i, by rwa [List.length_modify], ?_⟩
    rw [List.getElem_modify_eq, List.take_of_length_le hh, List.take_of_length_le hp, ← hpair.1,
      ← hpair.2]

theorem routesOf_apply (s : ArwsConfig) (kind : RouteKind) :
    routesOf ((frame.routeCall host).apply s).1 kind =
      if kind = (frame.routeCall host).declared.kind then
        (addEntry (routesOf s kind) host (cfgPath frame.pathPrefix) frame.proxyUrl).1
      else routesOf s kind := by
  rw [RegisterFrame.routeCall]
  split
  · cases kind <;> rfl
  · cases kind <;> rfl

/-- **The routes stay as long as their arrays** over the frames, -/
theorem RoutesSized.configure {s : ArwsConfig} (h : RoutesSized s) (hne : frame.pathPrefix ≠ []) :
    RoutesSized (frame.configure s host).1 := by
  intro kind e he
  rw [routesOf_configure hne, routesOf_apply] at he
  split at he
  · rcases mem_addEntry he with ⟨e', he', hh, hp⟩ | rfl
    · rw [hh, hp]
      exact h kind e' he'
    · exact ⟨List.length_take_le _ _, List.length_take_le _ _⟩
  · exact h kind e he

/-- and are so when a file has been loaded. -/
theorem routesSized_load (env : LoadEnv) (file : Bytes) (s₀ : ArwsConfig) :
    RoutesSized (arwsConfigLoad env file s₀).config := by
  have h := stored_load env file s₀
  intro kind e he
  cases kind with
  | proxy => exact ⟨(h.proxyRoutes e he).key.host_le, (h.proxyRoutes e he).key.path_le⟩
  | stream => exact ⟨(h.streamRoutes e he).key.host_le, (h.streamRoutes e he).key.path_le⟩
  | redirect => cases he

theorem line_mem_savedLines {s : ArwsConfig} {kind : RouteKind} {e : ProxyRouteEntry}
    (h : e ∈ routesOf s kind) : lineOf e kind ∈ savedLines s := by
  rw [savedLines, List.mem_append, List.mem_append]
  cases kind with
  | proxy => exact Or.inl (Or.inr (List.mem_map_of_mem h))
  | stream => exact Or.inr (List.mem_map_of_mem h)
  | redirect => cases h

/-- **A route that is recorded has a line in the file.** -/
theorem line_mem_of_recorded {s : ArwsConfig} (hs : RoutesSized s) (hne : frame.pathPrefix ≠ [])
    (h : (frame.configure s host).2 = 0) :
    frame.line host ∈ savedLines (frame.configure s host).1 := by
  obtain ⟨hentry, -⟩ := declared_routeCall frame host
  rw [RegisterFrame.line, hentry]
  refine line_mem_savedLines ?_
  rw [routesOf_configure hne, routesOf_apply, if_pos rfl]
  refine entry_mem_addEntry (hs _) ?_
  rwa [configure_snd hne, apply_snd] at h

/-- The load of a written file **reads the line** between what is before it and what is left of it. -/
theorem load_take_succ (env : LoadEnv) (s s₀ : ArwsConfig) {i : ℕ} {line : Bytes}
    (hline : (savedLines s)[i]? = some line) (hlf : (10 : UInt8) ∉ line) :
    loadedBefore env s s₀ (i + 1) =
      ((loadedBefore env s s₀ i).readLine env (firstPiece line)).readLines env
        (fgetsLines ((line ++ [10]).drop 511)) := by
  have htake : (savedLines s).take (i + 1) = (savedLines s).take i ++ [line] := by
    rw [List.take_add_one, hline]
    rfl
  have hsplit : fgetsLines (line ++ [10]) =
      firstPiece line :: fgetsLines ((line ++ [10]).drop 511) := pieces_line hlf
  rw [loadedBefore, loadedBefore, arwsConfigLoad, arwsConfigLoad, htake, fgetsLines_unlines,
    List.flatMap_append, List.flatMap_singleton, readLines_append, ← fgetsLines_unlines, hsplit,
    readLines_cons]

/-- **What a frame for one host adds to the router.** -/
theorem routes_addRoutes (hone : frame.ProxiesOne host) (backendId : Int)
    (memory : ℕ → Option ArwsRoute) (table : RouteTable) :
    (frame.addRoutes backendId memory table).routes.Perm
      (((memory 0).map (frame.node host)).toList ++ table.routes) := by
  have hurl : frame.proxyUrl ≠ [] := by
    intro hnil
    have := hone.url
    rw [hnil] at this
    cases this
  have hhosts : frame.routeHosts backendId = [host] := by
    rw [RegisterFrame.routeHosts, hone.not_redirect, if_neg Bool.false_ne_true, if_pos (Or.inl hurl),
      hone.hosts]
  have hadd : frame.addRoutes backendId memory table =
      frame.addRoute backendId table host (memory 0) := by
    rw [RegisterFrame.addRoutes, hhosts]
    rfl
  rw [hadd, RegisterFrame.addRoute, hone.not_redirect, if_neg Bool.false_ne_true, if_pos hurl]
  cases memory 0 with
  | none =>
    split
    · exact List.Perm.refl _
    · exact List.Perm.refl _
  | some m =>
    have hnode : ∀ b, frame.isStream = b → frame.node host m =
        { m.written frame.pathPrefix frame.method (some host) (some (frame.routeMode host)) (-1) b false
          with proxyTarget := m.proxyTarget.strncpy frame.proxyUrl } := by
      rintro b rfl
      rfl
    split
    · rename_i hstream
      rw [Option.map_some, hnode true hstream]
      exact routes_insert _ _ _
    · rename_i hstream
      rw [Option.map_some, hnode false (Bool.not_eq_true _ ▸ hstream)]
      exact routes_insert _ _ _

end Frame

/-- **The route of a frame and the one that is loaded again match the same requests** exactly if the frame
comes back, there is room to record its route, and fewer than `MAX_OVERRIDES` overrides have been set
where its line is read. -/
theorem reloads_iff (buf : Bytes) {host : Bytes} (hone : (parseRegister (cstr buf)).ProxiesOne host)
    {s : ArwsConfig} (hs : RoutesSized s) (env : LoadEnv) (s₀ : ArwsConfig)
    (memory memory' : ArwsRoute) :
    (parseRegister (cstr buf)).Reloads host s env s₀ memory memory' ↔
      (parseRegister (cstr buf)).ReadsBack host ∧ (parseRegister (cstr buf)).HasRouteRoom s host ∧
        ∀ i, (savedLines ((parseRegister (cstr buf)).configure s host).1)[i]? =
            some ((parseRegister (cstr buf)).line host) →
          (loadedBefore env ((parseRegister (cstr buf)).configure s host).1 s₀
            i).config.overrides.length < maxOverrides := by
  have hscan : Scanned (parseRegister (cstr buf)) := by
    refine scanned_parseRegister fun hnil => ?_
    have := hone.url
    rw [hnil] at this
    cases this
  generalize parseRegister (cstr buf) = frame at hone hscan ⊢
  have hne := hscan.pathPrefix.ne
  constructor
  · rintro ⟨hrecorded, hsame⟩
    have hback : ∀ i, (savedLines (frame.configure s host).1)[i]? = some (frame.line host) →
        frame.ReadsBack host ∧ (loadedBefore env (frame.configure s host).1 s₀
          i).config.overrides.length < maxOverrides := by
      intro i hi
      obtain ⟨r, hr, hserves⟩ := hsame i hi
      exact readsBack_of_same hscan hone hr hserves
    obtain ⟨i, hi⟩ := List.mem_iff_getElem?.1 (line_mem_of_recorded hs hne hrecorded)
    rw [configure_snd hne] at hrecorded
    exact ⟨(hback i hi).1, (hasRouteRoom_iff s).1 hrecorded, fun i hi => (hback i hi).2⟩
  · rintro ⟨hback, hroom, hlines⟩
    refine ⟨?_, fun i hi => same_of_readsBack hscan hone hback env (hlines i hi) memory memory'⟩
    rw [configure_snd hne]
    exact (hasRouteRoom_iff s).2 hroom

/-- Lines that fit the buffer set at most one override each. -/
theorem overrides_loadedBefore_le (env : LoadEnv) {s : ArwsConfig} (s₀ : ArwsConfig)
    (h : ∀ line ∈ savedLines s, (10 : UInt8) ∉ line ∧ line.length ≤ 511) (i : ℕ) :
    (loadedBefore env s s₀ i).config.overrides.length ≤ (savedLines s).length := by
  have hlines : ∀ line ∈ (savedLines s).take i, (10 : UInt8) ∉ line ∧ RestSaysNothing line := by
    intro line hline
    obtain ⟨hlf, hfits⟩ := h line (List.mem_of_mem_take hline)
    exact ⟨hlf, restSaysNothing_of_length_le hfits⟩
  rw [loadedBefore, arwsConfigLoad, readLines_unlines env _ hlines]
  refine (length_readLines_le env _ _).trans ?_
  have hnone : (⟨s₀.reset, []⟩ : Loading).config.overrides.length = 0 := rfl
  rw [hnone, Nat.zero_add, List.length_map]
  exact List.length_take_le' _ _

/-- A frame for every method. -/
theorem reloads_every_method : (parseRegister (cstr
      (ascii "app /api/* * example.com production proxy=http://127.0.0.1:3000"))).Reloads
    (ascii "example.com") .initial ⟨fun _ => none, fun _ => []⟩ .initial .zero .zero := by
  have hframe : parseRegister (cstr
      (ascii "app /api/* * example.com production proxy=http://127.0.0.1:3000")) =
        ⟨ascii "app", ascii "/api/*", [42], ascii "example.com", ascii "production",
          ascii "http://127.0.0.1:3000", [], [], none⟩ := by decide +kernel
  have hone : (parseRegister (cstr
      (ascii "app /api/* * example.com production proxy=http://127.0.0.1:3000"))).ProxiesOne
        (ascii "example.com") := by
    rw [hframe]
    exact ⟨by decide, by decide, by decide⟩
  refine (reloads_iff _ hone (by rintro (_ | _ | _) e ⟨⟩) _ _ _ _).2 ?_
  rw [hframe]
  refine ⟨⟨by decide, by decide, by decide, ⟨by decide, by decide⟩, by decide, Or.inl (by decide)⟩,
    Or.inr (by decide), fun i _ => ?_⟩
  generalize hs : (RegisterFrame.configure ⟨ascii "app", ascii "/api/*", [42], ascii "example.com",
    ascii "production", ascii "http://127.0.0.1:3000", [], [], none⟩ .initial (ascii "example.com")).1 = s
  have hrest : (∀ line ∈ s.settingLines ++ s.overrides.filterMap (·.line?) ++
      s.proxyRoutes.map (·.proxyLine) ++ s.streamRoutes.map (·.streamLine),
        (10 : UInt8) ∉ line ∧ line.length ≤ 511) ∧
      (s.settingLines ++ s.overrides.filterMap (·.line?) ++ s.proxyRoutes.map (·.proxyLine) ++
        s.streamRoutes.map (·.streamLine)).length = 5 := by
    rw [← hs]
    decide +kernel
  have hlines : savedLines s = guideComments ++ (s.settingLines ++ s.overrides.filterMap (·.line?) ++
      s.proxyRoutes.map (·.proxyLine) ++ s.streamRoutes.map (·.streamLine)) := by
    simp only [savedLines, List.append_assoc]
  refine (overrides_loadedBefore_le _ _ (fun line hline => ?_) i).trans_lt ?_
  · rw [hlines] at hline
    rcases List.mem_append.1 hline with hline | hline
    · exact (guideComments_facts line hline).2
    · exact hrest.1 line hline
  · rw [hlines, List.length_append, hrest.2]
    decide

/-- **A frame for one method does not**: the route that is loaded again is one of every method. -/
theorem not_reloads : ¬ ∀ (buf host : Bytes) (s : ArwsConfig) (env : LoadEnv) (s₀ : ArwsConfig)
    (memory memory' : ArwsRoute), (parseRegister (cstr buf)).ProxiesOne host → RoutesSized s →
      s.overrides.length < maxOverrides → (parseRegister (cstr buf)).HasRouteRoom s host →
      (parseRegister (cstr buf)).Reloads host s env s₀ memory memory' := by
  intro h
  have hframe : parseRegister (cstr
      (ascii "app /api GET example.com production proxy=http://127.0.0.1:3000")) =
        ⟨ascii "app", ascii "/api", ascii "GET", ascii "example.com", ascii "production",
          ascii "http://127.0.0.1:3000", [], [], none⟩ := by decide +kernel
  have hone : (parseRegister (cstr
      (ascii "app /api GET example.com production proxy=http://127.0.0.1:3000"))).ProxiesOne
        (ascii "example.com") := by
    rw [hframe]
    exact ⟨by decide, by decide, by decide⟩
  have hsized : RoutesSized .initial := by rintro (_ | _ | _) e ⟨⟩
  have hreloads := h _ _ .initial ⟨fun _ => none, fun _ => []⟩ .initial .zero .zero hone hsized
    (by decide) (Or.inr (by rw [hframe]; decide))
  have hscan := scanned_parseRegister (hframe ▸ by decide : (parseRegister (cstr
      (ascii "app /api GET example.com production proxy=http://127.0.0.1:3000"))).proxyUrl ≠ [])
  have hline := line_mem_of_recorded hsized hscan.pathPrefix.ne hreloads.recorded
  obtain ⟨i, hi⟩ := List.mem_iff_getElem?.1 hline
  obtain ⟨r, hr, hserves⟩ := hreloads.same i hi
  have hmethod := (readsBack_of_same hscan hone hr hserves).1.method
  rw [hframe] at hmethod
  revert hmethod
  decide

end Gateway
end Arws

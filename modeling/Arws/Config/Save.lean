import Arws.Config.File

/-!
# Writing the configuration

`save_config`, and the functions that change the tables and then call it.  What they return says
whether there was something to change.

A line that has been written is read by `parseLine_keyed` and `parseLine_setting`, whatever the piece
of it that the buffer took ends with.
-/

set_option autoImplicit false

namespace Arws
namespace Config

open CString TextFile

/-! ## The text -/

/-- `write_guide_comments`. -/
def guideComments : List Bytes :=
  [ascii "# ALRI Web Services Config",
    ascii "#",
    ascii "# mode: server binding mode",
    ascii "#   test       - HTTP on 127.0.0.1:8080 (development)",
    ascii "#   production - HTTPS on 0.0.0.0:443 (live)",
    ascii "#",
    ascii "# port: TCP port to listen on",
    ascii "#   default: 8080 (test), 443 (production)",
    ascii "#",
    ascii "# bind: IP address to bind to",
    ascii "#   default: 127.0.0.1 (test), 0.0.0.0 (production)",
    ascii "#",
    ascii "# global_mode: default response mode for all endpoints",
    ascii "#   test        - normal operation (development)",
    ascii "#   production  - normal operation (live)",
    ascii "#   maintenance - returns 503 for all requests",
    ascii "#",
    ascii "# maintenance_ips: IPs allowed through during maintenance",
    ascii "#   maintenance_ips = [\"127.0.0.1\", \"192.168.1.100\"]",
    ascii "#",
    ascii "# Per-endpoint mode overrides:",
    ascii "#   Format: \"host/path\" = mode",
    ascii "#   \"example.com/api/admin\" = maintenance",
    ascii "#   \"example.com/health\" = production",
    ascii "#   \"*//public\" = test",
    ascii "#",
    ascii "# cache_ttl: cache lifetime in seconds for static/GET responses",
    ascii "#   0       - disable caching",
    ascii "#   N       - cache responses for N seconds (default: 60)",
    ascii "#",
    ascii "# Cache control per endpoint (append no-cache to override):",
    ascii "#   \"detroitgg.alrigroup.com/minha-conta\" = production no-cache",
    ascii "#   \"detroitgg.alrigroup.com/dynamic\" = no-cache",
    ascii "#",
    ascii "# By default, static files (.css/.js/.png/.jpg/etc) are always cached.",
    ascii "# Other routes are cached only if cache_ttl > 0 and no \"no-cache\" flag.",
    ascii "#",
    ascii "# Reverse proxy: forward requests directly to an HTTP backend",
    ascii "#   \"detroitgg.alrigroup.com/*\" = \"http://127.0.0.1:3001\"",
    ascii "#   \"home.alrigroup.com/*\" = \"http://127.0.0.1:3002\"",
    ascii "#",
    ascii "# Stream proxy: real-time bidirectional pipe (WebSocket, SSE, chunked, media)",
    ascii "#   \"site.com/live/*\" = stream \"http://192.168.1.100:8080\"",
    ascii "#   \"site.com/ws/*\" = stream \"ws://192.168.1.100:9000\"",
    ascii "#",
    ascii "# Mode overrides also apply to proxy and stream routes: add a line",
    ascii "#   \"site.com/live/*\" = maintenance",
    ascii "# to force that route to production/test/maintenance. Apps auto-register",
    ascii "# an override (global_mode) next to their stream/proxy routes on startup."]

/-- The guide has comments only, and its lines fit the buffer. -/
theorem guideComments_facts :
    ∀ line ∈ guideComments, line.head? = some 35 ∧ (10 : UInt8) ∉ line ∧ line.length ≤ 511 := by
  rw [guideComments]
  repeat rw [ascii_eq rfl]
  decide +kernel

/-- A path without the slashes at its front. -/
def writtenPath (path : Bytes) : Bytes :=
  let p := path.dropWhile (· == 47)
  if p = [] then [42] else p

/-- `"host/path" = val`. -/
def keyedLine (host path val : Bytes) : Bytes :=
  34 :: (host ++ 47 :: writtenPath path) ++ ascii "\" = " ++ val

/-- The line of an override, which has none if it has neither a mode nor the flag. -/
def ModeOverride.line? (o : ModeOverride) : Option Bytes :=
  if o.mode ≠ [] then
    some (keyedLine o.host o.path (o.mode ++ if o.noCache then ascii " no-cache" else []))
  else if o.noCache then some (keyedLine o.host o.path (ascii "no-cache"))
  else none

def ProxyRouteEntry.proxyLine (r : ProxyRouteEntry) : Bytes := keyedLine r.host r.path r.targetUrl

def ProxyRouteEntry.streamLine (r : ProxyRouteEntry) : Bytes :=
  keyedLine r.host r.path (ascii "stream " ++ r.targetUrl)

/-- The list of the addresses. -/
def ipList (ips : List Bytes) : Bytes :=
  91 :: [44].intercalate (ips.map fun ip => 34 :: ip ++ [34]) ++ [93]

def modeLine (cachedMode : Option ArwsMode) : Bytes :=
  if cachedMode = some .production then ascii "mode=production" else ascii "mode=test"

/-- The lines with a name. -/
def ArwsConfig.settingLines (s : ArwsConfig) : List Bytes :=
  [modeLine s.cachedMode] ++
    (if 0 < s.configPort then [ascii "port" ++ 61 :: printDecimal s.configPort] else []) ++
    (if s.configBind ≠ [] then [ascii "bind" ++ 61 :: s.configBind] else []) ++
    (if s.maintenanceIps ≠ [] then [ascii "maintenance_ips " ++ 61 :: 32 :: ipList s.maintenanceIps]
      else []) ++
    [ascii "global_mode" ++ 61 :: s.globalMode,
      ascii "cache_ttl" ++ 61 :: printDecimal s.cacheTtlConfig]

/-- The file that `save_config` writes. -/
def saveConfig (s : ArwsConfig) : Bytes :=
  unlines 10 (guideComments ++ s.settingLines ++ s.overrides.filterMap (·.line?) ++
    s.proxyRoutes.map (·.proxyLine) ++ s.streamRoutes.map (·.streamLine))

/-! ## The functions that change the tables -/

/-- `arws_config_add_override`.  The flag of a new override is that of the slot it is put into. -/
def arwsConfigAddOverride (s : ArwsConfig) (host path mode : Bytes) : ArwsConfig × Int :=
  match overrideIdx s.overrides host path with
  | some i => ({ s with overrides := s.overrides.modify i fun o => { o with mode := mode.take 31 } }, 0)
  | none =>
    if maxOverrides ≤ s.overrides.length then (s, -1)
    else
      let entry : ModeOverride :=
        ⟨host.take 127, path.take 127, mode.take 31, (s.spare.head?.map (·.noCache)).getD false⟩
      ({ s with overrides := s.overrides ++ [entry], spare := s.spare.tail }, 0)

/-- `arws_config_remove_override`: the last override takes the place of the one that goes. -/
def arwsConfigRemoveOverride (s : ArwsConfig) (host path : Bytes) : ArwsConfig × Int :=
  match overrideIdx s.overrides host path, s.overrides.getLast? with
  | some i, some last =>
    ({ s with overrides := (s.overrides.set i last).dropLast, spare := last :: s.spare }, 0)
  | _, _ => (s, -1)

/-- `arws_config_set_global`. -/
def arwsConfigSetGlobal (s : ArwsConfig) (mode : Bytes) : ArwsConfig × Int :=
  if mode ∈ [ascii "production", ascii "test", ascii "maintenance"] then
    ({ s with globalMode := mode.take 15 }, 0)
  else (s, -1)

/-- What `arws_config_add_proxy_route` and `arws_config_add_stream_route` do to their table. -/
def addEntry (routes : List ProxyRouteEntry) (host path targetUrl : Bytes) :
    List ProxyRouteEntry × Int :=
  match routes.findIdx? fun r => r.host == host && r.path == path with
  | some i => (routes.modify i fun r => { r with targetUrl := targetUrl.take 255 }, 0)
  | none =>
    if maxOverrides ≤ routes.length then (routes, -1)
    else (routes ++ [⟨host.take 127, path.take 127, targetUrl.take 255⟩], 0)

/-- `arws_config_add_proxy_route`. -/
def arwsConfigAddProxyRoute (s : ArwsConfig) (host path targetUrl : Bytes) : ArwsConfig × Int :=
  let (routes, result) := addEntry s.proxyRoutes host path targetUrl
  ({ s with proxyRoutes := routes }, result)

/-- `arws_config_add_stream_route`. -/
def arwsConfigAddStreamRoute (s : ArwsConfig) (host path targetUrl : Bytes) : ArwsConfig × Int :=
  let (routes, result) := addEntry s.streamRoutes host path targetUrl
  ({ s with streamRoutes := routes }, result)

/-! ## Reading a line back -/

theorem mem_of_mem_trim {s : Bytes} {c : UInt8} (h : c ∈ trim s) : c ∈ s :=
  (strip_isInfix s).subset h

theorem mem_of_mem_unquote {s : Bytes} {c : UInt8} (h : c ∈ unquote s) : c ∈ s := by
  rw [unquote] at h
  split at h
  · exact List.mem_of_mem_tail (List.mem_of_mem_dropLast h)
  · exact h

theorem mem_of_mem_cstr {s : Bytes} {c : UInt8} (h : c ∈ cstr s) : c ∈ s :=
  (cstr_isPrefix s).subset h

/-- What is behind the first bytes of a line is cut at its end only. -/
theorem trim_append {pre : Bytes} (hne : pre ≠ []) (hpre : Stripped isBlank isEndBlank pre)
    (s : Bytes) : trim (pre ++ s) = pre ++ s.rdropWhile isEndBlank :=
  strip_append hne hpre s

/-- **The line of a key** is read as the key and the value. -/
theorem parseLine_keyed {key val : Bytes} (hquote : (34 : UInt8) ∉ key) (hkey : (0 : UInt8) ∉ key)
    (hval : (0 : UInt8) ∉ val) :
    parseLine (34 :: key ++ ascii "\" = " ++ val) = .keyed key (unquote (trim val)) := by
  have hsplit : 34 :: key ++ ascii "\" = " ++ val = (34 :: (key ++ [34, 32]) ++ [61]) ++ 32 :: val := by
    simp [ascii]
  have hzero : (0 : UInt8) ∉ (34 :: (key ++ [34, 32]) ++ [61]) ++ 32 :: val := by
    simp [hkey, hval]
  have hblank : trim ((32 :: val).rdropWhile isEndBlank) = trim val := by
    rw [trim, strip_rdropWhile, strip_cons rfl rfl, trim]
  have htrim : trim (cstr ((34 :: (key ++ [34, 32]) ++ [61]) ++ 32 :: val)) =
      34 :: (key ++ 34 :: 32 :: 61 :: (32 :: val).rdropWhile isEndBlank) := by
    rw [cstr_eq_self hzero, trim_append (by simp) (stripped_cons_append rfl rfl _)]
    simp
  have htake : ∀ u : Bytes, (key ++ u).take key.length = key := fun u => List.take_left' rfl
  have hdrop : ∀ u : Bytes, ∀ n, (key ++ u).drop (key.length + n) = u.drop n := fun u n => by
    rw [← List.drop_drop, List.drop_left' rfl]
  have heq : ∀ u : Bytes, strchr 61 (32 :: 61 :: u) = some 1 := fun u => rfl
  rw [hsplit, parseLine, htrim]
  simp only [strchr_append hquote, hdrop, htake, List.drop_succ_cons, List.drop_zero, heq,
    Nat.add_assoc, hblank]

/-- What can stand before a sign of equality: no quote and no comment begins there. -/
def IsName (name : Bytes) : Prop :=
  (name.head?.any fun c => c != 34 && c != 35 && !isBlank c) = true ∧ (61 : UInt8) ∉ name ∧
    (0 : UInt8) ∉ name

instance (name : Bytes) : Decidable (IsName name) := inferInstanceAs (Decidable (_ ∧ _))

/-- **The line of a name** is read as the name and the value. -/
theorem parseLine_setting {name val : Bytes} (h : IsName name) (hval : (0 : UInt8) ∉ val) :
    parseLine (name ++ 61 :: val) = .setting (trim name) (trim val) := by
  obtain ⟨hhead, hname, hzero⟩ := h
  cases name with
  | nil => simp at hhead
  | cons c name =>
    simp only [List.head?_cons, Option.any_some, Bool.and_eq_true, bne_iff_ne, ne_eq,
      Bool.not_eq_true'] at hhead
    obtain ⟨⟨h34, h35⟩, hblank⟩ := hhead
    have hsplit : c :: name ++ 61 :: val = (c :: name ++ [61]) ++ val := by simp
    have hnone : (0 : UInt8) ∉ (c :: name ++ [61]) ++ val := by
      rw [List.mem_append, List.mem_append, not_or, not_or]
      exact ⟨⟨hzero, by decide⟩, hval⟩
    have htrim : trim (cstr ((c :: name ++ [61]) ++ val)) =
        c :: (name ++ 61 :: val.rdropWhile isEndBlank) := by
      rw [cstr_eq_self hnone, trim_append (by simp) (stripped_cons_append hblank rfl _)]
      simp
    have hfound := strchr_append hname (val.rdropWhile isEndBlank)
    rw [List.cons_append] at hfound
    have htake : ∀ u : Bytes, (c :: (name ++ u)).take (c :: name).length = c :: name :=
      fun u => List.take_left' rfl
    have hdrop : (c :: (name ++ 61 :: val.rdropWhile isEndBlank)).drop ((c :: name).length + 1) =
        val.rdropWhile isEndBlank := by
      rw [← List.cons_append, ← List.drop_drop, List.drop_left' rfl]
      rfl
    rw [hsplit, parseLine, htrim]
    split
    · rename_i heq
      cases heq
    · rename_i heq
      cases heq
      exact absurd rfl h34
    · rename_i heq
      cases heq
      rw [if_neg h35]
      simp only [hfound, htake, hdrop]
      rw [trim, trim, trim, strip_rdropWhile]

theorem parseLine_comment (s : Bytes) : parseLine (35 :: s) = .nothing := by
  have htrim : trim (cstr (35 :: s)) = 35 :: (cstr s).rdropWhile isEndBlank := by
    have hcstr : cstr (35 :: s) = [35] ++ cstr s := by simp [cstr]
    rw [hcstr, trim_append (by simp) (by decide)]
    rfl
  rw [parseLine, htrim]
  rfl

/-- A line without a sign of equality says nothing. -/
theorem parseLine_of_notMem {line : Bytes} (h : (61 : UInt8) ∉ line) : parseLine line = .nothing := by
  have hnone : ∀ s : Bytes, (∀ c ∈ s, c ∈ trim (cstr line)) → strchr 61 s = none := fun s hs =>
    strchr_eq_none_iff.2 fun hmem => h (mem_of_mem_cstr (mem_of_mem_trim (hs 61 hmem)))
  rw [parseLine]
  split
  · rfl
  · rename_i rest htrim
    cases strchr 34 rest with
    | none => rfl
    | some close =>
      dsimp only
      rw [hnone]
      intro c hc
      rw [htrim]
      exact List.mem_cons_of_mem _ (List.mem_of_mem_drop hc)
  · rename_i c rest hc htrim
    split_ifs
    · rfl
    · rw [hnone]
      intro d hd
      rwa [htrim]

end Config
end Arws

import Arws.Config.WrittenLines

/-!
# The modes of a written file

`arws_config_add_override`, `arws_config_remove_override` and `arws_config_set_global` write the
tables to the file, and the watchdog loads it again.

`answersKept` — what is looked up stays the same if every override can be read back as it is
(`Writable`): its path does not begin with a slash, which the writer takes away.
-/

set_option autoImplicit false

namespace Arws
namespace Config

open CString TextFile

/-! ## Runs -/

/-- The calls that change what is looked up. -/
inductive Op
  | addOverride (host path mode : Bytes)
  | removeOverride (host path : Bytes)
  | setGlobal (mode : Bytes)

def Op.apply (s : ArwsConfig) : Op → ArwsConfig
  | .addOverride host path mode => (arwsConfigAddOverride s host path mode).1
  | .removeOverride host path => (arwsConfigRemoveOverride s host path).1
  | .setGlobal mode => (arwsConfigSetGlobal s mode).1

/-- A name shorter than 128 bytes without a quote, a blank or a line end. -/
def PlainName (s : Bytes) : Prop :=
  s.length < 128 ∧ Without [0, 34] s ∧ ∀ c ∈ s, isSpace c = false

theorem plainName_of_all {s : Bytes} (hlen : s.length < 128) (hwithout : Without [0, 34] s)
    (hall : (s.all fun c => isSpace c == false) = true) : PlainName s :=
  ⟨hlen, hwithout, fun c hc => eq_of_beq (List.all_eq_true.1 hall c hc)⟩

/-- The calls are those of C strings, for plain hosts and paths. -/
def Op.Plain : Op → Prop
  | .addOverride host path mode =>
    PlainName host ∧ (47 : UInt8) ∉ host ∧ PlainName path ∧ (0 : UInt8) ∉ mode
  | .removeOverride host path => PlainName host ∧ (47 : UInt8) ∉ host ∧ PlainName path
  | .setGlobal mode => (0 : UInt8) ∉ mode

/-- A file that has been loaded, and calls after it. -/
def run (env : LoadEnv) (file : Bytes) (s₀ : ArwsConfig) (ops : List Op) : ArwsConfig :=
  ops.foldl Op.apply (arwsConfigLoad env file s₀).config

theorem lf_notMem_of_plain {s : Bytes} (h : PlainName s) : (10 : UInt8) ∉ s := fun hmem => by
  have := h.2.2 10 hmem
  cases this

theorem storedKey_of_plain {host path : Bytes} (hhost : PlainName host) (hslash : (47 : UInt8) ∉ host)
    (hpath : PlainName path) : StoredKey (host.take 127) (path.take 127) := by
  refine storedKey_take ?_ hslash
  intro c hc hmem
  rw [List.mem_append, List.mem_cons] at hmem
  simp only [List.mem_cons, List.not_mem_nil, or_false] at hc
  obtain rfl | rfl | rfl := hc
  · obtain hmem | hmem | hmem := hmem
    · exact hhost.2.1 0 (by simp) hmem
    · cases hmem
    · exact hpath.2.1 0 (by simp) hmem
  · obtain hmem | hmem | hmem := hmem
    · exact lf_notMem_of_plain hhost hmem
    · cases hmem
    · exact lf_notMem_of_plain hpath hmem
  · obtain hmem | hmem | hmem := hmem
    · exact hhost.2.1 34 (by simp) hmem
    · cases hmem
    · exact hpath.2.1 34 (by simp) hmem

theorem mem_modify {α : Type*} {l : List α} {i : Nat} {f : α → α} {a : α} (h : a ∈ l.modify i f) :
    ∃ b ∈ l, a = b ∨ a = f b := by
  obtain ⟨j, hj, hget⟩ := List.mem_iff_getElem.1 h
  rw [List.getElem_modify] at hget
  rw [List.length_modify] at hj
  refine ⟨l.get ⟨j, hj⟩, List.get_mem _ _, ?_⟩
  split at hget
  · exact Or.inr hget.symm
  · exact Or.inl hget.symm

theorem globalModes_facts : ∀ mode ∈ [ascii "production", ascii "test", ascii "maintenance"],
    Without [0, 10] (mode.take 15) ∧ (mode.take 15).length ≤ 15 := by
  decide

theorem Stored.apply {s : ArwsConfig} (h : Stored s) {op : Op} (hop : op.Plain) :
    Stored (op.apply s) := by
  cases op with
  | addOverride host path mode =>
    obtain ⟨hhost, hslash, hpath, hmode⟩ := hop
    have hcut : (0 : UInt8) ∉ mode.take 31 := fun hmem => hmode (List.mem_of_mem_take hmem)
    rw [Op.apply, arwsConfigAddOverride]
    cases overrideIdx s.overrides host path with
    | some i =>
      refine { h with overrides := fun o ho => ?_, overrides_le := ?_ }
      · obtain ⟨o', ho', rfl | rfl⟩ := mem_modify ho
        · exact h.overrides o ho'
        · exact ⟨(h.overrides o' ho').1, hcut, List.length_take_le _ _⟩
      · simpa using h.overrides_le
    | none =>
      dsimp only
      split_ifs with hfull
      · exact h
      · refine { h with overrides := fun o ho => ?_, overrides_le := ?_ }
        · obtain ho | ho := List.mem_append.1 ho
          · exact h.overrides o ho
          · rw [List.mem_singleton.1 ho]
            exact ⟨storedKey_of_plain hhost hslash hpath, hcut, List.length_take_le _ _⟩
        · simp only [List.length_append, List.length_singleton]
          omega
  | removeOverride host path =>
    rw [Op.apply, arwsConfigRemoveOverride]
    split
    · rename_i i last hi hlast
      refine { h with overrides := fun o ho => ?_, overrides_le := ?_ }
      · obtain ho | rfl := List.mem_or_eq_of_mem_set (List.mem_of_mem_dropLast ho)
        · exact h.overrides o ho
        · exact h.overrides o (List.mem_of_getLast? hlast)
      · have := h.overrides_le
        simp only [List.length_dropLast, List.length_set]
        omega
    · exact h
  | setGlobal mode =>
    rw [Op.apply, arwsConfigSetGlobal]
    split_ifs with hmode
    · exact { h with globalMode := globalModes_facts mode hmode }
    · exact h

/-- **Every run** keeps what the tables hold. -/
theorem stored_run (env : LoadEnv) (file : Bytes) (s₀ : ArwsConfig) {ops : List Op}
    (hops : ∀ op ∈ ops, op.Plain) : Stored (run env file s₀ ops) := by
  rw [run]
  have hstart := stored_load env file s₀
  generalize (arwsConfigLoad env file s₀).config = s at hstart
  induction ops generalizing s with
  | nil => exact hstart
  | cons op ops ih =>
    exact ih (fun o ho => hops o (List.mem_cons_of_mem _ ho)) _
      (hstart.apply (hops op List.mem_cons_self))

/-! ## What can be read back -/

/-- The mode and the flag of an override are read back as they are. -/
def ReadableMode (o : ModeOverride) : Prop :=
  if o.mode = [] then o.noCache = true
  else
    Without [10, 32] o.mode ∧ (∀ c ∈ o.mode.head?, isBlank c = false) ∧
      (o.noCache = true ∨ (∀ c ∈ o.mode.getLast?, isEndBlank c = false) ∧ unquote o.mode = o.mode) ∧
      isUrl o.mode = false ∧ isNoCacheWord o.mode = false

instance (o : ModeOverride) : Decidable (ReadableMode o) :=
  -- the byte at an end of the mode is looked at, not all bytes
  let _ : Decidable (∀ c ∈ o.mode.head?, isBlank c = false) := Option.decidableForallMem _
  let _ : Decidable (∀ c ∈ o.mode.getLast?, isEndBlank c = false) := Option.decidableForallMem _
  inferInstanceAs (Decidable (if o.mode = [] then _ else _))

/-- The addresses are read back as they are, or nothing depends on them. -/
def ReadableIps (s : ArwsConfig) : Prop :=
  ((∀ ip ∈ s.maintenanceIps, Without [10, 34, 92] ip) ∧
    (ascii "maintenance_ips " ++ 61 :: 32 :: ipList s.maintenanceIps).length ≤ 511) ∨
  ((∀ ip ∈ s.maintenanceIps, Without [10, 61] ip) ∧ s.globalMode ≠ ascii "maintenance" ∧
    ∀ o ∈ s.overrides, o.mode ≠ ascii "maintenance")

/-- **The tables can be written**, and read back with the same meaning. -/
structure Writable (s : ArwsConfig) : Prop where
  paths : ∀ o ∈ s.overrides, o.path ≠ [] ∧ o.path.head? ≠ some 47
  modes : ∀ o ∈ s.overrides, ReadableMode o
  keys : ∀ o ∈ s.overrides, ∀ o' ∈ s.overrides, o.key = o'.key → o = o'
  globalMode : Stripped isBlank isEndBlank s.globalMode
  ips : ReadableIps s
  proxyRoutes : ∀ r ∈ s.proxyRoutes, (34 : UInt8) ∉ r.proxyLine.drop 511
  streamRoutes : ∀ r ∈ s.streamRoutes, (34 : UInt8) ∉ r.streamLine.drop 511

/-- The same is answered for every host, path and client. -/
def SameAnswers (s t : ArwsConfig) : Prop :=
  ∀ host path, (∀ clientIp, arwsConfigGetEffectiveMode t host path clientIp =
      arwsConfigGetEffectiveMode s host path clientIp) ∧
    arwsConfigIsNoCache t host path = arwsConfigIsNoCache s host path

/-! ## What is looked up -/

/-- What the answers depend on. -/
def Loading.view (st : Loading) : Bytes × List Bytes × List ModeOverride :=
  (st.config.globalMode, st.config.maintenanceIps, st.config.overrides)

/-- A piece that changes no answer. -/
def Quiet (env : LoadEnv) (piece : Bytes) : Prop :=
  ∀ st : Loading, (st.readLine env piece).view = st.view

variable {env : LoadEnv}

theorem view_readLines {pieces : List Bytes} (h : ∀ piece ∈ pieces, Quiet env piece) (st : Loading) :
    (st.readLines env pieces).view = st.view := by
  induction pieces generalizing st with
  | nil => rfl
  | cons piece pieces ih =>
    exact (ih (fun p hp => h p (List.mem_cons_of_mem _ hp)) _).trans (h piece List.mem_cons_self st)

theorem quiet_of_nothing {piece : Bytes} (h : parseLine piece = .nothing) : Quiet env piece := by
  intro st
  rw [Loading.readLine, h, Loading.read]

/-- A setting of something else. -/
theorem quiet_of_setting {piece name value : Bytes} (h : parseLine piece = .setting name value)
    (hglobal : strcaseeq name (ascii "global_mode") = false)
    (hips : strcaseeq name (ascii "maintenance_ips") = false) : Quiet env piece := by
  intro st
  rw [Loading.readLine, h, Loading.read, ArwsConfig.readSetting, hglobal, hips]
  simp only [Bool.false_eq_true, if_false]
  split_ifs <;> rfl

/-- A route. -/
theorem quiet_of_keyed {piece host path val : Bytes} (h : parseLine piece = .keyed (host ++ 47 :: path) val)
    (hhost : (47 : UInt8) ∉ host) (hurl : isUrl (targetOf val).2 = true) : Quiet env piece := by
  intro st
  rw [Loading.readLine, h, Loading.read]
  by_cases hroom : st.config.overrides.length < maxOverrides
  · rw [readKeyed_slash env hhost path val hroom, if_pos hurl]
    generalize (targetOf val).1 = kind
    cases kind <;> rfl
  · rw [Loading.readKeyed, if_neg hroom]

/-! ## The routes -/

theorem parseLine_of_short {piece : Bytes} (hquote : (34 : UInt8) ∉ trim (cstr piece))
    (hlen : (trim (cstr piece)).length ≤ 11) :
    parseLine piece = .nothing ∨
      ∃ name value, parseLine piece = .setting name value ∧ name.length ≤ 10 := by
  rw [parseLine]
  split
  · exact Or.inl rfl
  · rename_i rest hrest
    rw [hrest] at hquote
    exact absurd List.mem_cons_self hquote
  · rename_i c rest hc hrest
    rw [hrest] at hlen
    split_ifs
    · exact Or.inl rfl
    · cases hfound : strchr 61 (c :: rest) with
      | none => exact Or.inl rfl
      | some eq =>
        refine Or.inr ⟨_, _, rfl, (strip_isInfix _).length_le.trans ?_⟩
        have hsplit := congrArg List.length (strchr_eq_some hfound).1
        simp only [List.length_append, List.length_cons] at hsplit hlen
        omega

/-- What is left of the line of a route is too short for the names that matter. -/
theorem quiet_of_short {rest : Bytes} (hquote : (34 : UInt8) ∉ rest) (hzero : (0 : UInt8) ∉ rest)
    (hlen : rest.length ≤ 11) : Quiet env (rest ++ [10]) := by
  have htrim : trim (cstr (rest ++ [10])) = trim rest := by
    rw [cstr_eq_self (by simp [hzero]), trim_append_lf]
  have hshort : (trim (cstr (rest ++ [10]))).length ≤ 11 := by
    rw [htrim]
    exact (strip_isInfix rest).length_le.trans hlen
  have hnone : (34 : UInt8) ∉ trim (cstr (rest ++ [10])) := by
    rw [htrim]
    exact fun hmem => hquote (mem_of_mem_trim hmem)
  obtain hparse | ⟨name, value, hparse, hname⟩ := parseLine_of_short hnone hshort
  · exact quiet_of_nothing hparse
  · refine quiet_of_setting hparse ?_ ?_ <;>
      · rw [Bool.eq_false_iff]
        intro heq
        have := length_eq_of_strcaseeq heq
        simp [ascii] at this
        omega

/-- A line whose first piece is quiet, and whose rest is short and has no quote. -/
theorem quiet_of_line {line : Bytes} (hlf : (10 : UInt8) ∉ line) (hzero : (0 : UInt8) ∉ line)
    (hlen : line.length ≤ 522) (hfirst : Quiet env (firstPiece line))
    (hrest : (34 : UInt8) ∉ line.drop 511) :
    ∀ piece ∈ fgetsLines (line ++ [10]), Quiet env piece := by
  have hsplit : fgetsLines (line ++ [10]) =
      firstPiece line :: fgetsLines ((line ++ [10]).drop 511) := pieces_line hlf
  intro piece hpiece
  rw [hsplit, List.mem_cons] at hpiece
  obtain rfl | hpiece := hpiece
  · exact hfirst
  · by_cases hfits : line.length < 511
    · have hall : (line ++ [10]).length ≤ 511 := by
        rw [List.length_append, List.length_singleton]
        omega
      rw [List.drop_eq_nil_of_le hall] at hpiece
      simp [fgetsLines, pieces, piecesFrom] at hpiece
    · have hcut : (line ++ [10]).drop 511 = line.drop 511 ++ [10] := by
        rw [List.drop_append_of_le_length (by omega)]
      have hlast : (line.drop 511).length ≤ 11 := by
        rw [List.length_drop]
        omega
      have hone : fgetsLines (line.drop 511 ++ [10]) = [line.drop 511 ++ [10]] :=
        piecesFrom_line (fun hmem => hlf (List.mem_of_mem_drop hmem)) (by omega)
      rw [hcut, hone, List.mem_singleton] at hpiece
      rw [hpiece]
      exact quiet_of_short hrest (fun hmem => hzero (List.mem_of_mem_drop hmem)) hlast

theorem zero_notMem_keyedLine {host path val : Bytes} (h : StoredKey host path)
    (hval : (0 : UInt8) ∉ val) : (0 : UInt8) ∉ keyedLine host path val := by
  have h1 := h.host_without 0 (by simp)
  have h2 := (writtenPath_stored h).1 0 (by simp)
  have h3 : (0 : UInt8) ∉ ascii "\" = " := by decide
  simp [keyedLine, h1, h2, h3, hval]

/-- **The lines of routes** change no answer. -/
theorem quiet_proxyLine {r : ProxyRouteEntry} (h : StoredRoute r)
    (hrest : (34 : UInt8) ∉ r.proxyLine.drop 511) :
    ∀ piece ∈ fgetsLines (r.proxyLine ++ [10]), Quiet env piece := by
  have hkey := keyLength_le h.key
  have hlen := h.target_le
  have hurl : isUrl ((r.targetUrl ++ [10]).take (511 - keyLength r.host r.path)) = true :=
    isUrl_take (isUrl_append h.target_isUrl _) (by omega)
  refine quiet_of_line (lf_notMem_keyedLine h.key (h.target_without 10 (by simp)))
    (zero_notMem_keyedLine h.key (h.target_without 0 (by simp))) ?_ ?_ hrest
  · rw [ProxyRouteEntry.proxyLine, length_keyedLine]
    omega
  · refine quiet_of_keyed (parseLine_keyedLine h.key (h.target_without 0 (by simp)))
      (h.key.host_without 47 (by simp)) ?_
    rw [targetOf_proxy hurl]
    exact (trim_of_isUrl hurl).1

theorem quiet_streamLine {r : ProxyRouteEntry} (h : StoredRoute r)
    (hrest : (34 : UInt8) ∉ r.streamLine.drop 511) :
    ∀ piece ∈ fgetsLines (r.streamLine ++ [10]), Quiet env piece := by
  have hkey := keyLength_le h.key
  have hlen := h.target_le
  have hword : (ascii "stream ").length = 7 := rfl
  have hplain : Without [0, 10] (ascii "stream ") := by decide
  have hval : ∀ c ∈ [(0 : UInt8), 10], c ∉ ascii "stream " ++ r.targetUrl := by
    intro c hc hmem
    obtain hmem | hmem := List.mem_append.1 hmem
    · exact hplain c hc hmem
    · exact h.target_without c hc hmem
  have hcut : (ascii "stream " ++ r.targetUrl ++ [10]).take (511 - keyLength r.host r.path) =
      ascii "stream " ++ (r.targetUrl ++ [10]).take (504 - keyLength r.host r.path) := by
    have hroom : 511 - keyLength r.host r.path - 7 = 504 - keyLength r.host r.path := by omega
    rw [List.append_assoc, List.take_append, hword, hroom, List.take_of_length_le (by omega)]
  have hurl : isUrl ((r.targetUrl ++ [10]).take (504 - keyLength r.host r.path)) = true :=
    isUrl_take (isUrl_append h.target_isUrl _) (by omega)
  refine quiet_of_line (lf_notMem_keyedLine h.key (hval 10 (by simp)))
    (zero_notMem_keyedLine h.key (hval 0 (by simp))) ?_ ?_ hrest
  · rw [ProxyRouteEntry.streamLine, length_keyedLine, List.length_append, hword]
    omega
  · refine quiet_of_keyed (parseLine_keyedLine h.key (hval 0 (by simp)))
      (h.key.host_without 47 (by simp)) ?_
    rw [hcut, targetOf_stream hurl]
    exact (trim_of_isUrl hurl).1

/-! ## The settings -/

/-- What `cJSON_Parse` makes of a list of plain strings: these strings. -/
def ReadsList (cJSONArray : Bytes → Option (List Bytes)) (ips : List Bytes) : Prop :=
  (∀ ip ∈ ips, Without [0, 34, 92] ip) → cJSONArray (ipList ips) = some ips

theorem trim_ipList {ips : List Bytes} {k : Nat} (h : (32 :: ipList ips).length ≤ k) :
    trim ((32 :: ipList ips ++ [10]).take k) = ipList ips := by
  rw [trim_take_line_end h, trim, strip_cons rfl rfl]
  exact strip_eq_self (stripped_cons_append rfl rfl _)

/-- The line of the addresses. -/
def ipsLine (s : ArwsConfig) : Bytes := ascii "maintenance_ips " ++ 61 :: 32 :: ipList s.maintenanceIps

theorem readLine_ipsLine {s : ArwsConfig} (h : Stored s) (st : Loading) :
    (st.readLine env (firstPiece (ipsLine s))).config.globalMode = st.config.globalMode ∧
      (st.readLine env (firstPiece (ipsLine s))).config.overrides = st.config.overrides ∧
      ((∀ ip ∈ s.maintenanceIps, Without [0, 34, 92] ip) → (ipsLine s).length ≤ 511 →
        ReadsList env.cJSONArray s.maintenanceIps →
        (st.readLine env (firstPiece (ipsLine s))).config.maintenanceIps = s.maintenanceIps) := by
  have hname : trim (ascii "maintenance_ips ") = ascii "maintenance_ips" := by decide
  have hzero : (0 : UInt8) ∉ 32 :: ipList s.maintenanceIps := by
    simpa using ipList_without (fun ip hip => (h.maintenanceIps ip hip).1) (by decide)
  have hparse := @parseLine_firstPiece (ascii "maintenance_ips ") _ (by decide) (by decide) hzero
  rw [hname] at hparse
  have hread : ∀ value, st.config.readSetting env (ascii "maintenance_ips") value =
      (env.cJSONArray value).elim st.config fun ips =>
        { st.config with
          maintenanceIps := (ips.take maxMaintenanceIps).map fun ip => (cstr ip).take 63 } := by
    intro value
    cases hips : env.cJSONArray value with
    | none => simp only [ArwsConfig.readSetting, hips]; rfl
    | some ips => simp only [ArwsConfig.readSetting, hips]; rfl
  rw [Loading.readLine, ipsLine, hparse, Loading.read, hread]
  refine ⟨?_, ?_, fun hplain hfits hjson => ?_⟩
  · cases env.cJSONArray _ <;> rfl
  · cases env.cJSONArray _ <;> rfl
  · have hlen : (32 :: ipList s.maintenanceIps).length ≤ 510 - (ascii "maintenance_ips ").length := by
      have hword : (ascii "maintenance_ips ").length = 16 := rfl
      simp only [List.length_append, List.length_cons, hword] at hfits ⊢
      omega
    have hsame : (s.maintenanceIps.take maxMaintenanceIps).map (fun ip => (cstr ip).take 63) =
        s.maintenanceIps := by
      rw [List.take_of_length_le h.maintenanceIps_le, List.map_congr_left (g := id), List.map_id]
      intro ip hip
      obtain ⟨hip0, hip63⟩ := h.maintenanceIps ip hip
      rw [cstr_eq_self hip0, List.take_of_length_le hip63]
      rfl
    rw [trim_ipList hlen, hjson hplain]
    exact hsame

/-- The settings in front of the addresses. -/
theorem quiet_of_name {name val : Bytes} (hname : IsName name) (hlen : name.length ≤ 510)
    (hval : (0 : UInt8) ∉ val) (hglobal : strcaseeq (trim name) (ascii "global_mode") = false)
    (hips : strcaseeq (trim name) (ascii "maintenance_ips") = false) :
    Quiet env (firstPiece (name ++ 61 :: val)) :=
  quiet_of_setting (parseLine_firstPiece hname hlen hval) hglobal hips

theorem quiet_modeLine (cachedMode : Option ArwsMode) : Quiet env (firstPiece (modeLine cachedMode)) := by
  rw [modeLine]
  split
  · exact @quiet_of_name _ (ascii "mode") (ascii "production") (by decide) (by decide) (by decide)
      (by decide) (by decide)
  · exact @quiet_of_name _ (ascii "mode") (ascii "test") (by decide) (by decide) (by decide)
      (by decide) (by decide)

theorem readLine_globalLine {g : Bytes} (hglobal : Stripped isBlank isEndBlank g)
    (hzero : (0 : UInt8) ∉ g) (hlen : g.length ≤ 15) (st : Loading) :
    (st.readLine env (firstPiece (ascii "global_mode" ++ 61 :: g))).view = (g, st.view.2) := by
  have hword : (ascii "global_mode").length = 11 := rfl
  have hname : trim (ascii "global_mode") = ascii "global_mode" := by decide
  have hval : trim ((g ++ [10]).take (510 - (ascii "global_mode").length)) = g := by
    rw [trim_take_line_end (by rw [hword]; omega), trim_eq_self hglobal]
  have hread : st.config.readSetting env (ascii "global_mode") g =
      { st.config with globalMode := g.take 15 } := rfl
  rw [Loading.readLine, parseLine_firstPiece (by decide) (by decide) hzero, hname, hval, Loading.read,
    hread, List.take_of_length_le hlen]
  rfl

/-- **The settings are read back.** -/
theorem readLines_settingLines {s : ArwsConfig} (h : Stored s)
    (hglobal : Stripped isBlank isEndBlank s.globalMode) (st : Loading) :
    ∃ ips, (st.readLines env (s.settingLines.map firstPiece)).view =
        (s.globalMode, ips, st.config.overrides) ∧
      (st.config.maintenanceIps = [] → (∀ ip ∈ s.maintenanceIps, Without [0, 34, 92] ip) →
        (ipsLine s).length ≤ 511 → ReadsList env.cJSONArray s.maintenanceIps →
        ips = s.maintenanceIps) := by
  have hdecimal : ∀ n, (0 : UInt8) ∉ printDecimal n := fun n => printDecimal_without n 0 (by simp)
  have hfront : ∀ piece ∈ ([modeLine s.cachedMode] ++
      (if 0 < s.configPort then [ascii "port" ++ 61 :: printDecimal s.configPort] else []) ++
      (if s.configBind ≠ [] then [ascii "bind" ++ 61 :: s.configBind] else [])).map firstPiece,
      Quiet env piece := by
    intro piece hpiece
    obtain ⟨line, hline, rfl⟩ := List.mem_map.1 hpiece
    simp only [List.mem_append, List.mem_cons, List.not_mem_nil, or_false, List.mem_ite_nil_right]
      at hline
    obtain (rfl | ⟨-, rfl⟩) | ⟨-, rfl⟩ := hline
    · exact quiet_modeLine _
    · exact quiet_of_name (by decide) (by decide) (hdecimal _) (by decide) (by decide)
    · exact quiet_of_name (by decide) (by decide) (h.configBind.1 0 (by simp)) (by decide) (by decide)
  have hback : ∀ st : Loading, (st.readLines env ([ascii "global_mode" ++ 61 :: s.globalMode,
      ascii "cache_ttl" ++ 61 :: printDecimal s.cacheTtlConfig].map firstPiece)).view =
        (s.globalMode, st.view.2) := by
    intro st
    have httl : Quiet env (firstPiece (ascii "cache_ttl" ++ 61 :: printDecimal s.cacheTtlConfig)) :=
      quiet_of_name (by decide) (by decide) (hdecimal _) (by decide) (by decide)
    rw [List.map_cons, List.map_singleton, readLines_cons, readLines_cons, readLines_nil, httl]
    exact readLine_globalLine hglobal (h.globalMode.1 0 (by simp)) h.globalMode.2 st
  rw [ArwsConfig.settingLines, List.map_append, List.map_append, readLines_append, readLines_append,
    hback]
  have hview := view_readLines hfront st
  generalize st.readLines env _ = st' at hview ⊢
  have hips : st'.config.maintenanceIps = st.config.maintenanceIps := congrArg (·.2.1) hview
  have hover : st'.config.overrides = st.config.overrides := congrArg (·.2.2) hview
  split_ifs with hnone
  · obtain ⟨hg, ho, hread⟩ := @readLine_ipsLine env s h st'
    refine ⟨(st'.readLine env (firstPiece (ipsLine s))).config.maintenanceIps, ?_,
      fun _ hplain hfits hjson => hread hplain hfits hjson⟩
    rw [List.map_singleton, readLines_cons, readLines_nil, ← hover, ← ho]
    rfl
  · refine ⟨st'.config.maintenanceIps, by rw [← hover]; rfl, fun hstart _ _ _ => ?_⟩
    rw [hips, hstart]
    exact (not_not.1 hnone).symm

/-! ## The overrides -/

/-- The value that the line of an override has. -/
def ModeOverride.value (o : ModeOverride) : Bytes :=
  if o.mode = [] then ascii "no-cache" else o.mode ++ if o.noCache then ascii " no-cache" else []

/-- A value is read as a mode and a flag. -/
structure ReadAs (env : LoadEnv) (val mode : Bytes) (noCache : Bool) : Prop where
  without : Without [0, 10] val
  length_le : val.length ≤ 40
  unquote_eq : unquote (trim val) = val
  not_url : isUrl (targetOf val).2 = false
  modeOf_eq : modeOf env val = (mode, noCache)

theorem readAs_noCache : ReadAs env (ascii "no-cache") [] true where
  without := by decide
  length_le := by decide
  unquote_eq := by decide
  not_url := by decide
  modeOf_eq := rfl

theorem modeOf_of_short {val : Bytes} (h : val.length < 255) :
    modeOf env val =
      if isNoCacheWord (val.takeWhile (· != 32)) then ([], true)
      else ((val.takeWhile (· != 32)).take 31,
        isNoCacheWord (trim (val.drop ((val.takeWhile (· != 32)).length + 1)))) := by
  unfold modeOf
  simp only [if_pos h]

theorem takeWhile_space {a : Bytes} (h : (32 : UInt8) ∉ a) (b : Bytes) :
    (a ++ 32 :: b).takeWhile (· != 32) = a := by
  have hall : ∀ c ∈ a, (c != 32) = true := fun c hc => bne_iff_ne.2 fun he => h (he ▸ hc)
  rw [List.takeWhile_append_of_pos hall, List.takeWhile_cons_of_neg (by simp), List.append_nil]

/-- A mode alone. -/
theorem readAs_mode {mode : Bytes} (hwithout : Without [0, 10, 32] mode) (hlen : mode.length ≤ 31)
    (hstripped : Stripped isBlank isEndBlank mode) (hunquote : unquote mode = mode)
    (hurl : isUrl mode = false) (hword : isNoCacheWord mode = false) : ReadAs env mode mode false := by
  have hspace := hwithout 32 (by simp)
  have htrim := trim_eq_self hstripped
  have hword' : ∀ word : Bytes, (32 : UInt8) ∈ word → ¬ word <+: mode :=
    fun word hmem hpre => hspace (hpre.subset hmem)
  have hall : mode.takeWhile (· != 32) = mode :=
    List.takeWhile_eq_self_iff.2 fun c hc => bne_iff_ne.2 fun he => hspace (he ▸ hc)
  refine ⟨fun c hc => hwithout c (by simp at hc ⊢; tauto), by omega, by rw [htrim, hunquote], ?_, ?_⟩
  · rw [targetOf, if_neg (hword' _ (by decide)), if_neg (hword' _ (by decide))]
    simp only [htrim, hunquote, hurl]
  · have hnone : mode.drop (mode.length + 1) = [] := List.drop_eq_nil_of_le (Nat.le_succ _)
    have hflags : isNoCacheWord (trim []) = false := by decide
    rw [modeOf_of_short (by omega), hall, hword, hnone, hflags, List.take_of_length_le hlen]
    rfl

/-- A mode with the flag behind it. -/
theorem readAs_flag {mode : Bytes} (hwithout : Without [0, 10, 32] mode) (hlen : mode.length ≤ 31)
    (hne : mode ≠ []) (hhead : ∀ c ∈ mode.head?, isBlank c = false) (hurl : isUrl mode = false)
    (hword : isNoCacheWord mode = false) : ReadAs env (mode ++ ascii " no-cache") mode true := by
  have hspace := hwithout 32 (by simp)
  have hsplit : mode ++ ascii " no-cache" = mode ++ 32 :: ascii "no-cache" := rfl
  have hflag : (ascii " no-cache").length = 9 := rfl
  have hlast : (mode ++ ascii " no-cache").getLast? = some 101 := by
    rw [List.getLast?_append]
    rfl
  have hstripped : Stripped isBlank isEndBlank (mode ++ ascii " no-cache") := by
    refine ⟨fun c hc => ?_, fun c hc => ?_⟩
    · cases mode with
      | nil => exact absurd rfl hne
      | cons d mode => exact hhead c hc
    · rw [hlast, Option.mem_some_iff] at hc
      rw [← hc]
      rfl
  have htrim := trim_eq_self hstripped
  have hunquote : unquote (mode ++ ascii " no-cache") = mode ++ ascii " no-cache" := by
    refine if_neg fun hquoted => ?_
    rw [hlast] at hquoted
    simp at hquoted
  -- a word and a blank at the front are the mode and the blank behind it
  have hwords : ∀ word : Bytes, (32 : UInt8) ∉ word → word ++ [32] <+: mode ++ ascii " no-cache" →
      mode = word := by
    rintro word hnone ⟨t, ht⟩
    rw [List.append_assoc, List.singleton_append, hsplit] at ht
    rw [← takeWhile_space hspace (ascii "no-cache"), ← ht, takeWhile_space hnone]
  refine ⟨fun c hc hmem => ?_, by rw [List.length_append, hflag]; omega, by rw [htrim, hunquote], ?_, ?_⟩
  · obtain hmem | hmem := List.mem_append.1 hmem
    · exact hwithout c (by simp at hc ⊢; tauto) hmem
    · revert hmem
      simp only [List.mem_cons, List.not_mem_nil, or_false] at hc
      obtain rfl | rfl := hc <;> decide
  · by_cases hstream : mode = ascii "stream"
    · rw [hstream]
      decide
    by_cases hredirect : mode = ascii "redirect"
    · rw [hredirect]
      decide
    have hno : ¬ ascii "stream " <+: mode ++ ascii " no-cache" :=
      fun hpre => hstream (hwords (ascii "stream") (by decide) hpre)
    have hno' : ¬ ascii "redirect " <+: mode ++ ascii " no-cache" :=
      fun hpre => hredirect (hwords (ascii "redirect") (by decide) hpre)
    rw [targetOf, if_neg hno, if_neg hno']
    simp only [htrim, hunquote]
    rw [Bool.eq_false_iff]
    intro hyes
    obtain ⟨scheme, hscheme, rest, hrest⟩ := isUrl_iff.1 hyes
    have hnone : (32 : UInt8) ∉ scheme := by
      clear hrest
      revert scheme
      decide
    have hshort : scheme <+: mode := by
      obtain hle | hlt := Nat.lt_or_ge mode.length scheme.length |>.symm
      · exact List.prefix_of_prefix_length_le ⟨rest, hrest.symm⟩ (List.prefix_append _ _) hle
      · have hpre : mode ++ [32] <+: scheme := by
          refine List.prefix_of_prefix_length_le ?_ ⟨rest, hrest.symm⟩
            (by simpa using Nat.succ_le_of_lt hlt)
          exact ⟨ascii "no-cache", by rw [hsplit]; simp⟩
        exact absurd (hpre.subset (by simp)) hnone
    obtain ⟨t, rfl⟩ := hshort
    rw [isUrl_iff.2 ⟨scheme, hscheme, t, rfl⟩] at hurl
    cases hurl
  · have hcut := takeWhile_space hspace (ascii "no-cache")
    have hdrop : (mode ++ 32 :: ascii "no-cache").drop (mode.length + 1) = ascii "no-cache" := by
      rw [← List.drop_drop, List.drop_left' rfl]
      rfl
    have hflags : isNoCacheWord (trim (ascii "no-cache")) = true := by decide
    rw [modeOf_of_short (by rw [List.length_append, hflag]; omega), hsplit, hcut, hword, hdrop, hflags,
      List.take_of_length_le hlen]
    rfl

/-- **A readable mode is read back.** -/
theorem ReadableMode.readAs {o : ModeOverride} (h : ReadableMode o) (hzero : (0 : UInt8) ∉ o.mode)
    (hlen : o.mode.length ≤ 31) :
    o.line? = some (keyedLine o.host o.path o.value) ∧ ReadAs env o.value o.mode o.noCache := by
  obtain ⟨host, path, mode, noCache⟩ := o
  rw [ReadableMode] at h
  by_cases hmode : mode = []
  · rw [if_pos hmode] at h
    subst hmode
    cases h
    exact ⟨rfl, readAs_noCache⟩
  · rw [if_neg hmode] at h
    obtain ⟨hwithout, hhead, hend, hurl, hword⟩ := h
    have hnone : Without [0, 10, 32] mode := by
      intro c hc
      rw [List.mem_cons] at hc
      obtain rfl | hc := hc
      · exact hzero
      · exact hwithout c hc
    have hline : ModeOverride.line? ⟨host, path, mode, noCache⟩ = some (keyedLine host path
        (mode ++ if noCache then ascii " no-cache" else [])) := if_pos hmode
    have hvalue : ModeOverride.value ⟨host, path, mode, noCache⟩ =
        mode ++ if noCache then ascii " no-cache" else [] := if_neg hmode
    rw [hline, hvalue]
    refine ⟨rfl, ?_⟩
    cases noCache with
    | true => exact readAs_flag hnone hlen hmode hhead hurl hword
    | false =>
      obtain hflag | ⟨hlast, hunquote⟩ := hend
      · cases hflag
      · have := @readAs_mode env mode hnone hlen ⟨hhead, hlast⟩ hunquote hurl hword
        simpa using this

/-- **The line of an override** is read as that override. -/
theorem readLine_override {o : ModeOverride} (hkey : StoredKey o.host o.path) (hne : o.path ≠ [])
    (hslash : o.path.head? ≠ some 47) (hval : ReadAs env o.value o.mode o.noCache) {st : Loading}
    (hroom : st.config.overrides.length < maxOverrides) :
    st.readLine env (firstPiece (keyedLine o.host o.path o.value)) =
      { st with config := st.config.setOverride o.host o.path o.mode o.noCache } := by
  have hle := keyLength_le hkey
  have hlen := hval.length_le
  rw [Loading.readLine, parseLine_keyedLine hkey (hval.without 0 (by simp)),
    trim_take_line_end (by omega), hval.unquote_eq, writtenPath_of_head hne hslash, Loading.read,
    readKeyed_slash env (hkey.host_without 47 (by simp)) _ _ hroom, if_neg (by simp [hval.not_url]),
    hval.modeOf_eq]

/-- What has been read of a table of overrides, some of which may stand in it more than once. -/
structure ReadSoFar (done read : List ModeOverride) : Prop where
  subset : read ⊆ done
  length_le : read.length ≤ done.length
  find?_eq : ∀ p : ModeOverride → Bool, read.find? p = done.find? p

theorem ReadSoFar.setOverride {done : List ModeOverride} {o : ModeOverride} {s : ArwsConfig}
    (h : ReadSoFar done s.overrides) (hkeys : ∀ o' ∈ done, o'.key = o.key → o' = o)
    (hhost : o.host.length ≤ 127) (hpath : o.path.length ≤ 127) :
    ReadSoFar (done ++ [o]) (s.setOverride o.host o.path o.mode o.noCache).overrides := by
  have hentry : (⟨o.host.take 127, o.path.take 127, o.mode, o.noCache⟩ : ModeOverride) = o := by
    rw [List.take_of_length_le hhost, List.take_of_length_le hpath]
  rw [ArwsConfig.setOverride, hentry]
  cases hidx : overrideIdx s.overrides o.host o.path with
  | none =>
    refine ⟨?_, ?_, fun p => ?_⟩
    · exact List.append_subset.2 ⟨List.Subset.trans h.subset (List.subset_append_left _ _),
        List.subset_append_right _ _⟩
    · simpa using h.length_le
    · rw [List.find?_append, List.find?_append, h.find?_eq]
  | some i =>
    -- the override stands in the table already
    obtain ⟨o', ho', hh, hp⟩ := key_of_overrideIdx hidx
    have hmem : o' ∈ s.overrides := List.mem_of_getElem? ho'
    have heq : o' = o := hkeys o' (h.subset hmem) (by rw [ModeOverride.key, hh, hp]; rfl)
    obtain ⟨hlt, hget⟩ := List.getElem?_eq_some_iff.1 ho'
    have hset : s.overrides.set i o = s.overrides := by
      rw [← heq, ← hget, List.set_getElem_self]
    dsimp only
    rw [hset]
    refine ⟨List.Subset.trans h.subset (List.subset_append_left _ _), ?_, fun p => ?_⟩
    · have := h.length_le
      rw [List.length_append]
      omega
    · rw [List.find?_append, h.find?_eq]
      cases hfind : done.find? p with
      | some o'' => rfl
      | none =>
        have hno : p o = false := by
          simpa using List.find?_eq_none.1 hfind o (heq ▸ h.subset hmem)
        rw [List.find?_cons, hno]
        rfl

/-- **The overrides are read back.** -/
theorem readLines_overrides {s : ArwsConfig} (h : Stored s) (hw : Writable s) {st : Loading}
    (hstart : st.config.overrides = []) :
    ∃ read, (st.readLines env (fgetsLines (unlines 10 (s.overrides.filterMap (·.line?))))).view =
        (st.config.globalMode, st.config.maintenanceIps, read) ∧
      ∀ p, read.find? p = s.overrides.find? p := by
  have hread : ∀ o ∈ s.overrides, o.line? = some (keyedLine o.host o.path o.value) ∧
      ReadAs env o.value o.mode o.noCache := fun o ho =>
    (hw.modes o ho).readAs (h.overrides o ho).2.1 (h.overrides o ho).2.2
  have hlines : s.overrides.filterMap (·.line?) =
      s.overrides.map fun o => keyedLine o.host o.path o.value := by
    rw [← List.filterMap_eq_map]
    exact List.filterMap_congr fun o ho => (hread o ho).1
  have hpieces : ∀ line ∈ s.overrides.map (fun o => keyedLine o.host o.path o.value),
      (10 : UInt8) ∉ line ∧ RestSaysNothing line := by
    intro line hline
    obtain ⟨o, ho, rfl⟩ := List.mem_map.1 hline
    have hkey := (h.overrides o ho).1
    have hle := keyLength_le hkey
    have hlen := (hread o ho).2.length_le
    exact ⟨lf_notMem_keyedLine hkey ((hread o ho).2.without 10 (by simp)),
      restSaysNothing_of_length_le (by rw [length_keyedLine]; omega)⟩
  rw [hlines, readLines_unlines env st hpieces, List.map_map]
  -- what is read behind the first of the overrides
  have hrun : ∀ (done rest : List ModeOverride) (st : Loading), s.overrides = done ++ rest →
      ReadSoFar done st.config.overrides →
      ∃ read, (st.readLines env (rest.map (firstPiece ∘ fun o => keyedLine o.host o.path o.value))).view
          = (st.config.globalMode, st.config.maintenanceIps, read) ∧
        ReadSoFar (done ++ rest) read := by
    intro done rest
    induction rest generalizing done with
    | nil =>
      intro st _ hsofar
      exact ⟨st.config.overrides, rfl, by simpa using hsofar⟩
    | cons o rest ih =>
      intro st hsplit hsofar
      have ho : o ∈ s.overrides := by simp [hsplit]
      obtain ⟨hkey, -, -⟩ := h.overrides o ho
      have hroom : st.config.overrides.length < maxOverrides := by
        have h1 := hsofar.length_le
        have h2 := h.overrides_le
        rw [hsplit, List.length_append, List.length_cons] at h2
        omega
      have hone := readLine_override hkey (hw.paths o ho).1 (hw.paths o ho).2 (hread o ho).2 hroom
      have hnext := hsofar.setOverride (fun o' ho' he => hw.keys o' (by simp [hsplit, ho']) o ho he)
        hkey.host_le hkey.path_le
      obtain ⟨read, hview, hall⟩ := ih (done ++ [o])
        { st with config := st.config.setOverride o.host o.path o.mode o.noCache }
        (by rw [hsplit, List.append_assoc]; rfl) hnext
      refine ⟨read, ?_, by rwa [List.append_assoc] at hall⟩
      have hcons : st.readLines env ((o :: rest).map
          (firstPiece ∘ fun o => keyedLine o.host o.path o.value)) =
          (st.readLine env (firstPiece (keyedLine o.host o.path o.value))).readLines env
            (rest.map (firstPiece ∘ fun o => keyedLine o.host o.path o.value)) := rfl
      have hkept : (st.config.setOverride o.host o.path o.mode o.noCache).globalMode =
          st.config.globalMode ∧ (st.config.setOverride o.host o.path o.mode o.noCache).maintenanceIps =
          st.config.maintenanceIps := by
        rw [ArwsConfig.setOverride]
        cases overrideIdx st.config.overrides o.host o.path <;> exact ⟨rfl, rfl⟩
      rw [hcons, hone, hview, hkept.1, hkept.2]
  obtain ⟨read, hview, hall⟩ := hrun [] s.overrides st rfl
    ⟨by simp [hstart], by simp [hstart], by simp [hstart]⟩
  exact ⟨read, hview, hall.find?_eq⟩

/-! ## The answers -/

theorem sameAnswers_of_view {s t : ArwsConfig} (hglobal : t.globalMode = s.globalMode)
    (hfind : ∀ p, t.overrides.find? p = s.overrides.find? p)
    (hips : t.maintenanceIps = s.maintenanceIps ∨
      s.globalMode ≠ ascii "maintenance" ∧ ∀ o ∈ s.overrides, o.mode ≠ ascii "maintenance") :
    SameAnswers s t := by
  intro host path
  have hfor : t.overrideFor host path = s.overrideFor host path := hfind _
  refine ⟨fun clientIp => ?_, by rw [arwsConfigIsNoCache, arwsConfigIsNoCache, hfor]⟩
  rw [arwsConfigGetEffectiveMode, arwsConfigGetEffectiveMode, hglobal, hfor]
  obtain hips | ⟨hg, ho⟩ := hips
  · have hip : t.isMaintenanceIp clientIp = s.isMaintenanceIp clientIp := by
      rw [ArwsConfig.isMaintenanceIp, ArwsConfig.isMaintenanceIp, hips]
    rw [hip]
  · rw [if_neg hg, if_neg hg]
    cases hover : s.overrideFor host path with
    | none => rfl
    | some o =>
      have hmode := ho o (List.mem_of_find?_eq_some hover)
      simp [hmode]

/-- **What is looked up survives the file** that it is written to, in every run whose tables can be
written. -/
theorem answersKept (env env' : LoadEnv) (file : Bytes) (s₀ : ArwsConfig) {ops : List Op}
    (hops : ∀ op ∈ ops, op.Plain) (hw : Writable (run env file s₀ ops))
    (hjson : ReadsList env'.cJSONArray (run env file s₀ ops).maintenanceIps) :
    SameAnswers (run env file s₀ ops)
      (arwsConfigLoad env' (saveConfig (run env file s₀ ops)) (run env file s₀ ops)).config := by
  have h := stored_run env file s₀ hops
  generalize run env file s₀ ops = s at hw hjson h
  have hlf : ∀ ip ∈ s.maintenanceIps, (10 : UInt8) ∉ ip := fun ip hip => by
    obtain ⟨hplain, -⟩ | ⟨hplain, -⟩ := hw.ips
    · exact hplain ip hip 10 (by simp)
    · exact hplain ip hip 10 (by simp)
  have hfit : IpsFit s := hw.ips.imp (fun hread => hread.2) fun hno ip hip => hno.1 ip hip 61 (by simp)
  have hsettings := h.settingLines hlf hfit
  have hroutes : ∀ lines : List Bytes, (∀ line ∈ lines, ∀ piece ∈ fgetsLines (line ++ [10]),
      Quiet env' piece) → ∀ st : Loading,
      (st.readLines env' (fgetsLines (unlines 10 lines))).view = st.view := by
    intro lines hlines st
    refine view_readLines (fun piece hpiece => ?_) st
    rw [fgetsLines_unlines, List.mem_flatMap] at hpiece
    obtain ⟨line, hline, hpiece⟩ := hpiece
    exact hlines line hline piece hpiece
  have hproxy : ∀ line ∈ s.proxyRoutes.map (·.proxyLine), ∀ piece ∈ fgetsLines (line ++ [10]),
      Quiet env' piece := by
    intro line hline
    obtain ⟨r, hr, rfl⟩ := List.mem_map.1 hline
    exact quiet_proxyLine (h.proxyRoutes r hr) (hw.proxyRoutes r hr)
  have hstream : ∀ line ∈ s.streamRoutes.map (·.streamLine), ∀ piece ∈ fgetsLines (line ++ [10]),
      Quiet env' piece := by
    intro line hline
    obtain ⟨r, hr, rfl⟩ := List.mem_map.1 hline
    exact quiet_streamLine (h.streamRoutes r hr) (hw.streamRoutes r hr)
  rw [load_saveConfig, readLines_unlines env' _ fun line hline =>
    ⟨(hsettings line hline).lf_notMem, (hsettings line hline).rest⟩]
  obtain ⟨ips, hset, hips⟩ := @readLines_settingLines env' s h hw.globalMode ⟨s.reset, []⟩
  generalize Loading.readLines env' ⟨s.reset, []⟩ (s.settingLines.map firstPiece) = st₁ at hset
  obtain ⟨read, hover, hfind⟩ := @readLines_overrides env' s h hw st₁ (congrArg (·.2.2) hset)
  generalize st₁.readLines env' (fgetsLines (unlines 10 (s.overrides.filterMap (·.line?)))) = st₂
    at hover
  have hlast := (hroutes _ hstream _).trans ((hroutes _ hproxy st₂).trans hover)
  generalize Loading.readLines env' (st₂.readLines env' _) _ = st₃ at hlast
  have hglobal₁ : st₁.config.globalMode = s.globalMode := congrArg (·.1) hset
  have hips₁ : st₁.config.maintenanceIps = ips := congrArg (·.2.1) hset
  rw [hglobal₁, hips₁] at hlast
  have hover₃ : st₃.config.overrides = read := congrArg (·.2.2) hlast
  refine sameAnswers_of_view (congrArg (·.1) hlast) (fun p => by rw [hover₃, hfind]) ?_
  obtain ⟨hplain, hlen⟩ | ⟨-, hno⟩ := hw.ips
  · refine Or.inl ((congrArg (·.2.1) hlast).trans (hips rfl (fun ip hip c hc => ?_) hlen hjson))
    rw [List.mem_cons] at hc
    obtain rfl | hc := hc
    · exact (h.maintenanceIps ip hip).1
    · exact hplain ip hip c (List.mem_cons_of_mem _ hc)
  · exact Or.inr hno

/-- A run with an address, an override of the file and one that is added. -/
theorem answersKept_of_star : ∃ (env : LoadEnv) (s : ArwsConfig), s.overrides.length = 2 ∧
    s.maintenanceIps = [ascii "10.0.0.1"] ∧
    SameAnswers s (arwsConfigLoad env (saveConfig s) s).config := by
  let env : LoadEnv :=
    ⟨fun text => if text = ascii "[\"10.0.0.1\"]" then some [ascii "10.0.0.1"] else none, fun _ => []⟩
  let file := ascii "maintenance_ips = [\"10.0.0.1\"]\n\"a.com/*\" = test no-cache\n"
  let ops := [Op.addOverride (ascii "b.com") (ascii "*") (ascii "maintenance")]
  have hrun : run env file .initial ops = { ArwsConfig.initial with
      overrides := [⟨ascii "a.com", [42], ascii "test", true⟩,
        ⟨ascii "b.com", [42], ascii "maintenance", false⟩]
      maintenanceIps := [ascii "10.0.0.1"] } := by decide
  have hw : Writable (run env file .initial ops) := by
    rw [hrun]
    exact ⟨by decide, by decide, by decide, by decide, Or.inl ⟨by decide, by decide⟩, by decide,
      by decide⟩
  refine ⟨env, run env file .initial ops, by rw [hrun]; rfl, by rw [hrun], ?_⟩
  refine answersKept env env file .initial ?_ hw ?_
  · intro op hop
    rw [List.mem_singleton.1 hop]
    exact ⟨plainName_of_all (by decide) (by decide) (by decide), by decide,
      plainName_of_all (by decide) (by decide) (by decide), by decide⟩
  · rw [hrun]
    intro _
    decide

/-- An override whose path begins with a slash, as that of a registered backend does. -/
theorem not_answersKept : ¬ ∀ (env env' : LoadEnv) (file : Bytes) (s₀ : ArwsConfig) (ops : List Op),
    (∀ op ∈ ops, op.Plain) → SameAnswers (run env file s₀ ops)
      (arwsConfigLoad env' (saveConfig (run env file s₀ ops)) (run env file s₀ ops)).config := by
  intro h
  let env : LoadEnv := ⟨fun _ => none, fun _ => []⟩
  let ops := [Op.addOverride (ascii "a.com") (ascii "/api") (ascii "maintenance")]
  have hplain : ∀ op ∈ ops, op.Plain := by
    intro op hop
    rw [List.mem_singleton.1 hop]
    exact ⟨plainName_of_all (by decide) (by decide) (by decide), by decide,
      plainName_of_all (by decide) (by decide) (by decide), by decide⟩
  have hrun : run env [] .initial ops = { ArwsConfig.initial with
      overrides := [⟨ascii "a.com", ascii "/api", ascii "maintenance", false⟩] } := by decide
  have hsame := (h env env [] .initial ops hplain (ascii "a.com") (ascii "/api")).1 none
  rw [hrun, load_saveConfig] at hsame
  revert hsame
  decide

end Config
end Arws

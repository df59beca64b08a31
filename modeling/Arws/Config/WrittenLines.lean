import Arws.Config.Save

/-!
# The lines of a written file

What `arws_config_load` reads of a file that `save_config` has written.  A line of any length is
written, and the buffer takes the first 511 bytes of it; what is left is read as if it were a line
of its own.

* `targetOf_proxy`, `targetOf_stream` — the line of a route is read as that route;
* `Stored` — what holds of the tables in every run, and lets a key be read back.
-/

set_option autoImplicit false

namespace Arws
namespace Config

open CString TextFile

/-! ## Pieces -/

/-- The pieces of a text are the pieces of its lines. -/
theorem fgetsLines_unlines (lines : List Bytes) :
    fgetsLines (unlines 10 lines) = lines.flatMap fun line => fgetsLines (line ++ [10]) := by
  induction lines with
  | nil => rfl
  | cons line lines ih =>
    have hone : unlines 10 [line] = line ++ [10] := by simp [unlines]
    have hsplit : fgetsLines (unlines 10 ([line] ++ lines)) =
        fgetsLines (unlines 10 [line]) ++ fgetsLines (unlines 10 lines) :=
      pieces_unlines_append [line] lines
    rw [← List.singleton_append, hsplit, hone, ih]
    rfl

/-- What the buffer takes of a line at first. -/
def firstPiece (line : Bytes) : Bytes := (line ++ [10]).take 511

/-- The first piece of a line begins with what the line begins with. -/
theorem firstPiece_append {pre val : Bytes} (h : pre.length ≤ 511) :
    firstPiece (pre ++ val) = pre ++ (val ++ [10]).take (511 - pre.length) := by
  rw [firstPiece, List.append_assoc, List.take_append, List.take_of_length_le h]

/-- A value that fits is read with or without the line end. -/
theorem take_line_end {val : Bytes} {k : Nat} (h : val.length ≤ k) :
    (val ++ [10]).take k = val ∨ (val ++ [10]).take k = val ++ [10] := by
  obtain heq | hlt := Nat.eq_or_lt_of_le h
  · exact Or.inl (by rw [← heq, List.take_left' rfl])
  · refine Or.inr (List.take_of_length_le ?_)
    rw [List.length_append, List.length_singleton]
    exact hlt

theorem zero_notMem_take {val : Bytes} (h : (0 : UInt8) ∉ val) (k : Nat) :
    (0 : UInt8) ∉ (val ++ [10]).take k := by
  intro hmem
  obtain hmem | hmem := List.mem_append.1 (List.mem_of_mem_take hmem)
  · exact h hmem
  · simp at hmem

/-! ## Values -/

theorem trim_eq_self {s : Bytes} (h : Stripped isBlank isEndBlank s) : trim s = s := strip_eq_self h

theorem trim_append_lf (s : Bytes) : trim (s ++ [10]) = trim s := strip_append_singleton rfl

/-- What a value that fits is read as. -/
theorem trim_take_line_end {val : Bytes} {k : Nat} (h : val.length ≤ k) :
    trim ((val ++ [10]).take k) = trim val := by
  obtain heq | heq := take_line_end h
  · rw [heq]
  · rw [heq, trim_append_lf]

/-- The texts that a target begins with. -/
def schemes : List Bytes := [ascii "http://", ascii "https://", ascii "ws://", ascii "wss://"]

theorem isUrl_iff {s : Bytes} : isUrl s = true ↔ ∃ scheme ∈ schemes, ∃ rest, s = scheme ++ rest := by
  simp only [isUrl, schemes, Bool.or_eq_true, List.isPrefixOf_iff_prefix, List.mem_cons,
    List.not_mem_nil, or_false, exists_eq_or_imp, exists_eq_left, or_assoc]
  refine or_congr ?_ (or_congr ?_ (or_congr ?_ ?_)) <;>
    exact ⟨fun ⟨t, ht⟩ => ⟨t, ht.symm⟩, fun ⟨t, ht⟩ => ⟨t, ht.symm⟩⟩

/-- A target that is copied to a field is not read as nothing. -/
theorem text_strncpy_url {a : CharArray 256} {target : Bytes} (h : isUrl target = true) :
    (a.strncpy target).text ≠ [] := by
  have hfirst : ∀ scheme ∈ schemes, ∃ c t, scheme = c :: t ∧ c ≠ 0 := by
    simp [schemes, ascii]
  obtain ⟨scheme, hscheme, rest, rfl⟩ := isUrl_iff.1 h
  obtain ⟨c, t, rfl, hc⟩ := hfirst scheme hscheme
  rw [CharArray.text, CharArray.strncpy]
  simp [cstr, hc]

theorem scheme_facts {scheme : Bytes} (h : scheme ∈ schemes) :
    scheme ≠ [] ∧ scheme.length ≤ 8 ∧ Stripped isBlank isEndBlank scheme ∧
      Stripped isBlank isEndBlank (ascii "stream " ++ scheme) ∧ scheme.head? ≠ some 34 ∧
      scheme.head? ≠ some 115 ∧ scheme.head? ≠ some 114 := by
  revert scheme
  decide

theorem unquote_eq_self {s : Bytes} (h : s.head? ≠ some 34) : unquote s = s :=
  if_neg fun hquoted => h hquoted.2.1

/-- A stripped target is a target without quotes. -/
theorem trim_of_isUrl {s : Bytes} (h : isUrl s = true) :
    isUrl (trim s) = true ∧ unquote (trim s) = trim s ∧ trim (trim s) = trim s := by
  obtain ⟨scheme, hscheme, rest, rfl⟩ := isUrl_iff.1 h
  obtain ⟨hne, -, hstripped, -, hquote, -⟩ := scheme_facts hscheme
  rw [trim_append hne hstripped]
  refine ⟨isUrl_iff.2 ⟨scheme, hscheme, _, rfl⟩, unquote_eq_self ?_, ?_⟩
  · cases scheme with
    | nil => exact absurd rfl hne
    | cons c scheme => exact hquote
  · rw [trim_append hne hstripped, List.rdropWhile_idempotent]

theorem isUrl_take {s : Bytes} {k : Nat} (h : isUrl s = true) (hk : 8 ≤ k) :
    isUrl (s.take k) = true := by
  obtain ⟨scheme, hscheme, rest, rfl⟩ := isUrl_iff.1 h
  have hlen := (scheme_facts hscheme).2.1
  refine isUrl_iff.2 ⟨scheme, hscheme, rest.take (k - scheme.length), ?_⟩
  rw [List.take_append, List.take_of_length_le (by omega)]

theorem isUrl_append {s : Bytes} (h : isUrl s = true) (t : Bytes) : isUrl (s ++ t) = true := by
  obtain ⟨scheme, hscheme, rest, rfl⟩ := isUrl_iff.1 h
  exact isUrl_iff.2 ⟨scheme, hscheme, rest ++ t, List.append_assoc _ _ _⟩

/-- **The value of a proxy route** is read as one. -/
theorem targetOf_proxy {s : Bytes} (h : isUrl s = true) :
    targetOf (unquote (trim s)) = (.proxy, trim s) := by
  obtain ⟨hurl, hunquote, hidem⟩ := trim_of_isUrl h
  have hhead : ∀ pre : Bytes, pre.head? = some 115 ∨ pre.head? = some 114 → ¬ pre <+: trim s := by
    rintro pre hpre ⟨t, ht⟩
    obtain ⟨scheme, hscheme, rest, hrest⟩ := isUrl_iff.1 hurl
    obtain ⟨hne, -, -, -, -, h115, h114⟩ := scheme_facts hscheme
    have hheads := congrArg List.head? (ht.trans hrest)
    cases pre with
    | nil => simp at hpre
    | cons c pre =>
      cases scheme with
      | nil => exact hne rfl
      | cons d scheme =>
        rw [List.cons_append, List.cons_append, List.head?_cons, List.head?_cons] at hheads
        obtain hpre | hpre := hpre
        · exact h115 (hheads.symm.trans hpre)
        · exact h114 (hheads.symm.trans hpre)
  rw [hunquote, targetOf, if_neg (hhead _ (Or.inl rfl)), if_neg (hhead _ (Or.inr rfl))]
  simp only [hidem, hunquote]

/-- **The value of a stream route** is read as one. -/
theorem targetOf_stream {s : Bytes} (h : isUrl s = true) :
    targetOf (unquote (trim (ascii "stream " ++ s))) = (.stream, trim s) := by
  obtain ⟨hurl, hunquote, hidem⟩ := trim_of_isUrl h
  have htrim : trim (ascii "stream " ++ s) = ascii "stream " ++ trim s := by
    obtain ⟨scheme, hscheme, rest, rfl⟩ := isUrl_iff.1 h
    obtain ⟨hne, -, hstripped, hstream, -⟩ := scheme_facts hscheme
    rw [← List.append_assoc, trim_append (by simp [hne]) hstream, trim_append hne hstripped,
      List.append_assoc]
  have hhead : (ascii "stream " ++ trim s).head? ≠ some 34 := by
    have : (ascii "stream " ++ trim s).head? = some 115 := rfl
    rw [this]
    decide
  have hdrop : (ascii "stream " ++ trim s).drop 7 = trim s := List.drop_left' rfl
  rw [htrim, unquote_eq_self hhead, targetOf, if_pos (List.prefix_append _ _), hdrop]
  simp only [hidem, hunquote]

/-! ## What the tables hold -/

/-- A text in which certain bytes do not occur. -/
def Without (bytes : List UInt8) (s : Bytes) : Prop := ∀ c ∈ bytes, c ∉ s

instance (bytes : List UInt8) (s : Bytes) : Decidable (Without bytes s) :=
  List.decidableBAll (fun c => c ∉ s) bytes

theorem Without.mono {bytes : List UInt8} {s t : Bytes} (h : Without bytes s) (hst : t ⊆ s) :
    Without bytes t := fun c hc hmem => h c hc (hst hmem)

/-- A host and a path that can be read back from a line. -/
structure StoredKey (host path : Bytes) : Prop where
  host_without : Without [0, 10, 34, 47] host
  path_without : Without [0, 10, 34] path
  host_le : host.length ≤ 127
  path_le : path.length ≤ 127

structure StoredRoute (r : ProxyRouteEntry) : Prop where
  key : StoredKey r.host r.path
  target_without : Without [0, 10] r.targetUrl
  target_le : r.targetUrl.length ≤ 255
  target_isUrl : isUrl r.targetUrl = true

/-- **What holds of the tables in every run.** -/
structure Stored (s : ArwsConfig) : Prop where
  overrides : ∀ o ∈ s.overrides, StoredKey o.host o.path ∧ (0 : UInt8) ∉ o.mode ∧ o.mode.length ≤ 31
  overrides_le : s.overrides.length ≤ maxOverrides
  proxyRoutes : ∀ r ∈ s.proxyRoutes, StoredRoute r
  streamRoutes : ∀ r ∈ s.streamRoutes, StoredRoute r
  globalMode : Without [0, 10] s.globalMode ∧ s.globalMode.length ≤ 15
  configBind : Without [0, 10] s.configBind ∧ s.configBind.length ≤ 63
  maintenanceIps : ∀ ip ∈ s.maintenanceIps, (0 : UInt8) ∉ ip ∧ ip.length ≤ 63
  maintenanceIps_le : s.maintenanceIps.length ≤ maxMaintenanceIps

theorem notMem_trim {s : Bytes} (h : (10 : UInt8) ∉ s.dropLast) : (10 : UInt8) ∉ trim s := by
  induction s using List.reverseRecOn with
  | nil => simp [trim, strip]
  | append_singleton s c _ =>
    rw [List.dropLast_concat] at h
    by_cases hc : c = 10
    · rw [hc, trim_append_lf]
      exact fun hmem => h (mem_of_mem_trim hmem)
    · intro hmem
      obtain hmem | hmem := List.mem_append.1 (mem_of_mem_trim hmem)
      · exact h hmem
      · exact hc (List.mem_singleton.1 hmem).symm

/-- The parts of a line have no line end, and a key has no quote. -/
def ConfigLine.Clean : ConfigLine → Prop
  | .nothing => True
  | .keyed key val => Without [0, 10, 34] key ∧ Without [0, 10] val
  | .setting _ value => Without [0, 10] value

theorem clean_parseLine {piece : Bytes} (h : (10 : UInt8) ∉ piece.dropLast) :
    (parseLine piece).Clean := by
  have hline : (10 : UInt8) ∉ (cstr piece).dropLast := by
    obtain ⟨rest, hrest⟩ := cstr_isPrefix piece
    cases rest with
    | nil =>
      rw [List.append_nil] at hrest
      rwa [hrest]
    | cons c rest =>
      rw [← hrest, List.dropLast_append_of_ne_nil (List.cons_ne_nil c rest)] at h
      exact fun hmem => h (List.mem_append_left _ (List.mem_of_mem_dropLast hmem))
  have htext : Without [0, 10] (trim (cstr piece)) := by
    intro c hc
    simp only [List.mem_cons, List.not_mem_nil, or_false] at hc
    obtain rfl | rfl := hc
    · exact fun hmem => zero_notMem_cstr piece (mem_of_mem_trim hmem)
    · exact notMem_trim hline
  rw [parseLine]
  split
  · trivial
  · rename_i rest hrest
    rw [hrest] at htext
    have htext : Without [0, 10] rest := htext.mono (List.subset_cons_self _ _)
    cases hclose : strchr 34 rest with
    | none => trivial
    | some close =>
      dsimp only
      cases strchr 61 (rest.drop (close + 1)) with
      | none => trivial
      | some eq =>
        refine ⟨fun c hc => ?_, htext.mono fun c hc => ?_⟩
        · simp only [List.mem_cons, List.not_mem_nil, or_false] at hc
          obtain rfl | rfl | rfl := hc
          · exact fun hmem => htext 0 (by simp) (List.mem_of_mem_take hmem)
          · exact fun hmem => htext 10 (by simp) (List.mem_of_mem_take hmem)
          · exact (strchr_eq_some hclose).2
        · exact List.mem_of_mem_drop (mem_of_mem_trim (mem_of_mem_unquote hc))
  · rename_i c rest hc hrest
    rw [hrest] at htext
    split_ifs
    · trivial
    · cases strchr 61 (c :: rest) with
      | none => trivial
      | some eq => exact htext.mono fun d hd => List.mem_of_mem_drop (mem_of_mem_trim hd)

theorem storedKey_take {host path : Bytes} (hkey : Without [0, 10, 34] (host ++ 47 :: path))
    (hhost : (47 : UInt8) ∉ host) : StoredKey (host.take 127) (path.take 127) where
  host_without := by
    intro c hc hmem
    have hmem := List.mem_of_mem_take hmem
    simp only [List.mem_cons, List.not_mem_nil, or_false] at hc
    obtain rfl | rfl | rfl | rfl := hc
    · exact hkey 0 (by simp) (List.mem_append_left _ hmem)
    · exact hkey 10 (by simp) (List.mem_append_left _ hmem)
    · exact hkey 34 (by simp) (List.mem_append_left _ hmem)
    · exact hhost hmem
  path_without := hkey.mono fun c hc =>
    List.mem_append_right _ (List.mem_cons_of_mem _ (List.mem_of_mem_take hc))
  host_le := List.length_take_le _ _
  path_le := List.length_take_le _ _

theorem targetOf_subset (val : Bytes) : (targetOf val).2 ⊆ val := by
  have hclean : ∀ s : Bytes, trim (unquote (trim s)) ⊆ s := fun s c hc =>
    mem_of_mem_trim (mem_of_mem_unquote (mem_of_mem_trim hc))
  rw [targetOf]
  split_ifs
  · exact fun c hc => List.mem_of_mem_drop (hclean _ hc)
  · exact fun c hc => List.mem_of_mem_drop (hclean _ hc)
  · exact hclean val

/-- The mode of an override is a part of its value, whatever is behind the array. -/
theorem modeOf_subset (env : LoadEnv) (val : Bytes) :
    (modeOf env val).1 ⊆ val ∧ (modeOf env val).1.length ≤ 31 := by
  have hcut : ∀ s : Bytes, ((s.takeWhile (· != 32)).take 31) ⊆ s.take 31 := by
    intro s
    obtain ⟨t, ht⟩ := List.takeWhile_prefix (p := (· != 32)) (l := s)
    conv_rhs => rw [← ht]
    rw [List.take_append]
    exact List.subset_append_left _ _
  have hvalue : (if val.length < 255 then val else val.take 255 ++ env.behind val).take 31 ⊆ val := by
    split
    · exact List.take_subset _ _
    · rw [List.take_append_of_le_length (by rw [List.length_take]; omega)]
      exact List.Subset.trans (List.take_subset _ _) (List.take_subset _ _)
  unfold modeOf
  generalize (if val.length < 255 then val else val.take 255 ++ env.behind val) = value at hvalue ⊢
  dsimp only
  split
  · exact ⟨List.nil_subset _, Nat.zero_le _⟩
  · exact ⟨List.Subset.trans (hcut _) hvalue, List.length_take_le _ _⟩

/-! ## Loading -/

theorem stored_reset (s : ArwsConfig) : Stored s.reset where
  overrides := by simp [ArwsConfig.reset]
  overrides_le := Nat.zero_le _
  proxyRoutes := by simp [ArwsConfig.reset]
  streamRoutes := by simp [ArwsConfig.reset]
  globalMode := (by decide : Without [0, 10] (ascii "production") ∧ (ascii "production").length ≤ 15)
  configBind := (by decide : Without [0, 10] [] ∧ ([] : Bytes).length ≤ 63)
  maintenanceIps := by simp [ArwsConfig.reset]
  maintenanceIps_le := Nat.zero_le _

theorem Stored.readSetting {s : ArwsConfig} (h : Stored s) (env : LoadEnv) (name : Bytes)
    {value : Bytes} (hvalue : Without [0, 10] value) : Stored (s.readSetting env name value) := by
  rw [ArwsConfig.readSetting]
  split_ifs
  · exact { h with }
  · exact { h with }
  · exact h
  · exact { h with
      globalMode := ⟨hvalue.mono (List.take_subset _ _), List.length_take_le _ _⟩ }
  · exact { h with }
  · exact h
  · exact { h with
      configBind := ⟨hvalue.mono (List.take_subset _ _), List.length_take_le _ _⟩ }
  · exact { h with }
  · exact h
  · cases env.cJSONArray value with
    | none => exact h
    | some ips =>
      refine { h with maintenanceIps := ?_, maintenanceIps_le := ?_ }
      · intro ip hip
        obtain ⟨ip, -, rfl⟩ := List.mem_map.1 hip
        exact ⟨fun hmem => zero_notMem_cstr ip (List.mem_of_mem_take hmem), List.length_take_le _ _⟩
      · rw [List.length_map]
        exact List.length_take_le _ _
  · exact h

theorem mem_recordRoute {routes : List ProxyRouteEntry} {host path target : Bytes}
    {r : ProxyRouteEntry} (h : r ∈ recordRoute routes host path target) :
    r ∈ routes ∨ r = ⟨host.take 127, path.take 127, target.take 255⟩ := by
  rw [recordRoute] at h
  split at h
  · simpa using h
  · exact Or.inl h

theorem Stored.addRoute {st : Loading} (h : Stored st.config) {kind : RouteKind}
    {host path target : Bytes} (hkey : StoredKey (host.take 127) (path.take 127))
    (htarget : Without [0, 10] target) (hurl : isUrl target = true) :
    Stored (st.addRoute kind host path target).config := by
  have hentry : StoredRoute ⟨host.take 127, path.take 127, target.take 255⟩ :=
    ⟨hkey, htarget.mono (List.take_subset _ _), List.length_take_le _ _, isUrl_take hurl (by decide)⟩
  have hroutes : ∀ routes : List ProxyRouteEntry, (∀ r ∈ routes, StoredRoute r) →
      ∀ r ∈ recordRoute routes host path target, StoredRoute r := by
    intro routes hroutes r hr
    obtain hr | rfl := mem_recordRoute hr
    · exact hroutes r hr
    · exact hentry
  cases kind with
  | redirect => exact h
  | stream => exact { h with streamRoutes := hroutes _ h.streamRoutes }
  | proxy => exact { h with proxyRoutes := hroutes _ h.proxyRoutes }

theorem Stored.setOverride {s : ArwsConfig} (h : Stored s) {host path mode : Bytes} (noCache : Bool)
    (hkey : StoredKey (host.take 127) (path.take 127)) (hmode : (0 : UInt8) ∉ mode)
    (hlen : mode.length ≤ 31) (hroom : s.overrides.length < maxOverrides) :
    Stored (s.setOverride host path mode noCache) := by
  have hall := fun o (ho : o ∈ (s.setOverride host path mode noCache).overrides) =>
    mem_setOverride ho
  have hoverrides : ∀ o ∈ (s.setOverride host path mode noCache).overrides,
      StoredKey o.host o.path ∧ (0 : UInt8) ∉ o.mode ∧ o.mode.length ≤ 31 := by
    intro o ho
    obtain ho | rfl := hall o ho
    · exact h.overrides o ho
    · exact ⟨hkey, hmode, hlen⟩
  clear hall
  rw [ArwsConfig.setOverride] at hoverrides ⊢
  cases hidx : overrideIdx s.overrides host path with
  | none =>
    rw [hidx] at hoverrides
    exact { h with overrides := hoverrides, overrides_le := by simpa using Nat.succ_le_of_lt hroom }
  | some i =>
    rw [hidx] at hoverrides
    exact { h with overrides := hoverrides, overrides_le := by simpa using h.overrides_le }

theorem Stored.readLine {st : Loading} (h : Stored st.config) (env : LoadEnv) {piece : Bytes}
    (hpiece : (10 : UInt8) ∉ piece.dropLast) : Stored (st.readLine env piece).config := by
  have hclean := clean_parseLine hpiece
  have heffect := lineEffect_readLine env st piece
  generalize st.readLine env piece = st' at heffect ⊢
  cases heffect with
  | nothing => exact h
  | setting name value hline =>
    rw [hline] at hclean
    exact h.readSetting env name hclean
  | route host path val hline hhost hroom hurl =>
    rw [hline] at hclean
    exact h.addRoute (storedKey_take hclean.1 hhost) (hclean.2.mono (targetOf_subset val)) hurl
  | override host path val hline hhost hroom hurl =>
    rw [hline] at hclean
    obtain ⟨hsub, hlen⟩ := modeOf_subset env val
    exact h.setOverride _ (storedKey_take hclean.1 hhost) (hclean.2.mono hsub 0 (by simp)) hlen hroom

/-- **Every file is loaded to such tables.** -/
theorem stored_load (env : LoadEnv) (file : Bytes) (s₀ : ArwsConfig) :
    Stored (arwsConfigLoad env file s₀).config := by
  rw [arwsConfigLoad, Loading.readLines]
  have hpieces : ∀ piece ∈ fgetsLines file, (10 : UInt8) ∉ piece.dropLast :=
    fun piece hpiece => notMem_dropLast_of_mem_pieces hpiece
  generalize fgetsLines file = pieces at hpieces
  have hstart : Stored (⟨s₀.reset, []⟩ : Loading).config := stored_reset s₀
  generalize (⟨s₀.reset, []⟩ : Loading) = st at hstart
  induction pieces generalizing st with
  | nil => exact hstart
  | cons piece pieces ih =>
    exact ih (fun p hp => hpieces p (List.mem_cons_of_mem _ hp)) _
      (hstart.readLine env (hpieces piece List.mem_cons_self))

/-! ## The lines of a file that has been written -/

/-- What is left of a line says nothing. -/
def RestSaysNothing (line : Bytes) : Prop :=
  ∀ piece ∈ fgetsLines ((line ++ [10]).drop 511), parseLine piece = .nothing

/-- A line without a sign of equality behind what the buffer takes of it. -/
theorem restSaysNothing_of_notMem {line : Bytes} (h : (61 : UInt8) ∉ line.drop 511) :
    RestSaysNothing line := by
  intro piece hpiece
  refine parseLine_of_notMem fun hmem => ?_
  have hmem := (infix_of_mem_pieces hpiece).subset hmem
  rw [List.drop_append] at hmem
  obtain hmem | hmem := List.mem_append.1 hmem
  · exact h hmem
  · have := List.mem_of_mem_drop hmem
    simp at this

theorem restSaysNothing_of_length_le {line : Bytes} (h : line.length ≤ 511) : RestSaysNothing line :=
  restSaysNothing_of_notMem (by rw [List.drop_eq_nil_of_le h]; exact List.not_mem_nil)

/-- **Lines are read as their first pieces** when what is left of them says nothing. -/
theorem readLines_unlines (env : LoadEnv) (st : Loading) {lines : List Bytes}
    (h : ∀ line ∈ lines, (10 : UInt8) ∉ line ∧ RestSaysNothing line) :
    st.readLines env (fgetsLines (unlines 10 lines)) = st.readLines env (lines.map firstPiece) := by
  rw [fgetsLines_unlines]
  induction lines generalizing st with
  | nil => rfl
  | cons line lines ih =>
    obtain ⟨hlf, hrest⟩ := h line List.mem_cons_self
    have hnothing : ∀ pieces : List Bytes, (∀ piece ∈ pieces, parseLine piece = .nothing) →
        ∀ st : Loading, st.readLines env pieces = st := by
      intro pieces hpieces
      induction pieces with
      | nil => exact fun st => rfl
      | cons piece pieces ihp =>
        intro st
        have hone : st.readLine env piece = st := by
          rw [Loading.readLine, hpieces piece List.mem_cons_self, Loading.read]
        have hcons : st.readLines env (piece :: pieces) = (st.readLine env piece).readLines env pieces :=
          rfl
        rw [hcons, hone, ihp fun p hp => hpieces p (List.mem_cons_of_mem _ hp)]
    have hline : ∀ st : Loading, st.readLines env (fgetsLines (line ++ [10])) =
        st.readLine env (firstPiece line) := by
      intro st
      have hsplit : fgetsLines (line ++ [10]) =
          firstPiece line :: fgetsLines ((line ++ [10]).drop 511) := pieces_line hlf
      rw [hsplit]
      exact hnothing _ hrest _
    rw [List.flatMap_cons, readLines_append, hline]
    exact ih (st.readLine env (firstPiece line)) fun l hl => h l (List.mem_cons_of_mem _ hl)

/-- The guide is read as comments. -/
theorem readLines_guideComments (env : LoadEnv) (st : Loading) :
    st.readLines env (fgetsLines (unlines 10 guideComments)) = st := by
  have hfacts := guideComments_facts
  generalize guideComments = lines at hfacts
  rw [readLines_unlines env st fun line hline =>
    ⟨(hfacts line hline).2.1, restSaysNothing_of_length_le (hfacts line hline).2.2⟩]
  induction lines with
  | nil => rfl
  | cons line lines ih =>
    have hone : st.readLine env (firstPiece line) = st := by
      have hhead := (hfacts line List.mem_cons_self).1
      cases line with
      | nil => cases hhead
      | cons c line =>
        cases hhead
        rw [Loading.readLine, firstPiece, List.cons_append, List.take_succ_cons, parseLine_comment]
        rfl
    have hcons : st.readLines env ((line :: lines).map firstPiece) =
        (st.readLine env (firstPiece line)).readLines env (lines.map firstPiece) := rfl
    rw [hcons, hone]
    exact ih fun l hl => hfacts l (List.mem_cons_of_mem _ hl)

/-- **The first piece of a line with a name.** -/
theorem parseLine_firstPiece {name val : Bytes} (h : IsName name) (hlen : name.length ≤ 510)
    (hval : (0 : UInt8) ∉ val) :
    parseLine (firstPiece (name ++ 61 :: val)) =
      .setting (trim name) (trim ((val ++ [10]).take (510 - name.length))) := by
  have hsplit : name ++ 61 :: val = (name ++ [61]) ++ val := by simp
  have hpre : (name ++ [61]).length = name.length + 1 := by simp
  have hroom : 511 - (name.length + 1) = 510 - name.length := by omega
  rw [hsplit, firstPiece_append (by omega), hpre, hroom, List.append_assoc, List.singleton_append]
  exact parseLine_setting h (zero_notMem_take hval _)

theorem writtenPath_of_head {path : Bytes} (hne : path ≠ []) (hslash : path.head? ≠ some 47) :
    writtenPath path = path := by
  cases path with
  | nil => exact absurd rfl hne
  | cons c path =>
    have hc : (c == 47) = false := beq_eq_false_iff_ne.2 fun he => hslash (by rw [he]; rfl)
    have hdrop : (c :: path).dropWhile (· == 47) = c :: path := by
      rw [List.dropWhile_cons, hc]
      rfl
    rw [writtenPath, hdrop]
    rfl

theorem writtenPath_stored {host path : Bytes} (h : StoredKey host path) :
    Without [0, 10, 34] (writtenPath path) ∧ (writtenPath path).length ≤ 127 := by
  have hsuffix := List.dropWhile_suffix (l := path) (· == 47)
  unfold writtenPath
  dsimp only
  split
  · decide
  · exact ⟨h.path_without.mono hsuffix.subset, hsuffix.length_le.trans h.path_le⟩

/-- How many bytes stand before the value. -/
def keyLength (host path : Bytes) : Nat := host.length + (writtenPath path).length + 6

theorem keyLength_le {host path : Bytes} (h : StoredKey host path) : keyLength host path ≤ 260 := by
  have h1 := h.host_le
  have h2 := (writtenPath_stored h).2
  rw [keyLength]
  omega

theorem length_keyedLine (host path val : Bytes) :
    (keyedLine host path val).length = keyLength host path + val.length := by
  have hlen : (ascii "\" = ").length = 4 := rfl
  simp only [keyedLine, keyLength, List.length_append, List.length_cons, hlen]
  omega

theorem lf_notMem_keyedLine {host path val : Bytes} (h : StoredKey host path)
    (hval : (10 : UInt8) ∉ val) : (10 : UInt8) ∉ keyedLine host path val := by
  have h1 := h.host_without 10 (by simp)
  have h2 := (writtenPath_stored h).1 10 (by simp)
  have h3 : (10 : UInt8) ∉ ascii "\" = " := by decide
  simp [keyedLine, h1, h2, h3, hval]

/-- **The first piece of a line with a key.** -/
theorem parseLine_keyedLine {host path val : Bytes} (h : StoredKey host path)
    (hval : (0 : UInt8) ∉ val) :
    parseLine (firstPiece (keyedLine host path val)) =
      .keyed (host ++ 47 :: writtenPath path)
        (unquote (trim ((val ++ [10]).take (511 - keyLength host path)))) := by
  obtain ⟨hpath, -⟩ := writtenPath_stored h
  have hkey : ∀ c ∈ [(0 : UInt8), 34], c ∉ host ++ 47 :: writtenPath path := by
    intro c hc hmem
    rw [List.mem_append, List.mem_cons] at hmem
    simp only [List.mem_cons, List.not_mem_nil, or_false] at hc
    obtain rfl | rfl := hc
    · obtain hmem | hmem | hmem := hmem
      · exact h.host_without 0 (by simp) hmem
      · cases hmem
      · exact hpath 0 (by simp) hmem
    · obtain hmem | hmem | hmem := hmem
      · exact h.host_without 34 (by simp) hmem
      · cases hmem
      · exact hpath 34 (by simp) hmem
  have hlen := length_keyedLine host path []
  rw [List.length_nil, Nat.add_zero, keyedLine, List.append_nil] at hlen
  have hle := keyLength_le h
  rw [keyedLine, firstPiece_append (by omega), hlen]
  exact parseLine_keyed (hkey 34 (by simp)) (hkey 0 (by simp)) (zero_notMem_take hval _)

/-! ## The lines with a name -/

theorem printDecimal_without (n : Int) : Without [0, 10, 61] (printDecimal n) := by
  intro c hc hmem
  have hcases := mem_printDecimal hmem
  simp only [List.mem_cons, List.not_mem_nil, or_false] at hc
  obtain rfl | rfl | rfl := hc <;> revert hcases <;> decide

/-- A line with a name and a value is one setting. -/
structure SettingLine (line : Bytes) : Prop where
  lf_notMem : (10 : UInt8) ∉ line
  rest : RestSaysNothing line
  setting : ∃ name value, parseLine (firstPiece line) = .setting name value

theorem settingLine {name val : Bytes} (hname : IsName name) (hlf : (10 : UInt8) ∉ name)
    (hlen : name.length ≤ 510) (hval : Without [0, 10] val)
    (hrest : (name ++ 61 :: val).length ≤ 511 ∨ (61 : UInt8) ∉ val) :
    SettingLine (name ++ 61 :: val) where
  lf_notMem := by
    have h10 := hval 10 (by simp)
    simp [hlf, h10]
  rest := by
    obtain hfits | hnone := hrest
    · exact restSaysNothing_of_length_le hfits
    · refine restSaysNothing_of_notMem fun hmem => hnone ?_
      have hsplit : name ++ 61 :: val = (name ++ [61]) ++ val := by simp
      have hname511 : (name ++ [61]).length ≤ 511 := by
        rw [List.length_append, List.length_singleton]
        omega
      rw [hsplit, List.drop_append, List.drop_eq_nil_of_le hname511, List.nil_append] at hmem
      exact List.mem_of_mem_drop hmem
  setting := ⟨_, _, parseLine_firstPiece hname hlen (hval 0 (by simp))⟩

theorem mem_intercalate {c : UInt8} {sep : Bytes} {parts : List Bytes}
    (h : c ∈ sep.intercalate parts) : c ∈ sep ∨ ∃ part ∈ parts, c ∈ part := by
  induction parts with
  | nil => simp [List.intercalate_nil] at h
  | cons part parts ih =>
    cases parts with
    | nil =>
      rw [List.intercalate_singleton] at h
      exact Or.inr ⟨part, List.mem_cons_self, h⟩
    | cons next parts =>
      rw [List.intercalate_cons_cons, List.mem_append, List.mem_append] at h
      obtain (h | h) | h := h
      · exact Or.inr ⟨part, List.mem_cons_self, h⟩
      · exact Or.inl h
      · exact (ih h).imp_right fun ⟨p, hp, hc⟩ => ⟨p, List.mem_cons_of_mem _ hp, hc⟩

/-- The list of the addresses has their bytes, and quotes, commas and brackets. -/
theorem ipList_without {c : UInt8} {ips : List Bytes} (h : ∀ ip ∈ ips, c ∉ ip)
    (hc : c ∉ [(34 : UInt8), 44, 91, 93]) : c ∉ ipList ips := by
  simp only [List.mem_cons, List.not_mem_nil, or_false, not_or] at hc
  obtain ⟨h34, h44, h91, h93⟩ := hc
  intro hmem
  simp only [ipList, List.cons_append, List.mem_cons, List.mem_append, List.not_mem_nil, or_false]
    at hmem
  obtain hmem | hmem | hmem := hmem
  · exact h91 hmem
  · obtain hmem | ⟨part, hpart, hmem⟩ := mem_intercalate hmem
    · exact h44 (List.mem_singleton.1 hmem)
    · obtain ⟨ip, hip, rfl⟩ := List.mem_map.1 hpart
      simp only [List.mem_cons, List.mem_append, List.not_mem_nil, or_false] at hmem
      obtain hmem | hmem | hmem := hmem
      · exact h34 hmem
      · exact h ip hip hmem
      · exact h34 hmem
  · exact h93 hmem

/-- The list of the addresses fits the buffer, or what is left of it says nothing. -/
def IpsFit (s : ArwsConfig) : Prop :=
  (ascii "maintenance_ips " ++ 61 :: 32 :: ipList s.maintenanceIps).length ≤ 511 ∨
    ∀ ip ∈ s.maintenanceIps, (61 : UInt8) ∉ ip

/-- The lines with a name in front of that of the addresses. -/
def ArwsConfig.linesBefore (s : ArwsConfig) : List Bytes :=
  [modeLine s.cachedMode] ++
    (if 0 < s.configPort then [ascii "port" ++ 61 :: printDecimal s.configPort] else []) ++
    (if s.configBind ≠ [] then [ascii "bind" ++ 61 :: s.configBind] else [])

/-- The lines with a name behind that of the addresses. -/
def ArwsConfig.linesBehind (s : ArwsConfig) : List Bytes :=
  [ascii "global_mode" ++ 61 :: s.globalMode, ascii "cache_ttl" ++ 61 :: printDecimal s.cacheTtlConfig]

theorem settingLines_eq (s : ArwsConfig) :
    s.settingLines = s.linesBefore ++
      (if s.maintenanceIps ≠ [] then [ascii "maintenance_ips " ++ 61 :: 32 :: ipList s.maintenanceIps]
        else []) ++ s.linesBehind := rfl

/-- **Every line with a name is one setting**, that of the addresses aside. -/
theorem Stored.linesAround {s : ArwsConfig} (h : Stored s) :
    ∀ line ∈ s.linesBefore ++ s.linesBehind, SettingLine line := by
  have hnumber : ∀ n, Without [0, 10] (printDecimal n) ∧ (61 : UInt8) ∉ printDecimal n := fun n =>
    ⟨fun c hc => printDecimal_without n c (by
      simp only [List.mem_cons, List.not_mem_nil, or_false] at hc ⊢
      exact hc.imp_right Or.inl), printDecimal_without n 61 (by simp)⟩
  have hmode : SettingLine (modeLine s.cachedMode) := by
    rw [modeLine]
    split
    · exact @settingLine (ascii "mode") (ascii "production") (by decide) (by decide) (by decide)
        (by decide) (Or.inl (by decide))
    · exact @settingLine (ascii "mode") (ascii "test") (by decide) (by decide) (by decide) (by decide)
        (Or.inl (by decide))
  have hport : SettingLine (ascii "port" ++ 61 :: printDecimal s.configPort) :=
    settingLine (by decide) (by decide) (by decide) (hnumber _).1 (Or.inr (hnumber _).2)
  have hbind : SettingLine (ascii "bind" ++ 61 :: s.configBind) := by
    refine settingLine (by decide) (by decide) (by decide) h.configBind.1 (Or.inl ?_)
    have hlen : (ascii "bind").length = 4 := rfl
    have := h.configBind.2
    rw [List.length_append, List.length_cons, hlen]
    omega
  have hglobal : SettingLine (ascii "global_mode" ++ 61 :: s.globalMode) := by
    refine settingLine (by decide) (by decide) (by decide) h.globalMode.1 (Or.inl ?_)
    have hlen : (ascii "global_mode").length = 11 := rfl
    have := h.globalMode.2
    rw [List.length_append, List.length_cons, hlen]
    omega
  have httl : SettingLine (ascii "cache_ttl" ++ 61 :: printDecimal s.cacheTtlConfig) :=
    settingLine (by decide) (by decide) (by decide) (hnumber _).1 (Or.inr (hnumber _).2)
  intro line hline
  rw [ArwsConfig.linesBefore, ArwsConfig.linesBehind] at hline
  simp only [List.mem_append, List.mem_cons, List.not_mem_nil, or_false, List.mem_ite_nil_right]
    at hline
  obtain ((rfl | ⟨-, rfl⟩) | ⟨-, rfl⟩) | rfl | rfl := hline
  · exact hmode
  · exact hport
  · exact hbind
  · exact hglobal
  · exact httl

/-- **Every line with a name is one setting.** -/
theorem Stored.settingLines {s : ArwsConfig} (h : Stored s)
    (hips : ∀ ip ∈ s.maintenanceIps, (10 : UInt8) ∉ ip) (hfit : IpsFit s) :
    ∀ line ∈ s.settingLines, SettingLine line := by
  have hlist : SettingLine (ascii "maintenance_ips " ++ 61 :: 32 :: ipList s.maintenanceIps) := by
    have hzero := ipList_without (fun ip hip => (h.maintenanceIps ip hip).1) (by decide)
    have hlf := ipList_without hips (by decide)
    refine settingLine (by decide) (by decide) (by decide) ?_ (hfit.imp_right fun heq => ?_)
    · intro c hc
      simp only [List.mem_cons, List.not_mem_nil, or_false] at hc
      obtain rfl | rfl := hc <;> simp [hzero, hlf]
    · simpa using ipList_without heq (by decide)
  intro line hline
  rw [settingLines_eq, List.mem_append, List.mem_append, List.mem_ite_nil_right, List.mem_singleton] at hline
  obtain (hline | ⟨-, rfl⟩) | hline := hline
  · exact h.linesAround line (List.mem_append_left _ hline)
  · exact hlist
  · exact h.linesAround line (List.mem_append_right _ hline)

/-- **A written file is read** without its guide, group by group. -/
theorem load_saveConfig (env : LoadEnv) (s s₀ : ArwsConfig) :
    arwsConfigLoad env (saveConfig s) s₀ =
      ((((⟨s₀.reset, []⟩ : Loading).readLines env (fgetsLines (unlines 10 s.settingLines))).readLines
        env (fgetsLines (unlines 10 (s.overrides.filterMap (·.line?))))).readLines
        env (fgetsLines (unlines 10 (s.proxyRoutes.map (·.proxyLine))))).readLines
        env (fgetsLines (unlines 10 (s.streamRoutes.map (·.streamLine)))) := by
  have happend : ∀ a b : List Bytes, fgetsLines (unlines 10 (a ++ b)) =
      fgetsLines (unlines 10 a) ++ fgetsLines (unlines 10 b) := fun a b => pieces_unlines_append a b
  rw [arwsConfigLoad, saveConfig, happend, happend, happend, happend, readLines_append,
    readLines_append, readLines_append, readLines_append, readLines_guideComments]

end Config
end Arws

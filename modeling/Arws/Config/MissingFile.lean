import Arws.Config.WrittenLines

/-!
# Loading a file that is not there

`arws_config_load` looks for its file in three places, and writes one with the defaults when it finds
none.  `arws_config_reload_from_disk` calls it with the path that was loaded last.  So a reload at a
moment at which the file is not there is a load of something else, and is reported as a success; the
watchdog does not load at such a moment.

* `keepsConfiguration_iff` — what was loaded stays in force, if and only if no other file is found and none
  can be written.
* `reload_adopted`, `reload_created` — what takes its place.
* `not_keepsConfiguration` — a file that is being replaced.
-/

set_option autoImplicit false

namespace Arws
namespace Config

open CString TextFile

/-! ## The file system -/

/-- The files, as the calls of one load find them. -/
structure FileSystem where
  /-- The text of a file, if `fopen` opens it for reading. -/
  file : Bytes → Option Bytes
  /-- `fopen` opens a file for writing, when its directories have been made. -/
  writable : Bytes → Bool
  /-- How much of the text that is written to a file is stored, if it can be opened again. -/
  stored : Bytes → Option Nat

/-- What `config_path` holds. -/
structure ConfigPath where
  text : Bytes
  length_le : text.length ≤ 255

/-- `strncpy` into `config_path`. -/
def ConfigPath.copy (s : Bytes) : ConfigPath := ⟨s.take 255, List.length_take_le ..⟩

theorem ConfigPath.copy_text (p : ConfigPath) : copy p.text = p := by
  obtain ⟨text, hlen⟩ := p
  simp only [copy, List.take_of_length_le hlen]

/-- `arws_config_get_path`. -/
def arwsConfigGetPath (configPath : ConfigPath) : Bytes :=
  if configPath.text ≠ [] then configPath.text else ascii "storage/arws/arws.cfg"

/-- The tables and the path they were loaded from. -/
structure ConfigState where
  config : ArwsConfig
  configPath : ConfigPath

/-! ## Loading -/

/-- The places where a file is looked for behind the one asked for. -/
def fallbackPaths : List Bytes := [ascii "arcore/storage/arws/arws.cfg", ascii "storage/arws/arws.cfg"]

/-- `resolve_config_path`. -/
def resolveConfigPath (fs : FileSystem) (requestedPath : Bytes) : Bytes :=
  let candidates := (if requestedPath ≠ [] then [requestedPath] else []) ++ fallbackPaths
  let found := candidates.find? fun candidate => (fs.file candidate).isSome
  (found.getD (if requestedPath ≠ [] then requestedPath else ascii "arcore/storage/arws/arws.cfg")).take 511

/-- The lines that are written behind the guide. -/
def defaultLines : List Bytes :=
  [ascii "mode=production", ascii "port=443", ascii "bind=0.0.0.0", ascii "global_mode=production"]

/-- The file that is written where there is none. -/
def defaultFile : Bytes := unlines 10 (guideComments ++ defaultLines)

/-- What the calls of `fopen` come to: the text that is read, and the files that are written. -/
def openConfig (fs : FileSystem) (resolvedPath : Bytes) : Option Bytes × List Bytes :=
  match fs.file resolvedPath with
  | some text => (some text, [])
  | none =>
    if fs.writable resolvedPath then
      ((fs.stored resolvedPath).map fun n => defaultFile.take n, [resolvedPath])
    else (none, [])

structure LoadResult where
  result : Int
  state : ConfigState
  /-- The calls of the router. -/
  registered : List Registration
  /-- The files that were written. -/
  written : List Bytes

/-- `arws_config_load`, from the path on. -/
def arwsConfigLoadPath (env : LoadEnv) (fs : FileSystem) (path : Bytes) (s : ConfigState) : LoadResult :=
  let resolvedPath := resolveConfigPath fs path
  let configPath := ConfigPath.copy resolvedPath
  match openConfig fs resolvedPath with
  | (none, written) => ⟨-1, { s with configPath := configPath }, [], written⟩
  | (some text, written) =>
    let loading := arwsConfigLoad env text s.config
    ⟨0, ⟨loading.config, configPath⟩, loading.registered, written⟩

/-- `arws_config_reload_from_disk`. -/
def arwsConfigReloadFromDisk (env : LoadEnv) (fs : FileSystem) (s : ConfigState) : LoadResult :=
  if s.configPath.text = [] then ⟨-1, s, [], []⟩
  else arwsConfigLoadPath env fs s.configPath.text s

/-- **What a reload without its file is meant to come to**: it is reported, and nothing has changed, neither
the tables and the path nor the routes nor the files. -/
def KeepsConfiguration (env : LoadEnv) (fs : FileSystem) (s : ConfigState) : Prop :=
  arwsConfigReloadFromDisk env fs s = ⟨-1, s, [], []⟩

/-! ## Where a file is found -/

variable {fs : FileSystem} {s : ConfigState}

/-- Without the file asked for, the first of the others is found that is there. -/
theorem resolveConfigPath_of_missing {path : Bytes} (hne : path ≠ []) (hmissing : fs.file path = none) :
    resolveConfigPath fs path =
      ((fallbackPaths.find? fun candidate => (fs.file candidate).isSome).getD path).take 511 := by
  simp only [resolveConfigPath, if_pos hne, List.singleton_append]
  rw [List.find?_cons_of_neg (by rw [hmissing]; decide)]

theorem length_fallbackPaths : ∀ path ∈ fallbackPaths, path.length ≤ 255 := by decide +kernel

/-- **A file that is found elsewhere is loaded**, and stays the one that is loaded from then on. -/
theorem reload_adopted (env : LoadEnv) {found text : Bytes} (hne : s.configPath.text ≠ [])
    (hmissing : fs.file s.configPath.text = none)
    (hfound : fallbackPaths.find? (fun candidate => (fs.file candidate).isSome) = some found)
    (htext : fs.file found = some text) :
    arwsConfigReloadFromDisk env fs s =
      ⟨0, ⟨(arwsConfigLoad env text s.config).config, ConfigPath.copy found⟩,
        (arwsConfigLoad env text s.config).registered, []⟩ := by
  have hlen := length_fallbackPaths found (List.mem_of_find?_eq_some hfound)
  have hresolved : resolveConfigPath fs s.configPath.text = found := by
    rw [resolveConfigPath_of_missing hne hmissing, hfound, Option.getD_some,
      List.take_of_length_le (by omega)]
  rw [arwsConfigReloadFromDisk, if_neg hne, arwsConfigLoadPath, hresolved]
  simp only [openConfig, htext]

/-- Where no other is found, the path stays. -/
theorem reload_of_none (env : LoadEnv) (hne : s.configPath.text ≠ [])
    (hmissing : fs.file s.configPath.text = none)
    (hnone : ∀ path ∈ fallbackPaths, fs.file path = none) :
    arwsConfigReloadFromDisk env fs s =
      if fs.writable s.configPath.text = true then
        match fs.stored s.configPath.text with
        | none => ⟨-1, s, [], [s.configPath.text]⟩
        | some n =>
          ⟨0, ⟨(arwsConfigLoad env (defaultFile.take n) s.config).config, s.configPath⟩,
            (arwsConfigLoad env (defaultFile.take n) s.config).registered, [s.configPath.text]⟩
      else ⟨-1, s, [], []⟩ := by
  have hfind : fallbackPaths.find? (fun candidate => (fs.file candidate).isSome) = none := by
    rw [List.find?_eq_none]
    intro path hpath
    rw [hnone path hpath]
    decide
  have hlen := s.configPath.length_le
  have hresolved : resolveConfigPath fs s.configPath.text = s.configPath.text := by
    rw [resolveConfigPath_of_missing hne hmissing, hfind, Option.getD_none,
      List.take_of_length_le (by omega)]
  rw [arwsConfigReloadFromDisk, if_neg hne, arwsConfigLoadPath, hresolved, ConfigPath.copy_text]
  simp only [openConfig, hmissing]
  split_ifs with hwritable
  · cases fs.stored s.configPath.text <;> rfl
  · rfl

/-! ## The file with the defaults -/

/-- What they are read as. -/
def defaultSettings : List (Bytes × Bytes) :=
  [(ascii "mode", ascii "production"), (ascii "port", ascii "443"), (ascii "bind", ascii "0.0.0.0"),
    (ascii "global_mode", ascii "production")]

theorem defaultLines_facts :
    (∀ line ∈ defaultLines, (10 : UInt8) ∉ line ∧ line.length ≤ 511) ∧
      (defaultLines.map fun line => parseLine (firstPiece line)) =
        defaultSettings.map fun (name, value) => .setting name value := by
  decide +kernel

/-- What the file with the defaults says. -/
theorem load_defaultFile (env : LoadEnv) (s : ArwsConfig) :
    arwsConfigLoad env defaultFile s =
      ⟨{ s.reset with cachedMode := some .production, configPort := 443, configBind := ascii "0.0.0.0" },
        []⟩ := by
  have happend : fgetsLines defaultFile =
      fgetsLines (unlines 10 guideComments) ++ fgetsLines (unlines 10 defaultLines) :=
    pieces_unlines_append guideComments defaultLines
  obtain ⟨hfits, hparsed⟩ := defaultLines_facts
  rw [arwsConfigLoad, happend, readLines_append, readLines_guideComments, readLines_unlines env _
    fun line hline => ⟨(hfits line hline).1, restSaysNothing_of_length_le (hfits line hline).2⟩]
  have hread (st : Loading) : st.readLines env (defaultLines.map firstPiece) =
      (defaultLines.map fun line => parseLine (firstPiece line)).foldl (Loading.read env) st := by
    rw [Loading.readLines, List.foldl_map, List.foldl_map]
    rfl
  have hmode (s : ArwsConfig) : s.readSetting env (ascii "mode") (ascii "production") =
      { s with cachedMode := some .production } := by
    rw [ArwsConfig.readSetting, if_pos (by decide +kernel), if_pos (by decide +kernel)]
  have hport (s : ArwsConfig) : s.readSetting env (ascii "port") (ascii "443") =
      { s with configPort := 443 } := by
    have hvalue : atoi (ascii "443") = 443 := by decide +kernel
    rw [ArwsConfig.readSetting, if_neg (by decide +kernel), if_neg (by decide +kernel),
      if_pos (by decide +kernel), hvalue, if_pos (by decide)]
  have hbind (s : ArwsConfig) : s.readSetting env (ascii "bind") (ascii "0.0.0.0") =
      { s with configBind := ascii "0.0.0.0" } := by
    have hvalue : (ascii "0.0.0.0").take 63 = ascii "0.0.0.0" := by decide +kernel
    rw [ArwsConfig.readSetting, if_neg (by decide +kernel), if_neg (by decide +kernel),
      if_neg (by decide +kernel), if_pos (by decide +kernel), hvalue]
  have hglobal (s : ArwsConfig) : s.readSetting env (ascii "global_mode") (ascii "production") =
      { s with globalMode := ascii "production" } := by
    have hvalue : (ascii "production").take 15 = ascii "production" := by decide +kernel
    rw [ArwsConfig.readSetting, if_neg (by decide +kernel), if_pos (by decide +kernel), hvalue]
  rw [hread, hparsed, defaultSettings]
  simp only [List.map_cons, List.map_nil, List.foldl_cons, List.foldl_nil, Loading.read, hmode, hport,
    hbind, hglobal]
  rfl

/-- **A file that is written has nothing of what was loaded**: no override, no address and no route. -/
theorem reload_created (env : LoadEnv) {n : Nat} (hne : s.configPath.text ≠ [])
    (hmissing : fs.file s.configPath.text = none)
    (hnone : ∀ path ∈ fallbackPaths, fs.file path = none)
    (hwritable : fs.writable s.configPath.text = true)
    (hstored : fs.stored s.configPath.text = some n) (hall : defaultFile.length ≤ n) :
    arwsConfigReloadFromDisk env fs s =
      ⟨0, ⟨{ s.config.reset with
        cachedMode := some .production, configPort := 443, configBind := ascii "0.0.0.0" }, s.configPath⟩,
        [], [s.configPath.text]⟩ := by
  rw [reload_of_none env hne hmissing hnone, if_pos hwritable, hstored]
  simp only [List.take_of_length_le hall, load_defaultFile]

/-! ## When nothing changes -/

/-- **A reload without its file keeps the configuration just where** nothing has been loaded from a path, or
no other file is found and none can be written. -/
theorem keepsConfiguration_iff (env : LoadEnv) (hmissing : fs.file s.configPath.text = none) :
    KeepsConfiguration env fs s ↔ s.configPath.text = [] ∨
      (∀ path ∈ fallbackPaths, fs.file path = none) ∧ fs.writable s.configPath.text = false := by
  rw [KeepsConfiguration]
  by_cases hne : s.configPath.text = []
  · exact iff_of_true (by rw [arwsConfigReloadFromDisk, if_pos hne]) (Or.inl hne)
  rw [or_iff_right hne]
  by_cases hnone : ∀ path ∈ fallbackPaths, fs.file path = none
  · rw [reload_of_none env hne hmissing hnone, and_iff_right hnone]
    by_cases hwritable : fs.writable s.configPath.text = true
    · rw [if_pos hwritable, hwritable]
      refine iff_of_false (fun h => ?_) (by decide)
      cases hstored : fs.stored s.configPath.text with
      | none =>
        rw [hstored] at h
        simp at h
      | some n =>
        rw [hstored] at h
        simp at h
    · rw [if_neg hwritable, Bool.eq_false_iff]
      exact iff_of_true rfl hwritable
  · refine iff_of_false (fun h => ?_) fun h => hnone h.1
    cases hfound : fallbackPaths.find? fun candidate => (fs.file candidate).isSome with
    | none =>
      refine hnone fun path hpath => ?_
      simpa using List.find?_eq_none.1 hfound path hpath
    | some found =>
      have hsome : (fs.file found).isSome = true := List.find?_some (p := fun c => (fs.file c).isSome) hfound
      obtain ⟨text, htext⟩ := Option.isSome_iff_exists.1 hsome
      rw [reload_adopted env hne hmissing hfound htext] at h
      simp at h

/-- A host in maintenance, as it was loaded. -/
private def inMaintenance : ConfigState where
  config := { ArwsConfig.initial with
    overrides := [⟨ascii "a.org", ascii "*", ascii "maintenance", false⟩] }
  configPath := .copy (ascii "storage/arws/arws.cfg")

/-- No file is there, as while one is being replaced. -/
private def replacing (writable : Bool) : FileSystem where
  file _ := none
  writable _ := writable
  stored _ := some 4096

private def noLists : LoadEnv := ⟨fun _ => none, fun _ => []⟩

theorem keepsConfiguration_iff_replacing : (replacing false).file inMaintenance.configPath.text = none ∧
    KeepsConfiguration noLists (replacing false) inMaintenance :=
  ⟨rfl, (keepsConfiguration_iff noLists rfl).2 (Or.inr ⟨fun _ _ => rfl, rfl⟩)⟩

theorem not_keepsConfiguration : ¬ ∀ env fs s, fs.file s.configPath.text = none →
    KeepsConfiguration env fs s := by
  intro h
  have hne : inMaintenance.configPath.text ≠ [] := by decide +kernel
  have hkept := h noLists (replacing true) inMaintenance rfl
  rw [KeepsConfiguration, reload_of_none noLists hne rfl fun _ _ => rfl] at hkept
  -- the result is 0
  cases congrArg LoadResult.result hkept

end Config
end Arws

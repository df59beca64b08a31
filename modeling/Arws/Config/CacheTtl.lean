import Arws.Cache.Table
import Arws.Config.File

/-!
# The lifetime of cached responses

The lifetime is kept twice: `cache_ttl_config` is the configured one, and `cache_ttl` the one the
cache works with.  `arws_init` sets the second from the first, before a file has been loaded, and of
all that changes the first, only `IPC_RELOAD` sets the second again.

* `OneTtl` — the two agree, and with a lifetime of zero nothing is stored.
* `oneTtl_of_propagated` — so it is in the runs in which whatever does not propagate the lifetime
  leaves it at the value the cache has, and these are the only ones.
* `not_oneTtl` — a file that switches the cache off does not, at startup.
-/

set_option autoImplicit false

namespace Arws
namespace Config

open CString Cache

/-! ## The configured lifetime -/

/-- `arws_config_load`: the file it opens, the one it has just written included, or nothing if it can
open none. -/
def loadConfig (env : LoadEnv) (file : Option Bytes) (s : ArwsConfig) : ArwsConfig :=
  match file with
  | some file => (arwsConfigLoad env file s).config
  | none => s

/-- `arws_config_get_cache_ttl`. -/
def arwsConfigGetCacheTtl (s : ArwsConfig) : Int := s.cacheTtlConfig

/-- `arws_config_set_cache_ttl`. -/
def arwsConfigSetCacheTtl (s : ArwsConfig) (seconds : Int) : ArwsConfig × Int :=
  if seconds < 0 then (s, -1) else ({ s with cacheTtlConfig := seconds }, 0)

/-- The lifetime that a line sets. -/
def ttlOfLine (line : Bytes) : Option Int :=
  match parseLine line with
  | .setting name value =>
    if strcaseeq name (ascii "cache_ttl") ∧ 0 ≤ atoi value then some (atoi value) else none
  | _ => none

/-- The lifetime that a file sets: that of the last line which sets one, or the default. -/
def fileTtl (file : Bytes) : Int :=
  (fgetsLines file).foldl (fun ttl line => (ttlOfLine line).getD ttl) 60

/-- Two names that are compared without regard to case are one. -/
theorem strcaseeq_eq_false {name a b : Bytes} (h : strcaseeq name a = true)
    (hab : strcaseeq a b = false) : strcaseeq name b = false := by
  simp only [strcaseeq, beq_iff_eq, beq_eq_false_iff_ne] at h hab ⊢
  rwa [h]

theorem readSetting_cacheTtlConfig (env : LoadEnv) (s : ArwsConfig) (name value : Bytes) :
    (s.readSetting env name value).cacheTtlConfig =
      if strcaseeq name (ascii "cache_ttl") ∧ 0 ≤ atoi value then atoi value
      else s.cacheTtlConfig := by
  rw [ArwsConfig.readSetting]
  by_cases h : strcaseeq name (ascii "cache_ttl") = true
  · have hmode := strcaseeq_eq_false h (b := ascii "mode") (by decide)
    have hglobal := strcaseeq_eq_false h (b := ascii "global_mode") (by decide)
    have hport := strcaseeq_eq_false h (b := ascii "port") (by decide)
    have hbind := strcaseeq_eq_false h (b := ascii "bind") (by decide)
    simp only [h, hmode, hglobal, hport, hbind, if_true, true_and, Bool.false_eq_true, if_false]
    split_ifs <;> rfl
  · simp only [h, Bool.false_eq_true, false_and, if_false]
    split_ifs
    all_goals first | rfl | (split <;> rfl)

theorem setOverride_cacheTtlConfig (s : ArwsConfig) (host path mode : Bytes) (noCache : Bool) :
    (s.setOverride host path mode noCache).cacheTtlConfig = s.cacheTtlConfig := by
  rw [ArwsConfig.setOverride]
  split <;> rfl

theorem addRoute_cacheTtlConfig (st : Loading) (kind : RouteKind) (host path target : Bytes) :
    (st.addRoute kind host path target).config.cacheTtlConfig = st.config.cacheTtlConfig := by
  cases kind <;> rfl

theorem readKeyed_cacheTtlConfig (env : LoadEnv) (st : Loading) (key val : Bytes) :
    (st.readKeyed env key val).config.cacheTtlConfig = st.config.cacheTtlConfig := by
  rw [Loading.readKeyed]
  split_ifs
  · cases strchr 47 key with
    | none => rfl
    | some slash =>
      simp only
      split_ifs
      · exact addRoute_cacheTtlConfig _ _ _ _ _
      · exact setOverride_cacheTtlConfig _ _ _ _ _
  · rfl

theorem readLine_cacheTtlConfig (env : LoadEnv) (st : Loading) (line : Bytes) :
    (st.readLine env line).config.cacheTtlConfig =
      (ttlOfLine line).getD st.config.cacheTtlConfig := by
  rw [Loading.readLine, ttlOfLine]
  cases parseLine line with
  | nothing => rfl
  | keyed key val => exact readKeyed_cacheTtlConfig env st key val
  | setting name value =>
    refine (readSetting_cacheTtlConfig env st.config name value).trans ?_
    simp only
    split_ifs <;> rfl

theorem readLines_cacheTtlConfig (env : LoadEnv) (st : Loading) (lines : List Bytes) :
    (st.readLines env lines).config.cacheTtlConfig =
      lines.foldl (fun ttl line => (ttlOfLine line).getD ttl) st.config.cacheTtlConfig := by
  induction lines generalizing st with
  | nil => rfl
  | cons line lines ih =>
    rw [List.foldl_cons, ← readLine_cacheTtlConfig env]
    exact ih _

/-- **A load sets the lifetime that is in the file**, whatever it was before. -/
theorem arwsConfigLoad_cacheTtlConfig (env : LoadEnv) (file : Bytes) (s : ArwsConfig) :
    (arwsConfigLoad env file s).config.cacheTtlConfig = fileTtl file :=
  readLines_cacheTtlConfig env _ _

theorem ttlOfLine_nonneg {line : Bytes} {ttl : Int} (h : ttlOfLine line = some ttl) : 0 ≤ ttl := by
  rw [ttlOfLine] at h
  split at h
  · split at h
    · rename_i hnonneg
      cases h
      exact hnonneg.2
    · cases h
  · cases h

theorem getD_ttlOfLine_nonneg {ttl : Int} (h : 0 ≤ ttl) (line : Bytes) :
    0 ≤ (ttlOfLine line).getD ttl := by
  cases hline : ttlOfLine line with
  | none => exact h
  | some ttl' => exact ttlOfLine_nonneg hline

theorem foldl_ttlOfLine_nonneg (lines : List Bytes) {ttl : Int} (h : 0 ≤ ttl) :
    0 ≤ lines.foldl (fun ttl line => (ttlOfLine line).getD ttl) ttl := by
  induction lines generalizing ttl with
  | nil => exact h
  | cons line lines ih => exact ih (getD_ttlOfLine_nonneg h line)

theorem fileTtl_nonneg (file : Bytes) : 0 ≤ fileTtl file :=
  foldl_ttlOfLine_nonneg (fgetsLines file) (by decide)

/-! ## The two lifetimes -/

structure TtlState where
  config : ArwsConfig
  cache : Table
  /-- `arws_entry` has called `arws_config_load`. -/
  loaded : Bool

inductive TtlAct
  /-- `arws_config_load`; `arws_entry` calls it first of all. -/
  | load (file : Option Bytes)
  /-- The watchdog sees that the file has changed. -/
  | watchdog (file : Option Bytes)
  /-- The command `cfg reload`. -/
  | cfgReload (file : Option Bytes)
  | ipcReload (file : Option Bytes)
  /-- `arws_config_set_cache_ttl`. -/
  | setCacheTtl (seconds : Int)
  /-- A response is handed to `arws_cache_set`. -/
  | cacheSet (key data : Bytes) (now : Nat) (alloc : Bool)

/-- `arws_init`. -/
def TtlState.start : TtlState where
  config := .initial
  cache := arwsCacheSetTtl (arwsCacheInit ⟨fun _ => .zero, arwsCacheDefaultTtl⟩)
    (arwsConfigGetCacheTtl .initial)
  loaded := false

/-- `arws_config_load` by itself. -/
def TtlState.load (env : LoadEnv) (s : TtlState) (file : Option Bytes) : TtlState :=
  { s with config := loadConfig env file s.config, loaded := true }

/-- The `IPC_RELOAD` case of `client_handler_loop`. -/
def TtlState.ipcReload (env : LoadEnv) (s : TtlState) (file : Option Bytes) : TtlState :=
  let s := s.load env file
  { s with cache := arwsCacheSetTtl s.cache (arwsConfigGetCacheTtl s.config) }

/-- The state after an action. -/
def TtlState.apply (env : LoadEnv) (s : TtlState) : TtlAct → TtlState
  | .load file | .watchdog file | .cfgReload file => s.load env file
  | .ipcReload file => s.ipcReload env file
  | .setCacheTtl seconds => { s with config := (arwsConfigSetCacheTtl s.config seconds).1 }
  | .cacheSet key data now alloc =>
    { s with cache := (arwsCacheSet s.cache key data now alloc).1 }

/-- What may come before the first `arws_config_load`. -/
def TtlAct.isLoad : TtlAct → Bool
  | .load _ => true
  | _ => false

/-- The gateway behind `arws_init`. -/
def ttlMachine (env : LoadEnv) : Machine TtlState TtlAct where
  init s := s = .start
  step s act := if s.loaded || act.isLoad then some (s.apply env act) else none

theorem ttlMachine_step_eq_some {env : LoadEnv} {s t : TtlState} {act : TtlAct} :
    (ttlMachine env).step s act = some t ↔
      (s.loaded || act.isLoad) = true ∧ s.apply env act = t := by
  simp only [ttlMachine, Option.ite_none_right_eq_some, Option.some_inj]

/-- **There is one lifetime**, and where it is zero no response is stored. -/
structure OneTtl (s : TtlState) : Prop where
  agree : arwsCacheGetTtl s.cache = arwsConfigGetCacheTtl s.config
  off : arwsConfigGetCacheTtl s.config = 0 → ∀ key data now alloc,
    arwsCacheSet s.cache key data now alloc = (s.cache, -1)

/-- A load that is not `IPC_RELOAD`, and a call that sets the configured lifetime, leaves it at the
value that the cache has. -/
def Propagated (s : TtlState) : TtlAct → Prop
  | .load file | .watchdog file | .cfgReload file =>
    ∀ text ∈ file, fileTtl text = arwsCacheGetTtl s.cache
  | .setCacheTtl seconds => 0 ≤ seconds → seconds = arwsCacheGetTtl s.cache
  | .ipcReload _ | .cacheSet _ _ _ _ => True

/-- The cache stores nothing without a lifetime. -/
theorem arwsCacheSet_of_ttl {c : Table} (h : c.cacheTtl ≤ 0) (key data : Bytes) (now : Nat)
    (alloc : Bool) : arwsCacheSet c key data now alloc = (c, -1) := by
  rw [arwsCacheSet]
  split_ifs <;> rfl

theorem oneTtl_iff {s : TtlState} :
    OneTtl s ↔ arwsCacheGetTtl s.cache = arwsConfigGetCacheTtl s.config := by
  refine ⟨OneTtl.agree, fun h => ⟨h, fun hzero => arwsCacheSet_of_ttl ?_⟩⟩
  rw [arwsCacheGetTtl] at h
  omega

theorem slotForSet_cacheTtl (c : Table) (key : Bytes) (now : Nat) :
    (slotForSet c key now).1.cacheTtl = c.cacheTtl := by
  rw [slotForSet]
  split
  · rfl
  · rw [evictOne]
    split <;> rfl

theorem arwsCacheSet_cacheTtl (c : Table) (key data : Bytes) (now : Nat) (alloc : Bool) :
    (arwsCacheSet c key data now alloc).1.cacheTtl = c.cacheTtl := by
  rw [arwsCacheSet]
  split
  · rfl
  split
  · rfl
  have hslot := slotForSet_cacheTtl c key now
  rcases hs : slotForSet c key now with ⟨c', _ | slot⟩
  · rw [hs] at hslot
    exact hslot
  · rw [hs] at hslot
    simp only
    split <;> exact hslot

/-- What the runs keep: the two agree, and the configured lifetime is not negative. -/
structure TtlKept (s : TtlState) : Prop where
  one : OneTtl s
  nonneg : 0 ≤ s.config.cacheTtlConfig

theorem loadConfig_cacheTtlConfig (env : LoadEnv) (file : Option Bytes) (s : ArwsConfig) :
    (loadConfig env file s).cacheTtlConfig = (file.map fileTtl).getD s.cacheTtlConfig := by
  cases file with
  | none => rfl
  | some text => exact arwsConfigLoad_cacheTtlConfig env text s

theorem loadConfig_nonneg (env : LoadEnv) (file : Option Bytes) {s : ArwsConfig}
    (h : 0 ≤ s.cacheTtlConfig) : 0 ≤ (loadConfig env file s).cacheTtlConfig := by
  rw [loadConfig_cacheTtlConfig]
  cases file with
  | none => exact h
  | some text => exact fileTtl_nonneg text

theorem getCacheTtl_load (env : LoadEnv) (s : TtlState) (text : Bytes) :
    arwsConfigGetCacheTtl (s.load env (some text)).config = fileTtl text :=
  arwsConfigLoad_cacheTtlConfig env text s.config

theorem getCacheTtl_ipcReload (env : LoadEnv) (s : TtlState) (text : Bytes) :
    arwsConfigGetCacheTtl (s.ipcReload env (some text)).config = fileTtl text :=
  arwsConfigLoad_cacheTtlConfig env text s.config

/-- A load by itself keeps the two alike exactly if the file has the lifetime of the cache. -/
theorem oneTtl_load_iff (env : LoadEnv) {s : TtlState} (h : OneTtl s) (file : Option Bytes) :
    OneTtl (s.load env file) ↔ ∀ text ∈ file, fileTtl text = arwsCacheGetTtl s.cache := by
  rw [oneTtl_iff, TtlState.load, arwsConfigGetCacheTtl, loadConfig_cacheTtlConfig]
  cases file with
  | none => exact iff_of_true h.agree nofun
  | some text => simp [eq_comm]

theorem oneTtl_ipcReload (env : LoadEnv) {s : TtlState} (h : 0 ≤ s.config.cacheTtlConfig)
    (file : Option Bytes) : OneTtl (s.ipcReload env file) := by
  have hnonneg := loadConfig_nonneg env file h
  simp only [oneTtl_iff, TtlState.ipcReload, TtlState.load, arwsCacheGetTtl, arwsCacheSetTtl,
    arwsConfigGetCacheTtl]
  split_ifs <;> omega

theorem oneTtl_setCacheTtl_iff {s : TtlState} (h : OneTtl s) (seconds : Int) :
    OneTtl { s with config := (arwsConfigSetCacheTtl s.config seconds).1 } ↔
      (0 ≤ seconds → seconds = arwsCacheGetTtl s.cache) := by
  rw [oneTtl_iff, arwsConfigSetCacheTtl]
  split_ifs with hneg
  · exact iff_of_true h.agree fun hnonneg => by omega
  · simp only [arwsConfigGetCacheTtl]
    constructor
    · exact fun heq _ => heq.symm
    · exact fun himp => (himp (by omega)).symm

/-- **A step keeps the two alike exactly if it propagates the lifetime.** -/
theorem oneTtl_apply_iff (env : LoadEnv) {s : TtlState} (h : TtlKept s) (act : TtlAct) :
    OneTtl (s.apply env act) ↔ Propagated s act := by
  cases act with
  | load file => exact oneTtl_load_iff env h.one file
  | watchdog file => exact oneTtl_load_iff env h.one file
  | cfgReload file => exact oneTtl_load_iff env h.one file
  | ipcReload file => exact iff_of_true (oneTtl_ipcReload env h.nonneg file) trivial
  | setCacheTtl seconds => exact oneTtl_setCacheTtl_iff h.one seconds
  | cacheSet key data now alloc =>
    refine iff_of_true (oneTtl_iff.2 ?_) trivial
    exact (arwsCacheSet_cacheTtl _ _ _ _ _).trans h.one.agree

theorem nonneg_apply (env : LoadEnv) {s : TtlState} (h : 0 ≤ s.config.cacheTtlConfig)
    (act : TtlAct) : 0 ≤ (s.apply env act).config.cacheTtlConfig := by
  cases act with
  | load file => exact loadConfig_nonneg env file h
  | watchdog file => exact loadConfig_nonneg env file h
  | cfgReload file => exact loadConfig_nonneg env file h
  | ipcReload file => exact loadConfig_nonneg env file h
  | setCacheTtl seconds =>
    simp only [TtlState.apply, arwsConfigSetCacheTtl]
    split_ifs with hneg
    · exact h
    · exact Int.not_lt.1 hneg
  | cacheSet key data now alloc => exact h

theorem TtlKept.start : TtlKept .start := ⟨oneTtl_iff.2 rfl, by decide⟩

/-- **One lifetime**: in every run that propagates it there is one, and the runs that lead only to
states with one are those. -/
theorem oneTtl_of_propagated (env : LoadEnv) :
    (∀ s, (ttlMachine env).ReachUnder Propagated s → OneTtl s) ∧
      ∀ s, (ttlMachine env).ReachUnder Propagated s ↔ (ttlMachine env).ReachUnder
        (fun s act => ∃ t, (ttlMachine env).step s act = some t ∧ OneTtl t) s := by
  have hinit : ∀ s, (ttlMachine env).init s → TtlKept s := by
    rintro s rfl
    exact .start
  have hexact : ∀ s act t, TtlKept s → (ttlMachine env).step s act = some t →
      (OneTtl t ↔ Propagated s act) := by
    intro s act t h hs
    obtain ⟨-, rfl⟩ := ttlMachine_step_eq_some.1 hs
    exact oneTtl_apply_iff env h act
  have hstep : ∀ s act t, TtlKept s → Propagated s act → (ttlMachine env).step s act = some t →
      TtlKept t := by
    intro s act t h hc hs
    refine ⟨(hexact s act t h hs).2 hc, ?_⟩
    obtain ⟨-, rfl⟩ := ttlMachine_step_eq_some.1 hs
    exact nonneg_apply env h.nonneg act
  exact ⟨fun s h => (h.invariant hinit hstep).one,
    fun s => Machine.reachUnder_iff hinit hstep hexact⟩

/-- What reads a list of addresses is not used here. -/
private def noAddresses : LoadEnv := ⟨fun _ => none, fun _ => []⟩

private def cacheOff : Bytes := ascii "cache_ttl=0\n"

private theorem fileTtl_cacheOff : fileTtl cacheOff = 0 := by decide +kernel

/-- No file can be opened at startup, and `IPC_RELOAD` reads one that switches the cache off. -/
theorem oneTtl_of_ipcReload :
    ∃ s : TtlState, s.loaded = true ∧ arwsConfigGetCacheTtl s.config = 0 ∧ OneTtl s := by
  have hload : (ttlMachine noAddresses).ReachUnder Propagated (TtlState.start.load noAddresses none) :=
    .next (a := .load none) (.start rfl) (fun _ h => by cases h) rfl
  have hreload : (ttlMachine noAddresses).ReachUnder Propagated
      ((TtlState.start.load noAddresses none).ipcReload noAddresses (some cacheOff)) :=
    .next (a := .ipcReload (some cacheOff)) hload trivial rfl
  refine ⟨_, rfl, ?_, (oneTtl_of_propagated noAddresses).1 _ hreload⟩
  rw [getCacheTtl_ipcReload]
  exact fileTtl_cacheOff

/-- **A file that switches the cache off** is loaded at startup: the configured lifetime is zero, and
that of the cache is a minute. -/
theorem not_oneTtl : ¬ ∀ s, (ttlMachine noAddresses).Reach s → OneTtl s := by
  intro h
  have hreach : (ttlMachine noAddresses).Reach (TtlState.start.load noAddresses (some cacheOff)) :=
    .next (a := .load (some cacheOff)) (.start rfl) trivial rfl
  have hagree := (h _ hreach).agree
  rw [getCacheTtl_load, fileTtl_cacheOff] at hagree
  exact absurd hagree (by decide)

end Config
end Arws

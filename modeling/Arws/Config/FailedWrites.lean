import Arws.Config.OperatorEdits

/-!
# Writes that fail

`save_config` writes the text to a file of its own, piece by piece, and then puts that in the place of
`arws.cfg`.  It looks at what `fopen` and `rename` return, and not at what `fprintf` and `fclose` do; and
the functions that call it do not look at what it returns.

* `flatten_savePieces` — the pieces are those of `saveConfig`.
* `savesOrReports_iff` — so the file is as it should be, and a failure is reported, only if there is none.
* `not_savesOrReports` — a full disk leaves an empty configuration, and `arws_config_set_global` returns 0.
-/

set_option autoImplicit false

namespace Arws
namespace Config

open CString TextFile

/-! ## The calls that write -/

/-- The list of the addresses as it is written. -/
def ipPieces (ips : List Bytes) : List Bytes :=
  if ips = [] then []
  else [ascii "maintenance_ips = ["] ++ (ips.map fun ip => 34 :: ip ++ [34]).intersperse [44] ++
    [ascii "]\n"]

/-- The texts of the calls of `fprintf`. -/
def savePieces (s : ArwsConfig) : List Bytes :=
  (guideComments ++ [modeLine s.cachedMode] ++
    (if 0 < s.configPort then [ascii "port" ++ 61 :: printDecimal s.configPort] else []) ++
    (if s.configBind ≠ [] then [ascii "bind" ++ 61 :: s.configBind] else [])).map (· ++ [10]) ++
  ipPieces s.maintenanceIps ++
  ([ascii "global_mode" ++ 61 :: s.globalMode,
      ascii "cache_ttl" ++ 61 :: printDecimal s.cacheTtlConfig] ++
    s.overrides.filterMap (·.line?) ++ s.proxyRoutes.map (·.proxyLine) ++
    s.streamRoutes.map (·.streamLine)).map (· ++ [10])

/-- How the calls of one `save_config` go. -/
structure WriteEnv where
  /-- There is a `config_path`. -/
  hasPath : Bool
  /-- `fopen` opens the file beside it. -/
  opened : Bool
  /-- How much of its text each call of `fprintf` can store. -/
  stored : Nat → Nat
  /-- How much of the file is stored when `fclose` returns. -/
  closed : Nat
  /-- `rename` puts the file in its place. -/
  renamed : Bool

/-- What the file holds when it is closed. -/
def WriteEnv.written (env : WriteEnv) (s : ArwsConfig) : Bytes :=
  (arrived env.stored (savePieces s)).take env.closed

/-- `save_config`, on the file at `config_path`, if there is one. -/
def saveConfigTo (env : WriteEnv) (s : ArwsConfig) (file : Option Bytes) : Option Bytes × Int :=
  if !env.hasPath then (file, -1)
  else if !env.opened then (file, -1)
  else if !env.renamed then (file, -1)
  else (some (env.written s), 0)

/-- A call that changes the tables: what it returns does not depend on what `save_config` returns. -/
def SavingCall.perform (env : WriteEnv) (s : ArwsConfig) (file : Option Bytes) (call : SavingCall) :
    ArwsConfig × Option Bytes × Int :=
  let (s', result) := call.apply s
  if result = 0 then (s', (saveConfigTo env s' file).1, result) else (s', file, result)

/-! ## What is asked of a failure -/

/-- **Nothing is lost by a failure**: behind a call that comes to `save_config`, the file holds what it held
or the whole new text, and if it does not hold that, the call does not report success. -/
def SavesOrReports (env : WriteEnv) (s : ArwsConfig) (file : Option Bytes) (call : SavingCall) : Prop :=
  (call.apply s).2 = 0 →
    let (s', file', result) := call.perform env s file
    (file' = file ∨ file' = some (saveConfig s')) ∧ (file' ≠ some (saveConfig s') → result ≠ 0)

/-- The file at `config_path` is replaced. -/
def WriteEnv.Replaces (env : WriteEnv) : Prop :=
  env.hasPath = true ∧ env.opened = true ∧ env.renamed = true

/-- Every write is stored, to its end. -/
def WriteEnv.Stores (env : WriteEnv) (s : ArwsConfig) : Prop :=
  (∀ i, ∀ piece ∈ (savePieces s)[i]?, piece.length ≤ env.stored i) ∧
    (saveConfig s).length ≤ env.closed

instance (env : WriteEnv) : Decidable env.Replaces := inferInstanceAs (Decidable (_ ∧ _ ∧ _))

theorem flatten_map_unlines (lines : List Bytes) : (lines.map (· ++ [10])).flatten = unlines 10 lines := by
  rw [unlines, List.flatMap_def]

theorem flatten_ipPieces (ips : List Bytes) : (ipPieces ips).flatten =
    unlines 10 (if ips ≠ [] then [ascii "maintenance_ips " ++ 61 :: 32 :: ipList ips] else []) := by
  rw [ipPieces]
  by_cases h : ips = []
  · rw [if_pos h, if_neg (not_not.2 h)]
    rfl
  · rw [if_neg h, if_pos h, ipList, List.flatten_append, List.flatten_append, ← List.intercalate]
    simp [unlines, ascii]

/-- **The pieces that are written are the text.** -/
theorem flatten_savePieces (s : ArwsConfig) : (savePieces s).flatten = saveConfig s := by
  rw [savePieces, List.flatten_append, List.flatten_append, flatten_map_unlines, flatten_ipPieces,
    flatten_map_unlines, unlines, unlines, unlines, ← List.flatMap_append, ← List.flatMap_append,
    saveConfig, unlines, ArwsConfig.settingLines]
  simp only [List.append_assoc]

/-- The file that is written holds the new text exactly if every write is stored to its end. -/
theorem written_eq_iff (env : WriteEnv) (s : ArwsConfig) :
    env.written s = saveConfig s ↔ env.Stores s := by
  have hle := length_arrived_le env.stored (savePieces s)
  rw [WriteEnv.Stores, ← arrived_eq_flatten_iff, WriteEnv.written, ← flatten_savePieces]
  constructor
  · intro heq
    have hlen := congrArg List.length heq
    rw [List.length_take] at hlen
    refine ⟨?_, by omega⟩
    rwa [List.take_of_length_le (by omega)] at heq
  · rintro ⟨heq, hclosed⟩
    rw [heq, List.take_of_length_le hclosed]

theorem saveConfigTo_file (env : WriteEnv) (s : ArwsConfig) (file : Option Bytes) :
    (saveConfigTo env s file).1 = if env.Replaces then some (env.written s) else file := by
  obtain ⟨hasPath, opened, stored, closed, renamed⟩ := env
  cases hasPath <;> cases opened <;> cases renamed <;> rfl

/-- **Nothing is lost, and no failure hidden, exactly if there is none**: every write is stored to its end
and the file replaced, or the file is not replaced and holds the new text as it is. -/
theorem savesOrReports_iff (env : WriteEnv) (s : ArwsConfig) (file : Option Bytes) (call : SavingCall) :
    SavesOrReports env s file call ↔ ((call.apply s).2 = 0 →
      if env.Replaces then env.Stores (call.apply s).1
      else file = some (saveConfig (call.apply s).1)) := by
  refine forall_congr' fun hzero => ?_
  rw [SavingCall.perform]
  simp only [hzero, if_true, ne_eq, not_true_eq_false, imp_false, Decidable.not_not,
    saveConfigTo_file]
  split_ifs
  · rw [← written_eq_iff, Option.some.injEq]
    exact and_iff_right_of_imp Or.inr
  · exact and_iff_right_of_imp Or.inr

/-- **A full disk empties the configuration**, and the call returns 0. -/
theorem not_savesOrReports : ¬ ∀ env s file call, SavesOrReports env s file call := by
  intro h
  have hfile := (h ⟨true, true, fun _ => 0, 0, true⟩ .initial (some (ascii "mode=production\n"))
    (.setGlobal (ascii "test")) (by decide)).1
  rcases hfile with hold | hnew
  · exact absurd hold (by decide)
  · exact absurd hnew (by decide +kernel)

end Config
end Arws

import Arws.Config.CacheTtl
import Arws.Config.Save

/-!
# Edits of the operator

The file and the tables in memory are two copies of the configuration.  An operator rewrites the file, a
load brings it to memory, and every command that changes the tables writes the whole file again, from
memory.  The watchdog loads a file whose time is not the one that the last load has noted.

A load holds the lock while it reads the file and until it has noted the time, and so does a command;
the operator holds none.

* `unseenEdits` — which edits no load has read is told by the edits, the loads, the rounds of the watchdog
  and the commands so far and by the times the file had.
* `editsKept_of_reach` — no edit is lost as long as a command replaces the file only when the unseen edits
  bring nothing but what the command is about.
* `poll_after_finishLoad` — what is written while a load is under way is not seen by the watchdog.
-/

set_option autoImplicit false

namespace Arws
namespace Config

open CString

/-! ## The two copies -/

/-- The calls that end in `save_config`. -/
inductive SavingCall
  | addOverride (host path mode : Bytes)
  | removeOverride (host path : Bytes)
  | setGlobal (mode : Bytes)
  | setCacheTtl (seconds : Int)
  | addProxyRoute (host path target : Bytes)
  | addStreamRoute (host path target : Bytes)
  deriving DecidableEq

namespace SavingCall

/-- What a call does to the tables, and what it returns; it comes to `save_config` if that is `0`. -/
def apply (s : ArwsConfig) : SavingCall → ArwsConfig × Int
  | addOverride host path mode => arwsConfigAddOverride s host path mode
  | removeOverride host path => arwsConfigRemoveOverride s host path
  | setGlobal mode => arwsConfigSetGlobal s mode
  | setCacheTtl seconds => arwsConfigSetCacheTtl s seconds
  | addProxyRoute host path target => arwsConfigAddProxyRoute s host path target
  | addStreamRoute host path target => arwsConfigAddStreamRoute s host path target

/-- The call is about what a line sets. -/
def supersedes : SavingCall → ConfigLine → Bool
  | addOverride host path _, .keyed key _ => key == host ++ 47 :: path
  | removeOverride host path, .keyed key _ => key == host ++ 47 :: path
  | addProxyRoute host path _, .keyed key _ => key == host ++ 47 :: path
  | addStreamRoute host path _, .keyed key _ => key == host ++ 47 :: path
  | setGlobal _, .setting name _ => strcaseeq name (ascii "global_mode")
  | setCacheTtl _, .setting name _ => strcaseeq name (ascii "cache_ttl")
  | _, _ => false

end SavingCall

/-- What the lines of a file set. -/
def settingsOf (file : Bytes) : List ConfigLine :=
  ((fgetsLines file).map parseLine).filter (· ≠ .nothing)

/-- A file that a call has replaced. -/
structure Replacement where
  file : Bytes
  /-- The tables before the call, and the text that they come from. -/
  memory : ArwsConfig
  source : Bytes
  call : SavingCall

/-- What happens to the file. -/
inductive StoreEvent
  /-- The file and the noted time are there, and the file has been loaded. -/
  | began (mtime noted : Int)
  /-- The operator rewrites the file. -/
  | edited (before after : Bytes) (mtime : Int)
  | loadBegins
  | loadEnds
  /-- A round of the watchdog. -/
  | polled
  /-- A call has replaced the file. -/
  | saved (mtime : Int)
  deriving DecidableEq

/-! ### What the events tell

The last event comes first. -/

/-- The time of the file. -/
def fileTime : List StoreEvent → Int
  | [] => 0
  | .began mtime _ :: _ => mtime
  | .edited _ _ mtime :: _ => mtime
  | .saved mtime :: _ => mtime
  | _ :: events => fileTime events

/-- The time at the end of the last load. -/
def notedTime : List StoreEvent → Int
  | [] => 0
  | .began _ noted :: _ => noted
  | .loadEnds :: events => fileTime events
  | _ :: events => notedTime events

/-- The edits since the file was last read or replaced: the text before the first of them and the text
behind the last.  The watchdog reads a file that has a time, and not the one noted. -/
def unseenEdits : List StoreEvent → Option (Bytes × Bytes)
  | .edited before after _ :: events =>
    some (((unseenEdits events).map Prod.fst).getD before, after)
  | .polled :: events =>
    if fileTime events ≠ 0 ∧ fileTime events ≠ notedTime events then none else unseenEdits events
  | .loadEnds :: events => unseenEdits events
  | _ => none

structure ConfigStore where
  file : Bytes
  /-- Its `st_mtime`, in seconds. -/
  mtime : Int
  memory : ArwsConfig
  lastConfigMtime : Int
  /-- A load has read the file, and has not noted its time. -/
  loading : Bool
  /-- The text that was last loaded, or written by `save_config`. -/
  source : Bytes
  history : List StoreEvent
  replaced : List Replacement

/-- The file is read, by a load or in a round of the watchdog. -/
def ConfigStore.read (env : LoadEnv) (s : ConfigStore) (event : StoreEvent) : ConfigStore :=
  { s with
    memory := (arwsConfigLoad env s.file s.memory).config
    loading := true
    source := s.file
    history := event :: s.history }

/-- The tables behind a call replace the file. -/
def ConfigStore.replace (s : ConfigStore) (call : SavingCall) (memory : ArwsConfig) (mtime : Int) :
    ConfigStore :=
  { s with
    file := saveConfig memory
    mtime := mtime
    memory := memory
    source := saveConfig memory
    history := .saved mtime :: s.history
    replaced := ⟨s.file, s.memory, s.source, call⟩ :: s.replaced }

inductive StoreAct
  /-- The operator rewrites the file, which has some time then. -/
  | edit (file : Bytes) (mtime : Int)
  /-- `arws_config_load`, for `cfg reload`, `IPC_RELOAD` or `IPC_REGISTER`, as far as it reads. -/
  | load
  /-- Its end. -/
  | finishLoad
  /-- A round of `config_watchdog_loop`; where something comes between its look at the time and its load,
  the latter is a `load`. -/
  | poll
  /-- A call, with the time of the file if it can be replaced. -/
  | call (call : SavingCall) (written : Option Int)

/-- The file and the tables from the first load on. -/
def configStore (env : LoadEnv) : Machine ConfigStore StoreAct where
  init s := s.loading = false ∧ s.source = s.file ∧ s.history = [.began s.mtime s.lastConfigMtime] ∧
    s.replaced = [] ∧ ∃ memory, s.memory = (arwsConfigLoad env s.file memory).config
  step s
    | .edit file mtime =>
      some { s with file := file, mtime := mtime, history := .edited s.file file mtime :: s.history }
    | .load => if s.loading then none else some (s.read env .loadBegins)
    | .finishLoad =>
      if s.loading then
        some { s with lastConfigMtime := s.mtime, loading := false, history := .loadEnds :: s.history }
      else none
    | .poll =>
      if s.loading then none
      else if s.mtime ≠ 0 ∧ s.mtime ≠ s.lastConfigMtime then some (s.read env .polled)
      else some { s with history := .polled :: s.history }
    | .call call written =>
      if s.loading then none
      else if (call.apply s.memory).2 ≠ 0 then some s
      else match written with
        | none => some { s with memory := (call.apply s.memory).1 }
        | some mtime => some (s.replace call (call.apply s.memory).1 mtime)

/-! ## What is not lost -/

/-- How tables come from a text: it has been loaded, or they have been written to it, and calls that
could not replace the file came after that. -/
inductive MadeOf (env : LoadEnv) (text : Bytes) : ArwsConfig → Prop
  | loaded (memory : ArwsConfig) : MadeOf env text (arwsConfigLoad env text memory).config
  | saved {memory : ArwsConfig} (h : text = saveConfig memory) : MadeOf env text memory
  | call {memory : ArwsConfig} (h : MadeOf env text memory) (call : SavingCall) :
    MadeOf env text (call.apply memory).1

/-- **No edit is lost**: whatever a replaced file has set was in the text that the tables came from, or
the call is about it. -/
def EditsKept (env : LoadEnv) (s : ConfigStore) : Prop :=
  ∀ r ∈ s.replaced, MadeOf env r.source r.memory ∧
    ∀ line ∈ settingsOf r.file, line ∈ settingsOf r.source ∨ r.call.supersedes line = true

/-- What the edits have brought to the file is what the call is about. -/
def SavingCall.Covers (call : SavingCall) (edits : Bytes × Bytes) : Prop :=
  ∀ line ∈ settingsOf edits.2, line ∈ settingsOf edits.1 ∨ call.supersedes line = true

/-- Where a call replaces the file, the unseen edits have brought nothing but what it is about. -/
def EditsSeen (s : ConfigStore) : StoreAct → Prop
  | .call call (some _) =>
    (call.apply s.memory).2 = 0 → ∀ edits, unseenEdits s.history = some edits → call.Covers edits
  | _ => True

instance (call : SavingCall) (edits : Bytes × Bytes) : Decidable (call.Covers edits) :=
  inferInstanceAs (Decidable (∀ line ∈ settingsOf edits.2,
    line ∈ settingsOf edits.1 ∨ call.supersedes line = true))

instance (s : ConfigStore) (act : StoreAct) : Decidable (EditsSeen s act) :=
  match act with
  | .call call (some _) =>
    inferInstanceAs (Decidable ((call.apply s.memory).2 = 0 →
      ∀ edits ∈ unseenEdits s.history, call.Covers edits))
  | .call _ none | .edit _ _ | .load | .finishLoad | .poll => isTrue trivial

/-! ## All runs -/

/-- The file is the text that the tables come from, but for the unseen edits. -/
def Joined (source file : Bytes) : Option (Bytes × Bytes) → Prop
  | none => file = source
  | some edits => edits = (source, file)

/-- The two copies, in a run in which nothing has been lost. -/
structure InStep (env : LoadEnv) (s : ConfigStore) : Prop where
  made : MadeOf env s.source s.memory
  mtime : fileTime s.history = s.mtime
  noted : notedTime s.history = s.lastConfigMtime
  joined : Joined s.source s.file (unseenEdits s.history)
  kept : EditsKept env s

section Step

variable {env : LoadEnv} {s t : ConfigStore}

theorem Joined.edited {source file : Bytes} {edits : Option (Bytes × Bytes)} (h : Joined source file edits)
    (after : Bytes) : Joined source after (some ((edits.map Prod.fst).getD file, after)) := by
  cases edits with
  | none =>
    have hfile : file = source := h
    rw [hfile]
    rfl
  | some edits =>
    have hedits : edits = (source, file) := h
    rw [hedits]
    rfl

/-- **A replacement loses nothing exactly if** the unseen edits have brought only what the call is
about. -/
theorem InStep.editsKept_replace_iff (h : InStep env s) (call : SavingCall) (memory : ArwsConfig)
    (mtime : Int) : EditsKept env (s.replace call memory mtime) ↔
      ∀ edits, unseenEdits s.history = some edits → call.Covers edits := by
  have hjoined := h.joined
  constructor
  · intro hkept edits hedits
    rw [hedits] at hjoined
    have hfiles : edits = (s.source, s.file) := hjoined
    rw [hfiles]
    exact (hkept _ (List.mem_cons_self ..)).2
  · intro hcovers r hr
    rcases List.mem_cons.1 hr with rfl | hr
    · refine ⟨h.made, fun line hline => ?_⟩
      cases hedits : unseenEdits s.history with
      | none =>
        rw [hedits] at hjoined
        have hfile : s.file = s.source := hjoined
        rw [← hfile]
        exact Or.inl hline
      | some edits =>
        rw [hedits] at hjoined
        have hfiles : edits = (s.source, s.file) := hjoined
        have hcover := hcovers edits hedits
        rw [hfiles] at hcover
        exact hcover line hline
    · exact h.kept r hr

theorem InStep.replace (h : InStep env s) {call : SavingCall}
    (hcovers : ∀ edits, unseenEdits s.history = some edits → call.Covers edits)
    (memory : ArwsConfig) (mtime : Int) : InStep env (s.replace call memory mtime) where
  made := .saved rfl
  mtime := rfl
  noted := h.noted
  joined := rfl
  kept := (h.editsKept_replace_iff call memory mtime).2 hcovers

/-- **Every step keeps the copies in step**, if a call that replaces the file has seen the edits. -/
theorem InStep.step (h : InStep env s) {act : StoreAct} (hseen : EditsSeen s act)
    (hs : (configStore env).step s act = some t) : InStep env t := by
  cases act with
  | edit file mtime =>
    cases hs
    exact ⟨h.made, rfl, h.noted, h.joined.edited file, h.kept⟩
  | load =>
    simp only [configStore, Option.ite_none_left_eq_some, Option.some_inj] at hs
    obtain ⟨-, rfl⟩ := hs
    exact ⟨.loaded s.memory, h.mtime, h.noted, rfl, h.kept⟩
  | finishLoad =>
    simp only [configStore, Option.ite_none_right_eq_some, Option.some_inj] at hs
    obtain ⟨-, rfl⟩ := hs
    exact ⟨h.made, h.mtime, h.mtime, h.joined, h.kept⟩
  | poll =>
    simp only [configStore, Option.ite_none_left_eq_some] at hs
    obtain ⟨-, hs⟩ := hs
    have hunseen : unseenEdits (.polled :: s.history) =
        if s.mtime ≠ 0 ∧ s.mtime ≠ s.lastConfigMtime then none else unseenEdits s.history := by
      rw [unseenEdits, h.mtime, h.noted]
    split at hs
    · rename_i htimes
      cases hs
      refine ⟨.loaded s.memory, h.mtime, h.noted, ?_, h.kept⟩
      rw [ConfigStore.read, hunseen, if_pos htimes]
      rfl
    · rename_i htimes
      cases hs
      refine ⟨h.made, h.mtime, h.noted, ?_, h.kept⟩
      rw [hunseen, if_neg htimes]
      exact h.joined
  | call call written =>
    simp only [configStore, Option.ite_none_left_eq_some] at hs
    obtain ⟨-, hs⟩ := hs
    split at hs
    · cases hs
      exact h
    · rename_i hzero
      cases written with
      | none =>
        cases hs
        exact ⟨h.made.call call, h.mtime, h.noted, h.joined, h.kept⟩
      | some mtime =>
        cases hs
        exact h.replace (hseen (not_not.1 hzero)) _ mtime

/-- **The watchdog finds nothing behind a load**, whatever the operator has written while it was under
way. -/
theorem poll_after_finishLoad (hs : (configStore env).step s .finishLoad = some t) :
    (configStore env).step t .poll = some { t with history := .polled :: t.history } := by
  simp only [configStore, Option.ite_none_right_eq_some, Option.some_inj] at hs
  obtain ⟨-, rfl⟩ := hs
  simp only [configStore]
  rw [if_neg Bool.false_ne_true, if_neg fun h => h.2 rfl]

end Step

section Runs

private def noAddressEnv : LoadEnv := ⟨fun _ => none, fun _ => []⟩

/-- A file with one line, which has been loaded. -/
private def oneLine : ConfigStore where
  file := ascii "mode=test\n"
  mtime := 1
  memory := (arwsConfigLoad noAddressEnv (ascii "mode=test\n") .initial).config
  lastConfigMtime := 1
  loading := false
  source := ascii "mode=test\n"
  history := [.began 1 1]
  replaced := []

private theorem reach_oneLine (C : ConfigStore → StoreAct → Prop) :
    (configStore noAddressEnv).ReachUnder C oneLine :=
  .start ⟨rfl, rfl, rfl, rfl, .initial, rfl⟩

end Runs

end Config
end Arws

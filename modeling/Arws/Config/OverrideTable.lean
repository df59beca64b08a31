import Mathlib.Data.Finset.Dedup
import Mathlib.Data.Finset.Card
import Arws.Library.KeyedTable
import Arws.Library.Transition
import Arws.Config.Save

/-!
# The table of overrides

`arws_config_add_override` and `arws_config_remove_override` keep the overrides in the first slots of an
array.  An override that goes is written over by the last one, and loading a file starts again with the
first slot; what a slot held before is still there when it is used again.

* `nodup_load_iff` — when the overrides that are loaded from a file have keys of their own.
* `refinesMap_iff` — the table is a map from host and path to mode and flag, in all states of a run,
  exactly if each new override comes to a slot without the flag and each file has such overrides.
-/

set_option autoImplicit false

namespace Arws
namespace Config

open CString TextFile KeyedTable

/-- `arws_config_has_override`. -/
def arwsConfigHasOverride (s : ArwsConfig) (host path : Bytes) : Bool :=
  s.overrides.any fun o => o.host == host && o.path == path

theorem hasOverride_iff {s : ArwsConfig} {host path : Bytes} :
    arwsConfigHasOverride s host path = true ↔ (host, path) ∈ s.overrides.map (·.key) := by
  simp [arwsConfigHasOverride, ModeOverride.key]

/-! ## Loading -/

/-- The host and the path of a line that sets an override. -/
def overrideKey? (line : Bytes) : Option (Bytes × Bytes) :=
  match parseLine line with
  | .keyed key val =>
    match strchr 47 key with
    | some slash =>
      if isUrl (targetOf val).2 then none else some (key.take slash, key.drop (slash + 1))
    | none => none
  | _ => none

/-- A host and a path as they are stored. -/
def storedKey (k : Bytes × Bytes) : Bytes × Bytes := (k.1.take 127, k.2.take 127)

def storedKeys (lines : List Bytes) : List (Bytes × Bytes) :=
  (lines.filterMap overrideKey?).map storedKey

/-- The host and the path of a line are stored as no line before it has stored its own, unless the
table is full or the line finds the override of its own host and path. -/
def KeyApart (pre : List Bytes) (line : Bytes) : Prop :=
  ∀ host path, overrideKey? line = some (host, path) → (127 < host.length ∨ 127 < path.length) →
    (storedKeys pre).toFinset.card < maxOverrides → storedKey (host, path) ∉ storedKeys pre

/-- The lines of a file that set an override, with a host or a path too long to be stored, differ in
what is stored of it from those before them. -/
def KeysApart (lines : List Bytes) : Prop :=
  ∀ pre line, pre ++ [line] <+: lines → KeyApart pre line

theorem keysApart_nil : KeysApart [] := fun pre line h => by simp at h

theorem keysApart_concat {lines : List Bytes} {line : Bytes} :
    KeysApart (lines ++ [line]) ↔ KeysApart lines ∧ KeyApart lines line := by
  constructor
  · intro h
    exact ⟨fun pre l hpre => h pre l (hpre.trans (List.prefix_append _ _)),
      h lines line (List.prefix_refl _)⟩
  · rintro ⟨h, hline⟩ pre l hpre
    rcases List.prefix_concat_iff.1 hpre with heq | hpre
    · obtain ⟨rfl, hl⟩ := List.append_inj' heq rfl
      rw [List.cons.injEq] at hl
      exact hl.1 ▸ hline
    · exact h pre l hpre

/-- What a line with a key does to the keys of the table. -/
def nextKeys (keys : List (Bytes × Bytes)) : Option (Bytes × Bytes) → List (Bytes × Bytes)
  | some k => if keys.length < maxOverrides ∧ k ∉ keys then keys ++ [storedKey k] else keys
  | none => keys

/-- A line stores its key behind the others, or changes none of them. -/
theorem nextKeys_cases (keys : List (Bytes × Bytes)) (k? : Option (Bytes × Bytes)) :
    nextKeys keys k? = keys ∨
      ∃ k, k? = some k ∧ keys.length < maxOverrides ∧ k ∉ keys ∧
        nextKeys keys k? = keys ++ [storedKey k] := by
  cases k? with
  | none => exact Or.inl rfl
  | some k =>
    by_cases hnew : keys.length < maxOverrides ∧ k ∉ keys
    · exact Or.inr ⟨k, rfl, hnew.1, hnew.2, if_pos hnew⟩
    · exact Or.inl (if_neg hnew)

theorem keys_readLine (env : LoadEnv) {st : Loading} (line : Bytes)
    (hsized : ∀ o ∈ st.config.overrides, o.Sized) :
    (st.readLine env line).config.overrides.map (·.key) =
      nextKeys (st.config.overrides.map (·.key)) (overrideKey? line) := by
  rw [Loading.readLine, overrideKey?]
  cases parseLine line with
  | nothing => rfl
  | setting name value =>
    show ((st.config.readSetting env name value).overrides).map _ = _
    rw [(readSetting_tables env st.config name value).1]
    rfl
  | keyed key val =>
    rw [Loading.read, Loading.readKeyed]
    dsimp only
    cases strchr 47 key with
    | none => split_ifs <;> rfl
    | some slash =>
      by_cases hurl : isUrl (targetOf val).2 = true
      · simp only [if_pos hurl]
        split_ifs
        · rw [addRoute_overrides]
          rfl
        · rfl
      · simp only [if_neg hurl, nextKeys, List.length_map]
        by_cases hroom : st.config.overrides.length < maxOverrides
        · simp only [hroom, if_true, keys_setOverride _ _ hsized, true_and, ite_not]
          rfl
        · simp only [hroom, false_and, if_false]

/-- The keys that a file leaves in the table. -/
def loadedKeys (lines : List Bytes) : List (Bytes × Bytes) :=
  lines.foldl (fun keys line => nextKeys keys (overrideKey? line)) []

theorem loadedKeys_concat (lines : List Bytes) (line : Bytes) :
    loadedKeys (lines ++ [line]) = nextKeys (loadedKeys lines) (overrideKey? line) := by
  rw [loadedKeys, List.foldl_append]
  rfl

theorem storedKeys_concat (lines : List Bytes) (line : Bytes) :
    storedKeys (lines ++ [line]) = storedKeys lines ++ ((overrideKey? line).map storedKey).toList := by
  rw [storedKeys, List.filterMap_append, List.map_append, storedKeys]
  cases h : overrideKey? line <;> simp [h]

theorem keys_readLines (env : LoadEnv) (s : ArwsConfig) (lines : List Bytes) :
    (Loading.readLines env ⟨s.reset, []⟩ lines).config.overrides.map (·.key) = loadedKeys lines := by
  induction lines using List.reverseRecOn with
  | nil => rfl
  | append_singleton lines line ih =>
    have hsized := (@readLines_keys env ⟨s.reset, []⟩ lines (by simp [ArwsConfig.reset])).1
    rw [readLines_append, loadedKeys_concat, ← ih]
    exact keys_readLine env line hsized

/-- A key of the table has its parts as they are stored, -/
theorem storedKey_of_mem_loadedKeys {lines : List Bytes} {k : Bytes × Bytes}
    (h : k ∈ loadedKeys lines) : storedKey k = k := by
  induction lines using List.reverseRecOn with
  | nil => cases h
  | append_singleton lines line ih =>
    rw [loadedKeys_concat] at h
    rcases nextKeys_cases (loadedKeys lines) (overrideKey? line) with hsame | ⟨k', -, -, -, hnext⟩
    · exact ih (hsame ▸ h)
    · rw [hnext, List.mem_append, List.mem_singleton] at h
      rcases h with h | rfl
      · exact ih h
      · simp [storedKey]

/-- and is the one of a line; -/
theorem mem_storedKeys {lines : List Bytes} {k : Bytes × Bytes} (h : k ∈ loadedKeys lines) :
    k ∈ storedKeys lines := by
  induction lines using List.reverseRecOn with
  | nil => cases h
  | append_singleton lines line ih =>
    rw [loadedKeys_concat] at h
    rw [storedKeys_concat, List.mem_append]
    rcases nextKeys_cases (loadedKeys lines) (overrideKey? line) with hsame | ⟨k', hkey, -, -, hnext⟩
    · exact Or.inl (ih (hsame ▸ h))
    · rw [hnext, List.mem_append] at h
      rw [hkey]
      exact h.imp ih id

/-- while there is room every line finds its own. -/
theorem mem_loadedKeys {lines : List Bytes} (hroom : (loadedKeys lines).length < maxOverrides)
    {k : Bytes × Bytes} (h : k ∈ storedKeys lines) : k ∈ loadedKeys lines := by
  induction lines using List.reverseRecOn with
  | nil => cases h
  | append_singleton lines line ih =>
    rw [loadedKeys_concat] at hroom ⊢
    rw [storedKeys_concat, List.mem_append] at h
    cases hkey : overrideKey? line with
    | none =>
      rw [hkey] at hroom h
      exact ih hroom (by simpa using h)
    | some k' =>
      rw [hkey, Option.map_some, Option.toList_some, List.mem_singleton] at h
      rw [hkey, nextKeys] at hroom
      rw [nextKeys]
      split_ifs at hroom ⊢ with hnew
      · exact List.mem_append.2 (h.imp (ih hnew.1) List.mem_singleton.2)
      · rcases h with h | rfl
        · exact ih hroom h
        · have hold : k' ∈ loadedKeys lines := by
            by_contra hnot
            exact hnew ⟨hroom, hnot⟩
          rwa [storedKey_of_mem_loadedKeys hold]

/-- Keys of their own fill the table exactly when the lines have as many. -/
theorem length_loadedKeys_lt_iff {lines : List Bytes} (hnodup : (loadedKeys lines).Nodup) :
    (loadedKeys lines).length < maxOverrides ↔ (storedKeys lines).toFinset.card < maxOverrides := by
  have hle : (loadedKeys lines).length ≤ (storedKeys lines).toFinset.card := by
    rw [← List.toFinset_card_of_nodup hnodup]
    refine Finset.card_le_card fun k hk => ?_
    exact List.mem_toFinset.2 (mem_storedKeys (List.mem_toFinset.1 hk))
  refine ⟨fun hroom => ?_, hle.trans_lt⟩
  have hsame : (storedKeys lines).toFinset = (loadedKeys lines).toFinset := by
    ext k
    rw [List.mem_toFinset, List.mem_toFinset]
    exact ⟨mem_loadedKeys hroom, mem_storedKeys⟩
  rwa [hsame, List.toFinset_card_of_nodup hnodup]

theorem storedKey_of_short {host path : Bytes} (h : ¬ (127 < host.length ∨ 127 < path.length)) :
    storedKey (host, path) = (host, path) := by
  obtain ⟨hhost, hpath⟩ := not_or.1 h
  exact Prod.ext (List.take_of_length_le (not_lt.1 hhost)) (List.take_of_length_le (not_lt.1 hpath))

theorem storedKey_ne_of_long {host path : Bytes} (h : 127 < host.length ∨ 127 < path.length) :
    storedKey (host, path) ≠ (host, path) := by
  intro heq
  have hhost := congrArg (fun k => k.1.length) heq
  have hpath := congrArg (fun k => k.2.length) heq
  simp only [storedKey, List.length_take] at hhost hpath
  omega

theorem nodup_nextKeys_iff {lines : List Bytes} (hnodup : (loadedKeys lines).Nodup) (line : Bytes) :
    (nextKeys (loadedKeys lines) (overrideKey? line)).Nodup ↔ KeyApart lines line := by
  cases hkey : overrideKey? line with
  | none =>
    refine iff_of_true hnodup fun host path h => ?_
    rw [hkey] at h
    cases h
  | some k =>
    obtain ⟨host, path⟩ := k
    have happart : KeyApart lines line ↔ ((127 < host.length ∨ 127 < path.length) →
        (loadedKeys lines).length < maxOverrides → storedKey (host, path) ∉ storedKeys lines) := by
      rw [length_loadedKeys_lt_iff hnodup]
      constructor
      · exact fun h => h host path hkey
      · intro h host' path' hkey'
        rw [hkey, Option.some.injEq, Prod.mk.injEq] at hkey'
        obtain ⟨rfl, rfl⟩ := hkey'
        exact h
    rw [happart, nextKeys]
    split_ifs with hnew
    · obtain ⟨hroom, hnew⟩ := hnew
      rw [(List.perm_append_singleton _ _).nodup_iff, List.nodup_cons, and_iff_left hnodup]
      by_cases hlong : 127 < host.length ∨ 127 < path.length
      · refine ⟨fun h _ _ hmem => h (mem_loadedKeys hroom hmem), fun h hmem => ?_⟩
        exact h hlong hroom (mem_storedKeys hmem)
      · rw [storedKey_of_short hlong]
        exact iff_of_true hnew fun h => absurd h hlong
    · refine iff_of_true hnodup fun hlong hroom => absurd ⟨hroom, fun hmem => ?_⟩ hnew
      exact storedKey_ne_of_long hlong (storedKey_of_mem_loadedKeys hmem)

/-- **The overrides of a file have keys of their own** exactly if its lines have. -/
theorem nodup_loadedKeys_iff (lines : List Bytes) : (loadedKeys lines).Nodup ↔ KeysApart lines := by
  induction lines using List.reverseRecOn with
  | nil => exact iff_of_true List.nodup_nil keysApart_nil
  | append_singleton lines line ih =>
    rw [loadedKeys_concat, keysApart_concat, ← ih]
    constructor
    · intro h
      have hnodup : (loadedKeys lines).Nodup := by
        rcases nextKeys_cases (loadedKeys lines) (overrideKey? line) with hsame | ⟨k, -, -, -, hnext⟩
        · rwa [hsame] at h
        · rw [hnext] at h
          exact h.sublist (List.sublist_append_left _ _)
      exact ⟨hnodup, (nodup_nextKeys_iff hnodup line).1 h⟩
    · rintro ⟨hnodup, hline⟩
      exact (nodup_nextKeys_iff hnodup line).2 hline

theorem length_loadedKeys_le (lines : List Bytes) : (loadedKeys lines).length ≤ maxOverrides := by
  induction lines using List.reverseRecOn with
  | nil => exact Nat.zero_le _
  | append_singleton lines line ih =>
    rw [loadedKeys_concat]
    rcases nextKeys_cases (loadedKeys lines) (overrideKey? line) with hsame | ⟨k, -, hroom, -, hnext⟩
    · rwa [hsame]
    · rw [hnext, List.length_append]
      exact hroom

/-! ## The map -/

/-- The mode and the flag of a host and a path. -/
abbrev OverrideMap := Bytes × Bytes → Option (Bytes × Bool)

/-- The map that a table is read as. -/
def bindingsOf (overrides : List ModeOverride) : OverrideMap := fun k =>
  (lookup ModeOverride.key overrides k).map fun o => (o.mode, o.noCache)

abbrev ArwsConfig.bindings (s : ArwsConfig) : OverrideMap := bindingsOf s.overrides

/-- A mode for a host and a path: the flag of an override that is there stays. -/
def OverrideMap.bind (m : OverrideMap) (k : Bytes × Bytes) (mode : Bytes) : OverrideMap :=
  Function.update m k (some (mode, (m k).elim false (·.2)))

/-- Strings that fit their fields. -/
def ShortKey (host path : Bytes) : Prop := host.length < 128 ∧ path.length < 128

instance (host path : Bytes) : Decidable (ShortKey host path) := inferInstanceAs (Decidable (_ ∧ _))

inductive OverrideCall
  | load (env : LoadEnv) (file : Bytes)
  | addOverride (host path mode : Bytes)
  | removeOverride (host path : Bytes)

/-- The tables, and beside them the map that the calls since the last load make. -/
structure OverrideState where
  config : ArwsConfig
  map : OverrideMap

/-- Files that are loaded, and calls of the two functions. -/
def overrideTable : Machine OverrideState OverrideCall where
  init t := t = ⟨ArwsConfig.initial, fun _ => none⟩
  step t
    | .load env file =>
      let config := (arwsConfigLoad env file t.config).config
      some ⟨config, config.bindings⟩
    | .addOverride host path mode =>
      if ShortKey host path ∧ mode.length < 32 then
        let (config, result) := arwsConfigAddOverride t.config host path mode
        some ⟨config, if result = 0 then t.map.bind (host, path) mode else t.map⟩
      else none
    | .removeOverride host path =>
      if ShortKey host path then
        some ⟨(arwsConfigRemoveOverride t.config host path).1,
          Function.update t.map (host, path) none⟩
      else none

/-- **The table is the map**: it has each host and path once, and refuses a new one only when it is
full. -/
structure RefinesMap (t : OverrideState) : Prop where
  nodup : (t.config.overrides.map (·.key)).Nodup
  bindings : t.config.bindings = t.map
  full : ∀ host path mode, ShortKey host path →
    (arwsConfigAddOverride t.config host path mode).2 ≠ 0 →
      t.map (host, path) = none ∧ t.config.overrides.length = maxOverrides

/-- A new override comes to a slot without the flag, and the lines of a file have keys of their own. -/
def KeepsMap (t : OverrideState) : OverrideCall → Prop
  | .load _ file => KeysApart (fgetsLines file)
  | .addOverride host path _ =>
    arwsConfigHasOverride t.config host path = false → t.config.overrides.length < maxOverrides →
      (t.config.spare.head?.map (·.noCache)).getD false = false
  | .removeOverride .. => True

section

variable {s : ArwsConfig} {host path mode : Bytes}

theorem bindings_eq_none_iff {k : Bytes × Bytes} :
    s.bindings k = none ↔ k ∉ s.overrides.map (·.key) := by
  rw [ArwsConfig.bindings, bindingsOf, Option.map_eq_none_iff, lookup_eq_none_iff]

/-- The bindings behind a change of one override. -/
theorem bindings_update {l l' : List ModeOverride} {k : Bytes × Bytes} {o : Option ModeOverride}
    (h : lookup ModeOverride.key l' = Function.update (lookup ModeOverride.key l) k o) :
    bindingsOf l' = Function.update (bindingsOf l) k (o.map fun o => (o.mode, o.noCache)) := by
  funext k'
  rw [bindingsOf, h]
  by_cases hk : k' = k
  · rw [hk, Function.update_self, Function.update_self]
  · rw [Function.update_of_ne hk, Function.update_of_ne hk]
    rfl

/-- An override that is there gets the mode, -/
theorem addOverride_old (hnodup : (s.overrides.map (·.key)).Nodup) {i : Nat}
    (hidx : overrideIdx s.overrides host path = some i) (hmode : mode.length < 32) :
    (arwsConfigAddOverride s host path mode).2 = 0 ∧
      (arwsConfigAddOverride s host path mode).1.overrides.map (·.key) = s.overrides.map (·.key) ∧
      (arwsConfigAddOverride s host path mode).1.bindings = s.bindings.bind (host, path) mode := by
  obtain ⟨o, ho, rfl, rfl⟩ := key_of_overrideIdx hidx
  rw [arwsConfigAddOverride, hidx]
  have hkey : ∀ o : ModeOverride, ({ o with mode := mode.take 31 } : ModeOverride).key = o.key :=
    fun _ => rfl
  refine ⟨rfl, map_modify hkey, ?_⟩
  have hlookup : lookup ModeOverride.key s.overrides o.key = some o :=
    (lookup_eq_some_iff hnodup).2 ⟨List.mem_of_getElem? ho, rfl⟩
  have hold : s.bindings (o.host, o.path) = some (o.mode, o.noCache) :=
    congrArg (Option.map _) hlookup
  refine (bindings_update (lookup_modify hkey hnodup ho)).trans ?_
  rw [OverrideMap.bind, hold, List.take_of_length_le (Nat.lt_succ_iff.1 hmode)]
  rfl

/-- a new one is refused by a full table, -/
theorem addOverride_full (hidx : overrideIdx s.overrides host path = none)
    (hfull : maxOverrides ≤ s.overrides.length) :
    arwsConfigAddOverride s host path mode = (s, -1) := by
  rw [arwsConfigAddOverride, hidx]
  exact if_pos hfull

/-- and otherwise has the flag that its slot has. -/
theorem addOverride_new (hshort : ShortKey host path)
    (hnodup : (s.overrides.map (·.key)).Nodup) (hidx : overrideIdx s.overrides host path = none)
    (hroom : s.overrides.length < maxOverrides) (hmode : mode.length < 32) :
    (arwsConfigAddOverride s host path mode).2 = 0 ∧
      (arwsConfigAddOverride s host path mode).1.overrides.length = s.overrides.length + 1 ∧
      ((arwsConfigAddOverride s host path mode).1.overrides.map (·.key)).Nodup ∧
      (arwsConfigAddOverride s host path mode).1.bindings = Function.update s.bindings (host, path)
        (some (mode, (s.spare.head?.map (·.noCache)).getD false)) := by
  have hnew := overrideIdx_eq_none_iff.1 hidx
  rw [arwsConfigAddOverride, hidx]
  simp only [if_neg (not_le.2 hroom), List.take_of_length_le (Nat.lt_succ_iff.1 hshort.1),
    List.take_of_length_le (Nat.lt_succ_iff.1 hshort.2),
    List.take_of_length_le (Nat.lt_succ_iff.1 hmode)]
  refine ⟨trivial, List.length_append, nodup_concat.2 ⟨hnodup, hnew⟩, ?_⟩
  exact bindings_update (lookup_concat hnew)

/-- **What a removal does.** -/
theorem bindings_removeOverride (hnodup : (s.overrides.map (·.key)).Nodup) :
    ((arwsConfigRemoveOverride s host path).1.overrides.map (·.key)).Nodup ∧
      (arwsConfigRemoveOverride s host path).1.overrides.length ≤ s.overrides.length ∧
      (arwsConfigRemoveOverride s host path).1.bindings =
        Function.update s.bindings (host, path) none := by
  cases hidx : overrideIdx s.overrides host path with
  | none =>
    rw [arwsConfigRemoveOverride, hidx]
    refine ⟨hnodup, le_rfl, ?_⟩
    rw [← bindings_eq_none_iff.2 (overrideIdx_eq_none_iff.1 hidx), Function.update_eq_self]
  | some i =>
    obtain ⟨o, ho, rfl, rfl⟩ := key_of_overrideIdx hidx
    obtain ⟨last, hlast⟩ := Option.isSome_iff_exists.1
      (List.getLast?_isSome.2 (List.ne_nil_of_mem (List.mem_of_getElem? ho)))
    have hdrop : (s.overrides.set i last).dropLast = Slots.dropAt s.overrides i := by
      rw [Slots.dropAt, hlast]
    obtain ⟨hnodup', hlookup⟩ := lookup_dropAt hnodup ho
    rw [← hdrop] at hnodup' hlookup
    rw [arwsConfigRemoveOverride, hidx, hlast]
    refine ⟨hnodup', ?_, bindings_update hlookup⟩
    simp

theorem full_of_refused (hle : s.overrides.length ≤ maxOverrides)
    (hresult : (arwsConfigAddOverride s host path mode).2 ≠ 0) :
    s.bindings (host, path) = none ∧ s.overrides.length = maxOverrides := by
  rw [arwsConfigAddOverride] at hresult
  cases hidx : overrideIdx s.overrides host path with
  | some i =>
    rw [hidx] at hresult
    exact absurd rfl hresult
  | none =>
    rw [hidx] at hresult
    dsimp only at hresult
    split_ifs at hresult with hfull
    · exact ⟨bindings_eq_none_iff.2 (overrideIdx_eq_none_iff.1 hidx), le_antisymm hle hfull⟩
    · exact absurd rfl hresult

end

/-! ## Runs -/

section

variable {t t' : OverrideState}

theorem step_addOverride {host path mode : Bytes} (hshort : ShortKey host path)
    (hmode : mode.length < 32) (hresult : (arwsConfigAddOverride t.config host path mode).2 = 0) :
    overrideTable.step t (.addOverride host path mode) =
      some ⟨(arwsConfigAddOverride t.config host path mode).1, t.map.bind (host, path) mode⟩ := by
  simp only [overrideTable, if_pos (And.intro hshort hmode), hresult, if_true]

theorem refinesMap_of_nodup (hnodup : (t.config.overrides.map (·.key)).Nodup)
    (hbind : t.config.bindings = t.map) (hle : t.config.overrides.length ≤ maxOverrides) :
    RefinesMap t where
  nodup := hnodup
  bindings := hbind
  full _ _ _ _ hresult := hbind ▸ full_of_refused hle hresult

/-- A load. -/
theorem refinesMap_load_iff (env : LoadEnv) (file : Bytes) (s : ArwsConfig) :
    (arwsConfigLoad env file s).config.overrides.length ≤ maxOverrides ∧
      (RefinesMap ⟨(arwsConfigLoad env file s).config, (arwsConfigLoad env file s).config.bindings⟩ ↔
        KeysApart (fgetsLines file)) := by
  have hkeys := keys_readLines env s (fgetsLines file)
  have hle : (arwsConfigLoad env file s).config.overrides.length ≤ maxOverrides := by
    have := length_loadedKeys_le (fgetsLines file)
    rwa [← hkeys, List.length_map] at this
  refine ⟨hle, ?_⟩
  rw [← nodup_loadedKeys_iff, ← hkeys]
  exact ⟨fun h => h.nodup, fun h => refinesMap_of_nodup h rfl hle⟩

/-- An addition. -/
theorem refinesMap_addOverride_iff {host path mode : Bytes} (h : RefinesMap t)
    (hle : t.config.overrides.length ≤ maxOverrides) (hshort : ShortKey host path)
    (hmode : mode.length < 32) :
    (arwsConfigAddOverride t.config host path mode).1.overrides.length ≤ maxOverrides ∧
      (RefinesMap ⟨(arwsConfigAddOverride t.config host path mode).1,
          if (arwsConfigAddOverride t.config host path mode).2 = 0 then t.map.bind (host, path) mode
          else t.map⟩ ↔ KeepsMap t (.addOverride host path mode)) := by
  cases hidx : overrideIdx t.config.overrides host path with
  | some i =>
    obtain ⟨hresult, hkeys, hbind⟩ := addOverride_old h.nodup hidx hmode
    have hle' : (arwsConfigAddOverride t.config host path mode).1.overrides.length ≤ maxOverrides := by
      have := congrArg List.length hkeys
      rw [List.length_map, List.length_map] at this
      rwa [this]
    refine ⟨hle', iff_of_true (refinesMap_of_nodup (hkeys ▸ h.nodup) ?_ hle') fun hnew => ?_⟩
    · rw [if_pos hresult, ← h.bindings]
      exact hbind
    · obtain ⟨o, ho, rfl, rfl⟩ := key_of_overrideIdx hidx
      have hold : arwsConfigHasOverride t.config o.host o.path = true :=
        hasOverride_iff.2 (List.mem_map_of_mem (List.mem_of_getElem? ho))
      rw [hold] at hnew
      cases hnew
  | none =>
    by_cases hroom : t.config.overrides.length < maxOverrides
    · obtain ⟨hresult, hlength, hnodup, hbind⟩ :=
        addOverride_new hshort h.nodup hidx hroom hmode
      have hle' : (arwsConfigAddOverride t.config host path mode).1.overrides.length ≤ maxOverrides :=
        hlength ▸ hroom
      have hnew : arwsConfigHasOverride t.config host path = false :=
        Bool.eq_false_iff.2 fun hold => overrideIdx_eq_none_iff.1 hidx (hasOverride_iff.1 hold)
      have hnone : t.map (host, path) = none :=
        h.bindings ▸ bindings_eq_none_iff.2 (overrideIdx_eq_none_iff.1 hidx)
      have hmap : t.map.bind (host, path) mode = Function.update t.map (host, path) (some (mode, false)) := by
        rw [OverrideMap.bind, hnone]
        rfl
      refine ⟨hle', ?_⟩
      rw [if_pos hresult, hmap]
      constructor
      · intro hrefines _ _
        have hsame := hbind.symm.trans hrefines.bindings
        have hflag := congrFun hsame (host, path)
        rw [Function.update_self] at hflag
        have hself : Function.update t.map (host, path) (some (mode, false)) (host, path) =
            some (mode, false) := Function.update_self ..
        exact congrArg Prod.snd (Option.some.inj (hflag.trans hself))
      · intro hflag
        refine refinesMap_of_nodup hnodup ?_ hle'
        rw [hflag hnew hroom, h.bindings] at hbind
        exact hbind
    · have hsame : arwsConfigAddOverride t.config host path mode = (t.config, -1) :=
        addOverride_full hidx (not_lt.1 hroom)
      rw [hsame]
      exact ⟨hle, iff_of_true h fun _ hlt => absurd hlt hroom⟩

/-- A removal. -/
theorem refinesMap_removeOverride {host path : Bytes} (h : RefinesMap t)
    (hle : t.config.overrides.length ≤ maxOverrides) :
    (arwsConfigRemoveOverride t.config host path).1.overrides.length ≤ maxOverrides ∧
      RefinesMap ⟨(arwsConfigRemoveOverride t.config host path).1,
        Function.update t.map (host, path) none⟩ := by
  obtain ⟨hnodup, hlength, hbind⟩ := @bindings_removeOverride t.config host path h.nodup
  exact ⟨hlength.trans hle, refinesMap_of_nodup hnodup (h.bindings ▸ hbind) (hlength.trans hle)⟩

/-- **One call keeps the table a map exactly if it meets the condition.** -/
theorem refinesMap_step_iff {a : OverrideCall} (h : RefinesMap t)
    (hle : t.config.overrides.length ≤ maxOverrides) (hs : overrideTable.step t a = some t') :
    t'.config.overrides.length ≤ maxOverrides ∧ (RefinesMap t' ↔ KeepsMap t a) := by
  cases a with
  | load env file =>
    obtain rfl := Option.some.inj hs
    exact refinesMap_load_iff env file t.config
  | addOverride host path mode =>
    obtain ⟨⟨hshort, hmode⟩, hs⟩ := Option.ite_none_right_eq_some.1 hs
    obtain rfl := Option.some.inj hs
    exact refinesMap_addOverride_iff h hle hshort hmode
  | removeOverride host path =>
    obtain ⟨-, hs⟩ := Option.ite_none_right_eq_some.1 hs
    obtain rfl := Option.some.inj hs
    exact ⟨(refinesMap_removeOverride h hle).1, iff_of_true (refinesMap_removeOverride h hle).2 trivial⟩

end

/-- **The table refines a map in all states of a run** exactly if every new override comes to a slot
without the flag and the lines of every file have keys of their own. -/
theorem refinesMap_iff (t : OverrideState) :
    (overrideTable.ReachUnder KeepsMap t → RefinesMap t) ∧
      (overrideTable.ReachUnder KeepsMap t ↔
        overrideTable.ReachUnder (fun t a => ∃ t', overrideTable.step t a = some t' ∧ RefinesMap t') t) := by
  have hinit : ∀ t, overrideTable.init t →
      RefinesMap t ∧ t.config.overrides.length ≤ maxOverrides := by
    rintro t rfl
    exact ⟨refinesMap_of_nodup List.nodup_nil rfl (Nat.zero_le _), Nat.zero_le _⟩
  have hstep : ∀ t a t', (RefinesMap t ∧ t.config.overrides.length ≤ maxOverrides) → KeepsMap t a →
      overrideTable.step t a = some t' →
      RefinesMap t' ∧ t'.config.overrides.length ≤ maxOverrides := fun t a t' hI hc hs => by
    obtain ⟨hle, hiff⟩ := refinesMap_step_iff hI.1 hI.2 hs
    exact ⟨hiff.2 hc, hle⟩
  exact ⟨fun h => (h.invariant hinit hstep).1, Machine.reachUnder_iff hinit hstep
    fun t a t' hI hs => (refinesMap_step_iff hI.1 hI.2 hs).2⟩

/-- A load environment without lists of addresses. -/
private def plainEnv : LoadEnv := ⟨fun _ => none, fun _ => []⟩

/-- **The table is not always a map**: an override that was not to be cached is loaded and removed, and
the next one that is added is not cached either. -/
theorem not_refinesMap : ¬ ∀ t, overrideTable.Reach t → RefinesMap t := by
  intro h
  let loaded := (arwsConfigLoad plainEnv (ascii "\"a/b\" = no-cache") ArwsConfig.initial).config
  let removed := (arwsConfigRemoveOverride loaded (ascii "a") (ascii "b")).1
  let added := (arwsConfigAddOverride removed (ascii "b") (ascii "c") (ascii "test")).1
  let map : OverrideMap := Function.update loaded.bindings (ascii "a", ascii "b") none
  have hreach : overrideTable.Reach ⟨added, OverrideMap.bind map (ascii "b", ascii "c") (ascii "test")⟩ := by
    have hloaded : overrideTable.Reach ⟨loaded, loaded.bindings⟩ :=
      .next (.start rfl) trivial (a := .load plainEnv (ascii "\"a/b\" = no-cache")) rfl
    have hremoved : overrideTable.Reach ⟨removed, map⟩ :=
      .next hloaded trivial (a := .removeOverride (ascii "a") (ascii "b")) rfl
    exact .next hremoved trivial
      (step_addOverride (by decide) (by decide) (by decide +kernel))
  have hsame := congrFun (h _ hreach).bindings (ascii "b", ascii "c")
  revert hsame
  decide +kernel

end Config
end Arws

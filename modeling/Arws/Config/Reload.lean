import Mathlib.Data.List.FinRange
import Arws.Config.File

/-!
# Loading the configuration again

`arws_config_load` empties its own tables before it reads a file, and leaves the route table as it
is: the routes of every file that has been loaded stay in it.

`converges_iff` — the routes are those of the last file exactly if no file before it has registered
one.
-/

set_option autoImplicit false

namespace Arws
namespace Config

open CString Router

/-! ## The routes of the lines -/

/-- A route that a line names, without the mode it is registered under. -/
structure RouteEntry where
  kind : RouteKind
  host : Bytes
  path : Bytes
  target : Bytes
  deriving DecidableEq

def RouteEntry.registration (e : RouteEntry) (mode : Bytes) : Registration :=
  ⟨e.kind, e.path, e.host, mode, e.target⟩

/-- The route as the lists of the tables hold it. -/
def RouteEntry.recorded (e : RouteEntry) : ProxyRouteEntry :=
  ⟨e.host.take 127, e.path.take 127, e.target.take 255⟩

/-- The host and the path of a line, if it has them. -/
def ConfigLine.hostPath : ConfigLine → Option (Bytes × Bytes)
  | .keyed key _ => (strchr 47 key).map fun slash => (key.take slash, key.drop (slash + 1))
  | _ => none

def ConfigLine.val : ConfigLine → Bytes
  | .keyed _ val => val
  | _ => []

def ConfigLine.routeEntry (d : ConfigLine) : Option RouteEntry :=
  if isUrl (targetOf d.val).2 then
    d.hostPath.map fun (host, path) => ⟨(targetOf d.val).1, host, path, (targetOf d.val).2⟩
  else none

/-! ## The calls of the router -/

/-- The node that a call links into the table. -/
def Registration.node (r : Registration) (node : ArwsRoute) : ArwsRoute :=
  let useStream := r.kind == .stream
  let useRedirect := r.kind == .redirect
  let route := node.written r.path (ascii "*") (some r.host) (some r.mode) (-1) useStream useRedirect
  match r.kind with
  | .redirect => { route with redirectTarget := route.redirectTarget.strncpy r.target }
  | _ => { route with proxyTarget := route.proxyTarget.strncpy r.target }

/-- A call of the router; its result is not looked at. -/
def Registration.call (r : Registration) (table : RouteTable) (node : Option ArwsRoute) : RouteTable :=
  match r.kind with
  | .proxy =>
    (arwsAddProxyRoute table node r.path (ascii "*") (some r.host) (some r.mode) r.target).1
  | .stream =>
    (arwsAddStreamRoute table node r.path (ascii "*") (some r.host) (some r.mode) r.target).1
  | .redirect =>
    (arwsAddRedirectRoute table node r.path (ascii "*") (some r.host) (some r.mode) r.target).1

/-- The calls of a load, one after the other; `memory` is what `malloc` gives to them. -/
def registerAll (memory : Nat → Option ArwsRoute) (table : RouteTable) (calls : List Registration) :
    RouteTable :=
  calls.zipIdx.foldl (fun table (r, i) => r.call table (memory i)) table

theorem routes_call (r : Registration) (table : RouteTable) (node : Option ArwsRoute) :
    (r.call table node).routes.Perm ((node.map r.node).toList ++ table.routes) := by
  cases node with
  | none => obtain ⟨kind, path, host, mode, target⟩ := r; cases kind <;> exact List.Perm.refl _
  | some node =>
    obtain ⟨kind, path, host, mode, target⟩ := r
    cases kind <;> exact routes_insert _ _ _

/-- The nodes that the calls of a load link into the table. -/
def nodesOf (memory : Nat → Option ArwsRoute) (calls : List (Registration × Nat)) : List ArwsRoute :=
  calls.flatMap fun (r, i) => ((memory i).map r.node).toList

theorem routes_registerAll (memory : Nat → Option ArwsRoute) (table : RouteTable)
    (calls : List Registration) :
    (registerAll memory table calls).routes.Perm
      (nodesOf memory calls.zipIdx ++ table.routes) := by
  rw [registerAll]
  generalize calls.zipIdx = calls
  induction calls generalizing table with
  | nil => exact List.Perm.refl _
  | cons call calls ih =>
    obtain ⟨r, i⟩ := call
    refine (ih _).trans ?_
    rw [nodesOf, nodesOf, List.flatMap_cons, List.append_assoc]
    exact ((routes_call r table (memory i)).append_left _).trans
      (List.perm_append_comm_assoc _ _ _)

theorem nodesOf_eq_nil_iff (memory : Nat → Option ArwsRoute) (calls : List Registration) :
    nodesOf memory calls.zipIdx = [] ↔ ∀ i, i < calls.length → memory i = none := by
  rw [nodesOf, List.flatMap_eq_nil_iff]
  constructor
  · intro h i hi
    have := h (calls.get ⟨i, hi⟩, i) (List.mem_zipIdx_iff_getElem?.2 (List.getElem?_eq_getElem hi))
    simpa using this
  · rintro h ⟨r, i⟩ hmem
    obtain ⟨hi, -⟩ := List.getElem?_eq_some_iff.1 (List.mem_zipIdx_iff_getElem?.1 hmem)
    simp [h i hi]

/-! ## What decides about the calls -/

/-- Two loads that go on alike. -/
structure Alike (st st' : Loading) : Prop where
  registered : st.registered = st'.registered
  overrides : st.config.overrides = st'.config.overrides
  globalMode : st.config.globalMode = st'.config.globalMode

theorem Alike.setOverride {st st' : Loading} (h : Alike st st') (host path mode : Bytes)
    (noCache : Bool) : (st.config.setOverride host path mode noCache).overrides =
      (st'.config.setOverride host path mode noCache).overrides := by
  rw [ArwsConfig.setOverride, ArwsConfig.setOverride, h.overrides]
  cases overrideIdx st'.config.overrides host path <;> rfl

theorem setOverride_globalMode (s : ArwsConfig) (host path mode : Bytes) (noCache : Bool) :
    (s.setOverride host path mode noCache).globalMode = s.globalMode := by
  rw [ArwsConfig.setOverride]
  cases overrideIdx s.overrides host path <;> rfl

theorem Alike.readLine {st st' : Loading} (h : Alike st st') (env : LoadEnv) (line : Bytes) :
    Alike (st.readLine env line) (st'.readLine env line) := by
  rw [Loading.readLine, Loading.readLine]
  cases parseLine line with
  | nothing => exact h
  | setting name value =>
    refine ⟨h.registered, ?_, ?_⟩
    · exact ((readSetting_tables env st.config name value).1.trans h.overrides).trans
        (readSetting_tables env st'.config name value).1.symm
    · show (st.config.readSetting env name value).globalMode =
        (st'.config.readSetting env name value).globalMode
      rw [readSetting_globalMode, readSetting_globalMode, h.globalMode]
  | keyed key val =>
    rw [Loading.read, Loading.read, Loading.readKeyed, Loading.readKeyed, h.overrides]
    split_ifs
    · cases strchr 47 key with
      | none => exact h
      | some slash =>
        dsimp only
        split_ifs
        · refine ⟨?_, ?_, ?_⟩
          · rw [addRoute_registered, addRoute_registered, h.registered, h.globalMode]
          · rw [addRoute_overrides, addRoute_overrides, h.overrides]
          · rw [addRoute_globalMode, addRoute_globalMode, h.globalMode]
        · refine ⟨h.registered, h.setOverride _ _ _ _, ?_⟩
          rw [setOverride_globalMode, setOverride_globalMode, h.globalMode]
    · exact h

theorem Alike.readLines {st st' : Loading} (h : Alike st st') (env : LoadEnv) (lines : List Bytes) :
    Alike (st.readLines env lines) (st'.readLines env lines) := by
  induction lines generalizing st st' with
  | nil => exact h
  | cons line lines ih => exact ih (h.readLine env line)

/-- What was loaded before does not matter to the calls. -/
theorem registered_eq (env : LoadEnv) (file : Bytes) (s s' : ArwsConfig) :
    (arwsConfigLoad env file s).registered = (arwsConfigLoad env file s').registered := by
  have hstart : Alike ⟨s.reset, []⟩ ⟨s'.reset, []⟩ := ⟨rfl, rfl, rfl⟩
  exact (hstart.readLines env (fgetsLines file)).registered

/-! ## The lines that register a route -/

/-- A line that names a host, a path and a target. -/
def routeLine (line : Bytes) : Bool :=
  match parseLine line with
  | .keyed key val => key.contains 47 && isUrl (targetOf val).2
  | _ => false

theorem routeLine_of_parseLine {line host path val : Bytes}
    (hline : parseLine line = .keyed (host ++ 47 :: path) val) :
    routeLine line = isUrl (targetOf val).2 := by
  simp [routeLine, hline]

/-- Such a line is one more call, if it is read. -/
theorem registered_readLine (env : LoadEnv) {st : Loading} {line : Bytes} (h : routeLine line = true)
    (hroom : st.config.overrides.length < maxOverrides) :
    ∃ r, (st.readLine env line).registered = st.registered ++ [r] := by
  cases hline : parseLine line with
  | nothing => simp [routeLine, hline] at h
  | setting name value => simp [routeLine, hline] at h
  | keyed key val =>
    simp only [routeLine, hline, Bool.and_eq_true, List.contains_eq_mem, decide_eq_true_eq] at h
    obtain ⟨hslash, hurl⟩ := h
    cases hfound : strchr 47 key with
    | none => exact absurd hslash (strchr_eq_none_iff.1 hfound)
    | some slash =>
      obtain ⟨hkey, hhost⟩ := strchr_eq_some hfound
      rw [Loading.readLine, hline, hkey, Loading.read, readKeyed_slash env hhost _ val hroom,
        if_pos hurl]
      exact ⟨_, addRoute_registered _ _ _ _ _⟩

/-- Every other line is none. -/
theorem registered_readLine_of_not (env : LoadEnv) {st : Loading} {line : Bytes}
    (h : ¬ (routeLine line = true ∧ st.config.overrides.length < maxOverrides)) :
    (st.readLine env line).registered = st.registered := by
  have heffect := lineEffect_readLine env st line
  generalize st.readLine env line = st' at heffect ⊢
  cases heffect with
  | nothing => rfl
  | setting name value hline => rfl
  | route host path val hline hhost hroom hurl =>
    exact absurd ⟨(routeLine_of_parseLine hline).trans hurl, hroom⟩ h
  | override host path val hline hhost hroom hurl => rfl

theorem registered_readLines_mono (env : LoadEnv) (st : Loading) (lines : List Bytes) :
    st.registered <+: (st.readLines env lines).registered := by
  induction lines generalizing st with
  | nil => exact List.prefix_refl _
  | cons line lines ih =>
    refine List.IsPrefix.trans ?_ (ih (st.readLine env line))
    by_cases h : routeLine line = true ∧ st.config.overrides.length < maxOverrides
    · obtain ⟨r, hr⟩ := registered_readLine env h.1 h.2
      rw [hr]
      exact List.prefix_append _ _
    · rw [registered_readLine_of_not env h]

/-- **The calls of a load** are the lines that name a target and are read, in their order. -/
theorem lt_registered_iff (env : LoadEnv) {st : Loading} (lines : List Bytes) {i : Nat}
    (hi : st.registered.length ≤ i) :
    i < (st.readLines env lines).registered.length ↔
      ∃ pre line post, lines = pre ++ line :: post ∧ routeLine line = true ∧
        (st.readLines env pre).config.overrides.length < maxOverrides ∧
        (st.readLines env pre).registered.length = i := by
  induction lines generalizing st with
  | nil => simpa [readLines_nil] using hi
  | cons line lines ih =>
    rw [readLines_cons]
    by_cases h : routeLine line = true ∧ st.config.overrides.length < maxOverrides
    · obtain ⟨r, hr⟩ := registered_readLine env h.1 h.2
      have hlen : (st.readLine env line).registered.length = st.registered.length + 1 := by
        rw [hr, List.length_append, List.length_singleton]
      obtain rfl | hlt := Nat.eq_or_lt_of_le hi
      · -- the call of this line
        refine iff_of_true ?_ ⟨[], line, lines, rfl, h.1, h.2, rfl⟩
        have := (registered_readLines_mono env (st.readLine env line) lines).length_le
        omega
      · rw [ih (by omega)]
        constructor
        · rintro ⟨pre, l, post, rfl, hl⟩
          exact ⟨line :: pre, l, post, rfl, hl⟩
        · rintro ⟨_ | ⟨_, pre⟩, l, post, hsplit, hl⟩
          · exact absurd hl.2.2 (by rw [readLines_nil]; omega)
          · cases hsplit
            exact ⟨pre, l, post, rfl, hl⟩
    · rw [ih (by rwa [registered_readLine_of_not env h])]
      constructor
      · rintro ⟨pre, l, post, rfl, hl⟩
        exact ⟨line :: pre, l, post, rfl, hl⟩
      · rintro ⟨_ | ⟨_, pre⟩, l, post, hsplit, hl⟩
        · cases hsplit
          exact absurd ⟨hl.1, hl.2.1⟩ h
        · cases hsplit
          exact ⟨pre, l, post, rfl, hl⟩

/-! ## Loads in a row -/

/-- A file that is loaded, and the memory that there is for its routes. -/
structure Load where
  env : LoadEnv
  file : Bytes
  memory : Nat → Option ArwsRoute

/-- `arws_config_load`, with the calls of the router it makes. -/
def Load.run (st : ArwsConfig × RouteTable) (l : Load) : ArwsConfig × RouteTable :=
  let loading := arwsConfigLoad l.env l.file st.1
  (loading.config, registerAll l.memory st.2 loading.registered)

/-- The route table after the loads of files, into an empty one. -/
def tableAfter (s₀ : ArwsConfig) (loads : List Load) : RouteTable :=
  (loads.foldl Load.run (s₀, fun _ => [])).2

/-- What a load adds to the table. -/
def Load.nodes (l : Load) : List ArwsRoute :=
  nodesOf l.memory (arwsConfigLoad l.env l.file .initial).registered.zipIdx

/-- **The routes of all files are in the table.** -/
theorem routes_tableAfter (s₀ : ArwsConfig) (loads : List Load) :
    (tableAfter s₀ loads).routes.Perm (loads.flatMap (·.nodes)) := by
  induction loads using List.reverseRecOn with
  | nil => simp [tableAfter, RouteTable.routes]
  | append_singleton loads l ih =>
    rw [tableAfter, List.foldl_append, List.flatMap_append, List.flatMap_singleton]
    refine (routes_registerAll _ _ _).trans ?_
    rw [registered_eq l.env l.file _ .initial]
    exact (ih.append_left _).trans List.perm_append_comm

/-- Every line of the file that names a target comes when the overrides are full, or there is no
memory for its route. -/
def Load.RegistersNone (l : Load) : Prop :=
  ∀ pre line post, fgetsLines l.file = pre ++ line :: post → routeLine line = true →
    let before := Loading.readLines l.env ⟨ArwsConfig.initial.reset, []⟩ pre
    before.config.overrides.length < maxOverrides → l.memory before.registered.length = none

theorem Load.nodes_eq_nil_iff (l : Load) : l.nodes = [] ↔ l.RegistersNone := by
  rw [Load.nodes, nodesOf_eq_nil_iff, arwsConfigLoad]
  constructor
  · intro h pre line post hsplit hline before hroom
    exact h _ ((lt_registered_iff l.env _ (Nat.zero_le _)).2 ⟨pre, line, post, hsplit, hline, hroom, rfl⟩)
  · intro h i hi
    obtain ⟨pre, line, post, hsplit, hline, hroom, rfl⟩ :=
      (lt_registered_iff l.env _ (Nat.zero_le _)).1 hi
    exact h pre line post hsplit hline hroom

/-- **The routes are those of the last file exactly if** no file before it registers one. -/
theorem converges_iff (s₀ : ArwsConfig) (loads : List Load) (l : Load) :
    (tableAfter s₀ (loads ++ [l])).routes.Perm (tableAfter s₀ [l]).routes ↔
      ∀ l' ∈ loads, l'.RegistersNone := by
  have hall := routes_tableAfter s₀ (loads ++ [l])
  have hlast := routes_tableAfter s₀ [l]
  rw [List.flatMap_append] at hall
  constructor
  · intro h l' hl'
    have hlen := (hall.symm.trans (h.trans hlast)).length_eq
    rw [List.length_append, Nat.add_eq_right, List.length_eq_zero_iff, List.flatMap_eq_nil_iff]
      at hlen
    exact l'.nodes_eq_nil_iff.1 (hlen l' hl')
  · intro h
    have hnil : loads.flatMap (·.nodes) = [] :=
      List.flatMap_eq_nil_iff.2 fun l' hl' => l'.nodes_eq_nil_iff.2 (h l' hl')
    rw [hnil, List.nil_append] at hall
    exact hall.trans hlast.symm

/-- A file with one route, loaded twice. -/
theorem not_converges : ¬ ∀ (s₀ : ArwsConfig) (loads : List Load) (l : Load),
    (tableAfter s₀ (loads ++ [l])).routes.Perm (tableAfter s₀ [l]).routes := by
  intro h
  let l : Load := ⟨⟨fun _ => none, fun _ => []⟩, ascii "\"a.com/*\" = http://b", fun _ => some .zero⟩
  have hnodes : l.nodes.length = 1 := by decide
  have htwice := (routes_tableAfter .initial ([l] ++ [l])).length_eq
  have honce := (routes_tableAfter .initial [l]).length_eq
  rw [(h .initial [l] l).length_eq, honce] at htwice
  simp [hnodes] at htwice

end Config
end Arws

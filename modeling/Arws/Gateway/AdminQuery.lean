import Arws.Library.FormatBuffer
import Arws.Config.MissingFile
import Arws.Config.Save
import Arws.Gateway.Register
import Arws.Upstream.Nodes

/-!
# Admin queries

`handle_arws_query`: the commands that are answered by the gateway itself.  A reply is formatted into a
buffer from `malloc`, and as many bytes of it are sent as the formatting functions say they have
written.

The listings of the upstreams and of the routes are given `sizeof(resp)` for the size of the buffer,
which is that of a pointer.

* `holds_appendAll` — what `append_resp` adds line after line is there, as far as the size goes.
* `holds_dumpRoutes` — a listing of the routes that fits the size is complete.
* `not_listed` — with the size of a pointer no listing is.
-/

set_option autoImplicit false

namespace Arws
namespace Gateway

open CString Config Upstream FormatBuffer

/-! ## Formatting -/

/-- `sizeof` of a pointer. -/
def sizeOfPointer : ℕ := 8

/-- A conversion to `size_t`. -/
def toSize (n : Int) : ℕ := (n % 2 ^ 64).toNat

theorem toSize_natCast {n : ℕ} (h : n < 2 ^ 64) : toSize n = n := by
  rw [toSize]
  omega

/-- What is left of a size behind a place in it. -/
theorem toSize_sub {size used : ℕ} (hsize : size < 2 ^ 64) (hused : used ≤ size) :
    toSize ((size : Int) - used) = size - used := by
  rw [toSize]
  omega

/-- A buffer, and the number of bytes that are taken for written. -/
abbrev Filled := Buffer UInt8 × ℕ

/-- `snprintf` at the front of the buffer. -/
def snprintf (size : ℕ) (text : Bytes) : Filled := (format 0 fresh 0 size text, text.length)

/-- `append_resp`. -/
def appendResp (bufSize : ℕ) (resp : Filled) (text : Bytes) : Filled :=
  let (buf, curLen) := resp
  if bufSize - 1 ≤ curLen then resp
  else
    let rem := bufSize - curLen
    let buf := format 0 buf curLen rem text
    if text.length < rem then (buf, curLen + text.length)
    else (store buf (bufSize - 1) [0], bufSize - 1)

/-- `%-28s`. -/
def padded (s : Bytes) : Bytes := s ++ List.replicate (28 - s.length) 32

/-! ## The routes -/

def globalModeLine (s : ArwsConfig) : Bytes := ascii "global_mode=" ++ s.globalMode ++ [lf]

/-- The line of a route, behind the name of its kind. -/
def routeLine (kind : Bytes) (r : ProxyRouteEntry) : Bytes :=
  kind ++ ascii "host=" ++ padded r.host ++ ascii " path=" ++ padded r.path ++ ascii " -> " ++
    r.targetUrl ++ [lf]

def overrideLine (o : ModeOverride) : Bytes :=
  ascii "override host=" ++ padded o.host ++ ascii " path=" ++ padded o.path ++ ascii " mode=" ++
    (if o.mode ≠ [] then o.mode else ascii "-") ++ (if o.noCache then ascii " no-cache" else []) ++ [lf]

/-- A loop of `arws_config_dump_routes`, which ends at the first line that does not fit. -/
def dumpLines (size : Int) : Filled → List Bytes → Filled
  | resp, [] => resp
  | (buf, used), line :: lines =>
    let buf := format 0 buf used (toSize (size - used)) line
    if size ≤ used + line.length then (buf, used) else dumpLines size (buf, used + line.length) lines

def proxyLines (s : ArwsConfig) : List Bytes := s.proxyRoutes.map (routeLine (ascii "proxy   "))
def streamLines (s : ArwsConfig) : List Bytes := s.streamRoutes.map (routeLine (ascii "stream  "))
def overrideLines (s : ArwsConfig) : List Bytes := s.overrides.map overrideLine

/-- `arws_config_dump_routes`. -/
def arwsConfigDumpRoutes (s : ArwsConfig) (size : Int) : Filled :=
  if size ≤ 0 then (fresh, 0)
  else
    let resp := snprintf (toSize size) (globalModeLine s)
    let resp := dumpLines size resp (proxyLines s)
    let resp := dumpLines size resp (streamLines s)
    dumpLines size resp (overrideLines s)

/-! ## The upstreams -/

def algoName : ArwsLbAlgo → Bytes
  | .roundRobin => ascii "round_robin"
  | .leastConn => ascii "least_conn"
  | .ipHash => ascii "ip_hash"
  | .weightedRoundRobin => ascii "weighted_round_robin"

def poolLine (up : ArwsUpstreamPool) : Bytes :=
  ascii "  Pool '@" ++ up.name ++ ascii "' [algo=" ++ algoName up.algo ++ ascii ", nodes=" ++
    printDecimal up.nodes.length ++ ascii "]:" ++ [lf]

def nodeLine (bn : ArwsBackendNode) : Bytes :=
  ascii "    - " ++ bn.host ++ ascii ":" ++ printDecimal bn.port ++
    ascii " weight=" ++ printDecimal bn.weight ++ ascii " conns=" ++ printDecimal bn.activeConns ++
    ascii " alive=" ++ (if bn.isAlive then ascii "UP" else ascii "DOWN") ++
    ascii " backup=" ++ (if bn.isBackup ≠ 0 then ascii "YES" else ascii "NO") ++
    ascii " drain=" ++ (if bn.isDraining then ascii "YES" else ascii "NO") ++
    ascii " reqs=" ++ printDecimal bn.totalRequests ++ ascii " errs=" ++ printDecimal bn.totalErrors ++
    [lf]

def poolsLine (pools : List ArwsUpstreamPool) : Bytes :=
  ascii "UPSTREAM POOLS (" ++ printDecimal pools.length ++ ascii "):" ++ [lf]

/-- The lines of the pools and their nodes. -/
def upstreamLines (pools : List ArwsUpstreamPool) : List Bytes :=
  pools.flatMap fun up => poolLine up :: up.nodes.map nodeLine

/-- `arws_upstream_get_all_pools`. -/
def arwsUpstreamGetAllPools (pools : List ArwsUpstreamPool) : List ArwsUpstreamPool :=
  pools.filter (·.active)

/-- The list of the upstreams, in a buffer that is taken to have a size. -/
def upstreamList (pools : List ArwsUpstreamPool) (size : ℕ) : Filled :=
  let pools := arwsUpstreamGetAllPools pools
  if pools = [] then snprintf size (ascii "No upstream pools registered." ++ [lf])
  else
    let (buf, rlen) := snprintf size (poolsLine pools)
    (upstreamLines pools).foldl (appendResp size) (buf, if size ≤ rlen then size - 1 else rlen)

/-! ## The commands -/

structure AdminState where
  config : ArwsConfig
  configPath : ConfigPath
  pools : List ArwsUpstreamPool

/-- What the commands use besides the tables. -/
structure AdminEnv where
  /-- `AR_IPC_BUF_SIZE`. -/
  bufSize : ℕ
  /-- What a load finds. -/
  load : LoadEnv
  files : FileSystem
  modeName : ArwsConfig → Bytes
  port : ArwsConfig → Int
  bindAddress : ArwsConfig → Bytes

def helpLines : List Bytes :=
  [ascii "ARWS Gateway & Layer 7 Load Balancer v3.0.0 (Self-Registered)",
    ascii "",
    ascii "Supported Commands:",
    ascii "  status                                      - View runtime status, active mode and bind port",
    ascii "  cfg reload                                  - Reload arws.cfg live from disk without downtime",
    ascii "  routes                                      - List all active dynamic and static routes",
    ascii "  <production|test|maintenance>               - Switch global gateway operational mode",
    ascii "  <production|test|maintenance> <host> [path] - Set domain/route specific operational override",
    ascii "  upstream list                               - List all backend upstream pools and node health",
    ascii "  upstream add <pool> <host> <port> [w] [b]   - Register backend node to load balancer pool",
    ascii "  upstream drain <pool> <host> <port> [1|0]   - Enable/disable graceful connection draining",
    ascii "  ping                                        - Check gateway control channel connectivity"]

/-- The bytes of the command. -/
def commandWord (q : Bytes) : Bytes :=
  (q.takeWhile fun c => c != 32 && c != 9 && c != lf).take 63

/-- `cmd`, and the text behind it. -/
def commandOf (q : Bytes) : Bytes × Bytes :=
  (cstr (commandWord q), cstr (q.drop (commandWord q).length))

/-- The numbers that `sscanf` reads one after the other. -/
def scanInts : ℕ → Bytes → List Int
  | 0, _ => []
  | n + 1, s =>
    match scanInt s with
    | none => []
    | some (i, rest) => i :: scanInts n rest

/-- `"%63s %127s %d .."`: a pool, a host, and at least one number. -/
def scanNode (ints : ℕ) (args : Bytes) : Option (Bytes × Bytes × Int × List Int) :=
  match scanWords [63, 127] args with
  | ([poolName, host], rest) =>
    match scanInts ints rest with
    | port :: more => some (poolName, host, port, more)
    | [] => none
  | _ => none

/-- `maintenance`, `production` and `test`. -/
def modeCommand (env : AdminEnv) (cmd args : Bytes) (s : AdminState) : Filled × AdminState :=
  let (words, _) := scanWords [127, 255] args
  match words with
  | host :: path =>
    let path := path.headD (ascii "*")
    let (config, result) := arwsConfigAddOverride s.config host path cmd
    (snprintf env.bufSize (if result = 0 then
        ascii "override " ++ host ++ ascii " " ++ path ++ ascii " -> " ++ cmd
      else ascii "failed to add override"), { s with config := config })
  | [] =>
    let (config, result) := arwsConfigSetGlobal s.config cmd
    (snprintf env.bufSize (if result = 0 then ascii "global mode -> " ++ cmd
      else ascii "failed to set global mode"), { s with config := config })

/-- `upstream`. -/
def upstreamCommand (env : AdminEnv) (args : Bytes) (s : AdminState) : Filled × AdminState :=
  let (subcmd, args) := (scanWord 31 args).getD ([], args)
  if subcmd = ascii "list" then (upstreamList s.pools sizeOfPointer, s)
  else if subcmd = ascii "add" then
    match scanNode 3 args with
    | some (poolName, host, port, more) =>
      let weight := more.getD 0 1
      let backup := more.getD 1 0
      let (pools, result) := arwsUpstreamAddNode s.pools poolName host port weight backup
      (snprintf env.bufSize (if result = 0 then
          ascii "Node " ++ host ++ ascii ":" ++ printDecimal port ++ ascii " added to pool '@" ++
            poolName ++ ascii "' (weight=" ++ printDecimal weight ++ ascii ", backup=" ++
            printDecimal backup ++ ascii ")"
        else ascii "Failed to add node to pool '@" ++ poolName ++ ascii "'"), { s with pools := pools })
    | none => (snprintf env.bufSize
        (ascii "usage: upstream add <pool> <host> <port> [weight=1] [backup=0]"), s)
  else if subcmd = ascii "drain" then
    match scanNode 2 args with
    | some (poolName, host, port, more) =>
      let drain := more.getD 0 1
      let (pools, result) := arwsUpstreamSetNodeDrain s.pools poolName host port drain
      (snprintf env.bufSize (if result = 0 then
          ascii "Node " ++ host ++ ascii ":" ++ printDecimal port ++ ascii " drain=" ++
            printDecimal drain ++ ascii " in pool '@" ++ poolName ++ ascii "'"
        else ascii "Failed to set drain for " ++ host ++ ascii ":" ++ printDecimal port ++
          ascii " in pool '@" ++ poolName ++ ascii "'"), { s with pools := pools })
    | none => (snprintf env.bufSize
        (ascii "usage: upstream drain <pool> <host> <port> [drain=1|0]"), s)
  else (snprintf env.bufSize (ascii "usage: upstream list | add | drain"), s)

/-- The reply in its buffer, and the state behind the command. -/
def runCommand (env : AdminEnv) (q : Bytes) (s : AdminState) : Filled × AdminState :=
  let (cmd, args) := commandOf q
  if cmd = ascii "help" ∨ cmd = ascii "--help" ∨ cmd = ascii "-h" ∨ cmd = [] then
    (snprintf env.bufSize (helpLines.flatMap (· ++ [lf])), s)
  else if cmd = ascii "cfg" then
    if (scanWord 31 args).map (·.1) = some (ascii "reload") then
      let ⟨config, configPath⟩ :=
        (arwsConfigReloadFromDisk env.load env.files ⟨s.config, s.configPath⟩).state
      (snprintf env.bufSize
          (ascii "arws config reloaded (path=" ++ arwsConfigGetPath configPath ++ ascii ")"),
        { s with config := config, configPath := configPath })
    else (snprintf env.bufSize (ascii "usage: cfg reload"), s)
  else if cmd = ascii "maintenance" ∨ cmd = ascii "production" ∨ cmd = ascii "test" then
    modeCommand env cmd args s
  else if cmd = ascii "status" then
    (snprintf env.bufSize (ascii "arws RUNNING mode=" ++ env.modeName s.config ++ ascii " port=" ++
      printDecimal (env.port s.config) ++ ascii " bind=" ++ env.bindAddress s.config ++
      ascii " global_mode=" ++ s.config.globalMode), s)
  else if cmd = ascii "routes" then
    let resp := arwsConfigDumpRoutes s.config sizeOfPointer
    (if resp.2 = 0 then (format 0 resp.1 0 sizeOfPointer (ascii "no routes"), 9) else resp, s)
  else if cmd = ascii "upstream" then upstreamCommand env args s
  else if cmd = ascii "ping" then (snprintf env.bufSize (ascii "pong"), s)
  else (snprintf env.bufSize (ascii "unknown arws command: " ++ cmd), s)

/-- `handle_arws_query`: the frame that is sent, where a byte that nobody wrote is missing, and the state
behind the query. -/
def handleArwsQuery (env : AdminEnv) (q : Bytes) (s : AdminState) :
    List (Option UInt8) × AdminState :=
  let ((buf, rlen), t) := runCommand env q s
  let rlen := if env.bufSize ≤ rlen then env.bufSize - 1 else rlen
  (taken (store buf rlen [0]) rlen, t)

/-! ## What a size leaves room for -/

section Sizes

variable {size : ℕ} {buf : Buffer UInt8} {s : Bytes}

theorem take_take_append {α : Type*} (n : ℕ) (a b : List α) :
    ((a.take n) ++ b).take n = (a ++ b).take n := by
  rw [List.take_append, List.take_append, List.take_take, Nat.min_self, List.length_take]
  congr 2
  omega

theorem holds_snprintf (size : ℕ) (text : Bytes) : Holds (snprintf size text).1 (text.take (size - 1)) :=
  (holds_nil fresh).format 0 size text

theorem snprintf_outside {i : ℕ} (h : size ≤ i) (text : Bytes) : (snprintf size text).1 i = none := by
  rw [snprintf]
  dsimp only
  rw [format_outside (Or.inr (by omega)), fresh]

/-- A line is added as far as there is room. -/
theorem holds_appendResp (h : Holds buf s) (hlen : s.length < size) (text : Bytes) :
    ∃ buf', appendResp size (buf, s.length) text = (buf', ((s ++ text).take (size - 1)).length) ∧
      Holds buf' ((s ++ text).take (size - 1)) := by
  rw [appendResp]
  dsimp only
  by_cases hfull : size - 1 ≤ s.length
  · have htake : (s ++ text).take (size - 1) = s := by
      have hlast : size - 1 = s.length := by omega
      rw [hlast, List.take_left]
    rw [if_pos hfull, htake]
    exact ⟨buf, rfl, h⟩
  · have htake : (s ++ text).take (size - 1) = s ++ text.take (size - s.length - 1) := by
      rw [List.take_append, List.take_of_length_le (by omega)]
      congr 2
      omega
    have hformat := Holds.format h 0 (size - s.length) text
    rw [if_neg hfull, htake]
    by_cases hroom : text.length < size - s.length
    · rw [if_pos hroom]
      refine ⟨_, ?_, hformat⟩
      rw [List.take_of_length_le (by omega), List.length_append]
    · rw [if_neg hroom]
      have hend : (s ++ text.take (size - s.length - 1)).length = size - 1 := by
        rw [List.length_append, List.length_take]
        omega
      refine ⟨_, by rw [hend], hformat.congr fun i hi => store_outside (Or.inl ?_)⟩
      omega

/-- **All lines are added** as far as there is room. -/
theorem holds_appendAll (h : Holds buf s) (hlen : s.length < size) (lines : List Bytes) :
    ∃ buf', lines.foldl (appendResp size) (buf, s.length) =
        (buf', ((s ++ lines.flatten).take (size - 1)).length) ∧
      Holds buf' ((s ++ lines.flatten).take (size - 1)) := by
  induction lines generalizing buf s with
  | nil =>
    rw [List.flatten_nil, List.append_nil, List.take_of_length_le (by omega)]
    exact ⟨buf, rfl, h⟩
  | cons line lines ih =>
    obtain ⟨buf', hline, hbuf'⟩ := holds_appendResp h hlen line
    have hshort : ((s ++ line).take (size - 1)).length < size := by
      rw [List.length_take]
      omega
    obtain ⟨buf'', hlines, hbuf''⟩ := ih hbuf' hshort
    rw [take_take_append, List.append_assoc, ← List.flatten_cons] at hlines hbuf''
    exact ⟨buf'', by rw [List.foldl_cons, hline, hlines], hbuf''⟩

end Sizes

/-! ## Listings -/

/-- **A listing is complete**: all of it was written, and every line is there. -/
structure Complete (lines : List Bytes) (reply : List (Option UInt8)) : Prop where
  written : none ∉ reply
  listed : ∀ line ∈ lines, line.map some <:+: reply

theorem complete_of_holds {buf : Buffer UInt8} {lines : List Bytes} (header : Bytes)
    (h : Holds buf (header ++ lines.flatten)) :
    Complete lines (taken buf (header ++ lines.flatten).length) := by
  rw [Holds] at h
  rw [h]
  refine ⟨by simp, fun line hline => List.IsInfix.map some ?_⟩
  obtain ⟨before, behind, rfl⟩ := List.append_of_mem hline
  refine ⟨header ++ before.flatten, behind.flatten, ?_⟩
  rw [List.flatten_append, List.flatten_cons]
  simp only [List.append_assoc]

/-- What is listed of the upstreams, as far as there is room. -/
theorem holds_upstreamList {pools : List ArwsUpstreamPool} (h : arwsUpstreamGetAllPools pools ≠ [])
    (size : ℕ) (hsize : 0 < size) :
    ∃ buf t, upstreamList pools size = (buf, t.length) ∧ Holds buf t ∧
      t = (poolsLine (arwsUpstreamGetAllPools pools) ++
        (upstreamLines (arwsUpstreamGetAllPools pools)).flatten).take (size - 1) := by
  generalize harg : arwsUpstreamGetAllPools pools = active at h
  have hheader := holds_snprintf size (poolsLine active)
  have hlen : ((poolsLine active).take (size - 1)).length =
      if size ≤ (snprintf size (poolsLine active)).2 then size - 1
      else (snprintf size (poolsLine active)).2 := by
    rw [List.length_take, snprintf]
    split_ifs <;> omega
  have hshort : ((poolsLine active).take (size - 1)).length < size := by
    rw [List.length_take]
    omega
  obtain ⟨buf, hlines, hbuf⟩ := holds_appendAll hheader hshort (upstreamLines active)
  rw [take_take_append] at hlines hbuf
  refine ⟨buf, _, ?_, hbuf, rfl⟩
  rw [upstreamList, harg]
  dsimp only
  rw [if_neg h, ← hlen]
  exact hlines

/-- With room for all of it, the list of the upstreams is complete. -/
theorem complete_upstreamList {pools : List ArwsUpstreamPool}
    (h : arwsUpstreamGetAllPools pools ≠ []) {size : ℕ}
    (hroom : (poolsLine (arwsUpstreamGetAllPools pools) ++
      (upstreamLines (arwsUpstreamGetAllPools pools)).flatten).length < size) :
    Complete (upstreamLines (arwsUpstreamGetAllPools pools))
      (taken (upstreamList pools size).1 (upstreamList pools size).2) := by
  obtain ⟨buf, t, hlist, hbuf, ht⟩ := holds_upstreamList h size (Nat.zero_lt_of_lt hroom)
  rw [List.take_of_length_le (by omega)] at ht
  rw [hlist]
  subst ht
  exact complete_of_holds _ hbuf

/-- A loop that has room for all its lines. -/
theorem holds_dumpLines {size : ℕ} (hint : size < 2 ^ 31) {buf : Buffer UInt8} {s : Bytes}
    (h : Holds buf s) (lines : List Bytes) (hroom : (s ++ lines.flatten).length < size) :
    ∃ buf', dumpLines size (buf, s.length) lines = (buf', (s ++ lines.flatten).length) ∧
      Holds buf' (s ++ lines.flatten) := by
  induction lines generalizing buf s with
  | nil =>
    rw [List.flatten_nil, List.append_nil]
    exact ⟨buf, rfl, h⟩
  | cons line lines ih =>
    rw [List.flatten_cons, ← List.append_assoc] at hroom ⊢
    have hline : (s ++ line).length < size := by
      rw [List.length_append] at hroom
      omega
    rw [List.length_append] at hline
    have hsize : toSize ((size : Int) - s.length) = size - s.length := toSize_sub (by omega) (by omega)
    have hformat := Holds.format h 0 (size - s.length) line
    rw [List.take_of_length_le (by omega)] at hformat
    obtain ⟨buf', hlines, hbuf'⟩ := ih hformat hroom
    refine ⟨buf', ?_, hbuf'⟩
    rw [dumpLines, hsize, if_neg (by omega), ← List.length_append]
    exact hlines

/-- The lines of the listing of the routes. -/
def routesLines (s : ArwsConfig) : List Bytes :=
  globalModeLine s :: (proxyLines s ++ streamLines s ++ overrideLines s)

/-- With room for all of it, the listing of the routes is complete. -/
theorem complete_dumpRoutes {s : ArwsConfig} {size : ℕ} (hint : size < 2 ^ 31)
    (hroom : (routesLines s).flatten.length < size) :
    Complete (routesLines s)
      (taken (arwsConfigDumpRoutes s size).1 (arwsConfigDumpRoutes s size).2) := by
  have hflat : (routesLines s).flatten = globalModeLine s ++ (proxyLines s).flatten ++
      (streamLines s).flatten ++ (overrideLines s).flatten := by
    rw [routesLines, List.flatten_cons, List.flatten_append, List.flatten_append]
    simp only [List.append_assoc]
  have hlength := congrArg List.length hflat
  simp only [List.length_append] at hlength
  have hsize : toSize size = size := toSize_natCast (by omega)
  have hheader := holds_snprintf size (globalModeLine s)
  rw [List.take_of_length_le (by omega)] at hheader
  obtain ⟨buf₁, hproxy, hbuf₁⟩ := holds_dumpLines hint hheader (proxyLines s)
    (by simp only [List.length_append]; omega)
  obtain ⟨buf₂, hstream, hbuf₂⟩ := holds_dumpLines hint hbuf₁ (streamLines s)
    (by simp only [List.length_append]; omega)
  obtain ⟨buf₃, hoverride, hbuf₃⟩ := holds_dumpLines hint hbuf₂ (overrideLines s)
    (by simp only [List.length_append]; omega)
  have hdump : arwsConfigDumpRoutes s size = (buf₃, (routesLines s).flatten.length) := by
    rw [arwsConfigDumpRoutes, if_neg (by omega), hsize, snprintf]
    dsimp only
    rw [snprintf] at hproxy
    rw [hproxy, hstream, hoverride, hflat]
  rw [hdump]
  rw [← hflat] at hbuf₃
  exact complete_of_holds [] hbuf₃

/-! ## What is sent -/

/-- A loop writes behind what is there, and counts on. -/
theorem dumpLines_frame (size : Int) (resp : Filled) (lines : List Bytes) :
    resp.2 ≤ (dumpLines size resp lines).2 ∧
      ∀ i < resp.2, (dumpLines size resp lines).1 i = resp.1 i := by
  induction lines generalizing resp with
  | nil => exact ⟨le_rfl, fun _ _ => rfl⟩
  | cons line lines ih =>
    obtain ⟨buf, used⟩ := resp
    rw [dumpLines]
    dsimp only
    split_ifs
    · exact ⟨le_rfl, fun i hi => format_outside (Or.inl hi)⟩
    · obtain ⟨hle, hframe⟩ :=
        ih (format 0 buf used (toSize (size - used)) line, used + line.length)
      refine ⟨(Nat.le_add_right _ _).trans hle, fun i hi => ?_⟩
      rw [hframe i (Nat.lt_add_right _ hi)]
      exact format_outside (Or.inl hi)

/-- The first line has more bytes than a pointer: the others are taken for written. -/
theorem dumpRoutes_unwritten (s : ArwsConfig) :
    (arwsConfigDumpRoutes s sizeOfPointer).1 8 = none ∧
      9 ≤ (arwsConfigDumpRoutes s sizeOfPointer).2 := by
  have hlen : 9 ≤ (globalModeLine s).length := by
    rw [globalModeLine, List.length_append, List.length_append]
    have : (ascii "global_mode=").length = 12 := by decide
    omega
  rw [arwsConfigDumpRoutes, if_neg (by decide)]
  dsimp only
  obtain ⟨hle₁, hframe₁⟩ := dumpLines_frame sizeOfPointer
    (snprintf (toSize sizeOfPointer) (globalModeLine s)) (proxyLines s)
  obtain ⟨hle₂, hframe₂⟩ := dumpLines_frame sizeOfPointer
    (dumpLines sizeOfPointer (snprintf (toSize sizeOfPointer) (globalModeLine s)) (proxyLines s))
    (streamLines s)
  obtain ⟨hle₃, hframe₃⟩ := dumpLines_frame sizeOfPointer
    (dumpLines sizeOfPointer
      (dumpLines sizeOfPointer (snprintf (toSize sizeOfPointer) (globalModeLine s)) (proxyLines s))
      (streamLines s))
    (overrideLines s)
  have hused : 9 ≤ (snprintf (toSize sizeOfPointer) (globalModeLine s)).2 := hlen
  refine ⟨?_, by omega⟩
  rw [hframe₃ 8 (by omega), hframe₂ 8 (by omega), hframe₁ 8 (by omega)]
  exact snprintf_outside (by decide) _

/-- The query is `routes`. -/
def AsksRoutes (q : Bytes) : Prop := (commandOf q).1 = ascii "routes"

/-- The query is `upstream list`. -/
def AsksUpstreams (q : Bytes) : Prop :=
  (commandOf q).1 = ascii "upstream" ∧
    (scanWord 31 (commandOf q).2).map (·.1) = some (ascii "list")

instance (q : Bytes) : Decidable (AsksRoutes q) := inferInstanceAs (Decidable (_ = _))
instance (q : Bytes) : Decidable (AsksUpstreams q) := inferInstanceAs (Decidable (_ ∧ _))

section Sent

variable {env : AdminEnv} {q : Bytes} {s : AdminState}

theorem runCommand_routes (h : AsksRoutes q) :
    (runCommand env q s).1 = arwsConfigDumpRoutes s.config sizeOfPointer := by
  have hused : (arwsConfigDumpRoutes s.config sizeOfPointer).2 ≠ 0 := by
    have := (dumpRoutes_unwritten s.config).2
    omega
  have hnot : ¬ (ascii "routes" = ascii "help" ∨ ascii "routes" = ascii "--help" ∨
        ascii "routes" = ascii "-h" ∨ ascii "routes" = []) ∧
      ascii "routes" ≠ ascii "cfg" ∧
      ¬ (ascii "routes" = ascii "maintenance" ∨ ascii "routes" = ascii "production" ∨
        ascii "routes" = ascii "test") ∧
      ascii "routes" ≠ ascii "status" := by decide +kernel
  obtain ⟨hhelp, hcfg, hmode, hstatus⟩ := hnot
  rw [runCommand]
  dsimp only
  rw [AsksRoutes] at h
  rw [h, if_neg hhelp, if_neg hcfg, if_neg hmode, if_neg hstatus, if_pos rfl, if_neg hused]

theorem runCommand_upstreams (env : AdminEnv) (s : AdminState) (h : AsksUpstreams q) :
    (runCommand env q s).1 = upstreamList s.pools sizeOfPointer := by
  have hnot : ¬ (ascii "upstream" = ascii "help" ∨ ascii "upstream" = ascii "--help" ∨
        ascii "upstream" = ascii "-h" ∨ ascii "upstream" = []) ∧
      ascii "upstream" ≠ ascii "cfg" ∧
      ¬ (ascii "upstream" = ascii "maintenance" ∨ ascii "upstream" = ascii "production" ∨
        ascii "upstream" = ascii "test") ∧
      ascii "upstream" ≠ ascii "status" ∧ ascii "upstream" ≠ ascii "routes" := by decide +kernel
  obtain ⟨hhelp, hcfg, hmode, hstatus, hroutes⟩ := hnot
  obtain ⟨hcmd, hsub⟩ := h
  obtain ⟨⟨sub, args⟩, hscan, hlist⟩ := Option.map_eq_some_iff.1 hsub
  dsimp only at hlist
  rw [runCommand]
  dsimp only
  rw [hcmd, if_neg hhelp, if_neg hcfg, if_neg hmode, if_neg hstatus, if_neg hroutes, if_pos rfl,
    upstreamCommand, hscan, Option.getD_some]
  dsimp only
  rw [if_pos hlist]

/-- A place behind the first line that was sent but not written. -/
theorem none_mem_sent {resp : Filled} (h : (runCommand env q s).1 = resp) (hsize : 1024 ≤ env.bufSize)
    (hnone : resp.1 8 = none) (hlen : 9 ≤ resp.2) : none ∈ (handleArwsQuery env q s).1 := by
  rw [handleArwsQuery, ← Prod.eta (runCommand env q s), h, ← Prod.eta resp]
  dsimp only
  have hin : 8 < if env.bufSize ≤ resp.2 then env.bufSize - 1 else resp.2 := by
    split_ifs <;> omega
  refine none_mem_taken hin ?_
  rw [store_outside (Or.inl hin), hnone]

/-- **No listing is complete**: behind the first bytes of the first line nothing is written, and what is
sent ends there, or goes on with bytes that nobody wrote. -/
theorem not_listed (hsize : 1024 ≤ env.bufSize) :
    (AsksUpstreams q → ¬ Complete (upstreamLines (arwsUpstreamGetAllPools s.pools))
      (handleArwsQuery env q s).1) ∧
    (AsksRoutes q → ¬ Complete (routesLines s.config) (handleArwsQuery env q s).1) := by
  constructor
  · intro hq hcomplete
    have hrun := runCommand_upstreams env s hq
    by_cases hnone : arwsUpstreamGetAllPools s.pools = []
    · -- the text for no pools is longer than the size
      refine hcomplete.written (none_mem_sent hrun hsize ?_ ?_)
      · rw [upstreamList]
        dsimp only
        rw [if_pos hnone]
        exact snprintf_outside (by decide) _
      · rw [upstreamList]
        dsimp only
        rw [if_pos hnone]
        decide +kernel
    · obtain ⟨buf, t, hlist, hbuf, ht⟩ := holds_upstreamList hnone sizeOfPointer (by decide)
      have hlen : t.length ≤ 7 := by
        rw [ht]
        exact List.length_take_le _ _
      have hsent : (handleArwsQuery env q s).1.length = t.length := by
        rw [handleArwsQuery, ← Prod.eta (runCommand env q s), hrun, hlist]
        dsimp only
        rw [length_taken, if_neg (by omega)]
      -- the line of the first pool is longer than that
      obtain ⟨up, ups, hups⟩ := List.exists_cons_of_ne_nil hnone
      have hline := (hcomplete.listed (poolLine up) (by
        rw [upstreamLines, hups, List.flatMap_cons]
        exact List.mem_append_left _ List.mem_cons_self)).length_le
      have hlong : 8 ≤ (poolLine up).length := by
        have hname : (ascii "  Pool '@").length = 9 := by decide +kernel
        simp only [poolLine, List.length_append, hname]
        omega
      rw [hsent, List.length_map] at hline
      omega
  · intro hq hcomplete
    obtain ⟨hnone, hlen⟩ := dumpRoutes_unwritten s.config
    exact hcomplete.written (none_mem_sent (runCommand_routes hq) hsize hnone hlen)

end Sent

/-- A gateway without a file. -/
def plainAdmin : AdminEnv where
  bufSize := 4096
  load := ⟨fun _ => none, fun _ => []⟩
  files := ⟨fun _ => none, fun _ => false, fun _ => none⟩
  modeName _ := ascii "TEST"
  port _ := 80
  bindAddress _ := ascii "127.0.0.1"

theorem not_listed_at_start : ¬ Complete (routesLines ArwsConfig.initial)
    (handleArwsQuery plainAdmin (ascii "routes") ⟨.initial, .copy [], []⟩).1 :=
  (@not_listed plainAdmin (ascii "routes") ⟨.initial, .copy [], []⟩ (by decide)).2 (by decide +kernel)

/-- A gateway with no pool and no route: `global_mode` is not in the listing of the routes. -/
theorem not_complete : ¬ ∀ (env : AdminEnv) (s : AdminState), 4096 ≤ env.bufSize →
    (poolsLine (arwsUpstreamGetAllPools s.pools) ++
      (upstreamLines (arwsUpstreamGetAllPools s.pools)).flatten).length < env.bufSize →
    (routesLines s.config).flatten.length < env.bufSize →
    Complete (upstreamLines (arwsUpstreamGetAllPools s.pools))
        (handleArwsQuery env (ascii "upstream list") s).1 ∧
      Complete (routesLines s.config) (handleArwsQuery env (ascii "routes") s).1 := by
  intro h
  have hcomplete := h plainAdmin ⟨.initial, .copy [], []⟩ (by decide) (by decide +kernel) (by decide +kernel)
  obtain ⟨hnone, hlen⟩ := dumpRoutes_unwritten ArwsConfig.initial
  exact hcomplete.2.written
    (none_mem_sent (runCommand_routes (by decide +kernel)) (by decide) hnone hlen)

end Gateway
end Arws

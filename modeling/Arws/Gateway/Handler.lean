import Arws.Ratelimit.Limiter
import Arws.Server.HandleClient

/-!
# The budget of a request

`handle_client` checks the rate limit before it calls the handler of the gateway, and `handler_func`
checks it again before it looks for the mode and dispatches.  So a request takes two of what its rule
allows, not one.

* `handleClient_visit` — the two checks are those that a request goes through.
* `oneUnit_iff` — the rule is kept as it is meant when the checks of all requests that arrive in the
  window, two of each, are as many as it allows.
-/

set_option autoImplicit false

namespace Arws
namespace Gateway

open CString FixedWindow Ratelimit Server

/-- What `handler_func` calls. -/
structure GatewayEnv where
  /-- `arws_ratelimit_check` for an address, a host and a path. -/
  ratelimitCheck : Bytes → Bytes → Bytes → Bool
  /-- `arws_config_get_effective_mode` for a host, a path and an address. -/
  effectiveMode : Bytes → Bytes → Bytes → Bytes
  /-- `arws_send_maintenance`. -/
  sendMaintenance : Handler
  /-- `arws_dispatch`, for the mode. -/
  dispatch : HttpRequest → Bytes → Handler

/-- `arws_send_429`, for the text that `handler_func` gives. -/
def sendRateLimitExceeded : Handler :=
  answerWith 429 (ascii "application/json")
    (ascii "\x7b\"status\":429,\"error\":\"Rate limit exceeded\"\x7d")

/-- What `handler_func` does once the check is passed: the mode is resolved and the request is
dispatched. -/
def resolveAndDispatch (env : GatewayEnv) (clientIp : Bytes) (req : HttpRequest) : Handler :=
  let effectiveMode := env.effectiveMode req.host req.path clientIp
  if effectiveMode = ascii "maintenance" then env.sendMaintenance
  else env.dispatch req effectiveMode

/-- `handler_func`. -/
def handlerFunc (env : GatewayEnv) (req : HttpRequest) : Handler :=
  .call .getClientIp fun (clientIp : Bytes) =>
    if !env.ratelimitCheck clientIp req.host req.path then sendRateLimitExceeded
    else resolveAndDispatch env clientIp req

/-! ## Two checks -/

/-- The clock as a check reads it. -/
structure Reading where
  asked : Nat
  now : Nat
  deriving DecidableEq

/-- A request, and the clock at its checks: that of the server and that of the gateway. -/
structure Visit where
  req : HttpRequest
  server : Reading
  gateway : Reading
  deriving DecidableEq

def Visit.check (v : Visit) (r : Reading) : Check := ⟨some v.req.host, v.req.path, r.asked, r.now⟩

inductive Verdict
  /-- 429 from `handle_client`. -/
  | refused
  /-- 429 from `handler_func`. -/
  | rateLimited
  /-- The request goes on to effective-mode resolution and dispatch. -/
  | passed
  deriving DecidableEq

/-- A request of an address on its way through both checks. -/
def visit (s : Limiter) (ip : Bytes) (v : Visit) : Limiter × Verdict :=
  let first := arwsRatelimitCheck s ip (v.check v.server)
  if !first.2 then (first.1, .refused)
  else
    let second := arwsRatelimitCheck first.1 ip (v.check v.gateway)
    if !second.2 then (second.1, .rateLimited) else (second.1, .passed)

/-- The answer to a request of an address. -/
def Verdict.handler (env : GatewayEnv) (ip : Bytes) (v : Visit) : Verdict → Handler
  | .refused => answerWith 429 (ascii "text/html") tooManyRequests
  | .rateLimited => sendRateLimitExceeded
  | .passed => resolveAndDispatch env ip v.req

/-- The gateway as it finds the limiter behind the check of the server. -/
def Visit.gatewayEnv (v : Visit) (s : Limiter) (ip : Bytes) (env : GatewayEnv) : GatewayEnv :=
  { env with ratelimitCheck := fun ip' host path =>
      (arwsRatelimitCheck (arwsRatelimitCheck s ip (v.check v.server)).1 ip'
        ⟨some host, path, v.gateway.asked, v.gateway.now⟩).2 }

/-- The server with the limiter and the gateway. -/
def Visit.shared (v : Visit) (s : Limiter) (ip : Bytes) (env : GatewayEnv) (base : Shared) :
    Shared :=
  { base with
    ratelimitCheck := fun ip' host path =>
      (arwsRatelimitCheck s ip' ⟨some host, path, v.server.asked, v.server.now⟩).2
    apiHandler := some (handlerFunc (v.gatewayEnv s ip env)) }

theorem respond_visit (v : Visit) (s : Limiter) (env : GatewayEnv) (base : Shared) (t : Session) :
    (respond (v.shared s t.conn.clientIp env base) t.conn.clientIp v.req).runIn base t =
      ((visit s t.conn.clientIp v).2.handler env t.conn.clientIp v).runIn base t := by
  rw [respond]
  simp only [Visit.shared, visit, Visit.check]
  by_cases hfirst : (arwsRatelimitCheck s t.conn.clientIp
      ⟨some v.req.host, v.req.path, v.server.asked, v.server.now⟩).2 = true
  · by_cases hsecond : (arwsRatelimitCheck (arwsRatelimitCheck s t.conn.clientIp
        ⟨some v.req.host, v.req.path, v.server.asked, v.server.now⟩).1 t.conn.clientIp
        ⟨some v.req.host, v.req.path, v.gateway.asked, v.gateway.now⟩).2 = true
    · simp only [hfirst, hsecond, Bool.not_true, Bool.false_eq_true, if_false, handlerFunc,
        Handler.runIn, Program.run, Call.perform, Option.bind_some, Visit.gatewayEnv, Visit.check]
      rfl
    · simp only [hfirst, hsecond, Bool.not_true, Bool.not_false, if_true, Bool.false_eq_true,
        if_false, handlerFunc, Handler.runIn, Program.run, Call.perform, Option.bind_some,
        Visit.gatewayEnv, Visit.check]
      rfl
  · simp only [hfirst, Bool.not_false, if_true]
    rfl

/-- **A request that arrives is answered as its two checks say**: that of `handle_client` and that of
`handler_func`. -/
theorem handleClient_visit {v : Visit} {s : Limiter} {env : GatewayEnv} {base : Shared} {job : Job}
    {fullPath : Bytes} {t t' : Session} (harrival : job.arrival = .request fullPath v.req)
    (hident : identify base fullPath v.req t = some t') :
    handleClient (v.shared s t'.conn.clientIp env base) job t =
      ((visit s t'.conn.clientIp v).2.handler env t'.conn.clientIp v).runIn base t' := by
  have hsame : identify (v.shared s t'.conn.clientIp env base) fullPath v.req t = some t' := hident
  rw [handleClient, harrival]
  simp only [hsame, Option.bind_some]
  exact respond_visit v s env base t'

/-! ## A run of requests -/

/-- The limiter after requests of one address. -/
def afterVisits (s : Limiter) (ip : Bytes) (vs : List Visit) : Limiter :=
  vs.foldl (fun s v => (visit s ip v).1) s

/-- What comes of a request after others. -/
def verdict (s : Limiter) (ip : Bytes) (seen : List Visit) (v : Visit) : Verdict :=
  (visit (afterVisits s ip seen) ip v).2

/-- The requests follow on one another, and the clock does not go back. -/
structure InTurn (vs : List Visit) : Prop where
  order : vs.Pairwise fun v w => v.gateway.now ≤ w.server.asked
  reads : ∀ v ∈ vs, v.server.asked ≤ v.server.now ∧ v.server.now ≤ v.gateway.asked ∧
    v.gateway.asked ≤ v.gateway.now ∧ v.gateway.now < 2 ^ 64

/-- The clock reads less than the window of the rule behind the first request. -/
def InWindow (r : RlRule) (vs : List Visit) (now : Nat) : Prop :=
  ∀ first ∈ vs.head?, (now : Int) < first.server.now + r.windowSeconds

instance (r : RlRule) (vs : List Visit) (now : Nat) : Decidable (InWindow r vs now) :=
  inferInstanceAs (Decidable (∀ first ∈ vs.head?, (now : Int) < first.server.now + r.windowSeconds))

/-- **What a rule is to mean**: of the requests that arrive in the window of the first one, as many as
the rule allows go on to be dispatched, and they are the first ones. -/
def OneUnit (s : Limiter) (ip : Bytes) (r : RlRule) (vs : List Visit) : Prop :=
  ∀ seen v later, vs = seen ++ v :: later → InWindow r vs v.server.now →
    (verdict s ip seen v = .passed ↔ (seen.length : Int) < r.maxRequests)

/-- The checks of the requests up to any that arrives in the window, two of each and one of the last
if its second falls behind the window, are as many as the rule allows. -/
def ChecksFit (r : RlRule) (vs : List Visit) : Prop :=
  ∀ seen v later, vs = seen ++ v :: later → InWindow r vs v.server.now →
    (2 * seen.length + if InWindow r vs v.gateway.now then 2 else 1 : Int) ≤ r.maxRequests

section Run

variable {s : Limiter} {ip : Bytes} {r : RlRule} {start : Nat}

/-- The limiter while the window that starts with the first request runs: so many checks were made,
and each of them was counted. -/
structure Counting (rules : List RlRule) (ip : Bytes) (start n : Nat) (s : Limiter) : Prop where
  rules : s.rules = rules
  hasRoom : s.HasRoom ip
  counter : counterOf (s.entryOf ip) = if n = 0 then none else some ⟨n, start⟩
  free : ∀ d, held (s.entryOf ip) d = false

variable {rules : List RlRule} {n : Nat} {c : Check}

theorem Counting.windowStart (h : Counting rules ip start n s) :
    ∀ e ∈ s.entryOf ip, n ≠ 0 ∧ e.windowStart = start := by
  intro e he
  have := h.counter
  rw [Option.mem_def.1 he] at this
  split at this
  · cases this
  · rename_i hn
    exact ⟨hn, congrArg (·.elim 0 Counter.start) this⟩

theorem Counting.met (h : Counting rules ip start n s) (hfirst : n = 0 → c.now = start) :
    met (counterOf (s.entryOf ip)) (hitOf s.rules c) = ⟨n, start⟩ := by
  rw [h.counter]
  split
  · rename_i hn
    rw [FixedWindow.met, Option.getD_none, hn]
    exact congrArg _ (hfirst hn)
  · rfl

theorem limit_of_governed {rules : List RlRule} (hrule : ruleFor rules c.host c.path = some r) :
    (hitOf rules c).limit = r.limit := by
  rw [hitOf, limitFor, hrule]

/-- **A check in the window** is counted, and passed if no more than the rule allows were made. -/
theorem Counting.check (h : Counting rules ip start n s) (hip : IsIp ip)
    (hrule : ruleFor rules c.host c.path = some r) (hfirst : n = 0 → c.now = start)
    (hle : start ≤ c.now) (hnow : c.now < 2 ^ 64) (hin : c.now < start + r.limit.window) :
    (arwsRatelimitCheck s ip c).2 = decide ((n + 1 : Nat) ≤ r.maxRequests) ∧
      Counting rules ip start (n + 1) (arwsRatelimitCheck s ip c).1 := by
  obtain ⟨hok, hcounter, hfree⟩ := check_not_held hip h.hasRoom (h.free c)
    (fun e he => (h.windowStart e he).2.trans_le hle) hnow
  have hlimit : (hitOf s.rules c).limit = r.limit := by
    rw [h.rules]
    exact limit_of_governed hrule
  have hover : ¬ Counter.Over ⟨n, start⟩ (hitOf s.rules c) := by
    rw [Counter.Over, hlimit]
    exact Nat.not_le.2 hin
  rw [h.met hfirst, Counter.hit_of_not_over hover, hlimit] at hok hcounter
  refine ⟨hok, (arwsRatelimitCheck_spec hip h.hasRoom).2.2.trans h.rules,
    hasRoom_check hip h.hasRoom, ?_, hfree⟩
  rw [hcounter, if_neg (Nat.succ_ne_zero n)]

/-- A check behind the window is passed. -/
theorem Counting.check_behind (h : Counting rules ip start n s) (hip : IsIp ip)
    (hrule : ruleFor rules c.host c.path = some r) (hfirst : n = 0 → c.now = start)
    (hle : start ≤ c.now) (hnow : c.now < 2 ^ 64) (hin : start + r.limit.window ≤ c.now) :
    (arwsRatelimitCheck s ip c).2 = true := by
  obtain ⟨hok, -, -⟩ := check_not_held hip h.hasRoom (h.free c)
    (fun e he => (h.windowStart e he).2.trans_le hle) hnow
  have hlimit : (hitOf s.rules c).limit = r.limit := by
    rw [h.rules]
    exact limit_of_governed hrule
  have hover : Counter.Over ⟨n, start⟩ (hitOf s.rules c) := by
    rw [Counter.Over, hlimit]
    exact hin
  rw [h.met hfirst, Counter.hit_of_over hover] at hok
  exact hok

/-- A request of an address that the rule governs, at a time when the clock works. -/
structure Governed (rules : List RlRule) (r : RlRule) (start : Nat) (v : Visit) : Prop where
  rule : ruleFor rules (some v.req.host) v.req.path = some r
  started : start ≤ v.server.now
  order : v.server.now ≤ v.gateway.now
  now : v.gateway.now < 2 ^ 64

/-- **A request in the window** goes on if two more checks are allowed. -/
theorem Counting.visit {v : Visit} (h : Counting rules ip start n s) (hip : IsIp ip)
    (hv : Governed rules r start v) (hfirst : n = 0 → v.server.now = start)
    (hin : v.gateway.now < start + r.limit.window) :
    ((visit s ip v).2 = .passed ↔ (n + 2 : Nat) ≤ r.maxRequests) ∧
      ∃ m, Counting rules ip start m (visit s ip v).1 ∧ m ≠ 0 ∧
        ((n + 2 : Nat) ≤ r.maxRequests → m = n + 2) ∧
        (¬ (n + 2 : Nat) ≤ r.maxRequests → r.maxRequests ≤ m) := by
  obtain ⟨hrule, hstart, horder, hnow⟩ := hv
  obtain ⟨hok, hs⟩ := h.check (c := v.check v.server) hip hrule hfirst hstart
    (horder.trans_lt hnow) (horder.trans_lt hin)
  rw [Gateway.visit]
  by_cases hone : (n + 1 : Nat) ≤ r.maxRequests
  · obtain ⟨hok', hs'⟩ := hs.check (c := v.check v.gateway) hip hrule (fun h0 => by cases h0)
      (hstart.trans horder) hnow hin
    rw [hok, decide_eq_true hone]
    simp only [Bool.not_true, Bool.false_eq_true, if_false]
    by_cases htwo : (n + 2 : Nat) ≤ r.maxRequests
    · rw [hok', decide_eq_true htwo]
      simp only [Bool.not_true, Bool.false_eq_true, if_false]
      exact ⟨iff_of_true trivial htwo, n + 2, hs', Nat.succ_ne_zero _, fun _ => rfl,
        fun hnot => absurd htwo hnot⟩
    · rw [hok', decide_eq_false htwo]
      simp only [Bool.not_false, if_true]
      exact ⟨iff_of_false (fun he => by cases he) htwo, n + 2, hs', Nat.succ_ne_zero _,
        fun _ => rfl, fun _ => by omega⟩
  · rw [hok, decide_eq_false hone]
    simp only [Bool.not_false, if_true]
    exact ⟨iff_of_false (fun he => by cases he) (by omega), n + 1, hs, Nat.succ_ne_zero _,
      fun htwo => by omega, fun _ => by omega⟩

/-- A request that arrives in the window and is checked again behind it goes on if one more check is
allowed. -/
theorem Counting.visit_across {v : Visit} (h : Counting rules ip start n s) (hip : IsIp ip)
    (hv : Governed rules r start v) (hfirst : n = 0 → v.server.now = start)
    (hin : v.server.now < start + r.limit.window)
    (hbehind : start + r.limit.window ≤ v.gateway.now) :
    ((Gateway.visit s ip v).2 = .passed ↔ (n + 1 : Nat) ≤ r.maxRequests) := by
  obtain ⟨hrule, hstart, horder, hnow⟩ := hv
  obtain ⟨hok, hs⟩ := h.check (c := v.check v.server) hip hrule hfirst hstart
    (horder.trans_lt hnow) hin
  have hok' := hs.check_behind (c := v.check v.gateway) hip hrule (fun h0 => by cases h0)
    (hstart.trans horder) hnow hbehind
  simp only [Gateway.visit, hok, hok']
  by_cases hone : (n + 1 : Nat) ≤ r.maxRequests
  · rw [decide_eq_true hone]
    exact iff_of_true rfl hone
  · rw [decide_eq_false hone]
    exact iff_of_false (fun he => by cases he) hone

theorem afterVisits_concat (s : Limiter) (ip : Bytes) (vs : List Visit) (v : Visit) :
    afterVisits s ip (vs ++ [v]) = (Gateway.visit (afterVisits s ip vs) ip v).1 := by
  rw [afterVisits, List.foldl_append]
  rfl

/-- **After requests that were checked in the window** as many checks were made as the rule allows, or
two for each. -/
theorem counting_afterVisits {seen : List Visit} (hip : IsIp ip) (h : Counting rules ip start 0 s)
    (hfirst : ∀ first ∈ seen.head?, first.server.now = start)
    (hv : ∀ v ∈ seen, Governed rules r start v ∧ v.gateway.now < start + r.limit.window) :
    ∃ n, Counting rules ip start n (afterVisits s ip seen) ∧ (n = 0 ↔ seen = []) ∧
      ((2 * seen.length : Nat) ≤ r.maxRequests → n = 2 * seen.length) ∧
      (¬ (2 * seen.length : Nat) ≤ r.maxRequests → r.maxRequests ≤ n) := by
  induction seen using List.reverseRecOn with
  | nil => exact ⟨0, h, by simp, fun _ => rfl, fun hnot => by simpa using Int.le_of_lt (Int.not_le.1 hnot)⟩
  | append_singleton seen v ih =>
    obtain ⟨n, hn, hzero, hfit, hfull⟩ := ih
      (fun first hf => hfirst first (by
        cases seen with
        | nil => cases hf
        | cons a l => exact hf))
      (fun w hw => hv w (List.mem_append_left _ hw))
    obtain ⟨hgov, hin⟩ := hv v (by simp)
    obtain ⟨-, m, hm, hpos, htwo, hless⟩ := hn.visit hip hgov
      (fun h0 => hfirst v (by rw [hzero.1 h0]; rfl)) hin
    refine ⟨m, afterVisits_concat s ip seen v ▸ hm, by simp [hpos], fun hle => ?_, fun hnot => ?_⟩
    · rw [List.length_append, List.length_singleton] at hle ⊢
      have := hfit (by omega)
      have := htwo (by omega)
      omega
    · rw [List.length_append, List.length_singleton] at hnot
      by_cases hseen : (2 * seen.length : Nat) ≤ r.maxRequests
      · have := hfit hseen
        exact hless (by omega)
      · have := hfull hseen
        exact hless (by omega)

end Run

/-- What the requests of one address are when they all match one rule only. -/
structure OneRule (s : Limiter) (ip : Bytes) (r : RlRule) (vs : List Visit) : Prop where
  isIp : IsIp ip
  /-- The address has no entry, and there is room for one. -/
  entry : s.entryOf ip = none
  room : ∃ e ∈ s.entries, e.ip = []
  rule : ∀ v ∈ vs, ruleFor s.rules (some v.req.host) v.req.path = some r
  /-- The window is an `int`. -/
  window : r.windowSeconds < 2 ^ 31
  inTurn : InTurn vs

section

variable {s : Limiter} {ip : Bytes} {r : RlRule} {vs seen later : List Visit} {v : Visit}

theorem limit_window (hpos : 0 ≤ r.windowSeconds) (hint : r.windowSeconds < 2 ^ 31) :
    (r.limit.window : Int) = r.windowSeconds := by
  rw [RlRule.limit, limitOf]
  simp only
  rw [Int.emod_eq_of_lt hpos (by omega), Int.toNat_of_nonneg hpos]

/-- **What comes of a request in the window**: it goes on if the checks up to it are as many as the
rule allows. -/
theorem OneRule.verdict_eq_passed (h : OneRule s ip r vs) (hsplit : vs = seen ++ v :: later)
    (hin : InWindow r vs v.server.now) :
    verdict s ip seen v = .passed ↔
      (2 * seen.length + if InWindow r vs v.gateway.now then 2 else 1 : Int) ≤ r.maxRequests := by
  obtain ⟨first, hfirst⟩ : ∃ first, vs.head? = some first := by
    cases hhead : vs.head? with
    | none =>
      rw [List.head?_eq_none_iff.1 hhead] at hsplit
      simp at hsplit
    | some first => exact ⟨first, rfl⟩
  have hwindow : ∀ now, InWindow r vs now ↔ (now : Int) < first.server.now + r.windowSeconds := by
    intro now
    rw [InWindow, hfirst]
    exact ⟨fun h => h first rfl, fun h f hf => by cases hf; exact h⟩
  have hmem : v ∈ vs := hsplit ▸ by simp
  have hreads := h.inTurn.reads
  have hsorted := h.inTurn.order
  have hstart : ∀ w ∈ vs, first.server.now ≤ w.server.now := by
    cases vs with
    | nil => cases hfirst
    | cons a l =>
      cases hfirst
      intro w hw
      rcases List.mem_cons.1 hw with rfl | hw
      · exact le_rfl
      · have := (List.pairwise_cons.1 hsorted).1 w hw
        have := hreads first List.mem_cons_self
        have := hreads w (List.mem_cons_of_mem _ hw)
        omega
  have hgov : ∀ w ∈ vs, Governed s.rules r first.server.now w := fun w hw =>
    ⟨h.rule w hw, hstart w hw, by have := hreads w hw; omega, (hreads w hw).2.2.2⟩
  have hpos : 0 < r.windowSeconds := by
    have := (hwindow _).1 hin
    have := hstart v hmem
    omega
  have hlimit := limit_window (Int.le_of_lt hpos) h.window
  have hin' := (hwindow _).1 hin
  have hseen : ∀ w ∈ seen, w ∈ vs ∧ w.gateway.now ≤ v.server.asked := fun w hw => by
    rw [hsplit] at hsorted
    exact ⟨hsplit ▸ List.mem_append_left _ hw,
      (List.pairwise_append.1 hsorted).2.2 w hw v List.mem_cons_self⟩
  have hzero : Counting s.rules ip first.server.now 0 s :=
    ⟨rfl, Or.inr h.room, by rw [h.entry]; rfl, fun d => by rw [h.entry]; rfl⟩
  have hhead : ∀ f ∈ seen.head?, f.server.now = first.server.now := by
    intro f hf
    cases seen with
    | nil => cases hf
    | cons a l =>
      cases hf
      rw [hsplit] at hfirst
      cases hfirst
      rfl
  obtain ⟨n, hn, hnil, hfit, hfull⟩ := counting_afterVisits h.isIp hzero hhead fun w hw => by
    obtain ⟨hw, hle⟩ := hseen w hw
    have := hreads v hmem
    exact ⟨hgov w hw, by omega⟩
  have hnow : n = 0 → v.server.now = first.server.now := by
    intro h0
    rw [hsplit, hnil.1 h0] at hfirst
    cases hfirst
    rfl
  rw [verdict]
  by_cases hgate : InWindow r vs v.gateway.now
  · have hgate' := (hwindow _).1 hgate
    rw [if_pos hgate, (hn.visit h.isIp (hgov v hmem) hnow (by omega)).1]
    constructor
    · intro hle
      by_cases hseen : (2 * seen.length : Nat) ≤ r.maxRequests
      · have := hfit hseen
        omega
      · have := hfull hseen
        omega
    · intro hle
      have := hfit (by omega)
      omega
  · have hgate' := mt (hwindow _).2 hgate
    rw [if_neg hgate, hn.visit_across h.isIp (hgov v hmem) hnow (by omega) (by omega)]
    constructor
    · intro hle
      by_cases hseen : (2 * seen.length : Nat) ≤ r.maxRequests
      · have := hfit hseen
        omega
      · have := hfull hseen
        omega
    · intro hle
      have := hfit (by omega)
      omega

/-- A request before one that arrives in the window is checked twice in it. -/
theorem OneRule.inWindow_gateway (h : OneRule s ip r vs) (hsplit : vs = seen ++ v :: later)
    (hin : InWindow r vs v.server.now) {w : Visit} (hw : w ∈ seen) : InWindow r vs w.gateway.now := by
  intro first hfirst
  have hsorted := h.inTurn.order
  rw [hsplit] at hsorted
  have hle := (List.pairwise_append.1 hsorted).2.2 w hw v List.mem_cons_self
  have hv := hin first hfirst
  have := (h.inTurn.reads v (hsplit ▸ by simp)).1
  omega

end

/-- **A rule means what it is to mean exactly when it allows the checks of all requests that arrive in
the window**: two of each, though one is meant. -/
theorem oneUnit_iff {s : Limiter} {ip : Bytes} {r : RlRule} {vs : List Visit}
    (h : OneRule s ip r vs) (hmax : 1 ≤ r.maxRequests) : OneUnit s ip r vs ↔ ChecksFit r vs := by
  constructor
  · intro hone seen v later hsplit hin
    rw [← h.verdict_eq_passed hsplit hin, hone seen v later hsplit hin]
    by_contra hlen
    -- the last request that is to go on is checked twice before `v`
    obtain ⟨a, w, b, hseen, hlast⟩ : ∃ a w b, seen = a ++ w :: b ∧ (a.length : Int) + 1 = r.maxRequests := by
      have hk : (r.maxRequests - 1).toNat < seen.length := by omega
      refine ⟨seen.take (r.maxRequests - 1).toNat, seen[(r.maxRequests - 1).toNat],
        seen.drop ((r.maxRequests - 1).toNat + 1), ?_, ?_⟩
      · rw [List.getElem_cons_drop, List.take_append_drop]
      · rw [List.length_take]
        omega
    have hw : w ∈ seen := hseen ▸ by simp
    have hgate := h.inWindow_gateway hsplit hin hw
    have hsplit' : vs = a ++ w :: (b ++ v :: later) := by rw [hsplit, hseen]; simp
    have hreads := h.inTurn.reads w (hsplit' ▸ by simp)
    have hserver : InWindow r vs w.server.now := fun first hfirst => by
      have := hgate first hfirst
      omega
    have hpassed := (hone a w _ hsplit' hserver).2 (by omega)
    rw [h.verdict_eq_passed hsplit' hserver, if_pos hgate] at hpassed
    omega
  · intro hfit seen v later hsplit hin
    have hle := hfit seen v later hsplit hin
    refine iff_of_true ((h.verdict_eq_passed hsplit hin).2 hle) ?_
    split_ifs at hle <;> omega

/-- A limiter at its start with one rule, for every request. -/
private def withBudget (max : Int) : Limiter := arwsRatelimitSetRule arwsRatelimitInit none (ascii "/") max 60

private def visitAt (now : Nat) : Visit :=
  ⟨⟨ascii "GET", ascii "/", none, [], [], ascii "a", [], 0⟩, ⟨now, now⟩, ⟨now, now⟩⟩

private theorem oneRule_withBudget (max : Int) {vs : List Visit} (hvs : ∀ v ∈ vs, ∃ now, v = visitAt now)
    (hturn : InTurn vs) :
    OneRule (withBudget max) (ascii "10.0.0.1") ⟨ascii "*", ascii "/", max, 60⟩ vs where
  isIp := ⟨by decide, by decide⟩
  entry := entryOf_of_init rfl _
  room := free_of_init rfl
  rule := fun v hv => by
    obtain ⟨now, rfl⟩ := hvs v hv
    rfl
  window := (by decide : (60 : Int) < 2 ^ 31)
  inTurn := hturn

/-- Two requests, where four checks are allowed. -/
theorem oneUnit_of_two :
    OneUnit (withBudget 4) (ascii "10.0.0.1") ⟨ascii "*", ascii "/", 4, 60⟩ [visitAt 0, visitAt 1] := by
  have hvs : ∀ v ∈ [visitAt 0, visitAt 1], ∃ now, v = visitAt now := by simp
  refine (oneUnit_iff (oneRule_withBudget 4 hvs ⟨by decide, by decide⟩) (by decide)).2 ?_
  intro seen v later hsplit _
  match seen, hsplit with
  | [], hsplit => cases hsplit; decide
  | [_], hsplit => cases hsplit; decide
  | [_, _], hsplit => cases hsplit
  | _ :: _ :: _ :: _, hsplit => cases hsplit

/-- **A request takes two units of the budget**: where one is allowed, not even the first request goes
on. -/
theorem not_oneUnit :
    ¬ ∀ s ip r vs, OneRule s ip r vs → 1 ≤ r.maxRequests → OneUnit s ip r vs := by
  intro h
  have hrule := @oneRule_withBudget 1 [visitAt 0] (by simp) ⟨by decide, by decide⟩
  have hin : InWindow ⟨ascii "*", ascii "/", 1, 60⟩ [visitAt 0] (visitAt 0).server.now := by decide
  have hfirst := (h _ _ _ _ hrule (by decide) [] _ [] rfl hin).2 (by decide)
  have hpassed := hrule.verdict_eq_passed (List.nil_append [visitAt 0]).symm hin
  rw [hpassed] at hfirst
  exact absurd hfirst (by decide)

end Gateway
end Arws

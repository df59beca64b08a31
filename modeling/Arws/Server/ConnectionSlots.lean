import Mathlib.Algebra.Order.Group.Multiset
import Mathlib.Data.Fintype.Card
import Mathlib.Tactic.Abel
import Arws.Library.CString
import Arws.Library.Slots
import Arws.Server.Descriptors

/-!
# The slots of the connections

`econn_alloc` hands out the first entry of `econn_pool` that is not in use, `pool_push` puts it into the
queue, a worker serves it and gives it back.  A later call of `server_start` sets the pool to zeros,
entry after entry, without a look at what is in use.

Every access to what the threads share is a step of its own; any number of calls of `server_start` may
be in their accept loops.

* `owned_of_step` — the entries in use are those that someone holds, each of them once, as long as no
  entry in use is set to zeros.
* `slotsKept_of_reach` — what follows for their number, and for the connections that are queued or
  served.
* `not_slotsMatch` — a worker counts its connection off before it gives the entry back, and behind a
  restart an entry that is being served is handed out again.
-/

set_option autoImplicit false

namespace Arws
namespace Server

open CString

/-! ## The pool -/

/-- `MAX_CONN`. -/
def maxConn : ℕ := 65536

structure EConn where
  fd : Int
  inUse : Bool
  mode : Int
  ctx : Option ℕ
  clientIp : Bytes

/-- What `calloc` and `memset` make of an entry. -/
def EConn.zero : EConn := ⟨0, false, 0, none, []⟩

abbrev EConnPool := Fin maxConn → EConn

/-- The entry that `econn_alloc` finds. -/
def econnAlloc (pool : EConnPool) : Option (Fin maxConn) :=
  (List.finRange maxConn).find? fun i => !(pool i).inUse

/-- A pointer to an entry, and beside it the descriptor that was stored there last. -/
structure PoolJob where
  slot : Fin maxConn
  fd : Int

/-! ## The threads -/

/-- How far a call of `server_start` is. -/
inductive LoopAt
  /-- In `memset`, before an entry. -/
  | clearing (k : Fin maxConn)
  | waiting
  | accepted (csock : Int) (ip : Option Bytes)
  /-- Behind `active_connections++`. -/
  | counted (csock : Int) (ip : Option Bytes)
  /-- `econn_alloc` returned null. -/
  | refused
  | allocated (csock : Int) (ip : Option Bytes) (slot : Fin maxConn)
  /-- In `pool_push`. -/
  | pushing (job : PoolJob)

structure AcceptLoop where
  mode : Int
  ctx : Option ℕ
  place : LoopAt

/-- How far a call of `pool_worker` is. -/
inductive WorkerAt
  | idle
  | serving (job : PoolJob)
  /-- Behind `ar_socket_close`. -/
  | closed (job : PoolJob)
  /-- Behind `active_connections--`. -/
  | discounted (job : PoolJob)

structure ServerState where
  running : Bool
  /-- `econn_pool` is not null; until then `pool` is what `calloc` will give. -/
  pooled : Bool
  pool : EConnPool
  activeConnections : Int
  loops : List AcceptLoop
  jobQueue : List PoolJob
  poolThreads : List WorkerAt

inductive LoopAct
  | clear
  | accept (csock : Int) (ip : Option Bytes)
  | count
  | alloc (memory : Bool)
  | fill
  | discount
  | push
  /-- The call returns: it was stopped, or it could not listen. -/
  | leave (failed : Bool)

inductive WorkerStep
  | pop
  | close
  | discount
  | free

inductive ServerAct
  | serverStart (mode : Int) (ctx : Option ℕ)
  | serverStop
  | loop (l : ℕ) (act : LoopAct)
  | worker (w : ℕ) (act : WorkerStep)

namespace ServerState

def setLoop (s : ServerState) (l : ℕ) (loop : AcceptLoop) (place : LoopAt) : ServerState :=
  { s with loops := s.loops.set l { loop with place := place } }

def setWorker (s : ServerState) (w : ℕ) (place : WorkerAt) : ServerState :=
  { s with poolThreads := s.poolThreads.set w place }

def setEntry (s : ServerState) (i : Fin maxConn) (e : EConn) : ServerState :=
  { s with pool := Function.update s.pool i e }

end ServerState

/-- A step of a call of `server_start`. -/
def loopStep (s : ServerState) (l : ℕ) (loop : AcceptLoop) (act : LoopAct) : Option ServerState :=
  match act, loop.place with
  | .clear, .clearing k =>
    some ((s.setEntry k .zero).setLoop l loop
      (if h : k.val + 1 < maxConn then .clearing ⟨k.val + 1, h⟩ else .waiting))
  | .accept csock ip, .waiting => some (s.setLoop l loop (.accepted csock ip))
  | .count, .accepted csock ip =>
    if s.activeConnections ≥ maxConnections then some (s.setLoop l loop .waiting)
    else some ({ s with activeConnections := s.activeConnections + 1 }.setLoop l loop
      (.counted csock ip))
  | .alloc memory, .counted csock ip =>
    if s.pooled || memory then
      match econnAlloc s.pool with
      | some i =>
        some (({ s with pooled := true }.setEntry i
          { s.pool i with inUse := true, fd := -1 }).setLoop l loop (.allocated csock ip i))
      | none => some ({ s with pooled := true }.setLoop l loop .refused)
    else some (s.setLoop l loop .refused)
  | .fill, .allocated csock ip i =>
    some ((s.setEntry i { s.pool i with
      fd := csock
      mode := loop.mode
      ctx := loop.ctx
      clientIp := ip.getD (ascii "0.0.0.0") }).setLoop l loop (.pushing ⟨i, csock⟩))
  | .discount, .refused =>
    some ({ s with activeConnections := s.activeConnections - 1 }.setLoop l loop .waiting)
  | .push, .pushing job =>
    if s.jobQueue.length < queueSize then
      some ({ s with jobQueue := s.jobQueue ++ [job] }.setLoop l loop .waiting)
    else none
  | .leave failed, .waiting =>
    if failed || !s.running then some { s with loops := s.loops.eraseIdx l } else none
  | _, _ => none

/-- A step of `pool_worker`. -/
def workerStep (s : ServerState) (w : ℕ) (act : WorkerStep) (place : WorkerAt) : Option ServerState :=
  match act, place with
  | .pop, .idle =>
    match s.jobQueue with
    | job :: jobs => some ({ s with jobQueue := jobs }.setWorker w (.serving job))
    | [] => none
  | .close, .serving job => some (s.setWorker w (.closed job))
  | .discount, .closed job =>
    some ({ s with activeConnections := s.activeConnections - 1 }.setWorker w (.discounted job))
  | .free, .discounted job =>
    some ((s.setEntry job.slot { s.pool job.slot with inUse := false }).setWorker w .idle)
  | _, _ => none

def serverStep (s : ServerState) : ServerAct → Option ServerState
  | .serverStart mode ctx =>
    some { s with
      running := true
      loops := s.loops ++ [⟨mode, ctx, if s.pooled then .clearing ⟨0, by decide⟩ else .waiting⟩]
      poolThreads := if s.poolThreads.isEmpty then List.replicate poolSize .idle else s.poolThreads }
  | .serverStop => some { s with running := false }
  | .loop l act => s.loops[l]?.bind fun loop => loopStep s l loop act
  | .worker w act => s.poolThreads[w]?.bind fun place => workerStep s w act place

def serverMachine : Machine ServerState ServerAct where
  init s := s = ⟨false, false, fun _ => .zero, 0, [], [], []⟩
  step := serverStep

/-! ## What a step can do -/

/-- What a call of `server_start` can do at each place. -/
inductive LoopMove (s : ServerState) (l : ℕ) (loop : AcceptLoop) : LoopAct → LoopAt → ServerState → Prop
  | clear (k : Fin maxConn) : LoopMove s l loop .clear (.clearing k)
      ((s.setEntry k .zero).setLoop l loop
        (if h : k.val + 1 < maxConn then .clearing ⟨k.val + 1, h⟩ else .waiting))
  | accept (csock : Int) (ip : Option Bytes) : LoopMove s l loop (.accept csock ip) .waiting
      (s.setLoop l loop (.accepted csock ip))
  | full (csock : Int) (ip : Option Bytes) (hfull : maxConnections ≤ s.activeConnections) :
      LoopMove s l loop .count (.accepted csock ip) (s.setLoop l loop .waiting)
  | count (csock : Int) (ip : Option Bytes) (hroom : s.activeConnections < maxConnections) :
      LoopMove s l loop .count (.accepted csock ip)
        ({ s with activeConnections := s.activeConnections + 1 }.setLoop l loop (.counted csock ip))
  | alloc (memory : Bool) (csock : Int) (ip : Option Bytes) (i : Fin maxConn)
      (hpool : s.pooled = true ∨ memory = true) (hfind : econnAlloc s.pool = some i) :
      LoopMove s l loop (.alloc memory) (.counted csock ip)
        (({ s with pooled := true }.setEntry i { s.pool i with inUse := true, fd := -1 }).setLoop l loop
          (.allocated csock ip i))
  | noEntry (memory : Bool) (csock : Int) (ip : Option Bytes)
      (hpool : s.pooled = true ∨ memory = true) (hfind : econnAlloc s.pool = none) :
      LoopMove s l loop (.alloc memory) (.counted csock ip)
        ({ s with pooled := true }.setLoop l loop .refused)
  | noPool (csock : Int) (ip : Option Bytes) (hpool : s.pooled = false) :
      LoopMove s l loop (.alloc false) (.counted csock ip) (s.setLoop l loop .refused)
  | fill (csock : Int) (ip : Option Bytes) (i : Fin maxConn) :
      LoopMove s l loop .fill (.allocated csock ip i)
        ((s.setEntry i { s.pool i with
          fd := csock
          mode := loop.mode
          ctx := loop.ctx
          clientIp := ip.getD (ascii "0.0.0.0") }).setLoop l loop (.pushing ⟨i, csock⟩))
  | discount : LoopMove s l loop .discount .refused
      ({ s with activeConnections := s.activeConnections - 1 }.setLoop l loop .waiting)
  | push (job : PoolJob) (hroom : s.jobQueue.length < queueSize) :
      LoopMove s l loop .push (.pushing job)
        ({ s with jobQueue := s.jobQueue ++ [job] }.setLoop l loop .waiting)
  | leave (failed : Bool) (hstop : failed = true ∨ s.running = false) :
      LoopMove s l loop (.leave failed) .waiting { s with loops := s.loops.eraseIdx l }

/-- What a worker can do at each place. -/
inductive WorkerMove (s : ServerState) (w : ℕ) : WorkerStep → WorkerAt → ServerState → Prop
  | pop (job : PoolJob) (jobs : List PoolJob) (hjobs : s.jobQueue = job :: jobs) :
      WorkerMove s w .pop .idle ({ s with jobQueue := jobs }.setWorker w (.serving job))
  | close (job : PoolJob) : WorkerMove s w .close (.serving job) (s.setWorker w (.closed job))
  | discount (job : PoolJob) : WorkerMove s w .discount (.closed job)
      ({ s with activeConnections := s.activeConnections - 1 }.setWorker w (.discounted job))
  | free (job : PoolJob) : WorkerMove s w .free (.discounted job)
      ((s.setEntry job.slot { s.pool job.slot with inUse := false }).setWorker w .idle)

section Moves

variable {s t : ServerState}

theorem loopMove_of_step {l : ℕ} {loop : AcceptLoop} {act : LoopAct}
    (hs : loopStep s l loop act = some t) : LoopMove s l loop act loop.place t := by
  unfold loopStep at hs
  split at hs
  · rename_i k hplace
    obtain rfl := Option.some.inj hs
    exact hplace ▸ .clear k
  · rename_i csock ip hplace
    obtain rfl := Option.some.inj hs
    exact hplace ▸ .accept csock ip
  · rename_i csock ip hplace
    split at hs
    · rename_i hfull
      obtain rfl := Option.some.inj hs
      exact hplace ▸ .full csock ip hfull
    · rename_i hroom
      obtain rfl := Option.some.inj hs
      exact hplace ▸ .count csock ip (not_le.1 hroom)
  · rename_i memory csock ip hplace
    split at hs
    · rename_i hpool
      rw [Bool.or_eq_true] at hpool
      split at hs
      · rename_i i hfind
        obtain rfl := Option.some.inj hs
        exact hplace ▸ .alloc memory csock ip i hpool hfind
      · rename_i hfind
        obtain rfl := Option.some.inj hs
        exact hplace ▸ .noEntry memory csock ip hpool hfind
    · rename_i hpool
      rw [Bool.or_eq_true, not_or, Bool.not_eq_true, Bool.not_eq_true] at hpool
      obtain ⟨hpool, rfl⟩ := hpool
      obtain rfl := Option.some.inj hs
      exact hplace ▸ .noPool csock ip hpool
  · rename_i csock ip i hplace
    obtain rfl := Option.some.inj hs
    exact hplace ▸ .fill csock ip i
  · rename_i hplace
    obtain rfl := Option.some.inj hs
    exact hplace ▸ .discount
  · rename_i job hplace
    obtain ⟨hroom, hs⟩ := Option.ite_none_right_eq_some.1 hs
    obtain rfl := Option.some.inj hs
    exact hplace ▸ .push job hroom
  · rename_i failed hplace
    obtain ⟨hstop, hs⟩ := Option.ite_none_right_eq_some.1 hs
    rw [Bool.or_eq_true, Bool.not_eq_true'] at hstop
    obtain rfl := Option.some.inj hs
    exact hplace ▸ .leave failed hstop
  · cases hs

theorem workerMove_of_step {w : ℕ} {place : WorkerAt} {act : WorkerStep}
    (hs : workerStep s w act place = some t) : WorkerMove s w act place t := by
  cases act with
  | pop =>
    cases place with
    | idle =>
      simp only [workerStep] at hs
      split at hs
      · rename_i job jobs hjobs
        cases hs
        exact .pop job jobs hjobs
      · cases hs
    | _ => cases hs
  | close =>
    cases place with
    | serving job =>
      cases hs
      exact .close job
    | _ => cases hs
  | discount =>
    cases place with
    | closed job =>
      cases hs
      exact .discount job
    | _ => cases hs
  | free =>
    cases place with
    | discounted job =>
      cases hs
      exact .free job
    | _ => cases hs

end Moves

/-! ## Who holds an entry -/

/-- The entries that a call holds, with the descriptors that are to stand there. -/
def LoopAt.held : LoopAt → Multiset PoolJob
  | .allocated _ _ slot => {⟨slot, -1⟩}
  | .pushing job => {job}
  | _ => 0

def WorkerAt.held : WorkerAt → Multiset PoolJob
  | .idle => 0
  | .serving job | .closed job | .discounted job => {job}

/-- Whether a call has counted a connection that is not queued yet. -/
def LoopAt.counts : LoopAt → ℕ
  | .counted .. | .refused | .allocated .. | .pushing _ => 1
  | _ => 0

/-- Whether a worker serves a connection that it has not counted off. -/
def WorkerAt.counts : WorkerAt → ℕ
  | .serving _ | .closed _ => 1
  | _ => 0

namespace ServerState

/-- What the calls, the queue and the workers have of something, summed up. -/
def total {M : Type*} [AddCommMonoid M] (f : LoopAt → M) (q : PoolJob → M) (g : WorkerAt → M)
    (s : ServerState) : M :=
  (s.loops.map fun loop => f loop.place).sum + (s.jobQueue.map q).sum + (s.poolThreads.map g).sum

/-- The entries that someone holds. -/
def held (s : ServerState) : Multiset PoolJob :=
  s.total LoopAt.held (fun job => {job}) WorkerAt.held

/-- The connections that are counted. -/
def counts (s : ServerState) : ℕ := s.total LoopAt.counts (fun _ => 1) WorkerAt.counts

section Total

variable {M : Type*} [AddCommMonoid M] {f : LoopAt → M} {q : PoolJob → M} {g : WorkerAt → M}
  {s : ServerState}

/-- A call, and all the others. -/
theorem total_loop (f : LoopAt → M) (q : PoolJob → M) (g : WorkerAt → M) {l : ℕ} {loop : AcceptLoop}
    (h : s.loops[l]? = some loop) : ∃ rest,
      s.total f q g = f loop.place + rest + (s.jobQueue.map q).sum ∧
      (∀ {t : ServerState} {p : LoopAt}, t.poolThreads = s.poolThreads →
        t.loops = s.loops.set l { loop with place := p } →
        t.total f q g = f p + rest + (t.jobQueue.map q).sum) ∧
      ∀ {t : ServerState}, t.poolThreads = s.poolThreads → t.loops = s.loops.eraseIdx l →
        t.total f q g = rest + (t.jobQueue.map q).sum := by
  obtain ⟨rest, hbefore, hset, herase⟩ :=
    Slots.exists_sum_map (fun loop : AcceptLoop => f loop.place) h
  refine ⟨rest + (s.poolThreads.map g).sum, ?_, fun {t p} hthreads hloops => ?_,
    fun {t} hthreads hloops => ?_⟩
  · rw [total, hbefore]
    abel
  · rw [total, hthreads, hloops, hset]
    abel
  · rw [total, hthreads, hloops, herase]
    abel

/-- A worker, and all the others. -/
theorem total_worker (f : LoopAt → M) (q : PoolJob → M) (g : WorkerAt → M) {w : ℕ} {place : WorkerAt}
    (h : s.poolThreads[w]? = some place) : ∃ rest,
      s.total f q g = g place + rest + (s.jobQueue.map q).sum ∧
      ∀ {t : ServerState} {p : WorkerAt}, t.loops = s.loops →
        t.poolThreads = s.poolThreads.set w p →
        t.total f q g = g p + rest + (t.jobQueue.map q).sum := by
  obtain ⟨rest, hbefore, hset, -⟩ := Slots.exists_sum_map g h
  refine ⟨rest + (s.loops.map fun loop => f loop.place).sum, ?_, fun {t p} hloops hthreads => ?_⟩
  · rw [total, hbefore]
    abel
  · rw [total, hloops, hthreads, hset]
    abel

end Total

end ServerState

/-- The entry that an action sets to zeros. -/
def clears (s : ServerState) : ServerAct → Option (Fin maxConn)
  | .loop l .clear =>
    match s.loops[l]? with
    | some ⟨_, _, .clearing k⟩ => some k
    | _ => none
  | _ => none

/-- What a step that may set an entry to zeros does to the pool and to those who hold its entries. -/
inductive PoolEffect (s t : ServerState) (cleared : Option (Fin maxConn)) : Prop
  | same (hpool : t.pool = s.pool) (hheld : t.held = s.held)
  | alloc (i : Fin maxConn) (hfind : econnAlloc s.pool = some i)
    (hpool : t.pool = Function.update s.pool i { s.pool i with inUse := true, fd := -1 })
    (hheld : t.held = ⟨i, -1⟩ ::ₘ s.held)
  | fill (i : Fin maxConn) (e : EConn) (rest : Multiset PoolJob) (huse : e.inUse = (s.pool i).inUse)
    (hpool : t.pool = Function.update s.pool i e) (hbefore : s.held = ⟨i, -1⟩ ::ₘ rest)
    (hheld : t.held = ⟨i, e.fd⟩ ::ₘ rest)
  | free (job : PoolJob)
    (hpool : t.pool = Function.update s.pool job.slot { s.pool job.slot with inUse := false })
    (hheld : s.held = job ::ₘ t.held)
  | clear (k : Fin maxConn) (hk : cleared = some k) (hpool : t.pool = Function.update s.pool k .zero)
    (hheld : t.held = s.held)

section Effect

variable {s t : ServerState}

theorem poolEffect_loopStep {l : ℕ} {loop : AcceptLoop} {act : LoopAct}
    (h : s.loops[l]? = some loop) (hs : loopStep s l loop act = some t) :
    PoolEffect s t (clears s (.loop l act)) := by
  have hmove := loopMove_of_step hs
  obtain ⟨mode, ctx, place⟩ := loop
  obtain ⟨rest, hbefore, hset, herase⟩ :=
    ServerState.total_loop LoopAt.held (fun job => {job}) WorkerAt.held h
  rw [add_assoc] at hbefore
  have hafter : ∀ {t : ServerState} {place' : LoopAt}, t.poolThreads = s.poolThreads →
      t.loops = s.loops.set l ⟨mode, ctx, place'⟩ → t.jobQueue = s.jobQueue →
      t.held = place'.held + (rest + (s.jobQueue.map fun job => {job}).sum) := by
    intro t place' hthreads hloops hjobs
    rw [ServerState.held, hset hthreads hloops, hjobs, add_assoc]
  have hsame : ∀ {t : ServerState} {place' : LoopAt}, t.poolThreads = s.poolThreads →
      t.loops = s.loops.set l ⟨mode, ctx, place'⟩ → t.jobQueue = s.jobQueue →
      place'.held = place.held → t.held = s.held := by
    intro t place' hthreads hloops hjobs hplace
    rw [hafter hthreads hloops hjobs, hplace]
    exact hbefore.symm
  cases hmove with
  | clear k => exact .clear k (by rw [clears, h]) rfl (hsame rfl rfl rfl (by split <;> rfl))
  | accept csock ip => exact .same rfl (hsame rfl rfl rfl rfl)
  | full csock ip => exact .same rfl (hsame rfl rfl rfl rfl)
  | count csock ip => exact .same rfl (hsame rfl rfl rfl rfl)
  | alloc memory csock ip i hpool hfind =>
    refine .alloc i hfind rfl (Eq.trans (hafter rfl rfl rfl) ?_)
    rw [ServerState.held, hbefore, ← Multiset.singleton_add]
    exact congrArg _ (zero_add _).symm
  | noEntry memory csock ip => exact .same rfl (hsame rfl rfl rfl rfl)
  | noPool csock ip => exact .same rfl (hsame rfl rfl rfl rfl)
  | fill csock ip i =>
    exact .fill i { s.pool i with
        fd := csock
        mode := mode
        ctx := ctx
        clientIp := ip.getD (ascii "0.0.0.0") } _ rfl rfl hbefore
      (Eq.trans (hafter rfl rfl rfl) (Multiset.singleton_add _ _))
  | discount => exact .same rfl (hsame rfl rfl rfl rfl)
  | push job =>
    refine .same rfl (Eq.trans (hset rfl rfl) (Eq.trans ?_ hbefore.symm))
    simp only [LoopAt.held, ServerState.setLoop, List.map_append, List.sum_append, List.map_singleton,
      List.sum_singleton]
    abel
  | leave failed =>
    refine .same rfl (Eq.trans (herase rfl rfl) (Eq.trans ?_ hbefore.symm))
    exact (zero_add _).symm

theorem poolEffect_workerStep {w : ℕ} {place : WorkerAt} {act : WorkerStep}
    (h : s.poolThreads[w]? = some place) (hs : workerStep s w act place = some t) :
    PoolEffect s t none := by
  have hmove := workerMove_of_step hs
  obtain ⟨rest, hbefore, hset⟩ :=
    ServerState.total_worker LoopAt.held (fun job => {job}) WorkerAt.held h
  rw [add_assoc] at hbefore
  have hafter : ∀ {t : ServerState} {place' : WorkerAt}, t.loops = s.loops →
      t.poolThreads = s.poolThreads.set w place' → t.jobQueue = s.jobQueue →
      t.held = place'.held + (rest + (s.jobQueue.map fun job => {job}).sum) := by
    intro t place' hloops hthreads hjobs
    rw [ServerState.held, hset hloops hthreads, hjobs, add_assoc]
  cases hmove with
  | pop job jobs hjobs =>
    refine .same rfl (Eq.trans (hset rfl rfl) (Eq.trans ?_ hbefore.symm))
    rw [hjobs]
    simp only [WorkerAt.held, ServerState.setWorker, List.map_cons, List.sum_cons]
    abel
  | close job => exact .same rfl (Eq.trans (hafter rfl rfl rfl) hbefore.symm)
  | discount job => exact .same rfl (Eq.trans (hafter rfl rfl rfl) hbefore.symm)
  | free job =>
    refine .free job rfl (Eq.trans hbefore (congrArg (job ::ₘ ·) (Eq.symm ?_)))
    exact Eq.trans (hafter rfl rfl rfl) (zero_add _)

/-- The calls, the queue and the workers of a start. -/
theorem total_serverStart {M : Type*} [AddCommMonoid M] {f : LoopAt → M} {q : PoolJob → M}
    {g : WorkerAt → M} (hclear : ∀ k, f (.clearing k) = 0) (hwait : f .waiting = 0)
    (hidle : g .idle = 0) {mode : Int} {ctx : Option ℕ}
    (hs : serverStep s (.serverStart mode ctx) = some t) : t.total f q g = s.total f q g := by
  obtain rfl := Option.some.inj hs
  have hplace : f (if s.pooled then .clearing ⟨0, by decide⟩ else .waiting) = 0 := by
    split
    · exact hclear _
    · exact hwait
  rw [ServerState.total, ServerState.total, List.map_append, List.sum_append, List.map_singleton,
    List.sum_singleton, hplace, add_zero]
  congr 1
  dsimp only
  split
  · rename_i hnone
    rw [List.isEmpty_iff.1 hnone, List.map_replicate, hidle, List.sum_replicate, nsmul_zero]
    rfl
  · rfl

/-- **All that a step does to the pool.** -/
theorem poolEffect_of_step {act : ServerAct} (hs : serverStep s act = some t) :
    PoolEffect s t (clears s act) := by
  cases act with
  | serverStart mode ctx =>
    refine .same (by cases hs; rfl) (total_serverStart (fun _ => rfl) rfl rfl hs)
  | serverStop =>
    cases hs
    exact .same rfl rfl
  | loop l act =>
    obtain ⟨loop, hloop, hs⟩ := Option.bind_eq_some_iff.1 hs
    exact poolEffect_loopStep hloop hs
  | worker w act =>
    obtain ⟨place, hplace, hs⟩ := Option.bind_eq_some_iff.1 hs
    exact poolEffect_workerStep hplace hs

end Effect

/-! ## Entries in use -/

/-- No entry in use is set to zeros. -/
def SparesSlots (s : ServerState) (act : ServerAct) : Prop :=
  ∀ k ∈ clears s act, (s.pool k).inUse = false

/-- **The entries in use are those that someone holds**, each of them once, and each has the
descriptor that its holder put there. -/
structure Owned (s : ServerState) : Prop where
  nodup : (s.held.map (·.slot)).Nodup
  inUse : ∀ i, (s.pool i).inUse = true ↔ i ∈ s.held.map (·.slot)
  fd : ∀ job ∈ s.held, (s.pool job.slot).fd = job.fd

theorem econnAlloc_not_inUse {pool : EConnPool} {i : Fin maxConn} (h : econnAlloc pool = some i) :
    (pool i).inUse = false := by
  have := List.find?_some h
  simpa using this

section Owned

variable {s t : ServerState}

/-- Another entry than the one that is written to. -/
theorem slot_ne_of_not_mem {i : Fin maxConn} {jobs : Multiset PoolJob}
    (h : i ∉ jobs.map (·.slot)) {job : PoolJob} (hjob : job ∈ jobs) : job.slot ≠ i := by
  rintro rfl
  exact h (Multiset.mem_map_of_mem _ hjob)

theorem Owned.of_effect {cleared : Option (Fin maxConn)} (h : Owned s) (heffect : PoolEffect s t cleared)
    (hspares : ∀ k ∈ cleared, (s.pool k).inUse = false) : Owned t := by
  obtain ⟨hnodup, huse, hfd⟩ := h
  cases heffect with
  | same hpool hheld => exact ⟨hheld ▸ hnodup, by rwa [hpool, hheld], by rwa [hpool, hheld]⟩
  | alloc i hfind hpool hheld =>
    have hnew : i ∉ s.held.map (·.slot) := by
      rw [← huse, econnAlloc_not_inUse hfind]
      exact Bool.false_ne_true
    refine ⟨?_, fun j => ?_, fun job hjob => ?_⟩
    · rw [hheld, Multiset.map_cons]
      exact Multiset.nodup_cons.2 ⟨hnew, hnodup⟩
    · rw [hpool, hheld, Multiset.map_cons, Multiset.mem_cons]
      by_cases hj : j = i
      · rw [hj, Function.update_self]
        exact iff_of_true rfl (Or.inl rfl)
      · rw [Function.update_of_ne hj, huse, or_iff_right hj]
    · rw [hheld, Multiset.mem_cons] at hjob
      rw [hpool]
      rcases hjob with rfl | hjob
      · rw [Function.update_self]
      · rw [Function.update_of_ne (slot_ne_of_not_mem hnew hjob), hfd job hjob]
  | fill i e rest huse' hpool hbefore hheld =>
    have hslots : t.held.map (·.slot) = s.held.map (·.slot) := by
      rw [hheld, hbefore, Multiset.map_cons, Multiset.map_cons]
    have hnew : i ∉ rest.map (·.slot) := by
      rw [hbefore, Multiset.map_cons] at hnodup
      exact (Multiset.nodup_cons.1 hnodup).1
    refine ⟨hslots ▸ hnodup, fun j => ?_, fun job hjob => ?_⟩
    · rw [hslots, ← huse, hpool]
      by_cases hj : j = i
      · rw [hj, Function.update_self, huse']
      · rw [Function.update_of_ne hj]
    · rw [hheld, Multiset.mem_cons] at hjob
      rw [hpool]
      rcases hjob with rfl | hjob
      · rw [Function.update_self]
      · rw [Function.update_of_ne (slot_ne_of_not_mem hnew hjob)]
        exact hfd job (hbefore ▸ Multiset.mem_cons_of_mem hjob)
  | free job hpool hheld =>
    rw [hheld, Multiset.map_cons, Multiset.nodup_cons] at hnodup
    obtain ⟨hnew, hnodup⟩ := hnodup
    refine ⟨hnodup, fun j => ?_, fun job' hjob' => ?_⟩
    · rw [hpool]
      by_cases hj : j = job.slot
      · rw [hj, Function.update_self]
        exact iff_of_false Bool.false_ne_true hnew
      · rw [Function.update_of_ne hj, huse, hheld, Multiset.map_cons, Multiset.mem_cons,
          or_iff_right hj]
    · rw [hpool, Function.update_of_ne (slot_ne_of_not_mem hnew hjob')]
      exact hfd job' (hheld ▸ Multiset.mem_cons_of_mem hjob')
  | clear k hk hpool hheld =>
    have hfree := hspares k hk
    have hnew : k ∉ s.held.map (·.slot) := by
      rw [← huse, hfree]
      exact Bool.false_ne_true
    refine ⟨hheld ▸ hnodup, fun j => ?_, fun job hjob => ?_⟩
    · rw [hheld, ← huse, hpool]
      by_cases hj : j = k
      · rw [hj, Function.update_self, hfree]
        exact Iff.rfl
      · rw [Function.update_of_ne hj]
    · rw [hheld] at hjob
      rw [hpool, Function.update_of_ne (slot_ne_of_not_mem hnew hjob), hfd job hjob]

end Owned

/-! ## Connections that are counted -/

/-- **`active_connections` is the number of the connections that are counted and not counted off**, and
never passes the limit. -/
structure Accounted (s : ServerState) : Prop where
  active : s.activeConnections = s.counts
  le : s.activeConnections ≤ maxConnections

section Accounted

variable {s t : ServerState}

theorem sum_ones (jobs : List PoolJob) : (jobs.map fun _ => 1).sum = jobs.length := by
  induction jobs with
  | nil => rfl
  | cons job jobs ih => rw [List.map_cons, List.sum_cons, ih, List.length_cons, Nat.add_comm]

theorem accounted_loopStep (h : Accounted s) {l : ℕ} {loop : AcceptLoop} {act : LoopAct}
    (hl : s.loops[l]? = some loop) (hs : loopStep s l loop act = some t) : Accounted t := by
  have hmove := loopMove_of_step hs
  obtain ⟨hactive, hle⟩ := h
  obtain ⟨mode, ctx, place⟩ := loop
  obtain ⟨rest, hbefore, hset, herase⟩ :=
    ServerState.total_loop LoopAt.counts (fun _ => 1) WorkerAt.counts hl
  rw [ServerState.counts, hbefore, sum_ones] at hactive
  have hgo : ∀ {t : ServerState} {place' : LoopAt}, t.poolThreads = s.poolThreads →
      t.loops = s.loops.set l ⟨mode, ctx, place'⟩ →
      t.activeConnections + place.counts + s.jobQueue.length =
        s.activeConnections + place'.counts + t.jobQueue.length →
      t.activeConnections ≤ maxConnections → Accounted t := by
    intro t place' hthreads hloops hsum hle'
    refine ⟨?_, hle'⟩
    rw [ServerState.counts, hset hthreads hloops, sum_ones]
    dsimp only at hactive
    omega
  cases hmove with
  | clear k =>
    refine hgo rfl rfl ?_ hle
    split <;> rfl
  | accept csock ip => exact hgo rfl rfl rfl hle
  | full csock ip => exact hgo rfl rfl rfl hle
  | count csock ip hroom =>
    refine hgo rfl rfl ?_ hroom
    simp [LoopAt.counts, ServerState.setLoop]
  | alloc memory csock ip i => exact hgo rfl rfl rfl hle
  | noEntry memory csock ip => exact hgo rfl rfl rfl hle
  | noPool csock ip => exact hgo rfl rfl rfl hle
  | fill csock ip i => exact hgo rfl rfl rfl hle
  | discount =>
    refine hgo rfl rfl ?_ ((Int.sub_le_self _ zero_le_one).trans hle)
    simp [LoopAt.counts, ServerState.setLoop]
  | push job =>
    refine hgo rfl rfl ?_ hle
    simp only [LoopAt.counts, ServerState.setLoop, List.length_append, List.length_singleton]
    omega
  | leave failed =>
    refine ⟨hactive.trans (congrArg Nat.cast (Eq.symm ?_)), hle⟩
    refine Eq.trans (herase rfl rfl) ?_
    rw [sum_ones]
    simp only [LoopAt.counts, zero_add]

theorem accounted_workerStep (h : Accounted s) {w : ℕ} {place : WorkerAt} {act : WorkerStep}
    (hw : s.poolThreads[w]? = some place) (hs : workerStep s w act place = some t) :
    Accounted t := by
  have hmove := workerMove_of_step hs
  obtain ⟨hactive, hle⟩ := h
  obtain ⟨rest, hbefore, hset⟩ :=
    ServerState.total_worker LoopAt.counts (fun _ => 1) WorkerAt.counts hw
  rw [ServerState.counts, hbefore, sum_ones] at hactive
  have hgo : ∀ {t : ServerState} {place' : WorkerAt}, t.loops = s.loops →
      t.poolThreads = s.poolThreads.set w place' →
      t.activeConnections + place.counts + s.jobQueue.length =
        s.activeConnections + place'.counts + t.jobQueue.length →
      t.activeConnections ≤ maxConnections → Accounted t := by
    intro t place' hloops hthreads hsum hle'
    refine ⟨?_, hle'⟩
    rw [ServerState.counts, hset hloops hthreads, sum_ones]
    omega
  cases hmove with
  | pop job jobs hjobs =>
    refine hgo rfl rfl ?_ hle
    simp only [WorkerAt.counts, ServerState.setWorker, hjobs, List.length_cons]
    omega
  | close job => exact hgo rfl rfl rfl hle
  | discount job =>
    refine hgo rfl rfl ?_ ((Int.sub_le_self _ zero_le_one).trans hle)
    simp [WorkerAt.counts, ServerState.setWorker]
  | free job => exact hgo rfl rfl rfl hle

theorem accounted_of_step {act : ServerAct} (h : Accounted s) (hs : serverStep s act = some t) :
    Accounted t := by
  cases act with
  | serverStart mode ctx =>
    have hcounts : t.counts = s.counts := total_serverStart (fun _ => rfl) rfl rfl hs
    have hconns : t.activeConnections = s.activeConnections := by cases hs; rfl
    exact ⟨by rw [hconns, h.active, hcounts], hconns ▸ h.le⟩
  | serverStop =>
    cases hs
    exact ⟨h.active, h.le⟩
  | loop l act =>
    obtain ⟨loop, hloop, hs⟩ := Option.bind_eq_some_iff.1 hs
    exact accounted_loopStep h hloop hs
  | worker w act =>
    obtain ⟨place, hplace, hs⟩ := Option.bind_eq_some_iff.1 hs
    exact accounted_workerStep h hplace hs

end Accounted

/-! ## What follows for the slots -/

/-- Whether a call has counted a connection that has no entry yet, or will have none. -/
def LoopAt.inAccept : LoopAt → ℕ
  | .counted .. | .refused => 1
  | _ => 0

/-- Whether a worker has counted off a connection whose entry it has not given back. -/
def WorkerAt.leaving : WorkerAt → ℕ
  | .discounted _ => 1
  | _ => 0

namespace ServerState

/-- The number of the entries in use. -/
def inUseCount (s : ServerState) : ℕ := (Finset.univ.filter fun i => (s.pool i).inUse = true).card

def inAccept (s : ServerState) : ℕ := s.total LoopAt.inAccept (fun _ => 0) fun _ => 0

def leaving (s : ServerState) : ℕ := s.total (fun _ => 0) (fun _ => 0) WorkerAt.leaving

/-- The connections that are queued or with a worker. -/
def inFlight (s : ServerState) : Multiset PoolJob :=
  s.total (fun _ => 0) (fun job => {job}) WorkerAt.held

theorem total_add {M : Type*} [AddCommMonoid M] (s : ServerState) (f f' : LoopAt → M)
    (q q' : PoolJob → M) (g g' : WorkerAt → M) :
    s.total f q g + s.total f' q' g' =
      s.total (fun p => f p + f' p) (fun j => q j + q' j) (fun p => g p + g' p) := by
  rw [total, total, total, List.sum_map_add, List.sum_map_add, List.sum_map_add]
  abel

theorem card_held (s : ServerState) : Multiset.card s.held =
    s.total (fun p => Multiset.card p.held) (fun _ => 1) (fun p => Multiset.card p.held) := by
  have hsum : ∀ l : List (Multiset PoolJob), Multiset.card l.sum = (l.map Multiset.card).sum := by
    intro l
    induction l with
    | nil => rfl
    | cons jobs l ih => rw [List.sum_cons, Multiset.card_add, ih, List.map_cons, List.sum_cons]
  rw [held, total, total, Multiset.card_add, Multiset.card_add, hsum, hsum, hsum, List.map_map,
    List.map_map, List.map_map]
  rfl

end ServerState

section

variable {s : ServerState}

theorem card_held_add (s : ServerState) :
    Multiset.card s.held + s.inAccept = s.counts + s.leaving := by
  rw [ServerState.card_held, ServerState.inAccept, ServerState.counts, ServerState.leaving,
    ServerState.total_add, ServerState.total_add]
  congr 1
  · funext p
    cases p <;> rfl
  · funext p
    cases p <;> rfl

theorem Owned.inUseCount (h : Owned s) : s.inUseCount = Multiset.card s.held := by
  have hset : (Finset.univ.filter fun i => (s.pool i).inUse = true) =
      ⟨s.held.map (·.slot), h.nodup⟩ := by
    ext i
    rw [Finset.mem_filter, and_iff_right (Finset.mem_univ i), Finset.mem_mk]
    exact h.inUse i
  rw [ServerState.inUseCount, hset, Finset.card_mk, Multiset.card_map]

theorem mem_held_of_mem_inFlight {job : PoolJob} (h : job ∈ s.inFlight) : job ∈ s.held := by
  rw [ServerState.inFlight, ServerState.total, Multiset.mem_add, Multiset.mem_add] at h
  rw [ServerState.held, ServerState.total, Multiset.mem_add, Multiset.mem_add]
  refine h.imp (Or.imp (fun h => ?_) id) id
  rw [List.map_const', List.sum_replicate, nsmul_zero] at h
  cases Multiset.notMem_zero _ h

end

/-- **What is kept while no entry in use is set to zeros**: there are as many entries in use as
connections are counted, but for those that are on their way in or out, and no connection that is queued
or served loses its entry or its descriptor. -/
structure SlotsKept (s : ServerState) : Prop where
  count : (s.inUseCount : Int) + s.inAccept = s.activeConnections + s.leaving
  notHandedOut : ∀ job ∈ s.inFlight, econnAlloc s.pool ≠ some job.slot
  fd : ∀ job ∈ s.inFlight, (s.pool job.slot).fd = job.fd

theorem slotsKept_of_owned {s : ServerState} (howned : Owned s) (haccounted : Accounted s) :
    SlotsKept s where
  count := by
    have := card_held_add s
    rw [howned.inUseCount, haccounted.active]
    omega
  notHandedOut job hjob hfind := by
    have huse := (howned.inUse job.slot).2
      (Multiset.mem_map_of_mem _ (mem_held_of_mem_inFlight hjob))
    rw [econnAlloc_not_inUse hfind] at huse
    cases huse
  fd job hjob := howned.fd job (mem_held_of_mem_inFlight hjob)

theorem counted_of_reach {s : ServerState} (h : serverMachine.Reach s) : Accounted s := by
  refine h.invariant (I := Accounted) ?_ fun s act t hI _ hs => accounted_of_step hI hs
  rintro s rfl
  exact ⟨rfl, by decide⟩

theorem owned_of_reach {s : ServerState} (h : serverMachine.ReachUnder SparesSlots s) : Owned s := by
  refine h.invariant (I := Owned) ?_ fun s act t hI hspares hs =>
    hI.of_effect (poolEffect_of_step hs) hspares
  rintro s rfl
  exact ⟨Multiset.nodup_zero, fun i => iff_of_false Bool.false_ne_true (Multiset.notMem_zero i),
    fun job hjob => absurd hjob (Multiset.notMem_zero job)⟩

/-- **The count stays between zero and the limit in every run**, and the slots are kept in every run in
which no entry in use is set to zeros. -/
theorem slotsKept_of_reach (s : ServerState) :
    (serverMachine.Reach s → 0 ≤ s.activeConnections ∧ s.activeConnections ≤ maxConnections) ∧
      (serverMachine.ReachUnder SparesSlots s → SlotsKept s) := by
  constructor
  · intro h
    have haccounted := counted_of_reach h
    exact ⟨haccounted.active ▸ Int.natCast_nonneg _, haccounted.le⟩
  · intro h
    exact slotsKept_of_owned (owned_of_reach h)
      (counted_of_reach (h.mono fun _ _ _ => trivial))

/-! ## Where the slots do not match -/

section Orders

variable {C : ServerState → ServerAct → Prop} {running pooled : Bool} {pool : EConnPool} {n : Int}
  {ctx : Option ℕ} {mode : Int} {jobs : List PoolJob} {threads : List WorkerAt}
  {loops : List AcceptLoop}

/-- The first entry. -/
def firstSlot : Fin maxConn := ⟨0, by decide⟩

theorem find?_finRange {n : ℕ} {p : Fin (n + 1) → Bool} (h : p 0 = true) :
    (List.finRange (n + 1)).find? p = some 0 := by
  rw [List.finRange_succ, List.find?_cons_of_pos h]

theorem econnAlloc_first (h : (pool firstSlot).inUse = false) : econnAlloc pool = some firstSlot :=
  find?_finRange (n := 65535) (congrArg not h)

theorem serverStep_loop {s : ServerState} {l : ℕ} {loop : AcceptLoop} {act : LoopAct}
    (h : s.loops[l]? = some loop) : serverStep s (.loop l act) = loopStep s l loop act := by
  rw [serverStep.eq_3, h, Option.bind_some]

theorem loopStep_alloc {s : ServerState} {l : ℕ} {csock : Int} {ip : Option Bytes} {i : Fin maxConn}
    (h : econnAlloc s.pool = some i) :
    loopStep s l ⟨mode, ctx, .counted csock ip⟩ (.alloc true) =
      some (({ s with pooled := true }.setEntry i { s.pool i with inUse := true, fd := -1 }).setLoop l
        ⟨mode, ctx, .counted csock ip⟩ (.allocated csock ip i)) := by
  simp only [loopStep, Bool.or_true, if_true, h]

/-- A call takes a connection and an entry for it. -/
theorem reach_allocated (hC : ∀ s act, clears s act = none → C s act) (hn : n < maxConnections)
    (hfree : (pool firstSlot).inUse = false) (csock : Int) (ip : Option Bytes)
    (h : serverMachine.ReachUnder C
      ⟨running, pooled, pool, n, ⟨mode, ctx, .waiting⟩ :: loops, jobs, threads⟩) :
    serverMachine.ReachUnder C
      ⟨running, true, Function.update pool firstSlot { pool firstSlot with inUse := true, fd := -1 },
        n + 1, ⟨mode, ctx, .allocated csock ip firstSlot⟩ :: loops, jobs, threads⟩ := by
  have haccepted := h.next (a := .loop 0 (.accept csock ip)) (hC _ _ rfl) rfl
  let counted : ServerState :=
    ⟨running, pooled, pool, n + 1, ⟨mode, ctx, .counted csock ip⟩ :: loops, jobs, threads⟩
  have hcounted : serverMachine.ReachUnder C counted := by
    refine haccepted.next (a := .loop 0 .count) (hC _ _ rfl) ?_
    exact (if_neg (not_le.2 hn)).trans rfl
  have halloc : econnAlloc counted.pool = some firstSlot := econnAlloc_first hfree
  have hstep : serverStep counted (.loop 0 (.alloc true)) = _ := serverStep_loop rfl
  rw [loopStep_alloc halloc] at hstep
  exact hcounted.next (a := .loop 0 (.alloc true)) (hC _ _ rfl) hstep

/-- The entry is queued, and the first worker takes it. -/
theorem reach_serving (hC : ∀ s act, clears s act = none → C s act) (csock : Int) (ip : Option Bytes)
    (h : serverMachine.ReachUnder C ⟨running, pooled, pool, n,
      ⟨mode, ctx, .allocated csock ip firstSlot⟩ :: loops, [], .idle :: threads⟩) :
    ∃ pool', serverMachine.ReachUnder C ⟨running, pooled, pool', n, ⟨mode, ctx, .waiting⟩ :: loops, [],
      .serving ⟨firstSlot, csock⟩ :: threads⟩ := by
  have hfilled := h.next (a := .loop 0 .fill) (hC _ _ rfl) rfl
  have hpushed := hfilled.next (a := .loop 0 .push) (hC _ _ rfl) rfl
  exact ⟨_, hpushed.next (a := .worker 0 .pop) (hC _ _ rfl) rfl⟩

/-- `memset`, from an entry on. -/
theorem reach_cleared (k : ℕ) (hk : k < maxConn) {pool : EConnPool}
    (hbefore : ∀ i : Fin maxConn, i.val < k → pool i = .zero)
    (h : serverMachine.Reach
      ⟨running, pooled, pool, n, [⟨mode, ctx, .clearing ⟨k, hk⟩⟩], jobs, threads⟩) :
    serverMachine.Reach
      ⟨running, pooled, fun _ => .zero, n, [⟨mode, ctx, .waiting⟩], jobs, threads⟩ := by
  have hclear := h.next (a := .loop 0 .clear) trivial rfl
  have hset : ∀ i : Fin maxConn, i.val < k + 1 →
      Function.update pool ⟨k, hk⟩ EConn.zero i = .zero := by
    intro i hi
    by_cases heq : i = ⟨k, hk⟩
    · rw [heq, Function.update_self]
    · rw [Function.update_of_ne heq]
      have hne := Fin.val_ne_of_ne heq
      dsimp only at hne
      exact hbefore i (by omega)
  simp only [ServerState.setLoop, ServerState.setEntry, List.set_cons_zero] at hclear
  split at hclear
  · rename_i hnext
    exact reach_cleared (k + 1) hnext hset hclear
  · rename_i hlast
    have hall : Function.update pool ⟨k, hk⟩ EConn.zero = fun _ => .zero :=
      funext fun i => hset i (by omega)
    rwa [hall] at hclear
termination_by maxConn - k

/-- The run to a connection that is being served. -/
theorem reach_firstServing (hC : ∀ s act, clears s act = none → C s act) :
    ∃ pool, serverMachine.ReachUnder C ⟨true, true, pool, 1, [⟨0, none, .waiting⟩], [],
      .serving ⟨firstSlot, 5⟩ :: List.replicate (poolSize - 1) .idle⟩ := by
  have hstart : serverMachine.ReachUnder C ⟨true, false, fun _ => .zero, 0, [⟨0, none, .waiting⟩], [],
      .idle :: List.replicate (poolSize - 1) .idle⟩ :=
    .next (.start rfl) (a := .serverStart 0 none) (hC _ _ rfl) rfl
  exact reach_serving hC 5 none (reach_allocated hC (by decide) rfl 5 none hstart)

/-- A second call starts to set the entries to zeros, and a new connection takes the first one behind it. -/
theorem slotsKept_of_reach_restart : ∃ s, serverMachine.Reach s ∧ s.loops.length = 2 ∧
    ⟨firstSlot, 6⟩ ∈ s.inFlight ∧ 0 ≤ s.activeConnections ∧ s.activeConnections ≤ maxConnections ∧
      SlotsKept s := by
  have hC : ∀ s act, clears s act = none → SparesSlots s act := fun s act hact k hk => by
    rw [hact] at hk
    cases hk
  obtain ⟨pool, hserving⟩ := reach_firstServing hC
  have hclosed := hserving.next (a := .worker 0 .close) (hC _ _ rfl) rfl
  have hleft := hclosed.next (a := .worker 0 .discount) (hC _ _ rfl) rfl
  let freed : EConnPool := Function.update pool firstSlot { pool firstSlot with inUse := false }
  have hfreed : serverMachine.ReachUnder SparesSlots ⟨true, true, freed, 0, [⟨0, none, .waiting⟩], [],
      .idle :: List.replicate (poolSize - 1) .idle⟩ :=
    hleft.next (a := .worker 0 .free) (hC _ _ rfl) rfl
  have hstarted : serverMachine.ReachUnder SparesSlots ⟨true, true, freed, 0,
      [⟨0, none, .waiting⟩, ⟨1, none, .clearing firstSlot⟩], [],
      .idle :: List.replicate (poolSize - 1) .idle⟩ :=
    hfreed.next (a := .serverStart 1 none) (hC _ _ rfl) rfl
  have hspares : (freed firstSlot).inUse = false :=
    congrArg EConn.inUse (Function.update_self firstSlot _ pool)
  have hcleared : serverMachine.ReachUnder SparesSlots ⟨true, true,
      Function.update freed firstSlot .zero, 0,
      [⟨0, none, .waiting⟩, ⟨1, none, .clearing ⟨1, by decide⟩⟩], [],
      .idle :: List.replicate (poolSize - 1) .idle⟩ := by
    refine hstarted.next (a := .loop 1 .clear) ?_ rfl
    rintro k ⟨⟩
    exact hspares
  have hfree : (Function.update freed firstSlot .zero firstSlot).inUse = false :=
    congrArg EConn.inUse (Function.update_self firstSlot EConn.zero freed)
  have hallocated := reach_allocated hC (by decide) hfree 6 none hcleared
  obtain ⟨pool', hagain⟩ := reach_serving hC 6 none hallocated
  have hreach := hagain.mono fun _ _ _ => trivial
  obtain ⟨hcount, hkept⟩ := slotsKept_of_reach _
  exact ⟨_, hreach, rfl, by simp [ServerState.inFlight, ServerState.total, WorkerAt.held],
    (hcount hreach).1, (hcount hreach).2, hkept hagain⟩

end Orders

/-- The worker of a connection counts it off and holds its entry on: one entry is in use, none is counted.
And when the server is stopped and started while the connection is served, its entry is handed out
again. -/
theorem not_slotsMatch :
    (¬ ∀ s, serverMachine.Reach s →
      ∃ d ≤ s.inAccept, (s.inUseCount : Int) + d = s.activeConnections) ∧
    ¬ ∀ s, serverMachine.Reach s → ∀ job ∈ s.inFlight, ∀ loop ∈ s.loops, ∀ csock ip,
      loop.place ≠ .allocated csock ip job.slot := by
  constructor
  · intro hall
    obtain ⟨pool, hserving⟩ := reach_firstServing (C := SparesSlots)
      fun s act hact k hk => by rw [hact] at hk; cases hk
    have hclosed := hserving.next (a := .worker 0 .close) (fun k hk => by cases hk) rfl
    have hleft := hclosed.next (a := .worker 0 .discount) (fun k hk => by cases hk) rfl
    have hcount := (slotsKept_of_owned (owned_of_reach hleft)
      (counted_of_reach (hleft.mono fun _ _ _ => trivial))).count
    obtain ⟨d, -, hd⟩ := hall _ (hleft.mono fun _ _ _ => trivial)
    simp only [ServerState.inAccept, ServerState.leaving, ServerState.total, ServerState.setWorker,
      List.set_cons_zero, List.map_cons, List.map_nil, List.map_replicate, List.sum_cons,
      List.sum_nil, List.sum_replicate, LoopAt.inAccept, WorkerAt.leaving, nsmul_zero] at hcount hd
    omega
  · intro hall
    obtain ⟨pool, hserving⟩ := reach_firstServing (C := fun _ _ => True) fun _ _ _ => trivial
    have hstopped := hserving.next (a := .serverStop) trivial rfl
    have hleft := hstopped.next (a := .loop 0 (.leave false)) trivial rfl
    have hstarted := hleft.next (a := .serverStart 0 none) trivial rfl
    have hcleared := reach_cleared 0 (Nat.zero_lt_succ _) (fun i hi => absurd hi (Nat.not_lt_zero _)) hstarted
    have hroom : (1 : Int) < maxConnections := by decide
    have hallocated := reach_allocated (fun _ _ _ => trivial) hroom rfl 6 none hcleared
    refine hall _ hallocated ⟨firstSlot, 5⟩ ?_ _ (List.mem_singleton_self _) 6 none rfl
    simp [ServerState.inFlight, ServerState.total, WorkerAt.held]

end Server
end Arws

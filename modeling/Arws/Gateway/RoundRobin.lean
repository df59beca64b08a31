import Arws.Router.Route
import Arws.Upstream.Pool

/-!
# Round robin counters

`arws_route_match` takes the candidate at `rr_counter % candidate_count` and `select_rr_locked` looks
at the node at `rr_index % node_count`.  Both counters are of type `int` and count on for as long as
the gateway runs; behind `INT_MAX` they go on from `INT_MIN`, and the remainder of a negative number
is not positive.

`inRange_iff_fits` — the index is in range exactly if the counter is not negative where it is used, or
is a multiple of the number of entries.
-/

set_option autoImplicit false

namespace Arws
namespace Gateway
namespace RoundRobin

open CString Router Server Upstream

/-- The index that a counter gives among so many entries, when it has counted so far. -/
def indexOf (counter : Int) (count : Nat) : Int := (toInt counter).tmod count

def InRange (counter : Int) (count : Nat) : Prop :=
  0 ≤ indexOf counter count ∧ indexOf counter count < count

/-- The `int` that the counter has wrapped to is not negative, or a multiple of the number. -/
def Fits (counter : Int) (count : Nat) : Prop := 0 ≤ toInt counter ∨ (count : Int) ∣ toInt counter

/-- A counter that has not wrapped fits. -/
theorem fits_of_lt {counter : Int} (h : 0 ≤ counter) (hlt : counter < 2 ^ 31) (count : Nat) :
    Fits counter count := by
  left
  rw [toInt]
  omega

theorem inRange_of_fits {counter : Int} {count : Nat} (hcount : 0 < count) (h : Fits counter count) :
    InRange counter count := by
  refine ⟨?_, Int.tmod_lt_of_pos _ (Int.natCast_pos.2 hcount)⟩
  obtain h | h := h
  · exact Int.tmod_nonneg _ h
  · rw [indexOf, Int.tmod_eq_zero_of_dvd h]

theorem fits_of_nonneg {counter : Int} {count : Nat} (hcount : 0 < count)
    (h : 0 ≤ indexOf counter count) : Fits counter count :=
  (tmod_nonneg_cases (Int.natCast_pos.2 hcount) h).1

/-! ## The router -/

/-- A call of `arws_route_match`, with the table as it is then. -/
structure MatchCall where
  table : RouteTable
  req : HttpRequest
  effectiveMode : Bytes

/-- `candidate_count`. -/
def MatchCall.count (call : MatchCall) : Nat :=
  (call.table.candidates call.req call.effectiveMode).length

/-- `rr_counter` behind the call. -/
def MatchCall.next (rrCounter : Int) (call : MatchCall) : Int :=
  if call.count = 0 then rrCounter else rrCounter + 1

/-- `rr_counter` behind the calls since the gateway was started. -/
def rrCounterAfter (calls : List MatchCall) : Int := calls.foldl MatchCall.next 0

/-- The code counts on and takes the candidate at the index, or the index is out of range. -/
theorem arwsRouteMatch_eq (call : MatchCall) (rrCounter : Int) :
    arwsRouteMatch call.table rrCounter call.req call.effectiveMode =
      if call.count = 0 then some (call.next rrCounter, none)
      else if indexOf rrCounter call.count < 0 then none
      else some (call.next rrCounter, (call.table.candidates call.req call.effectiveMode)[
        (indexOf rrCounter call.count).toNat]?) := by
  rw [arwsRouteMatch, MatchCall.next]
  simp only [MatchCall.count, List.length_eq_zero_iff]
  split
  · rfl
  · rfl

/-! ## The pools -/

/-- A call of `select_rr_locked`, with the nodes as they are then. -/
structure SelectCall where
  nodes : List ArwsBackendNode
  useBackup : Int

/-- The values of `rr_index` that the loop uses, one for each attempt; it ends where a node is found,
or looked for out of range. -/
def usedCounters (nodes : List ArwsBackendNode) (useBackup : Int) : Nat → Int → List Int
  | 0, _ => []
  | attempts + 1, rrIndex =>
    rrIndex ::
      if indexOf rrIndex nodes.length < 0 then []
      else if nodes[(indexOf rrIndex nodes.length).toNat]?.any (·.eligible useBackup) then []
      else usedCounters nodes useBackup attempts (rrIndex + 1)

def SelectCall.used (call : SelectCall) (rrIndex : Int) : List Int :=
  usedCounters call.nodes call.useBackup call.nodes.length rrIndex

def SelectCall.next (rrIndex : Int) (call : SelectCall) : Int :=
  rrIndex + (call.used rrIndex).length

/-- `rr_index` behind the calls since the pool was made. -/
def rrIndexAfter (calls : List SelectCall) : Int := calls.foldl SelectCall.next 0

/-- The loop of the code uses these values: it counts on behind each of them, unless an index is out
of range. -/
theorem rrLoop_used (nodes : List ArwsBackendNode) (useBackup : Int) (attempts : Nat) (rrIndex : Int) :
    (rrLoop nodes useBackup attempts rrIndex).map (·.1) =
      if ∀ c ∈ usedCounters nodes useBackup attempts rrIndex, 0 ≤ indexOf c nodes.length then
        some (rrIndex + (usedCounters nodes useBackup attempts rrIndex).length)
      else none := by
  induction attempts generalizing rrIndex with
  | zero => simp [rrLoop, usedCounters]
  | succ attempts ih =>
    simp only [rrLoop, usedCounters, ← indexOf.eq_1, List.forall_mem_cons]
    by_cases hneg : indexOf rrIndex nodes.length < 0
    · have hnot : ¬ 0 ≤ indexOf rrIndex nodes.length := Int.not_le.2 hneg
      simp only [hneg, hnot, if_true, false_and, if_false, Option.map_none]
    · have hnonneg := Int.not_lt.1 hneg
      simp only [hneg, hnonneg, if_false, true_and]
      split
      · simp
      · have hsum : ∀ n : Nat, rrIndex + ((n + 1 : Nat) : Int) = rrIndex + 1 + n := fun n => by omega
        rw [ih, List.length_cons, hsum]

theorem pos_of_mem_used {call : SelectCall} {rrIndex c : Int} (h : c ∈ call.used rrIndex) :
    0 < call.nodes.length := by
  refine Nat.pos_of_ne_zero fun hzero => ?_
  rw [SelectCall.used, hzero] at h
  cases h

/-! ## Out of range -/

theorem rrCounterAfter_replicate {call : MatchCall} (h : call.count ≠ 0) (n : Nat) :
    rrCounterAfter (List.replicate n call) = n := by
  induction n with
  | zero => rfl
  | succ n ih =>
    rw [List.replicate_succ', rrCounterAfter, List.foldl_append, ← rrCounterAfter, ih]
    exact (if_neg h).trans (Int.natCast_succ n).symm

/-- **An index is in range exactly if its counter fits**: the index of a match, behind any calls of
`arws_route_match`, and every index that `select_rr_locked` uses, behind any calls of it. -/
theorem inRange_iff_fits (earlier : List MatchCall) (call : MatchCall) (selects : List SelectCall)
    (select : SelectCall) :
    (call.count ≠ 0 →
      (InRange (rrCounterAfter earlier) call.count ↔ Fits (rrCounterAfter earlier) call.count)) ∧
    ∀ c ∈ select.used (rrIndexAfter selects),
      (InRange c select.nodes.length ↔ Fits c select.nodes.length) := by
  refine ⟨fun hcount => ?_, fun c hc => ?_⟩
  · have hpos := Nat.pos_of_ne_zero hcount
    exact ⟨fun h => fits_of_nonneg hpos h.1, inRange_of_fits hpos⟩
  · have hpos := pos_of_mem_used hc
    exact ⟨fun h => fits_of_nonneg hpos h.1, inRange_of_fits hpos⟩

/-- A route for every method and path. -/
private def everyRoute : ArwsRoute := { ArwsRoute.zero with method := .ofString 15 [42] }

/-- A request, and a table with three routes for it. -/
private def threeRoutes : MatchCall :=
  ⟨(((RouteTable.insert fun _ => []) 0 everyRoute).insert 0 everyRoute).insert 0 everyRoute,
    ⟨ascii "GET", ascii "/", none, [], [], [], [], 0⟩, ascii "test"⟩

private theorem count_threeRoutes : threeRoutes.count = 3 := by
  have hempty : RouteTable.routes (fun _ => []) = [] := List.flatMap_eq_nil_iff.2 fun _ _ => rfl
  have hroutes : threeRoutes.table.routes = List.replicate 3 everyRoute := by
    refine List.perm_replicate.1 ((routes_insert _ _ _).trans (List.Perm.cons _ ?_))
    refine (routes_insert _ _ _).trans (List.Perm.cons _ ?_)
    exact (routes_insert _ _ _).trans (List.Perm.cons _ (by rw [hempty]; exact .nil))
  rw [MatchCall.count, RouteTable.candidates, hroutes]
  decide

/-- The first request, and the first connection to a node. -/
theorem inRange_first : InRange (rrCounterAfter []) threeRoutes.count ∧
    InRange 0 [addedNode (ascii "a") 80 1 0].length := by
  obtain ⟨hmatch, hselect⟩ :=
    inRange_iff_fits [] threeRoutes [] ⟨[addedNode (ascii "a") 80 1 0], 0⟩
  have hcount : threeRoutes.count ≠ 0 := by rw [count_threeRoutes]; decide
  have hused : (0 : Int) ∈ SelectCall.used ⟨[addedNode (ascii "a") 80 1 0], 0⟩ (rrIndexAfter []) := by
    decide
  exact ⟨(hmatch hcount).2 (fits_of_lt (Int.le_refl 0) (by decide) _),
    (hselect 0 hused).2 (fits_of_lt (Int.le_refl 0) (by decide) _)⟩

/-- **Behind as many requests as an `int` can count the index is out of range.** -/
theorem not_inRange : ¬ ∀ (earlier : List MatchCall) (call : MatchCall), call.count ≠ 0 →
    InRange (rrCounterAfter earlier) call.count := by
  intro h
  have hcount := count_threeRoutes
  have hne : threeRoutes.count ≠ 0 := by rw [hcount]; decide
  have hrange := h (List.replicate (2 ^ 31) threeRoutes) threeRoutes hne
  rw [rrCounterAfter_replicate hne, hcount] at hrange
  exact absurd hrange.1 (by decide)

end RoundRobin
end Gateway
end Arws

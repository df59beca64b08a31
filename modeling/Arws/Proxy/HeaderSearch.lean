import Arws.Proxy.StreamProxy

/-!
# The search for the end of the header block

The loop at the beginning of the relay reads until the buffer has an empty line.  Behind each `recv` it looks
only from three bytes before what is new.

* `headerLoop_exact` — what it finds is what a search of all bytes would find, in every run: the loop ends
  with the first read that completes the block, or with a full buffer that has none.
* `recv_head` — the head of the relay is this loop.
-/

set_option autoImplicit false

namespace Arws
namespace Proxy

open CString

/-! ## The loop -/

/-- The comparison in the inner loop. -/
def blockEnds (buf : Bytes) (i : ℕ) : Bool :=
  buf[i]? == some cr && buf[i + 1]? == some lf && buf[i + 2]? == some cr && buf[i + 3]? == some lf

/-- The inner loop from a place on: `header_end` if it is set, and -1 if it is not. -/
def searchFrom (buf : Bytes) (i : ℕ) : Int :=
  if i < buf.length - 3 then
    if blockEnds buf i then i + 4 else searchFrom buf (i + 1)
  else -1
termination_by buf.length - i

structure HeaderLoop where
  /-- The first `total` bytes of `resp_buf`. -/
  buf : Bytes
  headerEnd : Int
  /-- The loop is left. -/
  left : Bool
  deriving DecidableEq

/-- A turn of the loop, for what `recv` returns: nothing for an error, a timeout or the end. -/
def HeaderLoop.turn (s : HeaderLoop) : Option Bytes → HeaderLoop
  | none => { s with left := true }
  | some data =>
    let newly := s.buf.length
    let buf := s.buf ++ data
    let found := searchFrom buf (if newly > 3 then newly - 3 else 0)
    let headerEnd := if found ≥ 0 then found else s.headerEnd
    ⟨buf, headerEnd, decide (headerEnd ≥ 0) || decide (arwsStreamBufSize ≤ buf.length)⟩

def HeaderLoop.start : HeaderLoop := ⟨[], -1, false⟩

def headerLoop : Machine HeaderLoop (Option Bytes) where
  init s := s = .start
  step s data :=
    if s.left = false ∧ ∀ d ∈ data, d ≠ [] ∧ d.length ≤ arwsStreamBufSize - s.buf.length then
      some (s.turn data)
    else none

/-! ## What is looked for -/

/-- `header_end` is the offset behind the first CR LF CR LF, or -1 where there is none. -/
def IsHeaderEnd (buf : Bytes) (headerEnd : Int) : Prop :=
  ((∀ i, ¬ crlfcrlf <+: buf.drop i) ∧ headerEnd = -1) ∨
    ∃ i, crlfcrlf <+: buf.drop i ∧ (∀ j < i, ¬ crlfcrlf <+: buf.drop j) ∧ headerEnd = i + 4

variable {buf data : Bytes} {i : ℕ}

theorem cons_isPrefix_drop {c : UInt8} {p : Bytes} :
    c :: p <+: buf.drop i ↔ buf[i]? = some c ∧ p <+: buf.drop (i + 1) := by
  rw [← List.tail_drop, ← List.head?_drop]
  cases buf.drop i with
  | nil => simp
  | cons d s => rw [List.cons_prefix_cons, List.head?_cons, Option.some_inj, List.tail_cons, eq_comm]

/-- The comparison finds an empty line. -/
theorem blockEnds_iff : blockEnds buf i = true ↔ crlfcrlf <+: buf.drop i := by
  simp only [crlfcrlf, cons_isPrefix_drop, List.nil_prefix, and_true, blockEnds, Bool.and_eq_true,
    beq_iff_eq, and_assoc]

/-- An empty line has its bytes in the buffer. -/
theorem lt_of_isPrefix (h : crlfcrlf <+: buf.drop i) : i + 3 < buf.length := by
  have hlen := h.length_le
  rw [List.length_drop] at hlen
  simp only [crlfcrlf, List.length_cons, List.length_nil] at hlen
  omega

/-- **What the inner loop finds**: the first empty line from its place on. -/
theorem searchFrom_cases (buf : Bytes) (i : ℕ) :
    ((∀ j, i ≤ j → ¬ crlfcrlf <+: buf.drop j) ∧ searchFrom buf i = -1) ∨
      ∃ j, i ≤ j ∧ crlfcrlf <+: buf.drop j ∧ (∀ k, i ≤ k → k < j → ¬ crlfcrlf <+: buf.drop k) ∧
        searchFrom buf i = j + 4 := by
  induction i using searchFrom.induct buf with
  | case1 i hlt hends =>
    rw [searchFrom, if_pos hlt, if_pos hends]
    exact Or.inr ⟨i, le_rfl, blockEnds_iff.1 hends, fun k hik hki => absurd hik (Nat.not_le.2 hki), rfl⟩
  | case2 i hlt hends ih =>
    have hhere : ¬ crlfcrlf <+: buf.drop i := fun h => hends (blockEnds_iff.2 h)
    have hfrom : ∀ k, i ≤ k → k = i ∨ i + 1 ≤ k := fun k hk => by omega
    rw [searchFrom, if_pos hlt, if_neg hends]
    refine ih.imp ?_ ?_
    · rintro ⟨hnone, hfound⟩
      refine ⟨fun j hj => ?_, hfound⟩
      rcases hfrom j hj with rfl | hj
      · exact hhere
      · exact hnone j hj
    · rintro ⟨j, hij, hj, hbefore, hfound⟩
      refine ⟨j, Nat.le_of_succ_le hij, hj, fun k hk hkj => ?_, hfound⟩
      rcases hfrom k hk with rfl | hk
      · exact hhere
      · exact hbefore k hk hkj
  | case3 i hend =>
    rw [searchFrom, if_neg hend]
    refine Or.inl ⟨fun j hj hends => ?_, rfl⟩
    have := lt_of_isPrefix hends
    omega

/-- An empty line that was not there before ends in what is new. -/
theorem le_of_isPrefix_append (hnone : ∀ j, ¬ crlfcrlf <+: buf.drop j)
    (h : crlfcrlf <+: (buf ++ data).drop i) : buf.length - 3 ≤ i := by
  by_contra hlt
  refine hnone i ?_
  rw [List.drop_append_of_le_length (by omega)] at h
  refine List.prefix_of_prefix_length_le h (List.prefix_append _ _) ?_
  rw [List.length_drop]
  simp only [crlfcrlf, List.length_cons, List.length_nil]
  omega

/-- **The search from three bytes before what is new** finds what a search of all bytes finds. -/
theorem isHeaderEnd_searchFrom (hnone : ∀ j, ¬ crlfcrlf <+: buf.drop j) (data : Bytes) :
    IsHeaderEnd (buf ++ data) (searchFrom (buf ++ data) (buf.length - 3)) := by
  refine (searchFrom_cases (buf ++ data) (buf.length - 3)).imp ?_ ?_
  · rintro ⟨hall, hfound⟩
    exact ⟨fun j hj => hall j (le_of_isPrefix_append hnone hj) hj, hfound⟩
  · rintro ⟨j, -, hj, hbefore, hfound⟩
    exact ⟨j, hj, fun k hk hends => hbefore k (le_of_isPrefix_append hnone hends) hk hends, hfound⟩

theorem IsHeaderEnd.nonneg_iff {headerEnd : Int} (h : IsHeaderEnd buf headerEnd) :
    0 ≤ headerEnd ↔ ∃ i, crlfcrlf <+: buf.drop i := by
  obtain ⟨hnone, rfl⟩ | ⟨i, hi, -, rfl⟩ := h
  · exact iff_of_false (by decide) fun ⟨i, hi⟩ => hnone i hi
  · exact iff_of_true (by omega) ⟨i, hi⟩

/-! ## All runs -/

variable {s t : HeaderLoop}

/-- What the loop has between its turns. -/
structure HeaderLoop.Kept (s : HeaderLoop) : Prop where
  right : IsHeaderEnd s.buf s.headerEnd
  searching : s.left = false → s.headerEnd = -1 ∧ ∀ i, ¬ crlfcrlf <+: s.buf.drop i

theorem HeaderLoop.kept_start : HeaderLoop.start.Kept := by
  have hnone : ∀ i, ¬ crlfcrlf <+: ([] : Bytes).drop i := by
    intro i h
    have := lt_of_isPrefix h
    rw [List.length_nil] at this
    omega
  exact ⟨Or.inl ⟨hnone, rfl⟩, fun _ => ⟨rfl, hnone⟩⟩

/-- What a turn with new bytes does, while the loop has found nothing. -/
theorem HeaderLoop.turn_some (hend : s.headerEnd = -1) (data : Bytes) : s.turn (some data) =
    ⟨s.buf ++ data, searchFrom (s.buf ++ data) (s.buf.length - 3),
      decide (0 ≤ searchFrom (s.buf ++ data) (s.buf.length - 3)) ||
        decide (arwsStreamBufSize ≤ (s.buf ++ data).length)⟩ := by
  have hfrom : (if s.buf.length > 3 then s.buf.length - 3 else 0) = s.buf.length - 3 := by
    split_ifs <;> omega
  have hfound : (if searchFrom (s.buf ++ data) (s.buf.length - 3) ≥ 0 then
      searchFrom (s.buf ++ data) (s.buf.length - 3) else s.headerEnd) =
      searchFrom (s.buf ++ data) (s.buf.length - 3) := by
    rw [hend]
    obtain ⟨-, hnone⟩ | ⟨j, -, -, -, hj⟩ := searchFrom_cases (s.buf ++ data) (s.buf.length - 3)
    · rw [hnone]
      rfl
    · exact if_pos (by omega)
  simp only [HeaderLoop.turn, hfrom, hfound]

theorem headerLoop_step {data : Option Bytes} (hleft : s.left = false)
    (hdata : ∀ d ∈ data, d ≠ [] ∧ d.length ≤ arwsStreamBufSize - s.buf.length) :
    headerLoop.step s data = some (s.turn data) := if_pos ⟨hleft, hdata⟩

theorem HeaderLoop.Kept.step (h : s.Kept) {data : Option Bytes} (hs : headerLoop.step s data = some t) :
    t.Kept := by
  obtain ⟨⟨hleft, -⟩, hs⟩ := Option.ite_none_right_eq_some.1 hs
  obtain rfl := Option.some.inj hs
  obtain ⟨hend, hnone⟩ := h.searching hleft
  cases data with
  | none => exact ⟨h.right, fun hmore => by cases hmore⟩
  | some data =>
    rw [HeaderLoop.turn_some hend]
    have hright := isHeaderEnd_searchFrom hnone data
    refine ⟨hright, fun hmore => ?_⟩
    have hneg := decide_eq_false_iff_not.1 (Bool.or_eq_false_iff.1 hmore).1
    obtain hnone' | ⟨i, -, -, hi⟩ := hright
    · exact hnone'.symm
    · exact absurd (by rw [hi]; omega) hneg

/-- **The search is exact**: behind each turn `header_end` is the offset behind the first CR LF CR LF of
all bytes received, or -1; the loop goes on only where there is none, and it ends with the read that completes
the block, or fills the buffer. -/
theorem headerLoop_exact (h : headerLoop.Reach s) : IsHeaderEnd s.buf s.headerEnd ∧
    ∀ data t, headerLoop.step s (some data) = some t →
      t.buf = s.buf ++ data ∧ (∀ i, ¬ crlfcrlf <+: s.buf.drop i) ∧
        (t.left = true ↔
          (∃ i, crlfcrlf <+: t.buf.drop i) ∨ t.buf.length = arwsStreamBufSize) := by
  have hkept : s.Kept := h.invariant (fun s hs => by cases hs; exact HeaderLoop.kept_start)
    fun _ _ _ hk _ hs => hk.step hs
  refine ⟨hkept.right, fun data t hs => ?_⟩
  obtain ⟨⟨hleft, hdata⟩, hs⟩ := Option.ite_none_right_eq_some.1 hs
  obtain rfl := Option.some.inj hs
  obtain ⟨hend, hnone⟩ := hkept.searching hleft
  have hright := isHeaderEnd_searchFrom hnone data
  obtain ⟨hne, hroom⟩ := hdata data rfl
  have hpos := List.length_pos_iff.2 hne
  rw [HeaderLoop.turn_some hend]
  refine ⟨rfl, hnone, ?_⟩
  simp only [Bool.or_eq_true, decide_eq_true_eq]
  refine or_congr hright.nonneg_iff ?_
  rw [List.length_append]
  omega

/-- The empty line comes in two reads, cut before its last byte. -/
theorem headerLoop_exact_cut : ∃ s, headerLoop.Reach s ∧ s.buf = [104, 13, 10, 13] ∧ s.left = false ∧
    IsHeaderEnd s.buf s.headerEnd ∧
    ∀ data t, headerLoop.step s (some data) = some t →
      t.buf = s.buf ++ data ∧ (∀ i, ¬ crlfcrlf <+: s.buf.drop i) ∧
        (t.left = true ↔
          (∃ i, crlfcrlf <+: t.buf.drop i) ∨ t.buf.length = arwsStreamBufSize) := by
  have hturn : HeaderLoop.start.turn (some [104, 13, 10, 13]) = ⟨[104, 13, 10, 13], -1, false⟩ := by
    rw [HeaderLoop.turn_some rfl]
    simp [HeaderLoop.start, searchFrom, blockEnds, arwsStreamBufSize, cr, lf]
  have hstep : headerLoop.step .start (some [104, 13, 10, 13]) = some ⟨[104, 13, 10, 13], -1, false⟩ := by
    rw [← hturn]
    exact headerLoop_step rfl (by simp [HeaderLoop.start, arwsStreamBufSize])
  have hreach : headerLoop.Reach ⟨[104, 13, 10, 13], -1, false⟩ := .next (.start rfl) trivial hstep
  have hexact := headerLoop_exact hreach
  exact ⟨_, hreach, rfl, rfl, hexact.1, hexact.2⟩

/-! ## The head of the relay -/

/-- The inner loop is a search for the string in the rest of the buffer. -/
theorem searchFrom_eq (buf : Bytes) (i : ℕ) :
    searchFrom buf i = ((strstr crlfcrlf (buf.drop i)).map (· + i + 4)).elim (-1) (↑·) := by
  obtain ⟨hnone, hfound⟩ | ⟨j, hij, hj, hbefore, hfound⟩ := searchFrom_cases buf i
  · cases hstr : strstr crlfcrlf (buf.drop i) with
    | none => exact hfound
    | some k =>
      have hk := (strstr_eq_some_iff.1 hstr).2.1
      rw [List.drop_drop] at hk
      exact absurd hk (hnone (i + k) (Nat.le_add_right i k))
  · obtain ⟨k, rfl⟩ := Nat.exists_eq_add_of_le hij
    have hlt := lt_of_isPrefix hj
    have hstr : strstr crlfcrlf (buf.drop i) = some k := by
      refine strstr_eq_some_iff.2 ⟨?_, ?_, fun l hl hp => ?_⟩
      · rw [List.length_drop]
        omega
      · rwa [List.drop_drop]
      · rw [List.drop_drop] at hp
        exact hbefore (i + l) (Nat.le_add_right i l) (Nat.add_lt_add_left hl i) hp
    rw [hfound, hstr]
    simp only [Option.map_some, Option.elim_some]
    omega

/-- **A turn of the loop is what the relay does with what it receives** while it reads the header block. -/
theorem recv_head (hhead : s.headerEnd = -1) (data : Bytes) {r : RelayState} (hr : r.phase = .head s.buf) :
    (r.recv (some data)).phase =
      if 0 ≤ (s.turn (some data)).headerEnd then
        .first (s.turn (some data)).buf (s.turn (some data)).headerEnd.toNat
      else if (s.turn (some data)).left then .refused else .head (s.turn (some data)).buf := by
  rw [HeaderLoop.turn_some hhead, RelayState.recv, hr]
  have hfound := searchFrom_eq (s.buf ++ data) (s.buf.length - 3)
  simp only [searchHeaderEnd]
  cases hstr : strstr crlfcrlf ((s.buf ++ data).drop (s.buf.length - 3)) with
  | some k =>
    rw [hstr, Option.map_some, Option.elim_some] at hfound
    have hpos : 0 ≤ searchFrom (s.buf ++ data) (s.buf.length - 3) := by
      rw [hfound]
      exact Int.natCast_nonneg _
    simp only [Option.map_some]
    rw [if_pos hpos, hfound, Int.toNat_natCast]
  | none =>
    rw [hstr, Option.map_none, Option.elim_none] at hfound
    have hneg : ¬ 0 ≤ searchFrom (s.buf ++ data) (s.buf.length - 3) := by
      rw [hfound]
      decide
    simp only [Option.map_none]
    rw [if_neg hneg, decide_eq_false hneg, Bool.false_or]
    by_cases hroom : (s.buf ++ data).length < arwsStreamBufSize
    · rw [if_pos hroom, decide_eq_false (Nat.not_le.2 hroom), if_neg (by decide)]
    · rw [if_neg hroom, decide_eq_true (Nat.le_of_not_lt hroom), if_pos rfl]

end Proxy
end Arws

import Arws.Library.HttpMessage

/-!
# Header blocks

A header block is made of lines, none of them empty and none with a CR or an LF in it, each ended by a
CR LF, and of an empty line behind them.

* `wellFormed_append_iff` — lines are well-formed if and only if those up to a line end and those behind
  it are.
* `IsHeaderBlock.eq_of_isPrefix` — no block begins another one.
* `pieces` — the lines seen by a reader that takes a bare CR or LF for a line end.
* `length_pieces_line` — it sees one in a line if and only if there is none of them in it.
-/

set_option autoImplicit false

namespace Http

open CString

/-- A text without line ends. -/
def OneLine (s : Bytes) : Prop := ∀ c ∈ s, c ≠ cr ∧ c ≠ lf

/-- A line of a header block. -/
def IsLine (s : Bytes) : Prop := s ≠ [] ∧ OneLine s

/-- Lines of a header block, each ended by a CR LF. -/
def WellFormed (s : Bytes) : Prop := ∃ lines, (∀ l ∈ lines, IsLine l) ∧ s = block lines

/-- A header block, complete with its empty line. -/
def IsHeaderBlock (s : Bytes) : Prop :=
  ∃ lines, lines ≠ [] ∧ (∀ l ∈ lines, IsLine l) ∧ s = block lines ++ crlf

instance (s : Bytes) : Decidable (OneLine s) :=
  inferInstanceAs (Decidable (∀ c ∈ s, c ≠ cr ∧ c ≠ lf))

instance (s : Bytes) : Decidable (IsLine s) := inferInstanceAs (Decidable (_ ∧ _))

variable {s t u x line : Bytes} {lines : List Bytes}

theorem oneLine_append : OneLine (s ++ t) ↔ OneLine s ∧ OneLine t := List.forall_mem_append

theorem OneLine.not_crlf (h : OneLine s) : ¬ crlf <:+: s := fun hi =>
  (h cr (hi.subset (List.mem_cons_self ..))).1 rfl

theorem OneLine.sublist (h : OneLine t) (hs : s.Sublist t) : OneLine s := fun c hc =>
  h c (hs.subset hc)

/-! ## Lines -/

theorem block_append (a b : List Bytes) : block (a ++ b) = block a ++ block b := List.flatMap_append

theorem splitLines_ne_nil (s : Bytes) : splitLines s ≠ [] := fun h => by
  have hblock := block_splitLines s
  rw [h] at hblock
  simp [block, crlf] at hblock

theorem wellFormed_nil : WellFormed [] := ⟨[], fun _ h => absurd h List.not_mem_nil, rfl⟩

theorem WellFormed.append (hs : WellFormed s) (ht : WellFormed t) : WellFormed (s ++ t) := by
  obtain ⟨a, ha, rfl⟩ := hs
  obtain ⟨b, hb, rfl⟩ := ht
  exact ⟨a ++ b, List.forall_mem_append.2 ⟨ha, hb⟩, (block_append a b).symm⟩

theorem wellFormed_line (h : IsLine line) : WellFormed (line ++ crlf) :=
  ⟨[line], List.forall_mem_singleton.2 h, by simp [block]⟩

/-- **Where a text of lines has a line end**, one of its lines ends. -/
theorem WellFormed.split (h : WellFormed (x ++ (crlf ++ s))) :
    WellFormed (x ++ crlf) ∧ WellFormed s := by
  obtain ⟨lines, hlines, h⟩ := h
  induction lines generalizing x with
  | nil => simp [block, crlf] at h
  | cons line lines ih =>
    rw [List.forall_mem_cons] at hlines
    obtain ⟨hline, hlines⟩ := hlines
    rw [block_cons, List.append_assoc] at h
    obtain ⟨r, rfl, hr⟩ | ⟨r, rfl, hr⟩ := List.append_eq_append_iff.1 h
    · cases r with
      | nil =>
        rw [List.append_nil] at hline
        exact ⟨wellFormed_line hline, lines, hlines, List.append_cancel_left hr⟩
      | cons c r =>
        have hc : cr = c := (List.cons.inj hr).1
        exact absurd hc.symm (hline.2 c (by simp)).1
    · obtain _ | ⟨c, _ | ⟨d, r⟩⟩ := r
      · exact ⟨by simpa using wellFormed_line hline, lines, hlines, (List.append_cancel_left hr).symm⟩
      · simp [crlf, cr, lf] at hr
      · obtain ⟨hc, htail⟩ := List.cons.inj hr
        obtain ⟨hd, hrest⟩ := List.cons.inj htail
        subst hc hd
        obtain ⟨hbefore, hbehind⟩ := ih hlines hrest.symm
        exact ⟨by simpa [crlf] using (wellFormed_line hline).append hbefore, hbehind⟩

theorem wellFormed_append_iff :
    WellFormed (x ++ crlf ++ s) ↔ WellFormed (x ++ crlf) ∧ WellFormed s := by
  rw [List.append_assoc]
  exact ⟨WellFormed.split, fun h => by simpa using h.1.append h.2⟩

/-- A line that is ended is a line, if it has no end before. -/
theorem wellFormed_line_iff (h : OneLine line) : WellFormed (line ++ crlf) ↔ line ≠ [] := by
  refine ⟨?_, fun hne => wellFormed_line ⟨hne, h⟩⟩
  rintro ⟨lines, hlines, hblock⟩ rfl
  match lines, hlines with
  | [], _ => simp [block, crlf] at hblock
  | l :: lines, hlines =>
    obtain ⟨c, l, rfl⟩ := List.exists_cons_of_ne_nil (hlines l (List.mem_cons_self ..)).1
    have hc : cr = c := (List.cons.inj hblock).1
    exact ((hlines _ (List.mem_cons_self ..)).2 c (List.mem_cons_self ..)).1 hc.symm

/-- Behind a CR that ends no line, nothing is well-formed. -/
theorem not_wellFormed_cr {c : UInt8} (hx : OneLine x) (hc : c ≠ lf) :
    ¬ WellFormed (x ++ cr :: c :: s) := by
  rintro ⟨lines, hlines, h⟩
  match lines, hlines with
  | [], _ => simp [block] at h
  | line :: lines, hlines =>
    have hline := (hlines line (List.mem_cons_self ..)).2
    rw [block_cons, List.append_assoc] at h
    obtain ⟨r, rfl, hr⟩ | ⟨r, rfl, hr⟩ := List.append_eq_append_iff.1 h
    · cases r with
      | nil => exact hc (List.cons.inj (List.cons.inj hr).2).1
      | cons d r =>
        have hd : cr = d := (List.cons.inj hr).1
        exact (hline d (by simp)).1 hd.symm
    · cases r with
      | nil => exact hc (List.cons.inj (List.cons.inj hr).2).1.symm
      | cons d r =>
        have hd : cr = d := (List.cons.inj hr).1
        exact (hx d (by simp)).1 hd.symm

/-! ## Blocks -/

theorem isHeaderBlock_append_iff (hne : s ≠ []) : IsHeaderBlock (s ++ crlf) ↔ WellFormed s := by
  constructor
  · rintro ⟨lines, -, hlines, h⟩
    exact ⟨lines, hlines, List.append_cancel_right h⟩
  · rintro ⟨lines, hlines, rfl⟩
    exact ⟨lines, fun h => hne (by rw [h]; rfl), hlines, rfl⟩

/-- The first line of a text, and what is behind it. -/
theorem line_cancel {x y : Bytes} (hx : OneLine x) (hy : OneLine y)
    (h : x ++ (crlf ++ s) = y ++ (crlf ++ t)) : x = y ∧ s = t := by
  have hlines := congrArg splitLines h
  rw [← List.append_assoc, ← List.append_assoc, splitLines_line hx.not_crlf,
    splitLines_line hy.not_crlf, List.cons.injEq] at hlines
  obtain ⟨rfl, -⟩ := hlines
  exact ⟨rfl, List.append_cancel_left (List.append_cancel_left h)⟩

/-- **No block begins another one.** -/
theorem IsHeaderBlock.eq_of_isPrefix (hs : IsHeaderBlock s) (ht : IsHeaderBlock t) (h : s <+: t) :
    s = t := by
  obtain ⟨a, -, ha, rfl⟩ := hs
  obtain ⟨b, -, hb, rfl⟩ := ht
  obtain ⟨r, h⟩ := h
  induction a generalizing b with
  | nil =>
    cases b with
    | nil => rfl
    | cons line b =>
      obtain ⟨hne, hone⟩ := hb line (List.mem_cons_self ..)
      rw [block_cons, List.append_assoc] at h
      have hp : crlf <+: line ++ crlf ++ (block b ++ crlf) :=
        ⟨r, h.trans (List.append_assoc _ _ _)⟩
      exact absurd hp (not_crlf_isPrefix hone.not_crlf hne _)
  | cons line a ih =>
    rw [List.forall_mem_cons] at ha
    obtain ⟨⟨hne, hone⟩, ha⟩ := ha
    rw [block_cons, List.append_assoc, List.append_assoc, List.append_assoc] at h
    cases b with
    | nil =>
      have hp : crlf <+: line ++ crlf ++ (block a ++ (crlf ++ r)) :=
        ⟨[], by rw [List.append_assoc, h, List.append_nil]; rfl⟩
      exact absurd hp (not_crlf_isPrefix hone.not_crlf hne _)
    | cons line' b =>
      rw [List.forall_mem_cons] at hb
      obtain ⟨hline', hb⟩ := hb
      rw [block_cons, List.append_assoc, List.append_assoc] at h
      obtain ⟨rfl, hbehind⟩ := line_cancel hone hline'.2 h
      have hrest := ih ha b hb (by rw [List.append_assoc, hbehind])
      rw [block_cons, block_cons, List.append_assoc, hrest, List.append_assoc _ (block b)]

/-! ## Readers that take a bare CR or LF for a line end -/

def isLineEnd (c : UInt8) : Bool := c == cr || c == lf

/-- The lines that are not empty, of a text that is split at every CR LF, bare CR and bare LF: between
the CR and the LF there is an empty one. -/
def pieces (s : Bytes) : List Bytes := (s.splitOnP isLineEnd).filter (!·.isEmpty)

theorem pieces_append {c : UInt8} (hc : isLineEnd c = true) (s t : Bytes) :
    pieces (s ++ c :: t) = pieces s ++ pieces t := by
  rw [pieces, List.splitOnP_append_cons s t hc, List.filter_append]
  rfl

theorem pieces_nil : pieces [] = [] := rfl

theorem pieces_crlf (s t : Bytes) : pieces (s ++ (crlf ++ t)) = pieces s ++ pieces t := by
  rw [show s ++ (crlf ++ t) = s ++ cr :: ([] ++ lf :: t) from rfl, pieces_append rfl,
    pieces_append rfl, pieces_nil, List.nil_append]

theorem not_isLineEnd (h : OneLine s) : ∀ c ∈ s, isLineEnd c = false := by
  intro c hc
  simpa [isLineEnd] using h c hc

theorem pieces_line (h : IsLine s) : pieces s = [s] := by
  rw [pieces, List.splitOnP_eq_singleton (not_isLineEnd h.2)]
  simp [h.1]

/-- A text that is not seen as one line is taken apart at a line end. -/
theorem exists_isLineEnd (h : ¬ OneLine s) :
    ∃ a c b, s = a ++ c :: b ∧ isLineEnd c = true ∧ OneLine a := by
  induction s with
  | nil => exact absurd (fun c hc => absurd hc List.not_mem_nil) h
  | cons d s ih =>
    by_cases hd : d ≠ cr ∧ d ≠ lf
    · obtain ⟨a, c, b, rfl, hc, ha⟩ := ih fun hs => h (List.forall_mem_cons.2 ⟨hd, hs⟩)
      exact ⟨d :: a, c, b, rfl, hc, List.forall_mem_cons.2 ⟨hd, ha⟩⟩
    · refine ⟨[], d, s, rfl, ?_, fun c hc => absurd hc List.not_mem_nil⟩
      rw [isLineEnd, Bool.or_eq_true, beq_iff_eq, beq_iff_eq]
      tauto

/-- Something is seen of a text that ends with a byte that ends no line. -/
theorem pieces_ne_nil {x : Bytes} (hx : IsLine x) (s : Bytes) : pieces (s ++ x) ≠ [] := by
  induction hn : s.length using Nat.strongRecOn generalizing s with
  | ind n ih =>
    by_cases hs : OneLine s
    · rw [pieces_line ⟨by simp [hx.1], oneLine_append.2 ⟨hs, hx.2⟩⟩]
      exact List.cons_ne_nil _ _
    · obtain ⟨a, c, b, rfl, hc, -⟩ := exists_isLineEnd hs
      rw [List.append_assoc, List.cons_append, pieces_append hc]
      refine fun h => ih b.length ?_ b rfl (List.append_eq_nil_iff.1 h).2
      rw [← hn, List.length_append, List.length_cons]
      omega

/-- **A text is seen as one line** if and only if there is no line end in it. -/
theorem length_pieces_line {x y : Bytes} (hx : IsLine x) (hy : IsLine y) (s : Bytes) :
    (pieces (x ++ (s ++ y))).length = 1 ↔ OneLine s := by
  constructor
  · intro hone
    by_contra hs
    obtain ⟨a, c, b, rfl, hc, ha⟩ := exists_isLineEnd hs
    have hfirst : pieces (x ++ a) = [x ++ a] :=
      pieces_line ⟨by simp [hx.1], oneLine_append.2 ⟨hx.2, ha⟩⟩
    have hlast := List.length_pos_iff.2 (pieces_ne_nil hy b)
    rw [List.append_assoc, List.cons_append, ← List.append_assoc, pieces_append hc, hfirst,
      List.length_append, List.length_singleton] at hone
    omega
  · intro hs
    rw [pieces_line ⟨by simp [hx.1], oneLine_append.2 ⟨hx.2, oneLine_append.2 ⟨hs, hy.2⟩⟩⟩]
    rfl

end Http

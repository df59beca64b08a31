import Mathlib.Data.List.Count
import Mathlib.Data.List.Induction
import Mathlib.Order.Nat

/-!
# Counting hits in a fixed window

A counter that counts hits from the start of a window on, and starts a new window with the first hit
that comes when the window is over.  A hit brings its own limit, so hits of different limits can
share a counter; a counter that is not there yet is started by its first hit.

* `start_run` — a window starts with a hit.
* `count_run_le` — the count is at most the number of hits since the window started.
* `admitted_of_room` — a hit is admitted if there are few enough hits in the window before it, of
  whatever limit.
* `hit_of_quiet` — a hit after a quiet window starts a window, whatever was counted before.
* `within_passed_le` — where all hits have one limit, twice as many as it allows are admitted in a time as
  long as a window, and no more.
* `exists_admitted_ne` — limits that are not alike are told apart by some hits.
-/

set_option autoImplicit false

namespace FixedWindow

/-- At most `max` hits in a window. -/
structure Limit where
  max : Int
  window : Nat
  deriving DecidableEq

structure Hit where
  now : Nat
  limit : Limit
  deriving DecidableEq

@[ext] structure Counter where
  count : Nat
  start : Nat
  deriving DecidableEq

/-- The window of the counter is over for a hit. -/
def Counter.Over (c : Counter) (h : Hit) : Prop := c.start + h.limit.window ≤ h.now

instance (c : Counter) (h : Hit) : Decidable (c.Over h) := inferInstanceAs (Decidable (_ ≤ _))

/-- The counter behind a hit, and whether the hit is admitted. -/
def Counter.hit (c : Counter) (h : Hit) : Counter × Bool :=
  if c.Over h then (⟨1, h.now⟩, true)
  else (⟨c.count + 1, c.start⟩, decide ((c.count + 1 : Nat) ≤ h.limit.max))

/-- The counter that a hit meets. -/
def met (c : Option Counter) (h : Hit) : Counter := c.getD ⟨0, h.now⟩

/-- The counter behind some hits, if there is one. -/
def run (c : Option Counter) (hs : List Hit) : Option Counter :=
  hs.foldl (fun c h => some ((met c h).hit h).1) c

/-- Whether a hit is admitted after others. -/
def admitted (c : Option Counter) (hs : List Hit) (h : Hit) : Bool := ((met (run c hs) h).hit h).2

theorem run_concat (c : Option Counter) (hs : List Hit) (h : Hit) :
    run c (hs ++ [h]) = some ((met (run c hs) h).hit h).1 := by
  rw [run, List.foldl_append]
  rfl

theorem run_append (c : Option Counter) (hs hs' : List Hit) :
    run c (hs ++ hs') = run (run c hs) hs' := List.foldl_append ..

theorem Counter.hit_of_over {c : Counter} {h : Hit} (hover : c.Over h) :
    c.hit h = (⟨1, h.now⟩, true) := if_pos hover

theorem Counter.hit_of_not_over {c : Counter} {h : Hit} (hover : ¬ c.Over h) :
    c.hit h = (⟨c.count + 1, c.start⟩, decide ((c.count + 1 : Nat) ≤ h.limit.max)) := if_neg hover

/-- A hit counts one. -/
theorem count_hit_le (d : Counter) (h : Hit) : (d.hit h).1.count ≤ d.count + 1 := by
  by_cases hover : d.Over h
  · rw [Counter.hit_of_over hover]
    exact Nat.le_add_left 1 d.count
  · rw [Counter.hit_of_not_over hover]

/-- The hits come in the order of time, none before the counter started. -/
structure Timed (c : Option Counter) (hs : List Hit) : Prop where
  sorted : hs.Pairwise fun h h' => h.now ≤ h'.now
  started : ∀ d ∈ c, ∀ h ∈ hs, d.start ≤ h.now

theorem Timed.of_append {c : Option Counter} {hs hs' : List Hit} (ht : Timed c (hs ++ hs')) :
    Timed c hs where
  sorted := (List.pairwise_append.1 ht.sorted).1
  started := fun d hd h hh => ht.started d hd h (List.mem_append_left _ hh)

/-- A window starts with a hit. -/
theorem start_run (c : Option Counter) (hs : List Hit) :
    ∀ d ∈ run c hs, (∃ b ∈ c, d.start = b.start) ∨ ∃ h ∈ hs, d.start = h.now := by
  induction hs using List.reverseRecOn with
  | nil => exact fun d hd => Or.inl ⟨d, hd, rfl⟩
  | append_singleton hs h ih =>
    intro d hd
    rw [run_concat, Option.mem_some_iff] at hd
    subst hd
    by_cases hover : (met (run c hs) h).Over h
    · exact Or.inr ⟨h, by simp, by rw [Counter.hit_of_over hover]⟩
    · rw [Counter.hit_of_not_over hover]
      cases hrun : run c hs with
      | none => exact Or.inr ⟨h, by simp, rfl⟩
      | some b =>
        rcases ih b hrun with hb | ⟨h', hh', hb⟩
        · exact Or.inl hb
        · exact Or.inr ⟨h', List.mem_append_left _ hh', hb⟩

/-- No window starts after the hit that is looked at. -/
theorem start_met_le {c : Option Counter} {hs : List Hit} {h : Hit} (ht : Timed c (hs ++ [h])) :
    (met (run c hs) h).start ≤ h.now := by
  cases hrun : run c hs with
  | none => exact le_rfl
  | some d =>
    rcases start_run c hs d hrun with ⟨b, hb, hd⟩ | ⟨h', hh', hd⟩
    · exact hd.le.trans (ht.started b hb h (by simp))
    · exact hd.le.trans ((List.pairwise_append.1 ht.sorted).2.2 h' hh' h (by simp))

/-- What a counter has counted before the first hit, if its window still runs. -/
def carried (c : Option Counter) (start : Nat) : Nat :=
  match c with
  | some d => if d.start = start then d.count else 0
  | none => 0

/-- The hits from a moment on. -/
def since (hs : List Hit) (start : Nat) : Nat := hs.countP fun h => start ≤ h.now

theorem since_concat {hs : List Hit} {h : Hit} {start : Nat} (hle : start ≤ h.now) :
    since (hs ++ [h]) start = since hs start + 1 := by
  rw [since, List.countP_append, List.countP_singleton, if_pos (decide_eq_true hle), since]

/-- **The count is at most the number of hits since the window started.** -/
theorem count_run_le {c : Option Counter} {hs : List Hit} (ht : Timed c hs) :
    ∀ d ∈ run c hs, d.count ≤ carried c d.start + since hs d.start := by
  induction hs using List.reverseRecOn with
  | nil =>
    intro d hd
    have hc : c = some d := hd
    simp [carried, hc]
  | append_singleton hs h ih =>
    intro d hd
    rw [run_concat, Option.mem_some_iff] at hd
    subst hd
    by_cases hover : (met (run c hs) h).Over h
    · rw [Counter.hit_of_over hover, since_concat le_rfl]
      show 1 ≤ carried c h.now + (since hs h.now + 1)
      omega
    · have hle := start_met_le ht
      rw [Counter.hit_of_not_over hover, since_concat hle]
      cases hrun : run c hs with
      | none =>
        simp only [met, Option.getD_none]
        omega
      | some d =>
        have := ih ht.of_append d hrun
        simp only [met, Option.getD_some]
        omega

/-- The hits that a window of some length before a moment holds. -/
def recent (hs : List Hit) (now window : Nat) : Nat := hs.countP fun h => now < h.now + window

/-- What was counted before, as far as the window reaches back to it. -/
def before (c : Option Counter) (now window : Nat) : Nat :=
  match c with
  | some d => if now < d.start + window then d.count else 0
  | none => 0

/-- **A hit is admitted if the window before it is not full**, whatever the other limits are. -/
theorem admitted_of_room {c : Option Counter} {hs : List Hit} {h : Hit} (ht : Timed c (hs ++ [h]))
    (hroom : (before c h.now h.limit.window + recent hs h.now h.limit.window + 1 : Nat) ≤ h.limit.max) :
    admitted c hs h = true := by
  rw [admitted]
  by_cases hover : (met (run c hs) h).Over h
  · rw [Counter.hit_of_over hover]
  · rw [Counter.hit_of_not_over hover, decide_eq_true_eq]
    refine Int.le_trans ?_ hroom
    have hlt : h.now < (met (run c hs) h).start + h.limit.window := Nat.lt_of_not_le hover
    cases hrun : run c hs with
    | none =>
      simp only [met, Option.getD_none]
      omega
    | some d =>
      rw [hrun] at hlt
      simp only [met, Option.getD_some] at hlt ⊢
      have hcount := count_run_le ht.of_append d hrun
      have hcarried : carried c d.start ≤ before c h.now h.limit.window := by
        cases c with
        | none => exact le_rfl
        | some b =>
          simp only [carried, before]
          by_cases hb : b.start = d.start
          · rw [if_pos hb, if_pos (hb ▸ hlt)]
          · rw [if_neg hb]
            exact Nat.zero_le _
      have hrecent : since hs d.start ≤ recent hs h.now h.limit.window := by
        refine List.countP_mono_left fun h' _ hle => ?_
        simp only [decide_eq_true_eq] at hle ⊢
        omega
      omega

/-- **A hit after a quiet window starts a window**, whatever was counted before. -/
theorem hit_of_quiet {c : Option Counter} {hs : List Hit} {h : Hit} (hmax : 1 ≤ h.limit.max)
    (hc : ∀ d ∈ c, d.Over h) (hquiet : ∀ x ∈ hs, x.now + h.limit.window ≤ h.now) :
    (met (run c hs) h).hit h = (⟨1, h.now⟩, true) := by
  cases hrun : run c hs with
  | none =>
    rw [met, Option.getD_none, Counter.hit]
    split
    · rfl
    · rw [decide_eq_true (by simpa using hmax)]
  | some d =>
    rw [met, Option.getD_some, Counter.hit_of_over]
    rcases start_run c hs d hrun with ⟨b, hb, hd⟩ | ⟨x, hx, hd⟩
    · rw [Counter.Over, hd]
      exact hc b hb
    · rw [Counter.Over, hd]
      exact hquiet x hx

/-! ## Hits of one limit -/

/-- The hits that are admitted. -/
def passed : Option Counter → List Hit → List Hit
  | _, [] => []
  | c, h :: hs =>
    if ((met c h).hit h).2 then h :: passed (some ((met c h).hit h).1) hs
    else passed (some ((met c h).hit h).1) hs

/-- The hits from a moment on, until a time is over. -/
def within (hs : List Hit) (t time : Nat) : Nat := hs.countP fun h => t ≤ h.now ∧ h.now ≤ t + time

/-- How many hits can still be admitted from a moment on until a window is over: those that the window of
the counter has left, and those of one more window that starts in that time. -/
def budget (max window t : Nat) : Option Counter → Nat
  | none => 2 * max
  | some d =>
    if t + window < d.start then 0
    else if t < d.start then max - d.count
    else if t < d.start + window then max - d.count + max
    else 2 * max

theorem budget_some (max window t count start : Nat) :
    budget max window t (some ⟨count, start⟩) =
      if t + window < start then 0
      else if t < start then max - count
      else if t < start + window then max - count + max
      else 2 * max := rfl

theorem within_cons (h : Hit) (hs : List Hit) (t time : Nat) :
    within (h :: hs) t time = within hs t time + if t ≤ h.now ∧ h.now ≤ t + time then 1 else 0 := by
  rw [within, List.countP_cons]
  simp only [decide_eq_true_eq]
  rfl

theorem start_hit_le {d : Counter} {h : Hit} (hstart : d.start ≤ h.now) : (d.hit h).1.start ≤ h.now := by
  by_cases hover : d.Over h
  · rw [Counter.hit_of_over hover]
  · rw [Counter.hit_of_not_over hover]
    exact hstart

theorem start_met_le_of_started {c : Option Counter} {h : Hit} (hstart : ∀ d ∈ c, d.start ≤ h.now) :
    (met c h).start ≤ h.now := by
  cases c with
  | none => exact le_rfl
  | some d => exact hstart d rfl

theorem Timed.of_cons {c : Option Counter} {h : Hit} {hs : List Hit} (ht : Timed c (h :: hs)) :
    (met c h).start ≤ h.now ∧ Timed (some ((met c h).hit h).1) hs := by
  obtain ⟨hfirst, hsorted⟩ := List.pairwise_cons.1 ht.sorted
  have hstart : (met c h).start ≤ h.now :=
    start_met_le_of_started fun d hd => ht.started d hd h List.mem_cons_self
  refine ⟨hstart, hsorted, fun d hd x hx => ?_⟩
  cases hd
  exact (start_hit_le hstart).trans (hfirst x hx)

/-- A hit takes one from the budget if it is admitted in that time, and adds nothing to it. -/
theorem budget_hit {max window t : Nat} {c : Option Counter} {h : Hit} (hmax : 1 ≤ max)
    (hwindow : 0 < window) (hlimit : h.limit = ⟨max, window⟩) (hstart : (met c h).start ≤ h.now) :
    budget max window t (some ((met c h).hit h).1) +
        (if ((met c h).hit h).2 = true ∧ t ≤ h.now ∧ h.now ≤ t + window then 1 else 0) ≤
      budget max window t c := by
  have hover : (met c h).Over h ↔ (met c h).start + window ≤ h.now := by rw [Counter.Over, hlimit]
  by_cases hov : (met c h).Over h
  · rw [Counter.hit_of_over hov, budget_some]
    rw [hover] at hov
    rcases c with - | ⟨count, start⟩
    · exact absurd hov (show ¬ h.now + window ≤ h.now by omega)
    · change start + window ≤ h.now at hov
      rw [budget_some]
      simp only [true_and]
      split_ifs <;> omega
  · rw [Counter.hit_of_not_over hov, hlimit, budget_some]
    rw [hover] at hov
    simp only [decide_eq_true_eq, Int.ofNat_le]
    rcases c with - | ⟨count, start⟩
    · show (if t + window < h.now then 0 else if t < h.now then max - (0 + 1) else
        if t < h.now + window then max - (0 + 1) + max else 2 * max) + _ ≤ 2 * max
      split_ifs <;> omega
    · change ¬ start + window ≤ h.now at hov
      change start ≤ h.now at hstart
      rw [budget_some]
      show (if t + window < start then 0 else if t < start then max - (count + 1) else
        if t < start + window then max - (count + 1) + max else 2 * max) +
          (if count + 1 ≤ max ∧ t ≤ h.now ∧ h.now ≤ t + window then 1 else 0) ≤ _
      split_ifs <;> omega

/-- **In a time as long as a window at most two windows admit hits.** -/
theorem within_passed_le {max window : Nat} (t : Nat) (hmax : 1 ≤ max) (hwindow : 0 < window)
    {c : Option Counter} {hs : List Hit} (ht : Timed c hs)
    (hlimit : ∀ h ∈ hs, h.limit = ⟨max, window⟩) :
    within (passed c hs) t window ≤ budget max window t c := by
  induction hs generalizing c with
  | nil => exact Nat.zero_le _
  | cons h hs ih =>
    obtain ⟨hstart, ht'⟩ := ht.of_cons
    have hstep := budget_hit (t := t) hmax hwindow (hlimit h List.mem_cons_self) hstart
    have hrest := ih ht' fun x hx => hlimit x (List.mem_cons_of_mem h hx)
    rw [passed]
    split_ifs with hok
    · rw [within_cons]
      simp only [hok, true_and] at hstep
      omega
    · omega

/-! ## Limits that decide alike -/

/-- Two limits decide alike: the same number in the same window, or nothing but the first hit of a later
window, or everything. -/
def Limit.Alike (l l' : Limit) : Prop :=
  l.window = l'.window ∧ (l.max = l'.max ∨ l.max < 1 ∧ l'.max < 1 ∨ l.window = 0)

instance (l l' : Limit) : Decidable (l.Alike l') := inferInstanceAs (Decidable (_ ∧ _))

theorem Limit.alike_refl (l : Limit) : l.Alike l := ⟨rfl, Or.inl rfl⟩

theorem Limit.Alike.symm {l l' : Limit} (h : l.Alike l') : l'.Alike l :=
  ⟨h.1.symm, h.2.imp Eq.symm (Or.imp And.symm fun hw => h.1 ▸ hw)⟩

/-- Hits at one moment are counted, unless there is no window. -/
theorem run_replicate {l : Limit} (hwindow : 0 < l.window) (n : Nat) :
    run none (List.replicate (n + 1) ⟨0, l⟩) = some ⟨n + 1, 0⟩ := by
  induction n with
  | zero =>
    have hover : ¬ Counter.Over ⟨0, 0⟩ ⟨0, l⟩ := Nat.not_le.2 (by simpa using hwindow)
    rw [List.replicate_one, run, List.foldl_cons, met, Option.getD_none, Counter.hit_of_not_over hover]
    rfl
  | succ n ih =>
    have hover : ¬ Counter.Over ⟨n + 1, 0⟩ ⟨0, l⟩ := Nat.not_le.2 (by simpa using hwindow)
    rw [List.replicate_succ', run_concat, ih, met, Option.getD_some, Counter.hit_of_not_over hover]

/-- A hit within the window of hits at one moment. -/
theorem admitted_replicate {l : Limit} {t : Nat} (n : Nat) (ht : t < l.window) :
    admitted none (List.replicate (n + 1) ⟨0, l⟩) ⟨t, l⟩ = decide ((n + 2 : Nat) ≤ l.max) := by
  have hover : ¬ Counter.Over ⟨n + 1, 0⟩ ⟨t, l⟩ := Nat.not_le.2 (by simpa using ht)
  rw [admitted, run_replicate (by omega), met, Option.getD_some, Counter.hit_of_not_over hover]

theorem admitted_first {l : Limit} (hwindow : 0 < l.window) (t : Nat) :
    admitted none [] ⟨t, l⟩ = decide (1 ≤ l.max) := by
  have hover : ¬ Counter.Over ⟨0, t⟩ ⟨t, l⟩ := Nat.not_le.2 (by simpa using hwindow)
  rw [admitted, run, List.foldl_nil, met, Option.getD_none, Counter.hit_of_not_over hover]
  rfl

/-- A hit when the window is over. -/
theorem admitted_over {l : Limit} (n : Nat) (t : Nat) (ht : l.window ≤ t) :
    admitted none (List.replicate (n + 1) ⟨0, l⟩) ⟨t, l⟩ = true := by
  have hover : (met (run none (List.replicate (n + 1) ⟨0, l⟩)) ⟨t, l⟩).Over ⟨t, l⟩ := by
    cases hrun : run none (List.replicate (n + 1) ⟨0, l⟩) with
    | none => rw [run, List.replicate_succ', List.foldl_append] at hrun; cases hrun
    | some d =>
      have hstart : d.start = 0 := by
        rcases start_run _ _ d hrun with ⟨b, hb, -⟩ | ⟨h, hh, hd⟩
        · cases hb
        · rw [hd, List.eq_of_mem_replicate hh]
      rw [met, Option.getD_some, Counter.Over, hstart, Nat.zero_add]
      exact ht
  rw [admitted, Counter.hit_of_over hover]

/-- Of two windows the shorter one is over first. -/
theorem exists_admitted_ne_of_lt {l l' : Limit} (h : l.window < l'.window) :
    ∃ n t, t ≤ l.window ∧ admitted none (List.replicate n ⟨0, l⟩) ⟨t, l⟩ ≠
      admitted none (List.replicate n ⟨0, l'⟩) ⟨t, l'⟩ := by
  refine ⟨l'.max.toNat + 1, l.window, le_rfl, ?_⟩
  rw [admitted_over _ _ le_rfl, admitted_replicate _ h, decide_eq_false (by omega)]
  decide

/-- Of two numbers in a window the smaller one is used up first. -/
theorem exists_admitted_ne_of_max_lt {l l' : Limit} (hwindow : l.window = l'.window)
    (hpos : 0 < l.window) (hmax : l.max < l'.max) (hone : 1 ≤ l'.max) :
    ∃ n, admitted none (List.replicate n ⟨0, l⟩) ⟨0, l⟩ ≠
      admitted none (List.replicate n ⟨0, l'⟩) ⟨0, l'⟩ := by
  refine ⟨l.max.toNat, ?_⟩
  cases hn : l.max.toNat with
  | zero =>
    rw [List.replicate_zero, List.replicate_zero, admitted_first hpos, admitted_first (hwindow ▸ hpos),
      decide_eq_false (by omega), decide_eq_true hone]
    decide
  | succ n =>
    rw [admitted_replicate n hpos, admitted_replicate n (hwindow ▸ hpos), decide_eq_false (by omega),
      decide_eq_true (by omega)]
    decide

/-- **Limits that are not alike are told apart**: by some hits at one moment and one hit before the longer
of the windows is over. -/
theorem exists_admitted_ne {l l' : Limit} (h : ¬ l.Alike l') :
    ∃ n t, (t ≤ l.window ∨ t ≤ l'.window) ∧ admitted none (List.replicate n ⟨0, l⟩) ⟨t, l⟩ ≠
      admitted none (List.replicate n ⟨0, l'⟩) ⟨t, l'⟩ := by
  rcases Nat.lt_trichotomy l.window l'.window with hlt | heq | hgt
  · obtain ⟨n, t, ht, hne⟩ := exists_admitted_ne_of_lt hlt
    exact ⟨n, t, Or.inl ht, hne⟩
  · have hpos : 0 < l.window := by
      refine Nat.pos_of_ne_zero fun hzero => h ⟨heq, Or.inr (Or.inr hzero)⟩
    rcases Int.lt_trichotomy l.max l'.max with hlt | hsame | hgt
    · obtain ⟨n, hne⟩ := exists_admitted_ne_of_max_lt heq hpos hlt (by
        by_contra hone
        exact h ⟨heq, Or.inr (Or.inl ⟨by omega, by omega⟩)⟩)
      exact ⟨n, 0, Or.inl (Nat.zero_le _), hne⟩
    · exact absurd ⟨heq, Or.inl hsame⟩ h
    · obtain ⟨n, hne⟩ := exists_admitted_ne_of_max_lt heq.symm (heq ▸ hpos) hgt (by
        by_contra hone
        exact h ⟨heq, Or.inr (Or.inl ⟨by omega, by omega⟩)⟩)
      exact ⟨n, 0, Or.inl (Nat.zero_le _), hne.symm⟩
  · obtain ⟨n, t, ht, hne⟩ := exists_admitted_ne_of_lt hgt
    exact ⟨n, t, Or.inr ht, hne.symm⟩

end FixedWindow

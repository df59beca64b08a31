import Mathlib.Data.Option.Basic

/-!
# Programs over an interface

A component that is handed an interface calls it, and goes on with what the call answers.  Such a
component is a `Program`: a tree with a call at each node and a branch for each answer.  What a call
does to a state is given apart, as a function that is `none` where the call is not defined; `run` is
the program over it.

* `Safe` — every call the program makes is made in a state in which it may be.
* `run_related` — two runs of one program: what each single call keeps between two states, the
  program keeps.
* `run_congr` — one program over two interfaces that do the same for each call it makes.
* `run_eq_none_of_not_safe` — a program that is not safe has no result.
-/

set_option autoImplicit false

universe u v

/-- Both computations are defined, and their results are related. -/
def BothYield {α β : Type*} (R : α → β → Prop) (x : Option α) (y : Option β) : Prop :=
  ∃ a b, x = some a ∧ y = some b ∧ R a b

namespace BothYield

variable {α β γ δ : Type*} {R : α → β → Prop} {Q : γ → δ → Prop} {x : Option α} {y : Option β}

theorem some {a : α} {b : β} (h : R a b) : BothYield R (some a) (some b) := ⟨a, b, rfl, rfl, h⟩

/-- Computations go on related where they are. -/
theorem bind (h : BothYield R x y) {f : α → Option γ} {g : β → Option δ}
    (hfg : ∀ a b, R a b → BothYield Q (f a) (g b)) : BothYield Q (x.bind f) (y.bind g) := by
  obtain ⟨a, b, rfl, rfl, hab⟩ := h
  exact hfg a b hab

theorem map (h : BothYield R x y) {f : α → γ} {g : β → δ}
    (hfg : ∀ a b, R a b → Q (f a) (g b)) : BothYield Q (x.map f) (y.map g) := by
  obtain ⟨a, b, rfl, rfl, hab⟩ := h
  exact .some (hfg a b hab)

theorem mono {R' : α → β → Prop} (h : BothYield R x y) (hR : ∀ a b, R a b → R' a b) :
    BothYield R' x y := by
  obtain ⟨a, b, hx, hy, hab⟩ := h
  exact ⟨a, b, hx, hy, hR a b hab⟩

end BothYield

/-- A program that makes calls and goes on with their answers. -/
inductive Program (Call : Type u) (Answer : Call → Type v)
  | done
  | call (c : Call) (next : Answer c → Program Call Answer)

namespace Program

variable {Call : Type u} {Answer : Call → Type v} {S : Type*}
  {perform : (c : Call) → S → Option (Answer c × S)} {ok : Call → S → Prop}

/-- The state after the program, if every call in it is defined. -/
def run (perform : (c : Call) → S → Option (Answer c × S)) :
    Program Call Answer → S → Option S
  | done, s => some s
  | call c next, s => (perform c s).bind fun r => (next r.1).run perform r.2

/-- Every call of the program meets `ok` when it is made. -/
def Safe (perform : (c : Call) → S → Option (Answer c × S)) (ok : Call → S → Prop) :
    Program Call Answer → S → Prop
  | done, _ => True
  | call c next, s => ok c s ∧ ∀ r ∈ perform c s, (next r.1).Safe perform ok r.2

/-- **Two runs of one program**: if each call keeps the states related and answers both alike, then
the program does. -/
theorem run_related {R : S → S → Prop}
    (hcall : ∀ c s t, R s t → ok c s →
      BothYield (fun r q => r.1 = q.1 ∧ R r.2 q.2) (perform c s) (perform c t))
    {p : Program Call Answer} {s t : S} (h : R s t) (hsafe : p.Safe perform ok s) :
    BothYield R (p.run perform s) (p.run perform t) := by
  induction p generalizing s t with
  | done => exact .some h
  | call c next ih =>
    obtain ⟨hok, hnext⟩ := hsafe
    obtain ⟨⟨a, s'⟩, ⟨b, t'⟩, hs, ht, hab, h'⟩ := hcall c s t h hok
    simp only at hab h'
    subst hab
    simp only [run, hs, ht, Option.bind_some]
    exact ih a h' (hnext _ hs)

/-- **One program over two interfaces**: if they do the same for each call it makes, it comes to the same. -/
theorem run_congr {perform' : (c : Call) → S → Option (Answer c × S)}
    (hcall : ∀ c s, ok c s → perform c s = perform' c s) {p : Program Call Answer} {s : S}
    (hsafe : p.Safe perform ok s) : p.run perform s = p.run perform' s := by
  induction p generalizing s with
  | done => rfl
  | call c next ih =>
    obtain ⟨hok, hnext⟩ := hsafe
    rw [run, run, ← hcall c s hok]
    cases hc : perform c s with
    | none => rfl
    | some r => exact ih r.1 (hnext r hc)

/-- A program that makes only calls that are always in order is safe. -/
theorem Safe.of_call {c : Call} {next : Answer c → Program Call Answer} {s : S} (hok : ok c s)
    (hnext : ∀ a s, (next a).Safe perform ok s) : (call c next).Safe perform ok s :=
  ⟨hok, fun r _ => hnext r.1 r.2⟩

/-- A program that is not safe makes a call that is not defined. -/
theorem run_eq_none_of_not_safe (hcall : ∀ c s, ¬ ok c s → perform c s = none)
    {p : Program Call Answer} {s : S} (h : ¬ p.Safe perform ok s) : p.run perform s = none := by
  induction p generalizing s with
  | done => exact absurd trivial h
  | call c next ih =>
    by_cases hok : ok c s
    · obtain ⟨r, hr, hnot⟩ : ∃ r ∈ perform c s, ¬ (next r.1).Safe perform ok r.2 := by
        by_contra hall
        exact h ⟨hok, fun r hr => by_contra fun hnot => hall ⟨r, hr, hnot⟩⟩
      rw [run, Option.mem_def.1 hr, Option.bind_some]
      exact ih _ hnot
    · rw [run, hcall c s hok, Option.bind_none]

end Program

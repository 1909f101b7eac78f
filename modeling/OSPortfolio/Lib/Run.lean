import Mathlib.Logic.Basic

namespace OSPortfolio.Lts

/-!
# Labelled runs and their invariants

A system is a labelled step relation `step : σ → α → σ → Prop`.  This file packages the
induction over its runs once, so that every safety result elsewhere is a step lemma plus one
use of a rule from here:

* `Run step s as t` — a run from `s` to `t` whose labels, oldest first, are `as`.  Runs grow
  at their end, so an induction sees the last step first;
* `guarded step guard` — the steps that also meet a condition on the label and the state
  before the step; a run of it is a run whose steps all meet the condition;
* `Run.invariant` — what holds at the start and survives each step holds at the end;
* `Run.invariantTrace` — the same for a property of the labels together with the state;
* `Run.ofFold` — for a step that is a function, a run from its labels;
* `tracked step note` — the system with a history variable, which `note` keeps up to date;
  `Run.track` and `Run.untrack` say that it has the same runs.
-/

universe u v w

variable {σ : Type u} {α : Type v} {step : σ → α → σ → Prop}

/-- A run of `step`, grown at its end; the labels are listed oldest first. -/
inductive Run (step : σ → α → σ → Prop) : σ → List α → σ → Prop
  | nil (s : σ) : Run step s [] s
  | snoc {s t u : σ} {as : List α} {a : α} :
      Run step s as t → step t a u → Run step s (as ++ [a]) u

/-- The steps of `step` whose label and source state meet `guard`. -/
def guarded (step : σ → α → σ → Prop) (guard : σ → α → Prop) : σ → α → σ → Prop :=
  fun s a t => guard s a ∧ step s a t

/-- A single step is a run. -/
theorem Run.single {s t : σ} {a : α} (h : step s a t) : Run step s [a] t :=
  Run.snoc (Run.nil s) h

/-- Runs compose. -/
theorem Run.append {s t u : σ} {as bs : List α} (h₁ : Run step s as t)
    (h₂ : Run step t bs u) : Run step s (as ++ bs) u := by
  -- by the second run: its last step is the one to put at the end
  induction h₂ with
  | nil => rwa [List.append_nil]
  | snoc _ hstep ih => rw [← List.append_assoc]; exact Run.snoc ih hstep

/-- A step in front of a run. -/
theorem Run.cons {s t u : σ} {a : α} {as : List α} (hstep : step s a t)
    (h : Run step t as u) : Run step s (a :: as) u :=
  Run.append (Run.single hstep) h

/-- A run of a smaller relation is a run of a larger one. -/
theorem Run.mono {step' : σ → α → σ → Prop} (hsub : ∀ s a t, step s a t → step' s a t)
    {s t : σ} {as : List α} (h : Run step s as t) : Run step' s as t := by
  induction h with
  | nil => exact Run.nil _
  | snoc _ hstep ih => exact Run.snoc ih (hsub _ _ _ hstep)

/-- **Invariant rule.** What holds at the start of a run and survives every step holds at
    its end. -/
theorem Run.invariant {Inv : σ → Prop}
    (hstep : ∀ s a t, Inv s → step s a t → Inv t)
    {s t : σ} {as : List α} (h : Run step s as t) (h₀ : Inv s) : Inv t := by
  induction h with
  | nil => exact h₀
  | snoc _ hlast ih => exact hstep _ _ _ ih hlast

/-- **Invariant rule with a trace.** The invariant may also speak of the labels the run has
    seen so far. -/
theorem Run.invariantTrace (Inv : List α → σ → Prop)
    (hstep : ∀ as s a t, Inv as s → step s a t → Inv (as ++ [a]) t)
    {s t : σ} {as : List α} (h : Run step s as t) (h₀ : Inv [] s) : Inv as t := by
  induction h with
  | nil => exact h₀
  | snoc _ hlast ih => exact hstep _ _ _ _ ih hlast

/-- A run whose labels always meet the condition. -/
theorem Run.guard {guard : σ → α → Prop} {s t : σ} {as : List α} (h : Run step s as t)
    (hguard : ∀ a ∈ as, ∀ s, guard s a) : Run (guarded step guard) s as t := by
  induction h with
  | nil => exact Run.nil _
  | snoc _ hstep ih =>
    refine Run.snoc (ih fun a ha => hguard a (List.mem_append_left _ ha)) ⟨?_, hstep⟩
    exact hguard _ (by simp) _

/-- When a step is a partial function, the labels of a run determine it. -/
theorem Run.ofFold {f : σ → α → Option σ} {s t : σ} {as : List α}
    (h : as.foldlM f s = some t) : Run (fun s a t => f s a = some t) s as t := by
  induction as generalizing s with
  | nil => obtain rfl := Option.some.inj h; exact Run.nil _
  | cons a as ih =>
    rw [List.foldlM_cons] at h
    obtain ⟨u, hstep, hrest⟩ := Option.bind_eq_some_iff.mp h
    exact Run.cons hstep (ih hrest)

/-! ### History variables -/

section
variable {γ : Type w} {note : σ → α → σ → γ → γ}

/-- The steps of `step`, with a history variable beside the state: the system does not read
    it, and `note` says what a step makes of it. -/
def tracked (step : σ → α → σ → Prop) (note : σ → α → σ → γ → γ) :
    σ × γ → α → σ × γ → Prop :=
  fun s a t => step s.1 a t.1 ∧ t.2 = note s.1 a t.1 s.2

/-- A history variable takes no run away. -/
theorem Run.track {s t : σ} {as : List α} (h : Run step s as t) (g : γ) :
    ∃ g', Run (tracked step note) (s, g) as (t, g') := by
  induction h with
  | nil => exact ⟨g, Run.nil _⟩
  | @snoc t u as a _ hstep ih =>
    obtain ⟨g', hrun⟩ := ih
    exact ⟨note t a u g', Run.snoc hrun ⟨hstep, rfl⟩⟩

/-- A history variable adds no run. -/
theorem Run.untrack {s t : σ × γ} {as : List α} (h : Run (tracked step note) s as t) :
    Run step s.1 as t.1 := by
  induction h with
  | nil => exact Run.nil _
  | snoc _ hstep ih => exact Run.snoc ih hstep.1

end

end OSPortfolio.Lts

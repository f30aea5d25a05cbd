import Mathlib

/-!
# Labelled runs

A transition relation whose steps emit lists of events, the runs it makes from a start state, and
the induction that carries an invariant along a run.
-/

namespace Vlog.Lib

variable {σ ε : Type*}

/-- From `s` the relation reaches `t`, and the steps taken emit `es` together. -/
inductive Run (step : σ → List ε → σ → Prop) (s : σ) : List ε → σ → Prop
  | refl : Run step s [] s
  | snoc {es fs : List ε} {t u : σ} : Run step s es t → step t fs u → Run step s (es ++ fs) u

variable {step step' : σ → List ε → σ → Prop} {s t u : σ} {es fs : List ε}

theorem Run.invariant {I : List ε → σ → Prop} (hr : Run step s es t) (h₀ : I [] s)
    (hs : ∀ es t fs u, Run step s es t → I es t → step t fs u → I (es ++ fs) u) : I es t := by
  induction hr with
  | refl => exact h₀
  | snoc hr hst ih => exact hs _ _ _ _ hr ih hst

theorem Run.mono (hr : Run step s es t) (h : ∀ t fs u, step t fs u → step' t fs u) :
    Run step' s es t := by
  induction hr with
  | refl => exact .refl
  | snoc _ hst ih => exact .snoc ih (h _ _ _ hst)

theorem Run.single (h : step s es t) : Run step s es t := by
  simpa using Run.snoc .refl h

theorem Run.append (hr : Run step s es t) (hr' : Run step t fs u) : Run step s (es ++ fs) u := by
  induction hr' with
  | refl => simpa using hr
  | snoc _ hst ih => simpa using Run.snoc ih hst

end Vlog.Lib

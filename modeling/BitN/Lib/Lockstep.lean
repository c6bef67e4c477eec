import Mathlib.Data.List.Induction
import Mathlib.Tactic.Common

/-! Two systems that take the same operations, and the relation that a step keeps exactly under
some condition on where it starts. -/
namespace Lockstep
variable {σ τ ω : Type} {f : σ → ω → σ} {g : τ → ω → τ} {R : σ → τ → Prop} {C : σ → ω → Prop}

/-- After every start of the run. -/
def Throughout (P : List ω → Prop) (ops : List ω) : Prop := ∀ done, done <+: ops → P done

/-- At every step of the run, in the state before it. -/
def EachStep (C : σ → ω → Prop) (f : σ → ω → σ) (s : σ) (ops : List ω) : Prop :=
  ∀ done op, done ++ [op] <+: ops → C (done.foldl f s) op

/-- A relation that one step keeps exactly under `C` holds along a run exactly when every step of
it is under `C`. -/
theorem relatedExactly {s : σ} {t : τ} (start : R s t)
    (step : ∀ s t op, R s t → (R (f s op) (g t op) ↔ C s op)) (ops : List ω) :
    Throughout (fun done => R (done.foldl f s) (done.foldl g t)) ops ↔ EachStep C f s ops := by
  constructor
  · intro related done op first
    have before := related done ((List.prefix_append done [op]).trans first)
    have after := related (done ++ [op]) first
    simp only [List.foldl_append, List.foldl_cons, List.foldl_nil] at after
    exact (step _ _ op before).mp after
  · intro clean done first
    induction done using List.reverseRecOn with
    | nil => exact start
    | append_singleton done op before =>
      simp only [List.foldl_append, List.foldl_cons, List.foldl_nil]
      exact (step _ _ op (before ((List.prefix_append done [op]).trans first))).mpr (clean done op first)

end Lockstep

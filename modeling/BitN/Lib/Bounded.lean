import Mathlib.Data.Nat.Basic

/-! Loops with a bound: `loop guard body n` runs the body while the guard holds, at most
`n` times. -/
namespace Bounded
variable {σ : Type}

def loop (guard : σ → Bool) (body : σ → σ) : Nat → σ → σ
  | 0, s => s
  | n + 1, s => if guard s then loop guard body n (body s) else s

theorem loopStop {guard : σ → Bool} {body : σ → σ} {s : σ} (stop : guard s = false) (n : Nat) :
    loop guard body n s = s := by
  cases n <;> simp [loop, stop]

theorem loopStep {guard : σ → Bool} {body : σ → σ} {s : σ} (go : guard s = true) (n : Nat) :
    loop guard body (n + 1) s = loop guard body n (body s) := by
  simp [loop, go]

end Bounded

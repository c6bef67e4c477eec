import Mathlib.Data.List.Induction
import Mathlib.Tactic.Common

/-! Cells written one at a time. A cell keeps of what is written to it what its kind lets through. -/
namespace Cells
variable {σ κ υ : Type} [DecidableEq κ]

/-- The last value written to the cell, if there is one. -/
def lastWrite (writes : List (κ × υ)) (key : κ) : Option υ :=
  (writes.reverse.find? fun write => write.1 = key).map Prod.snd

theorem lastWriteSame (writes : List (κ × υ)) (key : κ) (value : υ) :
    lastWrite (writes ++ [(key, value)]) key = some value := by
  simp [lastWrite]

theorem lastWriteOther (writes : List (κ × υ)) {key other : κ} (apart : other ≠ key) (value : υ) :
    lastWrite (writes ++ [(key, value)]) other = lastWrite writes other := by
  simp [lastWrite, Ne.symm apart]

/-- What a write does: `keep` to its own cell, nothing to the others. A second write covers the first. -/
structure Lawful (read : σ → κ → υ) (write : σ → κ → υ → σ) (keep : κ → υ → υ → υ) : Prop where
  same : ∀ s key value, read (write s key value) key = keep key (read s key) value
  other : ∀ s key value other, other ≠ key → read (write s key value) other = read s other
  covers : ∀ key old value next, keep key (keep key old value) next = keep key old next

variable {read : σ → κ → υ} {write : σ → κ → υ → σ} {keep : κ → υ → υ → υ}

def writeAll (write : σ → κ → υ → σ) (s : σ) (writes : List (κ × υ)) : σ :=
  writes.foldl (fun s next => write s next.1 next.2) s

omit [DecidableEq κ] in
theorem writeAllConcat (s : σ) (writes : List (κ × υ)) (key : κ) (value : υ) :
    writeAll write s (writes ++ [(key, value)]) = write (writeAll write s writes) key value := by
  simp only [writeAll, List.foldl_append, List.foldl_cons, List.foldl_nil]

theorem lastWins (lawful : Lawful read write keep) (s : σ) (writes : List (κ × υ)) (key : κ) :
    read (writeAll write s writes) key = (lastWrite writes key).elim (read s key) (keep key (read s key)) := by
  induction writes using List.reverseRecOn with
  | nil => rfl
  | append_singleton writes next before =>
    obtain ⟨cell, value⟩ := next
    rw [writeAllConcat]
    by_cases same : key = cell
    · subst same
      rw [lawful.same, before, lastWriteSame]
      cases lastWrite writes key with
      | none => rfl
      | some old => exact lawful.covers key (read s key) old value
    · rw [lawful.other _ _ _ _ same, before, lastWriteOther writes same]

end Cells

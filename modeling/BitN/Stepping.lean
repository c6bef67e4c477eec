import BitN.Rp2040
import Mathlib.Data.Fin.Basic
import Mathlib.Tactic.Common

/-! What one step of a core does. -/
namespace BitN.Stepping

def listed (sys : Rp2040System) : List UInt32 := sys.breakpoints.toList.take sys.numBreakpoints.toNat

/-- A step stops at a breakpoint, fails in the decoder or counts a cycle. -/
inductive Outcome (sys : Rp2040System) (core : Fin 2) (result : Int) (after : Rp2040System) : Prop
  | hit (at_ : (sys.cores.get core).pc ∈ listed sys) (code : result = 1)
      (state : after = { sys with breakpointTriggered := true })
  | failed (away : (sys.cores.get core).pc ∉ listed sys) (code : result = -1) (cores : Vector ArmCoreState 2)
      (state : after = { sys with cores })
  | executed (away : (sys.cores.get core).pc ∉ listed sys) (code : result = 0) (cores : Vector ArmCoreState 2)
      (state : after = { sys with cores, cycleCount := sys.cycleCount + 1 })

theorem stepOutcome (board : Board) (sys : Rp2040System) (core : Fin 2) :
    Outcome sys core (rp2040StepCore board sys core).result (rp2040StepCore board sys core).system := by
  have inside : (0 : Int) ≤ core ∧ (core : Int) < 2 := by omega
  unfold rp2040StepCore
  rw [dif_pos inside]
  dsimp only [Int.toNat_natCast]
  split
  case isTrue hit => exact .hit (List.contains_iff_mem.mp hit) rfl rfl
  case isFalse away =>
    have away := fun held => away (List.contains_iff_mem.mpr held)
    split
    · exact .failed away rfl _ rfl
    · exact .executed away rfl _ rfl

theorem stepOutside (board : Board) (sys : Rp2040System) {coreId : Int} (outside : ¬ (0 ≤ coreId ∧ coreId < 2)) :
    rp2040StepCore board sys coreId = ⟨-1, sys, []⟩ := by
  unfold rp2040StepCore
  rw [dif_neg outside]

theorem stepSucceeds {board : Board} {sys : Rp2040System} {coreId : Int}
    (ok : ¬ (rp2040StepCore board sys coreId).result < 0) :
    ((∃ core : Fin 2, (sys.cores.get core).pc ∈ listed sys) ∧
      (rp2040StepCore board sys coreId).system = { sys with breakpointTriggered := true }) ∨
    ∃ cores, (rp2040StepCore board sys coreId).system = { sys with cores, cycleCount := sys.cycleCount + 1 } := by
  by_cases inside : 0 ≤ coreId ∧ coreId < 2
  · obtain ⟨core, rfl⟩ : ∃ core : Fin 2, ((core : Nat) : Int) = coreId :=
      ⟨⟨coreId.toNat, by omega⟩, Int.toNat_of_nonneg inside.1⟩
    cases stepOutcome board sys core with
    | hit at_ code state => exact .inl ⟨⟨core, at_⟩, state⟩
    | failed away code cores state => exact absurd (by rw [code]; decide) ok
    | executed away code cores state => exact .inr ⟨_, state⟩
  · rw [stepOutside board sys inside] at ok
    exact absurd (Int.neg_neg_of_pos Int.one_pos) ok

theorem hitExactly (board : Board) (sys : Rp2040System) (core : Fin 2) :
    (rp2040StepCore board sys core).result = 1 ↔ (sys.cores.get core).pc ∈ listed sys := by
  cases stepOutcome board sys core with
  | hit at_ code state => exact ⟨fun _ => at_, fun _ => code⟩
  | failed away code cores state =>
    rw [code]
    exact ⟨fun one => absurd one (by decide), fun held => absurd held away⟩
  | executed away code cores state =>
    rw [code]
    exact ⟨fun one => absurd one (by decide), fun held => absurd held away⟩

end BitN.Stepping

import BitN.Lib.Run
import BitN.Registers

/-! What a debugger does with the emulator: registers, memory, breakpoints and runs. -/
namespace BitN

def rp2040GetRegister (sys : Rp2040System) (coreId regNum : Int) : UInt32 :=
  if outside : coreId < 0 ∨ coreId ≥ 2 then 0
  else
    let i : Fin 2 := ⟨coreId.toNat, by omega⟩
    armGetRegister sys.cores[i] regNum

def rp2040SetRegister (sys : Rp2040System) (coreId regNum : Int) (value : UInt32) : Rp2040System :=
  if outside : coreId < 0 ∨ coreId ≥ 2 then sys
  else
    let i : Fin 2 := ⟨coreId.toNat, by omega⟩
    { sys with cores := sys.cores.set i (armSetRegister sys.cores[i] regNum value) }

-- The SRAM module is not part of the repository.
structure SramWords where
  sramReadWord : Sram → UInt32 → UInt32
  sramWriteWord : Sram → UInt32 → UInt32 → Sram

def rp2040ReadMemory (words : SramWords) (sys : Rp2040System) (addr : UInt32) : UInt32 :=
  if addr ≥ rp2040SramBase ∧ addr < rp2040SramBase + rp2040SramSize then
    words.sramReadWord sys.sram (addr - rp2040SramBase)
  else 0

def rp2040WriteMemory (words : SramWords) (sys : Rp2040System) (addr value : UInt32) : Rp2040System :=
  if addr ≥ rp2040SramBase ∧ addr < rp2040SramBase + rp2040SramSize then
    { sys with sram := words.sramWriteWord sys.sram (addr - rp2040SramBase) value }
  else sys

def rp2040AddBreakpoint (sys : Rp2040System) (addr : UInt32) : Rp2040System :=
  if sys.numBreakpoints ≥ 32 then sys
  else
    { sys with
      breakpoints := sys.breakpoints.setIfInBounds sys.numBreakpoints.toNat addr
      numBreakpoints := sys.numBreakpoints + 1 }

-- The last breakpoint takes the place of the first that has the address.
def rp2040RemoveBreakpoint (sys : Rp2040System) (addr : UInt32) : Rp2040System :=
  match (sys.breakpoints.toList.take sys.numBreakpoints.toNat).findIdx? (· == addr) with
  | none => sys
  | some i =>
    let numBreakpoints := sys.numBreakpoints - 1
    let last := sys.breakpoints.toList.getD numBreakpoints.toNat 0
    { sys with breakpoints := sys.breakpoints.setIfInBounds i last, numBreakpoints }

def rp2040ClearBreakpoints (sys : Rp2040System) : Rp2040System := { sys with numBreakpoints := 0 }

/-- A step that fails ends the run. -/
def rp2040StepOr (board : Board) : Run (Rp2040System × Int) (Unit ⊕ Int) := do
  let result ← fun (sys, lastCore) =>
    let (step, lastCore) := rp2040Step board lastCore sys
    (some step.result, step.system, lastCore)
  return if result < 0 then .inr (-1) else .inl ()

def rp2040RunWhile (board : Board) (going : Rp2040System → Bool) (fuel : Nat) : Run (Rp2040System × Int) Int :=
  Run.loop (fun _ => do
    if ← Run.read fun (sys, _) => going sys then rp2040StepOr board else return .inr 0) fuel ()

def rp2040RunUntilHalt (board : Board) (fuel : Nat) : Run (Rp2040System × Int) Int :=
  rp2040RunWhile board (fun sys => !sys.halted && !sys.breakpointTriggered) fuel

def rp2040RunCycles (board : Board) (cycles : UInt64) (fuel : Nat) : Run (Rp2040System × Int) Int := do
  let target ← Run.read fun (sys, _) => sys.cycleCount + cycles
  rp2040RunWhile board (fun sys => decide (sys.cycleCount < target) && !sys.halted && !sys.breakpointTriggered) fuel

end BitN

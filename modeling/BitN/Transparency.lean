import BitN.RunCycles
import Mathlib.Logic.Function.Iterate

/-! What a debugger cannot see to: breakpoints, single steps and runs decide how far each core
gets, never what it computes on the way. -/
namespace BitN.Transparency

open Stepping RunCycles

/-- Fetching and executing one instruction, with nobody watching. -/
def turn (board : Board) (sram : Sram) (core : ArmCoreState) : Int × ArmCoreState :=
  let (instr, instrLen, _) := rp2040Fetch board sram core.pc
  board.armThumb2Execute core instr instrLen

def plain (board : Board) (sram : Sram) (n : Nat) (core : ArmCoreState) : ArmCoreState :=
  (fun core => (turn board sram core).2)^[n] core

/-- The instructions among the first `n` that the decoder did not refuse. -/
def executed (board : Board) (sram : Sram) (core : ArmCoreState) : Nat → Nat
  | 0 => 0
  | n + 1 => executed board sram core n + if (turn board sram (plain board sram n core)).1 < 0 then 0 else 1

section plain
variable {board : Board} {sram : Sram} {core : ArmCoreState}

theorem plainAdd (m n : Nat) : plain board sram (m + n) core = plain board sram n (plain board sram m core) := by
  rw [plain, Nat.add_comm, Function.iterate_add_apply]
  rfl

theorem executedAdd (m n : Nat) :
    executed board sram core (m + n) =
      executed board sram core m + executed board sram (plain board sram m core) n := by
  induction n with
  | zero => rfl
  | succ n ih => rw [← Nat.add_assoc, executed, executed, ih, plainAdd, Nat.add_assoc]

end plain

/-- Each core has taken some turns of its own, the clock counts them, and nothing else has happened
to cores and memory. -/
structure Follows (board : Board) (before after : World) (turns : Fin 2 → Nat) : Prop where
  sram : after.1.sram = before.1.sram
  cores : ∀ i, after.1.cores.get i = plain board before.1.sram (turns i) (before.1.cores.get i)
  clock : after.1.cycleCount = before.1.cycleCount + UInt64.ofNat
    (executed board before.1.sram (before.1.cores.get 0) (turns 0) +
      executed board before.1.sram (before.1.cores.get 1) (turns 1))
  halted : after.1.halted = before.1.halted

section follows
variable {board : Board} {before between after : World} {turns turns' : Fin 2 → Nat}

theorem followsSame (sram : after.1.sram = before.1.sram) (cores : after.1.cores = before.1.cores)
    (clock : after.1.cycleCount = before.1.cycleCount) (halted : after.1.halted = before.1.halted) :
    Follows board before after fun _ => 0 :=
  ⟨sram, fun i => by rw [cores]; rfl, by rw [clock]; simp [executed], halted⟩

theorem followsTrans (first : Follows board before between turns) (second : Follows board between after turns') :
    Follows board before after fun i => turns i + turns' i where
  sram := second.sram.trans first.sram
  cores i := by rw [second.cores, first.sram, first.cores, plainAdd]
  clock := by
    rw [second.clock, first.clock, first.sram, first.cores, first.cores, executedAdd, executedAdd, UInt64.add_assoc,
      ← UInt64.ofNat_add]
    congr 2
    omega
  halted := second.halted.trans first.halted

end follows

def Watched (board : Board) (before after : World) : Prop := ∃ turns, Follows board before after turns

instance (board : Board) : IsPreorder World (Watched board) where
  refl _ := ⟨_, followsSame rfl rfl rfl rfl⟩
  trans _ _ _ first second := ⟨_, followsTrans first.choose_spec second.choose_spec⟩

/-- A step away from the breakpoints is a turn of its core. -/
structure Turned (board : Board) (sys : Rp2040System) (core : Fin 2) (result : Int) (after : Rp2040System) : Prop where
  result : result = if (turn board sys.sram (sys.cores.get core)).1 < 0 then -1 else 0
  here : after.cores.get core = (turn board sys.sram (sys.cores.get core)).2
  there : ∀ other, other ≠ core → after.cores.get other = sys.cores.get other
  clock : after.cycleCount = sys.cycleCount + if (turn board sys.sram (sys.cores.get core)).1 < 0 then 0 else 1
  sram : after.sram = sys.sram
  halted : after.halted = sys.halted
  triggered : after.breakpointTriggered = sys.breakpointTriggered
  breakpoints : after.breakpoints = sys.breakpoints
  numBreakpoints : after.numBreakpoints = sys.numBreakpoints

theorem stepTurned (board : Board) (sys : Rp2040System) (core : Fin 2) (away : (sys.cores.get core).pc ∉ listed sys) :
    Turned board sys core (rp2040StepCore board sys core).result (rp2040StepCore board sys core).system := by
  have inside : (0 : Int) ≤ core ∧ (core : Int) < 2 := by omega
  unfold rp2040StepCore
  rw [dif_pos inside]
  dsimp only [Int.toNat_natCast]
  have here (new : ArmCoreState) : (sys.cores.set core new core.isLt).get core = new :=
    Vector.getElem_set_self core.isLt
  have there (new : ArmCoreState) (other : Fin 2) (different : other ≠ core) :
      (sys.cores.set core new core.isLt).get other = sys.cores.get other :=
    Vector.getElem_set_ne core.isLt other.isLt (by omega)
  split
  case isTrue held => exact absurd (List.contains_iff_mem.mp held) away
  case isFalse =>
    split
    case isTrue fails =>
      have refused : (turn board sys.sram (sys.cores.get core)).1 < 0 := fails
      exact ⟨by rw [if_pos refused], here _, there _, by rw [if_pos refused, UInt64.add_zero], rfl, rfl, rfl, rfl, rfl⟩
    case isFalse ok =>
      have counted : ¬ (turn board sys.sram (sys.cores.get core)).1 < 0 := ok
      exact ⟨by rw [if_neg counted], here _, there _, by rw [if_neg counted], rfl, rfl, rfl, rfl, rfl⟩

theorem turnedFollows {board : Board} {sys after : Rp2040System} {core : Fin 2} {result : Int} {lastCore next : Int}
    (turned : Turned board sys core result after) :
    Follows board (sys, lastCore) (after, next) fun i => if i = core then 1 else 0 where
  sram := turned.sram
  cores i := by
    by_cases same : i = core
    · rw [if_pos same, same]
      exact turned.here
    · rw [if_neg same]
      exact turned.there i same
  clock := by
    have one (c : ArmCoreState) : executed board sys.sram c 1 = if (turn board sys.sram c).1 < 0 then 0 else 1 :=
      Nat.zero_add _
    refine turned.clock.trans (congrArg (sys.cycleCount + ·) ?_)
    have either : core = 0 ∨ core = 1 := by omega
    rcases either with rfl | rfl
    · change _ = UInt64.ofNat (executed board sys.sram (sys.cores.get 0) 1 + 0)
      rw [one]
      split <;> rfl
    · change _ = UInt64.ofNat (0 + executed board sys.sram (sys.cores.get 1) 1)
      rw [one]
      split <;> rfl
  halted := turned.halted

theorem coreWatched (board : Board) (sys : Rp2040System) (coreId lastCore next : Int) :
    Watched board (sys, lastCore) ((rp2040StepCore board sys coreId).system, next) := by
  by_cases inside : 0 ≤ coreId ∧ coreId < 2
  · obtain ⟨core, rfl⟩ : ∃ core : Fin 2, ((core : Nat) : Int) = coreId :=
      ⟨⟨coreId.toNat, by omega⟩, Int.toNat_of_nonneg inside.1⟩
    by_cases held : (sys.cores.get core).pc ∈ listed sys
    · cases stepOutcome board sys core with
      | hit at_ code state => exact ⟨_, followsSame (by rw [state]) (by rw [state]) (by rw [state]) (by rw [state])⟩
      | failed away code cores state => exact absurd held away
      | executed away code cores state => exact absurd held away
    · exact ⟨_, turnedFollows (stepTurned board sys core held)⟩
  · rw [stepOutside board sys inside]
    exact ⟨_, followsSame rfl rfl rfl rfl⟩

theorem whileWatched (board : Board) (going : Rp2040System → Bool) (fuel : Nat) :
    Run.Moves (Watched board) (rp2040RunWhile board going fuel) := by
  unfold rp2040RunWhile
  refine Run.movesLoop (fun _ => Run.movesBind (Run.movesRead _) fun goes => ?_) fuel ()
  refine Run.movesIte (fun _ => ?_) fun _ => Run.movesPure _
  unfold rp2040StepOr
  exact Run.movesBind (fun world => coreWatched board world.1 world.2 world.2 _) fun _ => Run.movesPure _

theorem cyclesWatched (board : Board) (cycles : UInt64) (fuel : Nat) :
    Run.Moves (Watched board) (rp2040RunCycles board cycles fuel) :=
  Run.movesBind (Run.movesRead _) fun _ => whileWatched board _ fuel

/-- The calls that leave registers and memory alone, but for what the cores do themselves. -/
def Watches : Call → Prop
  | .loadElf _ | .loadBinary .. | .setRegister .. | .writeMemory .. => False
  | .step | .stepCore _ | .runUntilHalt | .runCycles _ | .addBreakpoint _ | .removeBreakpoint _ | .clearBreakpoints
  | .other | .stepOtherSystem => True

def Session (board : Board) (words : SramWords) : World → World → Prop :=
  Relation.ReflTransGen fun before after => ∃ call, Watches call ∧ Returns board words before call after

theorem callWatched {board : Board} {words : SramWords} {before after : World} {call : Call} (watches : Watches call)
    (returns : Returns board words before call after) : Watched board before after := by
  obtain ⟨sys, lastCore⟩ := before
  cases call with
  | step =>
    obtain rfl := returns
    exact coreWatched board sys lastCore lastCore _
  | stepCore coreId =>
    obtain rfl := returns
    exact coreWatched board sys coreId lastCore lastCore
  | runUntilHalt =>
    obtain ⟨fuel, result, ran⟩ := returns
    have moved := whileWatched board (fun sys => !sys.halted && !sys.breakpointTriggered) fuel (sys, lastCore)
    rwa [← rp2040RunUntilHalt, ran] at moved
  | runCycles cycles =>
    obtain ⟨fuel, result, ran⟩ := returns
    have moved := cyclesWatched board cycles fuel (sys, lastCore)
    rwa [ran] at moved
  | addBreakpoint addr =>
    obtain rfl := returns
    unfold rp2040AddBreakpoint
    split <;> exact ⟨_, followsSame rfl rfl rfl rfl⟩
  | removeBreakpoint addr =>
    obtain rfl := returns
    unfold rp2040RemoveBreakpoint
    split <;> exact ⟨_, followsSame rfl rfl rfl rfl⟩
  | clearBreakpoints =>
    obtain rfl := returns
    exact ⟨_, followsSame rfl rfl rfl rfl⟩
  | other =>
    obtain rfl := returns
    exact refl_of (Watched board) _
  | stepOtherSystem =>
    obtain rfl := returns
    exact ⟨_, followsSame rfl rfl rfl rfl⟩
  | loadElf | loadBinary | setRegister | writeMemory => exact watches.elim

/-- In a session of any length, whatever breakpoints come and go, each core is where it would have got
by itself after as many turns. -/
theorem sessionTransparent {board : Board} {words : SramWords} {before after : World}
    (session : Session board words before after) : ∃ turns, Follows board before after turns := by
  suffices watched : Watched board before after from watched
  induction session with
  | refl => exact refl_of (Watched board) before
  | tail _ next watched =>
    obtain ⟨call, watches, returns⟩ := next
    exact trans_of (Watched board) watched (callWatched watches returns)

-- Both cores run from 0, and core 0 up to the breakpoint.
def armed : World := (rp2040AddBreakpoint (rp2040Create nopBoard) 4, 0)

def atBreakpoint : World := (rp2040RunUntilHalt nopBoard 9 armed).2

theorem armedFollowed : ∃ turns, Follows nopBoard (rp2040Create nopBoard, 0) atBreakpoint turns :=
  @sessionTransparent nopBoard MemoryWords.wordsInPlace _ _ <|
    .tail (.tail .refl ⟨.addBreakpoint 4, trivial, rfl⟩) ⟨.runUntilHalt, trivial, 9, 0, Prod.ext (by decide) rfl⟩

end BitN.Transparency

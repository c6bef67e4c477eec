import BitN.MemoryWords
import BitN.Stepping
import Mathlib.Algebra.Group.Nat.Defs
import Mathlib.Data.Fin.Basic
import Mathlib.Logic.Relation

/-! Runs for a number of cycles, from every state that a session can leave. The flag that a
breakpoint sets is never taken back, and the last cycle is computed in 64 bits. -/
namespace BitN.RunCycles
open Stepping

/-- The system, and the core whose turn it is in the process. -/
abbrev World := Rp2040System × Int

inductive Call where
  | loadElf (file : Option (List (List UInt8)))
  | loadBinary (addr : UInt32) (data : List UInt8) (len : UInt32)
  | step
  | stepCore (coreId : Int)
  | runUntilHalt
  | runCycles (cycles : UInt64)
  | setRegister (coreId regNum : Int) (value : UInt32)
  | writeMemory (addr value : UInt32)
  | addBreakpoint (addr : UInt32)
  | removeBreakpoint (addr : UInt32)
  | clearBreakpoints
  -- Reads, and what has to do with the GPIO and the UARTs.
  | other
  | stepOtherSystem

def Returns (board : Board) (words : SramWords) (before : World) : Call → World → Prop
  | .loadElf file, after => after = ((rp2040LoadElf before.1 file).2, before.2)
  | .loadBinary addr data len, after => after = ((rp2040LoadBinary before.1 addr data len).2, before.2)
  | .step, after =>
    after = ((rp2040Step board before.2 before.1).1.system, (rp2040Step board before.2 before.1).2)
  | .stepCore coreId, after => after = ((rp2040StepCore board before.1 coreId).system, before.2)
  | .runUntilHalt, after => ∃ fuel result, rp2040RunUntilHalt board fuel before = (some result, after)
  | .runCycles cycles, after => ∃ fuel result, rp2040RunCycles board cycles fuel before = (some result, after)
  | .setRegister coreId regNum value, after => after = (rp2040SetRegister before.1 coreId regNum value, before.2)
  | .writeMemory addr value, after => after = (rp2040WriteMemory words before.1 addr value, before.2)
  | .addBreakpoint addr, after => after = (rp2040AddBreakpoint before.1 addr, before.2)
  | .removeBreakpoint addr, after => after = (rp2040RemoveBreakpoint before.1 addr, before.2)
  | .clearBreakpoints, after => after = (rp2040ClearBreakpoints before.1, before.2)
  | .other, after => after = before
  | .stepOtherSystem, after => after = (before.1, (before.2 + 1) % 2)

def Next (board : Board) (words : SramWords) (before after : World) : Prop :=
  ∃ call, Returns board words before call after

def Reachable (board : Board) (words : SramWords) : World → Prop :=
  Relation.ReflTransGen (Next board words) (rp2040Create board, 0)

/-- The reasons for a run to end: it has taken its cycles, the system is halted or a core is at a breakpoint. -/
def Genuine (cycles : UInt64) (before after : Rp2040System) : Prop :=
  after.cycleCount.toNat = before.cycleCount.toNat + cycles.toNat ∨ after.halted = true ∨
    ∃ core : Fin 2, (after.cores.get core).pc ∈ listed after

structure Runs (board : Board) (world : World) (cycles : UInt64) : Prop where
  returns : ∃ fuel result after, rp2040RunCycles board cycles fuel world = (some result, after)
  genuine : ∀ fuel after, rp2040RunCycles board cycles fuel world = (some 0, after) → Genuine cycles world.1 after.1

/-! What no call changes -/

/-- Nothing halts a system, and nothing takes a breakpoint hit back. -/
structure Keeps (before after : World) : Prop where
  halted : after.1.halted = before.1.halted
  latch : before.1.breakpointTriggered = true → after.1.breakpointTriggered = true

instance : IsPreorder World Keeps where
  refl _ := ⟨rfl, id⟩
  trans _ _ _ one two := ⟨two.halted.trans one.halted, fun hit => two.latch (one.latch hit)⟩

theorem keepsStep (board : Board) (sys : Rp2040System) (coreId lastCore next : Int) :
    Keeps (sys, lastCore) ((rp2040StepCore board sys coreId).system, next) := by
  by_cases inside : 0 ≤ coreId ∧ coreId < 2
  · obtain ⟨core, rfl⟩ : ∃ core : Fin 2, ((core : Nat) : Int) = coreId :=
      ⟨⟨coreId.toNat, by omega⟩, Int.toNat_of_nonneg inside.1⟩
    cases stepOutcome board sys core with
    | hit at_ code state => exact ⟨by rw [state], fun _ => by rw [state]⟩
    | failed away code cores state => exact ⟨by rw [state], fun hit => by rw [state]; exact hit⟩
    | executed away code cores state => exact ⟨by rw [state], fun hit => by rw [state]; exact hit⟩
  · rw [stepOutside board sys inside]
    exact ⟨rfl, id⟩

theorem keepsStepOr (board : Board) : Run.Moves Keeps (rp2040StepOr board) := by
  unfold rp2040StepOr
  exact Run.movesBind (fun world => keepsStep board world.1 world.2 world.2 _) fun _ => Run.movesPure _

theorem keepsWhile (board : Board) (going : Rp2040System → Bool) (fuel : Nat) :
    Run.Moves Keeps (rp2040RunWhile board going fuel) := by
  unfold rp2040RunWhile
  refine Run.movesLoop (fun _ => Run.movesBind (Run.movesRead _) fun goes => ?_) fuel ()
  exact Run.movesIte (fun _ => keepsStepOr board) fun _ => Run.movesPure _

theorem keepsRunCycles (board : Board) (cycles : UInt64) (fuel : Nat) :
    Run.Moves Keeps (rp2040RunCycles board cycles fuel) :=
  Run.movesBind (Run.movesRead _) fun _ => keepsWhile board _ fuel

theorem keepsLoad (sys : Rp2040System) (addr : UInt32) (data : List UInt8) (len : UInt32) (lastCore : Int) :
    Keeps (sys, lastCore) ((rp2040LoadBinary sys addr data len).2, lastCore) := by
  unfold rp2040LoadBinary
  split
  · exact ⟨rfl, id⟩
  · exact ⟨rfl, id⟩

theorem keepsChunks (sys : Rp2040System) (addr : UInt32) (chunks : List (List UInt8)) (lastCore : Int) :
    Keeps (sys, lastCore) ((rp2040LoadChunks sys addr chunks).2, lastCore) := by
  induction chunks generalizing sys addr with
  | nil => exact ⟨rfl, id⟩
  | cons buffer chunks next =>
    have load := keepsLoad sys addr buffer (UInt32.ofNat buffer.length) lastCore
    unfold rp2040LoadChunks
    dsimp only
    split
    · split
      · exact load
      · exact trans_of Keeps load (next _ _)
    · exact ⟨rfl, id⟩

theorem keepsElf (sys : Rp2040System) (file : Option (List (List UInt8))) (lastCore : Int) :
    Keeps (sys, lastCore) ((rp2040LoadElf sys file).2, lastCore) := by
  cases file with
  | none => exact ⟨rfl, id⟩
  | some chunks =>
    have load := keepsChunks sys rp2040SramBase chunks lastCore
    unfold rp2040LoadElf
    dsimp only
    split
    · exact load
    · exact ⟨load.halted, load.latch⟩

theorem keepsRegister (sys : Rp2040System) (coreId regNum : Int) (value : UInt32) (lastCore : Int) :
    Keeps (sys, lastCore) (rp2040SetRegister sys coreId regNum value, lastCore) := by
  unfold rp2040SetRegister
  split
  · exact ⟨rfl, id⟩
  · exact ⟨rfl, id⟩

theorem keepsMemory (words : SramWords) (sys : Rp2040System) (addr value : UInt32) (lastCore : Int) :
    Keeps (sys, lastCore) (rp2040WriteMemory words sys addr value, lastCore) := by
  unfold rp2040WriteMemory
  split
  · exact ⟨rfl, id⟩
  · exact ⟨rfl, id⟩

theorem keepsAdd (sys : Rp2040System) (addr : UInt32) (lastCore : Int) :
    Keeps (sys, lastCore) (rp2040AddBreakpoint sys addr, lastCore) := by
  unfold rp2040AddBreakpoint
  split
  · exact ⟨rfl, id⟩
  · exact ⟨rfl, id⟩

theorem keepsRemove (sys : Rp2040System) (addr : UInt32) (lastCore : Int) :
    Keeps (sys, lastCore) (rp2040RemoveBreakpoint sys addr, lastCore) := by
  unfold rp2040RemoveBreakpoint
  split
  · exact ⟨rfl, id⟩
  · exact ⟨rfl, id⟩

theorem keepsCall {board : Board} {words : SramWords} {before after : World} {call : Call}
    (returns : Returns board words before call after) : Keeps before after := by
  obtain ⟨sys, lastCore⟩ := before
  cases call with
  | loadElf file =>
    obtain rfl := returns
    exact keepsElf sys file lastCore
  | loadBinary addr data len =>
    obtain rfl := returns
    exact keepsLoad sys addr data len lastCore
  | step =>
    obtain rfl := returns
    exact keepsStep board sys lastCore lastCore _
  | stepCore coreId =>
    obtain rfl := returns
    exact keepsStep board sys coreId lastCore lastCore
  | runUntilHalt =>
    obtain ⟨fuel, result, ran⟩ := returns
    have kept := keepsWhile board (fun sys => !sys.halted && !sys.breakpointTriggered) fuel (sys, lastCore)
    unfold rp2040RunUntilHalt at ran
    rwa [ran] at kept
  | runCycles cycles =>
    obtain ⟨fuel, result, ran⟩ := returns
    have kept := keepsRunCycles board cycles fuel (sys, lastCore)
    rwa [ran] at kept
  | setRegister coreId regNum value =>
    obtain rfl := returns
    exact keepsRegister sys coreId regNum value lastCore
  | writeMemory addr value =>
    obtain rfl := returns
    exact keepsMemory words sys addr value lastCore
  | addBreakpoint addr =>
    obtain rfl := returns
    exact keepsAdd sys addr lastCore
  | removeBreakpoint addr =>
    obtain rfl := returns
    exact keepsRemove sys addr lastCore
  | clearBreakpoints =>
    obtain rfl := returns
    exact ⟨rfl, id⟩
  | other =>
    obtain rfl := returns
    exact refl_of Keeps _
  | stepOtherSystem =>
    obtain rfl := returns
    exact ⟨rfl, id⟩

theorem keepsLater {board : Board} {words : SramWords} {before after : World}
    (later : Relation.ReflTransGen (Next board words) before after) : Keeps before after := by
  induction later with
  | refl => exact refl_of Keeps before
  | tail _ next kept =>
    obtain ⟨call, returns⟩ := next
    exact trans_of Keeps kept (keepsCall returns)

theorem neverHalted {board : Board} {words : SramWords} {world : World} (reachable : Reachable board words world) :
    world.1.halted = false :=
  (keepsLater reachable).halted

/-! The loop -/

def going (target : UInt64) (sys : Rp2040System) : Bool :=
  decide (sys.cycleCount < target) && !sys.halted && !sys.breakpointTriggered

theorem goingExactly {target : UInt64} {sys : Rp2040System} : going target sys = true ↔
    sys.cycleCount.toNat < target.toNat ∧ sys.halted = false ∧ sys.breakpointTriggered = false := by
  unfold going
  simp only [Bool.and_eq_true, decide_eq_true_eq, Bool.not_eq_true', UInt64.lt_iff_toNat_lt, and_assoc]

def round (board : Board) (going : Rp2040System → Bool) : Unit → Run World (Unit ⊕ Int) := fun _ => do
  if ← Run.read fun (sys, _) => going sys then rp2040StepOr board else return .inr 0

def stepped (board : Board) (world : World) : World :=
  ((rp2040Step board world.2 world.1).1.system, (rp2040Step board world.2 world.1).2)

theorem roundStops {board : Board} {going : Rp2040System → Bool} {world : World} (stop : going world.1 = false) :
    round board going () world = (some (.inr 0), world) := by
  obtain ⟨sys, lastCore⟩ := world
  unfold round
  rw [Run.bindRead, Run.iteApply]
  exact if_neg (Bool.eq_false_iff.mp stop)

theorem roundSteps {board : Board} {going : Rp2040System → Bool} {world : World} (goes : going world.1 = true) :
    round board going () world =
      (some (if (rp2040StepCore board world.1 world.2).result < 0 then .inr (-1) else .inl ()), stepped board world) := by
  obtain ⟨sys, lastCore⟩ := world
  unfold round
  rw [Run.bindRead, Run.iteApply]
  exact if_pos goes

theorem runCyclesLoop (board : Board) (cycles : UInt64) (fuel : Nat) (world : World) :
    rp2040RunCycles board cycles fuel world =
      Run.loop (round board (going (world.1.cycleCount + cycles))) fuel () world := rfl

theorem runsNot {board : Board} {cycles : UInt64} {world : World}
    (stop : going (world.1.cycleCount + cycles) world.1 = false) (fuel : Nat) :
    rp2040RunCycles board cycles (fuel + 1) world = (some 0, world) := by
  rw [runCyclesLoop, Run.loop, Run.bindStep (roundStops stop)]
  rfl

def left (target : UInt64) (sys : Rp2040System) : Nat :=
  if sys.breakpointTriggered then 0 else target.toNat - sys.cycleCount.toNat + 1

theorem countUp {count target : UInt64} (below : count.toNat < target.toNat) : (count + 1).toNat = count.toNat + 1 := by
  rw [UInt64.toNat_add]
  exact Nat.mod_eq_of_lt (Nat.lt_of_le_of_lt below target.toNat_lt)

theorem roundComesDown (board : Board) (target : UInt64) (world : World) :
    ∃ out after, round board (going target) () world = (some out, after) ∧
      ∀ next, out = .inl next → left target after.1 < left target world.1 := by
  cases goes : going target world.1 with
  | false => exact ⟨_, _, roundStops goes, fun next on => by cases on⟩
  | true =>
    obtain ⟨below, _, fresh⟩ := goingExactly.mp goes
    refine ⟨_, _, roundSteps goes, fun next on => ?_⟩
    have ok : ¬ (rp2040StepCore board world.1 world.2).result < 0 := by
      intro fails
      rw [if_pos fails] at on
      cases on
    unfold left
    rw [fresh, if_neg Bool.false_ne_true]
    obtain ⟨_, state⟩ | ⟨cores, state⟩ := stepSucceeds ok
    · have hit : (stepped board world).1.breakpointTriggered = true := congrArg Rp2040System.breakpointTriggered state
      rw [if_pos hit]
      exact Nat.succ_pos _
    · have same : (stepped board world).1.breakpointTriggered = false :=
        (congrArg Rp2040System.breakpointTriggered state).trans fresh
      have count : (stepped board world).1.cycleCount = world.1.cycleCount + 1 := congrArg Rp2040System.cycleCount state
      rw [same, if_neg Bool.false_ne_true, count, countUp below]
      omega

/-- Every run returns: each step counts a cycle, stops at a breakpoint or fails. -/
theorem runReturns (board : Board) (cycles : UInt64) (world : World) :
    ∃ fuel result after, rp2040RunCycles board cycles fuel world = (some result, after) := by
  refine ⟨left (world.1.cycleCount + cycles) world.1 + 1, ?_⟩
  rw [runCyclesLoop]
  exact Run.loopEnds (fun _ world' => left (world.1.cycleCount + cycles) world'.1)
    (fun _ world' => roundComesDown board (world.1.cycleCount + cycles) world') (Nat.lt_succ_self _)

/-- What a run that is not behind its last cycle keeps to. -/
structure Underway (target : UInt64) (sys : Rp2040System) : Prop where
  before : sys.cycleCount.toNat ≤ target.toNat
  hit : sys.breakpointTriggered = true → ∃ core : Fin 2, (sys.cores.get core).pc ∈ listed sys

theorem underwayStep {board : Board} {target : UInt64} {world : World} (goes : going target world.1 = true)
    (ok : ¬ (rp2040StepCore board world.1 world.2).result < 0) : Underway target (stepped board world).1 := by
  obtain ⟨below, _, fresh⟩ := goingExactly.mp goes
  obtain ⟨at_, state⟩ | ⟨cores, state⟩ := stepSucceeds ok
  · change Underway target (rp2040StepCore board world.1 world.2).system
    rw [state]
    exact ⟨Nat.le_of_lt below, fun _ => at_⟩
  · change Underway target (rp2040StepCore board world.1 world.2).system
    rw [state]
    refine ⟨?_, fun hit => ?_⟩
    · rw [countUp below]
      exact below
    · rw [show world.1.breakpointTriggered = true from hit] at fresh
      cases fresh

theorem loopStops {board : Board} {going : Rp2040System → Bool} (Inv : Rp2040System → Prop)
    (kept : ∀ world : World, going world.1 = true → ¬ (rp2040StepCore board world.1 world.2).result < 0 →
      Inv (stepped board world).1)
    {fuel : Nat} {world after : World} (start : Inv world.1)
    (ran : Run.loop (round board going) fuel () world = (some 0, after)) : Inv after.1 ∧ going after.1 = false := by
  refine Run.loopReturns (fun _ world' => Inv world'.1)
    (fun result world' => result = 0 → Inv world'.1 ∧ going world'.1 = false) ?_ ?_ start ran rfl
  · intro _ world' next later inv on
    cases goes : going world'.1 with
    | false =>
      rw [roundStops goes] at on
      cases on
    | true =>
      by_cases fails : (rp2040StepCore board world'.1 world'.2).result < 0
      · rw [roundSteps goes, if_pos fails] at on
        cases on
      · rw [roundSteps goes, if_neg fails] at on
        cases on
        exact kept world' goes fails
  · intro _ world' result later inv off zero
    cases goes : going world'.1 with
    | false =>
      rw [roundStops goes] at off
      cases off
      exact ⟨inv, goes⟩
    | true =>
      by_cases fails : (rp2040StepCore board world'.1 world'.2).result < 0
      · rw [roundSteps goes, if_pos fails, zero] at off
        cases off
      · rw [roundSteps goes, if_neg fails] at off
        cases off

theorem underwayGenuine {board : Board} {cycles : UInt64} {fuel : Nat} {world after : World}
    (fresh : world.1.breakpointTriggered = false) (whole : world.1.cycleCount.toNat + cycles.toNat < 2 ^ 64)
    (ran : rp2040RunCycles board cycles fuel world = (some 0, after)) : Genuine cycles world.1 after.1 := by
  have target : (world.1.cycleCount + cycles).toNat = world.1.cycleCount.toNat + cycles.toNat := by
    rw [UInt64.toNat_add]
    exact Nat.mod_eq_of_lt whole
  have start : Underway (world.1.cycleCount + cycles) world.1 := by
    refine ⟨by omega, fun hit => ?_⟩
    rw [fresh] at hit
    cases hit
  rw [runCyclesLoop] at ran
  obtain ⟨underway, stopped⟩ := loopStops (Underway (world.1.cycleCount + cycles)) (fun _ => underwayStep) start ran
  unfold Genuine
  by_cases below : after.1.cycleCount.toNat < (world.1.cycleCount + cycles).toNat
  · cases halted : after.1.halted with
    | true => exact .inr (.inl rfl)
    | false =>
      cases hit : after.1.breakpointTriggered with
      | true => exact .inr (.inr (underway.hit hit))
      | false =>
        rw [goingExactly.mpr ⟨below, halted, hit⟩] at stopped
        cases stopped
  · have := underway.before
    exact .inl (by omega)

/-! Every run of a session -/

theorem stopsAtOnce {board : Board} {cycles : UInt64} {world : World}
    (bad : world.1.breakpointTriggered = true ∨ 2 ^ 64 ≤ world.1.cycleCount.toNat + cycles.toNat) (fuel : Nat) :
    rp2040RunCycles board cycles (fuel + 1) world = (some 0, world) := by
  apply runsNot
  rw [Bool.eq_false_iff]
  intro goes
  obtain ⟨below, _, fresh⟩ := goingExactly.mp goes
  obtain hit | wraps := bad
  · rw [hit] at fresh
    cases fresh
  · have := cycles.toNat_lt
    rw [UInt64.toNat_add] at below
    omega

/-- A run ends for one of its reasons exactly when it is empty, a core is at a breakpoint from the
start, or no breakpoint has been hit before and the count does not overflow. -/
theorem runsExactly {board : Board} {words : SramWords} {world : World} (reachable : Reachable board words world)
    (cycles : UInt64) : Runs board world cycles ↔
      cycles = 0 ∨ (∃ core : Fin 2, (world.1.cores.get core).pc ∈ listed world.1) ∨
        (world.1.breakpointTriggered = false ∧ world.1.cycleCount.toNat + cycles.toNat < 2 ^ 64) := by
  by_cases good : world.1.breakpointTriggered = false ∧ world.1.cycleCount.toNat + cycles.toNat < 2 ^ 64
  · exact ⟨fun _ => .inr (.inr good),
      fun _ => ⟨runReturns board cycles world, fun _ _ ran => underwayGenuine good.1 good.2 ran⟩⟩
  · have bad : world.1.breakpointTriggered = true ∨ 2 ^ 64 ≤ world.1.cycleCount.toNat + cycles.toNat := by
      rwa [not_and_or, Bool.not_eq_false, Nat.not_lt] at good
    have atOnce : ∀ fuel after, rp2040RunCycles board cycles fuel world = (some 0, after) → after = world := by
      intro fuel after ran
      cases fuel with
      | zero => cases ran
      | succ fuel =>
        rw [stopsAtOnce bad fuel] at ran
        cases ran
        rfl
    constructor
    · intro runs
      obtain grown | halted | at_ := runs.genuine 1 world (stopsAtOnce bad 0)
      · exact .inl (UInt64.toNat_inj.mp (by change _ = 0; omega))
      · rw [neverHalted reachable] at halted
        cases halted
      · exact .inr (.inl at_)
    · intro reason
      refine ⟨runReturns board cycles world, fun fuel after ran => ?_⟩
      obtain rfl := atOnce fuel after ran
      obtain rfl | at_ | fresh := reason
      · exact .inl rfl
      · exact .inr (.inr at_)
      · exact absurd fresh good

/-- After a breakpoint hit no run does anything, whatever is called in between. -/
theorem hitForever {board : Board} {words : SramWords} {world later : World}
    (hit : world.1.breakpointTriggered = true) (calls : Relation.ReflTransGen (Next board words) world later)
    (cycles : UInt64) (fuel : Nat) : rp2040RunCycles board cycles (fuel + 1) later = (some 0, later) :=
  stopsAtOnce (.inl ((keepsLater calls).latch hit)) fuel

theorem createdRuns : Runs nopBoard (rp2040Create nopBoard, 0) 5 :=
  (@runsExactly nopBoard MemoryWords.wordsInPlace (rp2040Create nopBoard, 0) .refl 5).mpr (.inr (.inr ⟨rfl, by decide⟩))

/-- A breakpoint at the start of core 0, hit and taken away again. -/
def cleared : World :=
  (rp2040ClearBreakpoints (rp2040StepCore nopBoard (rp2040AddBreakpoint (rp2040Create nopBoard) 0) 0).system, 1)

theorem clearedReachable : Reachable nopBoard MemoryWords.wordsInPlace cleared := by
  refine .tail (.tail (.tail .refl ⟨.addBreakpoint 0, rfl⟩) ⟨.step, rfl⟩) ⟨.clearBreakpoints, rfl⟩

-- Without a breakpoint, and no cycle taken.
theorem clearedStops : Reachable nopBoard MemoryWords.wordsInPlace cleared ∧ listed cleared.1 = [] ∧
    (∀ fuel, rp2040RunCycles nopBoard 5 (fuel + 1) cleared = (some 0, cleared)) ∧ ¬ Runs nopBoard cleared 5 := by
  have atOnce : ∀ fuel, rp2040RunCycles nopBoard 5 (fuel + 1) cleared = (some 0, cleared) := stopsAtOnce (.inl rfl)
  refine ⟨clearedReachable, rfl, atOnce, fun runs => ?_⟩
  obtain grown | halted | ⟨core, at_⟩ := runs.genuine 1 cleared (atOnce 0)
  · exact absurd grown (by decide)
  · cases halted
  · exact absurd at_ (List.not_mem_nil)

end BitN.RunCycles

import BitN.Rp2040
import Mathlib.Data.Fin.Basic
import Mathlib.Tactic.Common

/-! Where the emulator fetches instructions: wherever the pc of a core points, in the SRAM or not. -/
namespace BitN.InstructionFetch

-- As `rp2040_read_memory` checks an address.
def InSram (pc : UInt32) : Prop := rp2040SramBase ≤ pc ∧ pc < rp2040SramBase + rp2040SramSize

/-- A step fetches inside the SRAM only, and not at all for a pc outside. -/
structure Guarded (board : Board) (sys : Rp2040System) (coreId : Int) : Prop where
  inRange : ∀ o ∈ (rp2040StepCore board sys coreId).fetches, o.toNat + 2 ≤ rp2040SramSize.toNat
  outside : ∀ core, sys.cores[coreId.toNat]? = some core → ¬ InSram core.pc →
    (rp2040StepCore board sys coreId).result = -1 ∧ (rp2040StepCore board sys coreId).fetches = []

def Room (board : Board) (sys : Rp2040System) (coreId : Fin 2) : Prop :=
  (sys.cores[coreId].pc - rp2040SramBase).toNat + 2 ≤ rp2040SramSize.toNat ∧
    (isWide (board.sramReadHalfword sys.sram (sys.cores[coreId].pc - rp2040SramBase)) = true →
      (sys.cores[coreId].pc - rp2040SramBase).toNat + 4 ≤ rp2040SramSize.toNat)

/-! One step -/

theorem stepFetches (board : Board) {sys : Rp2040System} (free : sys.numBreakpoints = 0) (coreId : Fin 2) :
    (rp2040StepCore board sys (coreId : Nat)).fetches = (rp2040Fetch board sys.sram sys.cores[coreId].pc).2.2 := by
  have inside : (0 : Int) ≤ (coreId : Nat) ∧ ((coreId : Nat) : Int) < 2 := by omega
  unfold rp2040StepCore
  rw [dif_pos inside, free]
  dsimp only
  split
  · rename_i stopped
    cases stopped
  · split <;> rfl

theorem stepKeeps (board : Board) (sys : Rp2040System) (coreId : Int) :
    (rp2040StepCore board sys coreId).system.numBreakpoints = sys.numBreakpoints ∧
      ∀ other : Fin 2, ((other : Nat) : Int) ≠ coreId →
        (rp2040StepCore board sys coreId).system.cores[other] = sys.cores[other] := by
  unfold rp2040StepCore
  split
  · rename_i inside
    dsimp only
    split
    · exact ⟨rfl, fun _ _ => rfl⟩
    · have kept : ∀ core, ∀ other : Fin 2, ((other : Nat) : Int) ≠ coreId →
          (sys.cores.set coreId.toNat core (by omega))[other] = sys.cores[other] := fun core other differs =>
        Vector.getElem_set_ne _ _ (by omega)
      split <;> exact ⟨rfl, kept _⟩
  · exact ⟨rfl, fun _ _ => rfl⟩

theorem insideOffset (pc : UInt32) : InSram pc ↔ (pc - rp2040SramBase).toNat < rp2040SramSize.toNat := by
  have base : rp2040SramBase.toNat = 0x20000000 := rfl
  have size : rp2040SramSize.toNat = 0x42800 := rfl
  have limit : (rp2040SramBase + rp2040SramSize).toNat = 0x20042800 := rfl
  have bound := pc.toNat_lt
  unfold InSram
  rw [UInt32.le_iff_toNat_le, UInt32.lt_iff_toNat_lt, UInt32.toNat_sub, base, size, limit]
  omega

theorem nextOffset (pc : UInt32) :
    (pc + 2 - rp2040SramBase).toNat = ((pc - rp2040SramBase).toNat + 2) % 0x100000000 := by
  have base : rp2040SramBase.toNat = 0x20000000 := rfl
  have two : (2 : UInt32).toNat = 2 := rfl
  have bound := pc.toNat_lt
  rw [UInt32.toNat_sub, UInt32.toNat_sub, UInt32.toNat_add, base, two]
  omega

theorem guardedRoom (board : Board) {sys : Rp2040System} (free : sys.numBreakpoints = 0) (coreId : Fin 2) :
    Guarded board sys (coreId : Nat) ↔ Room board sys coreId := by
  have fetches := stepFetches board free coreId
  have size : rp2040SramSize.toNat = 0x42800 := rfl
  have next := nextOffset sys.cores[coreId].pc
  have bound := (sys.cores[coreId].pc - rp2040SramBase).toNat_lt
  have first : sys.cores[coreId].pc - rp2040SramBase ∈ (rp2040StepCore board sys (coreId : Nat)).fetches := by
    rw [fetches]
    unfold rp2040Fetch
    dsimp only
    split <;> exact List.mem_cons_self
  constructor
  · intro guarded
    refine ⟨guarded.inRange _ first, fun wide => ?_⟩
    have second : sys.cores[coreId].pc + 2 - rp2040SramBase ∈ (rp2040StepCore board sys (coreId : Nat)).fetches := by
      rw [fetches]
      unfold rp2040Fetch
      rw [if_pos wide]
      exact List.mem_cons_of_mem _ List.mem_cons_self
    have here := guarded.inRange _ first
    have there := guarded.inRange _ second
    omega
  · intro ⟨here, there⟩
    refine ⟨fun o member => ?_, fun core found outside => ?_⟩
    · rw [fetches] at member
      unfold rp2040Fetch at member
      dsimp only at member
      split at member
      · rename_i wide
        have there := there wide
        rcases List.mem_cons.mp member with rfl | member
        · exact here
        · obtain rfl := List.mem_singleton.mp member
          omega
      · obtain rfl := List.mem_singleton.mp member
        exact here
    · obtain rfl : sys.cores[coreId] = core := by
        have inside : ((coreId : Nat) : Int).toNat < 2 := by omega
        rw [Vector.getElem?_eq_getElem inside] at found
        exact Option.some.inj found
      exact absurd ((insideOffset _).mpr (by omega)) outside

/-! Runs -/

theorem stepsKeep (board : Board) (sys : Rp2040System) (lastCore : Int) (n : Nat) :
    (rp2040Steps board lastCore sys n).1.numBreakpoints = sys.numBreakpoints := by
  induction n with
  | zero => rfl
  | succ n ih => exact (stepKeeps board _ _).1.trans ih

structure Loaded (sys : Rp2040System) : Prop where
  first : sys.cores[(0 : Fin 2)].pc = rp2040SramBase
  second : sys.cores[(1 : Fin 2)].pc = 0
  free : sys.numBreakpoints = 0

theorem chunksKeep {sys after : Rp2040System} {addr : UInt32} {chunks : List (List UInt8)} {result : Int}
    (loaded : rp2040LoadChunks sys addr chunks = (result, after)) :
    after.cores = sys.cores ∧ after.numBreakpoints = sys.numBreakpoints := by
  induction chunks generalizing sys addr with
  | nil => cases loaded; exact ⟨rfl, rfl⟩
  | cons buffer chunks ih =>
    unfold rp2040LoadChunks at loaded
    dsimp only at loaded
    split at loaded
    · have kept : (rp2040LoadBinary sys addr buffer (UInt32.ofNat buffer.length)).2.cores = sys.cores ∧
          (rp2040LoadBinary sys addr buffer (UInt32.ofNat buffer.length)).2.numBreakpoints = sys.numBreakpoints := by
        unfold rp2040LoadBinary
        split <;> exact ⟨rfl, rfl⟩
      split at loaded
      · cases loaded
        exact kept
      · obtain ⟨cores, breakpoints⟩ := ih loaded
        exact ⟨cores.trans kept.1, breakpoints.trans kept.2⟩
    · cases loaded
      exact ⟨rfl, rfl⟩

theorem loadedSystem {board : Board} {file : Option (List (List UInt8))} {sys : Rp2040System}
    (loaded : rp2040LoadElf (rp2040Create board) file = (0, sys)) : Loaded sys := by
  cases file with
  | none => cases loaded
  | some chunks =>
    unfold rp2040LoadElf at loaded
    rcases whole : rp2040LoadChunks (rp2040Create board) rp2040SramBase chunks with ⟨result, after⟩
    obtain ⟨cores, breakpoints⟩ := chunksKeep whole
    dsimp only at loaded
    rw [whole] at loaded
    dsimp only at loaded
    split at loaded
    · cases loaded
    · cases loaded
      refine ⟨?_, ?_, breakpoints⟩
      · simp
      · simp [cores, rp2040Create, registersInitArm]

theorem firstGuarded (board : Board) {sys : Rp2040System} (loaded : Loaded sys) : Guarded board sys 0 := by
  refine (guardedRoom board loaded.free 0).mpr ?_
  unfold Room
  rw [show sys.cores[(0 : Fin 2)].pc = rp2040SramBase from loaded.first]
  exact ⟨by decide, fun _ => by decide⟩

theorem secondUnguarded (board : Board) {sys : Rp2040System} (pc : sys.cores[(1 : Fin 2)].pc = 0)
    (free : sys.numBreakpoints = 0) : ¬ Guarded board sys 1 := by
  intro guarded
  have room := ((guardedRoom board free 1).mp guarded).1
  rw [pc] at room
  exact absurd room (by decide)

/-- What a state needs for the next step of a core to be guarded; and no run gets past the first step
of core 1, which starts at 0. -/
theorem fetchesGuarded (board : Board) {file : Option (List (List UInt8))} {sys : Rp2040System}
    (loaded : rp2040LoadElf (rp2040Create board) file = (0, sys)) {lastCore : Nat} (core : lastCore < 2) :
    (∀ n (coreId : Fin 2), Guarded board (rp2040Steps board lastCore sys n).1 (coreId : Nat) ↔
      Room board (rp2040Steps board lastCore sys n).1 coreId) ∧
    ∀ n, (∀ k < n, Guarded board (rp2040Steps board lastCore sys k).1 (rp2040Steps board lastCore sys k).2) ↔
      n + lastCore ≤ 1 := by
  have loaded := loadedSystem loaded
  refine ⟨fun n coreId => guardedRoom board ((stepsKeep ..).trans loaded.free) coreId, fun n => ⟨fun guarded => ?_, ?_⟩⟩
  · by_contra more
    obtain rfl | rfl : lastCore = 0 ∨ lastCore = 1 := by omega
    · have second : (rp2040Steps board (0 : Nat) sys 1).1.cores[(1 : Fin 2)].pc = 0 := by
        have kept := (stepKeeps board sys (0 : Nat)).2 1 (by decide)
        exact (congrArg ArmCoreState.pc kept).trans loaded.second
      exact secondUnguarded board second ((stepsKeep ..).trans loaded.free) (guarded 1 (by omega))
    · exact secondUnguarded board loaded.second loaded.free (guarded 0 (by omega))
  · intro few k before
    obtain rfl : lastCore = 0 := by omega
    obtain rfl : k = 0 := by omega
    exact firstGuarded board loaded

-- A file of one NOP.
def nopLoaded : Rp2040System := (rp2040LoadElf (rp2040Create nopBoard) (some [[0x00, 0xBF]])).2

theorem nopGuarded : Guarded nopBoard nopLoaded 0 :=
  ((fetchesGuarded nopBoard (show rp2040LoadElf (rp2040Create nopBoard) (some [[0x00, 0xBF]]) = (0, nopLoaded) from rfl)
    (by decide : 0 < 2)).2 1).mpr (by decide) 0 (by decide)

theorem secondCoreOutside : rp2040LoadElf (rp2040Create nopBoard) (some [[0x00, 0xBF]]) = (0, nopLoaded) ∧
    (rp2040Step nopBoard (rp2040Steps nopBoard 0 nopLoaded 1).2 (rp2040Steps nopBoard 0 nopLoaded 1).1).1.fetches =
      [0xE0000000] ∧
    ¬ Guarded nopBoard (rp2040Steps nopBoard 0 nopLoaded 1).1 (rp2040Steps nopBoard 0 nopLoaded 1).2 := by
  refine ⟨rfl, by decide, fun guarded => ?_⟩
  exact absurd (guarded.inRange 0xE0000000 (by decide)) (by decide)

end BitN.InstructionFetch

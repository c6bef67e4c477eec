import Mathlib.Data.List.Basic

/-! The RP2040 emulator: its loader and the stepping of its two cores. The instruction decoder
and the SRAM module are not part of the repository: `Board` is what is called of them. -/
namespace BitN

def rp2040SramSize : UInt32 := 0x42800
def rp2040SramBase : UInt32 := 0x20000000

structure ArmCoreState where
  r : Vector UInt32 13
  sp : UInt32
  lr : UInt32
  pc : UInt32
  psr : UInt32
  primask : UInt32
  basepri : UInt32
  faultmask : UInt32
  control : UInt32
  msplim : UInt32
  psplim : UInt32
  fpscr : UInt32
  thumbMode : Bool
  inException : Bool
  exceptionLevel : UInt8
  deriving DecidableEq

def psrTBit : UInt32 := (1 : UInt32) <<< 24

-- SRAM_SIZE has no definition in the repository.
def registersInitArm (sramSize : UInt32) : ArmCoreState where
  r := Vector.replicate 13 0
  sp := 0x10000000 + sramSize
  lr := 0
  pc := 0
  psr := psrTBit
  primask := 0
  basepri := 0
  faultmask := 0
  control := 0
  msplim := 0
  psplim := 0
  fpscr := 0
  thumbMode := true
  inException := false
  exceptionLevel := 0

/-- The bytes of `data`, and of the memory around it that a wrong offset would reach. -/
structure Sram where
  data : Nat → UInt8

-- memcpy(sram->data + offset, data, len)
def Sram.copy (sram : Sram) (offset : UInt32) (data : List UInt8) (len : UInt32) : Sram where
  data := fun i =>
    if offset.toNat ≤ i ∧ i < offset.toNat + len.toNat then data.getD (i - offset.toNat) 0 else sram.data i

structure Board where
  sramSize : UInt32
  sramInit : UInt32 → Sram
  sramReadHalfword : Sram → UInt32 → UInt16
  armThumb2Execute : ArmCoreState → UInt32 → UInt8 → Int × ArmCoreState

structure Rp2040System where
  cores : Vector ArmCoreState 2
  sram : Sram
  cycleCount : UInt64
  halted : Bool
  breakpointTriggered : Bool
  breakpoints : Vector UInt32 32
  numBreakpoints : UInt8

-- Where every allocation succeeds.
def rp2040Create (board : Board) : Rp2040System where
  cores := Vector.replicate 2 (registersInitArm board.sramSize)
  sram := board.sramInit rp2040SramSize
  cycleCount := 0
  halted := false
  breakpointTriggered := false
  breakpoints := Vector.replicate 32 0
  numBreakpoints := 0

def rp2040LoadBinary (sys : Rp2040System) (addr : UInt32) (data : List UInt8) (len : UInt32) : Int × Rp2040System :=
  if addr < rp2040SramBase ∨ addr + len > rp2040SramBase + rp2040SramSize then (-1, sys)
  else (0, { sys with sram := sys.sram.copy (addr - rp2040SramBase) data len })

/-- The loop of `rp2040_load_elf` over what each `fread` returns, at most 4096 bytes. -/
def rp2040LoadChunks (sys : Rp2040System) (addr : UInt32) : List (List UInt8) → Int × Rp2040System
  | [] => (0, sys)
  | buffer :: chunks =>
    let bytesRead := UInt32.ofNat buffer.length
    if bytesRead > 0 then
      let (result, sys) := rp2040LoadBinary sys addr buffer bytesRead
      if result < 0 then (-1, sys) else rp2040LoadChunks sys (addr + bytesRead) chunks
    else (0, sys)

-- A file that cannot be opened is none.
def rp2040LoadElf (sys : Rp2040System) : Option (List (List UInt8)) → Int × Rp2040System
  | none => (-1, sys)
  | some chunks =>
    let (result, sys) := rp2040LoadChunks sys rp2040SramBase chunks
    if result < 0 then (-1, sys)
    else (0, { sys with cores := sys.cores.set 0 { sys.cores[0] with pc := rp2040SramBase } })

def isWide (hw1 : UInt16) : Bool := hw1 &&& 0xE000 == 0xE000 && hw1 &&& 0x1800 != 0

structure Step where
  result : Int
  system : Rp2040System
  fetches : List UInt32

-- "Fetch instruction from memory" and its length in bytes.
def rp2040Fetch (board : Board) (sram : Sram) (pc : UInt32) : UInt32 × UInt8 × List UInt32 :=
  let hw1 := board.sramReadHalfword sram (pc - rp2040SramBase)
  if isWide hw1 then
    let hw2 := board.sramReadHalfword sram (pc + 2 - rp2040SramBase)
    (hw2.toUInt32 <<< 16 ||| hw1.toUInt32, 4, [pc - rp2040SramBase, pc + 2 - rp2040SramBase])
  else (hw1.toUInt32, 2, [pc - rp2040SramBase])

def rp2040StepCore (board : Board) (sys : Rp2040System) (coreId : Int) : Step :=
  if inside : 0 ≤ coreId ∧ coreId < 2 then
    let i : Fin 2 := ⟨coreId.toNat, by omega⟩
    let core := sys.cores[i]
    if (sys.breakpoints.toList.take sys.numBreakpoints.toNat).contains core.pc then
      ⟨1, { sys with breakpointTriggered := true }, []⟩
    else
      let (instr, instrLen, fetches) := rp2040Fetch board sys.sram core.pc
      let (result, core) := board.armThumb2Execute core instr instrLen
      let sys := { sys with cores := sys.cores.set i core }
      if result < 0 then ⟨-1, sys, fetches⟩
      else ⟨0, { sys with cycleCount := sys.cycleCount + 1 }, fetches⟩
  else ⟨-1, sys, []⟩

/-- `last_core` is a static variable, so it is passed from call to call whatever the system. -/
def rp2040Step (board : Board) (lastCore : Int) (sys : Rp2040System) : Step × Int :=
  (rp2040StepCore board sys lastCore, (lastCore + 1) % 2)

def rp2040Steps (board : Board) (lastCore : Int) (sys : Rp2040System) : Nat → Rp2040System × Int
  | 0 => (sys, lastCore)
  | n + 1 =>
    let (sys, lastCore) := rp2040Steps board lastCore sys n
    let (step, lastCore) := rp2040Step board lastCore sys
    (step.system, lastCore)

-- Memory full of NOPs, and a decoder that skips them.
def nopBoard : Board where
  sramSize := rp2040SramSize
  sramInit := fun _ => ⟨fun _ => 0⟩
  sramReadHalfword := fun _ _ => 0xBF00
  armThumb2Execute := fun core _ instrLen => (0, { core with pc := core.pc + instrLen.toUInt32 })

end BitN

import BitN.Rp2040

/-! The register files of the two instruction sets. Register numbers are signed. -/
namespace BitN

/-- R0 to R12, then SP, LR, PC and PSR. -/
def armGetRegister (state : ArmCoreState) (regNum : Int) : UInt32 :=
  if plain : 0 ≤ regNum ∧ regNum ≤ 12 then
    let i : Fin 13 := ⟨regNum.toNat, by omega⟩
    state.r[i]
  else if regNum = 13 then state.sp
  else if regNum = 14 then state.lr
  else if regNum = 15 then state.pc
  else if regNum = 16 then state.psr
  else 0

def armSetRegister (state : ArmCoreState) (regNum : Int) (value : UInt32) : ArmCoreState :=
  if plain : 0 ≤ regNum ∧ regNum ≤ 12 then
    let i : Fin 13 := ⟨regNum.toNat, by omega⟩
    { state with r := state.r.set i value }
  else if regNum = 13 then { state with sp := value }
  else if regNum = 14 then { state with lr := value }
  else if regNum = 15 then { state with pc := value &&& ~~~1 }
  else if regNum = 16 then { state with psr := (state.psr &&& 0xFF000000) ||| (value &&& 0x00FFFFFF) }
  else state

structure RiscvCoreState where
  x : Vector UInt32 32
  pc : UInt32
  mstatus : UInt32
  mie : UInt32
  mtvec : UInt32
  mscratch : UInt32
  mepc : UInt32
  mcause : UInt32
  mtval : UInt32
  mip : UInt32
  cycle : UInt32
  instret : UInt32
  compressedNext : Bool
  inException : Bool

def registersInitRiscv (sramSize : UInt32) : RiscvCoreState where
  x := (Vector.replicate 32 0).set 2 (0x10000000 + sramSize)
  pc := 0
  mstatus := 0x1800
  mie := 0
  mtvec := 0
  mscratch := 0
  mepc := 0
  mcause := 0
  mtval := 0
  mip := 0
  cycle := 0
  instret := 0
  compressedNext := false
  inException := false

/-- None is a read of `x` in front of its first element. -/
def riscvGetRegister (state : RiscvCoreState) (regNum : Int) : Option UInt32 :=
  if below : regNum < 32 then
    if inside : 0 ≤ regNum then
      let i : Fin 32 := ⟨regNum.toNat, by omega⟩
      some state.x[i]
    else none
  else if regNum = 32 then some state.pc
  else if regNum = 33 then some state.mstatus
  else some 0

/-- None is a write of `x` in front of its first element. -/
def riscvSetRegister (state : RiscvCoreState) (regNum : Int) (value : UInt32) : Option RiscvCoreState :=
  if below : regNum < 32 then
    if regNum ≠ 0 then
      if inside : 0 ≤ regNum then
        let i : Fin 32 := ⟨regNum.toNat, by omega⟩
        some { state with x := state.x.set i value }
      else none
    else some state
  else if regNum = 32 then some { state with pc := value }
  else if regNum = 33 then some { state with mstatus := value }
  else some state

end BitN

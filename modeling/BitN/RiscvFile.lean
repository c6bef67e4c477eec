import BitN.Registers
import BitN.Lib.Cells
import BitN.Lib.Lockstep
import Mathlib.Data.Fin.Basic

/-! The RISC-V register file over a session of calls. The register number is tested from above only. -/
namespace BitN.RiscvFile
open Cells Lockstep

inductive Call where
  | get (regNum : Int)
  | set (regNum : Int) (value : UInt32)
  deriving DecidableEq

def Call.number : Call → Int
  | .get regNum => regNum
  | .set regNum _ => regNum

def Call.write : Call → Option (Int × UInt32)
  | .get _ => none
  | .set regNum value => some (regNum, value)

/-- None once a call has left the array. -/
def perform (state : Option RiscvCoreState) : Call → Option RiscvCoreState
  | .get regNum => state.bind fun state => (riscvGetRegister state regNum).map fun _ => state
  | .set regNum value => state.bind fun state => riscvSetRegister state regNum value

def session (sramSize : UInt32) (calls : List Call) : Option RiscvCoreState :=
  calls.foldl perform (some (registersInitRiscv sramSize))

/-- The last value written, the initial one if there is none, or zero where no register is written. -/
def expected (sramSize : UInt32) (calls : List Call) (regNum : Int) : UInt32 :=
  if 1 ≤ regNum ∧ regNum ≤ 33 then
    (lastWrite (calls.filterMap Call.write) regNum).getD
      ((riscvGetRegister (registersInitRiscv sramSize) regNum).getD 0)
  else 0

structure Safe (sramSize : UInt32) (calls : List Call) : Prop where
  inside : Throughout (fun done => (session sramSize done).isSome) calls
  reads : ∀ done regNum state, done ++ [.get regNum] <+: calls → session sramSize done = some state →
    riscvGetRegister state regNum = some (expected sramSize done regNum)
  zero : ∀ done state, done <+: calls → session sramSize done = some state → riscvGetRegister state 0 = some 0
  ignored : ∀ done regNum value state, done ++ [.set regNum value] <+: calls → session sramSize done = some state →
    ¬ (1 ≤ regNum ∧ regNum ≤ 33) → riscvSetRegister state regNum value = some state

/-! One call -/

inductive Numbered : Int → Prop
  | x (i : Fin 32) : Numbered (i : Nat)
  | pc : Numbered 32
  | mstatus : Numbered 33
  | none_ (regNum : Int) (above : 33 < regNum) : Numbered regNum

theorem numbered {regNum : Int} (natural : 0 ≤ regNum) : Numbered regNum := by
  by_cases above : 33 < regNum
  · exact .none_ regNum above
  · obtain ⟨n, rfl⟩ := Int.eq_ofNat_of_zero_le natural
    obtain x | rfl | rfl : n < 32 ∨ n = 32 ∨ n = 33 := by omega
    · exact .x ⟨n, x⟩
    · exact .pc
    · exact .mstatus

section core
variable (state : RiscvCoreState) (value : UInt32)

theorem getX (i : Fin 32) : riscvGetRegister state (i : Nat) = some (state.x.get i) := by
  have below : ((i : Nat) : Int) < 32 := by omega
  have natural : (0 : Int) ≤ (i : Nat) := by omega
  unfold riscvGetRegister
  rw [dif_pos below, dif_pos natural]
  rfl

theorem setX (i : Fin 32) (written : i ≠ 0) :
    riscvSetRegister state (i : Nat) value = some { state with x := state.x.set i value } := by
  have below : ((i : Nat) : Int) < 32 := by omega
  have natural : (0 : Int) ≤ (i : Nat) := by omega
  have notZero : ((i : Nat) : Int) ≠ 0 := by omega
  unfold riscvSetRegister
  rw [dif_pos below, if_pos notZero, dif_pos natural]
  rfl

theorem getAbove {regNum : Int} (above : 33 < regNum) : riscvGetRegister state regNum = some 0 := by
  unfold riscvGetRegister
  rw [dif_neg (by omega), if_neg (by omega), if_neg (by omega)]

theorem setAbove {regNum : Int} (above : 33 < regNum) : riscvSetRegister state regNum value = some state := by
  unfold riscvSetRegister
  rw [dif_neg (by omega), if_neg (by omega), if_neg (by omega)]

theorem getBelow {regNum : Int} (below : regNum < 0) : riscvGetRegister state regNum = none := by
  unfold riscvGetRegister
  rw [dif_pos (by omega), dif_neg (by omega)]

theorem setBelow {regNum : Int} (below : regNum < 0) : riscvSetRegister state regNum value = none := by
  unfold riscvSetRegister
  rw [dif_pos (by omega), if_pos (by omega), dif_neg (by omega)]

end core

def readAt (state : RiscvCoreState) (regNum : Int) : UInt32 := (riscvGetRegister state regNum).getD 0

def writeAt (state : RiscvCoreState) (regNum : Int) (value : UInt32) : RiscvCoreState :=
  (riscvSetRegister state regNum value).getD state

theorem getNatural (state : RiscvCoreState) {regNum : Int} (natural : 0 ≤ regNum) :
    riscvGetRegister state regNum = some (readAt state regNum) := by
  unfold readAt
  cases numbered natural with
  | x i => rw [getX]; rfl
  | pc => rfl
  | mstatus => rfl
  | none_ _ above => rw [getAbove state above]; rfl

theorem setNatural (state : RiscvCoreState) {regNum : Int} (natural : 0 ≤ regNum) (value : UInt32) :
    riscvSetRegister state regNum value = some (writeAt state regNum value) := by
  unfold writeAt
  cases numbered natural with
  | x i =>
    by_cases zero : i = 0
    · rw [zero]; rfl
    · rw [setX state value i zero]; rfl
  | pc => rfl
  | mstatus => rfl
  | none_ _ above => rw [setAbove state value above]; rfl

def keep (regNum : Int) (old value : UInt32) : UInt32 := if 1 ≤ regNum ∧ regNum ≤ 33 then value else old

theorem writeIgnored (state : RiscvCoreState) {regNum : Int} (outside : ¬ (1 ≤ regNum ∧ regNum ≤ 33))
    (value : UInt32) : writeAt state regNum value = state := by
  unfold writeAt
  by_cases natural : 0 ≤ regNum
  · obtain rfl | above : regNum = 0 ∨ 33 < regNum := by omega
    · rfl
    · rw [setAbove state value above]; rfl
  · rw [setBelow state value (by omega)]; rfl

theorem writeX (state : RiscvCoreState) (i : Fin 32) (written : 1 ≤ ((i : Nat) : Int)) (value : UInt32) :
    writeAt state (i : Nat) value = { state with x := state.x.set i value } := by
  unfold writeAt
  rw [setX state value i (by omega)]
  rfl

theorem readX (state : RiscvCoreState) (i : Fin 32) : readAt state (i : Nat) = state.x.get i := by
  unfold readAt
  rw [getX]
  rfl

theorem readAbove (state : RiscvCoreState) {regNum : Int} (above : 33 < regNum) : readAt state regNum = 0 := by
  unfold readAt
  rw [getAbove state above]
  rfl

theorem readBelow (state : RiscvCoreState) {regNum : Int} (below : regNum < 0) : readAt state regNum = 0 := by
  unfold readAt
  rw [getBelow state below]
  rfl

theorem readSame (state : RiscvCoreState) {regNum : Int} (written : 1 ≤ regNum ∧ regNum ≤ 33) (value : UInt32) :
    readAt (writeAt state regNum value) regNum = value := by
  cases numbered (by omega : 0 ≤ regNum) with
  | x i =>
    rw [writeX state i written.1, readX]
    exact Vector.getElem_set_self i.isLt
  | pc => rfl
  | mstatus => rfl
  | none_ _ above => omega

theorem readOther (state : RiscvCoreState) {regNum other : Int} (written : 1 ≤ regNum ∧ regNum ≤ 33)
    (apart : other ≠ regNum) (value : UInt32) : readAt (writeAt state regNum value) other = readAt state other := by
  by_cases below : other < 0
  · rw [readBelow _ below, readBelow _ below]
  · cases numbered (by omega : 0 ≤ regNum) with
    | x i =>
      rw [writeX state i written.1]
      cases numbered (by omega : 0 ≤ other) with
      | x j =>
        rw [readX, readX]
        exact Vector.getElem_set_ne i.isLt j.isLt (by omega)
      | pc => rfl
      | mstatus => rfl
      | none_ _ above => rw [readAbove _ above, readAbove _ above]
    | pc | mstatus =>
      cases numbered (by omega : 0 ≤ other) with
      | x j => rw [readX, readX]; rfl
      | none_ _ above => rw [readAbove _ above, readAbove _ above]
      | pc | mstatus => first | rfl | exact absurd rfl apart
    | none_ _ above => omega

theorem registersLawful : Lawful readAt writeAt keep where
  same state regNum value := by
    unfold keep
    by_cases written : 1 ≤ regNum ∧ regNum ≤ 33
    · rw [if_pos written, readSame state written]
    · rw [if_neg written, writeIgnored state written]
  other state regNum value other apart := by
    by_cases written : 1 ≤ regNum ∧ regNum ≤ 33
    · exact readOther state written apart value
    · rw [writeIgnored state written]
  covers regNum old value next := by
    unfold keep
    split_ifs
    · rfl
    · rfl

/-! A session -/

def Natural (calls : List Call) : Prop := ∀ call ∈ calls, 0 ≤ call.number

theorem sessionConcat (sramSize : UInt32) (calls : List Call) (call : Call) :
    session sramSize (calls ++ [call]) = perform (session sramSize calls) call := by
  simp only [session, List.foldl_append, List.foldl_cons, List.foldl_nil]

/-- A session stays in the array while its numbers are not negative, and writes what it is told to. -/
theorem sessionNatural {sramSize : UInt32} {calls : List Call} (natural : Natural calls) :
    session sramSize calls =
      some (writeAll writeAt (registersInitRiscv sramSize) (calls.filterMap Call.write)) := by
  induction calls using List.reverseRecOn with
  | nil => rfl
  | append_singleton calls call before =>
    have rest : Natural calls := fun other held => natural other (List.mem_append_left _ held)
    have last : 0 ≤ call.number := natural call (by simp)
    rw [sessionConcat, before rest, List.filterMap_append]
    cases call with
    | get regNum =>
      rw [perform, Option.bind_some, getNatural _ (by exact last)]
      exact congrArg (fun writes => some (writeAll writeAt (registersInitRiscv sramSize) writes)) (List.append_nil _).symm
    | set regNum value =>
      rw [perform, Option.bind_some, setNatural _ (by exact last)]
      exact congrArg some (writeAllConcat _ _ regNum value).symm

theorem performNegative (state : Option RiscvCoreState) {call : Call} (negative : call.number < 0) :
    perform state call = none := by
  cases state with
  | none => cases call with
    | get regNum => rfl
    | set regNum value => rfl
  | some state => cases call with
    | get regNum =>
      rw [perform, Option.bind_some, getBelow state (by exact negative)]
      rfl
    | set regNum value => rw [perform, Option.bind_some, setBelow state value (by exact negative)]

theorem readUnwritten (sramSize : UInt32) {regNum : Int} (outside : ¬ (1 ≤ regNum ∧ regNum ≤ 33)) :
    readAt (registersInitRiscv sramSize) regNum = 0 := by
  obtain below | rfl | above : regNum < 0 ∨ regNum = 0 ∨ 33 < regNum := by omega
  · exact readBelow _ below
  · rfl
  · exact readAbove _ above

theorem readExpected (sramSize : UInt32) (calls : List Call) (regNum : Int) :
    readAt (writeAll writeAt (registersInitRiscv sramSize) (calls.filterMap Call.write)) regNum =
      expected sramSize calls regNum := by
  rw [lastWins registersLawful]
  unfold expected keep
  by_cases written : 1 ≤ regNum ∧ regNum ≤ 33
  · rw [if_pos written]
    cases lastWrite (calls.filterMap Call.write) regNum with
    | none => rfl
    | some value => exact if_pos written
  · have kept : ∀ write : Option UInt32, write.elim (readAt (registersInitRiscv sramSize) regNum)
        (fun value => if 1 ≤ regNum ∧ regNum ≤ 33 then value else readAt (registersInitRiscv sramSize) regNum) = 0 := by
      intro write
      cases write with
      | none => exact readUnwritten sramSize written
      | some value => exact (if_neg written).trans (readUnwritten sramSize written)
    rw [if_neg written]
    exact kept _

theorem naturalPrefix {calls done : List Call} (natural : Natural calls) (first : done <+: calls) : Natural done :=
  fun call held => natural call (first.subset held)

theorem naturalNext {calls done : List Call} {call : Call} (natural : Natural calls)
    (first : done ++ [call] <+: calls) : 0 ≤ call.number :=
  natural call (first.subset (List.mem_append_right done (List.mem_singleton_self call)))

theorem naturalSafe (sramSize : UInt32) {calls : List Call} (natural : Natural calls) : Safe sramSize calls where
  inside done first := by
    change (session sramSize done).isSome = true
    rw [sessionNatural (naturalPrefix natural first), Option.isSome_some]
  reads done regNum state first at_ := by
    rw [sessionNatural (naturalPrefix natural ((List.prefix_append done _).trans first))] at at_
    cases at_
    rw [getNatural _ (by exact naturalNext natural first), readExpected]
  zero done state first at_ := by
    rw [sessionNatural (naturalPrefix natural first)] at at_
    cases at_
    rw [getNatural _ (Int.le_refl 0), readExpected]
    rfl
  ignored done regNum value state first at_ outside := by
    rw [setNatural state (by exact naturalNext natural first), writeIgnored state outside]

theorem safeExactly (sramSize : UInt32) (calls : List Call) : Safe sramSize calls ↔ Natural calls := by
  constructor
  · intro safe call held
    by_contra negative
    obtain ⟨before, after, rfl⟩ := List.append_of_mem held
    have inside : (session sramSize (before ++ [call])).isSome = true :=
      safe.inside (before ++ [call]) ⟨after, by rw [List.append_assoc, List.singleton_append]⟩
    rw [sessionConcat, performNegative _ (by omega)] at inside
    cases inside
  · exact naturalSafe sramSize

-- The word in front of the array.
theorem minusOneOutside : ¬ Safe rp2040SramSize [.set (-1) 7, .get (-1)] ∧
    riscvSetRegister (registersInitRiscv rp2040SramSize) (-1) 7 = none ∧
    riscvGetRegister (registersInitRiscv rp2040SramSize) (-1) = none := by
  refine ⟨fun safe => ?_, setBelow _ 7 (by decide), getBelow _ (by decide)⟩
  have inside := safe.inside [.set (-1) 7] ⟨[.get (-1)], rfl⟩
  cases inside

end BitN.RiscvFile

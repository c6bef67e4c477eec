import BitN.Debugging
import BitN.Lib.Cells
import Mathlib.Data.Fin.Basic

/-! The register files of the two emulated cores, as a debugger writes them. -/
namespace BitN.RegisterFile
open Cells

/-- A core and a register of it, by any numbers. -/
abbrev Place := Int × Int

def getAt (sys : Rp2040System) (place : Place) : UInt32 := rp2040GetRegister sys place.1 place.2

def setAt (sys : Rp2040System) (place : Place) (value : UInt32) : Rp2040System :=
  rp2040SetRegister sys place.1 place.2 value

def Valid (place : Place) : Prop := (0 ≤ place.1 ∧ place.1 < 2) ∧ 0 ≤ place.2 ∧ place.2 ≤ 16

/-- No register of a core, whatever its number, is one of these fields. -/
def SameApart (before after : ArmCoreState) : Prop :=
  after = { before with r := after.r, sp := after.sp, lr := after.lr, pc := after.pc, psr := after.psr }

structure LastWriteWins (board : Board) (writes : List (Place × UInt32)) : Prop where
  plain : ∀ core regNum, 0 ≤ core ∧ core < 2 → 0 ≤ regNum ∧ regNum ≤ 14 →
    rp2040GetRegister (writeAll setAt (rp2040Create board) writes) core regNum =
      (lastWrite writes (core, regNum)).getD (rp2040GetRegister (rp2040Create board) core regNum)
  pc : ∀ core, 0 ≤ core ∧ core < 2 →
    rp2040GetRegister (writeAll setAt (rp2040Create board) writes) core 15 =
      ((lastWrite writes (core, 15)).map (· &&& ~~~1)).getD (rp2040GetRegister (rp2040Create board) core 15)
  psr : ∀ core, 0 ≤ core ∧ core < 2 →
    rp2040GetRegister (writeAll setAt (rp2040Create board) writes) core 16 =
      (rp2040GetRegister (rp2040Create board) core 16 &&& 0xFF000000) |||
        ((lastWrite writes (core, 16)).getD (rp2040GetRegister (rp2040Create board) core 16) &&& 0x00FFFFFF)
  thumb : ∀ core, 0 ≤ core ∧ core < 2 →
    rp2040GetRegister (writeAll setAt (rp2040Create board) writes) core 16 &&& psrTBit = psrTBit
  even : ∀ core, 0 ≤ core ∧ core < 2 →
    rp2040GetRegister (writeAll setAt (rp2040Create board) writes) core 15 &&& 1 = 0
  ignored : ∀ core regNum value, ¬ Valid (core, regNum) →
    rp2040SetRegister (writeAll setAt (rp2040Create board) writes) core regNum value =
      writeAll setAt (rp2040Create board) writes
  others : ∀ core regNum value otherCore otherNum, (otherCore, otherNum) ≠ (core, regNum) →
    rp2040GetRegister (rp2040SetRegister (writeAll setAt (rp2040Create board) writes) core regNum value)
        otherCore otherNum =
      rp2040GetRegister (writeAll setAt (rp2040Create board) writes) otherCore otherNum
  fields : ∀ core regNum value, ∃ cores,
    rp2040SetRegister (writeAll setAt (rp2040Create board) writes) core regNum value =
      { writeAll setAt (rp2040Create board) writes with cores } ∧
    ∀ i, SameApart ((writeAll setAt (rp2040Create board) writes).cores.get i) (cores.get i)

/-! One core -/

inductive Numbered : Int → Prop
  | plain (i : Fin 13) : Numbered (i : Nat)
  | sp : Numbered 13
  | lr : Numbered 14
  | pc : Numbered 15
  | psr : Numbered 16
  | none_ (regNum : Int) (outside : regNum < 0 ∨ 16 < regNum) : Numbered regNum

theorem numbered (regNum : Int) : Numbered regNum := by
  by_cases outside : regNum < 0 ∨ 16 < regNum
  · exact .none_ regNum outside
  · obtain ⟨n, rfl⟩ := Int.eq_ofNat_of_zero_le (by omega : 0 ≤ regNum)
    obtain plain | rfl | rfl | rfl | rfl : n < 13 ∨ n = 13 ∨ n = 14 ∨ n = 15 ∨ n = 16 := by omega
    · exact .plain ⟨n, plain⟩
    · exact .sp
    · exact .lr
    · exact .pc
    · exact .psr

section core
variable (state : ArmCoreState) (value : UInt32)

theorem getPlain (i : Fin 13) : armGetRegister state (i : Nat) = state.r.get i := by
  have plain : (0 : Int) ≤ (i : Nat) ∧ ((i : Nat) : Int) ≤ 12 := by omega
  unfold armGetRegister
  rw [dif_pos plain]
  rfl

theorem setPlain (i : Fin 13) :
    armSetRegister state (i : Nat) value = { state with r := state.r.set i value } := by
  have plain : (0 : Int) ≤ (i : Nat) ∧ ((i : Nat) : Int) ≤ 12 := by omega
  unfold armSetRegister
  rw [dif_pos plain]
  rfl

theorem getOutside {regNum : Int} (outside : regNum < 0 ∨ 16 < regNum) : armGetRegister state regNum = 0 := by
  unfold armGetRegister
  rw [dif_neg (by omega), if_neg (by omega), if_neg (by omega), if_neg (by omega), if_neg (by omega)]

theorem setOutside {regNum : Int} (outside : regNum < 0 ∨ 16 < regNum) :
    armSetRegister state regNum value = state := by
  unfold armSetRegister
  rw [dif_neg (by omega), if_neg (by omega), if_neg (by omega), if_neg (by omega), if_neg (by omega)]

end core

def keep (regNum : Int) (old value : UInt32) : UInt32 :=
  if 0 ≤ regNum ∧ regNum ≤ 14 then value
  else if regNum = 15 then value &&& ~~~1
  else if regNum = 16 then (old &&& 0xFF000000) ||| (value &&& 0x00FFFFFF)
  else old

theorem armSame (state : ArmCoreState) (regNum : Int) (value : UInt32) :
    armGetRegister (armSetRegister state regNum value) regNum = keep regNum (armGetRegister state regNum) value := by
  cases numbered regNum with
  | plain i =>
    rw [setPlain, getPlain, keep, if_pos (by omega)]
    exact Vector.getElem_set_self i.isLt
  | sp => rfl
  | lr => rfl
  | pc => rfl
  | psr => rfl
  | none_ _ outside =>
    rw [setOutside state value outside, getOutside state outside, keep, if_neg (by omega), if_neg (by omega),
      if_neg (by omega)]

theorem armOther (state : ArmCoreState) (regNum : Int) (value : UInt32) {other : Int} (apart : other ≠ regNum) :
    armGetRegister (armSetRegister state regNum value) other = armGetRegister state other := by
  cases numbered regNum with
  | plain i =>
    rw [setPlain]
    cases numbered other with
    | plain j =>
      rw [getPlain, getPlain]
      exact Vector.getElem_set_ne i.isLt j.isLt (by omega)
    | none_ _ outside => rw [getOutside _ outside, getOutside _ outside]
    | sp => rfl
    | lr => rfl
    | pc => rfl
    | psr => rfl
  | none_ _ outside => rw [setOutside state value outside]
  | sp | lr | pc | psr =>
    cases numbered other with
    | plain j => rw [getPlain, getPlain]; rfl
    | none_ _ outside => rw [getOutside _ outside, getOutside _ outside]
    | sp | lr | pc | psr => first | rfl | exact absurd rfl apart

theorem armFields (state : ArmCoreState) (regNum : Int) (value : UInt32) :
    SameApart state (armSetRegister state regNum value) := by
  unfold armSetRegister
  dsimp only
  split_ifs
  all_goals rfl

/-! What the PSR keeps -/

theorem orAnd (a b c : UInt32) : (a ||| b) &&& c = (a &&& c) ||| (b &&& c) :=
  UInt32.toBitVec_inj.mp BitVec.and_or_distrib_right

theorem keptTop (old value : UInt32) :
    ((old &&& 0xFF000000) ||| (value &&& 0x00FFFFFF)) &&& 0xFF000000 = old &&& 0xFF000000 := by
  have disjoint : (0x00FFFFFF : UInt32) &&& 0xFF000000 = 0 := by decide
  rw [orAnd, UInt32.and_assoc, UInt32.and_assoc, UInt32.and_self, disjoint, UInt32.and_zero, UInt32.or_zero]

theorem keptWhole (old : UInt32) : (old &&& 0xFF000000) ||| (old &&& 0x00FFFFFF) = old := by
  have all : (0xFF000000 : UInt32) ||| 0x00FFFFFF = -1 := by decide
  rw [UInt32.and_comm old, UInt32.and_comm old, ← orAnd, all, UInt32.neg_one_and]

theorem topBit {value top : UInt32} (same : value &&& 0xFF000000 = top &&& 0xFF000000) :
    value &&& psrTBit = top &&& psrTBit := by
  have inTop : (0xFF000000 : UInt32) &&& psrTBit = psrTBit := by decide
  rw [← inTop, ← UInt32.and_assoc, same, UInt32.and_assoc]

theorem keepCovers (regNum : Int) (old value next : UInt32) :
    keep regNum (keep regNum old value) next = keep regNum old next := by
  unfold keep
  split_ifs
  · rfl
  · rfl
  · rw [keptTop]
  · rfl

/-! The system -/

section system
variable (sys : Rp2040System) (regNum : Int) (value : UInt32)

theorem getCore (i : Fin 2) :
    rp2040GetRegister sys (i : Nat) regNum = armGetRegister (sys.cores.get i) regNum := by
  have inside : ¬ (((i : Nat) : Int) < 0 ∨ ((i : Nat) : Int) ≥ 2) := by omega
  unfold rp2040GetRegister
  rw [dif_neg inside]
  rfl

theorem setCore (i : Fin 2) : ∃ cores, rp2040SetRegister sys (i : Nat) regNum value = { sys with cores } ∧
    cores.get i = armSetRegister (sys.cores.get i) regNum value ∧ ∀ j, j ≠ i → cores.get j = sys.cores.get j := by
  have inside : ¬ (((i : Nat) : Int) < 0 ∨ ((i : Nat) : Int) ≥ 2) := by omega
  unfold rp2040SetRegister
  rw [dif_neg inside]
  exact ⟨_, rfl, Vector.getElem_set_self i.isLt, fun j other => Vector.getElem_set_ne i.isLt j.isLt (by omega)⟩

theorem getNoCore {core : Int} (outside : core < 0 ∨ core ≥ 2) : rp2040GetRegister sys core regNum = 0 := by
  unfold rp2040GetRegister
  rw [dif_pos outside]

theorem setNoCore {core : Int} (outside : core < 0 ∨ core ≥ 2) :
    rp2040SetRegister sys core regNum value = sys := by
  unfold rp2040SetRegister
  rw [dif_pos outside]

end system

theorem coreNumber {core : Int} (inside : ¬ (core < 0 ∨ core ≥ 2)) : ∃ i : Fin 2, ((i : Nat) : Int) = core :=
  ⟨⟨core.toNat, by omega⟩, Int.toNat_of_nonneg (by omega)⟩

def keepAt (place : Place) (old value : UInt32) : UInt32 :=
  if place.1 < 0 ∨ place.1 ≥ 2 then old else keep place.2 old value

theorem placesLawful : Lawful getAt setAt keepAt where
  same sys place value := by
    obtain ⟨core, regNum⟩ := place
    unfold getAt setAt keepAt
    by_cases outside : core < 0 ∨ core ≥ 2
    · rw [if_pos outside, setNoCore sys regNum value outside]
    · obtain ⟨i, rfl⟩ := coreNumber outside
      obtain ⟨cores, after, written, _⟩ := setCore sys regNum value i
      rw [if_neg outside, after, getCore, getCore, ← armSame]
      exact congrArg (armGetRegister · regNum) written
  other sys place value other apart := by
    obtain ⟨core, regNum⟩ := place
    obtain ⟨otherCore, otherNum⟩ := other
    unfold getAt setAt
    by_cases outside : core < 0 ∨ core ≥ 2
    · rw [setNoCore sys regNum value outside]
    · obtain ⟨i, rfl⟩ := coreNumber outside
      by_cases otherOutside : otherCore < 0 ∨ otherCore ≥ 2
      · rw [getNoCore _ otherNum otherOutside, getNoCore _ otherNum otherOutside]
      · obtain ⟨j, rfl⟩ := coreNumber otherOutside
        obtain ⟨cores, after, written, kept⟩ := setCore sys regNum value i
        rw [after, getCore, getCore]
        by_cases same : j = i
        · subst same
          refine (congrArg (armGetRegister · otherNum) written).trans (armOther _ _ _ ?_)
          exact fun equal => apart (by rw [equal])
        · exact congrArg (armGetRegister · otherNum) (kept j same)
  covers place old value next := by
    unfold keepAt
    split
    · rfl
    · exact keepCovers place.2 old value next

theorem setInvalid (sys : Rp2040System) {core regNum : Int} (value : UInt32) (invalid : ¬ Valid (core, regNum)) :
    rp2040SetRegister sys core regNum value = sys := by
  unfold Valid at invalid
  by_cases outside : core < 0 ∨ core ≥ 2
  · exact setNoCore sys regNum value outside
  · obtain ⟨i, rfl⟩ := coreNumber outside
    obtain ⟨cores, after, written, kept⟩ := setCore sys regNum value i
    rw [setOutside _ value (by omega)] at written
    have same : cores = sys.cores := by
      ext j inside
      by_cases here : (⟨j, inside⟩ : Fin 2) = i
      · subst here
        exact written
      · exact kept ⟨j, inside⟩ here
    rw [after, same]

theorem setFields (sys : Rp2040System) (core regNum : Int) (value : UInt32) : ∃ cores,
    rp2040SetRegister sys core regNum value = { sys with cores } ∧
      ∀ i, SameApart (sys.cores.get i) (cores.get i) := by
  by_cases outside : core < 0 ∨ core ≥ 2
  · exact ⟨sys.cores, setNoCore sys regNum value outside, fun _ => rfl⟩
  · obtain ⟨i, rfl⟩ := coreNumber outside
    obtain ⟨cores, after, written, kept⟩ := setCore sys regNum value i
    refine ⟨cores, after, fun j => ?_⟩
    by_cases same : j = i
    · rw [same, written]
      exact armFields (sys.cores.get i) regNum value
    · rw [kept j same]
      rfl

/-! Every sequence of writes -/

theorem createdCore (board : Board) {core : Int} (inside : 0 ≤ core ∧ core < 2) (regNum : Int) :
    rp2040GetRegister (rp2040Create board) core regNum = armGetRegister (registersInitArm board.sramSize) regNum := by
  obtain ⟨i, rfl⟩ := coreNumber (by omega : ¬ (core < 0 ∨ core ≥ 2))
  rw [getCore]
  exact congrArg (armGetRegister · regNum) (Vector.getElem_replicate i.isLt)

theorem placeWins (board : Board) (writes : List (Place × UInt32)) {core : Int} (inside : 0 ≤ core ∧ core < 2)
    (regNum : Int) : rp2040GetRegister (writeAll setAt (rp2040Create board) writes) core regNum =
      (lastWrite writes (core, regNum)).elim (rp2040GetRegister (rp2040Create board) core regNum)
        (keep regNum (rp2040GetRegister (rp2040Create board) core regNum)) := by
  have wins := lastWins placesLawful (rp2040Create board) writes (core, regNum)
  have here : keepAt (core, regNum) = keep regNum := by
    funext old value
    exact if_neg (by omega)
  rw [here] at wins
  exact wins

theorem lastWriteWins (board : Board) (writes : List (Place × UInt32)) : LastWriteWins board writes := by
  have plain : ∀ core regNum, 0 ≤ core ∧ core < 2 → 0 ≤ regNum ∧ regNum ≤ 14 →
      rp2040GetRegister (writeAll setAt (rp2040Create board) writes) core regNum =
        (lastWrite writes (core, regNum)).getD (rp2040GetRegister (rp2040Create board) core regNum) := by
    intro core regNum inside range
    rw [placeWins board writes inside]
    cases lastWrite writes (core, regNum) with
    | none => rfl
    | some value => exact if_pos range
  have pc : ∀ core, 0 ≤ core ∧ core < 2 → rp2040GetRegister (writeAll setAt (rp2040Create board) writes) core 15 =
      ((lastWrite writes (core, 15)).map (· &&& ~~~1)).getD (rp2040GetRegister (rp2040Create board) core 15) := by
    intro core inside
    rw [placeWins board writes inside]
    cases lastWrite writes (core, 15) with
    | none => rfl
    | some value => rfl
  have psr : ∀ core, 0 ≤ core ∧ core < 2 → rp2040GetRegister (writeAll setAt (rp2040Create board) writes) core 16 =
      (rp2040GetRegister (rp2040Create board) core 16 &&& 0xFF000000) |||
        ((lastWrite writes (core, 16)).getD (rp2040GetRegister (rp2040Create board) core 16) &&& 0x00FFFFFF) := by
    intro core inside
    rw [placeWins board writes inside]
    cases lastWrite writes (core, 16) with
    | none => exact (keptWhole _).symm
    | some value => rfl
  refine ⟨plain, pc, psr, ?_, ?_, fun core regNum value invalid => setInvalid _ value invalid, ?_,
    fun core regNum value => setFields _ core regNum value⟩
  · intro core inside
    have created : rp2040GetRegister (rp2040Create board) core 16 = psrTBit := createdCore board inside 16
    rw [psr core inside, topBit (keptTop _ _), created, UInt32.and_self]
  · intro core inside
    have created : rp2040GetRegister (rp2040Create board) core 15 = 0 := createdCore board inside 15
    rw [pc core inside, created]
    cases lastWrite writes (core, 15) with
    | none => rfl
    | some value =>
      have cleared : ~~~(1 : UInt32) &&& 1 = 0 := by decide
      rw [Option.map_some, Option.getD_some, UInt32.and_assoc, cleared, UInt32.and_zero]
  · intro core regNum value otherCore otherNum apart
    exact placesLawful.other _ (core, regNum) value (otherCore, otherNum) apart

end BitN.RegisterFile

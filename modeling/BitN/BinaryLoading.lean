import BitN.Rp2040
import Mathlib.Algebra.Group.Nat.Defs
import Mathlib.Tactic.Common

/-! What `rp2040_load_binary` accepts. Its check adds address and length in 32 bits, so a binary
that ends behind the address space passes it. -/
namespace BitN.BinaryLoading

def InRange (addr len : UInt32) : Prop :=
  rp2040SramBase.toNat ≤ addr.toNat ∧ addr.toNat + len.toNat ≤ rp2040SramBase.toNat + rp2040SramSize.toNat

/-- The end of the binary, on 32 bits, is in the SRAM or before it. -/
def Wraps (addr len : UInt32) : Prop :=
  rp2040SramBase.toNat ≤ addr.toNat ∧ 2 ^ 32 ≤ addr.toNat + len.toNat ∧
    addr.toNat + len.toNat - 2 ^ 32 ≤ rp2040SramBase.toNat + rp2040SramSize.toNat

def Inside (addr len : UInt32) (i : Nat) : Prop :=
  addr.toNat - rp2040SramBase.toNat ≤ i ∧ i < addr.toNat - rp2040SramBase.toNat + len.toNat

structure Loads (sys : Rp2040System) (addr : UInt32) (data : List UInt8) (len : UInt32) : Prop where
  result : (rp2040LoadBinary sys addr data len).1 = 0 ↔ InRange addr len
  system : InRange addr len → ∃ sram, (rp2040LoadBinary sys addr data len).2 = { sys with sram } ∧
    (∀ i, Inside addr len i → some (sram.data i) = data[i - (addr.toNat - rp2040SramBase.toNat)]?) ∧
    ∀ i, ¬ Inside addr len i → sram.data i = sys.sram.data i
  refused : ¬ InRange addr len → rp2040LoadBinary sys addr data len = (-1, sys)
  array : ∀ i, rp2040SramSize.toNat ≤ i → (rp2040LoadBinary sys addr data len).2.sram.data i = sys.sram.data i

theorem checked (addr len : UInt32) : ¬ (addr < rp2040SramBase ∨ addr + len > rp2040SramBase + rp2040SramSize) ↔
    InRange addr len ∨ Wraps addr len := by
  have base : rp2040SramBase.toNat = 536870912 := rfl
  have size : rp2040SramSize.toNat = 272384 := rfl
  have stop : (rp2040SramBase + rp2040SramSize).toNat = 537143296 := rfl
  unfold InRange Wraps
  rw [not_or, UInt32.lt_iff_toNat_lt, gt_iff_lt, UInt32.lt_iff_toNat_lt, stop, UInt32.toNat_add, base, size]
  have := addr.toNat_lt
  have := len.toNat_lt
  omega

theorem loadAccepted {addr len : UInt32} (accepted : InRange addr len ∨ Wraps addr len) (sys : Rp2040System)
    (data : List UInt8) : rp2040LoadBinary sys addr data len =
      (0, { sys with sram := sys.sram.copy (addr - rp2040SramBase) data len }) := by
  unfold rp2040LoadBinary
  rw [if_neg ((checked addr len).mpr accepted)]

theorem loadRefused {addr len : UInt32} (refused : ¬ (InRange addr len ∨ Wraps addr len)) (sys : Rp2040System)
    (data : List UInt8) : rp2040LoadBinary sys addr data len = (-1, sys) := by
  unfold rp2040LoadBinary
  rw [if_pos (not_not.mp (mt (checked addr len).mp refused))]

theorem wrapsOutside {addr len : UInt32} (wraps : Wraps addr len) : ¬ InRange addr len := by
  have base : rp2040SramBase.toNat = 536870912 := rfl
  have size : rp2040SramSize.toNat = 272384 := rfl
  unfold Wraps at wraps
  unfold InRange
  omega

theorem wrapsLoad {sys : Rp2040System} {addr len : UInt32} {data : List UInt8} (loads : Loads sys addr data len) :
    ¬ Wraps addr len := by
  intro wraps
  refine wrapsOutside wraps (loads.result.mp ?_)
  rw [loadAccepted (.inr wraps)]

theorem inRangeLoads {addr len : UInt32} (inRange : InRange addr len) {data : List UInt8}
    (held : len.toNat ≤ data.length) (sys : Rp2040System) : Loads sys addr data len := by
  have load := loadAccepted (.inl inRange) sys data
  have offset : (addr - rp2040SramBase).toNat = addr.toNat - rp2040SramBase.toNat :=
    UInt32.toNat_sub_of_le _ _ (UInt32.le_iff_toNat_le.mpr inRange.1)
  have byte : ∀ i, (sys.sram.copy (addr - rp2040SramBase) data len).data i =
      if addr.toNat - rp2040SramBase.toNat ≤ i ∧ i < addr.toNat - rp2040SramBase.toNat + len.toNat then
        data.getD (i - (addr.toNat - rp2040SramBase.toNat)) 0
      else sys.sram.data i := by
    intro i
    unfold Sram.copy
    rw [offset]
  refine ⟨⟨fun _ => inRange, fun _ => by rw [load]⟩,
    fun _ => ⟨_, congrArg Prod.snd load, fun i inside => ?_, fun i outside => ?_⟩,
    fun out => absurd inRange out, fun i after => ?_⟩
  · have held : i - (addr.toNat - rp2040SramBase.toNat) < data.length := by
      have := inside.1
      have := inside.2
      omega
    rw [byte, if_pos ⟨inside.1, inside.2⟩, List.getD_eq_getElem?_getD, List.getElem?_eq_getElem held, Option.getD_some]
  · rw [byte]
    exact if_neg outside
  · have := inRange.1
    have := inRange.2
    rw [load, byte, if_neg (by omega)]

/-- A binary is loaded as it should be, or refused, exactly when its end does not wrap into the range. -/
theorem loadsExactly (sys : Rp2040System) (addr : UInt32) (data : List UInt8) (len : UInt32)
    (held : len.toNat ≤ data.length) : Loads sys addr data len ↔ ¬ Wraps addr len := by
  constructor
  · exact wrapsLoad
  · intro whole
    by_cases inRange : InRange addr len
    · exact inRangeLoads inRange held sys
    · have load := loadRefused (not_or.mpr ⟨inRange, whole⟩) sys data
      refine ⟨⟨fun zero => ?_, fun inside => absurd inside inRange⟩, fun inside => absurd inside inRange,
        fun _ => load, ?_⟩
      · rw [load] at zero
        cases zero
      · intro i _
        rw [load]

theorem vectorLoads : Loads (rp2040Create nopBoard) 0x20000000 [0x00, 0x20, 0x04, 0x20] 4 :=
  (loadsExactly (rp2040Create nopBoard) 0x20000000 [0x00, 0x20, 0x04, 0x20] 4 (by decide)).mpr
    (by unfold Wraps; decide)

-- The byte goes to offset 0xdfffffff.
theorem lastByteLoads : ¬ Loads (rp2040Create nopBoard) 0xFFFFFFFF [0xAB] 1 ∧
    (rp2040LoadBinary (rp2040Create nopBoard) 0xFFFFFFFF [0xAB] 1).1 = 0 ∧
    (rp2040LoadBinary (rp2040Create nopBoard) 0xFFFFFFFF [0xAB] 1).2.sram.data 0xDFFFFFFF = 0xAB := by
  have wraps : Wraps 0xFFFFFFFF 1 := by
    unfold Wraps
    decide
  refine ⟨fun loads => wrapsLoad loads wraps, ?_, ?_⟩
  · rw [loadAccepted (.inr wraps)]
  · rw [loadAccepted (.inr wraps)]
    decide

end BitN.BinaryLoading

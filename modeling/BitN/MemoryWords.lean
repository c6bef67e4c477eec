import BitN.Debugging
import BitN.Lib.Words
import Mathlib.Algebra.Group.Nat.Defs

/-! Words in the emulated memory, whatever their alignment. The range that the two functions let
through is longer than the SRAM banks, and they test the first byte of a word only. -/
namespace BitN.MemoryWords

def sramBanks : List (Nat × Nat) :=
  [(0x20000000, 64 * 1024), (0x20010000, 64 * 1024), (0x20020000, 64 * 1024), (0x20030000, 64 * 1024),
    (0x20040000, 4 * 1024), (0x20041000, 4 * 1024)]

def InBanks (addr : UInt32) : Prop :=
  ∀ i < 4, ∃ bank ∈ sramBanks, bank.1 ≤ addr.toNat + i ∧ addr.toNat + i < bank.1 + bank.2

def Disjoint (addr other : UInt32) : Prop :=
  addr.toNat + 4 ≤ other.toNat ∨ other.toNat + 4 ≤ addr.toNat

/-- The SRAM module reads and writes the four bytes from an offset, the first the lowest. -/
structure LittleEndian (words : SramWords) : Prop where
  read : ∀ sram offset, (words.sramReadWord sram offset).toNat = Words.value sram.data offset.toNat 4
  write : ∀ sram offset value,
    (words.sramWriteWord sram offset value).data = Words.write sram.data offset.toNat 4 value.toNat

structure WordAt (words : SramWords) (addr : UInt32) : Prop where
  written : InBanks addr → ∀ sys value,
    rp2040ReadMemory words (rp2040WriteMemory words sys addr value) addr = value
  others : InBanks addr → ∀ sys value other, Disjoint addr other →
    rp2040ReadMemory words (rp2040WriteMemory words sys addr value) other = rp2040ReadMemory words sys other
  ignored : ¬ InBanks addr → ∀ sys value, rp2040WriteMemory words sys addr value = sys
  zero : ¬ InBanks addr → ∀ sys, rp2040ReadMemory words sys addr = 0

/-! The two ranges -/

def Tested (addr : UInt32) : Prop := 0x20000000 ≤ addr.toNat ∧ addr.toNat < 0x20042800

theorem inBanksExactly (addr : UInt32) :
    InBanks addr ↔ 0x20000000 ≤ addr.toNat ∧ addr.toNat + 4 ≤ 0x20042000 := by
  constructor
  · intro inside
    obtain ⟨first, held, low, _⟩ := inside 0 (by decide)
    obtain ⟨last, lastHeld, _, high⟩ := inside 3 (by decide)
    have start : ∀ bank ∈ sramBanks, 0x20000000 ≤ bank.1 := by decide
    have stop : ∀ bank ∈ sramBanks, bank.1 + bank.2 ≤ 0x20042000 := by decide
    have := start first held
    have := stop last lastHeld
    omega
  · intro range i four
    simp only [sramBanks, List.mem_cons, List.not_mem_nil, or_false, exists_eq_or_imp, exists_eq_left]
    omega

theorem inBanksTested {addr : UInt32} (inside : InBanks addr) : Tested addr := by
  have := (inBanksExactly addr).mp inside
  unfold Tested
  omega

theorem tested (addr : UInt32) :
    addr ≥ rp2040SramBase ∧ addr < rp2040SramBase + rp2040SramSize ↔ Tested addr := by
  have base : rp2040SramBase.toNat = 0x20000000 := rfl
  have stop : (rp2040SramBase + rp2040SramSize).toNat = 0x20042800 := rfl
  unfold Tested
  rw [ge_iff_le, UInt32.le_iff_toNat_le, UInt32.lt_iff_toNat_lt, base, stop]

section words
variable {words : SramWords} (sram : LittleEndian words) (sys : Rp2040System)

theorem readOutside {addr : UInt32} (outside : ¬ Tested addr) : rp2040ReadMemory words sys addr = 0 := by
  unfold rp2040ReadMemory
  rw [if_neg (mt (tested addr).mp outside)]

theorem writeOutside {addr : UInt32} (outside : ¬ Tested addr) (value : UInt32) :
    rp2040WriteMemory words sys addr value = sys := by
  unfold rp2040WriteMemory
  rw [if_neg (mt (tested addr).mp outside)]

theorem offsetNat {addr : UInt32} (inside : Tested addr) :
    (addr - rp2040SramBase).toNat = addr.toNat - 0x20000000 :=
  UInt32.toNat_sub_of_le _ _ (UInt32.le_iff_toNat_le.mpr inside.1)

include sram

theorem readInside {addr : UInt32} (inside : Tested addr) :
    (rp2040ReadMemory words sys addr).toNat = Words.value sys.sram.data (addr.toNat - 0x20000000) 4 := by
  unfold rp2040ReadMemory
  rw [if_pos ((tested addr).mpr inside), sram.read, offsetNat inside]

theorem writeInside {addr : UInt32} (inside : Tested addr) (value : UInt32) :
    (rp2040WriteMemory words sys addr value).sram.data =
      Words.write sys.sram.data (addr.toNat - 0x20000000) 4 value.toNat := by
  unfold rp2040WriteMemory
  rw [if_pos ((tested addr).mpr inside)]
  change (words.sramWriteWord sys.sram (addr - rp2040SramBase) value).data = _
  rw [sram.write, offsetNat inside]

theorem readWritten {addr : UInt32} (inside : Tested addr) (value : UInt32) :
    rp2040ReadMemory words (rp2040WriteMemory words sys addr value) addr = value := by
  apply UInt32.toNat_inj.mp
  rw [readInside sram _ inside, writeInside sram sys inside]
  exact Words.valueWriteFits _ _ value.toNat_lt

theorem readOther {addr other : UInt32} (inside : Tested addr) (disjoint : Disjoint addr other) (value : UInt32) :
    rp2040ReadMemory words (rp2040WriteMemory words sys addr value) other = rp2040ReadMemory words sys other := by
  by_cases otherInside : Tested other
  · apply UInt32.toNat_inj.mp
    rw [readInside sram _ otherInside, readInside sram _ otherInside, writeInside sram sys inside]
    apply Words.valueWriteDisjoint
    unfold Tested at inside otherInside
    unfold Disjoint at disjoint
    omega
  · rw [readOutside _ otherInside, readOutside _ otherInside]

omit sys in
/-- Tested and not in the banks is where the two functions go wrong. -/
theorem wordAtTested {addr : UInt32} : WordAt words addr ↔ (Tested addr → InBanks addr) := by
  constructor
  · intro word inside
    by_contra outside
    have zero := word.zero outside (rp2040WriteMemory words (rp2040Create nopBoard) addr 1)
    rw [readWritten sram _ inside] at zero
    exact absurd zero (by decide)
  · intro whole
    exact ⟨fun banks sys value => readWritten sram sys (inBanksTested banks) value,
      fun banks sys value other disjoint => readOther sram sys (inBanksTested banks) disjoint value,
      fun outside sys value => writeOutside sys (mt whole outside) value,
      fun outside sys => readOutside sys (mt whole outside)⟩

omit sys in
/-- Words are kept as they should be except at the addresses from three bytes before the end of
the banks to the end of the tested range. -/
theorem wordAtExactly (addr : UInt32) :
    WordAt words addr ↔ addr.toNat + 4 ≤ 0x20042000 ∨ 0x20042800 ≤ addr.toNat := by
  rw [wordAtTested sram, inBanksExactly]
  unfold Tested
  omega

end words

def wordsInPlace : SramWords where
  sramReadWord sram offset := UInt32.ofNat (Words.value sram.data offset.toNat 4)
  sramWriteWord sram offset value := ⟨Words.write sram.data offset.toNat 4 value.toNat⟩

theorem wordsInPlaceLittleEndian : LittleEndian wordsInPlace where
  read sram offset := UInt32.toNat_ofNat_of_lt' (Words.valueLt sram.data offset.toNat 4)
  write _ _ _ := rfl


theorem wordAtBase : WordAt wordsInPlace 0x20000000 :=
  (wordAtExactly wordsInPlaceLittleEndian 0x20000000).mpr (.inl (by decide))

-- The first address behind the banks.
theorem wordBehindBanks : ¬ WordAt wordsInPlace 0x20042000 ∧ ¬ InBanks 0x20042000 ∧
    rp2040ReadMemory wordsInPlace (rp2040WriteMemory wordsInPlace (rp2040Create nopBoard) 0x20042000 0xCAFE)
      0x20042000 = 0xCAFE := by
  have outside : ¬ InBanks 0x20042000 := by
    rw [inBanksExactly]
    decide
  have inside : Tested 0x20042000 := by
    unfold Tested
    decide
  exact ⟨fun word => outside ((wordAtTested wordsInPlaceLittleEndian).mp word inside), outside,
    readWritten wordsInPlaceLittleEndian _ inside 0xCAFE⟩

end BitN.MemoryWords

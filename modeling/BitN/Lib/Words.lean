import Mathlib.Data.Nat.Digits.Defs
import Mathlib.Tactic.Common

/-! Words in a memory of bytes, the least significant byte first. -/
namespace Words
variable {memory : Nat → UInt8} {start n word : Nat}

/-- The word in the `n` bytes from `start`. -/
def value (memory : Nat → UInt8) (start n : Nat) : Nat :=
  Nat.ofDigits 256 ((List.range n).map fun i => (memory (start + i)).toNat)

def write (memory : Nat → UInt8) (start n word : Nat) : Nat → UInt8 := fun i =>
  if start ≤ i ∧ i < start + n then UInt8.ofNat (word / 256 ^ (i - start)) else memory i

@[simp] theorem valueZero (memory : Nat → UInt8) (start : Nat) : value memory start 0 = 0 := rfl

theorem valueSucc (memory : Nat → UInt8) (start n : Nat) :
    value memory start (n + 1) = (memory start).toNat + 256 * value memory (start + 1) n := by
  have rest : (fun i => (memory (start + i)).toNat) ∘ Nat.succ = fun i => (memory (start + 1 + i)).toNat := by
    funext i
    rw [Function.comp_apply, Nat.succ_eq_add_one, Nat.add_right_comm, Nat.add_assoc]
  unfold value
  rw [List.range_succ_eq_map, List.map_cons, List.map_map, Nat.ofDigits_cons, Nat.add_zero, rest]

theorem valueLt (memory : Nat → UInt8) (start n : Nat) : value memory start n < 256 ^ n := by
  induction n generalizing start with
  | zero => exact Nat.one_pos
  | succ n next =>
    have byte := (memory start).toNat_lt
    have rest := next (start + 1)
    rw [valueSucc, Nat.pow_succ]
    omega

/-- A word is what its bytes are. -/
theorem valueCongr {other : Nat → UInt8} (same : ∀ i, start ≤ i → i < start + n → memory i = other i) :
    value memory start n = value other start n := by
  induction n generalizing start with
  | zero => rfl
  | succ n next =>
    rw [valueSucc, valueSucc, same start (by omega) (by omega),
      next fun i after before => same i (by omega) (by omega)]

theorem writeOutside {i : Nat} (outside : i < start ∨ start + n ≤ i) :
    write memory start n word i = memory i := by
  unfold write
  rw [if_neg (by omega)]

theorem writeSucc (memory : Nat → UInt8) (start n word : Nat) {i : Nat} (after : start + 1 ≤ i) :
    write memory start (n + 1) word i = write memory (start + 1) n (word / 256) i := by
  unfold write
  have shift : word / 256 / 256 ^ (i - (start + 1)) = word / 256 ^ (i - start) := by
    rw [Nat.div_div_eq_div_mul, ← Nat.pow_succ']
    congr 2
    omega
  rw [shift]
  congr 1
  apply propext
  omega

/-- Reading over a write. -/
theorem valueWrite (memory : Nat → UInt8) (start n word : Nat) :
    value (write memory start n word) start n = word % 256 ^ n := by
  induction n generalizing start word with
  | zero => rw [valueZero, Nat.pow_zero, Nat.mod_one]
  | succ n next =>
    have first : (write memory start (n + 1) word start).toNat = word % 256 := by
      unfold write
      rw [if_pos (by omega), Nat.sub_self, Nat.pow_zero, Nat.div_one, UInt8.toNat_ofNat']
    have rest : value (write memory start (n + 1) word) (start + 1) n = word / 256 % 256 ^ n := by
      rw [← next (start + 1) (word / 256)]
      exact valueCongr fun i after _ => writeSucc memory start n word after
    rw [valueSucc, first, rest, Nat.pow_succ', Nat.mod_mul]

theorem valueWriteFits (memory : Nat → UInt8) (start : Nat) (fits : word < 256 ^ n) :
    value (write memory start n word) start n = word := by
  rw [valueWrite, Nat.mod_eq_of_lt fits]

theorem valueWriteDisjoint {from_ m : Nat} (disjoint : from_ + m ≤ start ∨ start + n ≤ from_) :
    value (write memory start n word) from_ m = value memory from_ m :=
  valueCongr fun _ after before => writeOutside (by omega)

end Words

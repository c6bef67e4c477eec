import Mathlib.Data.Finset.Dedup
import Mathlib.Data.Finset.Basic
import Mathlib.Data.Finset.Card
import Mathlib.Data.List.Perm.Basic
import Mathlib.Tactic.Common

/-! A set kept as a bag of bounded size, and the bag in the first places of a table. -/
namespace Bags
variable {α : Type} [DecidableEq α]

/-! What the set sees of the bag -/

def insertUpTo (capacity : Nat) (bag : Multiset α) (a : α) : Multiset α :=
  if bag.card < capacity then a ::ₘ bag else bag

theorem insertExactly {capacity : Nat} {bag : Multiset α} {a : α} :
    (insertUpTo capacity bag a).toFinset = insert a bag.toFinset ↔ a ∈ bag ∨ bag.card < capacity := by
  unfold insertUpTo
  split
  case isTrue room => exact ⟨fun _ => .inr room, fun _ => Multiset.toFinset_cons a bag⟩
  case isFalse full =>
    rw [eq_comm, Finset.insert_eq_self, Multiset.mem_toFinset]
    exact ⟨.inl, fun held => held.resolve_right full⟩

theorem eraseExactly {bag : Multiset α} {a : α} :
    (bag.erase a).toFinset = bag.toFinset.erase a ↔ bag.count a ≤ 1 := by
  constructor
  · intro same
    by_contra twice
    have left : a ∈ bag.erase a := by
      rw [← Multiset.count_pos, Multiset.count_erase_self]
      omega
    have held := Multiset.mem_toFinset.mpr left
    rw [same] at held
    exact Finset.notMem_erase a _ held
  · intro once
    ext b
    rw [Multiset.mem_toFinset, Finset.mem_erase, Multiset.mem_toFinset]
    by_cases same : b = a
    · rw [same, ← Multiset.count_pos, Multiset.count_erase_self]
      simp only [ne_eq, not_true_eq_false, false_and, iff_false]
      omega
    · rw [Multiset.mem_erase_of_ne same]
      simp only [ne_eq, same, not_false_eq_true, true_and]

/-! Where nothing is in the bag twice -/

omit [DecidableEq α] in
theorem nodupInsert {capacity : Nat} {bag : Multiset α} {a : α} (once : bag.Nodup) (new : a ∉ bag) :
    (insertUpTo capacity bag a).Nodup := by
  unfold insertUpTo
  split
  · exact Multiset.nodup_cons.mpr ⟨new, once⟩
  · exact once

theorem roomLeft {capacity : Nat} {bag : Multiset α} {a : α} (once : bag.Nodup) (new : a ∉ bag)
    (few : (insert a bag.toFinset).card ≤ capacity) : bag.card < capacity := by
  rw [Finset.card_insert_of_notMem (mt Multiset.mem_toFinset.mp new), Multiset.toFinset_card_of_nodup once] at few
  exact few

/-! The bag in a table -/

omit [DecidableEq α] in
theorem tableInsert {table : List α} {n : Nat} (room : n < table.length) (a : α) :
    (table.set n a).take (n + 1) = table.take n ++ [a] := by
  rw [List.take_succ_eq_append_getElem (by rwa [List.length_set]), List.take_set_of_le (Nat.le_refl n),
    List.getElem_set_self]

omit [DecidableEq α] in
/-- Where the last place of the table goes to the one that is emptied, the order is lost. -/
theorem tableErase {table : List α} {n i : Nat} (held : n < table.length) (place : i ≤ n) :
    ((table.set i table[n]).take n).Perm ((table.take (n + 1)).eraseIdx i) := by
  rw [List.take_succ_eq_append_getElem held, List.take_set]
  obtain before | rfl := Nat.lt_or_eq_of_le place
  · have inside : i < (table.take n).length := by
      rw [List.length_take]
      omega
    rw [List.eraseIdx_append_of_lt_length inside]
    exact (List.set_perm_cons_eraseIdx inside _).trans (List.perm_append_singleton _ _).symm
  · have behind : (table.take i).length = i := by
      rw [List.length_take]
      omega
    rw [List.set_eq_of_length_le (by omega), List.eraseIdx_append_of_length_le (by omega), behind, Nat.sub_self,
      List.eraseIdx_cons_zero, List.append_nil]

end Bags

import BitN.Debugging
import BitN.Stepping
import BitN.Lib.Bags
import BitN.Lib.Lockstep
import Mathlib.Data.Finset.Card

/-! The breakpoint list as the set it stands for. An address that is added twice is listed twice,
and one removal takes one of the two away. -/
namespace BitN.BreakpointSet
open Lockstep Stepping

inductive Op where
  | add (addr : UInt32)
  | remove (addr : UInt32)
  | clear
  deriving DecidableEq

def perform (sys : Rp2040System) : Op → Rp2040System
  | .add addr => rp2040AddBreakpoint sys addr
  | .remove addr => rp2040RemoveBreakpoint sys addr
  | .clear => rp2040ClearBreakpoints sys

def intend (live : Finset UInt32) : Op → Finset UInt32
  | .add addr => insert addr live
  | .remove addr => live.erase addr
  | .clear => ∅

structure Represents (board : Board) (sys : Rp2040System) (live : Finset UInt32) : Prop where
  count : sys.numBreakpoints.toNat ≤ 32
  inPrefix : ∀ addr ∈ live, addr ∈ listed sys
  hits : ∀ (cores : Vector ArmCoreState 2) (core : Fin 2),
    (rp2040StepCore board { sys with cores } core).result = 1 ↔ (cores.get core).pc ∈ live

def Clean (sys : Rp2040System) : Op → Prop
  | .add addr => addr ∈ listed sys ∨ sys.numBreakpoints.toNat < 32
  | .remove addr => (listed sys).count addr ≤ 1
  | .clear => True

/-! The list as a bag -/

def bag (sys : Rp2040System) : Multiset UInt32 := listed sys

theorem listedLength {sys : Rp2040System} (count : sys.numBreakpoints.toNat ≤ 32) :
    (listed sys).length = sys.numBreakpoints.toNat := by
  unfold listed
  rw [List.length_take, Vector.length_toList, Nat.min_eq_left count]

theorem addFull {sys : Rp2040System} {addr : UInt32} (full : 32 ≤ sys.numBreakpoints.toNat) :
    rp2040AddBreakpoint sys addr = sys := by
  have count : sys.numBreakpoints ≥ 32 := UInt8.le_iff_toNat_le.mpr (by exact full)
  unfold rp2040AddBreakpoint
  rw [if_pos count]

theorem addRoom {sys : Rp2040System} {addr : UInt32} (room : sys.numBreakpoints.toNat < 32) :
    (rp2040AddBreakpoint sys addr).numBreakpoints.toNat = sys.numBreakpoints.toNat + 1 ∧
      listed (rp2040AddBreakpoint sys addr) = listed sys ++ [addr] := by
  have next : (sys.numBreakpoints + 1).toNat = sys.numBreakpoints.toNat + 1 := by
    rw [UInt8.toNat_add]
    exact Nat.mod_eq_of_lt (by change _ + 1 < 256; omega)
  have count : ¬ sys.numBreakpoints ≥ 32 := by
    rw [ge_iff_le, UInt8.le_iff_toNat_le]
    exact Nat.not_le_of_lt room
  unfold rp2040AddBreakpoint
  rw [if_neg count]
  refine ⟨next, ?_⟩
  unfold listed
  rw [next, Vector.toList_setIfInBounds]
  exact Bags.tableInsert (by rwa [Vector.length_toList]) addr

theorem removeUnlisted {sys : Rp2040System} {addr : UInt32} (unlisted : addr ∉ listed sys) :
    rp2040RemoveBreakpoint sys addr = sys := by
  have none_ : (listed sys).findIdx? (· == addr) = none := by
    rw [List.findIdx?_eq_none_iff]
    intro other held
    exact beq_eq_false_iff_ne.mpr (ne_of_mem_of_not_mem held unlisted)
  unfold listed at none_
  simp only [rp2040RemoveBreakpoint, none_]

theorem removeListed {sys : Rp2040System} {addr : UInt32} (count : sys.numBreakpoints.toNat ≤ 32)
    (held : addr ∈ listed sys) :
    (rp2040RemoveBreakpoint sys addr).numBreakpoints.toNat = sys.numBreakpoints.toNat - 1 ∧
      (listed (rp2040RemoveBreakpoint sys addr)).Perm ((listed sys).erase addr) := by
  have size := listedLength count
  obtain ⟨i, place⟩ : ∃ i, (listed sys).idxOf? addr = some i :=
    Option.isSome_iff_exists.mp (List.isSome_idxOf?.mpr held)
  have before : i < (listed sys).length := (List.findIdx?_eq_some_iff_getElem.mp place).1
  have fewer : (sys.numBreakpoints - 1).toNat = sys.numBreakpoints.toNat - 1 :=
    UInt8.toNat_sub_of_le _ _ (UInt8.le_iff_toNat_le.mpr (by change 1 ≤ _; omega))
  have last : sys.numBreakpoints.toNat - 1 < sys.breakpoints.toList.length := by
    rw [Vector.length_toList]
    omega
  have found : (sys.breakpoints.toList.take sys.numBreakpoints.toNat).findIdx? (· == addr) = some i := place
  unfold rp2040RemoveBreakpoint
  simp only [found]
  refine ⟨fewer, ?_⟩
  rw [List.erase_eq_eraseIdx, place]
  unfold listed
  rw [fewer, Vector.toList_setIfInBounds, List.getD_eq_getElem?_getD, List.getElem?_eq_getElem last, Option.getD_some]
  have table := @Bags.tableErase _ sys.breakpoints.toList (sys.numBreakpoints.toNat - 1) i last (by omega)
  rwa [Nat.sub_add_cancel (by omega)] at table

theorem bagAdd {sys : Rp2040System} (count : sys.numBreakpoints.toNat ≤ 32) (addr : UInt32) :
    bag (rp2040AddBreakpoint sys addr) = Bags.insertUpTo 32 (bag sys) addr := by
  have size : (bag sys).card = sys.numBreakpoints.toNat := listedLength count
  unfold Bags.insertUpTo
  rw [size]
  split
  case isTrue room =>
    unfold bag
    rw [(addRoom room).2, Multiset.cons_coe]
    exact Multiset.coe_eq_coe.mpr (List.perm_append_singleton addr (listed sys))
  case isFalse full => rw [addFull (by omega)]

theorem bagRemove {sys : Rp2040System} (count : sys.numBreakpoints.toNat ≤ 32) (addr : UInt32) :
    bag (rp2040RemoveBreakpoint sys addr) = (bag sys).erase addr := by
  by_cases held : addr ∈ listed sys
  · exact Multiset.coe_eq_coe.mpr (removeListed count held).2
  · rw [removeUnlisted held, Multiset.erase_of_notMem (by exact held)]

theorem countKept {sys : Rp2040System} (count : sys.numBreakpoints.toNat ≤ 32) (op : Op) :
    (perform sys op).numBreakpoints.toNat ≤ 32 := by
  cases op with
  | add addr =>
    by_cases room : sys.numBreakpoints.toNat < 32
    · rw [perform, (addRoom room).1]
      exact room
    · rwa [perform, addFull (by omega)]
  | remove addr =>
    by_cases held : addr ∈ listed sys
    · rw [perform, (removeListed count held).1]
      omega
    · rwa [perform, removeUnlisted held]
  | clear => exact Nat.zero_le _

/-! The set -/

theorem representsBag {board : Board} {sys : Rp2040System} {live : Finset UInt32} :
    Represents board sys live ↔ sys.numBreakpoints.toNat ≤ 32 ∧ (bag sys).toFinset = live := by
  constructor
  · intro represents
    refine ⟨represents.count, ?_⟩
    ext addr
    have hit := hitExactly board { sys with cores := Vector.replicate 2 { sys.cores[0] with pc := addr } } 0
    rw [represents.hits] at hit
    rw [Multiset.mem_toFinset]
    exact hit.symm
  · rintro ⟨count, rfl⟩
    refine ⟨count, fun addr live => Multiset.mem_toFinset.mp live, fun cores core => ?_⟩
    rw [hitExactly, Multiset.mem_toFinset]
    exact Iff.rfl

/-- One call does to a list that stands for a set what it is to do exactly when it is clean. -/
theorem cleanExactly {board : Board} (sys : Rp2040System) (live : Finset UInt32) (op : Op)
    (represents : Represents board sys live) :
    Represents board (perform sys op) (intend live op) ↔ Clean sys op := by
  obtain ⟨count, rfl⟩ := representsBag.mp represents
  have size : (bag sys).card = sys.numBreakpoints.toNat := listedLength count
  rw [representsBag]
  simp only [countKept count op, true_and]
  cases op with
  | add addr =>
    rw [perform, bagAdd count]
    refine Bags.insertExactly.trans ?_
    rw [size]
    exact Iff.rfl
  | remove addr =>
    rw [perform, bagRemove count]
    refine Bags.eraseExactly.trans ?_
    rw [bag, Multiset.coe_count]
    exact Iff.rfl
  | clear => exact ⟨fun _ => trivial, fun _ => rfl⟩

theorem createRepresents (board : Board) : Represents board (rp2040Create board) ∅ :=
  representsBag.mpr ⟨Nat.zero_le _, rfl⟩

/-- The list stands for its set all along a run exactly when every call finds it clean. -/
theorem representsExactly (board : Board) (ops : List Op) :
    Throughout (fun done => Represents board (done.foldl perform (rp2040Create board)) (done.foldl intend ∅)) ops ↔
      EachStep Clean perform (rp2040Create board) ops :=
  relatedExactly (createRepresents board) cleanExactly ops

/-- No address is listed twice, and a live address is not added again. -/
theorem freshKept {board : Board} {sys : Rp2040System} {live : Finset UInt32} {op : Op}
    (represents : Represents board sys live) (once : (bag sys).Nodup) (fresh : ∀ addr ∈ live, op ≠ .add addr)
    (few : (intend live op).card ≤ 32) : Clean sys op ∧ (bag (perform sys op)).Nodup := by
  obtain ⟨count, rfl⟩ := representsBag.mp represents
  have size : (bag sys).card = sys.numBreakpoints.toNat := listedLength count
  cases op with
  | add addr =>
    have new : addr ∉ bag sys := fun held => fresh addr (Multiset.mem_toFinset.mpr held) rfl
    refine ⟨.inr ?_, ?_⟩
    · rw [← size]
      exact Bags.roomLeft once new few
    · rw [perform, bagAdd count]
      exact Bags.nodupInsert once new
  | remove addr =>
    refine ⟨List.nodup_iff_count_le_one.mp (Multiset.coe_nodup.mp once) addr, ?_⟩
    rw [perform, bagRemove count]
    exact once.erase addr
  | clear => exact ⟨trivial, Multiset.nodup_zero⟩

/-- A debugger that adds no address it has set already can rely on the list. -/
theorem freshRepresents (board : Board) {ops : List Op}
    (few : Throughout (fun done => (done.foldl intend ∅).card ≤ 32) ops)
    (fresh : ∀ done addr, done ++ [.add addr] <+: ops → addr ∉ done.foldl intend ∅) :
    Throughout (fun done => Represents board (done.foldl perform (rp2040Create board)) (done.foldl intend ∅)) ops := by
  intro done first
  suffices kept : Represents board (done.foldl perform (rp2040Create board)) (done.foldl intend ∅) ∧
      (bag (done.foldl perform (rp2040Create board))).Nodup from kept.1
  induction done using List.reverseRecOn with
  | nil => exact ⟨createRepresents board, Multiset.nodup_zero⟩
  | append_singleton done op before =>
    obtain ⟨represents, once⟩ := before ((List.prefix_append done [op]).trans first)
    have room := few _ first
    simp only [List.foldl_append, List.foldl_cons, List.foldl_nil] at room ⊢
    obtain ⟨clean, onceAfter⟩ := freshKept represents once
      (fun addr live added => fresh done addr (by rwa [← added]) live) room
    exact ⟨(cleanExactly _ _ op represents).mpr clean, onceAfter⟩

def twice : List Op := [.add 0x20000010, .add 0x20000010, .remove 0x20000010]

-- The second of two equal breakpoints is still there.
theorem addedTwice : ¬ Throughout (fun done => Represents nopBoard (done.foldl perform (rp2040Create nopBoard))
      (done.foldl intend ∅)) twice ∧
    Throughout (fun done => (done.foldl intend ∅).card ≤ 32) twice ∧
    0x20000010 ∉ twice.foldl intend ∅ ∧
    0x20000010 ∈ listed (twice.foldl perform (rp2040Create nopBoard)) := by
  have left : 0x20000010 ∈ listed (twice.foldl perform (rp2040Create nopBoard)) := by decide
  have gone : 0x20000010 ∉ twice.foldl intend ∅ := by decide
  have few : ∀ done ∈ twice.inits, (done.foldl intend ∅).card ≤ 32 := by decide
  refine ⟨fun represents => ?_, fun done first => few done ((List.mem_inits done twice).mpr first), gone, left⟩
  have same := (representsBag.mp (represents twice (List.prefix_refl _))).2
  rw [← same, Multiset.mem_toFinset] at gone
  exact gone left

end BitN.BreakpointSet

import Mathlib.Algebra.Order.Group.Multiset
import Mathlib.Data.Finmap
import Mathlib.Tactic.Common

/-! Programs over a heap of blocks at addresses. A program owns a bag of cells, and what it does to
them it does whatever else is on the heap; none is an access to a block that is not there. -/
namespace Heap

variable {α β γ : Type}

abbrev Cell (β : Type) : Type := Σ _ : Nat, β

abbrev Memory (β : Type) : Type := Finmap fun _ : Nat => β

def Prog (β α : Type) : Type := Memory β → Option (α × Memory β)

instance : Monad (Prog β) where
  pure a := fun memory => some (a, memory)
  bind x f := fun memory => (x memory).bind fun (a, memory) => f a memory

/-- Any choice of an address that is not in use. -/
structure Allocator (β : Type) where
  malloc : Memory β → Nat
  fresh : ∀ memory, malloc memory ∉ memory

def fault : Prog β α := fun _ => none

def alloc (allocator : Allocator β) (block : β) : Prog β Nat := fun memory =>
  some (allocator.malloc memory, memory.insert (allocator.malloc memory) block)

def load (p : Nat) : Prog β β := fun memory => (memory.lookup p).map fun block => (block, memory)

def store (p : Nat) (block : β) : Prog β Unit := fun memory =>
  if p ∈ memory then some ((), memory.insert p block) else none

def free (p : Nat) : Prog β Unit := fun memory => if p ∈ memory then some ((), memory.erase p) else none

-- Nothing that visits a block once takes more steps than there are blocks.
def walk (x : Nat → Prog β α) : Prog β α := fun memory => x memory.entries.card memory

/-! The entries of a memory -/

theorem freshEntries {memory : Memory β} {p : Nat} (fresh : p ∉ memory) (block : β) :
    (memory.insert p block).entries = {⟨p, block⟩} + memory.entries := by
  rw [Finmap.entries_insert_of_notMem fresh, Multiset.singleton_add]

theorem splitMemory {memory : Memory β} {p : Nat} {block : β} {rest : Multiset (Cell β)}
    (held : memory.entries = {⟨p, block⟩} + rest) :
    ∃ others : Memory β, others.entries = rest ∧ p ∉ others ∧ memory = others.insert p block := by
  have keys := memory.nodupKeys
  rw [held, ← Multiset.nodup_keys, Multiset.singleton_add, Multiset.keys_cons, Multiset.nodup_cons] at keys
  let others : Memory β := ⟨rest, Multiset.nodup_keys.mp keys.2⟩
  have fresh : p ∉ others := keys.1
  exact ⟨others, rfl, fresh, Finmap.ext (by rw [held, freshEntries fresh])⟩

theorem insertErase {others : Memory β} {p : Nat} (fresh : p ∉ others) (block : β) :
    (others.insert p block).erase p = others := by
  apply Finmap.ext_lookup
  intro q
  by_cases same : q = p
  · rw [same, Finmap.lookup_erase, Finmap.lookup_eq_none.mpr fresh]
  · rw [Finmap.lookup_erase_ne same, Finmap.lookup_insert_of_ne others same]

/-! What a program does to the cells it owns -/

def Runs (owned : Multiset (Cell β)) (x : Prog β α) (Q : α → Multiset (Cell β) → Prop) : Prop :=
  ∀ memory frame, memory.entries = owned + frame →
    ∃ a memory' left, x memory = some (a, memory') ∧ memory'.entries = left + frame ∧ Q a left

section rules
variable {owned own rest : Multiset (Cell β)} {x : Prog β α} {f : α → Prog β γ}
  {P Q : α → Multiset (Cell β) → Prop} {R : γ → Multiset (Cell β) → Prop}

theorem runsPure {a : α} (holds : Q a owned) : Runs owned (pure a) Q :=
  fun memory _ held => ⟨a, memory, owned, rfl, held, holds⟩

theorem runsBind (first : Runs owned x P) (then_ : ∀ a left, P a left → Runs left (f a) R) :
    Runs owned (x >>= f) R := by
  intro memory frame held
  obtain ⟨a, between, left, ran, kept, holds⟩ := first memory frame held
  obtain ⟨c, after, last, ran', kept', holds'⟩ := then_ a left holds between frame kept
  refine ⟨c, after, last, ?_, kept', holds'⟩
  change (x memory).bind _ = _
  rw [ran]
  exact ran'

theorem runsWeaken (ran : Runs owned x P) (weaker : ∀ a left, P a left → Q a left) : Runs owned x Q := by
  intro memory frame held
  obtain ⟨a, after, left, done, kept, holds⟩ := ran memory frame held
  exact ⟨a, after, left, done, kept, weaker a left holds⟩

/-- The frame rule. -/
theorem runsFrame (ran : Runs own x P) (rest : Multiset (Cell β)) :
    Runs (own + rest) x fun a left => ∃ mine, left = mine + rest ∧ P a mine := by
  intro memory frame held
  obtain ⟨a, after, mine, done, kept, holds⟩ := ran memory (rest + frame) (by rw [held, add_assoc])
  exact ⟨a, after, mine + rest, done, by rw [kept, add_assoc], mine, rfl, holds⟩

/-- A call that changes none of the cells. -/
theorem runsKept {S : α → Prop} (split : owned = own + rest) (ran : Runs own x fun a left => S a ∧ left = own) :
    Runs owned x fun a left => S a ∧ left = owned := by
  subst split
  refine runsWeaken (runsFrame ran rest) ?_
  rintro a _ ⟨_, rfl, holds, rfl⟩
  exact ⟨holds, rfl⟩

/-- A call with a part of the cells, and what follows it with the others. -/
theorem runsCall (split : owned = own + rest) (call : Runs own x P)
    (then_ : ∀ a left, P a left → Runs (left + rest) (f a) R) : Runs owned (x >>= f) R := by
  subst split
  refine runsBind (runsFrame call rest) fun a left holds => ?_
  obtain ⟨mine, rfl, holds⟩ := holds
  exact then_ a mine holds

/-- A call that needs none of the cells. -/
theorem runsNew (call : Runs 0 x P) (then_ : ∀ a left, P a left → Runs (left + owned) (f a) R) :
    Runs owned (x >>= f) R :=
  runsCall (zero_add owned).symm call then_

theorem runsMap {g : α → γ} (ran : Runs owned x fun a left => R (g a) left) : Runs owned (g <$> x) R :=
  runsBind ran fun _ _ holds => runsPure holds

theorem runsAlloc (allocator : Allocator β) (block : β) :
    Runs owned (alloc allocator block) fun p left => left = {⟨p, block⟩} + owned := by
  intro memory frame held
  refine ⟨allocator.malloc memory, _, _, rfl, ?_, rfl⟩
  rw [freshEntries (allocator.fresh memory), held, add_assoc]

theorem runsLoad {p : Nat} {block : β} (split : owned = {⟨p, block⟩} + rest) :
    Runs owned (load p) fun found left => found = block ∧ left = owned := by
  intro memory frame held
  refine ⟨block, memory, owned, ?_, held, rfl, rfl⟩
  have found : memory.lookup p = some block := by
    rw [Finmap.lookup_eq_some_iff, held, split]
    simp
  rw [load, found]
  rfl

theorem runsStore {p : Nat} {block : β} (next : β) (split : owned = {⟨p, block⟩} + rest) :
    Runs owned (store p next) fun _ left => left = {⟨p, next⟩} + rest := by
  intro memory frame held
  obtain ⟨others, same, fresh, rfl⟩ := splitMemory (held.trans (by rw [split, add_assoc]))
  refine ⟨(), _, _, if_pos (Finmap.mem_insert.mpr (.inl rfl)), ?_, rfl⟩
  rw [Finmap.insert_insert, freshEntries fresh, same, add_assoc]

theorem runsFree {p : Nat} {block : β} (split : owned = {⟨p, block⟩} + rest) :
    Runs owned (free p) fun _ left => left = rest := by
  intro memory frame held
  obtain ⟨others, same, fresh, rfl⟩ := splitMemory (held.trans (by rw [split, add_assoc]))
  refine ⟨(), others, rest, ?_, same, rfl⟩
  rw [free, if_pos (Finmap.mem_insert.mpr (.inl rfl)), insertErase fresh]

theorem runsWalk {x : Nat → Prog β α} (ran : ∀ n, owned.card ≤ n → Runs owned (x n) Q) : Runs owned (walk x) Q := by
  intro memory frame held
  refine ran _ ?_ memory frame held
  rw [held, Multiset.card_add]
  exact Nat.le_add_right _ _

/-- The addresses of cells that a program owns differ. -/
theorem runsDistinct (ran : owned.keys.Nodup → Runs owned x Q) : Runs owned x Q := by
  intro memory frame held
  have keys := Multiset.nodup_keys.mpr memory.nodupKeys
  rw [held, Multiset.keys, Multiset.map_add, Multiset.nodup_add] at keys
  exact ran keys.1 memory frame held

/-! Programs that access what is not there, if something is so -/

def Faults (owned : Multiset (Cell β)) (x : Prog β α) : Prop :=
  ∀ memory frame, memory.entries = owned + frame → x memory = none

def RunsUnless (bad : Prop) (owned : Multiset (Cell β)) (x : Prog β α) (Q : α → Multiset (Cell β) → Prop) : Prop :=
  (bad → Faults owned x) ∧ (¬ bad → Runs owned x Q)

variable {bad worse : Prop}

theorem faultsFirst (faults : Faults owned x) : Faults owned (x >>= f) := by
  intro memory frame held
  change (x memory).bind _ = none
  rw [faults memory frame held]
  rfl

theorem faultsThen (first : Runs owned x P) (then_ : ∀ a left, P a left → Faults left (f a)) : Faults owned (x >>= f) := by
  intro memory frame held
  obtain ⟨a, between, left, ran, kept, holds⟩ := first memory frame held
  change (x memory).bind _ = none
  rw [ran]
  exact then_ a left holds between frame kept

theorem unlessNever (never : ¬ bad) (ran : Runs owned x Q) : RunsUnless bad owned x Q :=
  ⟨fun here => absurd here never, fun _ => ran⟩

theorem unlessSame (same : bad ↔ worse) (ran : RunsUnless worse owned x Q) : RunsUnless bad owned x Q :=
  ⟨fun here => ran.1 (same.mp here), fun never => ran.2 fun here => never (same.mpr here)⟩

theorem unlessBind (first : Runs owned x P) (then_ : ∀ a left, P a left → RunsUnless bad left (f a) R) :
    RunsUnless bad owned (x >>= f) R :=
  ⟨fun here => faultsThen first fun a left holds => (then_ a left holds).1 here,
    fun never => runsBind first fun a left holds => (then_ a left holds).2 never⟩

/-- The frame rule. -/
theorem unlessFrame (call : RunsUnless bad own x P) (rest : Multiset (Cell β))
    (holds : ∀ a left, P a left → Q a (left + rest)) : RunsUnless bad (own + rest) x Q := by
  refine ⟨fun here memory frame held => call.1 here memory (rest + frame) (by rw [held, add_assoc]), fun never => ?_⟩
  refine runsWeaken (runsFrame (call.2 never) rest) ?_
  rintro a _ ⟨mine, rfl, kept⟩
  exact holds a mine kept

/-- A call that may fault, with a part of the cells. -/
theorem unlessCall (split : owned = own + rest) (call : RunsUnless bad own x P)
    (then_ : ∀ a left, P a left → Runs (left + rest) (f a) R) : RunsUnless bad owned (x >>= f) R := by
  subst split
  refine ⟨fun here => faultsFirst fun memory frame held => ?_, fun never => runsCall rfl (call.2 never) then_⟩
  exact call.1 here memory (rest + frame) (by rw [held, add_assoc])

end rules

end Heap

import BitN.Lib.Heap
import BitN.Lib.Run

/-! Routines: runs over a state that also work on a heap, and how one follows a run that has the state
alone. What it keeps on the heap stands for the run's result; what it loses there, the run's states tell. -/

def Routine (σ β α : Type) : Type := σ → Heap.Prog β (Option α × σ)

namespace Routine
open Heap

variable {σ β α γ δ ε : Type}

-- A run that was cut stays so.
def resume (f : α → Routine σ β γ) : Option α × σ → Prog β (Option γ × σ)
  | (some a, next) => f a next
  | (none, next) => pure (none, next)

instance : Monad (Routine σ β) where
  pure a := fun s => pure (some a, s)
  bind x f := fun s => x s >>= resume f

def cut : Routine σ β α := fun s => pure (none, s)

def run (x : Run σ α) : Routine σ β α := fun s => pure (x s)

def heap (x : Prog β α) : Routine σ β α := fun s => x >>= fun a => pure (some a, s)

def loop (step : α → Routine σ β (α ⊕ γ)) : Nat → α → Routine σ β γ
  | 0, _ => cut
  | n + 1, a => do
    match ← step a with
    | .inl next => loop step n next
    | .inr result => pure result

/-- The cells that a run between two states loses. -/
structure Losses (σ β : Type) where
  Lost : σ → σ → Multiset (Cell β) → Prop
  none : ∀ s, Lost s s 0
  both : ∀ {s t u m m'}, Lost s t m → Lost t u m' → Lost s u (m + m')

inductive Ends (L : Losses σ β) (Q : α → γ → Multiset (Cell β) → Prop) (s : σ) :
    Option α × σ → Option γ × σ → Multiset (Cell β) → Prop where
  | returned {a c last kept lost} (holds : Q a c kept) (losses : L.Lost s last lost) :
      Ends L Q s (some a, last) (some c, last) (kept + lost)
  | cut {last left} : Ends L Q s (none, last) (none, last) left

def Follows (L : Losses σ β) (owned : Multiset (Cell β)) (x : Run σ α) (y : Routine σ β γ)
    (Q : α → γ → Multiset (Cell β) → Prop) : Prop :=
  ∀ s, Runs owned (y s) (Ends L Q s (x s))

section rules
variable {L : Losses σ β} {owned own rest kept lost : Multiset (Cell β)} {x : Run σ α} {y : Routine σ β γ}
  {P : α → γ → Multiset (Cell β) → Prop}

theorem followsPure {a : α} {c : γ} (holds : P a c owned) : Follows L owned (pure a) (pure c) P := by
  intro s
  refine runsPure ?_
  have ends : Ends L P s (some a, s) (some c, s) (owned + 0) := .returned holds (L.none s)
  rwa [add_zero] at ends

theorem followsCut : Follows L owned (Run.cut : Run σ α) (cut : Routine σ β γ) P := fun _ => runsPure .cut

variable {f : α → Run σ δ} {g : γ → Routine σ β ε} {Q : δ → ε → Multiset (Cell β) → Prop}

theorem followsBind (first : Follows L owned x y P) (then_ : ∀ a c left, P a c left → Follows L left (f a) (g c) Q) :
    Follows L owned (x >>= f) (y >>= g) Q := by
  intro s
  change Runs owned (y s >>= resume g) _
  refine runsBind (first s) fun out left ends => ?_
  rcases ran : x s with ⟨_ | a, last⟩
  · rw [ran] at ends
    rw [Run.bindCut ran]
    cases ends
    exact runsPure .cut
  · rw [ran] at ends
    rw [Run.bindStep ran]
    cases ends with
    | @returned _ c _ kept lost holds losses =>
      refine runsWeaken (runsFrame (then_ a c kept holds last) lost) ?_
      rintro out' _ ⟨mine, rfl, ends'⟩
      generalize later : f a last = result at ends'
      cases ends' with
      | @returned _ _ _ kept' lost' holds' losses' =>
        rw [add_assoc, add_comm lost']
        exact .returned holds' (L.both losses losses')
      | cut => exact .cut

/-- The frame rule. -/
theorem followsFrame (follows : Follows L own x y P) (rest : Multiset (Cell β)) :
    Follows L (own + rest) x y fun a c left => ∃ mine, left = mine + rest ∧ P a c mine := by
  intro s
  refine runsWeaken (runsFrame (follows s) rest) ?_
  rintro out _ ⟨mine, rfl, ends⟩
  generalize ran : x s = result at ends
  cases ends with
  | @returned _ _ _ kept lost holds losses =>
    rw [add_right_comm]
    exact .returned ⟨kept, rfl, holds⟩ losses
  | cut => exact .cut

theorem followsCall (split : owned = own + rest) (call : Follows L own x y P)
    (then_ : ∀ a c left, P a c left → Follows L (left + rest) (f a) (g c) Q) :
    Follows L owned (x >>= f) (y >>= g) Q := by
  subst split
  refine followsBind (followsFrame call rest) ?_
  rintro a c _ ⟨mine, rfl, holds⟩
  exact then_ a c mine holds

/-- A call that needs none of the cells. -/
theorem followsNew (call : Follows L 0 x y P)
    (then_ : ∀ a c left, P a c left → Follows L (left + owned) (f a) (g c) Q) :
    Follows L owned (x >>= f) (y >>= g) Q :=
  followsCall (zero_add owned).symm call then_

theorem runPure (x : Run σ α) : x >>= pure = x := by
  funext s
  rcases ran : x s with ⟨_ | a, last⟩
  · exact Run.bindCut ran _
  · exact Run.bindStep ran _

/-- The state's run is over, and the heap has more to do. -/
theorem followsThen {Q : α → ε → Multiset (Cell β) → Prop} (call : Follows L 0 x y P)
    (then_ : ∀ a c left, P a c left → Follows L (left + owned) (pure a) (g c) Q) : Follows L owned x (y >>= g) Q := by
  rw [← runPure x]
  exact followsNew call then_

theorem followsMap {map : α → δ} {Q : δ → γ → Multiset (Cell β) → Prop} (follows : Follows L owned x y P)
    (holds : ∀ a c left, P a c left → Q (map a) c left) : Follows L owned (x >>= fun a => pure (map a)) y Q := by
  intro s
  refine runsWeaken (follows s) fun out left ends => ?_
  rcases ran : x s with ⟨_ | a, last⟩
  · rw [ran] at ends
    rw [Run.bindCut ran]
    cases ends
    exact .cut
  · rw [ran] at ends
    rw [Run.bindStep ran]
    cases ends with
    | returned made losses => exact .returned (holds _ _ _ made) losses

/-- A step of the state alone, which gives cells up. -/
theorem followsLoss {h : α → Routine σ β ε} (split : owned = kept + lost) (losses : ∀ s, L.Lost s (x s).2 lost)
    (then_ : ∀ a, Follows L kept (f a) (h a) Q) : Follows L owned (x >>= f) (run x >>= h) Q := by
  subst split
  refine followsBind (y := run x) (P := fun a c left => a = c ∧ left = kept) (fun s => ?_) ?_
  · have losses := losses s
    refine runsPure ?_
    rcases ran : x s with ⟨_ | a, last⟩
    · exact .cut
    · rw [ran] at losses
      exact .returned ⟨rfl, rfl⟩ losses
  · rintro a _ _ ⟨rfl, rfl⟩
    exact then_ a

/-- A step of the state alone. -/
theorem followsRun {h : α → Routine σ β ε} (quiet : Run.Moves (fun s t => L.Lost s t 0) x)
    (then_ : ∀ a, Follows L owned (f a) (h a) Q) : Follows L owned (x >>= f) (run x >>= h) Q :=
  followsLoss (add_zero owned).symm quiet then_

/-- A step of the heap alone. -/
theorem followsHeap {z : Prog β γ} {P : γ → Multiset (Cell β) → Prop} {Q : α → ε → Multiset (Cell β) → Prop}
    (first : Runs owned z P) (then_ : ∀ c left, P c left → Follows L left x (g c) Q) :
    Follows L owned x (heap z >>= g) Q := by
  intro s
  change Runs owned ((z >>= fun c => pure (some c, s)) >>= resume g) _
  have stepped : Runs owned (z >>= fun c => pure (some c, s)) fun out left => ∃ c, out = (some c, s) ∧ P c left :=
    runsBind first fun c left holds => runsPure ⟨c, rfl, holds⟩
  refine runsBind stepped ?_
  rintro _ left ⟨c, rfl, holds⟩
  exact then_ c left holds s

theorem followsReturn {a : α} {z : Prog β γ} (ran : Runs owned z fun c left => P a c left) :
    Follows L owned (pure a) (heap z) P := by
  intro s
  refine runsBind ran fun c left holds => ?_
  exact followsPure (L := L) holds s

theorem followsIte {c : Prop} [Decidable c] {x x' : Run σ α} {y y' : Routine σ β γ} (yes : c → Follows L owned x y P)
    (no : ¬c → Follows L owned x' y' P) : Follows L owned (if c then x else x') (if c then y else y') P := by
  split
  · exact yes ‹_›
  · exact no ‹_›

/-- Both go on, or both are done. -/
inductive Onward (I : α → γ → Multiset (Cell β) → Prop) (S : δ → ε → Multiset (Cell β) → Prop) :
    α ⊕ δ → γ ⊕ ε → Multiset (Cell β) → Prop where
  | on {a c left} (holds : I a c left) : Onward I S (.inl a) (.inl c) left
  | off {d e left} (holds : S d e left) : Onward I S (.inr d) (.inr e) left

theorem followsLoop {step : α → Run σ (α ⊕ δ)} {step' : γ → Routine σ β (γ ⊕ ε)}
    (I : α → γ → Multiset (Cell β) → Prop)
    (body : ∀ a c left, I a c left → Follows L left (step a) (step' c) (Onward I Q)) (n : Nat) {a : α} {c : γ}
    (start : I a c owned) : Follows L owned (Run.loop step n a) (loop step' n c) Q := by
  induction n generalizing a c owned with
  | zero => exact followsCut
  | succ n ih =>
    refine followsBind (body a c owned start) fun out out' left onward => ?_
    cases onward with
    | on holds => exact ih holds
    | off holds => exact followsPure holds

end rules

end Routine

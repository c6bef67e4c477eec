import Mathlib.Logic.Function.Iterate
import Mathlib.Order.Defs.Unbundled
import Mathlib.Tactic.Common

/-! State-passing computations that fuel may cut off. A cut keeps the state it was cut
in, so what a run has done so far can be spoken of whether or not it ever returns. -/

/-- A result, or none for a run that was cut, and the state at that point. -/
def Run (σ α : Type) : Type := σ → Option α × σ

namespace Run
variable {σ α β γ : Type}

def cut : Run σ α := fun s => (none, s)

def read (f : σ → α) : Run σ α := fun s => (some (f s), s)

def modify (f : σ → σ) : Run σ Unit := fun s => (some (), f s)

instance : Monad (Run σ) where
  pure a := fun s => (some a, s)
  bind x f := fun s =>
    match x s with
    | (some a, next) => f a next
    | (none, next) => (none, next)

def loop (step : α → Run σ (α ⊕ β)) : Nat → α → Run σ β
  | 0, _ => cut
  | n + 1, a => do
    match ← step a with
    | .inl next => loop step n next
    | .inr result => pure result

@[simp] theorem pureApply (a : α) (s : σ) : (pure a : Run σ α) s = (some a, s) := rfl
@[simp] theorem readApply (f : σ → α) (s : σ) : read f s = (some (f s), s) := rfl
@[simp] theorem modifyApply (f : σ → σ) (s : σ) : modify f s = (some (), f s) := rfl
@[simp] theorem cutApply (s : σ) : (cut : Run σ α) s = (none, s) := rfl

theorem iteApply {c : Prop} [Decidable c] (x y : Run σ α) (s : σ) :
    (if c then x else y) s = if c then x s else y s := by
  split <;> rfl

@[simp] theorem bindRead (f : σ → α) (g : α → Run σ β) (s : σ) : (read f >>= g) s = g (f s) s := rfl
@[simp] theorem bindModify (f : σ → σ) (g : Unit → Run σ β) (s : σ) : (modify f >>= g) s = g () (f s) := rfl

theorem bindReturns {x : Run σ α} {f : α → Run σ β} {s last : σ} {b : β} :
    (x >>= f) s = (some b, last) ↔ ∃ a next, x s = (some a, next) ∧ f a next = (some b, last) := by
  change (match x s with | (some a, next) => f a next | (none, next) => (none, next)) = _ ↔ _
  rcases x s with ⟨_ | a, next⟩
  · simp
  · simp

theorem bindStep {x : Run σ α} {s next : σ} {a : α} (first : x s = (some a, next)) (f : α → Run σ β) :
    (x >>= f) s = f a next := by
  change (match x s with | (some a, next) => f a next | (none, next) => (none, next)) = _
  rw [first]

theorem bindCut {x : Run σ α} {s next : σ} (first : x s = (none, next)) (f : α → Run σ β) :
    (x >>= f) s = (none, next) := by
  change (match x s with | (some a, next) => f a next | (none, next) => (none, next)) = _
  rw [first]

/-! Relations that every step respects -/

def Moves (R : σ → σ → Prop) (x : Run σ α) : Prop := ∀ s, R s (x s).2

section moves
variable {R : σ → σ → Prop}

theorem movesPure [Std.Refl R] (a : α) : Moves R (pure a : Run σ α) := fun s => refl_of R s
theorem movesCut [Std.Refl R] : Moves R (cut : Run σ α) := fun s => refl_of R s
theorem movesRead [Std.Refl R] (f : σ → α) : Moves R (read f) := fun s => refl_of R s

theorem movesBind [IsTrans σ R] {x : Run σ α} {f : α → Run σ β} (first : Moves R x)
    (then_ : ∀ a, Moves R (f a)) : Moves R (x >>= f) := by
  intro s
  have step := first s
  rcases h : x s with ⟨_ | a, next⟩
  · rw [bindCut h]
    rwa [h] at step
  · rw [bindStep h]
    rw [h] at step
    exact trans_of R step (then_ a next)

theorem movesIte {c : Prop} [Decidable c] {x y : Run σ α} (yes : c → Moves R x) (no : ¬ c → Moves R y) :
    Moves R (if c then x else y) := by
  split
  · exact yes ‹_›
  · exact no ‹_›

theorem movesLoop [IsPreorder σ R] {step : α → Run σ (α ⊕ β)} (body : ∀ a, Moves R (step a)) (n : Nat) (a : α) :
    Moves R (loop step n a) := by
  induction n generalizing a with
  | zero => exact movesCut
  | succ n ih =>
    refine movesBind (body a) fun out => ?_
    cases out with
    | inl next => exact ih next
    | inr result => exact movesPure result

end moves

/-! More fuel -/

/-- What the first returns, the second returns too; where the first is cut, the second goes on,
and keeps to `R`. -/
structure Below (R : σ → σ → Prop) (x y : Run σ α) : Prop where
  returns : ∀ s a last, x s = (some a, last) → y s = (some a, last)
  extends_ : ∀ s last, x s = (none, last) → R last (y s).2
  moves : Moves R y

section below
variable {R : σ → σ → Prop} [IsPreorder σ R]

theorem belowRfl {x : Run σ α} (moves : Moves R x) : Below R x x where
  returns _ _ _ h := h
  extends_ s last h := by
    rw [h]
    exact refl_of R last
  moves := moves

theorem belowState {x y : Run σ α} (below : Below R x y) (s : σ) : R (x s).2 (y s).2 := by
  rcases h : x s with ⟨_ | a, last⟩
  · exact below.extends_ s last h
  · rw [below.returns s a last h]
    exact refl_of R last

theorem belowTrans {x y z : Run σ α} (first : Below R x y) (second : Below R y z) : Below R x z where
  returns s a last h := second.returns s a last (first.returns s a last h)
  extends_ s last h := trans_of R (first.extends_ s last h) (belowState second s)
  moves := second.moves

omit [IsPreorder σ R] in
theorem belowCut {x : Run σ α} (moves : Moves R x) : Below R cut x where
  returns s a last h := by simp at h
  extends_ s last h := by
    obtain rfl : s = last := by simpa using h
    exact moves s
  moves := moves

theorem belowBind {x y : Run σ α} {f g : α → Run σ β} (first : Below R x y) (then_ : ∀ a, Below R (f a) (g a)) :
    Below R (x >>= f) (y >>= g) where
  returns s b last h := by
    obtain ⟨a, next, hx, hf⟩ := bindReturns.mp h
    exact bindReturns.mpr ⟨a, next, first.returns s a next hx, (then_ a).returns next b last hf⟩
  extends_ s last h := by
    rcases hx : x s with ⟨_ | a, next⟩
    · obtain rfl : next = last := by rw [bindCut hx] at h; simpa using h
      refine trans_of R (first.extends_ s next hx) ?_
      rcases hy : y s with ⟨_ | a, after⟩
      · rw [bindCut hy]
        exact refl_of R after
      · rw [bindStep hy]
        exact (then_ a).moves after
    · rw [bindStep hx] at h
      rw [bindStep (first.returns s a next hx)]
      exact (then_ a).extends_ next last h
  moves := movesBind first.moves fun a => (then_ a).moves

omit [IsPreorder σ R] in
theorem belowIte {c : Prop} [Decidable c] {x y x' y' : Run σ α} (yes : Below R x x') (no : Below R y y') :
    Below R (if c then x else y) (if c then x' else y') := by
  split
  · exact yes
  · exact no

theorem belowLoop {step step' : α → Run σ (α ⊕ β)} (body : ∀ a, Below R (step a) (step' a)) {n m : Nat}
    (more : n ≤ m) (a : α) : Below R (loop step n a) (loop step' m a) := by
  induction n generalizing m a with
  | zero => exact belowCut (movesLoop (fun a => (body a).moves) m a)
  | succ n ih =>
    obtain ⟨m, rfl⟩ := Nat.exists_eq_succ_of_ne_zero (by omega : m ≠ 0)
    refine belowBind (body a) fun out => ?_
    cases out with
    | inl next => exact ih (by omega) next
    | inr result => exact belowRfl (movesPure result)

theorem belowChain {x : Nat → Run σ α} (step : ∀ n, Below R (x n) (x (n + 1))) {n m : Nat} (more : n ≤ m)
    (moves : Moves R (x n)) : Below R (x n) (x m) := by
  induction more with
  | refl => exact belowRfl moves
  | step _ ih => exact belowTrans ih (step _)

theorem chainUnique {x : Nat → Run σ α} (step : ∀ n, Below R (x n) (x (n + 1))) (moves : ∀ n, Moves R (x n)) {n m : Nat}
    {s last last' : σ} {a a' : α} (one : x n s = (some a, last)) (two : x m s = (some a', last')) :
    a = a' ∧ last = last' := by
  have one' := (belowChain step (Nat.le_max_left n m) (moves n)).returns s a last one
  have two' := (belowChain step (Nat.le_max_right n m) (moves m)).returns s a' last' two
  simpa using one'.symm.trans two'

end below

/-! Loops that return -/

theorem loopReturns {step : α → Run σ (α ⊕ β)} (Inv : α → σ → Prop) (Post : β → σ → Prop)
    (on : ∀ a s next s', Inv a s → step a s = (some (.inl next), s') → Inv next s')
    (off : ∀ a s b s', Inv a s → step a s = (some (.inr b), s') → Post b s') {n : Nat} {a : α} {s last : σ} {b : β}
    (start : Inv a s) (ran : loop step n a s = (some b, last)) : Post b last := by
  induction n generalizing a s with
  | zero => simp [loop] at ran
  | succ n ih =>
    obtain ⟨out, s', first, later⟩ := bindReturns.mp ran
    cases out with
    | inl next => exact ih (on a s next s' start first) later
    | inr result =>
      obtain ⟨rfl, rfl⟩ : result = b ∧ s' = last := by simpa using later
      exact off a s result s' start first

/-- A loop that never cuts itself, and comes down with every round that goes on, returns. -/
theorem loopEnds {step : α → Run σ (α ⊕ β)} (variant : α → σ → Nat)
    (body : ∀ a s, ∃ out s', step a s = (some out, s') ∧ ∀ next, out = .inl next → variant next s' < variant a s)
    {n : Nat} {a : α} {s : σ} (enough : variant a s < n) : ∃ b last, loop step n a s = (some b, last) := by
  induction n generalizing a s with
  | zero => omega
  | succ n ih =>
    obtain ⟨out, s', first, less⟩ := body a s
    cases out with
    | inl next =>
      have fewer := less next rfl
      obtain ⟨b, last, rest⟩ := @ih next s' (by omega)
      exact ⟨b, last, bindReturns.mpr ⟨_, _, first, rest⟩⟩
    | inr result => exact ⟨result, s', bindReturns.mpr ⟨_, _, first, rfl⟩⟩

/-! Loops whose rounds never cut themselves, and carry everything in the state -/

section rounds
variable {round : Unit → Run σ (Unit ⊕ β)} {out : σ → Unit ⊕ β} {next : σ → σ}

/-- Such a loop returns from its first round that does not go on. -/
theorem loopFirst (total : ∀ s, round () s = (some (out s), next s)) {s last : σ} {b : β} :
    (∃ fuel, loop round fuel () s = (some b, last)) ↔
      ∃ n, (∀ m < n, out (next^[m] s) = .inl ()) ∧ out (next^[n] s) = .inr b ∧ last = next^[n + 1] s := by
  constructor
  · rintro ⟨fuel, ran⟩
    induction fuel generalizing s with
    | zero => cases ran
    | succ fuel ih =>
      rw [loop, bindStep (total s)] at ran
      cases here : out s with
      | inl on =>
        rw [here] at ran
        obtain ⟨n, before, done, rfl⟩ := ih ran
        refine ⟨n + 1, fun m below => ?_, done, rfl⟩
        cases m with
        | zero => exact here
        | succ m => exact before m (by omega)
      | inr result =>
        rw [here] at ran
        obtain ⟨rfl, rfl⟩ : result = b ∧ next s = last := by simpa using ran
        exact ⟨0, nofun, here, rfl⟩
  · rintro ⟨n, before, done, rfl⟩
    induction n generalizing s with
    | zero => exact ⟨1, by rw [loop, bindStep (total s), show out s = _ from done]; rfl⟩
    | succ n ih =>
      obtain ⟨fuel, ran⟩ := ih (s := next s) (fun m below => before (m + 1) (by omega)) done
      refine ⟨fuel + 1, ?_⟩
      rw [loop, bindStep (total s), show out s = _ from before 0 (by omega)]
      exact ran

theorem loopOnce (total : ∀ s, round () s = (some (out s), next s)) {s last last' : σ} {b b' : β} {n m : Nat}
    (one : loop round n () s = (some b, last)) (two : loop round m () s = (some b', last')) : b = b' ∧ last = last' := by
  obtain ⟨i, before, done, rfl⟩ := (loopFirst total).mp ⟨n, one⟩
  obtain ⟨j, before', done', rfl⟩ := (loopFirst total).mp ⟨m, two⟩
  obtain less | rfl | more := Nat.lt_trichotomy i j
  · rw [before' i less] at done
    cases done
  · exact ⟨Sum.inr.inj (done.symm.trans done'), rfl⟩
  · rw [before j more] at done'
    cases done'

theorem loopSkip (total : ∀ s, round () s = (some (out s), next s)) {s last : σ} {b : β} {n : Nat}
    (on : ∀ m < n, out (next^[m] s) = .inl ()) :
    (∃ fuel, loop round fuel () (next^[n] s) = (some b, last)) ↔ ∃ fuel, loop round fuel () s = (some b, last) := by
  induction n generalizing s with
  | zero => exact Iff.rfl
  | succ n ih =>
    rw [Function.iterate_succ_apply, ih fun m below => on (m + 1) (by omega)]
    have here : out s = .inl () := on 0 (by omega)
    constructor
    · rintro ⟨fuel, ran⟩
      refine ⟨fuel + 1, ?_⟩
      rw [loop, bindStep (total s), here]
      exact ran
    · rintro ⟨fuel, ran⟩
      cases fuel with
      | zero => cases ran
      | succ fuel =>
        rw [loop, bindStep (total s), here] at ran
        exact ⟨fuel, ran⟩

end rounds

/-! What a run passes on its way, where a way from one state to another has labels -/

class Passage {τ : Type} (via : σ → List τ → σ → Prop) : Prop where
  refl : ∀ s, via s [] s
  trans : ∀ {s t w u v}, via s u t → via t v w → via s (u ++ v) w

/-- The labels are taken off a list that the state holds. -/
abbrev Taken {τ : Type} (view : σ → List τ) (s : σ) (used : List τ) (last : σ) : Prop := view s = used ++ view last

/-- The labels are put behind a list that the state holds. -/
abbrev Added {τ : Type} (view : σ → List τ) (s : σ) (made : List τ) (last : σ) : Prop := view last = view s ++ made

instance {τ : Type} (view : σ → List τ) : Passage (Taken view) where
  refl _ := rfl
  trans first second := by rw [Taken, first, second, List.append_assoc]

instance {τ : Type} (view : σ → List τ) : Passage (Added view) where
  refl _ := (List.append_nil _).symm
  trans first second := by rw [Added, second, first, List.append_assoc]

section passes
variable {τ : Type} {via : σ → List τ → σ → Prop} {Q : α → List τ → Prop} {P : β → List τ → Prop}

def PassesAt (via : σ → List τ → σ → Prop) (Q : α → List τ → Prop) (x : Run σ α) (s : σ) : Prop :=
  ∀ a last, x s = (some a, last) → ∃ passed, via s passed last ∧ Q a passed

def Passes (via : σ → List τ → σ → Prop) (Q : α → List τ → Prop) (x : Run σ α) : Prop := ∀ s, PassesAt via Q x s

theorem passesPure [Passage via] {a : α} (holds : Q a []) : Passes via Q (pure a : Run σ α) := by
  rintro s b last ran
  obtain ⟨rfl, rfl⟩ : a = b ∧ s = last := by simpa using ran
  exact ⟨[], Passage.refl s, holds⟩

theorem passesCut : Passes via Q (cut : Run σ α) := by
  rintro s a last ran
  simp at ran

theorem passesIte {c : Prop} [Decidable c] {x y : Run σ α} (yes : Passes via Q x) (no : Passes via Q y) :
    Passes via Q (if c then x else y) := by
  split
  · exact yes
  · exact no

theorem passesWeaken {Q' : α → List τ → Prop} {x : Run σ α} (ran : Passes via Q x) (weaker : ∀ a u, Q a u → Q' a u) :
    Passes via Q' x := by
  intro s a last done
  obtain ⟨passed, way, holds⟩ := ran s a last done
  exact ⟨passed, way, weaker a passed holds⟩

theorem passesBindAt [Passage via] {x : Run σ β} {f : β → Run σ α} {s : σ} (first : PassesAt via P x s)
    (then_ : ∀ b, Passes via (fun a v => ∀ u, P b u → Q a (u ++ v)) (f b)) : PassesAt via Q (x >>= f) s := by
  intro a last ran
  obtain ⟨b, next, one, two⟩ := bindReturns.mp ran
  obtain ⟨u, wayU, holdsU⟩ := first b next one
  obtain ⟨v, wayV, holdsV⟩ := then_ b next a last two
  exact ⟨u ++ v, Passage.trans wayU wayV, holdsV u holdsU⟩

theorem passesBind [Passage via] {x : Run σ β} {f : β → Run σ α} (first : Passes via P x)
    (then_ : ∀ b, Passes via (fun a v => ∀ u, P b u → Q a (u ++ v)) (f b)) : Passes via Q (x >>= f) :=
  fun s => passesBindAt (first s) then_

theorem passesAfter [Passage via] {x : Run σ β} {f : β → Run σ α} (still : Passes via (fun _ u => u = []) x)
    (then_ : ∀ b, Passes via Q (f b)) : Passes via Q (x >>= f) :=
  passesBind still fun b => passesWeaken (then_ b) fun a v holds u none => by rwa [none, List.nil_append]

theorem passesFinish [Passage via] {x : Run σ β} {f : β → Run σ α} (g : β → α) (first : Passes via P x)
    (still : ∀ b, Passes via (fun a v => a = g b ∧ v = []) (f b)) (holds : ∀ b u, P b u → Q (g b) u) :
    Passes via Q (x >>= f) := by
  refine passesBind first fun b => passesWeaken (still b) ?_
  rintro a v ⟨rfl, rfl⟩ u before
  rw [List.append_nil]
  exact holds b u before

theorem passesRead [Passage via] (f : σ → α) : Passes via (fun _ u => u = []) (read f) := by
  rintro s a last ran
  obtain rfl : s = last := (Prod.mk.inj ran).2
  exact ⟨[], Passage.refl s, rfl⟩

theorem passesLoop [Passage via] (Inv : α → List τ → Prop) {P : β → List τ → Prop} {step : α → Run σ (α ⊕ β)}
    (body : ∀ a, Passes via (fun out v => ∀ u, Inv a u →
      Sum.elim (fun next => Inv next (u ++ v)) (fun result => P result (u ++ v)) out) (step a)) (n : Nat) (a : α) :
    Passes via (fun b v => ∀ u, Inv a u → P b (u ++ v)) (loop step n a) := by
  induction n generalizing a with
  | zero => exact passesCut
  | succ n ih =>
    refine passesBind (body a) fun out => ?_
    cases out with
    | inl next =>
      refine passesWeaken (ih next) fun b w holds v on u start => ?_
      rw [← List.append_assoc]
      exact holds (u ++ v) (on u start)
    | inr result =>
      refine passesPure fun v off u start => ?_
      rw [List.append_nil]
      exact off u start

theorem passesLoopFrom [Passage via] (Inv : α → List τ → Prop) {P : β → List τ → Prop} {step : α → Run σ (α ⊕ β)} {a : α}
    (start : Inv a []) (body : ∀ a, Passes via (fun out v => ∀ u, Inv a u →
      Sum.elim (fun next => Inv next (u ++ v)) (fun result => P result (u ++ v)) out) (step a)) (n : Nat) :
    Passes via P (loop step n a) :=
  passesWeaken (passesLoop Inv body n a) fun _ _ holds => holds [] start

end passes

end Run

import BitN.Lib.Run

/-! Two runs side by side: a relation between their states before, one between results and states
when both return, and one between the states when both are cut. -/
namespace Run
variable {σ τ α β γ δ : Type}

inductive Meets (C : σ → τ → Prop) (Q : α → β → σ → τ → Prop) : Option α × σ → Option β × τ → Prop where
  | returned {a b s t} (holds : Q a b s t) : Meets C Q (some a, s) (some b, t)
  | stopped {s t} (holds : C s t) : Meets C Q (none, s) (none, t)

def Pairs (C P : σ → τ → Prop) (Q : α → β → σ → τ → Prop) (x : Run σ α) (y : Run τ β) : Prop :=
  ∀ s t, P s t → Meets C Q (x s) (y t)

variable {C P : σ → τ → Prop} {Q : α → β → σ → τ → Prop} {S : γ → δ → σ → τ → Prop}

theorem meetsReturned {a : α} {b : β} {s : σ} {t : τ} : Meets C Q (some a, s) (some b, t) ↔ Q a b s t :=
  ⟨fun | .returned holds => holds, .returned⟩

theorem meetsWeaken {Q' : α → β → σ → τ → Prop} {x : Option α × σ} {y : Option β × τ} (meets : Meets C Q x y)
    (weaker : ∀ a b s t, Q a b s t → Q' a b s t) : Meets C Q' x y := by
  cases meets with
  | returned holds => exact .returned (weaker _ _ _ _ holds)
  | stopped holds => exact .stopped holds

theorem pairsWeaken {P' : σ → τ → Prop} {Q' : α → β → σ → τ → Prop} {x : Run σ α} {y : Run τ β} (ran : Pairs C P Q x y)
    (stronger : ∀ s t, P' s t → P s t) (weaker : ∀ a b s t, Q a b s t → Q' a b s t) : Pairs C P' Q' x y :=
  fun s t before => meetsWeaken (ran s t (stronger s t before)) weaker

theorem pairsPure {a : α} {b : β} (holds : ∀ s t, P s t → Q a b s t) : Pairs C P Q (pure a) (pure b) :=
  fun s t before => .returned (holds s t before)

theorem pairsCut (holds : ∀ s t, P s t → C s t) : Pairs C P Q (cut : Run σ α) (cut : Run τ β) :=
  fun s t before => .stopped (holds s t before)

theorem pairsRead {f : σ → α} {g : τ → β} (holds : ∀ s t, P s t → Q (f s) (g t) s t) :
    Pairs C P Q (read f) (read g) :=
  fun s t before => .returned (holds s t before)

theorem pairsModify {Q : Unit → Unit → σ → τ → Prop} {f : σ → σ} {g : τ → τ}
    (holds : ∀ s t, P s t → Q () () (f s) (g t)) : Pairs C P Q (modify f) (modify g) :=
  fun s t before => .returned (holds s t before)

theorem pairsBind {x : Run σ α} {y : Run τ β} {f : α → Run σ γ} {g : β → Run τ δ} (first : Pairs C P Q x y)
    (then_ : ∀ a b, Pairs C (Q a b) S (f a) (g b)) : Pairs C P S (x >>= f) (y >>= g) := by
  intro s t before
  have met := first s t before
  rcases hx : x s with ⟨_ | a, s'⟩ <;> rcases hy : y t with ⟨_ | b, t'⟩ <;> rw [hx, hy] at met
  · rw [bindCut hx, bindCut hy]
    obtain ⟨-⟩ | ⟨holds⟩ := met
    exact .stopped holds
  · cases met
  · cases met
  · rw [bindStep hx, bindStep hy]
    exact then_ a b s' t' (meetsReturned.mp met)

/-- Both go on, or both are done. -/
inductive Abreast (I : α → β → σ → τ → Prop) (S : γ → δ → σ → τ → Prop) : α ⊕ γ → β ⊕ δ → σ → τ → Prop where
  | on {a b s t} (holds : I a b s t) : Abreast I S (.inl a) (.inl b) s t
  | off {c d s t} (holds : S c d s t) : Abreast I S (.inr c) (.inr d) s t

theorem pairsLoop {step : α → Run σ (α ⊕ γ)} {step' : β → Run τ (β ⊕ δ)} (I : α → β → σ → τ → Prop)
    (before : ∀ a b s t, I a b s t → C s t) (body : ∀ a b, Pairs C (I a b) (Abreast I S) (step a) (step' b)) (n : Nat)
    (a : α) (b : β) : Pairs C (I a b) S (loop step n a) (loop step' n b) := by
  induction n generalizing a b with
  | zero => exact pairsCut (before a b)
  | succ n ih =>
    refine pairsBind (body a b) fun out out' => ?_
    rcases out with a' | c <;> rcases out' with b' | d
    · exact pairsWeaken (ih a' b') (fun | _, _, .on holds => holds) fun _ _ _ _ => id
    · exact fun _ _ => nofun
    · exact fun _ _ => nofun
    · exact pairsPure fun | _, _, .off holds => holds

end Run

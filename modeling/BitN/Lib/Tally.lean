import Mathlib.Logic.Function.Iterate
import Mathlib.Tactic.Common

/-! Checks that count what they find in a counter of the state. The counter is stepped by `tick`,
which is a parameter: with `(· + 1)` it tells how often a check has counted. -/
namespace Tally

structure Counter (σ : Type) where
  get : σ → Int
  put : Int → σ → σ
  getPut : ∀ c s, get (put c s) = c
  putGet : ∀ s, put (get s) s = s
  putPut : ∀ c d s, put c (put d s) = put c s

variable {σ α : Type} {counter : Counter σ} {check first second : (Int → Int) → σ → Bool × σ}

/-- The check answers true exactly where it counts nothing, and how often it counts depends neither
on the counter nor on `tick`. -/
def Tallied (counter : Counter σ) (check : (Int → Int) → σ → Bool × σ) : Prop :=
  ∀ s, ∃ (n : Nat) (after : σ), ∀ tick c,
    check tick (counter.put c s) = (decide (n = 0), counter.put (tick^[n] c) after)

theorem Tallied.congr {check' : (Int → Int) → σ → Bool × σ} (tallied : Tallied counter check)
    (same : ∀ tick s, check' tick s = check tick s) : Tallied counter check' := by
  obtain rfl : check' = check := funext fun tick => funext (same tick)
  exact tallied

theorem talliedPasses (counter : Counter σ) (next : σ → σ)
    (frame : ∀ c s, next (counter.put c s) = counter.put c (next s)) :
    Tallied counter fun _ s => (true, next s) := by
  intro s
  exact ⟨0, next s, fun tick c => by simp [frame]⟩

theorem talliedFails (counter : Counter σ) (next : σ → σ)
    (frame : ∀ c s, next (counter.put c s) = counter.put c (next s)) :
    Tallied counter fun tick s => (false, counter.put (tick (counter.get s)) (next s)) := by
  intro s
  exact ⟨1, next s, fun tick c => by simp [frame, counter.getPut, counter.putPut]⟩

/-- State by state, whatever check it is there. -/
theorem talliedAt (each : ∀ s, ∃ there, Tallied counter there ∧
    ∀ tick c, check tick (counter.put c s) = there tick (counter.put c s)) : Tallied counter check := by
  intro s
  obtain ⟨there, tallied, same⟩ := each s
  obtain ⟨n, after, counts⟩ := tallied s
  exact ⟨n, after, fun tick c => (same tick c).trans (counts tick c)⟩

theorem talliedAnd (head : Tallied counter first) (tail : Tallied counter second) : Tallied counter fun tick s =>
    ((first tick s).1 && (second tick (first tick s).2).1, (second tick (first tick s).2).2) := by
  intro s
  obtain ⟨n, between, counts⟩ := head s
  obtain ⟨m, after, counts'⟩ := tail between
  refine ⟨m + n, after, fun tick c => ?_⟩
  have both : decide (m + n = 0) = (decide (n = 0) && decide (m = 0)) := by
    rw [Bool.eq_iff_iff]
    simp [and_comm]
  simp only [counts, counts', both, Function.iterate_add_apply]

/-- The second check is made only where the first one passes. -/
theorem talliedThen (head : Tallied counter first) (tail : Tallied counter second) : Tallied counter fun tick s =>
    match first tick s with
    | (false, s) => (false, s)
    | (true, s) => second tick s := by
  intro s
  obtain ⟨n, between, counts⟩ := head s
  cases n with
  | zero =>
    obtain ⟨m, after, counts'⟩ := tail between
    exact ⟨m, after, fun tick c => by simpa [counts] using counts' tick c⟩
  | succ n => exact ⟨n + 1, between, fun tick c => by simp [counts]⟩

theorem talliedAll {each : (Int → Int) → σ → α → Bool × σ} {all : (Int → Int) → σ → List α → Bool × σ}
    (nil : ∀ tick s, all tick s [] = (true, s))
    (cons : ∀ tick s a items, all tick s (a :: items) =
      ((each tick s a).1 && (all tick (each tick s a).2 items).1, (all tick (each tick s a).2 items).2))
    {items : List α} (tallied : ∀ a ∈ items, Tallied counter fun tick s => each tick s a) :
    Tallied counter fun tick s => all tick s items := by
  induction items with
  | nil =>
    simp only [nil]
    exact talliedPasses counter id fun _ _ => rfl
  | cons a items ih =>
    simp only [cons]
    exact talliedAnd (tallied a List.mem_cons_self) (ih fun b member => tallied b (List.mem_cons_of_mem _ member))

theorem talliedAround (counter : Counter σ) (enter leave : σ → σ)
    (entering : ∀ c s, enter (counter.put c s) = counter.put c (enter s))
    (leaving : ∀ c s, leave (counter.put c s) = counter.put c (leave s)) (inner : Tallied counter check) :
    Tallied counter fun tick s => ((check tick (enter s)).1, leave (check tick (enter s)).2) := by
  intro s
  obtain ⟨n, after, counts⟩ := inner (enter s)
  exact ⟨n, leave after, fun tick c => by simp only [entering, counts, leaving]⟩

/-! A counter with bounds -/

section bounded
variable {tick : Int → Int} {low high : Int} (exact_ : ∀ c, low ≤ c → c < high → tick c = c + 1)
include exact_

theorem iterateExact {n : Nat} {c : Int} (above : low ≤ c) (room : c + n ≤ high) : tick^[n] c = c + n := by
  induction n with
  | zero => simp
  | succ n ih =>
    have before : c + n < high := by omega
    rw [Function.iterate_succ_apply', ih (by omega), exact_ _ (by omega) before]
    omega

theorem talliedVerdict (tallied : Tallied counter check) {s : σ} (above : low ≤ counter.get s)
    (room : counter.get (check (· + 1) s).2 ≤ high) :
    counter.get (check tick s).2 = counter.get (check (· + 1) s).2 ∧
      ((check tick s).1 = true ↔ counter.get (check tick s).2 = counter.get s) ∧
      ((check tick s).1 = false ↔ counter.get s < counter.get (check tick s).2) := by
  obtain ⟨n, after, counts⟩ := tallied s
  have here := fun tick => counts tick (counter.get s)
  simp only [counter.putGet] at here
  have counted : (· + 1)^[n] (counter.get s) = counter.get s + n :=
    iterateExact (fun _ _ _ => rfl) (Int.le_refl _) (Int.le_refl _)
  simp only [here, counter.getPut, counted] at room ⊢
  rw [iterateExact exact_ above room]
  refine ⟨rfl, ?_, ?_⟩
  · rw [decide_eq_true_iff]
    omega
  · rw [decide_eq_false_iff_not]
    omega

end bounded
end Tally

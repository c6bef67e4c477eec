import Mathlib.Data.List.Basic

/-! Codes that end where they end: what is known of a value from a text that begins with its
code, and so how codes put together are read back. -/
namespace Codes

variable {α β γ δ σ : Type} {valid : α → Prop} {code code' : α → List σ} {read : α → β} {read' : α → γ}

/-- A text that begins with the code of a valid value tells what `read` has of it, and where
the code ends. -/
def Tells (valid : α → Prop) (code : α → List σ) (read : α → β) : Prop :=
  ∀ a b, valid a → valid b → ∀ rest rest', code a ++ rest = code b ++ rest' → read a = read b ∧ rest = rest'

theorem Tells.whole (tells : Tells valid code read) {a b : α} (va : valid a) (vb : valid b) (same : code a = code b) :
    read a = read b :=
  (tells a b va vb [] [] (by rw [same])).1

theorem Tells.reads (tells : Tells valid code read)
    (known : ∀ a b, valid a → valid b → read a = read b → read' a = read' b) : Tells valid code read' := by
  intro a b va vb rest rest' same
  obtain ⟨value, after⟩ := tells a b va vb rest rest' same
  exact ⟨known a b va vb value, after⟩

theorem Tells.part {inner : δ → Prop} {part : α → δ} {code : δ → List σ} {read : δ → β} (tells : Tells inner code read)
    (holds : ∀ a, valid a → inner (part a)) : Tells valid (fun a => code (part a)) (fun a => read (part a)) :=
  fun a b va vb => tells (part a) (part b) (holds a va) (holds b vb)

theorem tellsConstant (text : List σ) : Tells valid (fun _ => text) (fun _ => ()) :=
  fun _ _ _ _ _ _ same => ⟨rfl, List.append_cancel_left same⟩

theorem tellsFixed {n : Nat} (length : ∀ a, valid a → (code a).length = n) : Tells valid code code :=
  fun a b va vb _ _ same => List.append_inj same ((length a va).trans (length b vb).symm)

theorem tellsWord {stop : σ} {after : List σ} (free : ∀ a, valid a → stop ∉ code a) :
    Tells valid (fun a => code a ++ stop :: after) code := by
  intro a b va vb rest rest' same
  rw [List.append_assoc, List.append_assoc, List.cons_append, List.cons_append] at same
  rcases List.append_eq_append_iff.mp same with ⟨more, longer, next⟩ | ⟨more, longer, next⟩
  · cases more with
    | nil => exact ⟨by rw [longer, List.append_nil], List.append_cancel_left (List.cons.inj next).2⟩
    | cons c more =>
      obtain ⟨rfl, -⟩ := List.cons.inj next
      exact absurd (longer ▸ List.mem_append_right _ List.mem_cons_self) (free b vb)
  · cases more with
    | nil => exact ⟨by rw [longer, List.append_nil], List.append_cancel_left (List.cons.inj next).2.symm⟩
    | cons c more =>
      obtain ⟨rfl, -⟩ := List.cons.inj next
      exact absurd (longer ▸ List.mem_append_right _ List.mem_cons_self) (free a va)

theorem Tells.pair (first : Tells valid code read) (second : Tells valid code' read') :
    Tells valid (fun a => code a ++ code' a) (fun a => (read a, read' a)) := by
  intro a b va vb rest rest' same
  dsimp only at same
  rw [List.append_assoc, List.append_assoc] at same
  obtain ⟨value, between⟩ := first a b va vb _ _ same
  obtain ⟨value', after⟩ := second a b va vb _ _ between
  exact ⟨Prod.ext value value', after⟩

theorem Tells.then (first : Tells valid code read) (text : List σ) : Tells valid (fun a => code a ++ text) read :=
  (first.pair (tellsConstant text)).reads fun _ _ _ _ same => congrArg Prod.fst same

theorem Tells.again (first : Tells valid code read)
    (known : ∀ a b, valid a → valid b → read a = read b → code' a = code' b) :
    Tells valid (fun a => code a ++ code' a) read := by
  intro a b va vb rest rest' same
  dsimp only at same
  rw [List.append_assoc, List.append_assoc] at same
  obtain ⟨value, between⟩ := first a b va vb _ _ same
  rw [known a b va vb value] at between
  exact ⟨value, List.append_cancel_left between⟩

/-- A list ends where something stands that no item begins with. -/
theorem Tells.many (each : Tells valid code read) {stop : σ} {after : List σ}
    (starts : ∀ a, valid a → ∃ c cs, code a = c :: cs ∧ c ≠ stop) :
    Tells (fun items : List α => ∀ a ∈ items, valid a) (fun items => items.flatMap code ++ stop :: after)
      (fun items => items.map read) := by
  intro items
  induction items with
  | nil =>
    intro others _ vb rest rest' same
    cases others with
    | nil => exact ⟨rfl, List.append_cancel_left same⟩
    | cons b others =>
      obtain ⟨c, cs, begins, other⟩ := starts b (vb b List.mem_cons_self)
      dsimp only at same
      rw [List.flatMap_cons, begins] at same
      exact absurd (List.cons.inj same).1.symm other
  | cons a items ih =>
    intro others va vb rest rest' same
    cases others with
    | nil =>
      obtain ⟨c, cs, begins, other⟩ := starts a (va a List.mem_cons_self)
      dsimp only at same
      rw [List.flatMap_cons, begins] at same
      exact absurd (List.cons.inj same).1 other
    | cons b others =>
      simp only [List.flatMap_cons, List.append_assoc] at same
      obtain ⟨value, between⟩ := each a b (va a List.mem_cons_self) (vb b List.mem_cons_self) _ _ same
      have more := ih others (fun a' member => va a' (List.mem_cons_of_mem _ member))
        (fun b' member => vb b' (List.mem_cons_of_mem _ member)) rest rest' (by simpa only [List.append_assoc] using between)
      exact ⟨List.cons_eq_cons.mpr ⟨value, more.1⟩, more.2⟩

end Codes

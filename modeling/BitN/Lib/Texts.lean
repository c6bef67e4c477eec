import Mathlib.Data.List.DropRight
import Mathlib.Tactic.Common

/-! Texts by their lines, what stands between two newlines, by their brackets, and by the first and
the last separator in them. -/
namespace Texts

variable {α β : Type} {newline : α}

/-! Literals, which the kernel has as lists of characters at no cost, unlike their encoding -/

theorem literalChars {cs : List Char} : (String.ofList cs).toList = cs := String.toList_ofList

theorem literalFree {cs : List Char} {c : Char} (free : c ∉ cs) : c ∉ (String.ofList cs).toList := by
  rwa [String.toList_ofList]

theorem literalShort {cs : List Char} {n : Nat} (short : cs.length ≤ n) : (String.ofList cs).toList.length ≤ n := by
  rwa [String.toList_ofList]

theorem intercalateHead (sep front line : List α) (rest : List (List α)) :
    sep.intercalate ((front ++ line) :: rest) = front ++ sep.intercalate (line :: rest) := by
  cases rest with
  | nil => simp
  | cons next rest => simp [List.intercalate_cons_cons]

/-! A margin before each line that is not empty -/

section margins
variable [DecidableEq α]

def withMargin (margin line : List α) : List α := if line.isEmpty then [] else margin ++ line

def indent (newline : α) (margin text : List α) : List α :=
  [newline].intercalate ((text.splitOn newline).map (withMargin margin))

theorem indentSteps {margin : List α} {write : Bool → List α → List α} (nothing : ∀ start, write start [] = [])
    (next : ∀ start c cs, write start (c :: cs) =
      (if start = true ∧ c ≠ newline then margin else []) ++ c :: write (decide (c = newline)) cs)
    (text : List α) : write true text = indent newline margin text := by
  suffices both : ∀ {line rest}, text.splitOn newline = line :: rest →
      write false text = [newline].intercalate (line :: rest.map (withMargin margin)) ∧
        write true text = [newline].intercalate ((line :: rest).map (withMargin margin)) by
    obtain ⟨line, rest, split⟩ := List.exists_cons_of_ne_nil (List.splitOn_ne_nil newline text)
    unfold indent
    rw [(both split).2, split]
  induction text with
  | nil =>
    intro line rest split
    rw [List.splitOn_nil] at split
    obtain ⟨rfl, rfl⟩ := List.cons.inj split
    rw [nothing, nothing]
    exact ⟨rfl, rfl⟩
  | cons c cs ih =>
    intro line rest split
    obtain ⟨line', rest', split'⟩ := List.exists_cons_of_ne_nil (List.splitOn_ne_nil newline cs)
    obtain ⟨inside, start⟩ := ih split'
    rw [List.splitOn_cons_eq_if_modifyHead, split'] at split
    rw [next, next]
    by_cases ended : c = newline
    · subst ended
      rw [if_pos (beq_self_eq_true c)] at split
      obtain ⟨rfl, rfl⟩ := List.cons.inj split
      simp [start, withMargin, List.intercalate_cons_cons]
    · rw [if_neg (by simp [ended])] at split
      obtain ⟨rfl, rfl⟩ := List.cons.inj split
      have inner := intercalateHead [newline] [c] line' (rest'.map (withMargin margin))
      have outer := intercalateHead [newline] margin (c :: line') (rest'.map (withMargin margin))
      simp only [decide_eq_false ended, inside]
      refine ⟨by simp [ended], ?_⟩
      simpa [ended, withMargin] using (outer.trans (congrArg (margin ++ ·) inner)).symm

end margins

/-! Texts of whole lines -/

/-- The text consists of these lines, each with a newline after it. -/
def Whole (newline : α) (lines : List (List α)) (text : List α) : Prop :=
  (∀ line ∈ lines, newline ∉ line) ∧ text = lines.flatMap (· ++ [newline])

theorem wholeLine {line : List α} (free : newline ∉ line) : Whole newline [line] (line ++ [newline]) := by
  refine ⟨fun other member => ?_, ?_⟩
  · obtain rfl := List.mem_singleton.mp member
    exact free
  · simp

variable {lines lines' : List (List α)} {text text' : List α}

theorem Whole.append (first : Whole newline lines text) (second : Whole newline lines' text') :
    Whole newline (lines ++ lines') (text ++ text') := by
  refine ⟨fun line member => ?_, ?_⟩
  · cases List.mem_append.mp member with
    | inl inside => exact first.1 line inside
    | inr inside => exact second.1 line inside
  · rw [first.2, second.2, List.flatMap_append]

theorem wholeAll {items : List β} {made : β → List (List α)} {written : β → List α}
    (each : ∀ b ∈ items, Whole newline (made b) (written b)) :
    Whole newline (items.flatMap made) (items.flatMap written) := by
  induction items with
  | nil =>
    refine ⟨fun line member => ?_, rfl⟩
    cases member
  | cons b items ih =>
    rw [List.flatMap_cons, List.flatMap_cons]
    exact (each b List.mem_cons_self).append (ih fun other member => each other (List.mem_cons_of_mem b member))

theorem Whole.split [DecidableEq α] (whole : Whole newline lines text) : text.splitOn newline = lines ++ [[]] := by
  obtain ⟨free, rfl⟩ := whole
  induction lines with
  | nil => exact List.splitOn_nil newline
  | cons line lines ih =>
    rw [List.flatMap_cons, List.append_assoc, List.singleton_append,
      List.splitOn_append_cons_self_of_not_mem (free line List.mem_cons_self),
      ih fun other member => free other (List.mem_cons_of_mem line member)]
    rfl

/-! Brackets -/

section brackets
variable [DecidableEq α] {opening closing : α}

/-- How many brackets are open after the text, when no bracket is closed that was not opened. -/
def nesting (opening closing : α) : Nat → List α → Option Nat
  | depth, [] => some depth
  | depth, c :: cs =>
    if c = opening then nesting opening closing (depth + 1) cs
    else if c = closing then if depth = 0 then none else nesting opening closing (depth - 1) cs
    else nesting opening closing depth cs

theorem nestingAppend (depth : Nat) (text rest : List α) : nesting opening closing depth (text ++ rest) =
    (nesting opening closing depth text).bind fun depth => nesting opening closing depth rest := by
  induction text generalizing depth with
  | nil => rfl
  | cons c cs ih =>
    rw [List.cons_append, nesting, nesting, ih, ih, ih]
    split
    · rfl
    · split
      · split <;> rfl
      · rfl

def Balanced (opening closing : α) (text : List α) : Prop := ∀ depth, nesting opening closing depth text = some depth

theorem balancedFree {text : List α} (noOpening : opening ∉ text) (noClosing : closing ∉ text) :
    Balanced opening closing text := by
  intro depth
  induction text with
  | nil => rfl
  | cons c cs ih =>
    obtain ⟨notOpening, noOpening⟩ := not_or.mp fun found => noOpening (List.mem_cons.mpr found)
    obtain ⟨notClosing, noClosing⟩ := not_or.mp fun found => noClosing (List.mem_cons.mpr found)
    unfold nesting
    rw [if_neg (Ne.symm notOpening), if_neg (Ne.symm notClosing)]
    exact ih noOpening noClosing

theorem Balanced.append {text rest : List α} (first : Balanced opening closing text)
    (second : Balanced opening closing rest) : Balanced opening closing (text ++ rest) := by
  intro depth
  rw [nestingAppend, first depth]
  exact second depth

theorem balancedAll {items : List β} {written : β → List α} (each : ∀ b ∈ items, Balanced opening closing (written b)) :
    Balanced opening closing (items.flatMap written) := by
  induction items with
  | nil => exact fun _ => rfl
  | cons b items ih =>
    rw [List.flatMap_cons]
    exact (each b List.mem_cons_self).append (ih fun other member => each other (List.mem_cons_of_mem b member))

end brackets

/-! The first and the last separator -/

section separators
variable [DecidableEq α] {stop : α}

theorem untilStop {front : List α} (free : stop ∉ front) (rest : List α) :
    (front ++ stop :: rest).takeWhile (· ≠ stop) = front ∧
      (front ++ stop :: rest).dropWhile (· ≠ stop) = stop :: rest := by
  have all : ∀ c ∈ front, decide (c ≠ stop) = true := fun c member =>
    decide_eq_true fun same => free (same ▸ member)
  rw [List.takeWhile_append_of_pos all, List.dropWhile_append_of_pos all]
  simp

def beforeLast (stop : α) (text : List α) : List α := (text.rdropWhile (· ≠ stop)).dropLast

omit [DecidableEq α] in
theorem lastExists {text : List α} (inside : stop ∈ text) : ∃ front back, text = front ++ stop :: back ∧ stop ∉ back := by
  obtain ⟨back, front, whole, free⟩ := List.eq_append_cons_of_mem (List.mem_reverse.mpr inside)
  refine ⟨front.reverse, back.reverse, ?_, fun member => free (List.mem_reverse.mp member)⟩
  have same := congrArg List.reverse whole
  rw [List.reverse_reverse] at same
  rw [same]
  simp

theorem lastExtend {back : List α} (free : stop ∉ back) (front : List α) :
    (front ++ back).rdropWhile (· ≠ stop) = front.rdropWhile (· ≠ stop) ∧
      (front ++ back).rtakeWhile (· ≠ stop) = front.rtakeWhile (· ≠ stop) ++ back := by
  have other : ∀ c ∈ back.reverse, decide (c ≠ stop) = true := fun _ member =>
    decide_eq_true fun same => free (same ▸ List.mem_reverse.mp member)
  unfold List.rdropWhile List.rtakeWhile
  rw [List.reverse_append, List.dropWhile_append_of_pos other, List.takeWhile_append_of_pos other, List.reverse_append,
    List.reverse_reverse]
  exact ⟨rfl, rfl⟩

theorem beforeFound {back : List α} (free : stop ∉ back) (front : List α) :
    beforeLast stop (front ++ stop :: back) = front := by
  have stopped : (front ++ [stop]).rdropWhile (· ≠ stop) = front ++ [stop] := List.rdropWhile_concat_neg _ _ _ (by simp)
  unfold beforeLast
  rw [List.append_cons, (lastExtend free _).1, stopped, List.dropLast_concat]

end separators

end Texts

import BitN.CodegenText
import BitN.Lib.Texts

/-! What `codegen_write` loses. Its buffer holds 4095 characters, and the number of blanks in front
of a line is computed in an `int`. -/
namespace BitN.CodegenWrite

open CodegenText

/-- The whole text, four blanks a level in front of each line that is not empty, and after it a new
line where the text ends one. -/
structure Printed (ctx : CodegenContext) (text : CString) : Prop where
  exact : ∃ blanks : Nat, (text.any (· ≠ '\n') → (blanks : Int) = 4 * ctx.indentLevel) ∧
    codegenPrint ctx text = { ctx with output := ctx.output ++ Texts.indent '\n' (List.replicate blanks ' ') text }
  ended : text.getLast? = some '\n' → (codegenPrint ctx text).output.getLast? = some '\n'

theorem indentedLines (blanks : Nat) (text : CString) :
    indented blanks true text = Texts.indent '\n' (List.replicate blanks ' ') text := by
  refine Texts.indentSteps (fun start => ?_) (fun start c cs => ?_) text
  · unfold indented
    rfl
  · rw [indented]
    simp

theorem printText (ctx : CodegenContext) (text : CString) : codegenPrint ctx text =
    { ctx with output := ctx.output ++ indented (wrapInt (ctx.indentLevel * 4)).toNat true (text.take 4095) } :=
  putText ctx true _

/-! Lengths -/

theorem indentedLength (blanks : Nat) (start : Bool) (text : CString) :
    text.length ≤ (indented blanks start text).length := by
  induction text generalizing start with
  | nil => exact Nat.zero_le _
  | cons c cs ih =>
    have tail := ih (c = '\n')
    unfold indented
    simp only [List.length_append, List.length_cons]
    omega

theorem indentedAppend (blanks : Nat) (start : Bool) (text rest : CString) :
    ∃ start', indented blanks start (text ++ rest) = indented blanks start text ++ indented blanks start' rest := by
  induction text generalizing start with
  | nil => exact ⟨start, rfl⟩
  | cons c cs ih =>
    obtain ⟨start', tail⟩ := ih (c = '\n')
    refine ⟨start', ?_⟩
    rw [List.cons_append, indented, tail, indented, List.append_assoc, List.cons_append]

theorem indentedFewer {fewer blanks : Nat} (few : fewer ≤ blanks) (start : Bool) (text : CString) :
    (indented fewer start text).length ≤ (indented blanks start text).length := by
  induction text generalizing start with
  | nil => exact Nat.le_refl _
  | cons c cs ih =>
    have tail := ih (c = '\n')
    unfold indented
    simp only [List.length_append, List.length_cons]
    split <;> simp only [List.length_replicate, List.length_nil] <;> omega

theorem indentedLess {fewer blanks : Nat} (few : fewer < blanks) {text : CString} (some : text.any (· ≠ '\n')) :
    (indented fewer true text).length < (indented blanks true text).length := by
  induction text with
  | nil => cases some
  | cons c cs ih =>
    have tail := indentedFewer (Nat.le_of_lt few) (c = '\n') cs
    unfold indented
    simp only [List.length_append, List.length_cons]
    by_cases newline : c = '\n'
    · subst newline
      have inner := ih (by simpa using some)
      simpa using inner
    · simp only [newline, decide_false] at tail
      simp only [newline, Bool.true_and, ne_eq, not_false_eq_true, decide_true, decide_false, if_true,
        List.length_replicate]
      omega

theorem indentedNewlines (blanks : Nat) (start : Bool) {text : CString} (none : ¬ text.any (· ≠ '\n')) :
    indented blanks start text = text := by
  induction text generalizing start with
  | nil => rfl
  | cons c cs ih =>
    rw [List.any_cons, Bool.or_eq_true, not_or] at none
    obtain rfl : c = '\n' := by simpa using none.1
    unfold indented
    rw [ih _ none.2]
    simp

theorem indentedEnd (blanks : Nat) {text : CString} (ended : text.getLast? = some '\n') (start : Bool) :
    (indented blanks start text).getLast? = some '\n' := by
  obtain ⟨front, rfl⟩ := List.getLast?_eq_some_iff.mp ended
  obtain ⟨start', whole⟩ := indentedAppend blanks start front ['\n']
  rw [whole]
  simp [indented]

/-! The buffer and the blanks -/

theorem printedShort {ctx : CodegenContext} {text : CString} (fits : text.length ≤ 4095)
    (level : text.any (· ≠ '\n') → 0 ≤ ctx.indentLevel ∧ ctx.indentLevel < 2 ^ 29) : Printed ctx text := by
  have whole := printText ctx text
  rw [List.take_of_length_le fits] at whole
  refine ⟨⟨_, fun some => ?_, by rw [whole, indentedLines]⟩, fun ended => ?_⟩
  · obtain ⟨low, high⟩ := level some
    have exact : wrapInt (ctx.indentLevel * 4) = ctx.indentLevel * 4 := by
      unfold wrapInt
      rw [Int.bmod_def]
      omega
    omega
  · rw [whole, List.getLast?_append, indentedEnd _ ended]
    rfl

theorem printedFits {ctx : CodegenContext} {text : CString} (printed : Printed ctx text) :
    text.length ≤ 4095 ∧ (text.any (· ≠ '\n') → 0 ≤ ctx.indentLevel ∧ ctx.indentLevel < 2 ^ 29) := by
  obtain ⟨blanks, level, written⟩ := printed.exact
  rw [← indentedLines] at written
  have same : indented (wrapInt (ctx.indentLevel * 4)).toNat true (text.take 4095) = indented blanks true text :=
    List.append_cancel_left (congrArg CodegenContext.output ((printText ctx text).symm.trans written))
  by_cases some : text.any (· ≠ '\n')
  · have level := level some
    have below : wrapInt (ctx.indentLevel * 4) < 2 ^ 31 := Int.bmod_lt (by decide)
    have exact : ctx.indentLevel < 2 ^ 29 → wrapInt (ctx.indentLevel * 4) = ctx.indentLevel * 4 := by
      intro high
      unfold wrapInt
      rw [Int.bmod_def]
      omega
    obtain ⟨start, cut⟩ := indentedAppend blanks true (text.take 4095) (text.drop 4095)
    rw [List.take_append_drop] at cut
    have dropped := indentedLength blanks start (text.drop 4095)
    have fewer := indentedFewer (show (wrapInt (ctx.indentLevel * 4)).toNat ≤ blanks by omega) true (text.take 4095)
    have lengths := congrArg List.length same
    rw [cut, List.length_append] at lengths
    rw [List.length_drop] at dropped
    have fits : text.length ≤ 4095 := by omega
    refine ⟨fits, fun _ => ⟨by omega, ?_⟩⟩
    by_contra high
    have less := indentedLess (show (wrapInt (ctx.indentLevel * 4)).toNat < blanks by omega) some
    rw [List.take_of_length_le fits] at same
    rw [same] at less
    exact Nat.lt_irrefl _ less
  · have none : ¬ (text.take 4095).any (· ≠ '\n') := by
      intro inside
      obtain ⟨c, member, visible⟩ := List.any_eq_true.mp inside
      exact some (List.any_eq_true.mpr ⟨c, List.mem_of_mem_take member, visible⟩)
    rw [indentedNewlines _ _ none, indentedNewlines _ _ some] at same
    have lengths := congrArg List.length same
    rw [List.length_take] at lengths
    exact ⟨by omega, fun found => absurd found some⟩

/-- The text is printed exactly when it fits into the buffer and, where a line is to be indented,
its blanks can be counted. -/
theorem writesExactly (ctx : CodegenContext) (text : CString) : Printed ctx text ↔
    text.length ≤ 4095 ∧ (text.any (· ≠ '\n') → 0 ≤ ctx.indentLevel ∧ ctx.indentLevel < 2 ^ 29) :=
  ⟨printedFits, fun exact => printedShort exact.1 exact.2⟩

-- The newline is the 4096th character.
theorem longNameLoses : ¬ Printed codegenInit (Format.peripheralComment (List.replicate 4080 'A')).expansion := by
  intro printed
  have fits := (printedFits printed).1
  unfold Format.expansion at fits
  simp only [List.length_append, List.length_replicate] at fits
  exact absurd fits (by decide)

end BitN.CodegenWrite

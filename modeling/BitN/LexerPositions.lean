import BitN.LexerLayout

/-! Lines and columns of the tokens. Both counters follow from the number of characters that the
lexer has passed, so a token carries the position of its first one. -/
namespace BitN.LexerPositions

open Lexical LexerScan LexerSpans LexerPartition

def lineAt (text : CString) (offset : Nat) : Nat := 1 + (text.take offset).count '\n'

def columnAt (text : CString) (offset : Nat) : Nat := ((text.take offset).reverse.takeWhile (· ≠ '\n')).length

def lexerAfter (input : Source) (calls : Nat) : Lexer := (fun l => (lexerNextToken l).2)^[calls] (lexerCreate input)

/-- What the next call passes, a gap and a span, and where its token says that the span begins. -/
def Positioned (input : Source) (calls : Nat) : Prop :=
  ∃ gap span rest, (lexerAfter input calls).rest = gap ++ (span ++ rest) ∧
    Gap (span ++ rest) gap ∧ Solid (span ++ rest) ∧ (lexerAfter input (calls + 1)).rest = rest ∧
    (if (lexerNextToken (lexerAfter input calls)).1.type = .tokEof then span ++ rest = []
      else TokenAt (span ++ rest) span (lexerNextToken (lexerAfter input calls)).1) ∧
    (lexerNextToken (lexerAfter input calls)).1.line = lineAt input.text ((lexerAfter input calls).pos + gap.length) ∧
    (lexerNextToken (lexerAfter input calls)).1.column = columnAt input.text ((lexerAfter input calls).pos + gap.length)

/-! The counters -/

theorem wrapSucc (n : Nat) : wrapInt (wrapInt n + 1) = wrapInt (n + 1 : Nat) := by
  unfold wrapInt
  rw [Int.bmod_add_bmod]
  rfl

theorem createRest (input : Source) : (lexerCreate input).rest = input.text := List.drop_zero

theorem advancedCounters (input : Source) {n : Nat} (inside : n ≤ input.text.length) :
    (lexerAdvance^[n] (lexerCreate input)).line = wrapInt (lineAt input.text n) ∧
      (lexerAdvance^[n] (lexerCreate input)).column = wrapInt (columnAt input.text n) := by
  induction n with
  | zero =>
    have one : wrapInt ((1 : Nat) : Int) = 1 := wrapIntSmall (by decide)
    have none : wrapInt ((0 : Nat) : Int) = 0 := wrapIntSmall (by decide)
    exact ⟨one.symm, none.symm⟩
  | succ n ih =>
    obtain ⟨line, column⟩ := ih (by omega)
    have here : (lexerAdvance^[n] (lexerCreate input)).current = input.text[n] := by
      rw [currentRest, advancesRest, createRest, List.drop_eq_getElem_cons (by omega)]
      rfl
    have passed : input.text.take (n + 1) = input.text.take n ++ [input.text[n]] :=
      List.take_succ_eq_append_getElem (by omega)
    have counters : ∀ l : Lexer, (lexerAdvance l).line = (if l.current = '\n' then wrapInt (l.line + 1) else l.line) ∧
        (lexerAdvance l).column = if l.current = '\n' then 0 else wrapInt (l.column + 1) := by
      intro l
      unfold lexerAdvance
      dsimp only
      split <;> exact ⟨rfl, rfl⟩
    rw [Function.iterate_succ_apply', (counters _).1, (counters _).2, here, line, column]
    unfold lineAt columnAt
    rw [passed, List.count_append, List.reverse_append, List.count_singleton]
    by_cases newline : input.text[n] = '\n'
    · have none : wrapInt ((0 : Nat) : Int) = 0 := wrapIntSmall (by decide)
      rw [if_pos newline, if_pos newline, wrapSucc, newline]
      exact ⟨rfl, none.symm⟩
    · rw [if_neg newline, if_neg newline, wrapSucc]
      simp [newline]

theorem lineFits {text : CString} (short : text.length < 2 ^ 31) (mixed : text ≠ List.replicate 2147483647 '\n')
    (n : Nat) : wrapInt (lineAt text n) = lineAt text n := by
  have some_ : (text.take n).count '\n' ≤ text.count '\n' := (List.take_sublist n text).count_le '\n'
  have most : text.count '\n' ≤ text.length := List.count_le_length
  have fewer : text.count '\n' < 2147483647 := by
    by_contra all
    have full : text.count '\n' = text.length := by omega
    refine mixed (List.eq_replicate_iff.mpr ⟨by omega, fun c member => ?_⟩)
    exact (List.count_eq_length.mp full c member).symm
  refine wrapIntSmall ?_
  unfold lineAt
  omega

theorem columnFits {text : CString} (short : text.length < 2 ^ 31) (n : Nat) :
    wrapInt (columnAt text n) = columnAt text n := by
  have inside := (List.takeWhile_prefix (fun c => c ≠ '\n') (l := (text.take n).reverse)).length_le
  rw [List.length_reverse] at inside
  refine wrapIntSmall ?_
  unfold columnAt
  have := List.length_take_le' n text
  omega

/-! Calls -/

theorem scannedPosition {line column : Int} {text span : CString} {tok : Token}
    (scan : Scanned line column text span tok) : tok.line = line ∧ tok.column = column := by
  cases scan <;> exact ⟨rfl, rfl⟩

/-- What one call does, after so many characters. -/
theorem nextReached (input : Source) (n : Nat) :
    ∃ gap span rest, (lexerAdvance^[n] (lexerCreate input)).rest = gap ++ (span ++ rest) ∧
      Gap (span ++ rest) gap ∧ Solid (span ++ rest) ∧
      (lexerNextToken (lexerAdvance^[n] (lexerCreate input))).2 =
        lexerAdvance^[n + gap.length + span.length] (lexerCreate input) ∧
      ((lexerNextToken (lexerAdvance^[n] (lexerCreate input))).1.type = .tokEof ∧ span ++ rest = [] ∨
        ∃ line column, Scanned line column (span ++ rest) span (lexerNextToken (lexerAdvance^[n] (lexerCreate input))).1) ∧
      (lexerNextToken (lexerAdvance^[n] (lexerCreate input))).1.line =
        (lexerAdvance^[n + gap.length] (lexerCreate input)).line ∧
      (lexerNextToken (lexerAdvance^[n] (lexerCreate input))).1.column =
        (lexerAdvance^[n + gap.length] (lexerCreate input)).column := by
  obtain ⟨gap, after, cut, isGap, solid, ended, found⟩ := nextTokenScan (lexerAdvance^[n] (lexerCreate input))
  simp only [advancesAdd, ← Nat.add_assoc] at ended found
  by_cases empty : after = []
  · subst empty
    rw [ended rfl]
    exact ⟨gap, [], [], cut, isGap, solid, rfl, .inl ⟨rfl, rfl⟩, rfl, rfl⟩
  · obtain ⟨span, tok, scan, call⟩ := found empty
    obtain ⟨⟨rest, rfl⟩, nonempty⟩ := scannedPrefix scan
    rw [call]
    exact ⟨gap, span, rest, cut, isGap, solid, rfl, .inr ⟨_, _, scan⟩, scannedPosition scan⟩

theorem afterReached (input : Source) (calls : Nat) :
    ∃ n ≤ input.text.length, lexerAfter input calls = lexerAdvance^[n] (lexerCreate input) := by
  induction calls with
  | zero => exact ⟨0, Nat.zero_le _, rfl⟩
  | succ calls ih =>
    obtain ⟨n, inside, reached⟩ := ih
    obtain ⟨gap, span, rest, cut, -, -, next, -⟩ := nextReached input n
    have width := congrArg List.length cut
    rw [advancesRest, createRest] at width
    simp only [List.length_drop, List.length_append] at width
    refine ⟨n + gap.length + span.length, by omega, ?_⟩
    unfold lexerAfter at reached ⊢
    rw [Function.iterate_succ_apply', reached, next]

theorem reachedPos (input : Source) {n : Nat} (inside : n ≤ input.text.length) :
    (lexerAdvance^[n] (lexerCreate input)).pos = n := by
  rw [advancesPos (by rw [createRest]; exact inside)]
  exact Nat.zero_add n

/-- Every token says where its span begins, unless there are more lines than an `int` can count. -/
theorem tokensPositioned (input : Source) (short : input.text.length < 2 ^ 31)
    (mixed : input.text ≠ List.replicate 2147483647 '\n') (calls : Nat) : Positioned input calls := by
  obtain ⟨n, inside, reached⟩ := afterReached input calls
  obtain ⟨gap, span, rest, cut, isGap, solid, next, found, line, column⟩ := nextReached input n
  have width := congrArg List.length cut
  rw [advancesRest, createRest] at width
  simp only [List.length_drop, List.length_append] at width
  have counters := advancedCounters input (n := n + gap.length) (by omega)
  have later : lexerAfter input (calls + 1) = lexerAdvance^[n + gap.length + span.length] (lexerCreate input) := by
    rw [← next, ← reached]
    exact Function.iterate_succ_apply' _ _ _
  have left : (lexerAfter input (calls + 1)).rest = rest := by
    rw [later, Nat.add_assoc, ← advancesAdd, advancesRest, cut, ← List.append_assoc, ← List.length_append,
      List.drop_left]
  unfold Positioned
  rw [reached, reachedPos input inside, line, column, counters.1, counters.2]
  refine ⟨gap, span, rest, cut, isGap, solid, left, ?_, lineFits short mixed _, columnFits short _⟩
  split
  · rename_i ended
    obtain ⟨-, none⟩ | ⟨line', column', scan⟩ := found
    · exact none
    · exact absurd ended (scannedNotEof scan)
  · rename_i more
    obtain ⟨ended, -⟩ | ⟨line', column', scan⟩ := found
    · exact absurd ended more
    · refine scannedToken scan ?_
      simp only [List.length_append]
      omega

def commented : Source := ⟨"a /* b\n */ c \"d\ne\"".toList, by decide⟩

theorem commentedPositioned : Positioned commented 2 := by
  refine tokensPositioned commented (by decide) (fun same => ?_) 2
  have member : 'a' ∈ List.replicate 2147483647 '\n' := same ▸ List.mem_cons_self
  exact absurd (List.eq_of_mem_replicate member) (by decide)

theorem newlinesPositioned {input : Source} {n : Nat} (lines : input.text = List.replicate n '\n')
    (positioned : Positioned input 0) : n + 1 < 2 ^ 31 := by
  obtain ⟨gap, span, rest, cut, -, solid, -, -, line, -⟩ := positioned
  obtain ⟨gap', span', rest', cut', -, -, -, -, line', -⟩ := nextReached input 0
  have whole : input.text = gap ++ (span ++ rest) := (createRest input).symm.trans cut
  have none : span ++ rest = [] := by
    cases more : span ++ rest with
    | nil => rfl
    | cons c cs =>
      have inside : c ∈ input.text := by rw [whole, more]; simp
      obtain rfl : c = '\n' := List.eq_of_mem_replicate (lines ▸ inside)
      have visible := solid.1 '\n' (by rw [more]; rfl)
      exact absurd visible (by decide)
  have counted : lineAt input.text ((lexerAfter input 0).pos + gap.length) = n + 1 := by
    have start : (lexerAfter input 0).pos = 0 := rfl
    have length : input.text.length = n := by rw [lines, List.length_replicate]
    rw [none, List.append_nil] at whole
    rw [start, Nat.zero_add, ← whole, lineAt, List.take_length, lines, List.count_replicate_self, Nat.add_comm]
  have bounded : (lexerNextToken (lexerAfter input 0)).1.line < 2 ^ 31 := by
    have width := congrArg List.length ((createRest input).symm.trans cut')
    simp only [List.length_append] at width
    have wrapped := (advancedCounters input (n := 0 + gap'.length) (by omega)).1
    refine lt_of_eq_of_lt (line'.trans wrapped) ?_
    exact Int.bmod_lt (by decide)
  rw [line, counted] at bounded
  omega

def newlines : Source := ⟨List.replicate 2147483647 '\n', fun member =>
  absurd (List.eq_of_mem_replicate member) (by decide)⟩

theorem newlinesOverflow : ¬ Positioned newlines 0 := by
  intro positioned
  have fits := newlinesPositioned (n := 2147483647) rfl positioned
  exact absurd fits (by decide)

end BitN.LexerPositions

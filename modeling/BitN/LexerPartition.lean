import BitN.LexerSpans

/-! Repeated calls of the lexer cut the whole input into gaps and spans: no character
is lost or read twice, and the end is reached after at most one call a character and one more. -/
namespace BitN

def Token.Emitted (tok : Token) : Prop :=
  tok.type = .tokEof ∨ ∃ line column text span, LexerSpans.Scanned line column text span tok

def lexerCalls : Nat → Lexer → List Token
  | 0, _ => []
  | n + 1, lexer => (lexerNextToken lexer).1 :: lexerCalls n (lexerNextToken lexer).2

def lexerTokens : Nat → Lexer → List Token
  | 0, _ => []
  | n + 1, lexer =>
    if (lexerNextToken lexer).1.type = .tokEof then []
    else (lexerNextToken lexer).1 :: lexerTokens n (lexerNextToken lexer).2

def Lexer.ahead (lexer : Lexer) : List Token := lexerTokens (lexer.remaining + 1) lexer

def Source.tokens (input : Source) : List Token := (lexerCreate input).ahead

namespace LexerPartition

open Lexical LexerScan LexerSpans

theorem keywordTypeKnown (word : CString) (length : Int) :
    lexerKeywordType word length = .tokIdentifier ∨ ∃ k ∈ keywords, lexerKeywordType word length = k.2 := by
  unfold lexerKeywordType
  split
  · rename_i k found
    exact .inr ⟨k, List.mem_of_find?_eq_some found, rfl⟩
  · exact .inl rfl

theorem keywordTypeNotEof (word : CString) (length : Int) : lexerKeywordType word length ≠ .tokEof := by
  have table : ∀ k ∈ keywords, k.2 ≠ TokenType.tokEof := by decide
  rcases keywordTypeKnown word length with same | ⟨k, member, same⟩
  · simp [same]
  · rw [same]
    exact table k member

theorem scannedPrefix {line column : Int} {text span : CString} {tok : Token}
    (scan : Scanned line column text span tok) : span <+: text ∧ span ≠ [] := by
  cases scan with
  | @string cs =>
    refine ⟨List.take_prefix _ _, fun empty => ?_⟩
    have length := spanInside cs
    rw [empty] at length
    split_ifs at length
  | @number c cs digit =>
    obtain ⟨d, ds, same, -⟩ := numeralHead (numeralSpanLongest (c :: cs) digit).1
    exact ⟨numeralSpanPrefix _, by simp [same]⟩
  | word start => exact ⟨List.takeWhile_prefix _, by simp [startIsWord start]⟩
  | operator letter under digit quote spelled start longest => exact ⟨start, (operatorHeads _ spelled).1⟩
  | stray letter under digit quote none => exact ⟨by simp, by simp⟩

theorem scannedNotEof {line column : Int} {text span : CString} {tok : Token}
    (scan : Scanned line column text span tok) : tok.type ≠ .tokEof := by
  have table : ∀ o ∈ operators, o.2 ≠ TokenType.tokEof := by decide
  cases scan with
  | string => simp
  | number digit => simp
  | word start => simpa only using keywordTypeNotEof _ _
  | operator letter under digit quote spelled start longest => exact table _ spelled
  | stray letter under digit quote none => simp

theorem scannedToken {line column : Int} {text span : CString} {tok : Token}
    (scan : Scanned line column text span tok) (short : text.length < 2 ^ 31) : TokenAt text span tok := by
  cases scan with
  | string => exact stringAt short line column
  | number digit => exact numeralAt digit short line column
  | word start => exact wordAt start short line column
  | operator letter under digit quote spelled start longest =>
    refine .lexeme (.operator start spelled) (fun s type content reading => ?_) ⟨rfl, List.prefix_rfl⟩
    obtain ⟨other, pre⟩ := operatorReading reading letter under digit quote
    exact longest _ other pre
  | stray letter under digit quote none =>
    refine .error (fun s type content reading => ?_) (by simp) rfl ⟨rfl, List.nil_prefix⟩
    obtain ⟨other, pre⟩ := operatorReading reading letter under digit quote
    exact none _ other pre

theorem nextToken (l : Lexer) :
    ((lexerNextToken l).1.type = .tokEof ∧ Gap [] l.rest ∧ (lexerNextToken l).2.rest = []) ∨
    ∃ gap span line column, l.rest = gap ++ (span ++ (lexerNextToken l).2.rest) ∧
      Gap (span ++ (lexerNextToken l).2.rest) gap ∧ Solid (span ++ (lexerNextToken l).2.rest) ∧ span ≠ [] ∧
      Scanned line column (span ++ (lexerNextToken l).2.rest) span (lexerNextToken l).1 := by
  obtain ⟨gap, after, cut, isGap, solid, ended, found⟩ := nextTokenScan l
  by_cases empty : after = []
  · subst empty
    rw [List.append_nil] at cut
    exact .inl ⟨by rw [ended rfl], cut ▸ isGap, by rw [ended rfl, advancesRest, cut, List.drop_length]⟩
  · obtain ⟨span, tok, scan, call⟩ := found empty
    obtain ⟨⟨rest, rfl⟩, nonempty⟩ := scannedPrefix scan
    have next : (lexerNextToken l).2.rest = rest := by
      rw [call, advancesRest, cut, ← List.append_assoc, ← List.length_append, List.drop_left]
    have same : (lexerNextToken l).1 = tok := by rw [call]
    rw [next, same]
    exact .inr ⟨gap, span, _, _, cut, isGap, solid, nonempty, scan⟩

theorem nextTokenEmitted (l : Lexer) : (lexerNextToken l).1.Emitted := by
  rcases nextToken l with ⟨ended, -, -⟩ | ⟨gap, span, line, column, -, -, -, -, scan⟩
  · exact .inl ended
  · exact .inr ⟨_, _, _, _, scan⟩

theorem nextTokenShorter {l : Lexer} (more : (lexerNextToken l).1.type ≠ .tokEof) :
    (lexerNextToken l).2.rest.length < l.rest.length := by
  rcases nextToken l with ⟨ended, -⟩ | ⟨gap, span, line, column, cut, -, -, nonempty, -⟩
  · exact absurd ended more
  · have width := congrArg List.length cut
    have := List.length_pos_of_ne_nil nonempty
    simp only [List.length_append] at width
    omega

theorem emittedKinds {tok : Token} (emitted : tok.Emitted) :
    tok.type ∈ [.tokEof, .tokString, .tokError] ∨
    (tok.type = .tokNumber ∧ isDigit (tok.value.headD '\x00') = true) ∨
    (tok.type = .tokIdentifier ∧ isWord (tok.value.headD '\x00') = true) ∨
    tok.type ∈ keywords.map Prod.snd ∨ tok.type ∈ operators.map Prod.snd := by
  rcases emitted with ended | ⟨line, column, text, span, scan⟩
  · simp [ended]
  · cases scan with
    | string => simp
    | number digit => exact .inr (.inl ⟨rfl, digit⟩)
    | word start =>
      dsimp only
      rcases keywordTypeKnown _ _ with same | ⟨k, member, same⟩
      · rw [same]
        exact .inr (.inr (.inl ⟨rfl, startIsWord start⟩))
      · rw [same]
        exact .inr (.inr (.inr (.inl (List.mem_map.mpr ⟨k, member, rfl⟩))))
    | operator letter under digit quote spelled start longest =>
      exact .inr (.inr (.inr (.inr (List.mem_map.mpr ⟨_, spelled, rfl⟩))))
    | stray letter under digit quote none => simp

theorem nextTokenEnd (l : Lexer) (ended : (lexerNextToken l).1.type = .tokEof) :
    (lexerNextToken (lexerNextToken l).2).1.type = .tokEof := by
  rcases nextToken l with ⟨-, -, rest⟩ | ⟨gap, span, line, column, -, -, -, -, scan⟩
  · rcases nextToken (lexerNextToken l).2 with ⟨again, -, -⟩ | ⟨gap, span, line, column, cut, -, -, nonempty, -⟩
    · exact again
    · rw [rest] at cut
      simp [nonempty] at cut
  · exact absurd ended (scannedNotEof scan)

/-- Induction along the calls up to the end of the text. -/
theorem callsInduction {P : Lexer → Prop} (eof : ∀ l, (lexerNextToken l).1.type = .tokEof → P l)
    (token : ∀ l, (lexerNextToken l).1.type ≠ .tokEof → P (lexerNextToken l).2 → P l) (l : Lexer) : P l := by
  induction h : l.rest.length using Nat.strongRecOn generalizing l with
  | ind n ih =>
    by_cases more : (lexerNextToken l).1.type = .tokEof
    · exact eof l more
    · exact token l more (ih _ (h ▸ nextTokenShorter more) _ rfl)

theorem tokensFuel (l : Lexer) {n m : Nat} (enough : l.rest.length < n) (enough' : l.rest.length < m) :
    lexerTokens n l = lexerTokens m l := by
  induction l using callsInduction generalizing n m with
  | eof l ended =>
    obtain ⟨n, rfl⟩ := Nat.exists_eq_succ_of_ne_zero (by omega : n ≠ 0)
    obtain ⟨m, rfl⟩ := Nat.exists_eq_succ_of_ne_zero (by omega : m ≠ 0)
    simp [lexerTokens, ended]
  | token l more ih =>
    obtain ⟨n, rfl⟩ := Nat.exists_eq_succ_of_ne_zero (by omega : n ≠ 0)
    obtain ⟨m, rfl⟩ := Nat.exists_eq_succ_of_ne_zero (by omega : m ≠ 0)
    have shorter := nextTokenShorter more
    simp only [lexerTokens, if_neg more]
    rw [ih (n := n) (m := m) (by omega) (by omega)]

theorem aheadEnd {l : Lexer} (ended : (lexerNextToken l).1.type = .tokEof) : l.ahead = [] := by
  simp [Lexer.ahead, lexerTokens, ended]

theorem aheadToken {l : Lexer} (more : (lexerNextToken l).1.type ≠ .tokEof) :
    l.ahead = (lexerNextToken l).1 :: (lexerNextToken l).2.ahead := by
  have shorter := nextTokenShorter more
  rw [Lexer.ahead, Lexer.ahead, lexerTokens, if_neg more]
  rw [tokensFuel _ (m := (lexerNextToken l).2.remaining + 1) (by rw [remainingRest]; omega)
    (by rw [remainingRest]; omega)]

theorem callsAhead (l : Lexer) :
    ∃ eof, lexerCalls (l.ahead.length + 1) l = l.ahead ++ [eof] ∧ eof.type = .tokEof := by
  induction l using callsInduction with
  | eof l ended => exact ⟨_, by rw [aheadEnd ended]; rfl, ended⟩
  | token l more ih =>
    obtain ⟨eof, calls, isEof⟩ := ih
    exact ⟨eof, by rw [aheadToken more, List.length_cons, lexerCalls, calls]; rfl, isEof⟩

theorem aheadNotEof (l : Lexer) : ∀ t ∈ l.ahead, t.type ≠ .tokEof := by
  induction l using callsInduction with
  | eof l ended => simp [aheadEnd ended]
  | token l more ih => simpa [aheadToken more] using ⟨more, ih⟩

theorem aheadEmitted (l : Lexer) : ∀ t ∈ l.ahead, t.Emitted := by
  induction l using callsInduction with
  | eof l ended => simp [aheadEnd ended]
  | token l more ih => simpa [aheadToken more] using ⟨nextTokenEmitted l, ih⟩

theorem aheadLength (l : Lexer) : l.ahead.length ≤ l.rest.length := by
  induction l using callsInduction with
  | eof l ended => simp [aheadEnd ended]
  | token l more ih =>
    have := nextTokenShorter more
    rw [aheadToken more, List.length_cons]
    omega

theorem aheadPartition (l : Lexer) (short : l.rest.length < 2 ^ 31) : Partition l.rest l.ahead := by
  induction l using callsInduction with
  | eof l ended =>
    rw [aheadEnd ended]
    rcases nextToken l with ⟨-, isGap, -⟩ | ⟨gap, span, line, column, -, -, -, -, scan⟩
    · exact .done isGap
    · exact absurd ended (scannedNotEof scan)
  | token l more ih =>
    have shorter := nextTokenShorter more
    rw [aheadToken more]
    rcases nextToken l with ⟨ended, -⟩ | ⟨gap, span, line, column, cut, isGap, solid, nonempty, scan⟩
    · exact absurd ended more
    · have width := congrArg List.length cut
      simp only [List.length_append] at width
      rw [cut]
      refine .token isGap solid (scannedToken scan ?_) (ih (by omega))
      simp only [List.length_append]
      omega

theorem lexerPartitions (input : Source) (short : input.text.length < 2 ^ 31) :
    ∃ toks eof, toks.length ≤ input.text.length ∧
      lexerCalls (toks.length + 1) (lexerCreate input) = toks ++ [eof] ∧ eof.type = .tokEof ∧
      (∀ t ∈ toks, t.type ≠ .tokEof) ∧ Partition input.text toks := by
  obtain ⟨eof, calls, isEof⟩ := callsAhead (lexerCreate input)
  exact ⟨_, eof, aheadLength _, calls, isEof, aheadNotEof _, aheadPartition (lexerCreate input) short⟩

theorem lexerPartitionsShift : ∃ toks eof, toks.length ≤ 10 ∧
    lexerCalls (toks.length + 1) (lexerCreate ⟨"0x1<<<fnn%".toList, by decide⟩) = toks ++ [eof] ∧
    eof.type = .tokEof ∧ (∀ t ∈ toks, t.type ≠ .tokEof) ∧ Partition "0x1<<<fnn%".toList toks :=
  lexerPartitions ⟨"0x1<<<fnn%".toList, by decide⟩ (by decide)

example : (lexerCalls 6 (lexerCreate ⟨"a->0b2 // b".toList, by decide⟩)).map (fun t => (t.type, t.length)) =
    [(.tokIdentifier, 1), (.tokArrow, 2), (.tokNumber, 2), (.tokNumber, 1), (.tokEof, 0), (.tokEof, 0)] := by
  decide

end LexerPartition
end BitN

import BitN.LexerLayout

/-! The tokens of a text, written out again with separators between them, are read back. -/
namespace BitN

def Token.Terminated (tok : Token) : Prop := tok.type = .tokString → tok.lexeme ++ ['"'] <+: tok.value

namespace Relexing

open LexerScan Lexical LexerSpans LexerPartition LexerLayout

structure Separator (sep : CString) : Prop where
  starts : ∃ c ∈ sep.head?, isSpace c = true
  blank : Blank sep

/-- The text is made of the lexemes, in order, with one separator between neighbours. -/
inductive Separated : List Token → CString → Prop where
  | nil : Separated [] []
  | last {tok} : Separated [tok] tok.spelled
  | more {tok next toks sep text} (between : Separator sep) (tail : Separated (next :: toks) text) :
      Separated (tok :: next :: toks) (tok.spelled ++ (sep ++ text))

theorem scannedSpelling {line column : Int} {text span : CString} {tok : Token}
    (scan : Scanned line column text span tok) (clean : tok.type ≠ .tokError) (closed : tok.Terminated) :
    Spelling tok.spelled tok.entry := by
  cases scan with
  | @string cs =>
    have terminated := closed rfl
    have more : cs.drop (stringSpan cs) ≠ [] := by
      intro ended
      have length := terminated.length_le
      have inside : cs.length ≤ stringSpan cs := List.drop_eq_nil_iff.mp ended
      simp only [Token.lexeme, List.length_append, List.length_take, List.length_singleton] at length
      omega
    exact .closed (stringSpanBody more).1
  | @number c cs digit => exact .numeral (numeralSpanLongest (c :: cs) digit).1
  | @word c cs start =>
    have plain : lexerKeywordType (c :: cs) (wrapInt ((c :: cs).takeWhile isWord).length) ≠ .tokString := by
      have kinds : ∀ k ∈ keywords, k.2 ≠ .tokString := by decide
      rcases keywordTypeKnown (c :: cs) (wrapInt ((c :: cs).takeWhile isWord).length) with same | ⟨k, member, same⟩
      · simp [same]
      · rw [same]
        exact kinds k member
    have shape : Word ((c :: cs).takeWhile isWord) := by
      rw [List.takeWhile_cons_of_pos (startIsWord start)]
      exact ⟨c, _, rfl, start, takeWhileAll⟩
    have kept := keywordTypeSpan ((c :: cs).takeWhile isWord) ((c :: cs).dropWhile isWord)
    rw [List.takeWhile_append_dropWhile] at kept
    have spelling := Spelling.word shape
    rw [← kept] at spelling
    generalize wrapInt ((c :: cs).takeWhile isWord).length = length at plain spelling ⊢
    have lexeme : (⟨lexerKeywordType (c :: cs) length, c :: cs, line, column, length⟩ : Token).lexeme =
        (c :: cs).takeWhile isWord := wordLexeme start length line column length
    unfold Token.spelled Token.entry
    rw [if_neg plain, lexeme]
    exact spelling
  | @operator c cs s type letter under digit quote spelled start longest =>
    have plain : type ≠ .tokString := by
      have kinds : ∀ o ∈ operators, o.2 ≠ .tokString := by decide
      exact kinds _ spelled
    rw [Token.spelled, if_neg plain, Token.entry, operatorLexeme spelled]
    exact .operator spelled
  | stray => exact absurd rfl clean

theorem separatorApart {sep : CString} (separator : Separator sep) (s text : CString) : Apart s (sep ++ text) := by
  obtain ⟨space, starts, blank⟩ := separator.starts
  obtain ⟨tail, rfl⟩ : ∃ tail, sep = space :: tail := by
    cases sep with
    | nil => simp at starts
    | cons c cs => exact ⟨cs, by simpa using starts⟩
  intro c head
  obtain rfl : space = c := by simpa using head
  have table : ∀ o ∈ operators, ∀ d ∈ o.1, isSpace d = false := by
    have all : operators.all fun o => o.1.all fun d => !isSpace d := by decide
    simpa using all
  refine ⟨fun _ => ?_, fun o member pre => ?_, ?_, ?_⟩
  · simp only [isSpace, Bool.or_eq_true, decide_eq_true_eq] at blank
    rcases blank with ((((rfl | rfl) | rfl) | rfl) | rfl) | rfl <;> decide
  · have inside : space ∈ o.1 := pre.subset (by simp)
    simp [table o member space inside] at blank
  all_goals
    intro opener
    have last := congrArg (List.getLast? ·) opener
    simp only [List.getLast?_append, List.getLast?_singleton] at last
    obtain rfl : space = _ := by simpa using last
    exact absurd blank (by decide)

theorem laidSeparated {toks : List Token} {text : CString} (separated : Separated toks text)
    (each : ∀ t ∈ toks, Spelling t.spelled t.entry) {gap : CString} (blank : Blank gap) :
    Laid (toks.map Token.entry) (gap ++ text) := by
  induction separated generalizing gap with
  | nil =>
    rw [List.append_nil]
    exact .done blank
  | @last tok =>
    have laid := Laid.token blank (each tok (by simp)) (by simp [Apart]) (.done .nil)
    rwa [List.append_nil] at laid
  | @more tok next toks sep text between tail ih =>
    exact .token blank (each tok (by simp)) (separatorApart between _ _)
      (ih (fun t member => each t (List.mem_cons_of_mem _ member)) between.blank)

/-- What the lexer made of a text it makes again of any text the lexemes are written in. -/
theorem relexed {input output : Source} (clean : ∀ t ∈ input.tokens, t.type ≠ .tokError)
    (closed : ∀ t ∈ input.tokens, t.Terminated) (separated : Separated input.tokens output.text) :
    ∃ toks eof, lexerCalls (toks.length + 1) (lexerCreate output) = toks ++ [eof] ∧ eof.type = .tokEof ∧
      toks.map (fun t => (t.type, t.lexeme)) = input.tokens.map fun t => (t.type, t.lexeme) := by
  have spellings : ∀ t ∈ input.tokens, Spelling t.spelled t.entry := by
    intro t member
    rcases aheadEmitted _ t member with ended | ⟨line, column, text, span, scan⟩
    · exact absurd ended (aheadNotEof _ t member)
    · exact scannedSpelling scan (clean t member) (closed t member)
  obtain ⟨eof, calls, isEof⟩ := callsAhead (lexerCreate output)
  exact ⟨_, eof, calls, isEof, tokensLaid (laidSeparated separated spellings .nil)⟩

-- 1/"\""
def crowdedSource : Source := ⟨"1/\"\\\"\"".toList, by decide⟩

-- 1 /**/ / // to the end
--  "\""
def spacedOutSource : Source := ⟨"1 /**/ / // to the end\n \"\\\"\"".toList, by decide⟩

theorem crowdedRelexed : ∃ toks eof, lexerCalls (toks.length + 1) (lexerCreate spacedOutSource) = toks ++ [eof] ∧
    eof.type = .tokEof ∧
      toks.map (fun t => (t.type, t.lexeme)) = crowdedSource.tokens.map fun t => (t.type, t.lexeme) := by
  have tokens : crowdedSource.tokens = [⟨.tokNumber, "1/\"\\\"\"".toList, 1, 0, 1⟩, ⟨.tokSlash, "/".toList, 1, 1, 1⟩,
      ⟨.tokString, "\\\"\"".toList, 1, 2, 2⟩] := by decide
  have block : Separator " /**/ ".toList :=
    ⟨⟨' ', rfl, by decide⟩, .space (by decide) (@Blank.block [] _ (by decide) (.space (by decide) .nil))⟩
  have line : Separator " // to the end\n ".toList := ⟨⟨' ', rfl, by decide⟩,
    .space (by decide) (@Blank.line " to the end".toList _ (by decide) (.space (by decide) .nil))⟩
  refine relexed (by simp [tokens]) ?_ ?_
  · simp [tokens, Token.Terminated, Token.lexeme, stringSpan]
  · rw [tokens]
    exact .more block (.more line .last)

end Relexing
end BitN

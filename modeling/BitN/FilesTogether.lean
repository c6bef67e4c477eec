import BitN.ParserLanguage
import BitN.SourceText

/-! Two files one after the other, a newline between them: where the first leaves no string and no
comment open, the lexer reads the tokens of both, and the parser their definitions. -/
namespace BitN.FilesTogether

open LexerScan Lexical LexerSpans LexerPartition LexerLayout Relexing Grammar SourceText MaximalMunch ParserAccepts
  ParserLanguage SeparateChecking

/-! Scanning is local -/

theorem gapGrows {gap after : CString} (isGap : Gap after gap) (more : after ≠ []) (tail : CString) :
    Gap (after ++ tail) gap := by
  induction isGap with
  | nil => exact .nil
  | space blank rest ih => exact .space blank ih
  | @line body gap oneLine ends rest ih =>
    refine .line oneLine ?_ ih
    obtain ⟨c, cs, filled⟩ := List.exists_cons_of_ne_nil (show gap ++ after ≠ [] by simp [more])
    rw [← List.append_assoc, filled]
    rw [filled] at ends
    exact ends
  | block first rest ih => exact .block first ih
  | unclosed last => exact absurd last more

theorem breakPrefix {s text tail : CString} (oneLine : '\n' ∉ s) : s <+: text ++ '\n' :: tail ↔ s <+: text := by
  constructor
  · rintro ⟨rest, whole⟩
    rcases List.append_eq_append_iff.mp whole with ⟨more, same, -⟩ | ⟨more, same, same'⟩
    · exact ⟨more, same.symm⟩
    · cases more with
      | nil => exact ⟨[], by rw [same, List.append_nil, List.append_nil]⟩
      | cons c cs =>
        obtain rfl : '\n' = c := (List.cons.inj same').1
        exact absurd (same ▸ List.mem_append_right _ List.mem_cons_self) oneLine
  · exact fun pre => pre.trans (List.prefix_append _ _)

theorem solidGrows {after : CString} (solid : Solid after) (more : after ≠ []) (tail : CString) :
    Solid (after ++ '\n' :: tail) := by
  refine ⟨?_, (breakPrefix (by decide)).not.mpr solid.2.1, (breakPrefix (by decide)).not.mpr solid.2.2⟩
  obtain ⟨c, cs, rfl⟩ := List.exists_cons_of_ne_nil more
  exact solid.1

theorem takeWhileBreak {p : Char → Bool} (stop : p '\n' = false) (text tail : CString) :
    (text ++ '\n' :: tail).takeWhile p = text.takeWhile p := by
  rw [List.takeWhile_append]
  split_ifs with all
  · rw [List.takeWhile_cons_of_neg (by simp [stop]), List.append_nil]
    exact ((List.takeWhile_prefix p).eq_of_length all).symm
  · rfl

theorem markedBreak {letters : List Char} (letter : '\n' ∉ letters) (text tail : CString) :
    marked letters (text ++ '\n' :: tail) = marked letters text := by
  rcases text with _ | ⟨c, _ | ⟨d, cs⟩⟩
  · rfl
  · by_cases zero : c = '0'
    · subst zero
      simpa [marked] using letter
    · simp [marked, zero]
  · by_cases zero : c = '0'
    · subst zero
      rfl
    · simp [marked, zero]

theorem numeralBreak (text tail : CString) : numeralSpan (text ++ '\n' :: tail) = numeralSpan text := by
  have two {letters : List Char} (mark : marked letters text = true) {p : Char → Bool} (stop : p '\n' = false) :
      (text ++ '\n' :: tail).take 2 ++ ((text ++ '\n' :: tail).drop 2).takeWhile p =
        text.take 2 ++ (text.drop 2).takeWhile p := by
    obtain ⟨m, ds, rfl, -⟩ := markedIff.mp mark
    simp [takeWhileBreak stop]
  unfold numeralSpan
  rw [markedBreak (by decide), markedBreak (by decide)]
  split_ifs with hex bin
  · exact two hex (by decide)
  · exact two bin (by decide)
  · exact takeWhileBreak (by decide) text tail

theorem keywordTypeBreak (text tail : CString) :
    lexerKeywordType (text ++ '\n' :: tail) (wrapInt (text.takeWhile isWord).length) =
      lexerKeywordType text (wrapInt (text.takeWhile isWord).length) := by
  have kept := keywordTypeSpan (text.takeWhile isWord) (text.dropWhile isWord)
  have kept' := keywordTypeSpan (text.takeWhile isWord) (text.dropWhile isWord ++ '\n' :: tail)
  rw [← List.append_assoc, List.takeWhile_append_dropWhile] at kept'
  rw [List.takeWhile_append_dropWhile] at kept
  rw [kept', kept]

theorem operatorsOneLine : ∀ o ∈ operators, '\n' ∉ o.1 := by
  have table : operators.all fun o => !o.1.contains '\n' := by decide
  simpa using table

theorem wordEntry {c : Char} {cs : CString} (start : isAlpha c = true ∨ c = '_') (n line column length : Int) :
    (⟨lexerKeywordType (c :: cs) n, c :: cs, line, column, length⟩ : Token).entry =
      (lexerKeywordType (c :: cs) n, (c :: cs).takeWhile isWord) :=
  congrArg (Prod.mk _) (wordLexeme start n line column length)

/-- A token that is closed is the same one with a new line behind the text, at whatever line and column. -/
theorem scannedGrows {line column : Int} {text span : CString} {tok : Token} (scan : Scanned line column text span tok)
    (terminated : tok.Terminated) (line' column' : Int) (tail : CString) :
    ∃ tok', Scanned line' column' (text ++ '\n' :: tail) span tok' ∧ tok'.entry = tok.entry := by
  cases scan with
  | @string cs =>
    have closed := terminated rfl
    have more : cs.drop (stringSpan cs) ≠ [] := by
      intro ended
      have length := closed.length_le
      have inside : cs.length ≤ stringSpan cs := List.drop_eq_nil_iff.mp ended
      simp only [Token.lexeme, List.length_append, List.length_take, List.length_singleton] at length
      omega
    obtain ⟨shape, pre⟩ := stringSpanBody more
    obtain ⟨same, more'⟩ := bodySpanPrefix shape (pre.trans (List.prefix_append cs ('\n' :: tail)))
    rw [List.length_take, Nat.min_eq_left (stringSpanInside cs)] at same
    have scan' := @Scanned.string line' column' (cs ++ '\n' :: tail)
    have inside : stringSpan cs + 2 ≤ ('"' :: cs).length := by
      have below : stringSpan cs < cs.length := by
        rw [← Nat.not_le, ← List.drop_eq_nil_iff]
        exact more
      rw [List.length_cons]
      omega
    rw [if_neg more', same, ← List.cons_append, List.take_append_of_le_length inside] at scan'
    rw [if_neg more]
    refine ⟨_, scan', ?_⟩
    unfold Token.entry Token.lexeme
    dsimp only
    rw [same, List.take_append_of_le_length (stringSpanInside cs)]
  | @number c cs digit =>
    have scan' := @Scanned.number line' column' c (cs ++ '\n' :: tail) digit
    rw [← List.cons_append, numeralBreak] at scan'
    exact ⟨_, scan', congrArg (Prod.mk TokenType.tokNumber) (numeralBreak (c :: cs) tail)⟩
  | @word c cs start =>
    have scan' := @Scanned.word line' column' c (cs ++ '\n' :: tail) start
    have same := takeWhileBreak (by decide : isWord '\n' = false) (c :: cs) tail
    rw [← List.cons_append, same] at scan'
    have type := keywordTypeBreak (c :: cs) tail
    generalize wrapInt ((c :: cs).takeWhile isWord).length = length at scan' type ⊢
    have grown := @wordEntry c (cs ++ '\n' :: tail) start length line' column' length
    rw [← List.cons_append, type, same] at grown
    rw [type] at scan'
    exact ⟨_, scan', grown.trans (wordEntry start ..).symm⟩
  | @operator c cs s type letter under digit quote spelled start longest =>
    have start' : span <+: c :: cs ++ '\n' :: tail := start.trans (List.prefix_append _ _)
    refine ⟨_, .operator letter under digit quote spelled start' fun o member pre => ?_, rfl⟩
    exact longest o member ((breakPrefix (operatorsOneLine o member)).mp pre)
  | @stray c cs letter under digit quote none =>
    refine ⟨_, .stray letter under digit quote fun o member pre => ?_, rfl⟩
    exact none o member ((breakPrefix (operatorsOneLine o member)).mp pre)

theorem entryMoved (type : TokenType) (value : CString) (line line' column column' length : Int) :
    (⟨type, value, line', column', length⟩ : Token).entry = (⟨type, value, line, column, length⟩ : Token).entry := rfl

theorem scannedMoved {line column : Int} {text span : CString} {tok : Token} (scan : Scanned line column text span tok)
    (line' column' : Int) :
    ∃ tok', Scanned line' column' text span tok' ∧ tok'.entry = tok.entry := by
  cases scan with
  | string => exact ⟨_, .string, rfl⟩
  | number digit => exact ⟨_, .number digit, rfl⟩
  | word start => exact ⟨_, .word start, entryMoved ..⟩
  | operator letter under digit quote spelled start longest =>
    exact ⟨_, .operator letter under digit quote spelled start longest, rfl⟩
  | stray letter under digit quote none => exact ⟨_, .stray letter under digit quote none, rfl⟩

/-! Lexing is local -/

abbrev entriesAhead (l : Lexer) : List (TokenType × CString) := l.ahead.map Token.entry

/-- A call is told by the gap and the span in front of it. -/
theorem callFound {l : Lexer} {gap after span : CString} (here : l.rest = gap ++ after) (isGap : Gap after gap)
    (solid : Solid after) {x : TokenType × CString}
    (scanned : ∀ line column, ∃ tok, Scanned line column after span tok ∧ tok.entry = x) :
    entriesAhead l = x :: entriesAhead (lexerNextToken l).2 ∧ after = span ++ (lexerNextToken l).2.rest := by
  obtain ⟨gap', after', cut, isGap', solid', -, found⟩ := nextTokenScan l
  have whole := here.symm.trans cut
  obtain rfl := gapUnique isGap solid isGap' solid' whole
  obtain rfl := List.append_cancel_left whole
  have more : after ≠ [] := by
    rintro rfl
    obtain ⟨tok, scan, -⟩ := scanned 0 0
    cases scan
  obtain ⟨span', tok, scan, call⟩ := found more
  obtain ⟨tok', scan', same⟩ := scanned _ _
  obtain ⟨rfl, rfl⟩ := scannedUnique scan scan'
  have type : (lexerNextToken l).1 = tok := by rw [call]
  have notEnd : (lexerNextToken l).1.type ≠ .tokEof := type ▸ scannedNotEof scan
  refine ⟨by rw [entriesAhead, aheadToken notEnd, List.map_cons, type, same], ?_⟩
  obtain ⟨⟨rest, cut'⟩, -⟩ := scannedPrefix scan
  rw [call, advancesRest, here, ← cut', ← List.append_assoc, ← List.length_append, List.drop_left]

theorem blankBefore {gap gap' after : CString} (blank : Blank gap) (isGap : Gap after gap') :
    Gap after (gap ++ gap') := by
  induction blank with
  | nil => exact isGap
  | space blank rest ih => exact .space blank ih
  | @line body gap oneLine rest ih =>
    rw [List.cons_append, List.cons_append, List.append_assoc]
    exact .line oneLine rfl (.space (by decide) ih)
  | @block body gap first rest ih =>
    rw [List.cons_append, List.cons_append, List.append_assoc]
    exact .block first ih

theorem restAhead (k : Lexer) : ∀ m gap, Blank gap → m.rest = gap ++ k.rest → entriesAhead m = entriesAhead k := by
  induction k using callsInduction with
  | eof k ended =>
    intro m gap blank here
    rw [entriesAhead, entriesAhead, aheadEnd ended]
    rcases nextToken k with ⟨-, isGap, -⟩ | ⟨_, _, _, _, -, -, -, -, scan⟩
    · rcases nextToken m with ⟨spent, -, -⟩ | ⟨gap', span, _, _, cut, isGap', solid, nonempty, -⟩
      · rw [aheadEnd spent]
      · rw [← List.append_nil (gap ++ k.rest)] at here
        have whole := here.symm.trans cut
        obtain rfl := gapUnique (blankBefore blank isGap) solidNil isGap' solid whole
        have empty := List.append_cancel_left whole
        exact absurd (List.append_eq_nil_iff.mp empty.symm).1 nonempty
    · exact absurd ended (scannedNotEof scan)
  | token k more ih =>
    intro m gap blank here
    rcases nextToken k with ⟨ended, -⟩ | ⟨gap', span, _, _, cut, isGap, solid, -, scan⟩
    · exact absurd ended more
    have found := callFound cut isGap solid (scannedMoved scan)
    rw [cut, ← List.append_assoc] at here
    have found' := callFound here (blankBefore blank isGap) solid (scannedMoved scan)
    rw [found.1, found'.1, ih _ [] .nil (List.append_cancel_left found'.2).symm]

/-- What is left of the text behind its last token. -/
def trailing (l : Lexer) : CString := ((fun l => (lexerNextToken l).2)^[l.ahead.length] l).rest

theorem newlineAhead (l : Lexer) : ∀ m k, (∀ t ∈ l.ahead, t.Terminated) → Blank (trailing l ++ ['\n']) →
    m.rest = l.rest ++ '\n' :: k.rest → entriesAhead m = entriesAhead l ++ entriesAhead k := by
  induction l using callsInduction with
  | eof l ended =>
    intro m k _ blank here
    rw [trailing, aheadEnd ended] at blank
    rw [entriesAhead, entriesAhead, aheadEnd ended]
    refine restAhead k m (l.rest ++ ['\n']) blank ?_
    rw [here, List.append_assoc, List.singleton_append]
  | token l more ih =>
    intro m k terminated blank here
    rw [aheadToken more] at terminated
    rw [trailing, aheadToken more, List.length_cons, Function.iterate_succ_apply] at blank
    rcases nextToken l with ⟨ended, -⟩ | ⟨gap, span, _, _, cut, isGap, solid, nonempty, scan⟩
    · exact absurd ended more
    have filled : span ++ (lexerNextToken l).2.rest ≠ [] := by simp [nonempty]
    have found := callFound cut isGap solid (scannedMoved scan)
    rw [cut, List.append_assoc] at here
    have found' := callFound here (gapGrows isGap filled _) (solidGrows solid filled k.rest) fun line column =>
      scannedGrows scan (terminated _ List.mem_cons_self) line column k.rest
    have next : (lexerNextToken m).2.rest = (lexerNextToken l).2.rest ++ '\n' :: k.rest := by
      have same := found'.2
      rw [List.append_assoc] at same
      exact (List.append_cancel_left same).symm
    rw [found.1, found'.1, List.cons_append,
      ih _ k (fun t member => terminated t (List.mem_cons_of_mem _ member)) blank next]

section files
variable {first second whole : Source} (spliced : whole.text = first.text ++ '\n' :: second.text)
  (terminated : ∀ t ∈ first.tokens, t.Terminated) (closed : Blank (trailing (lexerCreate first) ++ ['\n']))
include spliced terminated closed

theorem filesEntries : whole.tokens.map Token.entry = first.tokens.map Token.entry ++ second.tokens.map Token.entry :=
  newlineAhead (lexerCreate first) (lexerCreate whole) (lexerCreate second) terminated closed spliced

theorem filesLexed : whole.tokens.map (fun t => (t.type, t.lexeme)) =
    first.tokens.map (fun t => (t.type, t.lexeme)) ++ second.tokens.map fun t => (t.type, t.lexeme) :=
  filesEntries spliced terminated closed

theorem filesTogether (starts : second.terminals = [] ∨ headKind second.terminals ∈ definitionStarts)
    (ends : lastKind first.terminals ≠ .tokReturn) (tree : ASTProgram) :
    Accepted whole tree ↔ ∃ one two, Accepted first one ∧ Accepted second two ∧ tree = together one two := by
  refine textsTogether ?_ starts ends tree
  rw [sourceTerminals, sourceTerminals, sourceTerminals, filesEntries spliced terminated closed, List.map_append]

end files

-- A string with a quote in it, and a comment up to the end of the file.
def notedSource : Source := ⟨"fn f()->u8=\"\\\"\" // end".toList, by decide⟩

def splicedSource : Source := ⟨"fn f()->u8=\"\\\"\" // end\nfn g()->u8=(y)".toList, by decide⟩

theorem notedLexed : splicedSource.tokens.map (fun t => (t.type, t.lexeme)) =
    notedSource.tokens.map (fun t => (t.type, t.lexeme)) ++ groupSource.tokens.map fun t => (t.type, t.lexeme) := by
  have comment : Blank (" // end".toList ++ ['\n']) := .space rfl (@Blank.line " end".toList [] (by decide) .nil)
  have behind : trailing (lexerCreate notedSource) = " // end".toList := by decide +kernel
  have closed : ∀ t ∈ notedSource.tokens, t.type = .tokString → t.lexeme ++ ['"'] <+: t.value := by decide +kernel
  exact filesLexed rfl closed (behind ▸ comment)

end BitN.FilesTogether

import BitN.LexerScan
import BitN.Lexical
import Mathlib.Tactic.SplitIfs

/-! What one call of the lexer consumes: a gap, then the longest span at its end. -/
namespace BitN.LexerSpans
open LexerScan Lexical

/-! Words and keywords -/

theorem keywordsDistinct : ∀ k ∈ keywords, k.2 ≠ .tokIdentifier ∧
    ∀ k' ∈ keywords, k.2 = k'.2 ↔ k.1 = k'.1 := by decide

theorem keywordTypeRule (word : CString) (n : Nat) (inside : n ≤ word.length) :
    KeywordRule (word.take n) (lexerKeywordType word n) := by
  have same (k : CString × TokenType) :
      ((n : Int) = k.1.length && word.take k.1.length = k.1) = true ↔ word.take n = k.1 := by
    simp only [Bool.and_eq_true, decide_eq_true_eq, Int.ofNat_inj]
    constructor
    · rintro ⟨rfl, h⟩; exact h
    · intro h
      have length := congrArg List.length h
      simp only [List.length_take, Nat.min_eq_left inside] at length
      exact ⟨length, by rw [← length, h]⟩
  unfold lexerKeywordType
  split
  · rename_i k found
    have member := List.mem_of_find?_eq_some found
    have spelled := (same k).mp (by simpa using List.find?_some found)
    refine ⟨fun k' member' => ?_, ?_⟩
    · rw [spelled]; exact (keywordsDistinct k member).2 k' member'
    · exact iff_of_false (keywordsDistinct k member).1 fun none => none k member spelled
  · rename_i missing
    have none : ∀ k ∈ keywords, word.take n ≠ k.1 := fun k member spelled =>
      List.find?_eq_none.mp missing k member ((same k).mpr spelled)
    refine ⟨fun k member => iff_of_false (fun h => (keywordsDistinct k member).1 h.symm) (none k member), ?_⟩
    exact iff_of_true rfl none

theorem prefixTakeWhile {p : Char → Bool} {s text : CString} (start : s <+: text)
    (all : ∀ c ∈ s, p c = true) : s.length ≤ (text.takeWhile p).length := by
  obtain ⟨tail, rfl⟩ := start
  rw [List.takeWhile_append_of_pos all, List.length_append]
  omega

theorem takeWhilePrefixTake (p : Char → Bool) (text : CString) :
    text.take (text.takeWhile p).length = text.takeWhile p :=
  (List.prefix_iff_eq_take.mp (List.takeWhile_prefix p)).symm

theorem takeWhileAll {p : Char → Bool} {text : CString} : ∀ c ∈ text.takeWhile p, p c = true :=
  fun _ member => List.mem_takeWhile_imp member

theorem dropTakeWhile (p : Char → Bool) (text : CString) :
    text.drop (text.takeWhile p).length = text.dropWhile p := by
  calc text.drop (text.takeWhile p).length
      = (text.takeWhile p ++ text.dropWhile p).drop (text.takeWhile p).length := by
        rw [List.takeWhile_append_dropWhile]
    _ = text.dropWhile p := List.drop_left

theorem startIsWord {c : Char} (start : isAlpha c = true ∨ c = '_') : isWord c = true := by
  rcases start with h | rfl
  · simp [isWord, isAlnum, h]
  · decide

theorem wordAt {c : Char} {cs : CString} (start : isAlpha c = true ∨ c = '_')
    (short : (c :: cs).length < 2 ^ 31) (line column : Int) :
    TokenAt (c :: cs) ((c :: cs).takeWhile isWord)
      ⟨lexerKeywordType (c :: cs) (wrapInt ((c :: cs).takeWhile isWord).length), c :: cs, line, column,
        wrapInt ((c :: cs).takeWhile isWord).length⟩ := by
  have inside := (List.takeWhile_prefix isWord (l := c :: cs)).length_le
  have fits : wrapInt ((c :: cs).takeWhile isWord).length = ((c :: cs).takeWhile isWord).length :=
    wrapIntSmall (by omega)
  have pre : (c :: cs).takeWhile isWord <+: c :: cs := List.takeWhile_prefix _
  have rule := keywordTypeRule (c :: cs) _ inside
  rw [takeWhilePrefixTake] at rule
  rw [fits]
  refine .lexeme (.word pre ?_ rule) ?_ ⟨rfl, pre⟩
  · rw [List.takeWhile_cons_of_pos (startIsWord start)]
    exact ⟨c, _, rfl, start, takeWhileAll⟩
  · intro s type content reading
    obtain ⟨⟨d, ds, rfl, letter, rest⟩, sPre⟩ := wordReading reading start
    refine prefixTakeWhile sPre fun e member => ?_
    rcases List.mem_cons.mp member with rfl | tail
    · exact startIsWord letter
    · exact rest e tail

/-! Numerals -/

theorem prefixedLength {letters : List Char} {digit : Char → Bool} {s : CString} {m : Char} {cs : CString}
    (shape : Prefixed letters digit s) (start : s <+: '0' :: m :: cs) :
    m ∈ letters ∧ s.length ≤ 2 + (cs.takeWhile digit).length := by
  obtain ⟨m', ds, rfl, mark, digits⟩ := shape
  obtain ⟨-, second⟩ := List.cons_prefix_cons.mp start
  obtain ⟨rfl, third⟩ := List.cons_prefix_cons.mp second
  have := prefixTakeWhile third digits
  refine ⟨mark, ?_⟩
  simp only [List.length_cons]
  omega

theorem markedNumeral (digit : Char → Bool) {letters : List Char} {text : CString}
    (mark : marked letters text = true) (letter : ∀ m ∈ letters, isDigit m = false) :
    Prefixed letters digit (text.take 2 ++ (text.drop 2).takeWhile digit) ∧
    (∀ s, Prefixed letters digit s → s <+: text →
      s.length ≤ (text.take 2 ++ (text.drop 2).takeWhile digit).length) ∧
    (∀ s, (∀ d ∈ s, isDigit d = true) → s <+: text →
      s.length ≤ (text.take 2 ++ (text.drop 2).takeWhile digit).length) ∧
    (∀ others digit' s, (∀ m ∈ letters, m ∉ others) → Prefixed others digit' s → ¬ s <+: text) := by
  have length := markedLength mark digit
  obtain ⟨m, ds, rfl, member⟩ := markedIff.mp mark
  refine ⟨⟨m, _, rfl, member, takeWhileAll⟩, fun s shape start => ?_, fun s digits start => ?_,
    fun others digit' s apart shape start => apart m member (prefixedLength shape start).1⟩
  · rw [length]; exact (prefixedLength shape start).2
  · have one := prefixTakeWhile start digits
    have zero : isDigit '0' = true := by decide
    rw [List.takeWhile_cons_of_pos zero, List.takeWhile_cons_of_neg (by simp [letter m member])] at one
    rw [length]
    simp only [List.length_cons, List.length_nil] at one
    omega

theorem numeralSpanLongest (text : CString) (start : isDigit (text.headD '\x00') = true) :
    Numeral (numeralSpan text) ∧
    ∀ s, Numeral s → s <+: text → s.length ≤ (numeralSpan text).length := by
  unfold numeralSpan
  split_ifs with hex bin
  · obtain ⟨shape, own, decimal, other⟩ := markedNumeral isXdigit hex (by simp [isDigit])
    refine ⟨.hexadecimal shape, fun s numeral pre => ?_⟩
    cases numeral with
    | decimal _ digits => exact decimal s digits pre
    | hexadecimal shape => exact own s shape pre
    | binary shape => exact absurd pre (other _ _ s (by simp) shape)
  · obtain ⟨shape, own, decimal, other⟩ := markedNumeral isBit bin (by simp [isDigit])
    refine ⟨.binary shape, fun s numeral pre => ?_⟩
    cases numeral with
    | decimal _ digits => exact decimal s digits pre
    | hexadecimal shape => exact absurd pre (other _ _ s (by simp) shape)
    | binary shape => exact own s shape pre
  · have unmarked {letters : List Char} {digit : Char → Bool} {s : CString} (shape : Prefixed letters digit s)
        (pre : s <+: text) : marked letters text = true := by
      obtain ⟨m, cs, rfl, member, -⟩ := shape
      obtain ⟨tail, rfl⟩ := pre
      exact markedIff.mpr ⟨m, cs ++ tail, rfl, member⟩
    refine ⟨.decimal ?_ takeWhileAll, fun s numeral pre => ?_⟩
    · rcases text with _ | ⟨c, cs⟩
      · exact absurd start (by decide)
      · have first : isDigit c = true := start
        simp [first]
    · cases numeral with
      | decimal _ digits => exact prefixTakeWhile pre digits
      | hexadecimal shape => exact absurd (unmarked shape pre) hex
      | binary shape => exact absurd (unmarked shape pre) bin

theorem numeralAt {c : Char} {cs : CString} (start : isDigit c = true)
    (short : (c :: cs).length < 2 ^ 31) (line column : Int) :
    TokenAt (c :: cs) (numeralSpan (c :: cs))
      ⟨.tokNumber, c :: cs, line, column, wrapInt (numeralSpan (c :: cs)).length⟩ := by
  have pre := numeralSpanPrefix (c :: cs)
  have inside := pre.length_le
  have fits : wrapInt (numeralSpan (c :: cs)).length = (numeralSpan (c :: cs)).length := wrapIntSmall (by omega)
  obtain ⟨shape, longest⟩ := numeralSpanLongest (c :: cs) start
  rw [fits]
  refine .lexeme (.numeral pre shape) ?_ ⟨rfl, pre⟩
  intro s type content reading
  obtain ⟨numeral, sPre⟩ := numeralReading reading start
  exact longest s numeral sPre

/-! Strings -/

theorem stringSpanBody {text : CString} (more : text.drop (stringSpan text) ≠ []) :
    StringBody (text.take (stringSpan text)) ∧ text.take (stringSpan text) ++ ['"'] <+: text := by
  fun_induction stringSpan text with
  | case1 => simp at more
  | case2 => exact ⟨.nil, by simp⟩
  | case3 c cs ih =>
    obtain ⟨body, pre⟩ := ih (by simpa using more)
    exact ⟨.escape body, by simpa using pre⟩
  | case4 c cs quote escape ih =>
    obtain ⟨body, pre⟩ := ih (by simpa using more)
    have slash : c ≠ '\\' := by
      rintro rfl
      rcases cs with _ | ⟨d, ds⟩
      · simp [stringSpan] at more
      · exact escape d ds rfl rfl
    exact ⟨.plain quote slash body, by simpa using pre⟩

theorem bodySpan {body tail : CString} (shape : StringBody body) :
    stringSpan (body ++ '"' :: tail) = body.length := by
  induction shape with
  | nil => rfl
  | plain quote slash rest ih =>
    rw [List.cons_append, stringSpan]
    · simp [ih]
    · exact quote
    · rintro d ds same -
      exact slash same
  | escape rest ih => simp [stringSpan, ih]

theorem bodySpanPrefix {body text : CString} (shape : StringBody body) (pre : body ++ ['"'] <+: text) :
    stringSpan text = body.length ∧ text.drop (stringSpan text) ≠ [] := by
  obtain ⟨tail, rfl⟩ := pre
  rw [List.append_assoc, List.singleton_append, bodySpan shape]
  simp

theorem stringAt {cs : CString} (short : ('"' :: cs).length < 2 ^ 31) (line column : Int) :
    TokenAt ('"' :: cs) (('"' :: cs).take (stringSpan cs + if cs.drop (stringSpan cs) = [] then 1 else 2))
      ⟨.tokString, cs, line, column, wrapInt (stringSpan cs)⟩ := by
  have inside := stringSpanInside cs
  have fits : wrapInt (stringSpan cs) = stringSpan cs := wrapIntSmall (by simp only [List.length_cons] at short; omega)
  rw [fits]
  by_cases ended : cs.drop (stringSpan cs) = []
  · have all : stringSpan cs = cs.length := by
      have := List.drop_eq_nil_iff.mp ended
      omega
    rw [if_pos ended, all]
    have span : ('"' :: cs).take (cs.length + 1) = '"' :: cs := by simp
    rw [span]
    refine .lexeme (.unclosed rfl fun closed shape pre => (bodySpanPrefix shape pre).2 ended) ?_
      ⟨rfl, List.prefix_rfl⟩
    intro s type content reading
    rcases stringReading reading with ⟨body, rfl, shape, pre⟩ | ⟨rfl, -⟩
    · exact absurd ended (bodySpanPrefix shape pre).2
    · exact le_rfl
  · obtain ⟨shape, pre⟩ := stringSpanBody ended
    have span : ('"' :: cs).take (stringSpan cs + 2) = '"' :: (cs.take (stringSpan cs) ++ ['"']) := by
      have length : (cs.take (stringSpan cs) ++ ['"']).length = stringSpan cs + 1 := by
        simp [List.length_take, Nat.min_eq_left inside]
      rw [List.take_succ_cons, ← length, ← List.prefix_iff_eq_take.mp pre]
    rw [if_neg ended, span]
    have whole : '"' :: (cs.take (stringSpan cs) ++ ['"']) <+: '"' :: cs := List.cons_prefix_cons.mpr ⟨rfl, pre⟩
    refine .lexeme (.closed whole shape) ?_ ⟨by simp [List.length_take, Nat.min_eq_left inside], List.take_prefix _ _⟩
    intro s type content reading
    rcases stringReading reading with ⟨body, rfl, other, bodyPre⟩ | ⟨-, none⟩
    · have same := (bodySpanPrefix other bodyPre).1
      simp only [List.length_cons, List.length_append, List.length_take]
      omega
    · exact absurd pre (none _ shape)

/-! Operators -/

theorem sameHead {c : Char} {text : CString} {P : CString × TokenType → Prop}
    (few : ∀ o ∈ operators.filter (fun o => o.1.head? = some c), o.1 <+: c :: text → P o) :
    ∀ o ∈ operators, o.1 <+: c :: text → P o := by
  intro o member pre
  refine few o (List.mem_filter.mpr ⟨member, ?_⟩) pre
  simpa using prefixHead pre (operatorHeads o member).1

inductive Switch (c : Char) (l : Lexer) (line column : Int) : Token × Lexer → Prop where
  | operator {s type} (spelled : (s, type) ∈ operators) (start : s <+: c :: l.rest)
      (longest : ∀ o ∈ operators, o.1 <+: c :: l.rest → o.1.length ≤ s.length) :
      Switch c l line column (⟨type, s, line, column, s.length⟩, lexerAdvance^[s.length - 1] l)
  | error (none : ∀ o ∈ operators, ¬ o.1 <+: c :: l.rest) :
      Switch c l line column (⟨.tokError, [], line, column, 0⟩, l)

theorem consPrefixRest {d : Char} {s : CString} {l : Lexer} (visible : d ≠ '\x00') :
    d :: s <+: l.rest ↔ l.current = d ∧ s <+: (lexerAdvance l).rest := by
  rw [currentRest, advanceRest]
  rcases l.rest with _ | ⟨e, text⟩
  · simp [visible.symm]
  · simp [List.cons_prefix_cons, eq_comm]

theorem switchOne {c : Char} {type : TokenType} {l : Lexer} (line column : Int) (spelled : ([c], type) ∈ operators)
    (longest : ∀ o ∈ operators.filter (fun o => o.1.head? = some c), o.1 <+: c :: l.rest → o.1.length ≤ 1) :
    Switch c l line column (lexerMakeToken type [c] 1 line column, l) :=
  .operator spelled (by simp) (sameHead longest)

theorem switchTwo {c d : Char} {type : TokenType} {l : Lexer} (line column : Int) (spelled : ([c, d], type) ∈ operators)
    (second : l.current = d) (visible : d ≠ '\x00')
    (longest : ∀ o ∈ operators.filter (fun o => o.1.head? = some c), o.1 <+: c :: l.rest → o.1.length ≤ 2) :
    Switch c l line column (lexerMakeToken type [c, d] 2 line column, lexerAdvance l) :=
  .operator spelled (by simp [consPrefixRest visible, second]) (sameHead longest)

theorem switchThree {c d e : Char} {type : TokenType} {l : Lexer} (line column : Int)
    (spelled : ([c, d, e], type) ∈ operators) (second : l.current = d) (third : (lexerAdvance l).current = e)
    (visible : d ≠ '\x00' ∧ e ≠ '\x00')
    (longest : ∀ o ∈ operators.filter (fun o => o.1.head? = some c), o.1 <+: c :: l.rest → o.1.length ≤ 3) :
    Switch c l line column (lexerMakeToken type [c, d, e] 3 line column, lexerAdvance (lexerAdvance l)) :=
  .operator spelled (by simp [consPrefixRest visible.1, consPrefixRest visible.2, second, third]) (sameHead longest)

theorem operatorSwitch (c : Char) (line column : Int) (l : Lexer) :
    Switch c l line column (lexerOperator c line column l) := by
  unfold lexerOperator
  split
  -- + & | ^ ! = stand alone or before =
  case h_1 | h_6 | h_7 | h_8 | h_10 | h_13 =>
    split_ifs with second
    · exact switchTwo line column (by decide) second (by decide) (by simp [operators])
    · exact switchOne line column (by decide) (by simp [operators, consPrefixRest, second])
  case h_2 =>
    split_ifs with minus arrow
    · exact switchTwo line column (by decide) minus (by decide) (by simp [operators])
    · exact switchTwo line column (by decide) arrow (by decide) (by simp [operators])
    · exact switchOne line column (by decide) (by simp [operators, consPrefixRest, minus, arrow])
  -- < and > : shift, rotate, comparison
  case h_11 | h_12 =>
    split_ifs with second third equal
    · exact switchThree line column (by decide) second third (by decide) (by simp [operators])
    · exact switchTwo line column (by decide) second (by decide) (by simp [operators, consPrefixRest, second, third])
    · exact switchTwo line column (by decide) equal (by decide) (by simp [operators, consPrefixRest, equal])
    · exact switchOne line column (by decide) (by simp [operators, consPrefixRest, second, equal])
  case h_25 =>
    refine .error fun o member pre => ?_
    have listed : ∀ o ∈ operators, o.1.head? ∈ ("+-*/%&|^~!<>=()\x7b\x7d[]:;,.@".toList).map some := by decide
    have known := listed o member
    rw [prefixHead pre (operatorHeads o member).1] at known
    simp at known
    simp_all
  all_goals exact switchOne line column (by decide) (by simp [operators])

/-! Gaps -/

theorem blockSpanClose (cs : CString) :
    (∃ body tail, cs = body ++ '*' :: '/' :: tail ∧ blockSpan cs = body.length + 2 ∧
      ¬ ['*', '/'] <:+: body ++ ['*']) ∨
    (blockSpan cs = cs.length ∧ ¬ ['*', '/'] <:+: cs) := by
  fun_induction blockSpan cs with
  | case1 => exact .inr ⟨rfl, by simp⟩
  | case2 tail => exact .inl ⟨[], tail, rfl, rfl, by decide⟩
  | case3 c cs other ih =>
    have notHere {ds : CString} (pre : ['*', '/'] <+: c :: ds) (same : ds.head? = cs.head?) : False := by
      obtain ⟨star, slash⟩ := List.cons_prefix_cons.mp pre
      obtain ⟨t, rfl⟩ := slash
      rcases cs with _ | ⟨d, ds⟩
      · simp at same
      · simp only [List.cons_append, List.head?_cons, Option.some.injEq] at same
        exact other ds star.symm (by rw [same])
    rcases ih with ⟨body, tail, rfl, span, first⟩ | ⟨span, none⟩
    · refine .inl ⟨c :: body, tail, rfl, by simp [span], fun infix_ => ?_⟩
      rcases List.infix_cons_iff.mp infix_ with pre | later
      · refine notHere pre ?_
        cases body <;> rfl
      · exact first later
    · refine .inr ⟨by simp [span], fun infix_ => ?_⟩
      rcases List.infix_cons_iff.mp infix_ with pre | later
      · exact notHere pre rfl
      · exact none later

theorem openerRest (l : Lexer) :
    (l.current = '/' && (lexerPeek l = '/' || lexerPeek l = '*')) = true ↔
      ['/', '/'] <+: l.rest ∨ ['/', '*'] <+: l.rest := by
  rw [currentRest, peekRest]
  rcases l.rest with _ | ⟨c, _ | ⟨d, ds⟩⟩
  · simp
  · simp [List.cons_prefix_cons]
  · simp [List.cons_prefix_cons]
    constructor
    · rintro ⟨rfl, rfl | rfl⟩ <;> simp
    · rintro (⟨rfl, rfl⟩ | ⟨rfl, rfl⟩) <;> simp

theorem commentScan (l : Lexer) (opener : ['/', '/'] <+: l.rest ∨ ['/', '*'] <+: l.rest) :
    ∃ comment left, l.rest = comment ++ left ∧ comment ≠ [] ∧
      lexerSkipComment l = lexerAdvance^[comment.length] l ∧
      ∀ gap after, left = gap ++ after → Gap after gap → Gap after (comment ++ gap) := by
  rcases opener with ⟨cs, same⟩ | ⟨cs, same⟩
  · have here : l.current = '/' := by rw [currentRest, ← same]; rfl
    have peek : lexerPeek l = '/' := by rw [peekRest, ← same]; rfl
    refine ⟨'/' :: '/' :: cs.takeWhile (· ≠ '\n'), cs.dropWhile (· ≠ '\n'), ?_, by simp, ?_, ?_⟩
    · rw [← same]
      simp [List.takeWhile_append_dropWhile]
    · rw [lexerSkipComment, if_pos (by simp [here, peek]), lineCommentScan, ← same]
      rfl
    · intro gap after left inner
      refine .line (fun member => by simpa using takeWhileAll _ member) ?_ inner
      have stop := List.head?_dropWhile_not (fun c : Char => decide (c ≠ '\n')) cs
      rw [← left, List.headD_eq_head?_getD]
      rcases h : (cs.dropWhile (· ≠ '\n')).head? with _ | c
      · rfl
      · rw [h] at stop
        simpa using stop
  · have here : l.current = '/' := by rw [currentRest, ← same]; rfl
    have peek : lexerPeek l = '*' := by rw [peekRest, ← same]; rfl
    have after : (lexerAdvance (lexerAdvance l)).rest = cs := by rw [advanceRest, advanceRest, ← same]; rfl
    have run : lexerSkipComment l = lexerAdvance^[blockSpan cs + 2] l := by
      rw [lexerSkipComment, if_neg (by simp [here, peek]), if_pos (by simp [here, peek])]
      have scanned := skipBlockScan (lexerAdvance (lexerAdvance l)).remaining _ (by rw [remainingRest])
      rw [after] at scanned
      exact scanned
    rcases blockSpanClose cs with ⟨body, tail, rfl, span, first⟩ | ⟨span, none⟩
    · refine ⟨'/' :: '*' :: (body ++ ['*', '/']), tail, ?_, by simp, ?_, ?_⟩
      · rw [← same]; simp
      · rw [run, span]; simp
      · intro gap after left inner
        have joined : '/' :: '*' :: (body ++ ['*', '/']) ++ gap = '/' :: '*' :: (body ++ '*' :: '/' :: gap) := by simp
        rw [joined]
        exact .block first inner
    · refine ⟨'/' :: '*' :: cs, [], ?_, by simp, by rw [run, span]; rfl, ?_⟩
      · rw [← same]; simp
      · intro gap after left inner
        obtain ⟨rfl, rfl⟩ := List.append_eq_nil_iff.mp left.symm
        rw [List.append_nil]
        exact .unclosed rfl none

theorem gapScan (n : Nat) (l : Lexer) (enough : l.rest.length < n) :
    ∃ gap after, l.rest = gap ++ after ∧ Gap after gap ∧ Solid after ∧
      lexerSkipGap n l = lexerAdvance^[gap.length] l := by
  induction n generalizing l with
  | zero => omega
  | succ n ih =>
    have cut : l.rest = l.rest.takeWhile isSpace ++ l.rest.dropWhile isSpace :=
      (List.takeWhile_append_dropWhile).symm
    have blank := skipWhitespaceScan l
    have rest : (lexerSkipWhitespace l).rest = l.rest.dropWhile isSpace := by
      rw [blank, advancesRest, dropTakeWhile]
    by_cases opener : ['/', '/'] <+: (lexerSkipWhitespace l).rest ∨ ['/', '*'] <+: (lexerSkipWhitespace l).rest
    · obtain ⟨comment, left, split_, nonempty, run, extend⟩ := commentScan _ opener
      have leftRest : (lexerSkipComment (lexerSkipWhitespace l)).rest = left := by
        rw [run, advancesRest, split_, List.drop_left]
      have shorter : left.length < n := by
        have whole := congrArg List.length cut
        have part := congrArg List.length (rest.symm.trans split_)
        have := List.length_pos_of_ne_nil nonempty
        simp only [List.length_append] at whole part
        omega
      obtain ⟨gap, after, splitLeft, inner, solid, go⟩ := ih _ (leftRest ▸ shorter)
      refine ⟨l.rest.takeWhile isSpace ++ (comment ++ gap), after, ?_, ?_, solid, ?_⟩
      · rw [List.append_assoc, List.append_assoc, ← leftRest.symm.trans splitLeft, ← split_, rest]
        exact cut
      · exact spaces takeWhileAll (extend gap after (leftRest.symm.trans splitLeft) inner)
      · rw [lexerSkipGap, if_pos ((openerRest _).mpr opener), go, run, blank, advancesAdd, advancesAdd]
        simp
    · refine ⟨l.rest.takeWhile isSpace, l.rest.dropWhile isSpace, cut, ?_, ?_, ?_⟩
      · simpa using spaces (@takeWhileAll isSpace l.rest) .nil
      · rw [rest, not_or] at opener
        refine ⟨fun c member => ?_, opener⟩
        have stop := List.head?_dropWhile_not isSpace l.rest
        rw [Option.mem_def.mp member] at stop
        simpa using stop
      · rw [lexerSkipGap, if_neg ((openerRest _).not.mpr opener), blank]

/-! One call -/

/-- The span and the token that a call produces at the first character behind the gap. -/
inductive Scanned (line column : Int) : CString → CString → Token → Prop where
  | string {cs} : Scanned line column ('"' :: cs)
      (('"' :: cs).take (stringSpan cs + if cs.drop (stringSpan cs) = [] then 1 else 2))
      ⟨.tokString, cs, line, column, wrapInt (stringSpan cs)⟩
  | number {c cs} (digit : isDigit c = true) : Scanned line column (c :: cs) (numeralSpan (c :: cs))
      ⟨.tokNumber, c :: cs, line, column, wrapInt (numeralSpan (c :: cs)).length⟩
  | word {c cs} (start : isAlpha c = true ∨ c = '_') :
      Scanned line column (c :: cs) ((c :: cs).takeWhile isWord)
      ⟨lexerKeywordType (c :: cs) (wrapInt ((c :: cs).takeWhile isWord).length), c :: cs, line, column,
        wrapInt ((c :: cs).takeWhile isWord).length⟩
  | operator {c cs s type} (letter : isAlpha c = false) (under : c ≠ '_') (digit : isDigit c = false)
      (quote : c ≠ '"') (spelled : (s, type) ∈ operators) (start : s <+: c :: cs)
      (longest : ∀ o ∈ operators, o.1 <+: c :: cs → o.1.length ≤ s.length) :
      Scanned line column (c :: cs) s ⟨type, s, line, column, s.length⟩
  | stray {c cs} (letter : isAlpha c = false) (under : c ≠ '_') (digit : isDigit c = false)
      (quote : c ≠ '"') (none : ∀ o ∈ operators, ¬ o.1 <+: c :: cs) :
      Scanned line column (c :: cs) [c] ⟨.tokError, [], line, column, 0⟩

theorem spanInside (cs : CString) :
    (('"' :: cs).take (stringSpan cs + if cs.drop (stringSpan cs) = [] then 1 else 2)).length =
      stringSpan cs + if cs.drop (stringSpan cs) = [] then 1 else 2 := by
  have inside := stringSpanInside cs
  have closed : cs.drop (stringSpan cs) ≠ [] → stringSpan cs < cs.length := by simp
  rw [List.length_take, List.length_cons]
  split_ifs with ended
  · omega
  · have := closed ended
    omega

theorem nextTokenScan (l : Lexer) :
    ∃ gap after, l.rest = gap ++ after ∧ Gap after gap ∧ Solid after ∧
      (after = [] → lexerNextToken l = (⟨.tokEof, [], (lexerAdvance^[gap.length] l).line,
        (lexerAdvance^[gap.length] l).column, 0⟩, lexerAdvance^[gap.length] l)) ∧
      (after ≠ [] → ∃ span tok, Scanned (lexerAdvance^[gap.length] l).line
        (lexerAdvance^[gap.length] l).column after span tok ∧
        lexerNextToken l = (tok, lexerAdvance^[gap.length + span.length] l)) := by
  obtain ⟨gap, after, cut, isGap, solid, run⟩ := gapScan (l.remaining + 1) l (by rw [remainingRest]; omega)
  refine ⟨gap, after, cut, isGap, solid, ?_⟩
  have rest : (lexerAdvance^[gap.length] l).rest = after := by rw [advancesRest, cut, List.drop_left]
  simp only [lexerNextToken, run, ← advancesAdd]
  generalize lexerAdvance^[gap.length] l = m at *
  have here := currentRest m
  rw [rest] at here
  constructor
  · rintro rfl
    rw [if_pos ((currentEnd m).mpr rest)]
    rfl
  · intro more
    have go : m.current ≠ '\x00' := by rw [Ne, currentEnd, rest]; exact more
    obtain ⟨c, cs, rfl⟩ := List.exists_cons_of_ne_nil more
    replace here : m.current = c := here
    rw [if_neg go, here]
    split_ifs with quote digit start
    · subst quote
      refine ⟨_, _, .string, ?_⟩
      rw [stringScan m (by rw [rest]; rfl), rest, spanInside]
      rfl
    · refine ⟨_, _, .number digit, ?_⟩
      rw [numberScan, rest]
    · refine ⟨_, _, .word (by simpa using start), ?_⟩
      rw [identifierScan, rest]
    · have first : (lexerAdvance m).rest = cs := by rw [advanceRest, rest]; rfl
      obtain ⟨letter, under⟩ : isAlpha c = false ∧ c ≠ '_' := by simpa using start
      have plain : isDigit c = false := by simpa using digit
      have switch := operatorSwitch c m.line m.column (lexerAdvance m)
      generalize lexerOperator c m.line m.column (lexerAdvance m) = result at switch ⊢
      cases switch with
      | @operator s type spelled start longest =>
        rw [first] at start longest
        refine ⟨_, _, .operator letter under plain quote spelled start longest, ?_⟩
        obtain ⟨d, ds, rfl⟩ := List.exists_cons_of_ne_nil (operatorHeads _ spelled).1
        rfl
      | error none =>
        rw [first] at none
        exact ⟨_, _, .stray letter under plain quote none, rfl⟩

end BitN.LexerSpans

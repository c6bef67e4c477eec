import BitN.LexerPartition
import Mathlib.Data.List.Find

/-! Texts written token by token. Where no two neighbours can fuse, the lexer reads back
the tokens that were written, whatever whitespace and comments stand between them. -/
namespace BitN

/-- What the token was read from, without the quotes of a string. -/
def Token.lexeme (tok : Token) : CString :=
  match tok.type with
  | .tokString => tok.value.take (LexerScan.stringSpan tok.value)
  | .tokNumber => LexerScan.numeralSpan tok.value
  | _ => if isWord (tok.value.headD '\x00') then tok.value.takeWhile isWord else tok.value

def Token.spelled (tok : Token) : CString :=
  if tok.type = .tokString then '"' :: (tok.lexeme ++ ['"']) else tok.lexeme

def Token.entry (tok : Token) : TokenType × CString := (tok.type, tok.lexeme)

namespace LexerLayout

open LexerScan Lexical LexerSpans LexerPartition

inductive Spelling : CString → TokenType × CString → Prop where
  | word {s} (shape : Word s) : Spelling s (lexerKeywordType s (wrapInt s.length), s)
  | numeral {s} (shape : Numeral s) : Spelling s (.tokNumber, s)
  | operator {s type} (spelled : (s, type) ∈ operators) : Spelling s (type, s)
  | closed {body} (shape : StringBody body) : Spelling ('"' :: (body ++ ['"'])) (.tokString, body)

/-- The character after `s` neither continues it nor makes it open a comment. -/
def Apart (s rest : CString) : Prop :=
  ∀ c ∈ rest.head?, (isWord (s.getLastD '\x00') = true → isWord c = false) ∧
    (∀ o ∈ operators, ¬ s ++ [c] <+: o.1) ∧ s ++ [c] ≠ ['/', '/'] ∧ s ++ [c] ≠ ['/', '*']

/-- Whitespace, newline-terminated line comments and closed block comments. -/
inductive Blank : CString → Prop where
  | nil : Blank []
  | space {c gap} (blank : isSpace c = true) (rest : Blank gap) : Blank (c :: gap)
  | line {body gap} (oneLine : '\n' ∉ body) (rest : Blank gap) : Blank ('/' :: '/' :: (body ++ '\n' :: gap))
  | block {body gap} (first : ¬ ['*', '/'] <:+: body ++ ['*']) (rest : Blank gap) :
      Blank ('/' :: '*' :: (body ++ '*' :: '/' :: gap))

inductive Laid : List (TokenType × CString) → CString → Prop where
  | done {gap} (blank : Blank gap) : Laid [] gap
  | token {gap s entry entries text} (blank : Blank gap) (spelling : Spelling s entry) (apart : Apart s text)
      (tail : Laid entries text) : Laid (entry :: entries) (gap ++ (s ++ text))

/-! The gap and the span at a position are unique -/

theorem lineUnique {body body' tail tail' : CString} (oneLine : '\n' ∉ body) (oneLine' : '\n' ∉ body')
    (ends : tail.headD '\n' = '\n') (ends' : tail'.headD '\n' = '\n') (same : body ++ tail = body' ++ tail') :
    body = body' := by
  have upTo : ∀ {body tail : CString}, '\n' ∉ body → tail.headD '\n' = '\n' →
      (body ++ tail).takeWhile (· ≠ '\n') = body := by
    intro body tail none stop
    have all : ∀ c ∈ body, decide (c ≠ '\n') = true := by
      intro c member
      exact decide_eq_true fun newline => none (newline ▸ member)
    rw [List.takeWhile_append_of_pos all]
    cases tail with
    | nil => simp
    | cons c cs =>
      obtain rfl : c = '\n' := stop
      simp
  rw [← upTo oneLine ends, same, upTo oneLine' ends']

theorem blockUnique {body body' tail tail' : CString} (first : ¬ ['*', '/'] <:+: body ++ ['*'])
    (first' : ¬ ['*', '/'] <:+: body' ++ ['*']) (same : body ++ '*' :: '/' :: tail = body' ++ '*' :: '/' :: tail') :
    body = body' := by
  have later : ∀ {body a tail tail' : CString}, ¬ ['*', '/'] <:+: (body ++ a) ++ ['*'] →
      '*' :: '/' :: tail = a ++ '*' :: '/' :: tail' → a = [] := by
    intro body a tail tail' first same
    match a, same with
    | [], _ => rfl
    | [c], same => simp at same
    | c :: d :: a, same =>
      obtain ⟨rfl, rfl, -⟩ : '*' = c ∧ '/' = d ∧ _ := by simpa using same
      exact absurd ⟨body, a ++ ['*'], by simp⟩ first
  rcases List.append_eq_append_iff.mp same with ⟨a, rfl, rest⟩ | ⟨a, rfl, rest⟩
  · rw [later first' rest, List.append_nil]
  · rw [later first rest, List.append_nil]

theorem openEnded {body body' tail : CString} (none : ¬ ['*', '/'] <:+: body') : body' ≠ body ++ '*' :: '/' :: tail := by
  rintro rfl
  exact none ⟨body, tail, by simp⟩

theorem gapUnique {gap after gap' after' : CString} (one : Gap after gap) (solid : Solid after) (two : Gap after' gap')
    (solid' : Solid after') (same : gap ++ after = gap' ++ after') : gap = gap' := by
  have notBlank : ∀ {c : Char}, isSpace c = true → c ≠ '/' := by
    rintro c blank rfl
    exact absurd blank (by decide)
  have notSolid : ∀ {gap after : CString}, Gap after gap → gap ≠ [] → ¬ Solid (gap ++ after) := by
    rintro gap after isGap nonempty ⟨space, line, block⟩
    cases isGap with
    | nil => exact nonempty rfl
    | space blank rest => simp [space _ rfl] at blank
    | line oneLine ends rest => exact line (by simp [List.cons_prefix_cons])
    | block first rest => exact block (by simp [List.cons_prefix_cons])
    | unclosed last none => exact block (by simp [List.cons_prefix_cons])
  have notNil : ∀ {gap after : CString}, Gap after gap → gap ≠ [] → gap ++ after ≠ after' := by
    rintro gap after isGap nonempty rfl
    exact notSolid isGap nonempty solid'
  induction one generalizing gap' with
  | nil =>
    by_contra nonempty
    exact notSolid two (Ne.symm nonempty) (same ▸ solid)
  | @space c gap blank rest ih =>
    cases two with
    | nil => exact absurd same (notNil (.space blank rest) (by simp))
    | space blank' rest' =>
      obtain ⟨rfl, tail⟩ := List.cons.inj same
      rw [ih rest' tail]
    | line => exact absurd (List.cons.inj same).1 (notBlank blank)
    | block => exact absurd (List.cons.inj same).1 (notBlank blank)
    | unclosed => exact absurd (List.cons.inj same).1 (notBlank blank)
  | @line body gap oneLine ends rest ih =>
    cases two with
    | nil => exact absurd same (notNil (.line oneLine ends rest) (by simp))
    | space blank' => exact absurd (List.cons.inj same).1.symm (notBlank blank')
    | line oneLine' ends' rest' =>
      simp only [List.cons_append, List.append_assoc, List.cons.injEq, true_and] at same
      obtain rfl := lineUnique oneLine oneLine' ends ends' same
      rw [ih rest' (List.append_cancel_left same)]
    | block => simp at same
    | unclosed => simp at same
  | @block body gap first rest ih =>
    cases two with
    | nil => exact absurd same (notNil (.block first rest) (by simp))
    | space blank' => exact absurd (List.cons.inj same).1.symm (notBlank blank')
    | line => simp at same
    | block first' rest' =>
      simp only [List.cons_append, List.append_assoc, List.cons.injEq, true_and] at same
      obtain rfl := blockUnique first first' same
      rw [ih rest' (by simpa using same)]
    | unclosed last none =>
      subst last
      simp only [List.cons_append, List.append_assoc, List.cons.injEq, true_and, List.append_nil] at same
      exact absurd same.symm (openEnded none)
  | @unclosed body last none =>
    subst last
    cases two with
    | nil => exact absurd same (notNil (.unclosed rfl none) (by simp))
    | space blank' => exact absurd (List.cons.inj same).1.symm (notBlank blank')
    | line => simp at same
    | block first' rest' =>
      simp only [List.cons_append, List.append_assoc, List.cons.injEq, true_and, List.append_nil] at same
      exact absurd same (openEnded none)
    | unclosed last' none' =>
      subst last'
      simpa using same

theorem scannedUnique {line column : Int} {text span span' : CString} {tok tok' : Token}
    (one : Scanned line column text span tok) (two : Scanned line column text span' tok') :
    span = span' ∧ tok = tok' := by
  have quoteStart : ¬ (isAlpha '"' = true ∨ '"' = '_') := by decide
  have quoteDigit : isDigit '"' ≠ true := by decide
  have startPlain : ∀ {c : Char}, isAlpha c = true ∨ c = '_' → isAlpha c = false → c ≠ '_' → False := by
    rintro c (alpha | under) letter other
    · simp [letter] at alpha
    · exact other under
  cases one with
  | string =>
    cases two with
    | string => exact ⟨rfl, rfl⟩
    | number digit => exact absurd digit quoteDigit
    | word start => exact absurd start quoteStart
    | operator _ _ _ quote => exact absurd rfl quote
    | stray _ _ _ quote => exact absurd rfl quote
  | number digit =>
    cases two with
    | string => exact absurd digit quoteDigit
    | number => exact ⟨rfl, rfl⟩
    | word start => simp [wordStartNotDigit start] at digit
    | operator _ _ plain => simp [plain] at digit
    | stray _ _ plain => simp [plain] at digit
  | word start =>
    cases two with
    | string => exact absurd start quoteStart
    | number digit => simp [wordStartNotDigit start] at digit
    | word => exact ⟨rfl, rfl⟩
    | operator letter under => exact (startPlain start letter under).elim
    | stray letter under => exact (startPlain start letter under).elim
  | @operator c cs s type letter under plain quote spelled pre longest =>
    cases two with
    | string => exact absurd rfl quote
    | number digit => simp [plain] at digit
    | word start => exact (startPlain start letter under).elim
    | @operator _ _ _ type' _ _ _ _ spelled' pre' longest' =>
      have same := List.IsPrefix.eq_of_length (List.prefix_of_prefix_length_le pre pre' (longest' _ spelled pre))
        (le_antisymm (longest' _ spelled pre) (longest _ spelled' pre'))
      subst same
      have table : ∀ o ∈ operators, ∀ o' ∈ operators, o.1 = o'.1 → o.2 = o'.2 := by decide
      obtain rfl : type = type' := table _ spelled _ spelled' rfl
      exact ⟨rfl, rfl⟩
    | stray _ _ _ _ none => exact absurd pre (none _ spelled)
  | stray letter under plain quote none =>
    cases two with
    | string => exact absurd rfl quote
    | number digit => simp [plain] at digit
    | word start => exact (startPlain start letter under).elim
    | operator _ _ _ _ spelled pre => exact absurd pre (none _ spelled)
    | stray => exact ⟨rfl, rfl⟩

/-! Spans and what follows them -/

theorem tableFound {table : List (CString × TokenType)} (short : ∀ k ∈ table, k.1.length < 16) (s rest : CString) :
    table.find? (fun k => wrapInt s.length = k.1.length && (s ++ rest).take k.1.length = k.1) =
      table.find? (fun k => wrapInt s.length = k.1.length && s.take k.1.length = k.1) := by
  refine List.find?_congr fun k member => ?_
  by_cases inside : k.1.length ≤ s.length
  · rw [List.take_append_of_le_length inside]
  · have bound := short k member
    have kept : wrapInt s.length = s.length := wrapIntSmall (by omega)
    have other : (s.length : Int) ≠ k.1.length := by omega
    simp [kept, other]

theorem keywordTypeSpan (s rest : CString) :
    lexerKeywordType (s ++ rest) (wrapInt s.length) = lexerKeywordType s (wrapInt s.length) := by
  have found : keywords.find? (fun k => wrapInt s.length = k.1.length && (s ++ rest).take k.1.length = k.1) =
      keywords.find? (fun k => wrapInt s.length = k.1.length && s.take k.1.length = k.1) :=
    tableFound (by decide) s rest
  rw [lexerKeywordType, lexerKeywordType, found]

theorem takeWhileSpan {p : Char → Bool} {s rest : CString} (all : ∀ c ∈ s, p c = true)
    (stop : ∀ c ∈ rest.head?, p c = false) : (s ++ rest).takeWhile p = s := by
  rw [List.takeWhile_append_of_pos all]
  cases rest with
  | nil => simp
  | cons c cs => simp [stop c rfl]

theorem lastWord {s : CString} (nonempty : s ≠ []) (all : ∀ c ∈ s, isWord c = true) :
    isWord (s.getLastD '\x00') = true := by
  obtain ⟨c, cs, rfl⟩ := List.exists_cons_of_ne_nil nonempty
  rw [List.getLastD_cons]
  exact all _ List.getLastD_mem_cons

theorem wordAll {s : CString} (shape : Word s) : s ≠ [] ∧ ∀ c ∈ s, isWord c = true := by
  obtain ⟨c, cs, rfl, start, tail⟩ := shape
  exact ⟨by simp, by simpa using ⟨startIsWord start, tail⟩⟩

theorem xdigitWord {c : Char} (digit : isXdigit c = true) : isWord c = true := by
  simp only [isXdigit, isWord, isAlnum, isAlpha, isDigit, Char.le_def, UInt32.le_iff_toNat_le, Bool.or_eq_true,
    Bool.and_eq_true, decide_eq_true_eq] at digit ⊢
  have f : 'f'.val.toNat = 102 := rfl
  have z : 'z'.val.toNat = 122 := rfl
  have F : 'F'.val.toNat = 70 := rfl
  have Z : 'Z'.val.toNat = 90 := rfl
  omega

theorem digitWord {c : Char} (digit : isDigit c = true) : isWord c = true := by
  simp [isWord, isAlnum, digit]

theorem bitWord {c : Char} (bit : isBit c = true) : isWord c = true := by
  rcases (by simpa [isBit] using bit : c = '0' ∨ c = '1') with rfl | rfl <;> decide

theorem numeralAll {s : CString} (shape : Numeral s) : s ≠ [] ∧ ∀ c ∈ s, isWord c = true := by
  have zero : isWord '0' = true := by decide
  cases shape with
  | decimal nonempty digits => exact ⟨nonempty, fun c member => digitWord (digits c member)⟩
  | hexadecimal shape =>
    obtain ⟨m, cs, rfl, mark, digits⟩ := shape
    have letter : isWord m = true := by rcases List.mem_pair.mp mark with rfl | rfl <;> decide
    exact ⟨by simp, by simpa [zero, letter] using fun c member => xdigitWord (digits c member)⟩
  | binary shape =>
    obtain ⟨m, cs, rfl, mark, digits⟩ := shape
    have letter : isWord m = true := by rcases List.mem_pair.mp mark with rfl | rfl <;> decide
    exact ⟨by simp, by simpa [zero, letter] using fun c member => bitWord (digits c member)⟩

theorem numeralSpanWhole {s rest : CString} (shape : Numeral s) (stop : ∀ c ∈ rest.head?, isWord c = false) :
    numeralSpan (s ++ rest) = s := by
  have start : isDigit ((s ++ rest).headD '\x00') = true := by
    obtain ⟨c, cs, rfl, digit⟩ := numeralHead shape
    exact digit
  obtain ⟨numeral, longest⟩ := numeralSpanLongest (s ++ rest) start
  have above := longest s shape (List.prefix_append s rest)
  have inside := numeralSpanPrefix (s ++ rest)
  -- The span is in words all along, so it cannot go past s.
  have below : (numeralSpan (s ++ rest)).length ≤ s.length := by
    have words := prefixTakeWhile inside (numeralAll numeral).2
    rwa [takeWhileSpan (numeralAll shape).2 stop] at words
  exact (List.prefix_of_prefix_length_le inside (List.prefix_append s rest) below).eq_of_length
    (le_antisymm below above)

theorem operatorLongest {s rest : CString} (apart : Apart s rest) :
    ∀ o ∈ operators, o.1 <+: s ++ rest → o.1.length ≤ s.length := by
  intro o member pre
  by_contra longer
  obtain ⟨tail, same⟩ := List.prefix_of_prefix_length_le (List.prefix_append s rest) pre (by omega)
  cases tail with
  | nil =>
    rw [List.append_nil] at same
    exact longer (same ▸ le_rfl)
  | cons c cs =>
    have head : rest.head? = some c := by
      obtain ⟨more, whole⟩ := pre
      rw [← same, List.append_assoc] at whole
      rw [← List.append_cancel_left whole]
      rfl
    exact (apart c head).2.1 o member ⟨cs, by rw [← same]; simp⟩

theorem wordSpan {s rest : CString} (shape : Word s) (apart : Apart s rest) : (s ++ rest).takeWhile isWord = s := by
  obtain ⟨nonempty, all⟩ := wordAll shape
  exact takeWhileSpan all fun c head => (apart c head).1 (lastWord nonempty all)

theorem operatorLexeme {s : CString} {type : TokenType} (spelled : (s, type) ∈ operators) (line column length : Int) :
    (⟨type, s, line, column, length⟩ : Token).lexeme = s := by
  have kinds : ∀ o ∈ operators, o.2 ≠ .tokString ∧ o.2 ≠ .tokNumber ∧ isWord (o.1.headD '\x00') = false := by
    have table : operators.all fun o => o.2 ≠ .tokString && o.2 ≠ .tokNumber && !isWord (o.1.headD '\x00') := by decide
    simpa [and_assoc] using table
  obtain ⟨notString, notNumber, noWord⟩ := kinds _ spelled
  unfold Token.lexeme
  split
  · contradiction
  · contradiction
  · rw [if_neg (by simpa using noWord)]

theorem wordLexeme {c : Char} {cs : CString} (start : isAlpha c = true ∨ c = '_') (n line column length : Int) :
    (⟨lexerKeywordType (c :: cs) n, c :: cs, line, column, length⟩ : Token).lexeme = (c :: cs).takeWhile isWord := by
  have kinds : ∀ k ∈ keywords, k.2 ≠ .tokString ∧ k.2 ≠ .tokNumber := by decide
  have plain : lexerKeywordType (c :: cs) n ≠ .tokString ∧ lexerKeywordType (c :: cs) n ≠ .tokNumber := by
    rcases keywordTypeKnown (c :: cs) n with same | ⟨k, member, same⟩
    · simp [same]
    · rw [same]
      exact kinds k member
  unfold Token.lexeme
  dsimp only
  split
  · exact absurd ‹_› plain.1
  · exact absurd ‹_› plain.2
  · exact if_pos (startIsWord start)

theorem spellingScanned {s rest : CString} {entry : TokenType × CString} (spelling : Spelling s entry)
    (apart : Apart s rest) (line column : Int) :
    ∃ tok, Scanned line column (s ++ rest) s tok ∧ tok.entry = entry := by
  cases spelling with
  | word shape =>
    have span := wordSpan shape apart
    have kept := keywordTypeSpan s rest
    obtain ⟨c, cs, rfl, start, -⟩ := shape
    have scan : Scanned line column (c :: (cs ++ rest)) _ _ := .word start
    have same : lexerKeywordType (c :: (cs ++ rest)) (wrapInt (c :: cs).length) = _ := kept
    rw [show (c :: (cs ++ rest)).takeWhile isWord = c :: cs from span] at scan
    refine ⟨_, scan, ?_⟩
    rw [Token.entry, wordLexeme start, same, show (c :: (cs ++ rest)).takeWhile isWord = c :: cs from span]
  | numeral shape =>
    have stop : ∀ c ∈ rest.head?, isWord c = false := by
      obtain ⟨nonempty, all⟩ := numeralAll shape
      exact fun c head => (apart c head).1 (lastWord nonempty all)
    have span := numeralSpanWhole shape stop
    obtain ⟨c, cs, rfl, digit⟩ := numeralHead shape
    have scan : Scanned line column (c :: (cs ++ rest)) _ _ := .number digit
    rw [show numeralSpan (c :: (cs ++ rest)) = c :: cs from span] at scan
    exact ⟨_, scan, congrArg (Prod.mk TokenType.tokNumber) span⟩
  | @operator s type spelled =>
    have longest := operatorLongest apart
    obtain ⟨nonempty, heads⟩ := operatorHeads _ spelled
    obtain ⟨c, cs, rfl⟩ := List.exists_cons_of_ne_nil nonempty
    obtain ⟨letter, under, plain, quote⟩ := heads c rfl
    have scan : Scanned line column (c :: (cs ++ rest)) (c :: cs) _ :=
      .operator letter under plain quote spelled (List.prefix_append (c :: cs) rest) longest
    exact ⟨_, scan, congrArg (Prod.mk type) (operatorLexeme spelled line column _)⟩
  | @closed body shape =>
    have span : stringSpan (body ++ '"' :: rest) = body.length := bodySpan shape
    have more : (body ++ '"' :: rest).drop body.length ≠ [] := by simp
    have scan : Scanned line column ('"' :: (body ++ '"' :: rest)) _ _ := .string
    have cut : ('"' :: (body ++ '"' :: rest)).take (body.length + 2) = '"' :: (body ++ ['"']) := by
      have split : '"' :: (body ++ '"' :: rest) = ('"' :: (body ++ ['"'])) ++ rest := by simp
      rw [split, List.take_left' (by simp)]
    rw [span, if_neg more, cut] at scan
    refine ⟨⟨.tokString, body ++ '"' :: rest, line, column, wrapInt body.length⟩, by simpa using scan, ?_⟩
    have lexeme : (body ++ '"' :: rest).take (stringSpan (body ++ '"' :: rest)) = body := by simp [span]
    exact congrArg (Prod.mk TokenType.tokString) lexeme

theorem spellingSolid {s rest : CString} {entry : TokenType × CString} (spelling : Spelling s entry)
    (apart : Apart s rest) : s ≠ [] ∧ Solid (s ++ rest) := by
  have plain : ∀ {c : Char} {text : CString}, isSpace c = false → c ≠ '/' → Solid (c :: text) := by
    intro c text space slash
    exact ⟨by simpa using space, by simp [List.cons_prefix_cons, slash.symm], by simp [List.cons_prefix_cons, slash.symm]⟩
  have wordPlain : ∀ {c : Char}, isWord c = true → isSpace c = false ∧ c ≠ '/' := by
    intro c word
    refine ⟨?_, by rintro rfl; exact absurd word (by decide)⟩
    by_contra space
    have blank : isSpace c = true := by simpa using space
    simp only [isSpace, Bool.or_eq_true, decide_eq_true_eq] at blank
    rcases blank with ((((rfl | rfl) | rfl) | rfl) | rfl) | rfl <;> exact absurd word (by decide)
  have fromWords : ∀ {s : CString}, s ≠ [] → (∀ c ∈ s, isWord c = true) → s ≠ [] ∧ Solid (s ++ rest) := by
    intro s nonempty all
    obtain ⟨c, cs, rfl⟩ := List.exists_cons_of_ne_nil nonempty
    obtain ⟨space, slash⟩ := wordPlain (all c List.mem_cons_self)
    exact ⟨nonempty, plain space slash⟩
  cases spelling with
  | word shape => exact fromWords (wordAll shape).1 (wordAll shape).2
  | numeral shape => exact fromWords (numeralAll shape).1 (numeralAll shape).2
  | @operator s type spelled =>
    have table : operators.all fun o => o.1.head?.all (fun c => !isSpace c) && (o.1.head? ≠ some '/' || o.1 = ['/']) := by
      decide
    obtain ⟨space, slash⟩ : (∀ c ∈ s.head?, isSpace c = false) ∧ (s.head? ≠ some '/' ∨ s = ['/']) := by
      simpa [Option.all_eq_true] using List.all_eq_true.mp table _ spelled
    obtain ⟨nonempty, -⟩ := operatorHeads _ spelled
    obtain ⟨c, cs, rfl⟩ := List.exists_cons_of_ne_nil nonempty
    refine ⟨nonempty, ?_⟩
    rcases slash with other | same
    · exact plain (space c rfl) (by simpa using other)
    · obtain ⟨rfl, rfl⟩ : c = '/' ∧ cs = [] := by simpa using same
      have follows : ∀ {d : Char}, ['/', d] <+: ['/'] ++ rest → rest.head? = some d := by
        rintro d ⟨tail, whole⟩
        have shown : d :: tail = rest := (List.cons.inj whole).2
        rw [← shown]
        rfl
      refine ⟨by simp [isSpace], fun pre => ?_, fun pre => ?_⟩
      · exact (apart _ (follows pre)).2.2.1 rfl
      · exact (apart _ (follows pre)).2.2.2 rfl
  | closed shape => exact ⟨by simp, plain (by decide) (by decide)⟩

/-! The calls of the lexer -/

theorem blankGap {gap : CString} (blank : Blank gap) (after : CString) : Gap after gap := by
  induction blank with
  | nil => exact .nil
  | space blank rest ih => exact .space blank ih
  | @line body gap oneLine rest ih =>
    exact .line oneLine rfl (.space (by decide) ih)
  | block first rest ih => exact .block first ih

theorem solidNil : Solid [] := ⟨by simp, by simp, by simp⟩

theorem nextLaid {l : Lexer} {gap s text : CString} {entry : TokenType × CString} (here : l.rest = gap ++ (s ++ text))
    (blank : Blank gap) (spelling : Spelling s entry) (apart : Apart s text) :
    (lexerNextToken l).1.entry = entry ∧ (lexerNextToken l).1.type ≠ .tokEof ∧ (lexerNextToken l).2.rest = text := by
  obtain ⟨nonempty, solid⟩ := spellingSolid spelling apart
  obtain ⟨gap', after, cut, isGap, solid', -, found⟩ := nextTokenScan l
  have whole := here.symm.trans cut
  obtain rfl := gapUnique (blankGap blank _) solid isGap solid' whole
  obtain rfl := List.append_cancel_left whole
  obtain ⟨span, tok, scan, call⟩ := found (by simp [nonempty])
  obtain ⟨tok', scan', same⟩ := spellingScanned spelling apart _ _
  obtain ⟨rfl, rfl⟩ := scannedUnique scan scan'
  rw [call]
  refine ⟨same, scannedNotEof scan, ?_⟩
  rw [advancesRest, here, ← List.append_assoc, ← List.length_append, List.drop_left]

theorem aheadLaid {entries : List (TokenType × CString)} {text : CString} (laid : Laid entries text) {l : Lexer}
    (here : l.rest = text) : l.ahead.map Token.entry = entries := by
  induction laid generalizing l with
  | @done gap blank =>
    obtain ⟨gap', after, cut, isGap, solid', ended, -⟩ := nextTokenScan l
    have whole : gap ++ [] = gap' ++ after := by rw [List.append_nil, ← here, cut]
    obtain rfl := gapUnique (blankGap blank _) solidNil isGap solid' whole
    have empty := List.append_cancel_left whole
    rw [aheadEnd (by rw [ended empty.symm])]
    rfl
  | token blank spelling apart tail ih =>
    obtain ⟨same, more, rest⟩ := nextLaid here blank spelling apart
    rw [aheadToken more, List.map_cons, same, ih rest]

theorem tokensLaid {entries : List (TokenType × CString)} {input : Source} (laid : Laid entries input.text) :
    input.tokens.map Token.entry = entries := aheadLaid laid rfl

end LexerLayout
end BitN

import BitN.Grammar
import BitN.Relexing

/-! Source texts written from tokens, and the terminals the parser reads of them. -/
namespace BitN.SourceText

open Lexical LexerSpans LexerPartition LexerLayout Relexing

/-- A name as the lexer takes it: a word that is none of its keywords. -/
def Identifier (s : CString) : Prop := Word s ∧ lexerKeywordType s (wrapInt s.length) = .tokIdentifier

def terminal : TokenType × CString → Terminal CString
  | (.tokIdentifier, s) => .word s
  | (.tokNumber, s) => .number s
  | (type, _) => .mark type

theorem spellingIdentifier {s name : CString} (spelling : Spelling s (.tokIdentifier, name)) : Identifier name := by
  have others : ∀ o ∈ operators, o.2 ≠ .tokIdentifier := by decide
  generalize entryIs : (TokenType.tokIdentifier, name) = entry at spelling
  cases spelling with
  | word shape =>
    obtain ⟨type, rfl⟩ := Prod.mk.inj entryIs
    exact ⟨shape, type.symm⟩
  | numeral => cases entryIs
  | operator spelled => exact absurd (Prod.mk.inj entryIs).1.symm (others _ spelled)
  | closed => cases entryIs

theorem identifierLexeme {line column : Int} {text span : CString} {tok : Token}
    (scan : Scanned line column text span tok) (type : tok.type = .tokIdentifier) : tok.lexeme = lexeme tok.value := by
  cases scan with
  | word start => exact wordLexeme start ..
  | operator _ _ _ _ spelled =>
    have others : ∀ o ∈ operators, o.2 ≠ .tokIdentifier := by decide
    exact absurd type (others _ spelled)
  | _ => cases type

theorem scannedTerminal {line column : Int} {text span : CString} {tok : Token}
    (scan : Scanned line column text span tok) : tok.terminal lexeme = terminal tok.entry := by
  have word := identifierLexeme scan
  unfold Token.terminal Token.entry
  rcases tok with ⟨type, value, line, column, length⟩
  cases type <;> first | rfl | exact congrArg Terminal.word (word rfl).symm

/-- The terminals of a text are its tokens' without the texts of strings. -/
theorem sourceTerminals (input : Source) : input.terminals = (input.tokens.map Token.entry).map terminal := by
  unfold Source.terminals Source.named
  rw [List.map_map]
  refine List.map_congr_left fun tok member => ?_
  rcases aheadEmitted _ tok member with ended | ⟨line, column, text, span, scan⟩
  · exact absurd ended (aheadNotEof _ tok member)
  · exact scannedTerminal scan

theorem laidTerminals {entries : List (TokenType × CString)} {input : Source} (laid : Laid entries input.text) :
    input.terminals = entries.map terminal := by
  rw [sourceTerminals, tokensLaid laid]

/-! A blank after each token -/

def spaced (entries : List (TokenType × CString)) : CString := entries.flatMap fun entry => entry.2 ++ [' ']

theorem blankSeparator : Separator [' '] := ⟨⟨' ', rfl, by decide⟩, .space (by decide) .nil⟩

theorem laidSpaced {entries : List (TokenType × CString)} (each : ∀ entry ∈ entries, Spelling entry.2 entry) :
    Laid entries (spaced entries) := by
  suffices all : ∀ {gap : CString}, Blank gap → Laid entries (gap ++ spaced entries) from all .nil
  induction entries with
  | nil =>
    intro gap blank
    rw [show spaced [] = [] from rfl, List.append_nil]
    exact .done blank
  | cons entry entries ih =>
    intro gap blank
    have cut : spaced (entry :: entries) = entry.2 ++ ([' '] ++ spaced entries) := by
      unfold spaced
      rw [List.flatMap_cons, List.append_assoc]
    rw [cut]
    exact .token blank (each entry List.mem_cons_self) (separatorApart blankSeparator _ _)
      (ih (fun e member => each e (List.mem_cons_of_mem _ member)) blankSeparator.blank)

theorem spellingNoNul {s : CString} {type : TokenType} (spelling : Spelling s (type, s)) : '\x00' ∉ s := by
  generalize entryIs : (type, s) = entry at spelling
  have word : ∀ {s : CString}, (∀ c ∈ s, isWord c = true) → '\x00' ∉ s := fun all inside =>
    absurd (all _ inside) (by decide)
  cases spelling with
  | word shape => exact word (wordAll shape).2
  | numeral shape => exact word (numeralAll shape).2
  | operator spelled =>
    have table : ∀ o ∈ operators, '\x00' ∉ o.1 := by decide
    exact table _ spelled
  | @closed body shape =>
    have lengths := congrArg (List.length ∘ Prod.snd) entryIs
    simp at lengths
    omega

theorem spacedNoNul {entries : List (TokenType × CString)} (each : ∀ entry ∈ entries, Spelling entry.2 entry) :
    '\x00' ∉ spaced entries := by
  intro inside
  obtain ⟨entry, member, inside⟩ := List.mem_flatMap.mp inside
  rcases List.mem_append.mp inside with inside | blank
  · exact spellingNoNul (each entry member) inside
  · exact absurd (List.mem_singleton.mp blank) (by decide)

def spacedSource (entries : List (TokenType × CString)) (each : ∀ entry ∈ entries, Spelling entry.2 entry) : Source :=
  ⟨spaced entries, spacedNoNul each⟩

theorem spacedTerminals {entries : List (TokenType × CString)} (each : ∀ entry ∈ entries, Spelling entry.2 entry) :
    (spacedSource entries each).terminals = entries.map terminal :=
  laidTerminals (laidSpaced each)

/-! Spellings -/

theorem keywordSpelling {type : TokenType} {s : CString} (listed : (s, type) ∈ keywords) : Spelling s (type, s) := by
  have types : ∀ k ∈ keywords, lexerKeywordType k.1 (wrapInt k.1.length) = k.2 := by decide
  have words : ∀ k ∈ keywords, k.1 ≠ [] ∧ isAlpha (k.1.headD '\x00') = true ∧ k.1.all isWord = true := by decide
  obtain ⟨some, start, all⟩ := words _ listed
  obtain ⟨c, cs, rfl⟩ := List.exists_cons_of_ne_nil some
  have tail : ∀ d ∈ cs, isWord d = true := fun d member => List.all_eq_true.mp all d (List.mem_cons_of_mem _ member)
  have spelling := Spelling.word ⟨c, cs, rfl, .inl start, tail⟩
  rwa [types _ listed] at spelling

theorem identifierSpelling {s : CString} (identifier : Identifier s) : Spelling s (.tokIdentifier, s) := by
  have spelling := Spelling.word identifier.1
  rwa [identifier.2] at spelling

theorem decimalSpelling (n : Nat) : Spelling (decimal n) (.tokNumber, decimal n) := by
  refine .numeral (.decimal ?_ (Numeral.decimalDigits n))
  obtain ⟨c, cs, head, -⟩ := Numeral.leadingDigit n
  rw [head]
  exact List.cons_ne_nil c cs

end BitN.SourceText

import BitN.AcceptedDevices
import BitN.Printing

/-! Which programs have a text: functions and devices in any order, written out and read back. -/
namespace BitN.ProgramText

open Lexical LexerLayout Grammar SourceText ParserAccepts AcceptedDevices

/-- What can be written as tokens; names are identifiers, the rest is what the parser can build. -/
structure Writable (program : ASTProgram) : Prop where
  names : ∀ name ∈ program.names, Identifier name
  functions : program.Shaped
  widths : ∀ periph ∈ program.peripherals, ∀ reg ∈ periph.registers, reg.type ∈ (widthWords.map Prod.snd).map some

/-! Terminals with a spelling -/

def Spelled (t : Terminal CString) : Prop := ∃ entry, Spelling entry.2 entry ∧ terminal entry = t

theorem spelledWord {name : CString} (identifier : Identifier name) : Spelled (.word name) :=
  ⟨(.tokIdentifier, name), identifierSpelling identifier, rfl⟩

theorem spelledNumber (n : Nat) : Spelled (.number (decimal n)) := ⟨(.tokNumber, decimal n), decimalSpelling n, rfl⟩

theorem spelledKeyword {type : TokenType} (s : CString) (listed : (s, type) ∈ keywords)
    (fixed : terminal (type, s) = .mark type) : Spelled (.mark type) :=
  ⟨(type, s), keywordSpelling listed, fixed⟩

theorem spelledOperator {type : TokenType} (s : CString) (listed : (s, type) ∈ operators)
    (fixed : terminal (type, s) = .mark type) : Spelled (.mark type) :=
  ⟨(type, s), .operator listed, fixed⟩

theorem spelledType (kind : TypeKind) : Spelled (.mark (typeToken kind)) := by
  cases kind
  · exact spelledKeyword "void".toList (by decide) rfl
  · exact spelledKeyword "u8".toList (by decide) rfl
  · exact spelledKeyword "u16".toList (by decide) rfl
  · exact spelledKeyword "u32".toList (by decide) rfl
  · exact spelledKeyword "u64".toList (by decide) rfl
  · exact spelledKeyword "i8".toList (by decide) rfl
  · exact spelledKeyword "i16".toList (by decide) rfl
  · exact spelledKeyword "i32".toList (by decide) rfl
  · exact spelledKeyword "i64".toList (by decide) rfl

theorem spelledUnary (op : UnaryOp) : Spelled (.mark (unaryToken op)) := by
  cases op
  · exact spelledOperator "!".toList (by decide) rfl
  · exact spelledOperator "^".toList (by decide) rfl
  · exact spelledOperator "-".toList (by decide) rfl

theorem spelledBinary (op : BinaryOp) : Spelled (.mark (binaryToken op)) := by
  cases op
  · exact spelledOperator "+".toList (by decide) rfl
  · exact spelledOperator "-".toList (by decide) rfl
  · exact spelledOperator "*".toList (by decide) rfl
  · exact spelledOperator "/".toList (by decide) rfl
  · exact spelledOperator "%".toList (by decide) rfl
  · exact spelledOperator "&".toList (by decide) rfl
  · exact spelledOperator "|".toList (by decide) rfl
  · exact spelledOperator "^".toList (by decide) rfl
  · exact spelledOperator "<<".toList (by decide) rfl
  · exact spelledOperator ">>".toList (by decide) rfl
  · exact spelledOperator "<<<".toList (by decide) rfl
  · exact spelledOperator ">>>".toList (by decide) rfl
  · exact spelledOperator "==".toList (by decide) rfl
  · exact spelledOperator "!=".toList (by decide) rfl
  · exact spelledOperator "<".toList (by decide) rfl
  · exact spelledOperator ">".toList (by decide) rfl
  · exact spelledOperator "<=".toList (by decide) rfl
  · exact spelledOperator ">=".toList (by decide) rfl

theorem spelledOpen : Spelled (.mark .tokLparen) := spelledOperator "(".toList (by decide) rfl

theorem spelledClose : Spelled (.mark .tokRparen) := spelledOperator ")".toList (by decide) rfl

theorem spelledEnd : Spelled (.mark .tokSemicolon) := spelledOperator ";".toList (by decide) rfl

/-! Printed functions -/

abbrev SpelledAll (s : List (Terminal CString)) : Prop := ∀ t ∈ s, Spelled t

theorem spelledNil : SpelledAll [] := nofun

theorem spelledCons {t : Terminal CString} {s : List (Terminal CString)} (first : Spelled t) (rest : SpelledAll s) :
    SpelledAll (t :: s) := List.forall_mem_cons.mpr ⟨first, rest⟩

theorem spelledAppend {s s' : List (Terminal CString)} (first : SpelledAll s) (second : SpelledAll s') :
    SpelledAll (s ++ s') := List.forall_mem_append.mpr ⟨first, second⟩

theorem bracketedSpelled {c : Prop} [Decidable c] {s : List (Terminal CString)} (inner : SpelledAll s) :
    SpelledAll (bracketed c s) := by
  unfold bracketed
  split
  · exact spelledCons spelledOpen (spelledAppend inner (spelledCons spelledClose spelledNil))
  · exact inner

theorem separatedSpelled {parts : List (List (Terminal CString))} (each : ∀ s ∈ parts, SpelledAll s) :
    SpelledAll ([Terminal.mark .tokComma].intercalate parts) := by
  have comma : Spelled (.mark .tokComma) := spelledOperator ",".toList (by decide) rfl
  induction parts with
  | nil => exact nofun
  | cons s parts ih =>
    have rest := ih fun s' member => each s' (List.mem_cons_of_mem _ member)
    cases parts with
    | nil => simpa [List.intercalate] using each s List.mem_cons_self
    | cons s' parts =>
      have step : [Terminal.mark .tokComma].intercalate (s :: s' :: parts) =
          s ++ .mark .tokComma :: [Terminal.mark .tokComma].intercalate (s' :: parts) := by
        simp [List.intercalate]
      rw [step]
      exact spelledAppend (each s List.mem_cons_self) (spelledCons comma rest)

theorem exprSpelled {e : ASTExpr} (shaped : e.Shaped) (names : ∀ name ∈ e.names, Identifier name) (k : Nat) :
    SpelledAll (e.print k) := by
  induction shaped generalizing k with
  | number value =>
    simp only [ASTExpr.print, List.forall_mem_singleton]
    exact spelledNumber _
  | identifier name =>
    simp only [ASTExpr.print, List.forall_mem_singleton]
    exact spelledWord (names name (List.mem_singleton_self name))
  | boolean value =>
    simp only [ASTExpr.print, List.forall_mem_singleton]
    cases value with
    | false => exact spelledKeyword "false".toList (by decide) rfl
    | true => exact spelledKeyword "true".toList (by decide) rfl
  | unaryOp op inner ih =>
    exact bracketedSpelled (spelledCons (spelledUnary op) (ih names 8))
  | @binaryOp op left right noRotate first second left' right' =>
    rw [ASTExpr.names, List.forall_mem_append] at names
    exact bracketedSpelled (spelledAppend (left' names.1 _) (spelledCons (spelledBinary op) (right' names.2 _)))
  | @call name args each ih =>
    rw [ASTExpr.names, ASTExpr.names, ASTExpr.namesAllMap, List.forall_mem_append, List.forall_mem_singleton] at names
    simp only [ASTExpr.print, ASTExpr.printAllMap]
    refine spelledCons (spelledWord names.1) (spelledCons spelledOpen (spelledAppend
      (separatedSpelled fun s member => ?_) (spelledCons spelledClose spelledNil)))
    obtain ⟨a, inside, rfl⟩ := List.mem_map.mp member
    exact ih a inside (fun n within => names.2 n (List.mem_flatten.mpr ⟨_, List.mem_map_of_mem inside, within⟩)) 0

theorem stmtSpelled {s : ASTStmt} (shaped : s.Shaped) (names : ∀ name ∈ s.names, Identifier name) :
    SpelledAll s.print := by
  induction shaped with
  | varDecl name kind isMut value =>
    rw [ASTStmt.names, List.forall_mem_cons] at names
    have keyword : Spelled (.mark (if isMut then .tokVar else .tokLet)) := by
      cases isMut with
      | false => exact spelledKeyword "let".toList (by decide) rfl
      | true => exact spelledKeyword "var".toList (by decide) rfl
    have head : SpelledAll [.mark (if isMut then .tokVar else .tokLet), .word name, .mark .tokColon,
        .mark (typeToken kind), .mark .tokAssign] :=
      spelledCons keyword <| spelledCons (spelledWord names.1) <|
        spelledCons (spelledOperator ":".toList (by decide) rfl) <| spelledCons (spelledType kind) <|
          spelledCons (spelledOperator "=".toList (by decide) rfl) spelledNil
    simp only [ASTStmt.print, typeTerminals]
    exact spelledAppend head (spelledAppend (exprSpelled value names.2 0) (spelledCons spelledEnd spelledNil))
  | expr value =>
    simp only [ASTStmt.print]
    exact spelledAppend (exprSpelled value names 0) (spelledCons spelledEnd spelledNil)
  | ret =>
    simp only [ASTStmt.print, ASTExpr.print]
    exact spelledCons (spelledKeyword "return".toList (by decide) rfl) (spelledCons spelledEnd spelledNil)
  | retValue value =>
    simp only [ASTStmt.print]
    exact spelledCons (spelledKeyword "return".toList (by decide) rfl)
      (spelledAppend (exprSpelled value names 0) (spelledCons spelledEnd spelledNil))
  | @block statements each ih =>
    rw [ASTStmt.names, ASTStmt.namesAllMap] at names
    have inner : SpelledAll (statements.map ASTStmt.print).flatten := by
      intro t member
      obtain ⟨s, inside, within⟩ := List.mem_flatMap.mp member
      exact ih s inside (fun n named => names n (List.mem_flatten.mpr ⟨_, List.mem_map_of_mem inside, named⟩)) t within
    simp only [ASTStmt.print, ASTStmt.printAllMap]
    exact spelledCons (spelledOperator "\x7b".toList (by decide) rfl)
      (spelledAppend inner (spelledCons (spelledOperator "\x7d".toList (by decide) rfl) spelledNil))

theorem functionSpelled {func : ASTFunctionDef} (shaped : func.Shaped) (names : ∀ name ∈ func.names, Identifier name) :
    SpelledAll func.print := by
  obtain ⟨kind, typed⟩ := Option.isSome_iff_exists.mp shaped.returnType
  rw [ASTFunctionDef.names, List.forall_mem_cons, List.forall_mem_append] at names
  have head : SpelledAll [.mark .tokFn, .word func.name, .mark .tokLparen, .mark .tokRparen, .mark .tokArrow,
      .mark (typeToken kind)] :=
    spelledCons (spelledKeyword "fn".toList (by decide) rfl) <| spelledCons (spelledWord names.1) <|
      spelledCons spelledOpen <| spelledCons spelledClose <|
        spelledCons (spelledOperator "->".toList (by decide) rfl) <| spelledCons (spelledType kind) spelledNil
  simp only [ASTFunctionDef.print, typed, typeTerminals]
  exact spelledAppend head (stmtSpelled shaped.body names.2.2)

/-! Whole programs -/

def print : Definition → List (Terminal CString)
  | .function func => func.print
  | .peripheral periph => (peripheralEntries periph).map terminal

/-- A definition that can be written on its own. -/
inductive Printable : Definition → Prop where
  | function {func} (shaped : func.Shaped) (names : ∀ name ∈ func.names, Identifier name) : Printable (.function func)
  | peripheral {periph} (expressible : Expressible periph) : Printable (.peripheral periph)

theorem printSpelled {d : Definition} (printable : Printable d) : SpelledAll (print d) := by
  cases printable with
  | function shaped names => exact functionSpelled shaped names
  | @peripheral periph expressible =>
    intro t member
    obtain ⟨entry, inside, rfl⟩ := List.mem_map.mp member
    exact ⟨entry, peripheralSpelled expressible.names entry inside, rfl⟩

theorem printStarts {d : Definition} (printable : Printable d) : print d ≠ [] := by
  cases printable <;> simp [print, ASTFunctionDef.print, peripheralEntries]

theorem printTaken {d : Definition} (printable : Printable d) {n : Nat} (enough : (print d).length ≤ n) :
    Taken n (print d, d) := by
  cases printable with
  | @function func shaped names => exact ⟨by simp [print, ASTFunctionDef.print, headKind, kind],
      Printing.acceptsFunction shaped enough⟩
  | @peripheral periph expressible => exact ⟨rfl, acceptsPeripheral (peripheralDerived expressible) enough⟩

/-- However the tokens of a program are laid out, it is parsed back. -/
theorem printedParsed {definitions : List Definition} (each : ∀ d ∈ definitions, Printable d) {input : Source}
    (printed : input.terminals = definitions.flatMap print) :
    ∃ program p, Parses input program p ∧ p.error = false ∧ program.lexemes = collect definitions := by
  let pieces : List (Piece Definition) := definitions.map fun d => (print d, d)
  have stream : joined pieces = definitions.flatMap print := by
    simp [pieces, joined, List.flatMap, Function.comp_def]
  have known : trees pieces = definitions := by simp [pieces, trees, Function.comp_def]
  have taken : ∀ n, (joined pieces).length ≤ n → ∀ q ∈ pieces, Taken n q := by
    intro n enough q member
    have width := (pieceLength member).trans enough
    obtain ⟨d, inside, rfl⟩ := List.mem_map.mp member
    exact printTaken (each d inside) width
  have nonempty : ∀ q ∈ pieces, q.1 ≠ [] := by
    intro q member
    obtain ⟨d, inside, rfl⟩ := List.mem_map.mp member
    exact printStarts (each d inside)
  rw [← known]
  exact parsesDefinitions taken nonempty (printed.trans stream.symm)

theorem spelledEntries {s : List (Terminal CString)} (each : SpelledAll s) :
    ∃ entries : List (TokenType × CString), (∀ entry ∈ entries, Spelling entry.2 entry) ∧ entries.map terminal = s := by
  induction s with
  | nil => exact ⟨[], nofun, rfl⟩
  | cons t s ih =>
    obtain ⟨entry, spelling, rfl⟩ := each t List.mem_cons_self
    obtain ⟨entries, spelled, rfl⟩ := ih fun t' member => each t' (List.mem_cons_of_mem _ member)
    exact ⟨entry :: entries, List.forall_mem_cons.mpr ⟨spelling, spelled⟩, rfl⟩

theorem writtenOut {definitions : List Definition} (each : ∀ d ∈ definitions, Printable d) :
    ∃ input : Source, input.terminals = definitions.flatMap print := by
  have spelled : SpelledAll (definitions.flatMap print) := by
    intro t member
    obtain ⟨d, inside, within⟩ := List.mem_flatMap.mp member
    exact printSpelled (each d inside) t within
  obtain ⟨entries, spelling, same⟩ := spelledEntries spelled
  exact ⟨spacedSource entries spelling, (spacedTerminals spelling).trans same⟩

def definitions (program : ASTProgram) : List Definition :=
  program.functions.map .function ++ program.peripherals.map .peripheral

theorem definitionsCollected (program : ASTProgram) : collect (definitions program) = program := by
  obtain ⟨functions, peripherals⟩ := program
  induction functions with
  | nil =>
    induction peripherals with
    | nil => rfl
    | cons periph peripherals ih =>
      simp only [definitions, List.map_nil, List.nil_append, List.map_cons, collect] at ih ⊢
      rw [ih]
  | cons func functions ih =>
    simp only [definitions, List.map_cons, List.cons_append, collect] at ih ⊢
    rw [ih]

theorem definitionsPrintable {program : ASTProgram} (writable : Writable program) :
    ∀ d ∈ definitions program, Printable d := by
  intro d member
  rcases List.mem_append.mp member with inside | inside
  · obtain ⟨func, among, rfl⟩ := List.mem_map.mp inside
    exact .function (writable.functions func among) fun name within =>
      writable.names name (List.mem_append_left _ (List.mem_flatten_of_mem (List.mem_map_of_mem among) within))
  · obtain ⟨periph, among, rfl⟩ := List.mem_map.mp inside
    exact .peripheral ⟨fun name within => writable.names name (ASTProgram.peripheralNamed among within),
      writable.widths periph among⟩

theorem acceptedWritable {input : Source} {program : ASTProgram} {p : Parser} (parsed : Parses input program p)
    (clear : p.error = false) : Writable program.lexemes := by
  have derived : Program (input.terminals, program.lexemes) := ParserDerives.parsesProgram parsed clear lexeme
  refine ⟨fun name inside => ?_, Shape.programShaped derived, fun periph member => ?_⟩
  · exact wordsIdentifiers input name ((Names.programNames derived).mem_iff.mp inside)
  · exact (acceptedExpressible parsed clear periph member).widths

/-- Up to what names show behind the lexeme, the trees of accepted texts are the writable ones. -/
theorem writableExactly (tree : ASTProgram) :
    (∃ input program p, Parses input program p ∧ p.error = false ∧ program.lexemes = tree) ↔ Writable tree := by
  constructor
  · rintro ⟨input, program, p, parsed, clear, rfl⟩
    exact acceptedWritable parsed clear
  · intro writable
    have printable := definitionsPrintable writable
    obtain ⟨input, text⟩ := writtenOut printable
    obtain ⟨program, p, parsed, clear, same⟩ := printedParsed printable text
    exact ⟨input, program, p, parsed, clear, same.trans (definitionsCollected tree)⟩

end BitN.ProgramText

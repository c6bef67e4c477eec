import BitN.ParserDerives

/-! The names of a tree are the words of its stream, and every word is the whole text from its
token on: no two are the same string. -/
namespace BitN

mutual
def ASTExpr.names : ASTExpr → List CString
  | .identifier name => [name]
  | .unaryOp _ operand => operand.names
  | .binaryOp _ left right => left.names ++ right.names
  | .call func args => func.names ++ ASTExpr.namesAll args
  | .arrayIndex array index => array.names ++ index.names
  | .bitSlice expr _ _ => expr.names
  | .memberAccess object field => object.names ++ [field]
  | .null | .number _ | .string _ | .boolean _ => []
def ASTExpr.namesAll : List ASTExpr → List CString
  | [] => []
  | e :: es => e.names ++ ASTExpr.namesAll es
end

mutual
def ASTStmt.names : ASTStmt → List CString
  | .varDecl name _ init _ => name :: init.names
  | .expr e => e.names
  | .ret value => value.names
  | .block statements => ASTStmt.namesAll statements
  | .null | .ifStmt | .whileStmt => []
def ASTStmt.namesAll : List ASTStmt → List CString
  | [] => []
  | s :: ss => s.names ++ ASTStmt.namesAll ss
end

theorem ASTExpr.namesAllMap (es : List ASTExpr) : ASTExpr.namesAll es = (es.map ASTExpr.names).flatten := by
  induction es with
  | nil => rfl
  | cons e es ih => rw [ASTExpr.namesAll, ih, List.map_cons, List.flatten_cons]

theorem ASTStmt.namesAllMap (ss : List ASTStmt) : ASTStmt.namesAll ss = (ss.map ASTStmt.names).flatten := by
  induction ss with
  | nil => rfl
  | cons s ss ih => rw [ASTStmt.namesAll, ih, List.map_cons, List.flatten_cons]

def ASTFunctionDef.names (func : ASTFunctionDef) : List CString :=
  func.name :: (func.params.map Prod.fst ++ func.body.names)

def ASTField.names (field : ASTField) : List CString := [field.name]

def ASTRegister.names (reg : ASTRegister) : List CString := reg.name :: (reg.fields.map ASTField.names).flatten

def ASTPeripheral.names (periph : ASTPeripheral) : List CString :=
  periph.name :: (periph.registers.map ASTRegister.names).flatten

def ASTProgram.names (program : ASTProgram) : List CString :=
  (program.functions.map ASTFunctionDef.names).flatten ++ (program.peripherals.map ASTPeripheral.names).flatten

theorem ASTRegister.fieldNamed {reg : ASTRegister} {field : ASTField} (member : field ∈ reg.fields) :
    field.name ∈ reg.names :=
  List.mem_cons_of_mem _ (List.mem_flatten_of_mem (List.mem_map_of_mem member) List.mem_cons_self)

theorem ASTPeripheral.registerNamed {periph : ASTPeripheral} {reg : ASTRegister} (member : reg ∈ periph.registers)
    {name : CString} (inside : name ∈ reg.names) : name ∈ periph.names :=
  List.mem_cons_of_mem _ (List.mem_flatten_of_mem (List.mem_map_of_mem member) inside)

theorem ASTProgram.peripheralNamed {program : ASTProgram} {periph : ASTPeripheral}
    (member : periph ∈ program.peripherals) {name : CString} (inside : name ∈ periph.names) : name ∈ program.names :=
  List.mem_append_right _ (List.mem_flatten_of_mem (List.mem_map_of_mem member) inside)

/-! Names that a renaming keeps -/

theorem mapSame {α : Type} {f : α → α} {items : List α} (same : ∀ a ∈ items, f a = a) : items.map f = items :=
  (List.map_congr_left same).trans (List.map_id items)

section kept
variable {θ : CString → CString}

theorem mapRenamed {α : Type} {names : α → List CString} {renamed : α → α} {items : List α}
    (each : ∀ a ∈ items, (∀ name ∈ names a, θ name = name) → renamed a = a)
    (same : ∀ name ∈ (items.map names).flatten, θ name = name) : items.map renamed = items :=
  mapSame fun a member => each a member fun name inside =>
    same name (List.mem_flatten.mpr ⟨_, List.mem_map_of_mem member, inside⟩)

theorem ASTExpr.renamedSame {e : ASTExpr} (same : ∀ name ∈ e.names, θ name = name) : e.renamed θ = e := by
  induction e with
  | call func args func' args' =>
    rw [ASTExpr.names, List.forall_mem_append, ASTExpr.namesAllMap] at same
    rw [ASTExpr.renamed, func' same.1, ASTExpr.renamedAllMap, mapRenamed args' same.2]
  | _ => simp_all [ASTExpr.renamed, ASTExpr.names]

theorem ASTExpr.renamedId (e : ASTExpr) : e.renamed id = e :=
  ASTExpr.renamedSame fun _ _ => rfl

theorem ASTStmt.renamedSame {s : ASTStmt} (same : ∀ name ∈ s.names, θ name = name) : s.renamed θ = s := by
  induction s with
  | block statements each =>
    rw [ASTStmt.names, ASTStmt.namesAllMap] at same
    rw [ASTStmt.renamed, ASTStmt.renamedAllMap, mapRenamed each same]
  | _ => simp_all [ASTStmt.renamed, ASTStmt.names, ASTExpr.renamedSame]

theorem ASTFunctionDef.renamedSame {func : ASTFunctionDef} (same : ∀ name ∈ func.names, θ name = name) :
    func.renamed θ = func := by
  rw [ASTFunctionDef.names, List.forall_mem_cons, List.forall_mem_append] at same
  have params : func.params.map (fun p => (θ p.1, p.2)) = func.params :=
    mapSame fun p member => by rw [same.2.1 p.1 (List.mem_map_of_mem member)]
  rw [ASTFunctionDef.renamed, same.1, params, ASTStmt.renamedSame same.2.2]

theorem ASTRegister.renamedSame {reg : ASTRegister} (same : ∀ name ∈ reg.names, θ name = name) :
    reg.renamed θ = reg := by
  rw [ASTRegister.names, List.forall_mem_cons] at same
  have each : ∀ field ∈ reg.fields, (∀ name ∈ field.names, θ name = name) → field.renamed θ = field :=
    fun field _ kept => by rw [ASTField.renamed, kept field.name List.mem_cons_self]
  rw [ASTRegister.renamed, same.1, mapRenamed each same.2]

theorem ASTPeripheral.renamedSame {periph : ASTPeripheral} (same : ∀ name ∈ periph.names, θ name = name) :
    periph.renamed θ = periph := by
  rw [ASTPeripheral.names, List.forall_mem_cons] at same
  rw [ASTPeripheral.renamed, same.1, mapRenamed (fun reg _ => ASTRegister.renamedSame) same.2]

theorem ASTProgram.renamedSame {program : ASTProgram} (same : ∀ name ∈ program.names, θ name = name) :
    program.renamed θ = program := by
  rw [ASTProgram.names, List.forall_mem_append] at same
  rw [ASTProgram.renamed, mapRenamed (fun func _ => ASTFunctionDef.renamedSame) same.1,
    mapRenamed (fun periph _ => ASTPeripheral.renamedSame) same.2]

theorem ASTProgram.renamedId (program : ASTProgram) : program.renamed id = program :=
  ASTProgram.renamedSame fun _ _ => rfl

end kept

/-! The words of a stream -/

def Terminal.name? : Terminal CString → Option CString
  | .word name => some name
  | .number _ | .mark _ => none

def words (s : List (Terminal CString)) : List CString := s.filterMap Terminal.name?

namespace Names

open Grammar

@[simp] theorem wordsNil : words [] = [] := rfl

@[simp] theorem wordsWord (name : CString) (s : List (Terminal CString)) : words (.word name :: s) = name :: words s :=
  rfl

@[simp] theorem wordsNumber (numeral : CString) (s : List (Terminal CString)) :
    words (.number numeral :: s) = words s := rfl

@[simp] theorem wordsMark (type : TokenType) (s : List (Terminal CString)) : words (.mark type :: s) = words s := rfl

@[simp] theorem wordsAppend (s t : List (Terminal CString)) : words (s ++ t) = words s ++ words t :=
  List.filterMap_append

/-! Derivations -/

theorem wordsJoined {τ : Type} {pieces : List (Piece τ)} {names : τ → List CString}
    (each : ∀ q ∈ pieces, names q.2 = words q.1) : ((trees pieces).map names).flatten = words (joined pieces) := by
  induction pieces with
  | nil => rfl
  | cons q pieces ih =>
    have tail := ih fun q' member => each q' (List.mem_cons_of_mem _ member)
    simpa [trees, joined, each q List.mem_cons_self] using tail

theorem wordsSeparated {τ : Type} (pieces : List (Piece τ)) : words (separated pieces) = words (joined pieces) := by
  induction pieces with
  | nil => rfl
  | cons q pieces ih =>
    cases pieces with
    | nil => simp [separated, joined]
    | cons q' pieces =>
      have step : separated (q :: q' :: pieces) = q.1 ++ .mark .tokComma :: separated (q' :: pieces) := by
        simp [separated, List.intercalate]
      rw [step, wordsAppend, wordsMark, ih]
      simp [joined]

theorem wordsChoice {β : Type} {table : List (TokenType × β)} {omitted result : β} {word : List (Terminal CString)}
    (chosen : Choice table omitted word result) : words word = [] := by
  cases chosen <;> rfl

theorem wordsSemicolon {s : List (Terminal CString)} (ends : Semicolon s) : words s = [] := by
  cases ends <;> rfl

theorem exprNames {k : Nat} {piece : Piece ASTExpr} (derived : Expr k piece) : piece.2.names = words piece.1 := by
  induction derived with
  | number => rfl
  | identifier => rfl
  | call each ih => simp [ASTExpr.names, ASTExpr.namesAllMap, wordsJoined ih, wordsSeparated]
  | true_ => rfl
  | false_ => rfl
  | group inner ih => simpa using ih
  | unary listed operand ih => simpa [ASTExpr.names] using ih
  | binary listed left right left' right' => simp_all [ASTExpr.names]
  | tighter inner ih => exact ih

theorem stmtNames {piece : Piece ASTStmt} (derived : Stmt piece) : piece.2.names = words piece.1 := by
  induction derived with
  | declaration bound typed value ends => simpa [ASTStmt.names, wordsSemicolon ends] using exprNames value
  | ret ends => simp [ASTStmt.names, ASTExpr.names, wordsSemicolon ends]
  | retValue value ends => simpa [ASTStmt.names, wordsSemicolon ends] using exprNames value
  | expr value ends => simpa [ASTStmt.names, wordsSemicolon ends] using exprNames value
  | block each ih => simp [ASTStmt.names, ASTStmt.namesAllMap, wordsJoined ih]

theorem functionNames {piece : Piece ASTFunctionDef} (derived : Function piece) : piece.2.names = words piece.1 := by
  cases derived with
  | function spelled typed inner =>
    cases inner with
    | statement only => simpa [ASTFunctionDef.names, ASTStmt.names, ASTStmt.namesAllMap] using stmtNames only
    | block inner => simpa [ASTFunctionDef.names] using stmtNames inner

theorem fieldNames {piece : Piece ASTField} (derived : Field piece) : piece.2.names = words piece.1 := by
  cases derived with
  | field chosen ends => simp [ASTField.names, wordsChoice chosen, wordsSemicolon ends]

theorem registerNames {piece : Piece ASTRegister} (derived : Register piece) : piece.2.names = words piece.1 := by
  cases derived with
  | register chosen each =>
    simp [ASTRegister.names, wordsChoice chosen, wordsJoined fun f member => fieldNames (each f member)]

theorem peripheralNames {piece : Piece ASTPeripheral} (derived : Peripheral piece) : piece.2.names = words piece.1 := by
  cases derived with
  | peripheral each => simp [ASTPeripheral.names, wordsJoined fun r member => registerNames (each r member)]

theorem programNames {piece : Piece ASTProgram} (derived : Program piece) : piece.2.names.Perm (words piece.1) := by
  cases derived with
  | @program definitions each =>
    induction definitions with
    | nil => exact .refl _
    | cons d definitions ih =>
      have tail := ih fun d' member => each d' (List.mem_cons_of_mem _ member)
      have first := each d List.mem_cons_self
      cases first with
      | @function s func inner =>
        simpa [joined, trees, collect, ASTProgram.names, functionNames inner] using tail.append_left (words s)
      | @peripheral s periph inner =>
        have moved := (List.perm_append_comm_assoc _ (words s) _).trans (tail.append_left (words s))
        simpa [joined, trees, collect, ASTProgram.names, peripheralNames inner] using moved

/-! Raw names -/

def rawWords (toks : List Token) : List CString := words (toks.map (Token.terminal id))

theorem rawWord {tok : Token} {toks : List Token} (ident : tok.type = .tokIdentifier) :
    rawWords (tok :: toks) = tok.value :: rawWords toks := by
  simp [rawWords, Token.terminal, ident]

theorem rawOther {tok : Token} {toks : List Token} (other : tok.type ≠ .tokIdentifier) :
    rawWords (tok :: toks) = rawWords toks := by
  rw [rawWords, List.map_cons]
  unfold Token.terminal
  split <;> first | contradiction | rfl

/-- An identifier token shows the whole text from its place on. -/
theorem scannedWord {line column : Int} {text span : CString} {tok : Token}
    (scan : LexerSpans.Scanned line column text span tok) (ident : tok.type = .tokIdentifier) :
    tok.value = text ∧ span = lexeme text := by
  have table : ∀ o ∈ Lexical.operators, o.2 ≠ TokenType.tokIdentifier := by decide
  cases scan with
  | string => cases ident
  | number digit => cases ident
  | word start => exact ⟨rfl, rfl⟩
  | operator letter under digit quote spelled start longest => exact absurd ident (table _ spelled)
  | stray letter under digit quote none => cases ident

theorem rawShorter (l : Lexer) : ∀ name ∈ rawWords l.ahead, name.length ≤ l.rest.length := by
  induction l using LexerPartition.callsInduction with
  | eof l ended => simp [LexerPartition.aheadEnd ended, rawWords]
  | token l more ih =>
    have shorter := LexerPartition.nextTokenShorter more
    rw [LexerPartition.aheadToken more]
    intro name member
    by_cases ident : (lexerNextToken l).1.type = .tokIdentifier
    · rcases LexerPartition.nextToken l with ⟨ended, -⟩ | ⟨gap, span, line, column, cut, -, -, nonempty, scan⟩
      · exact absurd ended more
      · rw [rawWord ident, (scannedWord scan ident).1] at member
        rcases List.mem_cons.mp member with rfl | later
        · have width := congrArg List.length cut
          simp only [List.length_append] at width ⊢
          omega
        · have := ih name later
          omega
    · rw [rawOther ident] at member
      have := ih name member
      omega

theorem rawFalling (l : Lexer) : (rawWords l.ahead).Pairwise fun a b => b.length < a.length := by
  induction l using LexerPartition.callsInduction with
  | eof l ended => simp [LexerPartition.aheadEnd ended, rawWords]
  | token l more ih =>
    rw [LexerPartition.aheadToken more]
    by_cases ident : (lexerNextToken l).1.type = .tokIdentifier
    · rcases LexerPartition.nextToken l with ⟨ended, -⟩ | ⟨gap, span, line, column, cut, -, -, nonempty, scan⟩
      · exact absurd ended more
      · rw [rawWord ident, (scannedWord scan ident).1, List.pairwise_cons]
        refine ⟨fun name later => ?_, ih⟩
        have width := rawShorter _ name later
        have := List.length_pos_of_ne_nil nonempty
        rw [List.length_append]
        omega
    · rwa [rawOther ident]

theorem rawDistinct (input : Source) : (words (input.named id)).Nodup :=
  (rawFalling (lexerCreate input)).imp fun falling same => by rw [same] at falling; omega

theorem aheadCons {l : Lexer} {tok : Token} {toks : List Token} (ahead : l.ahead = tok :: toks) :
    (lexerNextToken l).1.type ≠ .tokEof ∧ (lexerNextToken l).1 = tok ∧ (lexerNextToken l).2.ahead = toks := by
  have more : (lexerNextToken l).1.type ≠ .tokEof := by
    intro ended
    rw [LexerPartition.aheadEnd ended] at ahead
    cases ahead
  rw [LexerPartition.aheadToken more] at ahead
  exact ⟨more, List.cons.inj ahead⟩

theorem wordFollowed {l : Lexer} {tok next : Token} {toks : List Token} (ahead : l.ahead = tok :: next :: toks)
    (ident : tok.type = .tokIdentifier) : tok.value ≠ lexeme tok.value := by
  intro whole
  obtain ⟨more, rfl, behind⟩ := aheadCons ahead
  rcases LexerPartition.nextToken l with ⟨ended, -⟩ | ⟨gap, span, line, column, cut, -, -, nonempty, scan⟩
  · exact more ended
  · obtain ⟨value, spanned⟩ := scannedWord scan ident
    rw [value, ← spanned, List.append_right_eq_self] at whole
    have width := LexerPartition.aheadLength (lexerNextToken l).2
    rw [whole, behind] at width
    cases width

theorem defineStarts {s : List (Terminal CString)} {d : Definition} (derived : Define (s, d)) :
    ∃ keyword name next rest, s = .mark keyword :: .word name :: .mark next :: rest := by
  cases derived with
  | function inner =>
    cases inner with
    | function spelled typed inner => exact ⟨_, _, _, _, rfl⟩
  | peripheral inner =>
    cases inner with
    | peripheral each => exact ⟨_, _, _, _, rfl⟩

theorem terminalWord {tok : Token} {name : CString} (same : tok.terminal id = .word name) :
    tok.type = .tokIdentifier ∧ tok.value = name := by
  unfold Token.terminal at same
  split at same
  · exact ⟨by assumption, Terminal.word.inj same⟩
  · cases same
  · cases same

theorem wordsClean {input : Source} {program : ASTProgram} (derived : Program (input.named id, program))
    (clean : ∀ name ∈ words (input.named id), name = lexeme name) : input.tokens = [] := by
  generalize stream : input.named id = s at derived clean
  cases derived with
  | @program definitions each =>
    rcases definitions with _ | ⟨⟨s, d⟩, definitions⟩
    · exact List.map_eq_nil_iff.mp stream
    · obtain ⟨keyword, name, next, rest, rfl⟩ := defineStarts (each _ List.mem_cons_self)
      have kept := clean name (by simp [joined])
      obtain ⟨first, toks, ahead, -, more⟩ := List.map_eq_cons_iff.mp stream
      obtain ⟨second, toks', rfl, isWord, more⟩ := List.map_eq_cons_iff.mp more
      obtain ⟨third, toks'', rfl, -, -⟩ := List.map_eq_cons_iff.mp more
      obtain ⟨ident, rfl⟩ := terminalWord isWord
      exact absurd kept (wordFollowed (aheadCons ahead).2.2 ident)

theorem parsedNames {input : Source} {program : ASTProgram} {p : Parser} (parsed : Parses input program p)
    (clear : p.error = false) : program.names.Perm (words (input.named id)) := by
  have derived := programNames (ParserDerives.parsesProgram parsed clear id)
  rwa [ASTProgram.renamedId] at derived

theorem parsedDistinct {input : Source} {program : ASTProgram} {p : Parser} (parsed : Parses input program p)
    (clear : p.error = false) : program.names.Nodup :=
  (parsedNames parsed clear).nodup_iff.mpr (rawDistinct input)

end Names
end BitN

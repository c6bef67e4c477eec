import BitN.AST
import BitN.LexerPartition
import BitN.Lib.Run
import BitN.Numeral

/-! The parser. Its routines are runs over the parser's state; where the source recurses or
loops, fuel bounds the depth, and a run that needs more is cut with the state it has reached. -/
namespace BitN

inductive Loop where
  | statements | registers | fields | definitions
  deriving DecidableEq, Repr

/-- What a run does besides building the tree: the messages of `parser_error`, and, for
statements about whole runs, its loop turns and the numerals whose values it keeps. -/
inductive Event where
  | message (line column : Int) (text : String)
  | enter (loop : Loop) (token : TokenType)
  | again (loop : Loop) (before after : Nat)
  | store (text : CString) (width value : Nat)
  deriving DecidableEq

/-- The two-token window; behind an end token there is nothing but the end. -/
structure Parser where
  lexer : Lexer
  current : Token
  peek : Token
  error : Bool
  trace : List Event
  currentEmitted : current.Emitted
  peekEmitted : peek.Emitted
  currentEnd : current.type = .tokEof → peek.type = .tokEof
  peekEnd : peek.type = .tokEof → (lexerNextToken lexer).1.type = .tokEof

abbrev Parse (α : Type) := Run Parser α

def parserWindow (lexer : Lexer) : Parser where
  lexer := (lexerNextToken (lexerNextToken lexer).2).2
  current := (lexerNextToken lexer).1
  peek := (lexerNextToken (lexerNextToken lexer).2).1
  error := false
  trace := []
  currentEmitted := LexerPartition.nextTokenEmitted lexer
  peekEmitted := LexerPartition.nextTokenEmitted _
  currentEnd := LexerPartition.nextTokenEnd lexer
  peekEnd := LexerPartition.nextTokenEnd _

def parserCreate (input : Source) : Parser := parserWindow (lexerCreate input)

def windowAhead (current peek : Token) (lexer : Lexer) : List Token :=
  if current.type = .tokEof then []
  else current :: if peek.type = .tokEof then [] else peek :: lexer.ahead

def Parser.ahead (parser : Parser) : List Token := windowAhead parser.current parser.peek parser.lexer

def Parser.note (event : Event) (parser : Parser) : Parser := { parser with trace := event :: parser.trace }

def Parser.fail (message : String) (parser : Parser) : Parser :=
  { parser.note (.message parser.current.line parser.current.column message) with error := true }

def Parser.advance (parser : Parser) : Parser :=
  { parser with
    lexer := (lexerNextToken parser.lexer).2
    current := parser.peek
    peek := (lexerNextToken parser.lexer).1
    currentEmitted := parser.peekEmitted
    peekEmitted := LexerPartition.nextTokenEmitted parser.lexer
    currentEnd := parser.peekEnd
    peekEnd := LexerPartition.nextTokenEnd parser.lexer }

def parserError (message : String) : Parse Unit := Run.modify (Parser.fail message)

def parserAdvance : Parse Unit := Run.modify Parser.advance

def parserCheck (type : TokenType) : Parse Bool := Run.read fun parser => parser.current.type = type

def parserMatch (type : TokenType) : Parse Bool := do
  if ← parserCheck type then
    parserAdvance
    return true
  else return false

def parserExpect (type : TokenType) (message : String) : Parse Unit := do
  if ← parserMatch type then return ()
  else parserError message

def parserValue : Parse CString := Run.read fun parser => parser.current.value

def parserMatchOf {β : Type} : List (TokenType × β) → Parse (Option β)
  | [] => return none
  | (type, result) :: others => do
    if ← parserMatch type then return some result
    else parserMatchOf others

def parserNumeral (width : Nat) : Parse UInt64 := fun parser =>
  let value := strtoull parser.current.value
  if parser.current.type = .tokNumber then
    (some value, parser.note (.store parser.current.value width (value.toNat % 2 ^ width)))
  else (some value, parser)

def parserExpectNumber (message : String) : Parse UInt32 := do
  let value ← parserNumeral 32
  parserExpect .tokNumber message
  return value.toUInt32

def parserTurn {α : Type} (loop : Loop) (body : Parse α) : Parse α := do
  let before ← Run.read fun parser => parser.ahead.length
  Run.modify fun parser => parser.note (.enter loop parser.current.type)
  let item ← body
  Run.modify fun parser => parser.note (.again loop before parser.ahead.length)
  return item

def parserItem {α : Type} (loop : Loop) (item : Parse α) (items : List α) : Parse (List α ⊕ List α) := do
  if ← parserCheck .tokRbrace then return .inr items
  else if ← parserCheck .tokEof then return .inr items
  else return .inl (items ++ [← parserTurn loop item])

def parserItems {α : Type} (loop : Loop) (item : Parse α) (fuel : Nat) : Parse (List α) :=
  Run.loop (parserItem loop item) fuel []

def types : List (TokenType × TypeKind) := [
  (.tokU8, .typeU8), (.tokU16, .typeU16), (.tokU32, .typeU32), (.tokU64, .typeU64),
  (.tokI8, .typeI8), (.tokI16, .typeI16), (.tokI32, .typeI32), (.tokI64, .typeI64), (.tokVoid, .typeVoid)]

def parserParseType : Parse (Option TypeKind) := do
  match ← parserMatchOf types with
  | some kind => return some kind
  | none =>
    parserError "Expected type annotation"
    return none

/-! Expressions -/

def parserParseArgument (expression : Parse ASTExpr) (args : List ASTExpr) :
    Parse (List ASTExpr ⊕ List ASTExpr) := do
  let arg ← expression
  if ← parserMatch .tokComma then return .inl (args ++ [arg])
  else return .inr (args ++ [arg])

def parserParseArguments (expression : Parse ASTExpr) (fuel : Nat) : Parse (List ASTExpr) := do
  if ← parserCheck .tokRparen then return []
  else Run.loop (parserParseArgument expression) fuel []

def parserParsePrimary (expression : Parse ASTExpr) (fuel : Nat) : Parse ASTExpr := do
  if ← parserCheck .tokNumber then
    let value ← parserNumeral 64
    parserAdvance
    return .number value
  else if ← parserCheck .tokIdentifier then
    let name ← parserValue
    parserAdvance
    if ← parserCheck .tokLparen then
      parserAdvance
      let args ← parserParseArguments expression fuel
      parserExpect .tokRparen "Expected ')' after arguments"
      return .call (.identifier name) args
    else return .identifier name
  else if ← parserMatch .tokTrue then return .boolean true
  else if ← parserMatch .tokFalse then return .boolean false
  else if ← parserCheck .tokLparen then
    parserAdvance
    let expr ← expression
    parserExpect .tokRparen "Expected ')' after expression"
    return expr
  else
    parserError "Expected primary expression"
    return .null

def unaryOps : List (TokenType × UnaryOp) := [
  (.tokMinus, .uopNeg), (.tokNot, .uopNot), (.tokXor, .uopBitNot)]

def parserParseUnary (expression : Parse ASTExpr) : Nat → Parse ASTExpr
  | 0 => Run.cut
  | fuel + 1 => do
    match ← parserMatchOf unaryOps with
    | some op => return .unaryOp op (← parserParseUnary expression fuel)
    | none => parserParsePrimary expression fuel

def parserParseOperator (ops : List (TokenType × BinaryOp)) (next : Parse ASTExpr) (left : ASTExpr) :
    Parse (ASTExpr ⊕ ASTExpr) := do
  match ← parserMatchOf ops with
  | some op => return .inl (.binaryOp op left (← next))
  | none => return .inr left

def parserParseBinary (ops : List (TokenType × BinaryOp)) (next : Parse ASTExpr) (fuel : Nat) : Parse ASTExpr := do
  let left ← next
  Run.loop (parserParseOperator ops next) fuel left

def multiplicativeOps : List (TokenType × BinaryOp) :=
  [(.tokStar, .bopMul), (.tokSlash, .bopDiv), (.tokPercent, .bopMod)]
def additiveOps : List (TokenType × BinaryOp) := [(.tokPlus, .bopAdd), (.tokMinus, .bopSub)]
def shiftOps : List (TokenType × BinaryOp) := [(.tokLshift, .bopLshift), (.tokRshift, .bopRshift)]
def comparisonOps : List (TokenType × BinaryOp) :=
  [(.tokLt, .bopLt), (.tokGt, .bopGt), (.tokLe, .bopLe), (.tokGe, .bopGe)]
def equalityOps : List (TokenType × BinaryOp) := [(.tokEq, .bopEq), (.tokNe, .bopNe)]
def bitwiseAndOps : List (TokenType × BinaryOp) := [(.tokAnd, .bopAnd)]
def bitwiseXorOps : List (TokenType × BinaryOp) := [(.tokXor, .bopXor)]
def bitwiseOrOps : List (TokenType × BinaryOp) := [(.tokOr, .bopOr)]

def parserParseMultiplicative (expression : Parse ASTExpr) (fuel : Nat) : Parse ASTExpr :=
  parserParseBinary multiplicativeOps (parserParseUnary expression fuel) fuel
def parserParseAdditive (expression : Parse ASTExpr) (fuel : Nat) : Parse ASTExpr :=
  parserParseBinary additiveOps (parserParseMultiplicative expression fuel) fuel
def parserParseShift (expression : Parse ASTExpr) (fuel : Nat) : Parse ASTExpr :=
  parserParseBinary shiftOps (parserParseAdditive expression fuel) fuel
def parserParseComparison (expression : Parse ASTExpr) (fuel : Nat) : Parse ASTExpr :=
  parserParseBinary comparisonOps (parserParseShift expression fuel) fuel
def parserParseEquality (expression : Parse ASTExpr) (fuel : Nat) : Parse ASTExpr :=
  parserParseBinary equalityOps (parserParseComparison expression fuel) fuel
def parserParseBitwiseAnd (expression : Parse ASTExpr) (fuel : Nat) : Parse ASTExpr :=
  parserParseBinary bitwiseAndOps (parserParseEquality expression fuel) fuel
def parserParseBitwiseXor (expression : Parse ASTExpr) (fuel : Nat) : Parse ASTExpr :=
  parserParseBinary bitwiseXorOps (parserParseBitwiseAnd expression fuel) fuel
def parserParseBitwiseOr (expression : Parse ASTExpr) (fuel : Nat) : Parse ASTExpr :=
  parserParseBinary bitwiseOrOps (parserParseBitwiseXor expression fuel) fuel

def parserParseExpression : Nat → Parse ASTExpr
  | 0 => Run.cut
  | fuel + 1 => parserParseBitwiseOr (parserParseExpression fuel) fuel

/-! Statements and functions -/

def parserParseBlock (statement : Parse ASTStmt) (fuel : Nat) : Parse ASTStmt := do
  if ← parserMatch .tokLbrace then
    let statements ← parserItems .statements statement fuel
    parserExpect .tokRbrace "Expected '\x7d'"
    return .block statements
  else
    parserError "Expected '\x7b'"
    return .null

def parserParseDeclaration (expression : Parse ASTExpr) (isMut : Bool) : Parse ASTStmt := do
  parserAdvance
  let name ← parserValue
  parserExpect .tokIdentifier "Expected variable name"
  parserExpect .tokColon "Expected ':' after variable name"
  match ← parserParseType with
  | none => return .null
  | some declType =>
    if (← parserCheck .tokAssign) || (← parserCheck .tokEqual) then
      parserAdvance
      let init ← expression
      let _ ← parserMatch .tokSemicolon
      return .varDecl name declType init isMut
    else
      parserError "Expected '=' in variable declaration"
      return .null

def parserParseReturn (expression : Parse ASTExpr) : Parse ASTStmt := do
  if (← parserCheck .tokSemicolon) || (← parserCheck .tokRbrace) || (← parserCheck .tokEof) then
    let _ ← parserMatch .tokSemicolon
    return .ret .null
  else
    let value ← expression
    let _ ← parserMatch .tokSemicolon
    return .ret value

def parserParseStatement : Nat → Parse ASTStmt
  | 0 => Run.cut
  | fuel + 1 => do
    if (← parserCheck .tokLet) || (← parserCheck .tokVar) then
      parserParseDeclaration (parserParseExpression fuel) (← parserCheck .tokVar)
    else if ← parserMatch .tokReturn then parserParseReturn (parserParseExpression fuel)
    else if ← parserCheck .tokLbrace then parserParseBlock (parserParseStatement fuel) fuel
    else
      let expr ← parserParseExpression fuel
      let _ ← parserMatch .tokSemicolon
      return .expr expr

def parserParseBody (fuel : Nat) : Parse ASTStmt := do
  if ← parserMatch .tokAssign then
    let statement ← parserParseStatement fuel
    return .block [statement]
  else if ← parserCheck .tokLbrace then parserParseBlock (parserParseStatement fuel) fuel
  else
    parserError "Expected '=' or '\x7b' for function body"
    return .block []

def parserExpectArrow (isNimStyle : Bool) : Parse Unit :=
  if isNimStyle then parserExpect .tokColon "Expected ':' after ()"
  else parserExpect .tokArrow "Expected '->' after ()"

def parserParseSignature (isNimStyle : Bool) (fuel : Nat) : Parse ASTFunctionDef := do
  let name ← parserValue
  parserExpect .tokIdentifier "Expected function name"
  parserExpect .tokLparen "Expected '('"
  parserExpect .tokRparen "Expected ')'"
  parserExpectArrow isNimStyle
  let parsedType ← parserParseType
  let body ← parserParseBody fuel
  return ⟨name, some (parsedType.getD .typeU32), [], body⟩

def parserParseFunction (fuel : Nat) : Parse (Option ASTFunctionDef) := do
  match ← parserMatchOf [(.tokProc, true), (.tokFunc, true), (.tokFn, false)] with
  | some isNimStyle => return some (← parserParseSignature isNimStyle fuel)
  | none =>
    parserError "Expected 'proc', 'func', or 'fn'"
    return none

/-! Peripherals -/

def accesses : List (TokenType × AccessKind) := [
  (.tokRo, .accessRo), (.tokWo, .accessWo), (.tokRw, .accessRw), (.tokW1c, .accessW1c)]

def parserParseField : Parse ASTField := do
  parserExpect .tokField "Expected 'field'"
  let name ← parserValue
  parserExpect .tokIdentifier "Expected field name"
  parserExpect .tokColon "Expected ':' after field name"
  parserExpect .tokLbracket "Expected '[' for bit range"
  let start ← parserExpectNumber "Expected start bit"
  parserExpect .tokColon "Expected ':' in bit range"
  let stop ← parserExpectNumber "Expected end bit"
  parserExpect .tokRbracket "Expected ']' after bit range"
  let access ← parserMatchOf accesses
  let _ ← parserMatch .tokSemicolon
  return ⟨name, start, stop, access.getD .accessRw⟩

def registerTypes : List (TokenType × TypeKind) := [
  (.tokU8, .typeU8), (.tokU16, .typeU16), (.tokU32, .typeU32), (.tokU64, .typeU64)]

def parserParseRegister (fuel : Nat) : Parse ASTRegister := do
  parserExpect .tokRegister "Expected 'register'"
  let name ← parserValue
  parserExpect .tokIdentifier "Expected register name"
  parserExpect .tokColon "Expected ':' after register name"
  let kind ← parserMatchOf registerTypes
  parserExpect .tokAt "Expected '@' before offset"
  let offset ← parserExpectNumber "Expected offset value"
  parserExpect .tokLbrace "Expected '\x7b' after register"
  let fields ← parserItems .fields parserParseField fuel
  parserExpect .tokRbrace "Expected '\x7d' after register"
  return ⟨name, some (kind.getD .typeU32), offset, fields⟩

def parserParsePeripheral (fuel : Nat) : Parse ASTPeripheral := do
  parserExpect .tokPeripheral "Expected 'peripheral'"
  let name ← parserValue
  parserExpect .tokIdentifier "Expected peripheral name"
  parserExpect .tokAt "Expected '@' before base address"
  let base ← parserExpectNumber "Expected base address"
  parserExpect .tokLbrace "Expected '\x7b' after peripheral"
  let registers ← parserItems .registers (parserParseRegister fuel) fuel
  parserExpect .tokRbrace "Expected '\x7d' after peripheral"
  return ⟨name, base, registers⟩

def parserParseDefinition (fuel : Nat) (program : ASTProgram) : Parse (ASTProgram ⊕ ASTProgram) := do
  if ← parserCheck .tokEof then return .inr program
  else if (← parserCheck .tokProc) || (← parserCheck .tokFunc) || (← parserCheck .tokFn) then
    match ← parserTurn .definitions (parserParseFunction fuel) with
    | some func => return .inl { program with functions := program.functions ++ [func] }
    | none => return .inl program
  else if ← parserCheck .tokPeripheral then
    let periph ← parserTurn .definitions (parserParsePeripheral fuel)
    return .inl { program with peripherals := program.peripherals ++ [periph] }
  else
    parserError "Expected function or peripheral definition"
    return .inr program

def parserParseProgram (fuel : Nat) : Parse ASTProgram :=
  Run.loop (parserParseDefinition fuel) fuel ⟨[], []⟩

def parseSource (fuel : Nat) (input : Source) : Option ASTProgram × Parser :=
  parserParseProgram fuel (parserCreate input)

def Parses (input : Source) (program : ASTProgram) (parser : Parser) : Prop :=
  ∃ fuel, parseSource fuel input = (some program, parser)

end BitN

import BitN.AST
import BitN.LexerPartition
import BitN.Numeral

/-! The grammar over the terminals of a token stream, each derivation with its tree.
Names stand for their lexemes here: what the lexer meant, not what the pointer shows. -/
namespace BitN

inductive Terminal (ν : Type) where
  | word (name : CString)
  | number (numeral : ν)
  | mark (type : TokenType)
  deriving DecidableEq

def lexeme (name : CString) : CString := name.takeWhile isWord

/-- Names are carried as `θ` gives them: by lexeme, or as the raw text they stand for. -/
def Token.terminal (θ : CString → CString) (tok : Token) : Terminal CString :=
  match tok.type with
  | .tokIdentifier => .word (θ tok.value)
  | .tokNumber => .number (LexerScan.numeralSpan tok.value)
  | type => .mark type

def Source.named (θ : CString → CString) (input : Source) : List (Terminal CString) :=
  input.tokens.map (Token.terminal θ)

def Source.terminals (input : Source) : List (Terminal CString) := input.named lexeme

/-! Names replaced -/

section renamed
variable (θ : CString → CString)

mutual
def ASTExpr.renamed : ASTExpr → ASTExpr
  | .null => .null
  | .number value => .number value
  | .identifier name => .identifier (θ name)
  | .string value => .string value
  | .boolean value => .boolean value
  | .binaryOp op left right => .binaryOp op left.renamed right.renamed
  | .unaryOp op operand => .unaryOp op operand.renamed
  | .call func args => .call func.renamed (ASTExpr.renamedAll args)
  | .arrayIndex array index => .arrayIndex array.renamed index.renamed
  | .bitSlice expr start stop => .bitSlice expr.renamed start stop
  | .memberAccess object field => .memberAccess object.renamed (θ field)
def ASTExpr.renamedAll : List ASTExpr → List ASTExpr
  | [] => []
  | e :: es => e.renamed :: ASTExpr.renamedAll es
end

mutual
def ASTStmt.renamed : ASTStmt → ASTStmt
  | .null => .null
  | .varDecl name type init isMut => .varDecl (θ name) type (init.renamed θ) isMut
  | .expr e => .expr (e.renamed θ)
  | .ret value => .ret (value.renamed θ)
  | .ifStmt => .ifStmt
  | .whileStmt => .whileStmt
  | .block statements => .block (ASTStmt.renamedAll statements)
def ASTStmt.renamedAll : List ASTStmt → List ASTStmt
  | [] => []
  | s :: ss => s.renamed :: ASTStmt.renamedAll ss
end

@[simp] theorem ASTExpr.renamedAllMap (es : List ASTExpr) : ASTExpr.renamedAll θ es = es.map (ASTExpr.renamed θ) := by
  induction es with
  | nil => rfl
  | cons e es ih => rw [ASTExpr.renamedAll, ih, List.map_cons]

@[simp] theorem ASTStmt.renamedAllMap (ss : List ASTStmt) : ASTStmt.renamedAll θ ss = ss.map (ASTStmt.renamed θ) := by
  induction ss with
  | nil => rfl
  | cons s ss ih => rw [ASTStmt.renamedAll, ih, List.map_cons]

def ASTFunctionDef.renamed (func : ASTFunctionDef) : ASTFunctionDef :=
  { func with name := θ func.name, params := func.params.map fun p => (θ p.1, p.2), body := func.body.renamed θ }

def ASTField.renamed (field : ASTField) : ASTField := { field with name := θ field.name }

def ASTRegister.renamed (reg : ASTRegister) : ASTRegister :=
  { reg with name := θ reg.name, fields := reg.fields.map (ASTField.renamed θ) }

def ASTPeripheral.renamed (periph : ASTPeripheral) : ASTPeripheral :=
  { periph with name := θ periph.name, registers := periph.registers.map (ASTRegister.renamed θ) }

def ASTProgram.renamed (program : ASTProgram) : ASTProgram :=
  ⟨program.functions.map (ASTFunctionDef.renamed θ), program.peripherals.map (ASTPeripheral.renamed θ)⟩

end renamed

/-! Names by lexeme -/

abbrev ASTExpr.lexemes : ASTExpr → ASTExpr := ASTExpr.renamed lexeme
abbrev ASTStmt.lexemes : ASTStmt → ASTStmt := ASTStmt.renamed lexeme
abbrev ASTFunctionDef.lexemes : ASTFunctionDef → ASTFunctionDef := ASTFunctionDef.renamed lexeme
abbrev ASTPeripheral.lexemes : ASTPeripheral → ASTPeripheral := ASTPeripheral.renamed lexeme
abbrev ASTProgram.lexemes : ASTProgram → ASTProgram := ASTProgram.renamed lexeme

namespace Grammar

def numeral32 (numeral : CString) : UInt32 := (strtoull numeral).toUInt32

abbrev Piece (τ : Type) := List (Terminal CString) × τ

def joined {τ : Type} (pieces : List (Piece τ)) : List (Terminal CString) := (pieces.map Prod.fst).flatten

def trees {τ : Type} (pieces : List (Piece τ)) : List τ := pieces.map Prod.snd

inductive Choice {β : Type} (table : List (TokenType × β)) (omitted : β) : List (Terminal CString) → β → Prop where
  | none : Choice table omitted [] omitted
  | some {type result} (listed : (type, result) ∈ table) : Choice table omitted [.mark type] result

inductive Semicolon : List (Terminal CString) → Prop where
  | none : Semicolon []
  | some : Semicolon [.mark .tokSemicolon]

/-! Peripherals -/

def accessWords : List (TokenType × AccessKind) := [
  (.tokRo, .accessRo), (.tokWo, .accessWo), (.tokRw, .accessRw), (.tokW1c, .accessW1c)]

def widthWords : List (TokenType × TypeKind) := [
  (.tokU8, .typeU8), (.tokU16, .typeU16), (.tokU32, .typeU32), (.tokU64, .typeU64)]

inductive Field : Piece ASTField → Prop where
  | field {name start stop access word semicolon} (chosen : Choice accessWords .accessRw word access)
      (ends : Semicolon semicolon) :
      Field (.mark .tokField :: .word name :: .mark .tokColon :: .mark .tokLbracket :: .number start ::
        .mark .tokColon :: .number stop :: .mark .tokRbracket :: (word ++ semicolon),
        ⟨name, numeral32 start, numeral32 stop, access⟩)

inductive Register : Piece ASTRegister → Prop where
  | register {name kind word offset fields} (chosen : Choice widthWords .typeU32 word kind)
      (each : ∀ f ∈ fields, Field f) :
      Register (.mark .tokRegister :: .word name :: .mark .tokColon :: (word ++ .mark .tokAt :: .number offset ::
        .mark .tokLbrace :: (joined fields ++ [.mark .tokRbrace])),
        ⟨name, some kind, numeral32 offset, trees fields⟩)

inductive Peripheral : Piece ASTPeripheral → Prop where
  | peripheral {name base registers} (each : ∀ r ∈ registers, Register r) :
      Peripheral (.mark .tokPeripheral :: .word name :: .mark .tokAt :: .number base :: .mark .tokLbrace ::
        (joined registers ++ [.mark .tokRbrace]), ⟨name, numeral32 base, trees registers⟩)

/-! Expressions, by precedence level -/

def ladder : List (List (TokenType × BinaryOp)) := [
  [(.tokOr, .bopOr)], [(.tokXor, .bopXor)], [(.tokAnd, .bopAnd)],
  [(.tokEq, .bopEq), (.tokNe, .bopNe)],
  [(.tokLt, .bopLt), (.tokGt, .bopGt), (.tokLe, .bopLe), (.tokGe, .bopGe)],
  [(.tokLshift, .bopLshift), (.tokRshift, .bopRshift)],
  [(.tokPlus, .bopAdd), (.tokMinus, .bopSub)],
  [(.tokStar, .bopMul), (.tokSlash, .bopDiv), (.tokPercent, .bopMod)]]

def level (k : Nat) : List (TokenType × BinaryOp) := ladder.getD k []

theorem levelRow {k : Nat} {entry : TokenType × BinaryOp} (listed : entry ∈ level k) :
    k < 8 ∧ level k ∈ ladder := by
  rw [level, List.getD_eq_getElem?_getD] at listed ⊢
  rcases h : ladder[k]? with _ | row
  · simp [h] at listed
  · exact ⟨(List.getElem?_eq_some_iff.mp h).1, List.mem_of_getElem? h⟩

def prefixes : List (TokenType × UnaryOp) := [(.tokMinus, .uopNeg), (.tokNot, .uopNot), (.tokXor, .uopBitNot)]

def separated {τ : Type} (pieces : List (Piece τ)) : List (Terminal CString) :=
  [Terminal.mark .tokComma].intercalate (pieces.map Prod.fst)

/-- Levels 0 to 7 are the ladder, 8 the prefix operators, 9 the primaries. -/
inductive Expr : Nat → Piece ASTExpr → Prop where
  | number {numeral} : Expr 9 ([.number numeral], .number (strtoull numeral))
  | identifier {name} : Expr 9 ([.word name], .identifier name)
  | call {name args} (each : ∀ a ∈ args, Expr 0 a) :
      Expr 9 (.word name :: .mark .tokLparen :: (separated args ++ [.mark .tokRparen]),
        .call (.identifier name) (trees args))
  | true_ : Expr 9 ([.mark .tokTrue], .boolean true)
  | false_ : Expr 9 ([.mark .tokFalse], .boolean false)
  | group {s e} (inner : Expr 0 (s, e)) : Expr 9 (.mark .tokLparen :: (s ++ [.mark .tokRparen]), e)
  | unary {s e type op} (listed : (type, op) ∈ prefixes) (operand : Expr 8 (s, e)) :
      Expr 8 (.mark type :: s, .unaryOp op e)
  | binary {k s s' l r type op} (listed : (type, op) ∈ level k) (left : Expr k (s, l)) (right : Expr (k + 1) (s', r)) :
      Expr k (s ++ .mark type :: s', .binaryOp op l r)
  | tighter {k piece} (inner : Expr (k + 1) piece) : Expr k piece

/-! Statements and functions -/

def typeWords : List (TokenType × TypeKind) := [
  (.tokU8, .typeU8), (.tokU16, .typeU16), (.tokU32, .typeU32), (.tokU64, .typeU64),
  (.tokI8, .typeI8), (.tokI16, .typeI16), (.tokI32, .typeI32), (.tokI64, .typeI64), (.tokVoid, .typeVoid)]

def binders : List (TokenType × Bool) := [(.tokLet, false), (.tokVar, true)]

inductive Stmt : Piece ASTStmt → Prop where
  | declaration {binder isMut name type kind s init semicolon} (bound : (binder, isMut) ∈ binders)
      (typed : (type, kind) ∈ typeWords) (value : Expr 0 (s, init)) (ends : Semicolon semicolon) :
      Stmt (.mark binder :: .word name :: .mark .tokColon :: .mark type :: .mark .tokAssign :: (s ++ semicolon),
        .varDecl name (some kind) init isMut)
  | ret {semicolon} (ends : Semicolon semicolon) : Stmt (.mark .tokReturn :: semicolon, .ret .null)
  | retValue {s e semicolon} (value : Expr 0 (s, e)) (ends : Semicolon semicolon) :
      Stmt (.mark .tokReturn :: (s ++ semicolon), .ret e)
  | expr {s e semicolon} (value : Expr 0 (s, e)) (ends : Semicolon semicolon) : Stmt (s ++ semicolon, .expr e)
  | block {statements} (each : ∀ s ∈ statements, Stmt s) :
      Stmt (.mark .tokLbrace :: (joined statements ++ [.mark .tokRbrace]), .block (trees statements))

inductive Body : Piece ASTStmt → Prop where
  | statement {s b} (only : Stmt (s, b)) : Body (.mark .tokAssign :: s, .block [b])
  | block {s statements} (inner : Stmt (s, .block statements)) : Body (s, .block statements)

def keywords : List (TokenType × TokenType) := [(.tokProc, .tokColon), (.tokFunc, .tokColon), (.tokFn, .tokArrow)]

inductive Function : Piece ASTFunctionDef → Prop where
  | function {keyword arrow name type kind s body} (spelled : (keyword, arrow) ∈ keywords)
      (typed : (type, kind) ∈ typeWords) (inner : Body (s, body)) :
      Function (.mark keyword :: .word name :: .mark .tokLparen :: .mark .tokRparen :: .mark arrow :: .mark type :: s,
        ⟨name, some kind, [], body⟩)

/-! Programs -/

inductive Definition where
  | function (func : ASTFunctionDef)
  | peripheral (periph : ASTPeripheral)

inductive Define : Piece Definition → Prop where
  | function {s func} (inner : Function (s, func)) : Define (s, .function func)
  | peripheral {s periph} (inner : Peripheral (s, periph)) : Define (s, .peripheral periph)

def collect : List Definition → ASTProgram
  | [] => ⟨[], []⟩
  | .function func :: rest => { collect rest with functions := func :: (collect rest).functions }
  | .peripheral periph :: rest => { collect rest with peripherals := periph :: (collect rest).peripherals }

inductive Program : Piece ASTProgram → Prop where
  | program {definitions} (each : ∀ d ∈ definitions, Define d) :
      Program (joined definitions, collect (trees definitions))

end Grammar

end BitN

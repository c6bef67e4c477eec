import BitN.Token

/-! Syntax trees. A pointer that may be NULL is `null` or `none`; names are the C
strings the pointers designate. -/
namespace BitN

inductive TypeKind where
  | typeVoid | typeU8 | typeU16 | typeU32 | typeU64 | typeI8 | typeI16 | typeI32 | typeI64
  deriving DecidableEq, Repr

inductive BinaryOp where
  | bopAdd | bopSub | bopMul | bopDiv | bopMod
  | bopAnd | bopOr | bopXor
  | bopLshift | bopRshift | bopLrotate | bopRrotate
  | bopEq | bopNe | bopLt | bopGt | bopLe | bopGe
  deriving DecidableEq, Repr

inductive UnaryOp where
  | uopNot | uopBitNot | uopNeg
  deriving DecidableEq, Repr

inductive ASTExpr where
  | null
  | number (value : UInt64)
  | identifier (name : CString)
  | string (value : CString)
  | boolean (value : Bool)
  | binaryOp (op : BinaryOp) (left right : ASTExpr)
  | unaryOp (op : UnaryOp) (operand : ASTExpr)
  | call (func : ASTExpr) (args : List ASTExpr)
  | arrayIndex (array index : ASTExpr)
  | bitSlice (expr : ASTExpr) (start stop : UInt32)
  | memberAccess (object : ASTExpr) (field : CString)

inductive ASTStmt where
  | null
  | varDecl (name : CString) (type : Option TypeKind) (init : ASTExpr) (isMut : Bool)
  | expr (expr : ASTExpr)
  | ret (value : ASTExpr)
  | ifStmt
  | whileStmt
  | block (statements : List ASTStmt)

structure ASTFunctionDef where
  name : CString
  returnType : Option TypeKind
  params : List (CString × Option TypeKind)
  body : ASTStmt

inductive AccessKind where
  | accessRo | accessWo | accessRw | accessW1c
  deriving DecidableEq, Repr

structure ASTField where
  name : CString
  startBit : UInt32
  endBit : UInt32
  access : AccessKind
  deriving DecidableEq

structure ASTRegister where
  name : CString
  type : Option TypeKind
  offset : UInt32
  fields : List ASTField
  deriving DecidableEq

structure ASTPeripheral where
  name : CString
  baseAddress : UInt32
  registers : List ASTRegister
  deriving DecidableEq

structure ASTProgram where
  functions : List ASTFunctionDef
  peripherals : List ASTPeripheral

/-! Induction over the trees, with the hypotheses for list members. -/

@[induction_eliminator]
theorem ASTExpr.induction {P : ASTExpr → Prop} (null : P .null) (number : ∀ value, P (.number value))
    (identifier : ∀ name, P (.identifier name)) (string : ∀ value, P (.string value))
    (boolean : ∀ value, P (.boolean value))
    (binaryOp : ∀ op left right, P left → P right → P (.binaryOp op left right))
    (unaryOp : ∀ op operand, P operand → P (.unaryOp op operand))
    (call : ∀ func args, P func → (∀ a ∈ args, P a) → P (.call func args))
    (arrayIndex : ∀ array index, P array → P index → P (.arrayIndex array index))
    (bitSlice : ∀ expr start stop, P expr → P (.bitSlice expr start stop))
    (memberAccess : ∀ object field, P object → P (.memberAccess object field)) (e : ASTExpr) : P e :=
  @ASTExpr.rec P (fun args => ∀ a ∈ args, P a) null number identifier string boolean binaryOp
    unaryOp call arrayIndex bitSlice memberAccess (by simp) (fun _ _ head tail => by simpa using ⟨head, tail⟩) e

@[induction_eliminator]
theorem ASTStmt.induction {P : ASTStmt → Prop} (null : P .null)
    (varDecl : ∀ name type init isMut, P (.varDecl name type init isMut)) (expr : ∀ e, P (.expr e))
    (ret : ∀ value, P (.ret value)) (ifStmt : P .ifStmt) (whileStmt : P .whileStmt)
    (block : ∀ statements, (∀ s ∈ statements, P s) → P (.block statements)) (s : ASTStmt) : P s :=
  @ASTStmt.rec P (fun statements => ∀ s ∈ statements, P s) null varDecl expr ret ifStmt
    whileStmt block (by simp) (fun _ _ head tail => by simpa using ⟨head, tail⟩) s

end BitN

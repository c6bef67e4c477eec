import BitN.AST
import BitN.Lib.Scopes

/-! The declarative type system: which programs are well typed, with no state and no order of
checks. An environment is a list of scopes, innermost first. -/
namespace BitN.Typing

abbrev Binding := CString × TypeKind

abbrev Env := List (Scopes.Scope (Prod.fst : Binding → CString))

def comparisons : List BinaryOp := [.bopEq, .bopNe, .bopLt, .bopGt, .bopLe, .bopGe]

def resultType (op : BinaryOp) (operands : TypeKind) : TypeKind := if op ∈ comparisons then .typeU8 else operands

inductive HasType (named : CString → TypeKind → Prop) : ASTExpr → TypeKind → Prop where
  | number (value) : HasType named (.number value) .typeU32
  | boolean (value) : HasType named (.boolean value) .typeU8
  | identifier {name type} (known : named name type) : HasType named (.identifier name) type
  | unaryOp (op) {operand type} (typed : HasType named operand type) : HasType named (.unaryOp op operand) type
  | binaryOp (op) {left right type} (first : HasType named left type) (second : HasType named right type) :
      HasType named (.binaryOp op left right) (resultType op type)

def named (env : Env) (name : CString) (type : TypeKind) : Prop := Scopes.Denotes env name (name, type)

inductive Statements (expected : TypeKind) : Env → List ASTStmt → Prop where
  | nil {env} : Statements expected env []
  | varDecl {scope next outer name type init isMut statements} (value : HasType (named (scope :: outer)) init type)
      (fresh : scope.Extends (name, type) next) (rest : Statements expected (next :: outer) statements) :
      Statements expected (scope :: outer) (.varDecl name (some type) init isMut :: statements)
  | expr {env e type statements} (typed : HasType (named env) e type) (rest : Statements expected env statements) :
      Statements expected env (.expr e :: statements)
  | ret {env statements} (rest : Statements expected env statements) :
      Statements expected env (.ret .null :: statements)
  | retValue {env value statements} (typed : HasType (named env) value expected)
      (rest : Statements expected env statements) : Statements expected env (.ret value :: statements)
  | block {env inner statements} (body : Statements expected (.empty :: env) inner)
      (rest : Statements expected env statements) : Statements expected env (.block inner :: statements)

theorem statementsVarDecl {expected : TypeKind} {env : Env} {name : CString} {kind : TypeKind} {init : ASTExpr}
    {isMut : Bool} {statements : List ASTStmt} {scope : Scopes.Scope (Prod.fst : Binding → CString)} {outer : Env}
    (current : env = scope :: outer) :
    Statements expected env (.varDecl name (some kind) init isMut :: statements) ↔ HasType (named env) init kind ∧
      ∃ next, scope.Extends (name, kind) next ∧ Statements expected (next :: outer) statements := by
  subst current
  refine ⟨fun typed => ?_, fun ⟨value, next, fresh, rest⟩ => .varDecl value fresh rest⟩
  cases typed with
  | varDecl value fresh rest => exact ⟨value, _, fresh, rest⟩

theorem statementsExpr {expected : TypeKind} {env : Env} {e : ASTExpr} {statements : List ASTStmt} :
    Statements expected env (.expr e :: statements) ↔
      (∃ type, HasType (named env) e type) ∧ Statements expected env statements := by
  refine ⟨fun typed => ?_, fun ⟨⟨type, value⟩, rest⟩ => .expr value rest⟩
  cases typed with
  | expr value rest => exact ⟨⟨_, value⟩, rest⟩

theorem statementsRet {expected : TypeKind} {env : Env} {value : ASTExpr} {statements : List ASTStmt} :
    Statements expected env (.ret value :: statements) ↔
      (value = .null ∨ HasType (named env) value expected) ∧ Statements expected env statements := by
  constructor
  · intro typed
    cases typed with
    | ret rest => exact ⟨.inl rfl, rest⟩
    | retValue value rest => exact ⟨.inr value, rest⟩
  · rintro ⟨rfl | value, rest⟩
    · exact .ret rest
    · exact .retValue value rest

theorem statementsBlock {expected : TypeKind} {env : Env} {inner statements : List ASTStmt} :
    Statements expected env (.block inner :: statements) ↔
      Statements expected (.empty :: env) inner ∧ Statements expected env statements := by
  refine ⟨fun typed => ?_, fun ⟨body, rest⟩ => .block body rest⟩
  cases typed with
  | block body rest => exact ⟨body, rest⟩

def functionTypes (functions : List ASTFunctionDef) : List Binding :=
  functions.filterMap fun func => func.returnType.map fun type => (func.name, type)

theorem functionTypesNames (functions : List ASTFunctionDef) :
    ((functionTypes functions).map Prod.fst).Sublist (functions.map ASTFunctionDef.name) := by
  induction functions with
  | nil => exact .slnil
  | cons func functions ih =>
    rcases typed : func.returnType with _ | type
    · simpa [functionTypes, typed] using ih.cons func.name
    · simpa [functionTypes, typed] using ih.cons_cons func.name

def functionScope (functions : List ASTFunctionDef) (distinct : (functions.map ASTFunctionDef.name).Nodup) :
    Scopes.Scope (Prod.fst : Binding → CString) :=
  ⟨functionTypes functions, distinct.sublist (functionTypesNames functions)⟩

/-- The body is a block, inside the scope of the parameters, which the grammar leaves empty. -/
inductive FunctionTyped (globals : Scopes.Scope (Prod.fst : Binding → CString)) : ASTFunctionDef → Prop where
  | block {name expected statements} (body : Statements expected [.empty, .empty, globals] statements) :
      FunctionTyped globals ⟨name, some expected, [], .block statements⟩

def WellTyped (program : ASTProgram) : Prop :=
  ∃ distinct : (program.functions.map ASTFunctionDef.name).Nodup,
    ∀ func ∈ program.functions, FunctionTyped (functionScope program.functions distinct) func

end BitN.Typing

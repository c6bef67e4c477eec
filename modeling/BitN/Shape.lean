import BitN.Names

/-! The trees the parser builds from the texts it accepts. -/
namespace BitN

inductive ASTExpr.Shaped : ASTExpr → Prop where
  | number (value) : Shaped (.number value)
  | identifier (name) : Shaped (.identifier name)
  | boolean (value) : Shaped (.boolean value)
  | unaryOp (op) {operand} (inner : operand.Shaped) : Shaped (.unaryOp op operand)
  | binaryOp {op left right} (noRotate : op ≠ .bopLrotate ∧ op ≠ .bopRrotate) (first : left.Shaped)
      (second : right.Shaped) : Shaped (.binaryOp op left right)
  | call (name) {args} (each : ∀ a ∈ args, a.Shaped) : Shaped (.call (.identifier name) args)

inductive ASTStmt.Shaped : ASTStmt → Prop where
  | varDecl (name kind isMut) {init} (value : init.Shaped) : Shaped (.varDecl name (some kind) init isMut)
  | expr {e} (value : e.Shaped) : Shaped (.expr e)
  | ret : Shaped (.ret .null)
  | retValue {e} (value : e.Shaped) : Shaped (.ret e)
  | block {statements} (each : ∀ s ∈ statements, s.Shaped) : Shaped (.block statements)

structure ASTFunctionDef.Shaped (func : ASTFunctionDef) : Prop where
  params : func.params = []
  returnType : func.returnType.isSome
  body : func.body.Shaped
  isBlock : ∃ statements, func.body = .block statements

def ASTProgram.Shaped (program : ASTProgram) : Prop := ∀ func ∈ program.functions, func.Shaped

namespace Shape

open ParserDerives Grammar

theorem exprShaped {k : Nat} {piece : Piece ASTExpr} (derived : Expr k piece) : piece.2.Shaped := by
  induction derived with
  | number => exact .number _
  | identifier => exact .identifier _
  | @call name args each ih =>
    refine .call _ fun a member => ?_
    obtain ⟨q, inside, rfl⟩ := List.mem_map.mp member
    exact ih q inside
  | true_ => exact .boolean true
  | false_ => exact .boolean false
  | group inner ih => exact ih
  | unary listed operand ih => exact .unaryOp _ ih
  | binary listed left right left' right' =>
    have table : ∀ row ∈ ladder, ∀ entry ∈ row, entry.2 ≠ .bopLrotate ∧ entry.2 ≠ .bopRrotate := by decide
    exact .binaryOp (table _ (levelRow listed).2 _ listed) left' right'
  | tighter inner ih => exact ih

theorem stmtShaped {piece : Piece ASTStmt} (derived : Stmt piece) : piece.2.Shaped := by
  induction derived with
  | declaration bound typed value ends => exact .varDecl _ _ _ (exprShaped value)
  | ret ends => exact .ret
  | retValue value ends => exact .retValue (exprShaped value)
  | expr value ends => exact .expr (exprShaped value)
  | @block statements each ih =>
    refine .block fun s member => ?_
    obtain ⟨q, inside, rfl⟩ := List.mem_map.mp member
    exact ih q inside

theorem functionShaped {piece : Piece ASTFunctionDef} (derived : Function piece) : piece.2.Shaped := by
  cases derived with
  | function spelled typed inner =>
    cases inner with
    | statement only => exact ⟨rfl, rfl, .block (by simpa using stmtShaped only), _, rfl⟩
    | block inner => exact ⟨rfl, rfl, stmtShaped inner, _, rfl⟩

theorem programShaped {piece : Piece ASTProgram} (derived : Program piece) : piece.2.Shaped := by
  cases derived with
  | @program definitions each =>
    induction definitions with
    | nil => exact nofun
    | cons d ds ih =>
      have tail := ih fun e member => each e (List.mem_cons_of_mem _ member)
      have first := each d List.mem_cons_self
      cases first with
      | @function s func inner =>
        intro f member
        rcases List.mem_cons.mp member with rfl | old
        · exact functionShaped inner
        · exact tail f old
      | peripheral inner => exact tail

theorem parsesShaped {input : Source} {program : ASTProgram} {p : Parser} (parsed : Parses input program p)
    (clear : p.error = false) : program.Shaped := by
  have derived := programShaped (parsesProgram parsed clear id)
  rwa [ASTProgram.renamedId] at derived

end Shape
end BitN

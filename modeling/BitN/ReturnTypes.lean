import BitN.TypeChecker

/-! What the checker knows of the returns of a function it accepts: each was checked, at
whatever depth, against the declared type, but only where it carries a value. -/
namespace BitN

mutual
/-- The values of the returns in a statement, at any depth; null where there is none. -/
def ASTStmt.returnValues : ASTStmt → List ASTExpr
  | .ret value => [value]
  | .block statements => ASTStmt.returnValuesAll statements
  | .null | .varDecl _ _ _ _ | .expr _ | .ifStmt | .whileStmt => []
def ASTStmt.returnValuesAll : List ASTStmt → List ASTExpr
  | [] => []
  | s :: ss => s.returnValues ++ ASTStmt.returnValuesAll ss
end

namespace ReturnTypes

open TypeChecker

theorem returnValuesAllMap (ss : List ASTStmt) : ASTStmt.returnValuesAll ss = ss.flatMap ASTStmt.returnValues := by
  induction ss with
  | nil => rfl
  | cons s ss ih => rw [ASTStmt.returnValuesAll, ih, List.flatMap_cons]

def bodyContext (ctx : TypeContext) (func : ASTFunctionDef) : TypeContext :=
  (checkParameters (typeContextSetFunction { ctx with symbols := symbolTablePushScope ctx.symbols }
    func.name func.returnType) func.params).2

/-- Checking the statement reaches a return with this value in this context. -/
inductive Returns : TypeContext → ASTStmt → TypeContext → ASTExpr → Prop where
  | here {ctx value} : Returns ctx (.ret value) ctx value
  | block {ctx before s after there value}
      (inside : Returns (checkStatements { ctx with symbols := symbolTablePushScope ctx.symbols } before).2 s there value) :
      Returns ctx (.block (before ++ s :: after)) there value

def ReturnsDeclared (ctx : TypeContext) (func : ASTFunctionDef) (declared : TypeKind) : Prop :=
  ∀ there value, Returns (bodyContext ctx func) func.body there value →
    (declared ≠ .typeVoid → value ≠ .null ∧ (inferExprType there value).1 = some declared) ∧
    (declared = .typeVoid → value = .null)

theorem statementsChecked {before after : List ASTStmt} {s : ASTStmt} {ctx : TypeContext}
    (checked : (checkStatements ctx (before ++ s :: after)).1 = true) :
    (checkStmtTypes (checkStatements ctx before).2 s).1 = true := by
  induction before generalizing ctx with
  | nil =>
    unfold checkStatements at checked
    exact (Bool.and_eq_true_iff.mp checked).1
  | cons b before ih =>
    unfold checkStatements at checked ⊢
    exact ih (Bool.and_eq_true_iff.mp checked).2

theorem returnChecked {ctx there : TypeContext} {s : ASTStmt} {value : ASTExpr} (reached : Returns ctx s there value)
    (checked : (checkStmtTypes ctx s).1 = true) :
    (checkReturn there value).1 = true ∧ there.expectedReturnType = ctx.expectedReturnType := by
  induction reached with
  | here =>
    unfold checkStmtTypes at checked
    exact ⟨checked, rfl⟩
  | @block ctx before s after there value inside ih =>
    unfold checkStmtTypes at checked
    obtain ⟨ok, same⟩ := ih (statementsChecked checked)
    have kept := @statementsKept before (fun s _ => stmtKept s) { ctx with symbols := symbolTablePushScope ctx.symbols }
    exact ⟨ok, same.trans kept.expected⟩

theorem returnMember {ctx there : TypeContext} {s : ASTStmt} {value : ASTExpr} (reached : Returns ctx s there value) :
    value ∈ s.returnValues := by
  induction reached with
  | here => simp [ASTStmt.returnValues]
  | block inside ih =>
    rw [ASTStmt.returnValues, returnValuesAllMap, List.flatMap_append, List.flatMap_cons]
    simp [ih]

theorem returnReached {s : ASTStmt} {value : ASTExpr} (member : value ∈ s.returnValues) (ctx : TypeContext) :
    ∃ there, Returns ctx s there value := by
  induction s generalizing ctx with
  | ret other =>
    obtain rfl : value = other := by simpa [ASTStmt.returnValues] using member
    exact ⟨ctx, .here⟩
  | block statements each =>
    rw [ASTStmt.returnValues, returnValuesAllMap] at member
    obtain ⟨s, inside, deeper⟩ := List.mem_flatMap.mp member
    obtain ⟨before, after, rfl⟩ := List.append_of_mem inside
    obtain ⟨there, reached⟩ := each s inside deeper
      (checkStatements { ctx with symbols := symbolTablePushScope ctx.symbols } before).2
    exact ⟨there, .block reached⟩
  | _ => simp [ASTStmt.returnValues] at member

theorem valueInferred {there : TypeContext} {value : ASTExpr} {declared : TypeKind}
    (checked : (checkReturn there value).1 = true) (expected : there.expectedReturnType = some declared)
    (present : value ≠ .null) : (inferExprType there value).1 = some declared := by
  have shown : value.isNull = false := by
    cases value with
    | null => exact absurd rfl present
    | _ => rfl
  unfold checkReturn at checked
  rw [shown] at checked
  rcases whole : inferExprType there value with ⟨_ | type, after⟩
  · simp [whole] at checked
  · obtain rfl := inferKeeps whole
    by_cases same : declared = type
    · rw [same]
    · simp [whole, expected, typeCompatible, typeEqual, same] at checked

theorem bodyChecked {ctx : TypeContext} {func : ASTFunctionDef} (accepted : (checkFunctionTypes ctx func).1 = true) :
    (checkStmtTypes (bodyContext ctx func) func.body).1 = true ∧
      (bodyContext ctx func).expectedReturnType = func.returnType := by
  have kept := parametersKept func.params (typeContextSetFunction
    { ctx with symbols := symbolTablePushScope ctx.symbols } func.name func.returnType)
  refine ⟨?_, kept.expected⟩
  unfold checkFunctionTypes at accepted
  unfold bodyContext
  dsimp only at accepted
  rcases whole : checkParameters (typeContextSetFunction { ctx with symbols := symbolTablePushScope ctx.symbols }
    func.name func.returnType) func.params with ⟨_ | _, entered⟩
  · simp [whole] at accepted
  · rw [whole] at accepted
    exact accepted

theorem returnsDeclared {ctx : TypeContext} {func : ASTFunctionDef} {declared : TypeKind}
    (accepted : (checkFunctionTypes ctx func).1 = true) (typed : func.returnType = some declared) :
    ReturnsDeclared ctx func declared ↔
      ∀ value ∈ func.body.returnValues, (value = .null ↔ declared = .typeVoid) := by
  obtain ⟨checked, expected⟩ := bodyChecked accepted
  constructor
  · intro all value member
    obtain ⟨there, reached⟩ := returnReached member (bodyContext ctx func)
    obtain ⟨valued, bare⟩ := all there value reached
    refine ⟨fun none => ?_, bare⟩
    by_contra other
    exact (valued other).1 none
  · intro condition there value reached
    have known := condition value (returnMember reached)
    obtain ⟨ok, same⟩ := returnChecked reached checked
    refine ⟨fun other => ?_, known.mpr⟩
    have present : value ≠ .null := fun none => other (known.mp none)
    exact ⟨present, valueInferred ok (same.trans (expected.trans typed)) present⟩

-- fn f()->u8{return;}
def bareSource : Source := ⟨"fn f()->u8\x7breturn;\x7d".toList, by decide⟩

def bareFunction : ASTFunctionDef := ⟨"f()->u8\x7breturn;\x7d".toList, some .typeU8, [], .block [.ret .null]⟩

theorem bareAccepted : ∃ p, Parses bareSource ⟨[bareFunction], []⟩ p ∧ p.error = false ∧
    (checkFunctionTypes typeContextCreate bareFunction).1 = true ∧
    ¬ ReturnsDeclared typeContextCreate bareFunction .typeU8 := by
  refine ⟨(parseSource 6 bareSource).2, ⟨6, Prod.ext rfl rfl⟩, by decide +kernel, by decide, fun all => ?_⟩
  have bare : Returns (bodyContext typeContextCreate bareFunction) (.block ([] ++ .ret .null :: [])) _ .null := .block .here
  exact ((all _ _ bare).1 (by decide)).1 rfl

-- fn f()->u32{{return 1;}}
theorem nestedDeclared : ReturnsDeclared typeContextCreate
    ⟨"f".toList, some .typeU32, [], .block [.block [.ret (.number 1)]]⟩ .typeU32 :=
  (returnsDeclared (by decide) rfl).mpr (by simp [ASTStmt.returnValues, ASTStmt.returnValuesAll])

end ReturnTypes
end BitN

import BitN.Names
import BitN.TypeInference

/-! The checker under a change of names: as long as no two names of the program fall together, it
gives the same verdict, and reports the same under the new names. -/
namespace BitN

def Symbol.renamed (θ : CString → CString) (sym : Symbol) : Symbol := { sym with name := θ sym.name }

def Report.renamed (θ : CString → CString) : Report → Report
  | .undefinedVariable name => .undefinedVariable (θ name)
  | .symbolDefined name => .symbolDefined (θ name)
  | .parameterDefined name => .parameterDefined (θ name)
  | .functionDefined name => .functionDefined (θ name)
  | .stringLiteral => .stringLiteral
  | .binaryMismatch left right => .binaryMismatch left right
  | .sliceOperand type => .sliceOperand type
  | .sliceRange start stop => .sliceRange start stop
  | .arrayIndex => .arrayIndex
  | .call => .call
  | .memberAccess => .memberAccess
  | .letUninitialized => .letUninitialized
  | .initializerMismatch declared init => .initializerMismatch declared init
  | .returnMismatch expected result => .returnMismatch expected result

def Report.names : Report → List CString
  | .undefinedVariable name | .symbolDefined name | .parameterDefined name | .functionDefined name => [name]
  | _ => []

namespace Renaming

def rekeying (θ : CString ↪ CString) : Scopes.Rekeying Symbol.name Symbol.name := ⟨θ, Symbol.renamed θ, fun _ => rfl⟩

def table (θ : CString ↪ CString) (symbols : SymbolTable) : SymbolTable :=
  ⟨symbols.inner.map (Scopes.Scope.rekeyed (rekeying θ)), symbols.globalScope.rekeyed (rekeying θ)⟩

def context (θ : CString ↪ CString) (ctx : TypeContext) : TypeContext where
  symbols := table θ ctx.symbols
  errorCount := ctx.errorCount
  currentFunction := ctx.currentFunction.map θ
  expectedReturnType := ctx.expectedReturnType
  reports := ctx.reports.map (Report.renamed θ)

section equivariance
variable (θ : CString ↪ CString)

@[simp] theorem contextSymbols (ctx : TypeContext) : (context θ ctx).symbols = table θ ctx.symbols := rfl

@[simp] theorem contextExpected (ctx : TypeContext) : (context θ ctx).expectedReturnType = ctx.expectedReturnType := rfl

@[simp] theorem contextCount (ctx : TypeContext) : (context θ ctx).errorCount = ctx.errorCount := rfl

theorem tablePop (symbols : SymbolTable) :
    symbolTablePopScope (table θ symbols) = table θ (symbolTablePopScope symbols) := by
  rw [symbolTablePopScope, symbolTablePopScope, table, table, List.map_tail]

theorem tableScopes (symbols : SymbolTable) :
    (table θ symbols).scopes = symbols.scopes.map (Scopes.Scope.rekeyed (rekeying θ)) := by
  rw [SymbolTable.scopes, SymbolTable.scopes, List.map_append, List.map_singleton, table]

theorem tableCurrent (symbols : SymbolTable) :
    (table θ symbols).currentScope = symbols.currentScope.rekeyed (rekeying θ) := by
  rcases symbols with ⟨_ | ⟨scope, outer⟩, globalScope⟩ <;> rfl

theorem tableSetCurrent (symbols : SymbolTable) (scope : Scope) :
    (table θ symbols).setCurrent (scope.rekeyed (rekeying θ)) = table θ (symbols.setCurrent scope) := by
  rcases symbols with ⟨_ | ⟨current, outer⟩, globalScope⟩ <;> rfl

theorem tableLookup (symbols : SymbolTable) (name : CString) :
    symbolTableLookup (table θ symbols) (θ name) = (symbolTableLookup symbols name).map (Symbol.renamed θ) := by
  rw [symbolTableLookup, tableScopes]
  exact Scopes.rekeyedLookup (rekeying θ) symbols.scopes name

theorem tableAdd (symbols : SymbolTable) (name : CString) (type : Option TypeKind)
    (isParam isMutable isInitialized : Bool) :
    symbolTableAddSymbol (table θ symbols) (θ name) type isParam isMutable isInitialized =
      (symbolTableAddSymbol symbols name type isParam isMutable isInitialized).map (table θ) := by
  cases type with
  | none => rfl
  | some type =>
    have declared := Scopes.Scope.rekeyedDeclare (rekeying θ) symbols.currentScope
      ⟨name, type, isParam, isMutable, isInitialized⟩
    rw [symbolTableAddSymbol, symbolTableAddSymbol, tableCurrent, Option.map_map]
    refine (congrArg (Option.map _) declared).trans ?_
    rw [Option.map_map]
    exact congrFun (congrArg Option.map (funext (tableSetCurrent θ symbols))) _

theorem contextPrint (ctx : TypeContext) (report : Report) :
    (context θ ctx).print (report.renamed θ) = context θ (ctx.print report) := by
  simp [TypeContext.print, context]

theorem contextCounted (ctx : TypeContext) : (context θ ctx).count = context θ ctx.count := rfl

theorem contextReport (ctx : TypeContext) (report : Report) :
    (context θ ctx).report (report.renamed θ) = context θ (ctx.report report) := by
  rw [TypeContext.report, contextPrint, contextCounted, TypeContext.report]

theorem nullRenamed (e : ASTExpr) : (e.renamed θ).isNull = e.isNull := by cases e <;> rfl

theorem exprRenamed (ctx : TypeContext) (e : ASTExpr) :
    inferExprType (context θ ctx) (e.renamed θ) = (inferExprType ctx e).map id (context θ) := by
  induction e generalizing ctx with
  | null => rfl
  | number value => rfl
  | boolean value => rfl
  | identifier name =>
    rw [ASTExpr.renamed, inferExprType, inferExprType, contextSymbols, tableLookup]
    cases symbolTableLookup ctx.symbols name with
    | none => exact congrArg (Prod.mk none) (contextReport θ ctx (.undefinedVariable name))
    | some sym => rfl
  | string value => exact congrArg (Prod.mk none) (contextReport θ ctx .stringLiteral)
  | call func args => exact congrArg (Prod.mk none) (contextReport θ ctx .call)
  | arrayIndex array index => exact congrArg (Prod.mk none) (contextReport θ ctx .arrayIndex)
  | memberAccess object field => exact congrArg (Prod.mk none) (contextReport θ ctx .memberAccess)
  | unaryOp op operand ih => exact ih ctx
  | binaryOp op left right left' right' =>
    rw [ASTExpr.renamed, inferExprType, inferExprType, left']
    rcases inferExprType ctx left with ⟨_ | leftType, ctx'⟩
    · rfl
    · simp only [Prod.map_apply, id_eq]
      rw [right']
      rcases inferExprType ctx' right with ⟨_ | rightType, ctx''⟩
      · rfl
      · simp only [Prod.map_apply, id_eq]
        split
        · rfl
        · exact congrArg (Prod.mk none) (contextReport θ ctx'' (.binaryMismatch leftType rightType))
  | bitSlice expr start stop ih =>
    rw [ASTExpr.renamed, inferExprType, inferExprType, ih]
    rcases inferExprType ctx expr with ⟨_ | type, ctx'⟩
    · rfl
    · simp only [Prod.map_apply, id_eq]
      split_ifs
      · exact congrArg (Prod.mk none) (contextReport θ ctx' (.sliceOperand type))
      · exact congrArg (Prod.mk none) (contextReport θ ctx' (.sliceRange start stop))
      all_goals rfl

theorem addRenamed (ctx : TypeContext) (refused : Report) (name : CString) (type : Option TypeKind)
    (isParam isMutable isInitialized : Bool) :
    (context θ ctx).addSymbol (refused.renamed θ) (θ name) type isParam isMutable isInitialized =
      (ctx.addSymbol refused name type isParam isMutable isInitialized).map id (context θ) := by
  rw [TypeContext.addSymbol, TypeContext.addSymbol, contextSymbols, tableAdd]
  cases symbolTableAddSymbol ctx.symbols name type isParam isMutable isInitialized with
  | some symbols => rfl
  | none =>
    cases type with
    | none => exact congrArg (Prod.mk false) (contextReport θ ctx refused)
    | some type =>
      have told := contextPrint θ ctx (.symbolDefined name)
      have counted := contextReport θ (ctx.print (.symbolDefined name)) refused
      rw [← told] at counted
      exact congrArg (Prod.mk false) counted

theorem initializerRenamed (ctx : TypeContext) (type : Option TypeKind) (init : ASTExpr) :
    checkInitializer (context θ ctx) type (init.renamed θ) = (checkInitializer ctx type init).map id (context θ) := by
  rw [checkInitializer, checkInitializer, nullRenamed, exprRenamed]
  split
  · rfl
  · rcases inferExprType ctx init with ⟨_ | initType, ctx'⟩
    · rfl
    · simp only [Prod.map_apply, id_eq]
      split
      · rfl
      · exact congrArg (Prod.mk false) (contextReport θ ctx' (.initializerMismatch type initType))

theorem returnRenamed (ctx : TypeContext) (value : ASTExpr) :
    checkReturn (context θ ctx) (value.renamed θ) = (checkReturn ctx value).map id (context θ) := by
  rw [checkReturn, checkReturn, nullRenamed, exprRenamed]
  split
  · rfl
  · rcases inferExprType ctx value with ⟨_ | type, ctx'⟩
    · rfl
    · simp only [Prod.map_apply, id_eq, contextExpected]
      cases ctx'.expectedReturnType with
      | none => rfl
      | some expected =>
        dsimp only
        split
        · rfl
        · exact congrArg (Prod.mk false) (contextReport θ ctx' (.returnMismatch expected type))

theorem pushRenamed (ctx : TypeContext) :
    { context θ ctx with symbols := symbolTablePushScope (context θ ctx).symbols } =
      context θ { ctx with symbols := symbolTablePushScope ctx.symbols } := rfl

theorem popRenamed (ctx : TypeContext) :
    { context θ ctx with symbols := symbolTablePopScope (context θ ctx).symbols } =
      context θ { ctx with symbols := symbolTablePopScope ctx.symbols } := by
  rw [contextSymbols, tablePop]
  rfl

theorem statementsRenamed {statements : List ASTStmt} (each : ∀ s ∈ statements, ∀ ctx,
    checkStmtTypes (context θ ctx) (s.renamed θ) = (checkStmtTypes ctx s).map id (context θ)) (ctx : TypeContext) :
    checkStatements (context θ ctx) (statements.map (ASTStmt.renamed θ)) =
      (checkStatements ctx statements).map id (context θ) := by
  induction statements generalizing ctx with
  | nil => rfl
  | cons s ss ih =>
    have rest := ih fun s' member => each s' (List.mem_cons_of_mem _ member)
    rw [List.map_cons, checkStatements, checkStatements, each s List.mem_cons_self]
    simp only [Prod.map_snd, Prod.map_fst, rest]
    rfl

theorem stmtRenamed (ctx : TypeContext) (s : ASTStmt) :
    checkStmtTypes (context θ ctx) (s.renamed θ) = (checkStmtTypes ctx s).map id (context θ) := by
  induction s generalizing ctx with
  | null => rfl
  | ifStmt => rfl
  | whileStmt => rfl
  | varDecl name type init isMut =>
    rw [ASTStmt.renamed, checkStmtTypes, checkStmtTypes, nullRenamed, initializerRenamed]
    split
    · exact congrArg (Prod.mk false) (contextReport θ ctx .letUninitialized)
    · rcases checkInitializer ctx type init with ⟨_ | _, ctx'⟩
      · rfl
      · exact addRenamed θ ctx' (.symbolDefined name) name type false isMut (!init.isNull)
  | expr e =>
    rw [ASTStmt.renamed, checkStmtTypes, checkStmtTypes, nullRenamed, exprRenamed]
    split
    · rfl
    · rcases inferExprType ctx e with ⟨_ | type, ctx'⟩ <;> rfl
  | ret value =>
    rw [ASTStmt.renamed, checkStmtTypes, checkStmtTypes]
    exact returnRenamed θ ctx value
  | block statements each =>
    rw [ASTStmt.renamed, checkStmtTypes, checkStmtTypes, ASTStmt.renamedAllMap, pushRenamed, statementsRenamed θ each]
    simp only [Prod.map_snd, Prod.map_fst, popRenamed]
    rfl

theorem parametersRenamed (ctx : TypeContext) (params : List (CString × Option TypeKind)) :
    checkParameters (context θ ctx) (params.map fun p => (θ p.1, p.2)) =
      (checkParameters ctx params).map id (context θ) := by
  induction params generalizing ctx with
  | nil => rfl
  | cons p params ih =>
    obtain ⟨name, type⟩ := p
    have added := addRenamed θ ctx (.parameterDefined name) name type true false true
    rw [Report.renamed] at added
    rw [List.map_cons, checkParameters, checkParameters, added]
    rcases ctx.addSymbol (.parameterDefined name) name type true false true with ⟨_ | _, ctx'⟩
    · rfl
    · exact ih ctx'

theorem functionRenamed (ctx : TypeContext) (func : ASTFunctionDef) :
    checkFunctionTypes (context θ ctx) (func.renamed θ) = (checkFunctionTypes ctx func).map id (context θ) := by
  have entered : typeContextSetFunction { context θ ctx with symbols := symbolTablePushScope (context θ ctx).symbols }
      (θ func.name) func.returnType =
      context θ
        (typeContextSetFunction { ctx with symbols := symbolTablePushScope ctx.symbols } func.name func.returnType) :=
    rfl
  rw [checkFunctionTypes, checkFunctionTypes]
  simp only [ASTFunctionDef.renamed]
  rw [entered, parametersRenamed]
  rcases checkParameters (typeContextSetFunction { ctx with symbols := symbolTablePushScope ctx.symbols } func.name
    func.returnType) func.params with ⟨_ | _, ctx'⟩
  · simp only [Prod.map_apply, id_eq, popRenamed]
  · simp only [Prod.map_apply, id_eq, stmtRenamed, Prod.map_snd, Prod.map_fst, popRenamed]

theorem registeredRenamed (ctx : TypeContext) (functions : List ASTFunctionDef) :
    registerFunctions (context θ ctx) (functions.map (ASTFunctionDef.renamed θ)) =
      (registerFunctions ctx functions).map id (context θ) := by
  induction functions generalizing ctx with
  | nil => rfl
  | cons func functions ih =>
    have added := addRenamed θ ctx (.functionDefined func.name) func.name func.returnType false false true
    rw [Report.renamed] at added
    rw [List.map_cons, registerFunctions, registerFunctions]
    simp only [ASTFunctionDef.renamed] at ih ⊢
    simp only [added, Prod.map_snd, Prod.map_fst, ih]
    rfl

theorem functionsRenamed (ctx : TypeContext) (functions : List ASTFunctionDef) :
    checkFunctions (context θ ctx) (functions.map (ASTFunctionDef.renamed θ)) =
      (checkFunctions ctx functions).map id (context θ) := by
  induction functions generalizing ctx with
  | nil => rfl
  | cons func functions ih =>
    rw [List.map_cons, checkFunctions, checkFunctions]
    simp only [functionRenamed, Prod.map_snd, Prod.map_fst, ih]
    rfl

/-- The checker does not look into names: it only compares them. -/
theorem programRenamed (ctx : TypeContext) (program : ASTProgram) :
    checkProgramTypes (context θ ctx) (program.renamed θ) = (checkProgramTypes ctx program).map id (context θ) := by
  rw [checkProgramTypes, checkProgramTypes]
  simp only [ASTProgram.renamed, registeredRenamed, functionsRenamed, Prod.map_snd, Prod.map_fst, contextCount]
  rfl

end equivariance

/-! Renamings that agree on the names of a tree -/

section agreement
variable {θ θ' : CString → CString}

theorem mapAgrees {α : Type} {names : α → List CString} {renamed renamed' : α → α} {items : List α}
    (each : ∀ a ∈ items, (∀ name ∈ names a, θ name = θ' name) → renamed a = renamed' a)
    (agree : ∀ name ∈ (items.map names).flatten, θ name = θ' name) : items.map renamed = items.map renamed' :=
  List.map_congr_left fun a member => each a member fun name inside =>
    agree name (List.mem_flatten.mpr ⟨_, List.mem_map_of_mem member, inside⟩)

theorem exprAgrees {e : ASTExpr} (agree : ∀ name ∈ e.names, θ name = θ' name) : e.renamed θ = e.renamed θ' := by
  induction e with
  | call func args func' args' =>
    rw [ASTExpr.names, List.forall_mem_append, ASTExpr.namesAllMap] at agree
    rw [ASTExpr.renamed, ASTExpr.renamed, func' agree.1, ASTExpr.renamedAllMap, ASTExpr.renamedAllMap,
      mapAgrees args' agree.2]
  | _ => simp_all [ASTExpr.renamed, ASTExpr.names]

theorem stmtAgrees {s : ASTStmt} (agree : ∀ name ∈ s.names, θ name = θ' name) : s.renamed θ = s.renamed θ' := by
  induction s with
  | block statements each =>
    rw [ASTStmt.names, ASTStmt.namesAllMap] at agree
    rw [ASTStmt.renamed, ASTStmt.renamed, ASTStmt.renamedAllMap, ASTStmt.renamedAllMap, mapAgrees each agree]
  | varDecl name type init isMut =>
    rw [ASTStmt.names, List.forall_mem_cons] at agree
    rw [ASTStmt.renamed, ASTStmt.renamed, agree.1, exprAgrees agree.2]
  | expr e => rw [ASTStmt.renamed, ASTStmt.renamed, exprAgrees agree]
  | ret value => rw [ASTStmt.renamed, ASTStmt.renamed, exprAgrees agree]
  | null => rfl
  | ifStmt => rfl
  | whileStmt => rfl

theorem functionAgrees {func : ASTFunctionDef} (agree : ∀ name ∈ func.names, θ name = θ' name) :
    func.renamed θ = func.renamed θ' := by
  rw [ASTFunctionDef.names, List.forall_mem_cons, List.forall_mem_append] at agree
  have params : func.params.map (fun p => (θ p.1, p.2)) = func.params.map fun p => (θ' p.1, p.2) :=
    List.map_congr_left fun p member => by rw [agree.2.1 p.1 (List.mem_map_of_mem member)]
  rw [ASTFunctionDef.renamed, ASTFunctionDef.renamed, agree.1, params, stmtAgrees agree.2.2]

end agreement

/-- The names in the functions; those of the devices the checker does not look at. -/
def checkedNames (program : ASTProgram) : List CString := (program.functions.map ASTFunctionDef.names).flatten

theorem checksAgree {program : ASTProgram} {θ θ' : CString → CString} (ctx : TypeContext)
    (agree : ∀ name ∈ checkedNames program, θ name = θ' name) :
    checkProgramTypes ctx (program.renamed θ) = checkProgramTypes ctx (program.renamed θ') := by
  have functions :
      program.functions.map (ASTFunctionDef.renamed θ) = program.functions.map (ASTFunctionDef.renamed θ') :=
    mapAgrees (fun _ _ => functionAgrees) agree
  rw [checkProgramTypes, checkProgramTypes]
  simp only [ASTProgram.renamed, functions]
  rfl

/-! Renamings that keep the names of the program apart -/

def Apart (θ : CString → CString) (names : List CString) : Prop := ∀ m ∈ names, ∀ n ∈ names, θ m = θ n → m = n

/-- All other names are put out of the way of the new ones: they get longer than any of these. -/
def outOfTheWay (θ : CString → CString) (names : List CString) (name : CString) : CString :=
  if names.contains name then θ name else List.replicate ((names.flatMap θ).length + 1) ' ' ++ name

theorem stays {θ : CString → CString} {names : List CString} {name : CString} (member : name ∈ names) :
    outOfTheWay θ names name = θ name := if_pos (List.contains_iff_mem.mpr member)

theorem putAway {θ : CString → CString} {names : List CString} {name : CString} (foreign : name ∉ names) :
    outOfTheWay θ names name = List.replicate ((names.flatMap θ).length + 1) ' ' ++ name :=
  if_neg fun listed => foreign (List.contains_iff_mem.mp listed)

theorem outOfTheWayInjective {θ : CString → CString} {names : List CString} (apart : Apart θ names) :
    Function.Injective (outOfTheWay θ names) := by
  have longer : ∀ m ∈ names, ∀ n, θ m ≠ List.replicate ((names.flatMap θ).length + 1) ' ' ++ n := by
    intro m member n same
    have below : (θ m).length ≤ (names.flatMap θ).length :=
      (List.sublist_flatten_of_mem (List.mem_map_of_mem member)).length_le
    have width := congrArg List.length same
    rw [List.length_append, List.length_replicate] at width
    omega
  intro m n same
  by_cases here : m ∈ names <;> by_cases there : n ∈ names
  · rw [stays here, stays there] at same
    exact apart m here n there same
  · rw [stays here, putAway there] at same
    exact absurd same (longer m here n)
  · rw [putAway here, stays there] at same
    exact absurd same.symm (longer n there m)
  · rw [putAway here, putAway there] at same
    exact List.append_cancel_left same

def extended (θ : CString → CString) (names : List CString) (apart : Apart θ names) : CString ↪ CString :=
  ⟨outOfTheWay θ names, outOfTheWayInjective apart⟩

theorem contextCreated (θ : CString ↪ CString) : context θ typeContextCreate = typeContextCreate := rfl

theorem reportAgrees {θ θ' : CString → CString} {report : Report} :
    report.renamed θ = report.renamed θ' ↔ ∀ name ∈ report.names, θ name = θ' name := by
  cases report <;> simp [Report.renamed, Report.names]

theorem reportRenamedId (report : Report) : report.renamed id = report := by cases report <;> rfl

/-- A name that is not in the program is in no report: moved out of the way, it would change the report
and leave the program as it is. -/
theorem reportsKnown (program : ASTProgram) : ∀ report ∈ (checkProgramTypes typeContextCreate program).2.reports,
    ∀ name ∈ Report.names report, name ∈ checkedNames program := by
  have apart : Apart id (checkedNames program) := fun _ _ _ _ => id
  let θ := extended id (checkedNames program) apart
  have agree : ∀ name ∈ checkedNames program, θ name = id name := fun name member => stays member
  have still :
      checkProgramTypes typeContextCreate (program.renamed θ) = checkProgramTypes typeContextCreate program := by
    rw [checksAgree typeContextCreate agree, ASTProgram.renamedId]
  have moved := programRenamed θ typeContextCreate program
  rw [contextCreated, still] at moved
  have reports := congrArg (fun result => result.2.reports) moved
  intro report member name inside
  have kept := List.map_inj_left.mp (reports.symm.trans (List.map_id _).symm) report member
  have away : θ name = id name := reportAgrees.mp (kept.trans (reportRenamedId report).symm) name inside
  by_contra foreign
  have longer := congrArg List.length away
  rw [show θ name = _ from putAway foreign, id_eq, List.length_append, List.length_replicate] at longer
  omega

theorem renamingIrrelevant {program : ASTProgram} {θ : CString → CString} (apart : Apart θ (checkedNames program)) :
    (checkProgramTypes typeContextCreate (program.renamed θ)).1 = (checkProgramTypes typeContextCreate program).1 ∧
    (checkProgramTypes typeContextCreate (program.renamed θ)).2.errorCount =
      (checkProgramTypes typeContextCreate program).2.errorCount ∧
    (checkProgramTypes typeContextCreate (program.renamed θ)).2.reports =
      (checkProgramTypes typeContextCreate program).2.reports.map (Report.renamed θ) := by
  have agree : ∀ name ∈ checkedNames program, θ name = extended θ (checkedNames program) apart name :=
    fun name member => (stays member).symm
  have moved := programRenamed (extended θ (checkedNames program) apart) typeContextCreate program
  rw [contextCreated, ← checksAgree _ agree] at moved
  rw [moved]
  refine ⟨rfl, rfl, List.map_congr_left fun report member => ?_⟩
  exact reportAgrees.mpr fun name inside => (agree name (reportsKnown program report member name inside)).symm

/-- A function and a local that hides it, and a use before the declaration. -/
def hidden : ASTProgram :=
  ⟨[⟨"first".toList, some .typeU8, [], .block [.expr (.identifier "second".toList),
    .varDecl "first".toList (some .typeU8) (.identifier "first".toList) false]⟩], []⟩

theorem hiddenRenamed :
    (checkProgramTypes typeContextCreate (hidden.renamed (List.take 1))).1 =
      (checkProgramTypes typeContextCreate hidden).1 ∧
    (checkProgramTypes typeContextCreate (hidden.renamed (List.take 1))).2.errorCount =
      (checkProgramTypes typeContextCreate hidden).2.errorCount ∧
    (checkProgramTypes typeContextCreate (hidden.renamed (List.take 1))).2.reports =
      (checkProgramTypes typeContextCreate hidden).2.reports.map (Report.renamed (List.take 1)) :=
  renamingIrrelevant (by unfold Apart; decide)

/-! Trees that differ in their names only -/

section respelled
variable {θ ρ : CString → CString}

theorem mapNames {α : Type} {names : α → List CString} {renamed : α → α} {items : List α}
    (each : ∀ a ∈ items, names (renamed a) = (names a).map θ) :
    ((items.map renamed).map names).flatten = ((items.map names).flatten).map θ := by
  rw [List.map_flatten, List.map_map, List.map_map]
  exact congrArg List.flatten (List.map_congr_left each)

theorem exprNames (e : ASTExpr) : (e.renamed θ).names = e.names.map θ := by
  induction e with
  | call func args func' args' =>
    rw [ASTExpr.renamed, ASTExpr.renamedAllMap, ASTExpr.names, ASTExpr.names, List.map_append, func',
      ASTExpr.namesAllMap, ASTExpr.namesAllMap, mapNames args']
  | _ => simp_all [ASTExpr.renamed, ASTExpr.names]

theorem stmtNames (s : ASTStmt) : (s.renamed θ).names = s.names.map θ := by
  induction s with
  | block statements each =>
    rw [ASTStmt.renamed, ASTStmt.renamedAllMap, ASTStmt.names, ASTStmt.names, ASTStmt.namesAllMap, ASTStmt.namesAllMap,
      mapNames each]
  | _ => simp [ASTStmt.renamed, ASTStmt.names, exprNames]

theorem functionNames (func : ASTFunctionDef) : (func.renamed θ).names = func.names.map θ := by
  simp [ASTFunctionDef.names, ASTFunctionDef.renamed, stmtNames, List.map_map, Function.comp_def]

/-- The parts of two lists, where their fronts are as long. -/
theorem namesSplit {front back front' back' : List CString} (wide : front.length = front'.length)
    (same : (front ++ back).map ρ = front' ++ back') : front.map ρ = front' ∧ back.map ρ = back' := by
  rw [List.map_append] at same
  exact List.append_inj same (by rw [List.length_map, wide])

theorem mapRespelled {α : Type} {names : α → List CString} (renamed : (CString → CString) → α → α)
    (kept : ∀ a, names (renamed θ a) = (names a).map θ) {items items' : List α}
    (each : ∀ a ∈ items, ∀ a', renamed θ a = renamed θ a' → (names a).map ρ = names a' → renamed ρ a = a')
    (same : items.map (renamed θ) = items'.map (renamed θ))
    (spelled : ((items.map names).flatten).map ρ = (items'.map names).flatten) : items.map (renamed ρ) = items' := by
  induction items generalizing items' with
  | nil => exact (List.map_eq_nil_iff.mp same.symm).symm
  | cons a items ih =>
    obtain ⟨a', items', rfl, first, rest⟩ := List.map_eq_cons_iff.mp same.symm
    have wide : (names a).length = (names a').length := by
      have width := congrArg (fun b => (names b).length) first
      simpa only [kept, List.length_map] using width.symm
    rw [List.map_cons, List.map_cons, List.flatten_cons, List.flatten_cons] at spelled
    obtain ⟨here, later⟩ := namesSplit wide spelled
    rw [List.map_cons, each a List.mem_cons_self a' first.symm here,
      ih (fun b member => each b (List.mem_cons_of_mem _ member)) rest.symm later]

theorem exprWide {e e' : ASTExpr} (same : e.renamed θ = e'.renamed θ) : e.names.length = e'.names.length := by
  have width := congrArg (fun e => e.names.length) same
  simpa only [exprNames, List.length_map] using width

theorem exprRespelled {e e' : ASTExpr} (same : e.renamed θ = e'.renamed θ) (spelled : e.names.map ρ = e'.names) :
    e.renamed ρ = e' := by
  induction e generalizing e' with
  | call func args func' args' =>
    cases e' <;> simp only [ASTExpr.renamed, reduceCtorEq, ASTExpr.call.injEq] at same
    rename_i g args''
    rw [ASTExpr.names, ASTExpr.names, ASTExpr.namesAllMap, ASTExpr.namesAllMap] at spelled
    obtain ⟨here, later⟩ := namesSplit (exprWide same.1) spelled
    rw [ASTExpr.renamedAllMap, ASTExpr.renamedAllMap] at same
    rw [ASTExpr.renamed, func' same.1 here, ASTExpr.renamedAllMap,
      mapRespelled ASTExpr.renamed exprNames (fun a member a' => args' a member) same.2 later]
  | binaryOp op left right left' right' =>
    cases e' <;> simp only [ASTExpr.renamed, reduceCtorEq, ASTExpr.binaryOp.injEq] at same
    obtain ⟨rfl, first, second⟩ := same
    obtain ⟨here, later⟩ := namesSplit (exprWide first) spelled
    rw [ASTExpr.renamed, left' first here, right' second later]
  | arrayIndex array index array' index' =>
    cases e' <;> simp only [ASTExpr.renamed, reduceCtorEq, ASTExpr.arrayIndex.injEq] at same
    obtain ⟨here, later⟩ := namesSplit (exprWide same.1) spelled
    rw [ASTExpr.renamed, array' same.1 here, index' same.2 later]
  | memberAccess object field object' =>
    cases e' <;> simp only [ASTExpr.renamed, reduceCtorEq, ASTExpr.memberAccess.injEq] at same
    obtain ⟨here, later⟩ := namesSplit (exprWide same.1) spelled
    rw [ASTExpr.renamed, object' same.1 here]
    simpa using later
  | unaryOp op operand ih =>
    cases e' <;> simp only [ASTExpr.renamed, reduceCtorEq, ASTExpr.unaryOp.injEq] at same
    rw [ASTExpr.renamed, same.1, ih same.2 spelled]
  | bitSlice expr start stop ih =>
    cases e' <;> simp only [ASTExpr.renamed, reduceCtorEq, ASTExpr.bitSlice.injEq] at same
    rw [ASTExpr.renamed, same.2.1, same.2.2, ih same.1 spelled]
  | _ => cases e' <;> simp_all [ASTExpr.renamed, ASTExpr.names]

theorem stmtRespelled {s s' : ASTStmt} (same : s.renamed θ = s'.renamed θ) (spelled : s.names.map ρ = s'.names) :
    s.renamed ρ = s' := by
  induction s generalizing s' with
  | block statements each =>
    cases s' <;> simp only [ASTStmt.renamed, reduceCtorEq, ASTStmt.block.injEq] at same
    rw [ASTStmt.names, ASTStmt.names, ASTStmt.namesAllMap, ASTStmt.namesAllMap] at spelled
    rw [ASTStmt.renamedAllMap, ASTStmt.renamedAllMap] at same
    rw [ASTStmt.renamed, ASTStmt.renamedAllMap,
      mapRespelled ASTStmt.renamed stmtNames (fun s member s' => each s member) same spelled]
  | varDecl name type init isMut =>
    cases s' <;> simp only [ASTStmt.renamed, reduceCtorEq, ASTStmt.varDecl.injEq] at same
    obtain ⟨-, rfl, value, rfl⟩ := same
    rw [ASTStmt.names, ASTStmt.names, List.map_cons, List.cons.injEq] at spelled
    rw [ASTStmt.renamed, spelled.1, exprRespelled value spelled.2]
  | expr e =>
    cases s' <;> simp only [ASTStmt.renamed, reduceCtorEq, ASTStmt.expr.injEq] at same
    rw [ASTStmt.renamed, exprRespelled same spelled]
  | ret value =>
    cases s' <;> simp only [ASTStmt.renamed, reduceCtorEq, ASTStmt.ret.injEq] at same
    rw [ASTStmt.renamed, exprRespelled same spelled]
  | _ => cases s' <;> simp_all [ASTStmt.renamed]

theorem functionRespelled {func func' : ASTFunctionDef} (same : func.renamed θ = func'.renamed θ)
    (spelled : func.names.map ρ = func'.names) : func.renamed ρ = func' := by
  obtain ⟨name, returnType, params, body⟩ := func
  obtain ⟨name', returnType', params', body'⟩ := func'
  simp only [ASTFunctionDef.renamed, ASTFunctionDef.mk.injEq] at same
  obtain ⟨-, rfl, listed, inner⟩ := same
  rw [ASTFunctionDef.names, ASTFunctionDef.names, List.map_cons, List.cons.injEq] at spelled
  have wide : (params.map Prod.fst).length = (params'.map Prod.fst).length := by
    simpa using congrArg List.length listed
  obtain ⟨here, later⟩ := namesSplit wide spelled.2
  have types : params.map Prod.snd = params'.map Prod.snd := by
    simpa [List.map_map, Function.comp_def] using congrArg (List.map Prod.snd) listed
  have respelled : params.map (fun p => (ρ p.1, p.2)) = params' := by
    refine (List.zip_of_prod ?_ ?_).trans (List.zip_of_prod rfl rfl).symm
    · rw [← here, List.map_map, List.map_map]
      rfl
    · rw [← types, List.map_map]
      rfl
  simp only [ASTFunctionDef.renamed, spelled.1, respelled, stmtRespelled inner later]

theorem programRespelled {program program' : ASTProgram} (same : program.renamed θ = program'.renamed θ)
    (spelled : (checkedNames program).map ρ = checkedNames program') :
    program.functions.map (ASTFunctionDef.renamed ρ) = program'.functions :=
  mapRespelled ASTFunctionDef.renamed functionNames (fun _ _ _ => functionRespelled)
    (congrArg ASTProgram.functions same) spelled

end respelled

theorem checkedNamesMap (θ : CString → CString) (program : ASTProgram) :
    checkedNames (program.renamed θ) = (checkedNames program).map θ :=
  mapNames fun func _ => functionNames func

/-- Names that are all different can be replaced by others that are. -/
theorem respelling {names names' : List CString} (distinct : names.Nodup) (distinct' : names'.Nodup)
    (wide : names.length = names'.length) : ∃ ρ, names.map ρ = names' ∧ Apart ρ names := by
  have spelled : names.map (fun name => names'.getD (names.idxOf name) name) = names' := by
    refine List.ext_getElem (by rw [List.length_map, wide]) fun i here there => ?_
    rw [List.length_map] at here
    rw [List.getElem_map, distinct.idxOf_getElem i here]
    simp [there]
  refine ⟨_, spelled, fun m member n member' => ?_⟩
  exact List.inj_on_of_nodup_map (spelled ▸ distinct') member member'

/-- Two programs that agree under `θ`, each of whose names is one string only, are checked alike. -/
theorem checkedAlike {program program' : ASTProgram} {θ : CString → CString}
    (same : program.renamed θ = program'.renamed θ) (distinct : (checkedNames program).Nodup)
    (distinct' : (checkedNames program').Nodup) :
    (checkProgramTypes typeContextCreate program').1 = (checkProgramTypes typeContextCreate program).1 ∧
    (checkProgramTypes typeContextCreate program').2.errorCount =
      (checkProgramTypes typeContextCreate program).2.errorCount ∧
    (checkProgramTypes typeContextCreate program').2.reports.map (Report.renamed θ) =
      (checkProgramTypes typeContextCreate program).2.reports.map (Report.renamed θ) := by
  have names := congrArg checkedNames same
  rw [checkedNamesMap, checkedNamesMap] at names
  obtain ⟨ρ, spelled, apart⟩ := respelling distinct distinct' (by simpa using congrArg List.length names)
  have again :
      checkProgramTypes typeContextCreate (program.renamed ρ) = checkProgramTypes typeContextCreate program' := by
    rw [checkProgramTypes, checkProgramTypes]
    simp only [ASTProgram.renamed, programRespelled same spelled]
  obtain ⟨verdict, count, reports⟩ := renamingIrrelevant apart
  rw [again] at verdict count reports
  refine ⟨verdict, count, ?_⟩
  have kept : ∀ name ∈ checkedNames program, θ (ρ name) = θ name := by
    rw [← spelled, List.map_map] at names
    exact fun name member => (List.map_inj_left.mp names name member).symm
  rw [reports, List.map_map]
  refine List.map_congr_left fun report member => ?_
  have twice : (report.renamed ρ).renamed θ = report.renamed (θ ∘ ρ) := by cases report <;> rfl
  rw [Function.comp_apply, twice, reportAgrees]
  exact fun name inside => kept name (reportsKnown program report member name inside)

end Renaming
end BitN

import BitN.Shape
import BitN.TypeInference
import BitN.Typing

/-! The checker accepts a program exactly when it is well typed. What one statement does to the
context is said once (`Kept`), and the rules are read off the checker's branches. -/
namespace BitN.TypeChecker

open Typing

/-! The environment of a symbol table -/

def binding (sym : Symbol) : Binding := (sym.name, sym.type)

theorem bindingNamed (sym : Symbol) : (binding sym).1 = sym.name := rfl

def bindings : Scope → Scopes.Scope (Prod.fst : Binding → CString) := Scopes.Scope.map binding bindingNamed

def environment (table : SymbolTable) : Env := table.scopes.map bindings

theorem environmentPushed (table : SymbolTable) :
    environment (symbolTablePushScope table) = .empty :: environment table := rfl

theorem bindingsExtends {scope : Scope} {sym : Symbol} {next : Scopes.Scope (Prod.fst : Binding → CString)} :
    (bindings scope).Extends (binding sym) next ↔ ∃ grown, scope.declare sym = some grown ∧ bindings grown = next := by
  simp only [Scopes.Scope.declareExtends]
  exact Scopes.Scope.mapExtends

theorem lookupTyped {table : SymbolTable} {name : CString} {type : TypeKind} :
    (symbolTableLookup table name).map Symbol.type = some type ↔
      named (environment table) name type := by
  rw [Option.map_eq_some_iff, named, environment, bindings, Scopes.denotesMap]
  constructor
  · rintro ⟨sym, found, rfl⟩
    have denotes := Scopes.lookupDenotes.mp found
    exact ⟨sym, denotes, by rw [binding, denotes.named]⟩
  · rintro ⟨sym, denotes, same⟩
    exact ⟨sym, Scopes.lookupDenotes.mpr denotes, congrArg Prod.snd same⟩

/-! Expressions -/

theorem inferIdentifier (ctx : TypeContext) (name : CString) :
    (inferExprType ctx (.identifier name)).1 = (symbolTableLookup ctx.symbols name).map Symbol.type := by
  rw [inferExprType]
  cases symbolTableLookup ctx.symbols name <;> rfl

theorem inferKeeps {e : ASTExpr} {type : TypeKind} {ctx after : TypeContext}
    (inferred : inferExprType ctx e = (some type, after)) : after = ctx := by
  induction e generalizing type ctx after with
  | null => simp [inferExprType] at inferred
  | number value =>
    rw [inferExprType] at inferred
    exact (congrArg Prod.snd inferred).symm
  | boolean value =>
    rw [inferExprType] at inferred
    exact (congrArg Prod.snd inferred).symm
  | identifier name =>
    rw [inferExprType] at inferred
    split at inferred
    · simp at inferred
    · exact (congrArg Prod.snd inferred).symm
  | string value => simp [inferExprType] at inferred
  | unaryOp op operand ih => exact ih inferred
  | binaryOp op left right left' right' =>
    rw [inferExprType] at inferred
    rcases first : inferExprType ctx left with ⟨_ | leftType, between⟩
    · simp [first] at inferred
    obtain rfl := left' first
    rcases second : inferExprType between right with ⟨_ | rightType, after'⟩
    · simp [first, second] at inferred
    obtain rfl := right' second
    simp only [first, second] at inferred
    split at inferred
    · exact (congrArg Prod.snd inferred).symm
    · simp at inferred
  | bitSlice e start stop ih =>
    rw [inferExprType] at inferred
    rcases sliced : inferExprType ctx e with ⟨_ | operand, between⟩
    · simp [sliced] at inferred
    obtain rfl := ih sliced
    simp only [sliced] at inferred
    split_ifs at inferred <;> simp_all
  | arrayIndex array index _ _ => simp [inferExprType] at inferred
  | call func args _ _ => simp [inferExprType] at inferred
  | memberAccess object field _ => simp [inferExprType] at inferred

theorem inferSome {e : ASTExpr} {type : TypeKind} {ctx : TypeContext} (inferred : (inferExprType ctx e).1 = some type) :
    inferExprType ctx e = (some type, ctx) := by
  rcases whole : inferExprType ctx e with ⟨found, after⟩
  obtain rfl : found = some type := by rw [← inferred, whole]
  rw [inferKeeps whole]

theorem inferBinaryOp {op : BinaryOp} (type : TypeKind) : inferBinaryOpType op type = resultType op type := by
  cases op <;> rfl

theorem inferTyped {e : ASTExpr} {type : TypeKind} {ctx : TypeContext} (shaped : e.Shaped) :
    (inferExprType ctx e).1 = some type ↔ HasType (named (environment ctx.symbols)) e type := by
  induction shaped generalizing type with
  | number value =>
    rw [inferExprType, Option.some_inj]
    refine ⟨fun same => same ▸ .number value, fun typed => ?_⟩
    cases typed
    rfl
  | boolean value =>
    rw [inferExprType, Option.some_inj]
    refine ⟨fun same => same ▸ .boolean value, fun typed => ?_⟩
    cases typed
    rfl
  | identifier name =>
    rw [inferIdentifier, lookupTyped]
    refine ⟨.identifier, fun typed => ?_⟩
    cases typed with
    | identifier known => exact known
  | unaryOp op inner ih =>
    rw [inferExprType, ih]
    refine ⟨.unaryOp op, fun typed => ?_⟩
    cases typed with
    | unaryOp op typed => exact typed
  | @binaryOp op left right noRotate first second left' right' =>
    constructor
    · intro inferred
      rw [inferExprType] at inferred
      rcases leftIs : inferExprType ctx left with ⟨_ | leftType, between⟩
      · simp [leftIs] at inferred
      obtain rfl := inferKeeps leftIs
      rcases rightIs : inferExprType between right with ⟨_ | rightType, after⟩
      · simp [leftIs, rightIs] at inferred
      simp only [leftIs, rightIs] at inferred
      split at inferred
      · rename_i equal
        obtain rfl : leftType = rightType := by simpa [typeCompatible, typeEqual] using equal
        obtain rfl : inferBinaryOpType op leftType = type := Option.some_inj.mp inferred
        rw [inferBinaryOp]
        exact .binaryOp op (left'.mp (by rw [leftIs])) (right'.mp (by rw [rightIs]))
      · simp at inferred
    · intro typed
      cases typed with
      | @binaryOp _ _ _ operands first second =>
        have leftIs := inferSome (left'.mpr first)
        have rightIs := inferSome (right'.mpr second)
        simp [inferExprType, leftIs, rightIs, typeCompatible, typeEqual, inferBinaryOp]
  | call name each _ =>
    rw [inferExprType]
    refine ⟨fun failed => by simp at failed, fun typed => ?_⟩
    cases typed

/-! Statements -/

structure Kept (ctx after : TypeContext) : Prop where
  symbols : ∃ scope, after.symbols = ctx.symbols.setCurrent scope
  expected : after.expectedReturnType = ctx.expectedReturnType

theorem keptSame {ctx after : TypeContext} (symbols : after.symbols = ctx.symbols)
    (expected : after.expectedReturnType = ctx.expectedReturnType) : Kept ctx after :=
  ⟨⟨ctx.symbols.currentScope, by rw [symbols, setCurrentSame]⟩, expected⟩

theorem Kept.trans {ctx between after : TypeContext} (first : Kept ctx between) (second : Kept between after) :
    Kept ctx after := by
  obtain ⟨scope, between'⟩ := first.symbols
  obtain ⟨scope', after'⟩ := second.symbols
  exact ⟨⟨scope', by rw [after', between', setCurrentTwice]⟩, second.expected.trans first.expected⟩

theorem inferSymbols (e : ASTExpr) (ctx : TypeContext) : (inferExprType ctx e).2.symbols = ctx.symbols ∧
    (inferExprType ctx e).2.expectedReturnType = ctx.expectedReturnType := by
  induction e generalizing ctx with
  | null => exact ⟨rfl, rfl⟩
  | number value => exact ⟨rfl, rfl⟩
  | boolean value => exact ⟨rfl, rfl⟩
  | string value => exact ⟨rfl, rfl⟩
  | identifier name =>
    rw [inferExprType]
    cases symbolTableLookup ctx.symbols name <;> exact ⟨rfl, rfl⟩
  | unaryOp op operand ih => exact ih ctx
  | binaryOp op left right left' right' =>
    have first := left' ctx
    have second := right' (inferExprType ctx left).2
    rw [inferExprType]
    rcases leftIs : inferExprType ctx left with ⟨_ | leftType, between⟩
    · simpa [leftIs] using first
    rcases rightIs : inferExprType between right with ⟨_ | rightType, after⟩
    · simp only [leftIs, rightIs] at first second ⊢
      exact ⟨second.1.trans first.1, second.2.trans first.2⟩
    · simp only [leftIs, rightIs] at first second ⊢
      split <;> exact ⟨second.1.trans first.1, second.2.trans first.2⟩
  | bitSlice e start stop ih =>
    have sliced := ih ctx
    rw [inferExprType]
    rcases whole : inferExprType ctx e with ⟨_ | operand, between⟩
    · simpa [whole] using sliced
    · simp only [whole] at sliced ⊢
      split_ifs <;> exact sliced
  | arrayIndex array index _ _ => exact ⟨rfl, rfl⟩
  | call func args _ _ => exact ⟨rfl, rfl⟩
  | memberAccess object field _ => exact ⟨rfl, rfl⟩

theorem addSymbolKept {ctx : TypeContext} (refused : Report) (name : CString) (type : Option TypeKind)
    (isParam isMutable isInitialized : Bool) :
    Kept ctx (ctx.addSymbol refused name type isParam isMutable isInitialized).2 := by
  rw [TypeContext.addSymbol]
  rcases added : symbolTableAddSymbol ctx.symbols name type isParam isMutable isInitialized with _ | symbols
  · cases type <;> exact keptSame rfl rfl
  · cases type with
    | none => cases added
    | some kind =>
      obtain ⟨scope, -, rfl⟩ := Option.map_eq_some_iff.mp added
      exact ⟨⟨scope, rfl⟩, rfl⟩

theorem initializerSymbols (ctx : TypeContext) (type : Option TypeKind) (init : ASTExpr) :
    (checkInitializer ctx type init).2.symbols = ctx.symbols ∧
      (checkInitializer ctx type init).2.expectedReturnType = ctx.expectedReturnType := by
  have kept := inferSymbols init ctx
  rw [checkInitializer]
  split
  · exact ⟨rfl, rfl⟩
  · rcases whole : inferExprType ctx init with ⟨_ | initType, after⟩ <;> simp only [whole] at kept ⊢
    · exact kept
    · split <;> exact kept

theorem returnSymbols (ctx : TypeContext) (value : ASTExpr) : (checkReturn ctx value).2.symbols = ctx.symbols ∧
    (checkReturn ctx value).2.expectedReturnType = ctx.expectedReturnType := by
  have kept := inferSymbols value ctx
  rw [checkReturn]
  split
  · exact ⟨rfl, rfl⟩
  · rcases whole : inferExprType ctx value with ⟨_ | type, after⟩ <;> simp only [whole] at kept ⊢
    · exact kept
    · split
      · exact kept
      · split <;> exact kept

theorem statementsKept {statements : List ASTStmt} (each : ∀ s ∈ statements, ∀ ctx, Kept ctx (checkStmtTypes ctx s).2)
    (ctx : TypeContext) : Kept ctx (checkStatements ctx statements).2 := by
  induction statements generalizing ctx with
  | nil => exact keptSame rfl rfl
  | cons s statements ih =>
    rw [checkStatements]
    exact (each s List.mem_cons_self ctx).trans (ih (fun s' member => each s' (List.mem_cons_of_mem _ member)) _)

theorem blockPops {statements : List ASTStmt} (each : ∀ s ∈ statements, ∀ ctx, Kept ctx (checkStmtTypes ctx s).2)
    (ctx : TypeContext) : (checkStmtTypes ctx (.block statements)).2.symbols = ctx.symbols ∧
      (checkStmtTypes ctx (.block statements)).2.expectedReturnType = ctx.expectedReturnType := by
  have kept := statementsKept each { ctx with symbols := symbolTablePushScope ctx.symbols }
  obtain ⟨scope, grown⟩ := kept.symbols
  rw [checkStmtTypes]
  refine ⟨?_, kept.expected⟩
  dsimp only
  rw [grown, popPushed]

theorem stmtKept (s : ASTStmt) (ctx : TypeContext) : Kept ctx (checkStmtTypes ctx s).2 := by
  induction s generalizing ctx with
  | null => exact keptSame rfl rfl
  | varDecl name type init isMut =>
    have kept := initializerSymbols ctx type init
    rw [checkStmtTypes]
    split
    · exact keptSame rfl rfl
    · rcases whole : checkInitializer ctx type init with ⟨_ | _, after⟩
      · simp only [whole] at kept ⊢
        exact keptSame kept.1 kept.2
      · simp only [whole] at kept ⊢
        exact (keptSame kept.1 kept.2).trans (addSymbolKept _ _ _ _ _ _)
  | expr e =>
    have kept := inferSymbols e ctx
    rw [checkStmtTypes]
    split
    · exact keptSame rfl rfl
    · rcases whole : inferExprType ctx e with ⟨_ | type, after⟩ <;> simp only [whole] at kept ⊢ <;>
        exact keptSame kept.1 kept.2
  | ret value =>
    have kept := returnSymbols ctx value
    exact keptSame kept.1 kept.2
  | ifStmt => exact keptSame rfl rfl
  | whileStmt => exact keptSame rfl rfl
  | block statements each =>
    have popped := blockPops each ctx
    exact keptSame popped.1 popped.2

/-! What holds after a success -/

theorem addSymbolDeclares {ctx : TypeContext} {refused : Report} {name : CString} {kind : TypeKind}
    {isParam isMutable isInitialized : Bool} {next : Scope}
    (fresh : ctx.symbols.currentScope.declare ⟨name, kind, isParam, isMutable, isInitialized⟩ = some next) :
    ctx.addSymbol refused name (some kind) isParam isMutable isInitialized =
      (true, { ctx with symbols := ctx.symbols.setCurrent next }) := by
  simp [TypeContext.addSymbol, symbolTableAddSymbol, fresh]

theorem addSymbolAdded {ctx : TypeContext} {refused : Report} {name : CString} {type : Option TypeKind}
    {isParam isMutable isInitialized : Bool}
    (added : (ctx.addSymbol refused name type isParam isMutable isInitialized).1 = true) :
    ∃ kind next, type = some kind ∧
      ctx.symbols.currentScope.declare ⟨name, kind, isParam, isMutable, isInitialized⟩ = some next := by
  cases type with
  | none => simp [TypeContext.addSymbol, symbolTableAddSymbol] at added
  | some kind =>
    rcases fresh : ctx.symbols.currentScope.declare ⟨name, kind, isParam, isMutable, isInitialized⟩ with _ | next
    · simp [TypeContext.addSymbol, symbolTableAddSymbol, fresh] at added
    · exact ⟨kind, next, rfl, fresh⟩

theorem notNull {e : ASTExpr} (shaped : e.Shaped) : e.isNull = false := by
  cases shaped <;> rfl

theorem typeCompatibleSame {target source : TypeKind} : typeCompatible (some target) (some source) = true ↔
    target = source := by
  simp [typeCompatible, typeEqual]

theorem initializerKeeps {ctx : TypeContext} {type : Option TypeKind} {init : ASTExpr}
    (checked : (checkInitializer ctx type init).1 = true) : checkInitializer ctx type init = (true, ctx) := by
  rw [checkInitializer] at checked ⊢
  split at checked
  · simp [*]
  · rcases whole : inferExprType ctx init with ⟨_ | initType, after⟩
    · simp [whole] at checked
    · obtain rfl := inferKeeps whole
      simp only [whole] at checked ⊢
      split at checked
      · simp [*]
      · simp at checked

theorem initializerTyped {ctx : TypeContext} {kind : TypeKind} {init : ASTExpr} (shaped : init.Shaped) :
    (checkInitializer ctx (some kind) init).1 = true ↔ HasType (named (environment ctx.symbols)) init kind := by
  rw [← inferTyped shaped, checkInitializer, notNull shaped]
  rcases inferExprType ctx init with ⟨_ | initType, after⟩
  · simp
  · by_cases same : kind = initType
    · simp [same, typeCompatibleSame]
    · simp [same, typeCompatibleSame, Ne.symm same]

theorem returnKeeps {ctx : TypeContext} {value : ASTExpr} (checked : (checkReturn ctx value).1 = true) :
    checkReturn ctx value = (true, ctx) := by
  rw [checkReturn] at checked ⊢
  split at checked
  · simp [*]
  · rcases whole : inferExprType ctx value with ⟨_ | type, after⟩
    · simp [whole] at checked
    · obtain rfl := inferKeeps whole
      simp only [whole] at checked ⊢
      split at checked
      · simp [*]
      · split at checked
        · simp [*]
        · simp at checked

theorem returnTyped {ctx : TypeContext} {expected : TypeKind} {value : ASTExpr} (shaped : value.Shaped)
    (returns : ctx.expectedReturnType = some expected) :
    (checkReturn ctx value).1 = true ↔ HasType (named (environment ctx.symbols)) value expected := by
  rw [← inferTyped shaped, checkReturn, notNull shaped]
  rcases whole : inferExprType ctx value with ⟨_ | type, after⟩
  · simp
  · obtain rfl := inferKeeps whole
    by_cases same : expected = type
    · simp [same, returns, typeCompatibleSame]
    · simp [same, returns, typeCompatibleSame, Ne.symm same]

theorem statementsCount {statements : List ASTStmt}
    (each : ∀ s ∈ statements, ∀ ctx, (checkStmtTypes ctx s).1 = true →
      (checkStmtTypes ctx s).2.errorCount = ctx.errorCount)
    {ctx : TypeContext} (checked : (checkStatements ctx statements).1 = true) :
    (checkStatements ctx statements).2.errorCount = ctx.errorCount := by
  induction statements generalizing ctx with
  | nil => rfl
  | cons s statements ih =>
    rw [checkStatements] at checked ⊢
    obtain ⟨ok, rest⟩ := Bool.and_eq_true_iff.mp checked
    rw [ih (fun s' member => each s' (List.mem_cons_of_mem _ member)) rest, each s List.mem_cons_self ctx ok]

theorem stmtCount {s : ASTStmt} {ctx : TypeContext} (checked : (checkStmtTypes ctx s).1 = true) :
    (checkStmtTypes ctx s).2.errorCount = ctx.errorCount := by
  induction s generalizing ctx with
  | null => rfl
  | varDecl name type init isMut =>
    rw [checkStmtTypes] at checked ⊢
    split at checked
    · simp at checked
    · rename_i initialized
      rw [if_neg initialized]
      rcases whole : checkInitializer ctx type init with ⟨_ | _, after⟩
      · simp [whole] at checked
      · cases (initializerKeeps (congrArg Prod.fst whole)).symm.trans whole
        simp only [whole] at checked ⊢
        obtain ⟨kind, next, rfl, fresh⟩ := addSymbolAdded checked
        rw [addSymbolDeclares fresh]
  | expr e =>
    rw [checkStmtTypes] at checked ⊢
    split at checked
    · simp [*]
    · rename_i present
      rcases whole : inferExprType ctx e with ⟨_ | type, after⟩
      · simp [whole] at checked
      · obtain rfl := inferKeeps whole
        rw [if_neg present]
  | ret value =>
    rw [checkStmtTypes] at checked ⊢
    rw [returnKeeps checked]
  | ifStmt => rfl
  | whileStmt => rfl
  | block statements each =>
    rw [checkStmtTypes] at checked ⊢
    exact statementsCount (fun s member ctx checked => each s member checked) checked

/-! The rules -/

theorem environmentCurrent (table : SymbolTable) : ∃ outer, environment table = bindings table.currentScope :: outer ∧
    ∀ scope, environment (table.setCurrent scope) = bindings scope :: outer := by
  obtain ⟨outer, scopes⟩ := scopesCurrent table
  refine ⟨outer.map bindings, ?_, fun scope => by rw [environment, scopes, List.map_cons]⟩
  rw [environment, ← List.map_cons, ← scopes table.currentScope, setCurrentSame]

def HeadTyped (s : ASTStmt) : Prop :=
  ∀ {ctx : TypeContext} {expected : TypeKind} {statements : List ASTStmt}, ctx.expectedReturnType = some expected →
    (Statements expected (environment ctx.symbols) (s :: statements) ↔ (checkStmtTypes ctx s).1 = true ∧
      Statements expected (environment (checkStmtTypes ctx s).2.symbols) statements)

theorem statementsTyped {statements : List ASTStmt} (each : ∀ s ∈ statements, HeadTyped s) {ctx : TypeContext}
    {expected : TypeKind} (returns : ctx.expectedReturnType = some expected) :
    (checkStatements ctx statements).1 = true ↔ Statements expected (environment ctx.symbols) statements := by
  induction statements generalizing ctx with
  | nil => exact iff_of_true rfl .nil
  | cons s statements ih =>
    have kept := (stmtKept s ctx).expected
    rw [checkStatements, each s List.mem_cons_self returns, Bool.and_eq_true_iff,
      ih (fun s' member => each s' (List.mem_cons_of_mem _ member)) (kept.trans returns)]

theorem declarationTyped {name : CString} {kind : TypeKind} {init : ASTExpr} {isMut : Bool} (value : init.Shaped) :
    HeadTyped (.varDecl name (some kind) init isMut) := by
  intro ctx expected statements returns
  obtain ⟨outer, current, grown⟩ := environmentCurrent ctx.symbols
  rw [statementsVarDecl current, checkStmtTypes, notNull value]
  simp only [Bool.not_false, Bool.and_false, Bool.false_eq_true, if_false]
  constructor
  · rintro ⟨typed, next, fresh, rest⟩
    obtain ⟨scope, declared, rfl⟩ := (@bindingsExtends _ ⟨name, kind, false, isMut, true⟩ _).mp fresh
    rw [initializerKeeps ((initializerTyped value).mpr typed)]
    simp only
    rw [addSymbolDeclares declared, grown]
    exact ⟨rfl, rest⟩
  · rintro ⟨checked, rest⟩
    rcases whole : checkInitializer ctx (some kind) init with ⟨_ | _, after⟩
    · simp [whole] at checked
    · have initialized := congrArg Prod.fst whole
      cases (initializerKeeps initialized).symm.trans whole
      simp only [whole] at checked rest
      obtain ⟨_, scope, same, declared⟩ := addSymbolAdded checked
      cases same
      rw [addSymbolDeclares declared, grown] at rest
      exact ⟨(initializerTyped value).mp initialized, _, bindingsExtends.mpr ⟨scope, declared, rfl⟩, rest⟩

theorem exprTyped {e : ASTExpr} (value : e.Shaped) : HeadTyped (.expr e) := by
  intro ctx expected statements returns
  rw [statementsExpr, checkStmtTypes, notNull value]
  constructor
  · rintro ⟨⟨type, typed⟩, rest⟩
    rw [inferSome ((inferTyped value).mpr typed)]
    exact ⟨rfl, rest⟩
  · rintro ⟨checked, rest⟩
    rcases whole : inferExprType ctx e with ⟨_ | type, after⟩
    · simp [whole] at checked
    · obtain rfl := inferKeeps whole
      simp only [whole] at rest
      exact ⟨⟨type, (inferTyped value).mp (congrArg Prod.fst whole)⟩, rest⟩

theorem retTyped : HeadTyped (.ret .null) := by
  intro ctx expected statements returns
  rw [statementsRet]
  exact and_congr_left fun _ => iff_of_true (.inl rfl) rfl

theorem retValueTyped {e : ASTExpr} (value : e.Shaped) : HeadTyped (.ret e) := by
  intro ctx expected statements returns
  have present : e ≠ .null := fun absent => nomatch absent ▸ value
  rw [statementsRet, or_iff_right present, checkStmtTypes, returnTyped value returns]
  refine and_congr_right fun typed => ?_
  rw [returnKeeps ((returnTyped value returns).mpr typed)]

theorem blockTyped {inner : List ASTStmt} (each : ∀ s ∈ inner, HeadTyped s) : HeadTyped (.block inner) := by
  intro ctx expected statements returns
  have popped := @blockPops inner (fun s _ => stmtKept s) ctx
  have body := @statementsTyped inner each { ctx with symbols := symbolTablePushScope ctx.symbols } expected returns
  rw [statementsBlock, popped.1, checkStmtTypes, body, environmentPushed]

theorem stmtTyped {s : ASTStmt} (shaped : s.Shaped) : HeadTyped s := by
  induction shaped with
  | varDecl name kind isMut value => exact declarationTyped value
  | expr value => exact exprTyped value
  | ret => exact retTyped
  | retValue value => exact retValueTyped value
  | block each ih => exact blockTyped ih

/-! Functions -/

theorem functionTyped {func : ASTFunctionDef} (shaped : func.Shaped) {ctx : TypeContext} {globals : Scope}
    (fresh : ctx.symbols = ⟨[], globals⟩) :
    (checkFunctionTypes ctx func).1 = true ↔ FunctionTyped (bindings globals) func := by
  obtain ⟨name, returnType, params, body⟩ := func
  obtain ⟨noParams, typed, blockShaped, statements, isBlock⟩ := shaped
  obtain ⟨expected, rfl⟩ := Option.isSome_iff_exists.mp typed
  obtain rfl : params = [] := noParams
  obtain rfl : body = .block statements := isBlock
  have each : ∀ s ∈ statements, HeadTyped s := by
    cases blockShaped with
    | block each => exact fun s member => stmtTyped (each s member)
  rw [checkFunctionTypes, checkParameters]
  dsimp only
  rw [checkStmtTypes]
  dsimp only
  rw [statementsTyped each rfl]
  constructor
  · intro body
    rw [fresh] at body
    exact .block body
  · intro typed
    cases typed with
    | block body =>
      rw [fresh]
      exact body

theorem parametersKept (params : List (CString × Option TypeKind)) (ctx : TypeContext) :
    Kept ctx (checkParameters ctx params).2 := by
  induction params generalizing ctx with
  | nil => exact keptSame rfl rfl
  | cons param params ih =>
    have first := @addSymbolKept ctx (.parameterDefined param.1) param.1 param.2 true false true
    rw [checkParameters]
    rcases whole : ctx.addSymbol (.parameterDefined param.1) param.1 param.2 true false true with ⟨_ | _, after⟩
    · simpa [whole] using first
    · simp only [whole] at first ⊢
      exact first.trans (ih after)

theorem functionPops (func : ASTFunctionDef) (ctx : TypeContext) :
    (checkFunctionTypes ctx func).2.symbols = ctx.symbols := by
  rw [checkFunctionTypes]
  dsimp only
  generalize entering : typeContextSetFunction _ func.name func.returnType = entered
  have pushed : entered.symbols = symbolTablePushScope ctx.symbols := by rw [← entering]; rfl
  have first := parametersKept func.params entered
  rcases whole : checkParameters entered func.params with ⟨_ | _, after⟩ <;> rw [whole] at first
  · obtain ⟨scope, grown⟩ := first.symbols
    rw [pushed] at grown
    exact (congrArg symbolTablePopScope grown).trans (popPushed ctx.symbols scope)
  · obtain ⟨scope, grown⟩ := (first.trans (stmtKept func.body after)).symbols
    rw [pushed] at grown
    exact (congrArg symbolTablePopScope grown).trans (popPushed ctx.symbols scope)

theorem parametersCount {params : List (CString × Option TypeKind)} {ctx : TypeContext}
    (checked : (checkParameters ctx params).1 = true) :
    (checkParameters ctx params).2.errorCount = ctx.errorCount := by
  induction params generalizing ctx with
  | nil => rfl
  | cons param params ih =>
    unfold checkParameters at checked ⊢
    rcases whole : ctx.addSymbol (.parameterDefined param.1) param.1 param.2 true false true with ⟨_ | _, after⟩
    · simp [whole] at checked
    · simp only [whole] at checked ⊢
      have added : (ctx.addSymbol (.parameterDefined param.1) param.1 param.2 true false true).1 = true := by rw [whole]
      obtain ⟨kind, next, typed, fresh⟩ := addSymbolAdded added
      rw [typed, addSymbolDeclares fresh] at whole
      obtain rfl := congrArg Prod.snd whole
      rw [ih checked]

theorem functionCount {func : ASTFunctionDef} {ctx : TypeContext} (checked : (checkFunctionTypes ctx func).1 = true) :
    (checkFunctionTypes ctx func).2.errorCount = ctx.errorCount := by
  unfold checkFunctionTypes at checked ⊢
  dsimp only at checked ⊢
  generalize entering : typeContextSetFunction _ func.name func.returnType = entered at checked ⊢
  have start : entered.errorCount = ctx.errorCount := by rw [← entering]; rfl
  have params := @parametersCount func.params entered
  rcases whole : checkParameters entered func.params with ⟨_ | _, after⟩ <;> rw [whole] at checked params
  · simp at checked
  · exact (stmtCount checked).trans ((params rfl).trans start)

/-! Programs -/

theorem functionsTyped {functions : List ASTFunctionDef} (each : ∀ func ∈ functions, func.Shaped) {ctx : TypeContext}
    {globals : Scope} (fresh : ctx.symbols = ⟨[], globals⟩) :
    (checkFunctions ctx functions).1 = true ↔ ∀ func ∈ functions, FunctionTyped (bindings globals) func := by
  induction functions generalizing ctx with
  | nil => exact iff_of_true rfl nofun
  | cons func functions ih =>
    have fresh' := (functionPops func ctx).trans fresh
    rw [checkFunctions, Bool.and_eq_true_iff, functionTyped (each func List.mem_cons_self) fresh,
      ih (fun f member => each f (List.mem_cons_of_mem _ member)) fresh', List.forall_mem_cons]

theorem functionsCount {functions : List ASTFunctionDef} {ctx : TypeContext}
    (checked : (checkFunctions ctx functions).1 = true) :
    (checkFunctions ctx functions).2.errorCount = ctx.errorCount := by
  induction functions generalizing ctx with
  | nil => rfl
  | cons func functions ih =>
    rw [checkFunctions] at checked ⊢
    obtain ⟨ok, rest⟩ := Bool.and_eq_true_iff.mp checked
    rw [ih rest, functionCount ok]

def functionSymbols (functions : List ASTFunctionDef) : List Symbol :=
  functions.filterMap fun func => func.returnType.map fun type => ⟨func.name, type, false, false, true⟩

theorem functionSymbolsTypes (functions : List ASTFunctionDef) :
    (functionSymbols functions).map binding = functionTypes functions := by
  simp [functionSymbols, functionTypes, List.map_filterMap, Function.comp_def, binding]

theorem registered {functions : List ASTFunctionDef} {ctx : TypeContext} {globals : Scope}
    (fresh : ctx.symbols = ⟨[], globals⟩) :
    ((registerFunctions ctx functions).1 = true ↔ (∀ func ∈ functions, func.returnType.isSome) ∧
      (globals.entries.map Symbol.name ++ functions.map ASTFunctionDef.name).Nodup) ∧
    ((registerFunctions ctx functions).1 = true → ∃ next : Scope,
      (registerFunctions ctx functions).2 = { ctx with symbols := ⟨[], next⟩ } ∧
        next.entries = globals.entries ++ functionSymbols functions) := by
  induction functions generalizing ctx globals with
  | nil =>
    refine ⟨iff_of_true rfl (by simpa using globals.distinct), fun _ => ⟨globals, ?_, by simp [functionSymbols]⟩⟩
    rw [← fresh]
    rfl
  | cons func functions ih =>
    have current : ctx.symbols.currentScope = globals := by rw [fresh]; rfl
    unfold registerFunctions
    dsimp only
    rcases returns : func.returnType with _ | kind
    · have refused : (ctx.addSymbol (.functionDefined func.name) func.name none false false true).1 = false := rfl
      rw [refused, Bool.false_and]
      exact ⟨iff_of_false (by simp) (by simp [returns]), by simp⟩
    rcases declared : globals.declare ⟨func.name, kind, false, false, true⟩ with _ | next
    · obtain ⟨old, inside, same⟩ := Scopes.Scope.declareRefused.mp declared
      have refused : (ctx.addSymbol (.functionDefined func.name) func.name (some kind) false false true).1 = false := by
        simp [TypeContext.addSymbol, symbolTableAddSymbol, current, declared]
      have twice : ¬ (globals.entries.map Symbol.name ++ (func :: functions).map ASTFunctionDef.name).Nodup := by
        intro distinct
        have apart := (List.nodup_append.mp distinct).2.2
        exact apart old.name (List.mem_map_of_mem inside) func.name (by simp) same
      rw [refused, Bool.false_and]
      exact ⟨iff_of_false (by simp) fun both => twice both.2, by simp⟩
    · obtain ⟨free, grown⟩ := Scopes.Scope.declareExtends.mp declared
      rw [addSymbolDeclares (current ▸ declared)]
      obtain ⟨distinct, symbols⟩ := @ih { ctx with symbols := ctx.symbols.setCurrent next } next (by rw [fresh]; rfl)
      rw [grown] at distinct
      simp only [Bool.true_and]
      refine ⟨distinct.trans (by simp [returns]), fun ok => ?_⟩
      obtain ⟨last, after, entries⟩ := symbols ok
      refine ⟨last, after, ?_⟩
      rw [entries]
      simp [grown, functionSymbols, returns]

theorem programChecked {program : ASTProgram} (shaped : program.Shaped) :
    (checkProgramTypes typeContextCreate program).1 = true ↔ WellTyped program := by
  have typed : ∀ func ∈ program.functions, func.returnType.isSome := fun func member => (shaped func member).returnType
  obtain ⟨distinct, symbols⟩ := @registered program.functions typeContextCreate .empty rfl
  rw [and_iff_right typed] at distinct
  change _ ↔ (program.functions.map ASTFunctionDef.name).Nodup at distinct
  have sameScope : ∀ {globals : Scope} (names : (program.functions.map ASTFunctionDef.name).Nodup),
      globals.entries = functionSymbols program.functions → bindings globals = functionScope program.functions names := by
    intro globals names entries
    refine Scopes.Scope.ext ?_
    change globals.entries.map binding = functionTypes program.functions
    rw [entries, functionSymbolsTypes]
  rw [checkProgramTypes]
  dsimp only
  rw [Bool.and_eq_true_iff, Bool.and_eq_true_iff, and_assoc]
  constructor
  · rintro ⟨ok, checked, -⟩
    obtain ⟨globals, after, entries⟩ := symbols ok
    have scope := sameScope (distinct.mp ok) entries
    exact ⟨distinct.mp ok, scope ▸ (functionsTyped shaped (by rw [after])).mp checked⟩
  · rintro ⟨names, bodies⟩
    have ok := distinct.mpr names
    obtain ⟨globals, after, entries⟩ := symbols ok
    have scope := sameScope names entries
    have fresh : (registerFunctions typeContextCreate program.functions).2.symbols = ⟨[], globals⟩ := by rw [after]
    have checked := (functionsTyped shaped fresh).mpr (scope ▸ bodies)
    refine ⟨ok, checked, decide_eq_true ?_⟩
    rw [functionsCount checked, after]
    rfl

-- fn f() -> u32 { let f: u32 = f; return f; }
def selfNamed : ASTProgram :=
  ⟨[⟨"f".toList, some .typeU32, [], .block [.varDecl "f".toList (some .typeU32)
    (.identifier "f".toList) false, .ret (.identifier "f".toList)]⟩], []⟩

theorem selfNamedShaped : selfNamed.Shaped := by
  intro func member
  obtain rfl := List.mem_singleton.mp member
  refine ⟨rfl, rfl, .block fun s member => ?_, _, rfl⟩
  rcases List.mem_pair.mp member with rfl | rfl
  · exact .varDecl _ _ _ (.identifier _)
  · exact .retValue (.identifier _)

theorem selfNamedTyped : WellTyped selfNamed := (programChecked selfNamedShaped).mp (by decide)

end BitN.TypeChecker

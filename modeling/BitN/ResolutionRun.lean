import BitN.Resolution
import BitN.TypeChecker

/-! A run of the checker on names that are all different strings: nothing is ever found and
nothing is ever redeclared, so each expression fails at its leftmost identifier. -/
namespace BitN.ResolutionRun

open Typing TypeChecker Resolution

def tableNames (table : SymbolTable) : List CString := table.scopes.flatMap fun scope => scope.entries.map Symbol.name

theorem lookupAbsent {table : SymbolTable} {name : CString} (absent : name ∉ tableNames table) :
    symbolTableLookup table name = none := by
  refine List.findSome?_eq_none_iff.mpr fun scope member => Scopes.Scope.findNone.mpr fun sym inside same => absent ?_
  exact List.mem_flatMap.mpr ⟨scope, member, List.mem_map.mpr ⟨sym, inside, same⟩⟩

def siteReports (site : Site) : List Report := site.expr.names.head?.toList.map .undefinedVariable

theorem inferLeftmost {sight : Sight} {e : ASTExpr} {type : TypeKind} (typed : HasType (agreeing sight) e type)
    {ctx : TypeContext} (absent : ∀ name ∈ e.names, name ∉ tableNames ctx.symbols) :
    inferExprType ctx e = match e.names with
      | [] => (some type, ctx)
      | name :: _ => (none, ctx.report (.undefinedVariable name)) := by
  induction typed with
  | number value => rfl
  | boolean value => rfl
  | identifier known => simp [inferExprType, ASTExpr.names, lookupAbsent (absent _ List.mem_cons_self)]
  | unaryOp op typed ih => exact ih absent
  | @binaryOp op left right operands first second left' right' =>
    have leftIs := left' fun name member => absent name (List.mem_append_left _ member)
    have rightIs := right' fun name member => absent name (List.mem_append_right _ member)
    rw [inferExprType, leftIs, ASTExpr.names]
    rcases left.names with _ | ⟨name, names⟩
    · rw [List.nil_append]
      dsimp only
      rw [rightIs]
      rcases right.names with _ | ⟨name, names⟩
      · simp [typeCompatible, typeEqual, inferBinaryOp]
      · rfl
    · rfl

structure Ran (ctx : TypeContext) (sites : List Site) (names : List CString) (result : Bool × TypeContext) : Prop where
  reports : result.2.reports = ctx.reports ++ sites.flatMap siteReports
  accepted : result.1 = true ↔ ∀ site ∈ sites, site.expr.names = []
  known : ∀ name ∈ tableNames result.2.symbols, name ∈ tableNames ctx.symbols ∨ name ∈ names

theorem tableNamesCurrent (table : SymbolTable) : ∃ outer, ∀ scope,
    tableNames (table.setCurrent scope) = scope.entries.map Symbol.name ++ outer := by
  obtain ⟨outer, scopes⟩ := scopesCurrent table
  refine ⟨outer.flatMap fun scope => scope.entries.map Symbol.name, fun scope => ?_⟩
  rw [tableNames, scopes, List.flatMap_cons]

theorem declareAbsent {table : SymbolTable} {sym : Symbol} (absent : sym.name ∉ tableNames table) :
    ∃ next, table.currentScope.declare sym = some next ∧
      ∀ name ∈ tableNames (table.setCurrent next), name ∈ tableNames table ∨ name = sym.name := by
  obtain ⟨outer, names⟩ := tableNamesCurrent table
  have here := names table.currentScope
  rw [setCurrentSame] at here
  rcases declared : table.currentScope.declare sym with _ | next
  · obtain ⟨old, inside, same⟩ := Scopes.Scope.declareRefused.mp declared
    refine absurd ?_ absent
    rw [here]
    exact List.mem_append_left _ (List.mem_map.mpr ⟨old, inside, same⟩)
  · refine ⟨next, rfl, fun name member => ?_⟩
    rw [names, (Scopes.Scope.declareExtends.mp declared).2] at member
    rw [here]
    simp only [List.map_append, List.mem_append, List.map_cons, List.map_nil, List.mem_singleton] at member ⊢
    tauto

theorem Ran.failed {ctx : TypeContext} {site : Site} {names : List CString} {name : CString} {rest : List CString}
    (uses : site.expr.names = name :: rest) :
    Ran ctx [site] names (false, (ctx.report (.undefinedVariable name)).count) where
  reports := by simp [siteReports, uses, TypeContext.count, TypeContext.report, TypeContext.print]
  accepted := by simp [uses]
  known := fun _ member => .inl member

theorem Ran.passed {ctx : TypeContext} {sites : List Site} {names : List CString}
    (closed : ∀ site ∈ sites, site.expr.names = []) {symbols : SymbolTable}
    (known : ∀ name ∈ tableNames symbols, name ∈ tableNames ctx.symbols ∨ name ∈ names) :
    Ran ctx sites names (true, { ctx with symbols }) where
  reports := by
    have none : sites.flatMap siteReports = [] :=
      List.flatMap_eq_nil_iff.mpr fun site member => by simp [siteReports, closed site member]
    rw [none, List.append_nil]
  accepted := iff_of_true rfl closed
  known := known

theorem declarationRan {sight : Sight} {name : CString} {kind : TypeKind} {init : ASTExpr} {isMut : Bool}
    (value : init.Shaped) {ctx : TypeContext} (agrees : Site.Agrees ⟨sight, init, some kind⟩)
    (absent : ∀ n ∈ name :: init.names, n ∉ tableNames ctx.symbols) :
    Ran ctx [⟨sight, init, some kind⟩] (name :: init.names)
      (checkStmtTypes ctx (.varDecl name (some kind) init isMut)) := by
  obtain ⟨type, typed, wanted⟩ := agrees
  obtain rfl : kind = type := wanted kind rfl
  have inferred := inferLeftmost typed fun n member => absent n (List.mem_cons_of_mem _ member)
  obtain ⟨next, declared, known⟩ := @declareAbsent ctx.symbols ⟨name, kind, false, isMut, true⟩
    (absent name List.mem_cons_self)
  rw [checkStmtTypes, checkInitializer, inferred, notNull value]
  simp only [Bool.not_false, Bool.and_false, Bool.false_eq_true, if_false]
  rcases uses : init.names with _ | ⟨n, names⟩
  · simp only [typeCompatibleSame, if_true]
    rw [addSymbolDeclares declared]
    refine .passed (by simpa using uses) fun n member => ?_
    rcases known n member with old | rfl
    · exact .inl old
    · exact .inr List.mem_cons_self
  · exact .failed uses

theorem exprRan {sight : Sight} {e : ASTExpr} (value : e.Shaped) {ctx : TypeContext}
    (agrees : Site.Agrees ⟨sight, e, none⟩) (absent : ∀ name ∈ e.names, name ∉ tableNames ctx.symbols) :
    Ran ctx [⟨sight, e, none⟩] e.names (checkStmtTypes ctx (.expr e)) := by
  obtain ⟨type, typed, -⟩ := agrees
  rw [checkStmtTypes, inferLeftmost typed absent, notNull value]
  rcases uses : e.names with _ | ⟨name, names⟩
  · exact .passed (by simpa using uses) fun _ member => .inl member
  · exact .failed uses

theorem returnRan {sight : Sight} {e : ASTExpr} (value : e.Shaped) {ctx : TypeContext}
    (agrees : Site.Agrees ⟨sight, e, ctx.expectedReturnType⟩)
    (absent : ∀ name ∈ e.names, name ∉ tableNames ctx.symbols) :
    Ran ctx [⟨sight, e, ctx.expectedReturnType⟩] e.names (checkStmtTypes ctx (.ret e)) := by
  obtain ⟨type, typed, wanted⟩ := agrees
  rw [checkStmtTypes, checkReturn, inferLeftmost typed absent, notNull value]
  rcases uses : e.names with _ | ⟨name, names⟩
  · simp only [Bool.false_eq_true, if_false]
    rcases returns : ctx.expectedReturnType with _ | expected
    · exact .passed (by simpa using uses) fun _ member => .inl member
    · obtain rfl : expected = type := wanted expected returns
      simp only [typeCompatibleSame, if_true]
      exact .passed (by simpa using uses) fun _ member => .inl member
  · exact .failed uses

theorem Ran.append {ctx : TypeContext} {sites sites' : List Site} {names names' : List CString}
    {first second : Bool × TypeContext} (ran : Ran ctx sites names first) (ran' : Ran first.2 sites' names' second) :
    Ran ctx (sites ++ sites') (names ++ names') (first.1 && second.1, second.2) where
  reports := by rw [ran'.reports, ran.reports, List.flatMap_append, List.append_assoc]
  accepted := by rw [Bool.and_eq_true_iff, ran.accepted, ran'.accepted, List.forall_mem_append]
  known := fun name member => by
    rcases ran'.known name member with old | new
    · exact (ran.known name old).imp_right (List.mem_append_left _)
    · exact .inr (List.mem_append_right _ new)

def Runs (s : ASTStmt) : Prop :=
  ∀ {sight : Sight} {ctx : TypeContext}, (∀ site ∈ stmtSites ctx.expectedReturnType sight s, site.Agrees) →
    s.names.Nodup → (∀ name ∈ s.names, name ∉ tableNames ctx.symbols) →
    Ran ctx (stmtSites ctx.expectedReturnType sight s) s.names (checkStmtTypes ctx s)

theorem statementsRan {statements : List ASTStmt} (each : ∀ s ∈ statements, Runs s) {sight : Sight} {ctx : TypeContext}
    (agrees : ∀ site ∈ blockSites ctx.expectedReturnType sight statements, site.Agrees)
    (distinct : (ASTStmt.namesAll statements).Nodup)
    (absent : ∀ name ∈ ASTStmt.namesAll statements, name ∉ tableNames ctx.symbols) :
    Ran ctx (blockSites ctx.expectedReturnType sight statements) (ASTStmt.namesAll statements)
      (checkStatements ctx statements) := by
  induction statements generalizing sight ctx with
  | nil => exact Ran.passed (fun _ member => absurd member List.not_mem_nil) fun _ member => .inl member
  | cons s statements ih =>
    rw [blockSites] at agrees ⊢
    rw [ASTStmt.namesAll] at distinct absent ⊢
    obtain ⟨agrees, agreesRest⟩ := List.forall_mem_append.mp agrees
    obtain ⟨distinct, distinctRest, apart⟩ := List.nodup_append.mp distinct
    obtain ⟨absent, absentRest⟩ := List.forall_mem_append.mp absent
    have first := each s List.mem_cons_self agrees distinct absent
    rw [← (stmtKept s ctx).expected] at agreesRest
    have rest := ih (fun s' member => each s' (List.mem_cons_of_mem _ member)) agreesRest distinctRest
      fun name member inside => (first.known name inside).elim (absentRest name member)
        fun declared => apart name declared name member rfl
    rw [(stmtKept s ctx).expected] at rest
    exact first.append rest

theorem blockRan {statements : List ASTStmt} (each : ∀ s ∈ statements, Runs s) : Runs (.block statements) := by
  intro sight ctx agrees distinct absent
  have pushed : tableNames (symbolTablePushScope ctx.symbols) = tableNames ctx.symbols := rfl
  have body := @statementsRan statements each ([] :: sight) { ctx with symbols := symbolTablePushScope ctx.symbols }
    (by simpa only [stmtSites] using agrees) (by simpa only [ASTStmt.names] using distinct)
    (by simpa only [ASTStmt.names, pushed] using absent)
  have popped := (@blockPops statements (fun s _ => stmtKept s) ctx).1
  rw [checkStmtTypes] at popped ⊢
  rw [stmtSites]
  exact ⟨body.reports, body.accepted, fun name member => .inl (popped ▸ member)⟩

theorem stmtRan {s : ASTStmt} (shaped : s.Shaped) : Runs s := by
  induction shaped with
  | varDecl name kind isMut value =>
    intro sight ctx agrees distinct absent
    exact declarationRan value (agrees _ (by simp [stmtSites])) absent
  | expr value =>
    intro sight ctx agrees distinct absent
    exact exprRan value (agrees _ (by simp [stmtSites])) absent
  | ret =>
    intro sight ctx agrees distinct absent
    exact Ran.passed (fun _ member => absurd member List.not_mem_nil) fun _ member => .inl member
  | @retValue e value =>
    intro sight ctx agrees distinct absent
    have sites : stmtSites ctx.expectedReturnType sight (.ret e) = [⟨sight, e, ctx.expectedReturnType⟩] := by
      cases value <;> rfl
    rw [sites] at agrees ⊢
    exact returnRan value (agrees _ List.mem_cons_self) absent
  | block each ih => exact blockRan ih

/-! Functions and programs -/

theorem functionRan {func : ASTFunctionDef} (shaped : func.Shaped) {globals : List Binding} {ctx : TypeContext}
    (agrees : ∀ site ∈ functionSites globals func, site.Agrees) (distinct : func.names.Nodup)
    (absent : ∀ name ∈ func.body.names, name ∉ tableNames ctx.symbols) :
    Ran ctx (functionSites globals func) func.names (checkFunctionTypes ctx func) := by
  have popped := functionPops func ctx
  have body := @stmtRan func.body shaped.body [globals]
    (typeContextSetFunction { ctx with symbols := symbolTablePushScope ctx.symbols } func.name func.returnType)
    agrees (by simpa [ASTFunctionDef.names, shaped.params] using (List.nodup_cons.mp distinct).2) absent
  rw [checkFunctionTypes, shaped.params] at popped ⊢
  exact ⟨body.reports, body.accepted, fun name member => .inl (popped ▸ member)⟩

theorem functionsRan {functions : List ASTFunctionDef} (shaped : ∀ func ∈ functions, func.Shaped)
    {globals : List Binding} {ctx : TypeContext}
    (agrees : ∀ site ∈ functions.flatMap (functionSites globals), site.Agrees)
    (distinct : ∀ func ∈ functions, func.names.Nodup)
    (absent : ∀ func ∈ functions, ∀ name ∈ func.body.names, name ∉ tableNames ctx.symbols) :
    Ran ctx (functions.flatMap (functionSites globals)) (functions.flatMap ASTFunctionDef.names)
      (checkFunctions ctx functions) := by
  induction functions generalizing ctx with
  | nil => exact Ran.passed (fun _ member => absurd member List.not_mem_nil) fun _ member => .inl member
  | cons func functions ih =>
    rw [List.flatMap_cons] at agrees ⊢
    obtain ⟨agrees, agreesRest⟩ := List.forall_mem_append.mp agrees
    have first := functionRan (shaped func List.mem_cons_self) agrees (distinct func List.mem_cons_self)
      (absent func List.mem_cons_self)
    have absentRest : ∀ f ∈ functions, ∀ name ∈ f.body.names,
        name ∉ tableNames (checkFunctionTypes ctx func).2.symbols := by
      rw [functionPops]
      exact fun f member => absent f (List.mem_cons_of_mem _ member)
    have rest := ih (fun f member => shaped f (List.mem_cons_of_mem _ member)) agreesRest
      (fun f member => distinct f (List.mem_cons_of_mem _ member)) absentRest
    exact first.append rest

theorem functionNamesPerm {functions : List ASTFunctionDef} (shaped : ∀ func ∈ functions, func.Shaped) :
    (functions.map ASTFunctionDef.names).flatten.Perm
      (functions.map ASTFunctionDef.name ++ functions.flatMap fun func => func.body.names) := by
  induction functions with
  | nil => exact .refl _
  | cons func functions ih =>
    have tail := ih fun f member => shaped f (List.mem_cons_of_mem _ member)
    have own : func.names = func.name :: func.body.names := by
      rw [ASTFunctionDef.names, (shaped func List.mem_cons_self).params, List.map_nil, List.nil_append]
    rw [List.map_cons, List.flatten_cons, own, List.map_cons, List.flatMap_cons]
    exact ((tail.append_left _).trans (List.perm_append_comm_assoc _ _ _)).cons _

theorem programRan {program : ASTProgram} (shaped : program.Shaped) (distinct : program.names.Nodup)
    (agrees : ∀ site ∈ sites program, site.Agrees) :
    (checkProgramTypes typeContextCreate program).2.reports = (sites program).flatMap siteReports ∧
      ((checkProgramTypes typeContextCreate program).1 = true ↔ ∀ site ∈ sites program, site.expr.names = []) := by
  have inFunctions := distinct.of_append_left
  obtain ⟨names, -, apart⟩ := List.nodup_append.mp ((functionNamesPerm shaped).nodup_iff.mp inFunctions)
  have typed : ∀ func ∈ program.functions, func.returnType.isSome := fun func member => (shaped func member).returnType
  obtain ⟨registers, symbols⟩ := @registered program.functions typeContextCreate .empty rfl
  have ok := registers.mpr ⟨typed, names⟩
  obtain ⟨globals, after, entries⟩ := symbols ok
  have known : ∀ name ∈ tableNames (registerFunctions typeContextCreate program.functions).2.symbols,
      name ∈ program.functions.map ASTFunctionDef.name := by
    intro name member
    have table : globals.entries.map Symbol.name = (functionTypes program.functions).map Prod.fst := by
      rw [entries, ← functionSymbolsTypes, List.map_map]
      rfl
    rw [after] at member
    refine (functionTypesNames program.functions).subset ?_
    rw [← table]
    simpa [tableNames, SymbolTable.scopes] using member
  have ran := functionsRan shaped agrees
    (fun func member => (List.nodup_flatten.mp inFunctions).1 _ (List.mem_map_of_mem member))
    fun func member name inside found => apart name (known name found) name
      (List.mem_flatMap.mpr ⟨func, member, inside⟩) rfl
  rw [checkProgramTypes]
  dsimp only
  constructor
  · rw [ran.reports, after]
    rfl
  · have accepted := ran.accepted
    rw [Bool.and_eq_true_iff, Bool.and_eq_true_iff, and_iff_right ok]
    refine ⟨fun both => accepted.mp both.1, fun closed => ?_⟩
    have checked := accepted.mpr closed
    refine ⟨checked, decide_eq_true ?_⟩
    rw [functionsCount checked, after]
    rfl

/-! The identifiers of the expressions -/

def siteNames (site : Site) : List CString := site.expr.names

theorem blockNamesSublist {expected : Option TypeKind} {statements : List ASTStmt}
    (each : ∀ s ∈ statements, ∀ sight, ((stmtSites expected sight s).flatMap siteNames).Sublist s.names)
      (sight : Sight) :
    ((blockSites expected sight statements).flatMap siteNames).Sublist (ASTStmt.namesAll statements) := by
  induction statements generalizing sight with
  | nil => exact .slnil
  | cons s statements ih =>
    rw [blockSites, List.flatMap_append, ASTStmt.namesAll]
    exact (each s List.mem_cons_self sight).append (ih (fun s' member => each s' (List.mem_cons_of_mem _ member)) _)

theorem stmtNamesSublist (expected : Option TypeKind) (s : ASTStmt) (sight : Sight) :
    ((stmtSites expected sight s).flatMap siteNames).Sublist s.names := by
  induction s generalizing sight with
  | null => exact .slnil
  | varDecl name type init isMut => simp [stmtSites, siteNames, ASTStmt.names]
  | expr e => simp [stmtSites, siteNames, ASTStmt.names]
  | ret value => cases value <;> simp [stmtSites, siteNames, ASTStmt.names]
  | ifStmt => exact .slnil
  | whileStmt => exact .slnil
  | block statements each =>
    rw [stmtSites, ASTStmt.names]
    exact blockNamesSublist each ([] :: sight)

theorem programNamesSublist (program : ASTProgram) : ((sites program).flatMap siteNames).Sublist program.names := by
  have bodies (functions : List ASTFunctionDef) (globals : List Binding) :
      ((functions.flatMap (functionSites globals)).flatMap siteNames).Sublist
        (functions.map ASTFunctionDef.names).flatten := by
    induction functions with
    | nil => exact .slnil
    | cons func functions ih =>
      have body := stmtNamesSublist func.returnType func.body [globals]
      rw [List.flatMap_cons, List.flatMap_append, List.map_cons, List.flatten_cons]
      exact (((body.trans (List.sublist_append_right _ _)).cons _).append ih)
  exact (bodies _ _).trans (List.sublist_append_left _ _)

theorem sameSite {sites : List Site} (distinct : (sites.flatMap siteNames).Nodup) {site site' : Site}
    (member : site ∈ sites) (member' : site' ∈ sites) {name : CString} (inside : name ∈ site.expr.names)
    (inside' : name ∈ site'.expr.names) : site = site' := by
  induction sites with
  | nil => cases member
  | cons first rest ih =>
    obtain ⟨-, distinctRest, apart⟩ := List.nodup_append.mp (List.flatMap_cons ▸ distinct)
    have elsewhere {s : Site} (later : s ∈ rest) (here : name ∈ first.expr.names) : name ∉ s.expr.names :=
      fun there => apart name here name (List.mem_flatMap.mpr ⟨s, later, there⟩) rfl
    rcases List.mem_cons.mp member with rfl | later <;> rcases List.mem_cons.mp member' with rfl | later'
    · rfl
    · exact absurd inside' (elsewhere later' inside)
    · exact absurd inside (elsewhere later inside')
    · exact ih distinctRest later later'

theorem reportedLeftmost {program : ASTProgram} (distinct : program.names.Nodup) {site : Site}
    (member : site ∈ sites program) {name : CString} (inside : name ∈ site.expr.names) :
    .undefinedVariable name ∈ (sites program).flatMap siteReports ↔ site.expr.names.head? = some name := by
  rw [List.mem_flatMap]
  constructor
  · rintro ⟨site', member', reported⟩
    obtain ⟨name', leftmost, same⟩ : ∃ name', site'.expr.names.head? = some name' ∧
        Report.undefinedVariable name' = .undefinedVariable name := by simpa [siteReports] using reported
    obtain rfl : name' = name := Report.undefinedVariable.inj same
    rwa [sameSite ((programNamesSublist program).nodup distinct) member member' inside (List.mem_of_head? leftmost)]
  · intro leftmost
    exact ⟨site, member, by simp [siteReports, leftmost]⟩

theorem resolvedLeftmost {input : Source} {program : ASTProgram} {p : Parser} (parsed : Parses input program p)
    (clear : p.error = false) (agrees : ∀ site ∈ sites program, site.Agrees) :
    Resolved program (checkProgramTypes typeContextCreate program) ↔ LeftmostUndeclared program ∧ Apart program := by
  have distinct := Names.parsedDistinct parsed clear
  obtain ⟨reports, accepted⟩ := programRan (Shape.parsesShaped parsed clear) distinct agrees
  have silent : ¬ ∃ report ∈ (sites program).flatMap siteReports, redefines report := by
    rintro ⟨report, member, again⟩
    obtain ⟨site, -, reported⟩ := List.mem_flatMap.mp member
    obtain ⟨name, -, rfl⟩ := List.mem_map.mp reported
    cases again
  constructor
  · intro resolved
    refine ⟨fun site member name inside => ?_, ?_⟩
    · rw [← reportedLeftmost distinct member inside, ← reports]
      exact (resolved.undefined site member name inside).symm
    · exact not_not.mp fun doubled => silent (reports ▸ resolved.redefined.mpr doubled)
  · rintro ⟨leftmost, apart⟩
    refine ⟨fun site member name inside => ?_, ?_, fun declared _ => accepted.mpr fun site member => ?_⟩
    · rw [reports, reportedLeftmost distinct member inside, leftmost site member name inside]
    · rw [reports]
      exact iff_of_false silent (not_not.mpr apart)
    · rcases uses : site.expr.names with _ | ⟨name, names⟩
      · rfl
      · have inside : name ∈ site.expr.names := uses ▸ List.mem_cons_self
        exact absurd ((leftmost site member name inside).mpr (by rw [uses]; rfl)) (declared site member name inside)

-- fn f()->u8{x;}
def undeclaredSource : Source := ⟨"fn f()->u8\x7bx;\x7d".toList, by decide⟩

def undeclaredProgram : ASTProgram :=
  ⟨[⟨"f()->u8\x7bx;\x7d".toList, some .typeU8, [], .block [.expr (.identifier "x;\x7d".toList)]⟩], []⟩

theorem undeclaredResolved : Resolved undeclaredProgram (checkProgramTypes typeContextCreate undeclaredProgram) := by
  have parsed : Parses undeclaredSource undeclaredProgram (parseSource 9 undeclaredSource).2 := ⟨9, Prod.ext rfl rfl⟩
  have only : sites undeclaredProgram =
      [⟨[[], [("f()->u8\x7bx;\x7d".toList, .typeU8)]], .identifier "x;\x7d".toList, none⟩] := rfl
  refine (resolvedLeftmost parsed rfl fun site member => ?_).mpr ⟨fun site member name inside => ?_, ?_⟩
  · obtain rfl := List.mem_singleton.mp (only ▸ member)
    exact ⟨.typeU8, .identifier (.inl (by decide)), nofun⟩
  · obtain rfl := List.mem_singleton.mp (only ▸ member)
    obtain rfl := List.mem_singleton.mp inside
    exact iff_of_true (by decide) rfl
  · unfold Apart
    decide

-- fn f()->u8{let x:u8=true;x;}
def declaredSource : Source := ⟨"fn f()->u8\x7blet x:u8=true;x;\x7d".toList, by decide⟩

def declaredProgram : ASTProgram :=
  ⟨[⟨"f()->u8\x7blet x:u8=true;x;\x7d".toList, some .typeU8, [],
    .block [.varDecl "x:u8=true;x;\x7d".toList (some .typeU8) (.boolean true) false,
      .expr (.identifier "x;\x7d".toList)]⟩], []⟩

theorem declaredUnresolved : ∃ p, Parses declaredSource declaredProgram p ∧ p.error = false ∧
    (∀ site ∈ sites declaredProgram, site.Agrees) ∧
    ¬ Resolved declaredProgram (checkProgramTypes typeContextCreate declaredProgram) := by
  let function : Binding := ("f()->u8\x7blet x:u8=true;x;\x7d".toList, .typeU8)
  let variable_ : Binding := ("x:u8=true;x;\x7d".toList, .typeU8)
  have both : sites declaredProgram = [⟨[[], [function]], .boolean true, some .typeU8⟩,
      ⟨[[variable_], [function]], .identifier "x;\x7d".toList, none⟩] := rfl
  refine ⟨(parseSource 9 declaredSource).2, ⟨9, Prod.ext rfl rfl⟩, rfl, fun site member => ?_, fun resolved => ?_⟩
  · rcases List.mem_pair.mp (both ▸ member) with rfl | rfl
    · exact ⟨.typeU8, .boolean true, by simp⟩
    · exact ⟨.typeU8, .identifier (.inr ⟨variable_, by decide, rfl⟩), nofun⟩
  · have use := resolved.undefined _ (both ▸ List.mem_cons_of_mem _ List.mem_cons_self) _ List.mem_cons_self
    exact absurd (use.mp (by decide)) (by decide)

end BitN.ResolutionRun

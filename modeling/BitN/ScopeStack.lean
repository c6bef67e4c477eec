import BitN.Lib.ScopedMaps
import BitN.ScopeMemory

/-! The symbol table in memory as a stack of finite maps, over whole runs. -/
namespace BitN.ScopeMemory

open ScopedMaps

structure Entry where
  type : TypeKind
  isParameter : Bool
  isMutable : Bool
  isInitialized : Bool

def entryOf (sym : Symbol) : Entry := ⟨sym.type, sym.isParameter, sym.isMutable, sym.isInitialized⟩

def symbolOf (name : CString) (entry : Entry) : Symbol :=
  ⟨name, entry.type, entry.isParameter, entry.isMutable, entry.isInitialized⟩

abbrev Maps := Stack CString Entry

def mapOf (scope : Scope) : Finmap fun _ : CString => Entry :=
  (scope.entries.map fun sym => (⟨sym.name, entryOf sym⟩ : Sigma fun _ : CString => Entry)).toFinmap

def stackOf (table : SymbolTable) : Maps := ⟨table.inner.map mapOf, mapOf table.globalScope⟩

theorem mapLookup (scope : Scope) (name : CString) : (mapOf scope).lookup name = (scope.find name).map entryOf := by
  unfold mapOf Scopes.Scope.find
  rw [Finmap.dlookup_list_toFinmap]
  induction scope.entries with
  | nil => rfl
  | cons sym entries ih =>
    rw [List.map_cons, List.find?_cons]
    by_cases same : sym.name = name
    · subst same
      simp [List.dlookup_cons_eq]
    · rw [List.dlookup_cons_ne _ _ (Ne.symm same), ih]
      simp [same]

theorem mapKnown (scope : Scope) (name : CString) : name ∈ mapOf scope ↔ scope.find name ≠ none := by
  rw [← Finmap.lookup_isSome, mapLookup, Option.isSome_map, Option.isSome_iff_ne_none]

theorem mapDeclared {scope next : Scope} {sym : Symbol} (declared : scope.declare sym = some next) :
    mapOf next = (mapOf scope).insert sym.name (entryOf sym) := by
  obtain ⟨fresh, grown⟩ := Scopes.Scope.declareExtends.mp declared
  refine Finmap.ext_lookup fun name => ?_
  rw [mapLookup, Scopes.Scope.find, grown, List.find?_append]
  by_cases same : sym.name = name
  · subst same
    have missing : scope.entries.find? (fun sym' => sym'.name = sym.name) = none := by simpa using fresh
    rw [missing, Finmap.lookup_insert]
    simp
  · rw [Finmap.lookup_insert_of_ne _ (Ne.symm same), mapLookup, Scopes.Scope.find]
    simp [same]

theorem stackTop (table : SymbolTable) : (stackOf table).top = mapOf table.currentScope := by
  rcases table with ⟨_ | ⟨scope, inner⟩, globalScope⟩ <;> rfl

theorem stackSetTop (table : SymbolTable) (scope : Scope) :
    stackOf (table.setCurrent scope) = (stackOf table).setTop (mapOf scope) := by
  rcases table with ⟨_ | ⟨current, inner⟩, globalScope⟩ <;> rfl

theorem stackPop (table : SymbolTable) : stackOf (BitN.symbolTablePopScope table) = (stackOf table).pop := by
  rcases table with ⟨_ | ⟨current, inner⟩, globalScope⟩ <;> rfl

theorem stackAdd (table : SymbolTable) (name : CString) (entry : Entry) :
    stackOf ((BitN.symbolTableAddSymbol table name (some entry.type) entry.isParameter entry.isMutable
      entry.isInitialized).getD table) = (stackOf table).add name entry := by
  unfold Stack.add BitN.symbolTableAddSymbol
  rw [stackTop]
  dsimp only
  cases declared : table.currentScope.declare (symbolOf name entry) with
  | none =>
    have known : name ∈ mapOf table.currentScope := by
      rw [mapKnown, Ne, Scopes.Scope.findNone]
      obtain ⟨d, member, same⟩ := Scopes.Scope.declareRefused.mp declared
      exact fun fresh => fresh d member same
    rw [symbolOf] at declared
    rw [if_pos known, declared]
    rfl
  | some next =>
    have unknown : name ∉ mapOf table.currentScope := by
      rw [mapKnown, not_not, Scopes.Scope.findNone]
      exact (Scopes.Scope.declareExtends.mp declared).1
    have grown : mapOf next = (mapOf table.currentScope).insert name entry := mapDeclared declared
    rw [symbolOf] at declared
    rw [if_neg unknown, declared, ← grown]
    exact stackSetTop table next

theorem stackLookup (table : SymbolTable) (name : CString) :
    BitN.symbolTableLookup table name = ((stackOf table).lookup name).map (symbolOf name) := by
  have each : ∀ scope : Scope, scope.find name = ((mapOf scope).lookup name).map (symbolOf name) := by
    intro scope
    rw [mapLookup]
    cases found : scope.find name with
    | none => rfl
    | some sym =>
      obtain ⟨-, rfl⟩ := Scopes.Scope.findKnown found
      rfl
  have maps : (stackOf table).inner ++ [(stackOf table).bottom] = table.scopes.map mapOf := by
    simp [stackOf, SymbolTable.scopes]
  unfold BitN.symbolTableLookup Scopes.lookup Stack.lookup
  rw [maps, List.findSome?_map]
  induction table.scopes with
  | nil => rfl
  | cons scope scopes ih =>
    simp only [List.findSome?_cons, Function.comp_apply, each scope, ih]
    cases (mapOf scope).lookup name <;> rfl

/-! Runs -/

def step (allocator : Allocator) (table : Table) : Op CString Entry → Option Table
  | .push => some (symbolTablePushScope allocator table)
  | .pop => symbolTablePopScope table
  | .add name entry => (symbolTableAddSymbol table (some name) (some entry.type) entry.isParameter entry.isMutable
      entry.isInitialized).map Prod.snd

def steps (allocator : Allocator) (table : Table) (ops : List (Op CString Entry)) : Option Table :=
  ops.foldlM (step allocator) table

section runs
variable (allocator : Allocator)

theorem stepsCons {table between : Table} {op : Op CString Entry} (first : step allocator table op = some between)
    (ops : List (Op CString Entry)) : steps allocator table (op :: ops) = steps allocator between ops := by
  rw [steps, List.foldlM_cons, first]
  rfl

theorem stepsAppend {table between : Table} {ops : List (Op CString Entry)}
    (first : steps allocator table ops = some between) (ops' : List (Op CString Entry)) :
    steps allocator table (ops ++ ops') = steps allocator between ops' := by
  unfold steps at first ⊢
  rw [List.foldlM_append, first]
  rfl

theorem addStep {table : Table} {ps : List Nat} {symbols : SymbolTable} (represents : Represents table ps symbols)
    (name : CString) (entry : Entry) : ∃ after next, step allocator table (.add name entry) = some after ∧
      Represents after ps next ∧ stackOf next = (stackOf symbols).add name entry := by
  have stack := stackAdd symbols name entry
  rcases addRepresents represents name entry.type entry.isParameter entry.isMutable entry.isInitialized with
    ⟨refused, same⟩ | ⟨after, next, accepted, added, grown⟩
  · rw [refused] at stack
    exact ⟨table, symbols, by rw [step, same]; rfl, represents, stack⟩
  · rw [accepted] at stack
    exact ⟨after, next, by rw [step, added]; rfl, grown, stack⟩

theorem Represents.nonempty {table : Table} {ps : List Nat} {symbols : SymbolTable}
    (represents : Represents table ps symbols) : ps ≠ [] := by
  have length := represents.chain.length
  rintro rfl
  simp [SymbolTable.scopes] at length

theorem stepRepresents {table : Table} {ps : List Nat} {symbols : SymbolTable} (represents : Represents table ps symbols)
    (op : Op CString Entry) : ∃ after ps' next, step allocator table op = some after ∧
      Represents after ps' next ∧ stackOf next = (stackOf symbols).apply op := by
  cases op with
  | push => exact ⟨_, _, _, rfl, pushRepresents allocator represents, rfl⟩
  | pop =>
    obtain ⟨p, ps, rfl⟩ := List.exists_cons_of_ne_nil represents.nonempty
    obtain ⟨after, popped, left⟩ := popRepresents represents
    exact ⟨after, _, _, popped, left, stackPop symbols⟩
  | add name entry =>
    obtain ⟨after, next, added, grown, stack⟩ := addStep allocator represents name entry
    exact ⟨after, ps, next, added, grown, stack⟩

theorem stepsRepresent (ops : List (Op CString Entry)) {table : Table} {ps : List Nat} {symbols : SymbolTable}
    (represents : Represents table ps symbols) : ∃ after ps' last, steps allocator table ops = some after ∧
      Represents after ps' last ∧ stackOf last = (stackOf symbols).run ops := by
  induction ops generalizing table ps symbols with
  | nil => exact ⟨table, ps, symbols, rfl, represents, rfl⟩
  | cons op ops ih =>
    obtain ⟨between, ps', next, first, represents', stack⟩ := stepRepresents allocator represents op
    obtain ⟨after, ps'', last, later, finally_, stack'⟩ := ih represents'
    refine ⟨after, ps'', last, (stepsCons allocator first ops).trans later, finally_, ?_⟩
    rw [stack', stack]
    rfl

/-- Where every push has its pop, the run ends in the scope it began in. -/
theorem insideRepresents {ops : List (Op CString Entry)} (inside : Inside ops) {table : Table} {ps : List Nat}
    {symbols : SymbolTable} (represents : Represents table ps symbols) : ∃ after last,
      steps allocator table ops = some after ∧ Represents after ps last ∧ stackOf last = (stackOf symbols).run ops := by
  induction inside generalizing table ps symbols with
  | nil => exact ⟨table, symbols, rfl, represents, rfl⟩
  | @add name entry rest later ih =>
    obtain ⟨between, next, added, represents', stack⟩ := addStep allocator represents name entry
    obtain ⟨after, last, ran, finally_, stack'⟩ := ih represents'
    refine ⟨after, last, (stepsCons allocator added rest).trans ran, finally_, ?_⟩
    rw [stack', stack]
    rfl
  | @block inner rest inside later inner' rest' =>
    obtain ⟨between, next, ran, entered, stack⟩ := inner' (pushRepresents allocator represents)
    obtain ⟨left, popped, around⟩ := popRepresents entered
    rw [if_neg represents.nonempty] at around
    obtain ⟨after, last, ran', finally_, stack'⟩ := rest' around
    refine ⟨after, last, ?_, finally_, ?_⟩
    · calc steps allocator table (.push :: inner ++ .pop :: rest)
          = steps allocator (symbolTablePushScope allocator table) (inner ++ .pop :: rest) := stepsCons allocator rfl _
        _ = steps allocator between (.pop :: rest) := stepsAppend allocator ran _
        _ = steps allocator left rest := @stepsCons allocator _ _ .pop popped rest
        _ = some after := ran'
    · rw [stack', stackPop, stack, Stack.runAppend]
      rfl

end runs

theorem Chain.holding {memory : Memory} {current : Option Nat} {ps : List Nat} {scopes : List Scope}
    (chain : Chain memory current ps scopes) {p : Nat} {cell : ScopeCell} (member : p ∈ ps)
    (found : memory.lookup p = some cell) : ∃ scope, Holds cell scope := by
  induction chain with
  | nil => cases member
  | @link q here ps scope scopes found' holds new outer ih =>
    rcases List.mem_cons.mp member with rfl | further
    · obtain rfl : here = cell := Option.some_inj.mp (found'.symm.trans found)
      exact ⟨scope, holds⟩
    · exact ih further

/-- Names in an array are distinct, and the array holds them. -/
def Sound (cell : ScopeCell) : Prop := ∃ entries : List Symbol,
  cell.symbols.take cell.symbolCount = entries.map some ∧ entries.length = cell.symbolCount ∧
    (entries.map Symbol.name).Nodup ∧ cell.symbolCount ≤ cell.capacity ∧ cell.symbols.length = cell.capacity

-- The lowest address above all that are in use.
def bumpAllocator : Allocator where
  malloc memory := memory.keys.foldr max 0 + 1
  fresh memory := by
    rw [AList.mem_keys]
    have above : ∀ keys : List Nat, ∀ p ∈ keys, p ≤ keys.foldr max 0 := by
      intro keys
      induction keys with
      | nil => simp
      | cons q keys ih => simp only [List.mem_cons, List.foldr_cons]; grind
    intro member
    exact absurd (above _ _ member) (by omega)

/-- The table in memory is a stack of finite maps, in every run. -/
theorem tableRefines (allocator : Allocator) (ops : List (Op CString Entry)) :
    ∃ table, steps allocator (symbolTableCreate allocator) ops = some table ∧
      (∀ name, symbolTableLookup table name = some (((Stack.empty.run ops : Maps).lookup name).map (symbolOf name))) ∧
      (∀ name type isParam isMutable isInitialized, ∃ accepted after,
        symbolTableAddSymbol table (some name) (some type) isParam isMutable isInitialized = some (accepted, after) ∧
        (accepted = false ↔ name ∈ (Stack.empty.run ops : Maps).top) ∧ (accepted = false → after = table)) ∧
      (table.currentScope = table.globalScope → symbolTablePopScope table = some table) ∧
      (∀ p cell, table.memory.lookup p = some cell → Sound cell) ∧
      ∀ inner, Inside inner → ∃ after, steps allocator table (.push :: inner ++ [.pop]) = some after ∧
        after.currentScope = table.currentScope ∧ ∀ name, symbolTableLookup after name = symbolTableLookup table name := by
  obtain ⟨table, ps, symbols, ran, represents, stack⟩ := stepsRepresent allocator ops (createRepresents allocator)
  have start : stackOf BitN.symbolTableCreate = Stack.empty := rfl
  rw [start] at stack
  refine ⟨table, ran, fun name => ?_, fun name type isParam isMutable isInitialized => ?_, popGlobal,
    fun p cell found => ?_, fun inner inside => ?_⟩
  · rw [lookupRepresents represents, stackLookup, stack]
  · have refusal := addSymbolRefused symbols name type isParam isMutable isInitialized
    have known : BitN.symbolTableIsDefinedLocal symbols name = true ↔ name ∈ (Stack.empty.run ops : Maps).top := by
      rw [← stack, stackTop, mapKnown, BitN.symbolTableIsDefinedLocal, Option.isSome_iff_ne_none]
      rfl
    rw [known] at refusal
    rcases addRepresents represents name type isParam isMutable isInitialized with
      ⟨refused, same⟩ | ⟨after, next, accepted, added, grown⟩
    · exact ⟨false, table, same, iff_of_true rfl (refusal.mp refused), fun _ => rfl⟩
    · have fresh : name ∉ (Stack.empty.run ops : Maps).top := by
        rw [← refusal, accepted]
        exact Option.some_ne_none _
      exact ⟨true, after, added, iff_of_false Bool.noConfusion fresh, fun no => absurd no Bool.noConfusion⟩
  · have member := (represents.live p).mp (AList.lookup_isSome.mp (Option.isSome_of_eq_some found))
    obtain ⟨scope, holds⟩ := represents.chain.holding member found
    exact ⟨scope.entries, holds.written, holds.count.symm, scope.distinct, holds.room, holds.allocated⟩
  · obtain ⟨after, last, ran', kept, stack'⟩ := insideRepresents allocator (.block inside .nil) represents
    refine ⟨after, ran', kept.chain.head.trans represents.chain.head.symm, fun name => ?_⟩
    rw [lookupRepresents kept, lookupRepresents represents, stackLookup, stackLookup, stack', Stack.runBalanced inside]

example : ((steps bumpAllocator (symbolTableCreate bumpAllocator) ((List.range 17).map fun i =>
    .add (List.replicate i 'x') ⟨.typeU8, false, true, true⟩)).bind fun table =>
      (table.memory.lookup 1).map fun scope => (scope.symbolCount, scope.capacity)) = some (17, 32) := by
  decide +kernel

end BitN.ScopeMemory

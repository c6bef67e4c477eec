import BitN.TypeInference
import Mathlib.Data.List.AList

/-! The symbol table as it lies in memory: scopes at addresses, each with an array of symbols that
grows and a pointer to its parent. Every allocation succeeds; a result of none is an access to memory
that is not there. -/
namespace BitN.ScopeMemory

structure ScopeCell where
  symbols : List (Option Symbol)
  symbolCount : Nat
  capacity : Nat
  parent : Option Nat

abbrev Memory := AList fun _ : Nat => ScopeCell

/-- Any choice of an address that is not in use. -/
structure Allocator where
  malloc : Memory → Nat
  fresh : ∀ memory, malloc memory ∉ memory

structure Table where
  memory : Memory
  currentScope : Option Nat
  globalScope : Option Nat

def initialScopeCapacity : Nat := 16

def scopeCreate (allocator : Allocator) (memory : Memory) (parent : Option Nat) : Nat × Memory :=
  let scope := allocator.malloc memory
  (scope, memory.insert scope ⟨List.replicate initialScopeCapacity none, 0, initialScopeCapacity, parent⟩)

def scopeFree (memory : Memory) (scope : Nat) : Memory := memory.erase scope

def symbolTableCreate (allocator : Allocator) : Table :=
  let (globalScope, memory) := scopeCreate allocator ∅ none
  ⟨memory, some globalScope, some globalScope⟩

def symbolTablePushScope (allocator : Allocator) (table : Table) : Table :=
  let (newScope, memory) := scopeCreate allocator table.memory table.currentScope
  { table with memory, currentScope := some newScope }

def symbolTablePopScope (table : Table) : Option Table :=
  match table.currentScope with
  | none => some { table with currentScope := table.globalScope }
  | some current =>
    if table.currentScope = table.globalScope then some table
    else do
      let oldScope ← table.memory.lookup current
      some { table with currentScope := oldScope.parent, memory := scopeFree table.memory current }

-- The loop from index `i` on, with `n` symbols to go.
def scanFrom (scope : ScopeCell) (name : CString) (i : Nat) : Nat → Option (Option Symbol)
  | 0 => some none
  | n + 1 => do
    let sym ← scope.symbols[i]?.join
    if sym.name = name then some (some sym) else scanFrom scope name (i + 1) n

def scanScope (scope : ScopeCell) (name : CString) : Option (Option Symbol) := scanFrom scope name 0 scope.symbolCount

def lookupFrom (memory : Memory) (name : CString) : Nat → Option Nat → Option (Option Symbol)
  | _, none => some none
  | 0, some _ => none
  | n + 1, some scope => do
    let cell ← memory.lookup scope
    match ← scanScope cell name with
    | some sym => some (some sym)
    | none => lookupFrom memory name n cell.parent

-- A chain longer than the number of scopes would be a circle.
def symbolTableLookup (table : Table) (name : CString) : Option (Option Symbol) :=
  lookupFrom table.memory name table.memory.keys.length table.currentScope

def symbolTableLookupLocal (table : Table) (name : CString) : Option (Option Symbol) :=
  match table.currentScope with
  | none => some none
  | some current => do
    let scope ← table.memory.lookup current
    scanScope scope name

def symbolTableIsDefinedLocal (table : Table) (name : CString) : Option Bool :=
  (symbolTableLookupLocal table name).map Option.isSome

def realloc (symbols : List (Option Symbol)) (capacity : Nat) : List (Option Symbol) :=
  symbols.take capacity ++ List.replicate (capacity - symbols.length) none

-- A symbol takes more than one byte, so memory is full before `capacity *= 2` can wrap.
def scopeResize (scope : ScopeCell) : ScopeCell :=
  if scope.symbolCount ≥ scope.capacity then
    { scope with capacity := scope.capacity * 2, symbols := realloc scope.symbols (scope.capacity * 2) }
  else scope

def scopeAppend (scope : ScopeCell) (sym : Symbol) : Option ScopeCell :=
  if scope.symbolCount < scope.symbols.length then
    some { scope with
      symbols := scope.symbols.set scope.symbolCount (some sym), symbolCount := scope.symbolCount + 1 }
  else none

/-- What it returns, 1 or 0 as a Boolean, and the table afterwards. -/
def symbolTableAddSymbol (table : Table) (name : Option CString) (type : Option TypeKind)
    (isParam isMutable isInitialized : Bool) : Option (Bool × Table) :=
  match table.currentScope, name, type with
  | some current, some name, some type => do
    if ← symbolTableIsDefinedLocal table name then return (false, table)
    let scope ← table.memory.lookup current
    let scope ← scopeAppend (scopeResize scope) ⟨name, type, isParam, isMutable, isInitialized⟩
    return (true, { table with memory := table.memory.insert current scope })
  | _, _, _ => some (false, table)

/-! Which table of the checker it is -/

structure Holds (cell : ScopeCell) (scope : Scope) : Prop where
  written : cell.symbols.take cell.symbolCount = scope.entries.map some
  room : cell.symbolCount ≤ cell.capacity
  allocated : cell.symbols.length = cell.capacity
  positive : 0 < cell.capacity

/-- The scopes from a pointer on, with their addresses. -/
inductive Chain (memory : Memory) : Option Nat → List Nat → List Scope → Prop where
  | nil : Chain memory none [] []
  | link {p cell ps scope scopes} (found : memory.lookup p = some cell) (holds : Holds cell scope) (new : p ∉ ps)
      (outer : Chain memory cell.parent ps scopes) : Chain memory (some p) (p :: ps) (scope :: scopes)

structure Represents (table : Table) (ps : List Nat) (symbols : SymbolTable) : Prop where
  chain : Chain table.memory table.currentScope ps symbols.scopes
  global : table.globalScope = ps.getLast?
  live : ∀ p, p ∈ table.memory ↔ p ∈ ps

section chain
variable {memory memory' : Memory} {current : Option Nat} {ps : List Nat} {scopes : List Scope}

theorem Chain.frame (same : ∀ p ∈ ps, memory'.lookup p = memory.lookup p) (chain : Chain memory current ps scopes) :
    Chain memory' current ps scopes := by
  induction chain with
  | nil => exact .nil
  | link found holds new outer ih =>
    have here := (same _ List.mem_cons_self).trans found
    exact .link here holds new (ih fun p member => same p (List.mem_cons_of_mem _ member))

theorem Chain.nodup (chain : Chain memory current ps scopes) : ps.Nodup := by
  induction chain with
  | nil => exact List.nodup_nil
  | link found holds new outer ih => exact List.nodup_cons.mpr ⟨new, ih⟩

theorem Chain.length (chain : Chain memory current ps scopes) : ps.length = scopes.length := by
  induction chain with
  | nil => rfl
  | link found holds new outer ih => rw [List.length_cons, List.length_cons, ih]

theorem Chain.head (chain : Chain memory current ps scopes) : current = ps.head? := by
  cases chain <;> rfl

end chain

/-! Lookup -/

theorem Holds.count {cell : ScopeCell} {scope : Scope} (holds : Holds cell scope) :
    cell.symbolCount = scope.entries.length := by
  have length := congrArg List.length holds.written
  have := holds.room
  have := holds.allocated
  simp only [List.length_take, List.length_map] at length
  omega

theorem Holds.read {cell : ScopeCell} {scope : Scope} (holds : Holds cell scope) {i : Nat}
    (inside : i < cell.symbolCount) :
    cell.symbols[i]? = (scope.entries.map some)[i]? := by
  rw [← holds.written, List.getElem?_take_of_lt inside]

theorem scanFinds {cell : ScopeCell} {scope : Scope} (holds : Holds cell scope) (name : CString) (n i : Nat)
    (rest : i + n = cell.symbolCount) :
    scanFrom cell name i n = some ((scope.entries.drop i).find? fun sym => sym.name = name) := by
  have count := holds.count
  induction n generalizing i with
  | zero => rw [scanFrom, List.drop_eq_nil_of_le (by omega), List.find?_nil]
  | succ n ih =>
    have inside : i < scope.entries.length := by omega
    have here : cell.symbols[i]? = some (some scope.entries[i]) := by
      rw [holds.read (by omega), List.getElem?_map, List.getElem?_eq_getElem inside]
      rfl
    rw [scanFrom, here, List.drop_eq_getElem_cons inside, List.find?_cons]
    change (if scope.entries[i].name = name then some (some scope.entries[i]) else scanFrom cell name (i + 1) n) = _
    by_cases same : scope.entries[i].name = name
    · simp [same]
    · simp [same, ih (i + 1) (by omega)]

theorem scopeScanned {cell : ScopeCell} {scope : Scope} (holds : Holds cell scope) (name : CString) :
    scanScope cell name = some (scope.find name) :=
  scanFinds holds name cell.symbolCount 0 (Nat.zero_add _)

theorem chainLookup {memory : Memory} {current : Option Nat} {ps : List Nat} {scopes : List Scope}
    (chain : Chain memory current ps scopes) (name : CString) {n : Nat} (enough : ps.length ≤ n) :
    lookupFrom memory name n current = some (Scopes.lookup scopes name) := by
  induction chain generalizing n with
  | nil => cases n <;> rfl
  | @link p cell ps scope scopes found holds new outer ih =>
    obtain ⟨n, rfl⟩ := Nat.exists_eq_succ_of_ne_zero (by simp at enough; omega : n ≠ 0)
    have rest := ih (n := n) (by simpa using enough)
    rw [lookupFrom, found]
    change (scanScope cell name).bind _ = _
    rw [scopeScanned holds, Scopes.lookup, List.findSome?_cons]
    cases scope.find name with
    | none => exact rest
    | some sym => rfl

theorem lookupRepresents {table : Table} {ps : List Nat} {symbols : SymbolTable}
    (represents : Represents table ps symbols)
    (name : CString) : symbolTableLookup table name = some (BitN.symbolTableLookup symbols name) := by
  have keys : ps ⊆ table.memory.keys := fun p member => AList.mem_keys.mp ((represents.live p).mpr member)
  exact chainLookup represents.chain name (List.subperm_of_subset represents.chain.nodup keys).length_le

theorem lookupLocalRepresents {table : Table} {ps : List Nat} {symbols : SymbolTable}
    (represents : Represents table ps symbols) (name : CString) :
    symbolTableLookupLocal table name = some (BitN.symbolTableLookupLocal symbols name) := by
  obtain ⟨outer, scopes⟩ := scopesCurrent symbols
  have current : symbols.scopes = symbols.currentScope :: outer := by rw [← scopes, setCurrentSame]
  have chain := represents.chain
  rw [current] at chain
  unfold symbolTableLookupLocal
  generalize table.currentScope = pointer at chain
  cases chain with
  | link found holds new outer =>
    dsimp only
    rw [found]
    exact scopeScanned holds name

/-! Steps -/

theorem holdsEmpty (parent : Option Nat) :
    Holds ⟨List.replicate initialScopeCapacity none, 0, initialScopeCapacity, parent⟩ Scopes.Scope.empty where
  written := rfl
  room := Nat.zero_le _
  allocated := List.length_replicate
  positive := Nat.succ_pos 15

section create
variable (allocator : Allocator) {memory : Memory} {parent : Option Nat} {ps : List Nat} {scopes : List Scope}

theorem scopeCreated (chain : Chain memory parent ps scopes) (live : ∀ p, p ∈ memory ↔ p ∈ ps) :
    Chain (scopeCreate allocator memory parent).2 (some (allocator.malloc memory)) (allocator.malloc memory :: ps)
        (.empty :: scopes) ∧
      ∀ p, p ∈ (scopeCreate allocator memory parent).2 ↔ p ∈ allocator.malloc memory :: ps := by
  have new : allocator.malloc memory ∉ ps := (live _).not.mp (allocator.fresh memory)
  have others : Chain (scopeCreate allocator memory parent).2 parent ps scopes := chain.frame fun p member =>
    AList.lookup_insert_ne fun same => new (same ▸ member)
  refine ⟨.link (AList.lookup_insert _) (holdsEmpty parent) new others, fun p => ?_⟩
  rw [List.mem_cons, ← live]
  exact AList.mem_insert memory

end create

theorem createRepresents (allocator : Allocator) :
    Represents (symbolTableCreate allocator) [allocator.malloc ∅] BitN.symbolTableCreate := by
  obtain ⟨chain, live⟩ := scopeCreated allocator .nil fun p =>
    iff_of_false (AList.notMem_empty p) List.not_mem_nil
  exact ⟨chain, rfl, live⟩

theorem pushRepresents (allocator : Allocator) {table : Table} {ps : List Nat} {symbols : SymbolTable}
    (represents : Represents table ps symbols) :
    Represents (symbolTablePushScope allocator table) (allocator.malloc table.memory :: ps)
      (BitN.symbolTablePushScope symbols) := by
  obtain ⟨chain, live⟩ := scopeCreated allocator represents.chain represents.live
  refine ⟨chain, ?_, live⟩
  have some_ : ps ≠ [] := by
    have length := represents.chain.length
    intro none
    simp [none, SymbolTable.scopes] at length
  rw [List.getLast?_cons_of_ne_nil some_]
  exact represents.global

theorem popGlobal {table : Table} (bottom : table.currentScope = table.globalScope) :
    symbolTablePopScope table = some table := by
  obtain ⟨memory, currentScope, globalScope⟩ := table
  obtain rfl : currentScope = globalScope := bottom
  cases currentScope with
  | none => rfl
  | some p => exact if_pos rfl

/-- Only the outermost address is left where nothing is popped. -/
theorem popRepresents {table : Table} {p : Nat} {ps : List Nat} {symbols : SymbolTable}
    (represents : Represents table (p :: ps) symbols) :
    ∃ after, symbolTablePopScope table = some after ∧
      Represents after (if ps = [] then [p] else ps) (BitN.symbolTablePopScope symbols) := by
  obtain ⟨chain, global, live⟩ := represents
  have length := chain.length
  have current := chain.head
  have nodup := chain.nodup
  rcases symbols with ⟨_ | ⟨scope, inner⟩, globalScope⟩
  · obtain rfl : ps = [] := by simpa [SymbolTable.scopes] using length
    exact ⟨table, popGlobal (current.trans global.symm), chain, global, live⟩
  · have more : ps ≠ [] := by
      rintro rfl
      simp [SymbolTable.scopes] at length
    rw [List.getLast?_cons_of_ne_nil more] at global
    have inside : table.currentScope ≠ table.globalScope := by
      intro same
      have last : ps.getLast? = some p := by rw [← global, ← same, current]; rfl
      exact (List.nodup_cons.mp nodup).1 (List.mem_of_getLast? last)
    cases table with | mk memory currentScope globalPointer =>
    obtain rfl : currentScope = some p := current
    cases chain with
    | @link _ cell _ _ _ found holds new outer =>
      refine ⟨⟨scopeFree memory p, cell.parent, globalPointer⟩, ?_, ?_⟩
      · unfold symbolTablePopScope
        dsimp only
        rw [if_neg inside, found]
        rfl
      · rw [if_neg more]
        refine ⟨outer.frame fun q member => AList.lookup_erase_ne fun same => new (same ▸ member), global, fun q => ?_⟩
        unfold scopeFree
        rw [AList.mem_erase, live, List.mem_cons]
        constructor
        · rintro ⟨other, rfl | member⟩
          · exact absurd rfl other
          · exact member
        · exact fun member => ⟨fun same => new (same ▸ member), .inr member⟩

theorem resizeHolds {cell : ScopeCell} {scope : Scope} (holds : Holds cell scope) :
    Holds (scopeResize cell) scope ∧ (scopeResize cell).symbolCount = cell.symbolCount ∧
      (scopeResize cell).parent = cell.parent ∧ (scopeResize cell).symbolCount < (scopeResize cell).capacity := by
  obtain ⟨written, room, allocated, positive⟩ := holds
  unfold scopeResize
  split
  · have whole : cell.symbols.take (cell.capacity * 2) = cell.symbols := List.take_of_length_le (by omega)
    refine ⟨⟨?_, by dsimp only; omega, ?_, by dsimp only; omega⟩, rfl, rfl, by dsimp only; omega⟩
    · unfold realloc
      dsimp only
      rw [whole, List.take_append_of_le_length (by omega), written]
    · unfold realloc
      simp only [whole, List.length_append, List.length_replicate]
      omega
  · exact ⟨⟨written, room, allocated, positive⟩, rfl, rfl, by omega⟩

theorem appendHolds {cell : ScopeCell} {scope next : Scope} {sym : Symbol} (holds : Holds cell scope)
    (declared : scope.declare sym = some next) (room : cell.symbolCount < cell.capacity) :
    ∃ grown, scopeAppend cell sym = some grown ∧ Holds grown next ∧ grown.parent = cell.parent := by
  have inside : cell.symbolCount < cell.symbols.length := by rw [holds.allocated]; exact room
  refine ⟨_, if_pos inside, ⟨?_, room, ?_, holds.positive⟩, rfl⟩
  · dsimp only
    rw [(Scopes.Scope.declareExtends.mp declared).2, List.map_append, ← holds.written, List.take_add_one,
      List.take_set_of_le (Nat.le_refl _), List.getElem?_set_self inside]
    rfl
  · dsimp only
    rw [List.length_set, holds.allocated]

theorem addRepresents {table : Table} {ps : List Nat} {symbols : SymbolTable} (represents : Represents table ps symbols)
    (name : CString) (type : TypeKind) (isParam isMutable isInitialized : Bool) :
    (BitN.symbolTableAddSymbol symbols name (some type) isParam isMutable isInitialized = none ∧
      symbolTableAddSymbol table (some name) (some type) isParam isMutable isInitialized = some (false, table)) ∨
    ∃ after next, BitN.symbolTableAddSymbol symbols name (some type) isParam isMutable isInitialized = some next ∧
      symbolTableAddSymbol table (some name) (some type) isParam isMutable isInitialized = some (true, after) ∧
      Represents after ps next := by
  have defined : symbolTableIsDefinedLocal table name = some (BitN.symbolTableIsDefinedLocal symbols name) := by
    rw [symbolTableIsDefinedLocal, lookupLocalRepresents represents]
    rfl
  obtain ⟨outer, scopes⟩ := scopesCurrent symbols
  have current : symbols.scopes = symbols.currentScope :: outer := by rw [← scopes, setCurrentSame]
  obtain ⟨memory, pointer, globalScope⟩ := table
  obtain ⟨chain, global, live⟩ := represents
  rw [current] at chain
  cases chain with
  | @link p cell ps _ _ found holds new others =>
    cases declared : symbols.currentScope.declare ⟨name, type, isParam, isMutable, isInitialized⟩ with
    | none =>
      have refused : BitN.symbolTableAddSymbol symbols name (some type) isParam isMutable isInitialized = none := by
        rw [BitN.symbolTableAddSymbol, declared]
        rfl
      have known := (addSymbolRefused symbols name type isParam isMutable isInitialized).mp refused
      refine .inl ⟨refused, ?_⟩
      simp only [symbolTableAddSymbol, defined, known]
      rfl
    | some next =>
      have added : BitN.symbolTableAddSymbol symbols name (some type) isParam isMutable isInitialized =
          some (symbols.setCurrent next) := by
        rw [BitN.symbolTableAddSymbol, declared]
        rfl
      have unknown : BitN.symbolTableIsDefinedLocal symbols name = false := by
        rw [← Bool.not_eq_true, ← addSymbolRefused symbols name type isParam isMutable isInitialized, added]
        exact Option.some_ne_none _
      obtain ⟨resized, count, parent, room⟩ := resizeHolds holds
      obtain ⟨grown, appended, holdsNext, parent'⟩ := appendHolds resized declared room
      refine .inr ⟨⟨memory.insert p grown, some p, globalScope⟩, symbols.setCurrent next, added, ?_, ?_, global,
        fun q => ?_⟩
      · simp only [symbolTableAddSymbol, defined, unknown]
        change (memory.lookup p).bind _ = _
        rw [found]
        change (scopeAppend (scopeResize cell) _).bind _ = _
        rw [appended]
        rfl
      · rw [scopes]
        refine .link (AList.lookup_insert memory) holdsNext new ?_
        rw [parent', parent]
        exact others.frame fun q member => AList.lookup_insert_ne fun same => new (same ▸ member)
      · rw [← live]
        change q ∈ memory.insert p grown ↔ q ∈ memory
        rw [AList.mem_insert, or_iff_right_iff_imp]
        rintro rfl
        exact (live q).mpr List.mem_cons_self

end BitN.ScopeMemory

import BitN.AstOwnership
import BitN.CheckerMemory

/-! Which blocks the checker owns: for each symbol its name and its type, for each scope its array. -/
namespace BitN.CheckerMemory
open Heap AstMemory

inductive SymbolAt : Symbol → SymbolNode → Bag → Prop where
  | symbol {sym q t} : SymbolAt sym ⟨some q, some t, sym.isParameter, sym.isMutable, sym.isInitialized⟩
      ({⟨q, .text sym.name⟩} + {⟨t, .type sym.type⟩})

def scopeCell (p : Nat) (node : ScopeNode) : Bag := {⟨p, .scope node⟩}

def symbolsCell (array capacity : Nat) (slots : List SymbolNode) : Bag := {⟨array, .symbols capacity slots⟩}

inductive ScopeAt : Scope → Pointer → Nat → Bag → Prop where
  | scope {scope parent p array capacity slots ms} (room : slots.length ≤ capacity) (some_ : 0 < capacity)
      (each : EachAt SymbolAt scope.entries slots ms) :
      ScopeAt scope parent p (scopeCell p ⟨some array, scope.entries.length, capacity, parent⟩ +
        (symbolsCell array capacity slots + ms))

/-- The scopes inside the global one, each with its address. -/
inductive InnerAt (globalScope : Nat) : List Scope → Nat → Bag → Prop where
  | nil : InnerAt globalScope [] globalScope 0
  | cons {scope scopes p parent m ms} (top : ScopeAt scope (some parent) p m)
      (outer : InnerAt globalScope scopes parent ms) :
      InnerAt globalScope (scope :: scopes) p (m + ms)

def tableCell (p current globalScope : Nat) : Bag := {⟨p, .table ⟨some current, some globalScope⟩⟩}

inductive TableAt : SymbolTable → Nat → Bag → Prop where
  | table {symbols p current globalScope m ms} (inner : InnerAt globalScope symbols.inner current ms)
      (bottom : ScopeAt symbols.globalScope none globalScope m) :
      TableAt symbols p (tableCell p current globalScope + (ms + m))

inductive ContextAt : TypeContext → Nat → Bag → Prop where
  | context {ctx p table expected m types} (symbols : TableAt ctx.symbols table m)
      (typed : TypeAt ctx.expectedReturnType expected types) :
      ContextAt ctx p ({⟨p, .context ⟨some table, ctx.errorCount, ctx.currentFunction, expected⟩⟩} + (m + types))

/-! Symbols -/

theorem textRead {p : Nat} {text : CString} {owned rest : Bag} (split : owned = {⟨p, .text text⟩} + rest) :
    Runs owned (loadText (some p)) fun found left => found = text ∧ left = owned :=
  runsKept split (loadedAs rfl)

theorem symbolRead {array capacity i : Nat} {slots : List SymbolNode} {sym : SymbolNode} (here : slots[i]? = some sym) :
    Runs (symbolsCell array capacity slots) (getSymbol (some array) i) fun found left =>
      found = sym ∧ left = symbolsCell array capacity slots := by
  refine runsBind (loadedAs rfl) ?_
  rintro _ _ ⟨rfl, rfl⟩
  simp only [here]
  exact runsPure ⟨rfl, rfl⟩

/-- Where a symbol lies among the blocks `m`. -/
def Resolves (m : Bag) : Option Symbol → SymbolPointer → Prop
  | none, found => found = none
  | some sym, found => ∃ array i capacity slots node t rest, found = some (array, i) ∧ slots[i]? = some node ∧
      node.type = some t ∧ m = symbolsCell array capacity slots + ({⟨t, .type sym.type⟩} + rest)

theorem Resolves.frame {m : Bag} {sym : Option Symbol} {found : SymbolPointer} (resolves : Resolves m sym found)
    (rest : Bag) :
    Resolves (m + rest) sym found := by
  cases sym with
  | none => exact resolves
  | some sym =>
    obtain ⟨array, i, capacity, slots, node, t, others, points, here, typed, rfl⟩ := resolves
    exact ⟨array, i, capacity, slots, node, t, others + rest, points, here, typed, by rw [add_assoc, add_assoc]⟩

theorem scanned {entries : List Symbol} {slots : List SymbolNode} {ms : Bag} (each : EachAt SymbolAt entries slots ms)
    (array capacity : Nat) (name : CString) {n i : Nat} (rest : i + n = entries.length) :
    Runs (symbolsCell array capacity slots + ms) (scanScope (some array) name i n) fun found left =>
      left = symbolsCell array capacity slots + ms ∧
        Resolves (symbolsCell array capacity slots + ms) ((entries.drop i).find? fun sym => sym.name = name) found := by
  induction n generalizing i with
  | zero =>
    rw [List.drop_eq_nil_of_le (by omega)]
    exact runsPure ⟨rfl, rfl⟩
  | succ n ih =>
    have inside : i < entries.length := by omega
    obtain ⟨node, m, others, here, symbolAt, rfl⟩ := each.get (List.getElem?_eq_getElem inside)
    rw [List.drop_eq_getElem_cons inside, List.find?_cons]
    generalize entries[i] = sym at symbolAt
    cases symbolAt with
    | @symbol q t =>
      refine runsCall rfl (symbolRead here) ?_
      rintro _ _ ⟨rfl, rfl⟩
      have split : symbolsCell array capacity slots + ({⟨q, .text sym.name⟩} + {⟨t, .type sym.type⟩} + others) =
          {⟨q, .text sym.name⟩} + (symbolsCell array capacity slots + ({⟨t, .type sym.type⟩} + others)) := by ac_rfl
      refine runsCall split (loadedAs rfl) ?_
      rintro _ _ ⟨rfl, rfl⟩
      rw [← split]
      by_cases same : sym.name = name
      · rw [if_pos same]
        simp only [same, decide_true]
        refine runsPure ⟨rfl, array, i, capacity, slots, _, t, {⟨q, .text name⟩} + others, rfl, here, rfl, ?_⟩
        ac_rfl
      · rw [if_neg same]
        simp only [same, decide_false]
        exact ih (by omega)

theorem scopeSearched {scope : Scope} {parent : Pointer} {p : Nat} {m rest : Bag} (held : ScopeAt scope parent p m)
    (name : CString) {α : Type} {next : ScopeNode → Client α} {Q : α → Bag → Prop}
    (then_ : ∀ node, node.parent = parent → (Runs m (scanScope node.symbols name 0 node.symbolCount) fun found left =>
      left = m ∧ Resolves m (scope.find name) found) → Runs (m + rest) (next node) Q) :
    Runs (m + rest) (loadScope p >>= next) Q := by
  cases held with
  | @scope array capacity slots ms room some_ each =>
    rw [add_assoc]
    refine runsCall rfl (loadedAs rfl) ?_
    rintro _ _ ⟨rfl, rfl⟩
    rw [← add_assoc]
    refine then_ _ rfl ?_
    rw [add_comm]
    refine runsWeaken (runsFrame (scanned each array capacity name (Nat.zero_add _)) _) ?_
    rintro found _ ⟨_, rfl, rfl, resolves⟩
    exact ⟨rfl, resolves.frame _⟩

theorem chainSearched {globalScope : Scope} {bottom : Nat} {inner : List Scope} {current : Nat} {m ms rest : Bag}
    (global : ScopeAt globalScope none bottom m) (held : InnerAt bottom inner current ms) (name : CString) {n : Nat}
    (enough : inner.length < n) : Runs (ms + m + rest) (lookupFrom name (some current) n) fun found left =>
      left = ms + m + rest ∧ Resolves (ms + m + rest) (Scopes.lookup (inner ++ [globalScope]) name) found := by
  induction held generalizing n rest with
  | nil =>
    obtain ⟨n, rfl⟩ := Nat.exists_eq_succ_of_ne_zero (Nat.ne_zero_of_lt enough)
    rw [zero_add]
    refine scopeSearched global name fun node parent scan => runsCall rfl scan ?_
    rintro found _ ⟨rfl, resolves⟩
    rw [List.nil_append, Scopes.lookup, List.findSome?_cons, List.findSome?_nil]
    cases known : globalScope.find name with
    | none =>
      rw [known] at resolves
      subst resolves
      rw [parent]
      cases n <;> exact runsPure ⟨rfl, rfl⟩
    | some sym =>
      rw [known] at resolves
      obtain ⟨array, i, _, _, _, _, _, rfl, _⟩ := id resolves
      exact runsPure ⟨rfl, resolves.frame rest⟩
  | @cons scope scopes p parent m' ms top outer ih =>
    obtain ⟨n, rfl⟩ := Nat.exists_eq_succ_of_ne_zero (Nat.ne_zero_of_lt enough)
    have split : m' + ms + m + rest = m' + (ms + m + rest) := by ac_rfl
    rw [split]
    refine scopeSearched top name fun node parent' scan => runsCall rfl scan ?_
    rintro found m' ⟨rfl, resolves⟩
    rw [List.cons_append, Scopes.lookup, List.findSome?_cons]
    cases known : scope.find name with
    | none =>
      rw [known] at resolves
      subst resolves
      have others : m' + (ms + m + rest) = ms + m + (m' + rest) := by ac_rfl
      rw [parent', others]
      exact ih (by simpa using enough)
    | some sym =>
      rw [known] at resolves
      obtain ⟨array, i, _, _, _, _, _, rfl, _⟩ := id resolves
      exact runsPure ⟨rfl, resolves.frame _⟩

theorem InnerAt.length {bottom current : Nat} {inner : List Scope} {ms : Bag} (held : InnerAt bottom inner current ms) :
    inner.length ≤ ms.card := by
  induction held with
  | nil => exact Nat.zero_le _
  | cons top outer ih =>
    cases top with
    | scope room some_ each =>
      rw [List.length_cons, Multiset.card_add, Multiset.card_add, scopeCell, Multiset.card_singleton]
      omega

section table
variable {symbols : SymbolTable} {p : Nat} {m : Bag}

theorem tableSearched (held : TableAt symbols p m) (name : CString) :
    Runs m (symbolTableLookup (some p) name) fun found left =>
      left = m ∧ Resolves m (BitN.symbolTableLookup symbols name) found := by
  cases held with
  | @table current globalScope m ms inner bottom =>
    refine runsCall rfl (loadedAs rfl) ?_
    rintro _ _ ⟨rfl, rfl⟩
    refine runsWalk fun n enough => ?_
    have few := inner.length
    rw [Multiset.card_add, Multiset.card_add, Multiset.card_singleton] at enough
    rw [tableCell, add_comm]
    exact chainSearched bottom inner name (by omega)

/-- The current scope, and the table where it is another. -/
theorem tableCurrent (held : TableAt symbols p m) : ∃ current globalScope parent cells rest,
    m = tableCell p current globalScope + (cells + rest) ∧ ScopeAt symbols.currentScope parent current cells ∧
      ∀ scope cells', ScopeAt scope parent current cells' →
        TableAt (symbols.setCurrent scope) p (tableCell p current globalScope + (cells' + rest)) := by
  cases held with
  | @table current globalScope m ms inner bottom =>
    rcases symbols with ⟨_ | ⟨scope, scopes⟩, globalSymbols⟩
    · cases inner with
      | nil =>
        refine ⟨current, current, none, m, 0, by rw [zero_add, add_zero], bottom, fun scope cells' scopeAt => ?_⟩
        rw [add_comm cells']
        exact show TableAt ⟨[], scope⟩ _ _ from .table .nil scopeAt
    · cases inner with
      | @cons _ _ _ parent m' ms top outer =>
        refine ⟨current, globalScope, some parent, m', ms + m, by rw [add_assoc], top, fun scope cells' scopeAt => ?_⟩
        rw [← add_assoc cells']
        exact show TableAt ⟨scope :: scopes, globalSymbols⟩ _ _ from .table (.cons scopeAt outer) bottom

theorem definedSearched (held : TableAt symbols p m) (name : CString) :
    Runs m (symbolTableIsDefinedLocal (some p) name) fun found left =>
      left = m ∧ found = BitN.symbolTableIsDefinedLocal symbols name := by
  obtain ⟨current, globalScope, parent, cells, rest, rfl, scopeAt, -⟩ := tableCurrent held
  refine runsMap (runsCall rfl (loadedAs rfl) ?_)
  rintro _ _ ⟨rfl, rfl⟩
  rw [add_left_comm]
  refine scopeSearched scopeAt name fun node _ scan => runsWeaken (runsFrame scan _) ?_
  rintro found _ ⟨_, rfl, rfl, resolves⟩
  refine ⟨add_left_comm _ _ _, ?_⟩
  unfold BitN.symbolTableIsDefinedLocal BitN.symbolTableLookupLocal
  cases known : symbols.currentScope.find name with
  | none =>
    rw [known] at resolves
    rw [resolves]
    rfl
  | some sym =>
    rw [known] at resolves
    obtain ⟨array, i, _, _, _, _, _, rfl, _⟩ := resolves
    rfl

/-! Symbols added -/

theorem symbolsMoved (allocator : Allocator Block) {array capacity larger : Nat} {slots : List SymbolNode}
    (fits : slots.length ≤ larger) :
    Runs (symbolsCell array capacity slots) (reallocSymbols allocator (some array) larger)
      fun moved left => ∃ q, moved = some q ∧ left = symbolsCell q larger slots := by
  refine runsBind (loadedAs rfl) ?_
  rintro _ _ ⟨rfl, rfl⟩
  refine runsBind (runsFree (add_zero _).symm) ?_
  rintro _ _ rfl
  refine runsMap (runsWeaken (runsAlloc allocator _) ?_)
  rintro q _ rfl
  exact ⟨q, rfl, by rw [List.take_of_length_le fits, add_zero, symbolsCell]⟩

theorem symbolWritten {array capacity : Nat} {slots : List SymbolNode} (room : slots.length < capacity)
    (sym : SymbolNode) :
    Runs (symbolsCell array capacity slots) (setSymbol (some array) slots.length sym) fun _ left =>
      left = symbolsCell array capacity (slots ++ [sym]) := by
  refine runsBind (loadedAs rfl) ?_
  rintro _ _ ⟨rfl, rfl⟩
  simp only [room, and_self, if_true]
  refine runsWeaken (runsStore _ (add_zero _).symm) ?_
  rintro _ _ rfl
  exact add_zero _

theorem symbolAppended (allocator : Allocator Block) {scope next : Scope} {parent : Pointer} {current : Nat}
    {cells : Bag} (held : ScopeAt scope parent current cells) {name : CString} {kind : TypeKind}
    {isParam isMutable isInitialized : Bool}
    (declared : scope.declare ⟨name, kind, isParam, isMutable, isInitialized⟩ = some next) (t : Nat) :
    Runs (cells + {⟨t, .type kind⟩}) (appendSymbol allocator current name (some t) isParam isMutable isInitialized)
      fun _ left => ScopeAt next parent current left := by
  obtain ⟨-, entries⟩ := Scopes.Scope.declareExtends.mp declared
  cases held with
  | @scope array capacity slots ms room some_ each =>
    have count := each.length
    let sym : Symbol := ⟨name, kind, isParam, isMutable, isInitialized⟩
    have next_ : ∀ node q larger, slots.length < larger → Runs (scopeCell current node +
        (symbolsCell q larger slots + (ms + {⟨t, .type kind⟩}))) (do
          let copied ← alloc allocator (.text name)
          setSymbol (some q) scope.entries.length ⟨some copied, some t, isParam, isMutable, isInitialized⟩
          store current (.scope ⟨some q, scope.entries.length + 1, larger, parent⟩))
        fun _ left => ScopeAt next parent current left := by
      intro node q larger roomy
      refine runsBind (runsAlloc allocator _) ?_
      rintro copied _ rfl
      have split : {⟨copied, .text name⟩} +
          (scopeCell current node + (symbolsCell q larger slots + (ms + {⟨t, .type kind⟩}))) =
          symbolsCell q larger slots +
            (scopeCell current node + (ms + ({⟨copied, .text name⟩} + {⟨t, .type kind⟩}))) := by
        ac_rfl
      rw [← count]
      refine runsCall split (symbolWritten roomy _) ?_
      rintro _ _ rfl
      refine runsWeaken (runsStore _ (add_left_comm _ _ _)) ?_
      rintro _ _ rfl
      let node : SymbolNode := ⟨some copied, some t, isParam, isMutable, isInitialized⟩
      have grown := each.snoc (show SymbolAt sym node _ from .symbol)
      rw [← entries] at grown
      have room : (slots ++ [node]).length ≤ larger := by
        rw [List.length_append, List.length_singleton]
        omega
      have held : ScopeAt next parent current (scopeCell current ⟨some q, _, larger, parent⟩ + _) :=
        .scope room (by omega) grown
      rw [entries, List.length_append, List.length_singleton, ← count] at held
      exact held
    rw [add_assoc, add_assoc]
    refine runsCall rfl (loadedAs rfl) ?_
    rintro _ _ ⟨rfl, rfl⟩
    dsimp only
    split
    · refine runsCall (add_left_comm _ _ _) (symbolsMoved allocator (by omega)) ?_
      rintro _ _ ⟨q, rfl, rfl⟩
      rw [add_left_comm]
      exact next_ _ q (capacity * 2) (by omega)
    · exact next_ _ array capacity (by omega)

/-- A symbol that is refused leaves its type to no one. -/
theorem symbolAdded (allocator : Allocator Block) (held : TableAt symbols p m) (name : CString) (kind : TypeKind)
    (isParam isMutable isInitialized : Bool) (t : Nat) : Runs (m + {⟨t, .type kind⟩})
      (symbolTableAddSymbol allocator (some p) name (some t) isParam isMutable isInitialized) fun ok left =>
        match BitN.symbolTableAddSymbol symbols name (some kind) isParam isMutable isInitialized with
        | none => ok = false ∧ left = m + {⟨t, .type kind⟩}
        | some next => ok = true ∧ TableAt next p left := by
  have searched := definedSearched held name
  obtain ⟨current, globalScope, parent, cells, rest, rfl, scopeAt, grow⟩ := tableCurrent held
  rw [add_assoc]
  refine runsCall rfl (loadedAs rfl) ?_
  rintro _ _ ⟨rfl, rfl⟩
  dsimp only
  rw [← add_assoc]
  refine runsCall rfl searched ?_
  rintro found _ ⟨rfl, rfl⟩
  have refusal := addSymbolRefused symbols name kind isParam isMutable isInitialized
  cases added : BitN.symbolTableAddSymbol symbols name (some kind) isParam isMutable isInitialized with
  | none =>
    rw [refusal.mp added]
    exact runsPure ⟨rfl, add_assoc _ _ _⟩
  | some next =>
    have fresh : BitN.symbolTableIsDefinedLocal symbols name = false := by
      rw [← Bool.not_eq_true, ← refusal, added]
      exact Option.some_ne_none _
    rw [fresh]
    obtain ⟨scope, declared, rfl⟩ := Option.map_eq_some_iff.mp added
    have split : tableCell p current globalScope + (cells + rest) + {⟨t, .type kind⟩} =
        cells + {⟨t, .type kind⟩} + (tableCell p current globalScope + rest) := by ac_rfl
    refine runsCall split (symbolAppended allocator scopeAt declared t) fun _ left scopeAt' => ?_
    rw [add_left_comm]
    exact runsPure ⟨rfl, grow _ _ scopeAt'⟩

end table

/-! Scopes made and released -/

theorem scopeCreated (allocator : Allocator Block) (parent : Pointer) :
    Runs 0 (scopeCreate allocator parent) fun scope left =>
    ∃ p, scope = some p ∧ ScopeAt .empty parent p left := by
  refine runsBind (runsAlloc allocator _) ?_
  rintro p _ rfl
  refine runsBind (runsAlloc allocator _) ?_
  rintro array _ rfl
  refine runsBind (runsStore _ (add_left_comm _ _ _)) ?_
  rintro _ _ rfl
  exact runsPure ⟨p, rfl, .scope (Nat.zero_le _) (Nat.succ_pos 15) .nil⟩

theorem symbolsFreed {entries : List Symbol} {slots : List SymbolNode} (before : List SymbolNode) {array capacity : Nat}
    {ms : Bag} (each : EachAt SymbolAt entries slots ms) : Runs (symbolsCell array capacity (before ++ slots) + ms)
      (freeSymbols (some array) before.length entries.length) fun _ left =>
        left = symbolsCell array capacity (before ++ slots) := by
  induction each generalizing before with
  | nil => exact runsPure (add_zero _)
  | @cons sym node m syms nodes ms first others ih =>
    have here : (before ++ node :: nodes)[before.length]? = some node := by simp
    refine runsCall rfl (symbolRead here) ?_
    rintro node _ ⟨rfl, rfl⟩
    have next := ih (before ++ [node])
    rw [List.append_assoc, List.singleton_append, List.length_append, List.length_singleton] at next
    generalize before ++ node :: nodes = all at next ⊢
    cases first with
    | @symbol q t =>
      have split : symbolsCell array capacity all + ({⟨q, .text sym.name⟩} + {⟨t, .type sym.type⟩} + ms) =
          {⟨q, .text sym.name⟩} + ({⟨t, .type sym.type⟩} + (symbolsCell array capacity all + ms)) := by ac_rfl
      refine runsBind (runsFree split) ?_
      rintro _ _ rfl
      refine runsBind (runsFree rfl) ?_
      rintro _ _ rfl
      exact next

theorem scopeRead {scope : Scope} {parent : Pointer} {p : Nat} {m : Bag} (held : ScopeAt scope parent p m) :
    Runs m (loadScope p) fun node left => node.parent = parent ∧ left = m := by
  cases held with
  | scope room some_ each =>
    refine runsWeaken (runsFrame (x := loadScope p) (loadedAs rfl) _) ?_
    rintro _ _ ⟨_, rfl, rfl, rfl⟩
    exact ⟨rfl, rfl⟩

theorem scopeFreed {scope : Scope} {parent : Pointer} {p : Nat} {m : Bag} (held : ScopeAt scope parent p m) :
    Runs m (scopeFree (some p)) fun _ left => left = 0 := by
  cases held with
  | @scope array capacity slots ms room some_ each =>
    refine runsCall rfl (loadedAs rfl) ?_
    rintro _ _ ⟨rfl, rfl⟩
    refine runsCall (add_comm _ _) (symbolsFreed [] each) ?_
    rintro _ _ rfl
    refine runsBind (runsFree rfl) ?_
    rintro _ _ rfl
    exact runsFree (add_zero _).symm

/-! The table -/

section table
variable {symbols : SymbolTable} {p : Nat} {m : Bag}

theorem tableCreated (allocator : Allocator Block) : Runs 0 (symbolTableCreate allocator) fun table left =>
    ∃ p, table = some p ∧ TableAt BitN.symbolTableCreate p left := by
  refine runsBind (runsAlloc allocator _) ?_
  rintro p _ rfl
  refine runsNew (scopeCreated allocator none) ?_
  rintro _ cells ⟨globalScope, rfl, scopeAt⟩
  refine runsBind (runsStore _ (add_left_comm _ _ _)) ?_
  rintro _ _ rfl
  rw [add_comm cells]
  exact runsPure ⟨p, rfl, .table .nil scopeAt⟩

theorem scopePushed (allocator : Allocator Block) (held : TableAt symbols p m) :
    Runs m (symbolTablePushScope allocator (some p)) fun _ left =>
      TableAt (BitN.symbolTablePushScope symbols) p left := by
  cases held with
  | @table current globalScope m ms inner bottom =>
    refine runsCall rfl (loadedAs rfl) ?_
    rintro _ _ ⟨rfl, rfl⟩
    refine runsNew (scopeCreated allocator (some current)) ?_
    rintro _ cells ⟨newScope, rfl, scopeAt⟩
    refine runsWeaken (runsStore _ (add_left_comm _ _ _)) ?_
    rintro _ _ rfl
    rw [← add_assoc cells]
    exact show TableAt (BitN.symbolTablePushScope symbols) _ _ from .table (.cons scopeAt inner) bottom

theorem ScopeAt.address {scope : Scope} {parent : Pointer} (held : ScopeAt scope parent p m) : p ∈ m.keys := by
  cases held with
  | scope room some_ each =>
    rw [scopeCell, Multiset.singleton_add, Multiset.keys_cons]
    exact Multiset.mem_cons_self p _

/-- Only where no scope is inside the global one is it the current one. -/
theorem scopesApart {inner : List Scope} {bottom : Scope} {current globalScope : Nat} {own own' : Bag}
    (held : InnerAt globalScope inner current own) (bottomAt : ScopeAt bottom none globalScope own')
    (distinct : (tableCell p current globalScope + (own + own')).keys.Nodup) : current = globalScope ↔ inner = [] := by
  cases held with
  | nil => exact iff_of_true rfl rfl
  | cons top outer =>
    refine iff_of_false ?_ (List.cons_ne_nil _ _)
    rintro rfl
    rw [Multiset.keys, Multiset.map_add, Multiset.map_add, Multiset.map_add, Multiset.nodup_add,
      Multiset.nodup_add] at distinct
    refine Multiset.disjoint_left.mp distinct.2.1.2.2 ?_ bottomAt.address
    exact Multiset.mem_add.mpr (.inl top.address)

theorem tableRead (held : TableAt symbols p m) : Runs m (loadTable p) fun node left =>
    left = m ∧ (node.currentScope = node.globalScope ↔ symbols.inner = []) := by
  refine runsDistinct fun distinct => ?_
  cases held with
  | table inner bottom =>
    refine runsWeaken (runsFrame (x := loadTable p) (loadedAs rfl) _) ?_
    rintro _ _ ⟨_, rfl, rfl, rfl⟩
    refine ⟨rfl, ?_⟩
    rw [Option.some_inj, scopesApart inner bottom distinct]

theorem scopePopped (held : TableAt symbols p m) :
    Runs m (symbolTablePopScope (some p)) fun _ left => TableAt (BitN.symbolTablePopScope symbols) p left := by
  refine runsDistinct fun distinct => ?_
  cases held with
  | @table current globalScope m ms inner bottom =>
    rcases symbols with ⟨_ | ⟨scope, scopes⟩, globalSymbols⟩
    · cases inner with
      | nil =>
        refine runsCall rfl (loadedAs rfl) ?_
        rintro _ _ ⟨rfl, rfl⟩
        dsimp only
        rw [if_pos rfl]
        exact runsPure (.table .nil bottom)
    · cases inner with
      | @cons _ _ _ parent m' ms top outer =>
        have apart : ¬ current = globalScope := by
          rw [scopesApart (.cons top outer) bottom distinct]
          exact List.cons_ne_nil _ _
        refine runsCall rfl (loadedAs rfl) ?_
        rintro _ _ ⟨rfl, rfl⟩
        dsimp only
        rw [if_neg (fun same => apart (Option.some.inj same)), add_assoc, add_left_comm]
        refine runsCall rfl (scopeRead top) ?_
        rintro node m' ⟨same, rfl⟩
        refine runsBind (runsStore _ (add_left_comm _ _ _)) ?_
        rintro _ _ rfl
        rw [add_left_comm]
        refine runsWeaken (runsFrame (scopeFreed top) _) ?_
        rintro _ _ ⟨_, rfl, rfl⟩
        rw [zero_add, same]
        exact show TableAt ⟨scopes, globalSymbols⟩ _ _ from .table outer bottom

/-- Every scope inside the global one is popped. -/
theorem scopesPopped (held : TableAt symbols p m) {n : Nat} (enough : symbols.inner.length < n) :
    Runs m (popScopes p n) fun _ left => TableAt ⟨[], symbols.globalScope⟩ p left := by
  obtain ⟨inner, globalSymbols⟩ := symbols
  induction inner generalizing m n with
  | nil =>
    obtain ⟨n, rfl⟩ := Nat.exists_eq_succ_of_ne_zero (Nat.ne_zero_of_lt enough)
    refine runsBind (tableRead held) ?_
    rintro node m ⟨rfl, bottom⟩
    rw [if_pos (bottom.mpr rfl)]
    exact runsPure held
  | cons scope scopes ih =>
    obtain ⟨n, rfl⟩ := Nat.exists_eq_succ_of_ne_zero (Nat.ne_zero_of_lt enough)
    refine runsBind (tableRead held) ?_
    rintro node m ⟨rfl, bottom⟩
    rw [if_neg (bottom.not.mpr (List.cons_ne_nil _ _))]
    exact runsBind (scopePopped held) fun _ left popped => ih popped (by simpa using enough)

theorem tableFreed (held : TableAt symbols p m) : Runs m (symbolTableFree (some p)) fun _ left => left = 0 := by
  have popped : Runs m (walk (popScopes p)) fun _ left => TableAt ⟨[], symbols.globalScope⟩ p left := by
    refine runsWalk fun n enough => scopesPopped held ?_
    cases held with
    | table inner bottom =>
      have few := inner.length
      rw [Multiset.card_add, Multiset.card_add, tableCell, Multiset.card_singleton] at enough
      omega
  refine runsBind popped fun _ left bare => ?_
  cases bare with
  | table inner bottom =>
    cases inner with
    | nil =>
      refine runsCall rfl (loadedAs rfl) ?_
      rintro _ _ ⟨rfl, rfl⟩
      refine runsCall (by rw [zero_add, add_comm]) (scopeFreed bottom) ?_
      rintro _ _ rfl
      exact runsFree (zero_add _)

end table

/-! The context -/

section context
variable {ctx : TypeContext} {p : Nat} {m : Bag}

theorem contextCreated (allocator : Allocator Block) : Runs 0 (typeContextCreate allocator) fun ctx left =>
    ∃ p, ctx = some p ∧ ContextAt BitN.typeContextCreate p left := by
  refine runsBind (runsAlloc allocator _) ?_
  rintro p _ rfl
  refine runsNew (tableCreated allocator) ?_
  rintro _ cells ⟨table, rfl, tableAt⟩
  refine runsBind (runsStore _ (add_left_comm _ _ _)) ?_
  rintro _ _ rfl
  exact runsPure ⟨p, rfl, show ContextAt BitN.typeContextCreate _ _ from .context tableAt .null⟩

theorem contextFreed (held : ContextAt ctx p m) : Runs m (typeContextFree (some p)) fun _ left => left = 0 := by
  cases held with
  | context symbols typed =>
    refine runsCall rfl (loadedAs rfl) ?_
    rintro _ _ ⟨rfl, rfl⟩
    refine runsCall (add_left_comm _ _ _) (tableFreed symbols) ?_
    rintro _ _ rfl
    rw [zero_add]
    refine runsCall (add_comm _ _) (typeFreed typed) ?_
    rintro _ _ rfl
    exact runsFree (add_comm _ _)

end context

end BitN.CheckerMemory

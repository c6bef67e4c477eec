import BitN.ParserSettles
import BitN.SeparateChecking

/-! The language of the parser, and what it makes of it: the derivable streams whose bare returns are
closed, each with its settled tree; and definitions put together are read one by one. -/
namespace BitN.ParserLanguage

open Run ParserRun ParserSound ParserDerives ParserAccepts ParserLadder Grammar
open MaximalMunch ParserSettles SeparateChecking

variable {α β γ : Type}

def Accepted (input : Source) (tree : ASTProgram) : Prop :=
  ∃ program p, Parses input program p ∧ p.error = false ∧ program.lexemes = tree

/-! The kinds a phrase is made of -/

def Within (kinds : List TokenType) (s : List (Terminal CString)) : Prop := ∀ x ∈ s, kind x ∈ kinds

theorem withinWeaken {kinds kinds' : List TokenType} {s : List (Terminal CString)} (more : ∀ t ∈ kinds, t ∈ kinds')
    (within : Within kinds s) : Within kinds' s :=
  fun x member => more _ (within x member)

theorem withinAppend {kinds : List TokenType} {s t : List (Terminal CString)} :
    Within kinds (s ++ t) ↔ Within kinds s ∧ Within kinds t := by
  simp [Within, or_imp, forall_and]

theorem withinCons {kinds : List TokenType} {x : Terminal CString} {s : List (Terminal CString)} :
    Within kinds (x :: s) ↔ kind x ∈ kinds ∧ Within kinds s := by
  simp [Within]

theorem withinNil {kinds : List TokenType} : Within kinds [] := by simp [Within]

theorem withinJoined {τ : Type} {kinds : List TokenType} {pieces : List (Piece τ)}
    (each : ∀ q ∈ pieces, Within kinds q.1) : Within kinds (joined pieces) := by
  intro x member
  obtain ⟨s, inside, member⟩ := List.mem_flatten.mp member
  obtain ⟨q, listed, rfl⟩ := List.mem_map.mp inside
  exact each q listed x member

theorem withinSeparated {τ : Type} {kinds : List TokenType} (comma : .tokComma ∈ kinds) {pieces : List (Piece τ)}
    (each : ∀ q ∈ pieces, Within kinds q.1) : Within kinds (separated pieces) := by
  induction pieces with
  | nil => exact withinNil
  | cons q qs ih =>
    have tail := ih fun r member => each r (List.mem_cons_of_mem _ member)
    have head := each q List.mem_cons_self
    cases qs with
    | nil => rwa [separated, List.map_singleton, List.intercalate_singleton]
    | cons r rs =>
      rw [separated, List.map_cons, List.map_cons, List.intercalate_cons_cons, ← List.map_cons, ← separated]
      exact withinAppend.mpr ⟨withinAppend.mpr ⟨head, withinCons.mpr ⟨comma, withinNil⟩⟩, tail⟩

def exprKinds : List TokenType :=
  [.tokNumber, .tokIdentifier, .tokTrue, .tokFalse, .tokLparen, .tokRparen, .tokComma, .tokNot] ++
    ladder.flatMap (List.map Prod.fst)

theorem exprWithin {k : Nat} {piece : Piece ASTExpr} (derived : Expr k piece) : Within exprKinds piece.1 := by
  induction derived with
  | @call name args each ih =>
    have inside := withinSeparated (by decide) ih
    simp only [withinCons, withinAppend, kind]
    exact ⟨by decide, by decide, inside, by decide, withinNil⟩
  | group inner ih =>
    simp only [withinCons, withinAppend, kind]
    exact ⟨by decide, ih, by decide, withinNil⟩
  | unary listed operand ih =>
    have table : ∀ entry ∈ prefixes, entry.1 ∈ exprKinds := by decide
    exact withinCons.mpr ⟨table _ listed, ih⟩
  | binary listed left right ihLeft ihRight =>
    have table : ∀ row ∈ ladder, ∀ entry ∈ row, entry.1 ∈ exprKinds := by decide
    exact withinAppend.mpr ⟨ihLeft, withinCons.mpr ⟨table _ (levelRow listed).2 _ listed, ihRight⟩⟩
  | tighter inner ih => exact ih
  | _ =>
    simp only [withinCons, kind]
    exact ⟨by decide, withinNil⟩

theorem choiceWithin {τ : Type} {table : List (TokenType × τ)} {omitted result : τ} {s : List (Terminal CString)}
    (chosen : Choice table omitted s result) : Within (table.map Prod.fst) s := by
  cases chosen with
  | none => exact withinNil
  | some listed => exact withinCons.mpr ⟨List.mem_map_of_mem listed, withinNil⟩

theorem semicolonWithin {s : List (Terminal CString)} (ends : Semicolon s) : Within [.tokSemicolon] s := by
  cases ends with
  | none => exact withinNil
  | some => exact withinCons.mpr ⟨by decide, withinNil⟩

def deviceKinds : List TokenType :=
  [.tokField, .tokRegister, .tokIdentifier, .tokColon, .tokAt, .tokLbracket, .tokNumber, .tokRbracket, .tokLbrace,
    .tokRbrace, .tokSemicolon] ++ accessWords.map Prod.fst ++ widthWords.map Prod.fst

theorem fieldWithin {piece : Piece ASTField} (derived : Field piece) : Within deviceKinds piece.1 := by
  cases derived with
  | field chosen ends =>
    simp only [withinCons, withinAppend, kind]
    refine ⟨by decide, by decide, by decide, by decide, by decide, by decide, by decide, by decide, ?_, ?_⟩
    · exact withinWeaken (by decide) (choiceWithin chosen)
    · exact withinWeaken (by decide) (semicolonWithin ends)

theorem registerWithin {piece : Piece ASTRegister} (derived : Register piece) : Within deviceKinds piece.1 := by
  cases derived with
  | register chosen each =>
    simp only [withinCons, withinAppend, kind]
    refine ⟨by decide, by decide, by decide, ?_, by decide, by decide, by decide, ?_, by decide, withinNil⟩
    · exact withinWeaken (by decide) (choiceWithin chosen)
    · exact withinJoined fun q member => fieldWithin (each q member)

theorem peripheralWithin {piece : Piece ASTPeripheral} (derived : Peripheral piece) :
    headKind piece.1 = .tokPeripheral ∧ Within deviceKinds piece.1.tail := by
  cases derived with
  | peripheral each =>
    have inside := withinJoined fun q member => registerWithin (each q member)
    refine ⟨rfl, ?_⟩
    simp only [List.tail_cons, withinCons, withinAppend, kind]
    exact ⟨by decide, by decide, by decide, by decide, inside, by decide, withinNil⟩

/-! Bare returns of accepted streams -/

theorem closedQuiet {kinds : List TokenType} (none : .tokReturn ∉ kinds) {s : List (Terminal CString)}
    (within : Within kinds s) (next : TokenType) : Closed next s := by
  induction s with
  | nil => trivial
  | cons x xs ih =>
    obtain ⟨head, tail⟩ := withinCons.mp within
    exact ⟨fun here => absurd (here ▸ head) none, ih tail⟩

def GuardsAt (x : Parse α) (p : Parser) : Prop :=
  ∀ a last, x p = (some a, last) → last.error = false →
    p.error = false ∧ ∃ used, p.terminals lexeme = used ++ last.terminals lexeme ∧ Closed last.current.type used

def Guards (x : Parse α) : Prop := ∀ p, GuardsAt x p

theorem guardsPure (a : α) : Guards (pure a : Parse α) := by
  rintro p b last ran clear
  obtain ⟨rfl, rfl⟩ : a = b ∧ p = last := by simpa using ran
  exact ⟨clear, [], rfl, trivial⟩

theorem guardsCut : Guards (cut : Parse α) := by
  rintro p a last ran
  simp at ran

theorem guardsBindAt {x : Parse β} {f : β → Parse α} {p : Parser} (first : GuardsAt x p) (then_ : ∀ b, Guards (f b)) :
    GuardsAt (x >>= f) p := by
  intro a last ran clear
  obtain ⟨b, mid, one, two⟩ := bindReturns.mp ran
  obtain ⟨clearMid, v, cutV, closedV⟩ := then_ b mid a last two clear
  obtain ⟨before, u, cutU, closedU⟩ := first b mid one clearMid
  refine ⟨before, u ++ v, by rw [cutU, cutV, List.append_assoc], closedAppend.mpr ⟨?_, closedV⟩⟩
  rwa [currentKind mid, cutV, headUpcoming, ← currentKind] at closedU

theorem guardsBind {x : Parse β} {f : β → Parse α} (first : Guards x) (then_ : ∀ b, Guards (f b)) :
    Guards (x >>= f) :=
  fun p => guardsBindAt (first p) then_

theorem guardsIte {c : Prop} [Decidable c] {x y : Parse α} (yes : Guards x) (no : Guards y) :
    Guards (if c then x else y) := by
  split
  · exact yes
  · exact no

theorem guardsError (message : String) : Guards (parserError message) := by
  rintro p a last ran clear
  obtain ⟨-, rfl⟩ : () = a ∧ p.fail message = last := by simpa [parserError] using ran
  cases clear

theorem guardsRead (f : Parser → α) : Guards (Run.read f : Parse α) := by
  rintro p a last ran clear
  obtain ⟨-, rfl⟩ : f p = a ∧ p = last := by simpa using ran
  exact ⟨clear, [], rfl, trivial⟩

theorem guardsLoop {step : γ → Parse (γ ⊕ α)} (turn : ∀ c, Guards (step c)) (n : Nat) (c : γ) :
    Guards (Run.loop step n c) := by
  induction n generalizing c with
  | zero => exact guardsCut
  | succ n ih =>
    refine guardsBind (turn c) fun out => ?_
    cases out with
    | inl next => exact ih next
    | inr a => exact guardsPure a

theorem guardsYields {Q : α → List (Terminal CString) → Prop} {x : Parse α} {kinds : List TokenType}
    (none : .tokReturn ∉ kinds) (yields : Yields lexeme Q x) (within : ∀ a u, Q a u → Within kinds u) : Guards x := by
  intro p a last ran clear
  obtain ⟨before, used, cut, holds⟩ := yields p a last ran clear
  exact ⟨before, used, cut, closedQuiet none (within a used holds) _⟩

section routines
variable {statement : Parse ASTStmt} {expression : Parse ASTExpr}

theorem guardsAdvance {f : Unit → Parse α} {p : Parser} (other : p.current.type ≠ .tokReturn) (then_ : Guards (f ())) :
    GuardsAt (parserAdvance >>= f) p := by
  intro a last ran clear
  obtain ⟨before, used, cut, closed⟩ := then_ p.advance a last ran clear
  by_cases ended : p.current.type = .tokEof
  · have still : p.advance.terminals lexeme = p.terminals lexeme := by
      rw [Parser.terminals, Parser.terminals, advanceAhead, aheadEof.mpr ended]
      rfl
    exact ⟨before, used, still ▸ cut, closed⟩
  · refine ⟨before, p.current.terminal lexeme :: used, by rw [terminalsCons ended, cut, List.cons_append], ?_, closed⟩
    rw [kindTerminal]
    exact fun here => absurd here other

theorem guardsMatch {type : TokenType} (other : type ≠ .tokReturn) {f : Bool → Parse α} (then_ : ∀ b, Guards (f b)) :
    Guards (parserMatch type >>= f) := by
  intro p a last ran clear
  by_cases here : p.current.type = type
  · rw [bindStep (matchTaken here)] at ran
    exact guardsAdvance (f := fun _ => f true) (here ▸ other) (then_ true) a last ran clear
  · rw [bindStep (matchSkipped here)] at ran
    exact then_ false p a last ran clear

theorem guardsEither {type type' : TokenType} {yes no : Parse α}
    (taken : ∀ p, p.current.type = type ∨ p.current.type = type' → GuardsAt yes p) (skipped : Guards no) :
    Guards (parserCheck type >>= fun a => parserCheck type' >>= fun b => if (a || b) = true then yes else no) := by
  intro p
  change GuardsAt (if (decide (p.current.type = type) || decide (p.current.type = type')) = true then yes else no) p
  split_ifs with here
  · exact taken p (by simpa using here)
  · exact skipped p

theorem guardsExpect {type : TokenType} (other : type ≠ .tokReturn) (message : String) :
    Guards (parserExpect type message) :=
  guardsMatch other fun _ => guardsIte (guardsPure _) (guardsError message)

theorem guardsMatchOf {table : List (TokenType × β)} (other : ∀ entry ∈ table, entry.1 ≠ .tokReturn) :
    Guards (parserMatchOf table) := by
  induction table with
  | nil => exact guardsPure _
  | cons entry others ih =>
    have later := ih fun e member => other e (List.mem_cons_of_mem _ member)
    exact guardsMatch (other entry List.mem_cons_self) fun _ => guardsIte (guardsPure _) later

theorem guardsType : Guards parserParseType := by
  refine guardsBind (guardsMatchOf (by decide)) fun found => ?_
  cases found with
  | some kind => exact guardsPure _
  | none => exact guardsBind (guardsError _) fun _ => guardsPure _

theorem guardsTurn (loop : Loop) {body : Parse β} (inner : Guards body) : Guards (parserTurn loop body) := by
  intro p b last ran clear
  simp only [parserTurn, bindRead, bindModify] at ran
  obtain ⟨item, next, one, two⟩ := bindReturns.mp ran
  obtain ⟨rfl, rfl⟩ : item = b ∧ next.note _ = last := by simpa using two
  exact inner (p.note _) item next one clear

theorem guardsBlock (inner : Guards statement) (n : Nat) : Guards (parserParseBlock statement n) := by
  refine guardsMatch (by decide) fun _ => guardsIte ?_ (guardsBind (guardsError _) fun _ => guardsPure _)
  refine guardsBind (guardsLoop (fun items => ?_) n []) fun statements => ?_
  · refine guardsBind (guardsRead _) fun _ => guardsIte (guardsPure _) ?_
    refine guardsBind (guardsRead _) fun _ => guardsIte (guardsPure _) ?_
    exact guardsBind (guardsTurn .statements inner) fun _ => guardsPure _
  · exact guardsBind (guardsExpect (by decide) _) fun _ => guardsPure _

theorem guardsExpression (inner : ReadsLevel lexeme 0 expression) : Guards expression :=
  guardsYields (by decide) inner fun _ _ derived => exprWithin derived

theorem guardsDeclaration (inner : ReadsLevel lexeme 0 expression) {isMut : Bool} {p : Parser}
    (other : p.current.type ≠ .tokReturn) : GuardsAt (parserParseDeclaration expression isMut) p := by
  refine guardsAdvance other (guardsBind (guardsRead _) fun name => ?_)
  refine guardsBind (guardsExpect (by decide) _) fun _ => guardsBind (guardsExpect (by decide) _) fun _ => ?_
  refine guardsBind guardsType fun declType => ?_
  cases declType with
  | none => exact guardsPure _
  | some kind =>
    refine guardsEither (fun p here => ?_) (guardsBind (guardsError _) fun _ => guardsPure _)
    have other : p.current.type ≠ .tokReturn := by rcases here with h | h <;> simp [h]
    refine guardsAdvance other (guardsBind (guardsExpression inner) fun _ => ?_)
    exact guardsMatch (by decide) fun _ => guardsPure _

theorem returnFollowed (inner : ReadsLevel lexeme 0 expression) {p last : Parser} {a : ASTStmt}
    (ran : parserParseReturn expression p = (some a, last)) (clear : last.error = false) :
    p.error = false ∧ ∃ used, p.terminals lexeme = used ++ last.terminals lexeme ∧ p.current.type ∈ afterReturn ∧
      Within (.tokSemicolon :: exprKinds) used := by
  simp only [parserParseReturn, bindCheck, iteApply] at ran
  split_ifs at ran with closing
  · have ends : Yields lexeme (fun _ u => Semicolon u)
        (parserMatch .tokSemicolon >>= fun _ => pure (ASTStmt.ret .null) : Parse ASTStmt) :=
      yieldsSemicolon fun _ => yieldsPure fun semicolon shape => by rwa [List.append_nil]
    obtain ⟨before, used, cut, shape⟩ := ends p a last ran clear
    refine ⟨before, used, cut, ?_, withinWeaken (by decide) (semicolonWithin shape)⟩
    have kinds : p.current.type = .tokSemicolon ∨ p.current.type = .tokRbrace ∨ p.current.type = .tokEof := by
      simpa [or_assoc] using closing
    rcases kinds with here | here | here <;> rw [here] <;> decide
  · have value : Yields lexeme (fun _ u => ∃ s e semicolon, Expr 0 (s, e) ∧ Semicolon semicolon ∧ u = s ++ semicolon)
        (do
          let value ← expression
          let _ ← parserMatch .tokSemicolon
          return ASTStmt.ret value) := by
      refine yieldsBind inner fun value => yieldsSemicolon fun _ => yieldsPure fun semicolon shape u piece => ?_
      rw [List.append_nil]
      exact ⟨u, _, semicolon, piece, shape, rfl⟩
    obtain ⟨before, used, cut, s, e, semicolon, derived, shape, rfl⟩ := value p a last ran clear
    refine ⟨before, _, cut, ?_, withinAppend.mpr ⟨?_, ?_⟩⟩
    · rw [currentKind, cut, List.append_assoc, headUpcoming, upcomingHead (exprFilled derived)]
      exact List.mem_append_right _ (exprHead derived)
    · exact withinWeaken (fun t => List.mem_cons_of_mem _) (exprWithin derived)
    · exact withinWeaken (by decide) (semicolonWithin shape)

theorem guardsReturn (inner : ReadsLevel lexeme 0 expression) {others : Parse ASTStmt} (later : Guards others) :
    Guards (parserMatch .tokReturn >>= fun b => if b = true then parserParseReturn expression else others) := by
  intro p a last ran clear
  by_cases here : p.current.type = .tokReturn
  · rw [bindStep (matchTaken here)] at ran
    obtain ⟨before, used, cut, after, within⟩ := returnFollowed inner ran clear
    refine ⟨before, .mark .tokReturn :: used, ?_, fun _ => ?_, closedQuiet (by decide) within _⟩
    · rw [terminalsCons (by simp [here]), terminalMark (here ▸ by decide), here, cut, List.cons_append]
    · rwa [currentKind, cut, headUpcoming, ← currentKind] at after
  · rw [bindStep (matchSkipped here)] at ran
    exact later p a last ran clear

theorem guardsStatement (n : Nat) : Guards (parserParseStatement n) := by
  induction n with
  | zero => exact guardsCut
  | succ n ih =>
    have expression := @readsExpression lexeme n
    refine guardsEither (fun p binder => ?_) (guardsReturn expression ?_)
    · change GuardsAt (parserParseDeclaration (parserParseExpression n) (decide (p.current.type = .tokVar))) p
      refine guardsDeclaration expression ?_
      rcases binder with h | h <;> simp [h]
    · refine guardsBind (guardsRead _) fun _ => guardsIte (guardsBlock ih n) ?_
      exact guardsBind (guardsExpression expression) fun _ => guardsMatch (by decide) fun _ => guardsPure _

theorem guardsFunction (n : Nat) : Guards (parserParseFunction n) := by
  have body : Guards (parserParseBody n) := by
    refine guardsMatch (by decide) fun _ => guardsIte (guardsBind (guardsStatement n) fun _ => guardsPure _) ?_
    refine guardsBind (guardsRead _) fun _ => guardsIte (guardsBlock (guardsStatement n) n) ?_
    exact guardsBind (guardsError _) fun _ => guardsPure _
  refine guardsBind (guardsMatchOf (by decide)) fun found => ?_
  cases found with
  | none => exact guardsBind (guardsError _) fun _ => guardsPure _
  | some isNimStyle =>
    refine guardsBind (guardsBind (guardsRead _) fun name => ?_) fun _ => guardsPure _
    refine guardsBind (guardsExpect (by decide) _) fun _ => guardsBind (guardsExpect (by decide) _) fun _ => ?_
    refine guardsBind (guardsExpect (by decide) _) fun _ => guardsBind ?_ fun _ => ?_
    · exact guardsIte (guardsExpect (by decide) _) (guardsExpect (by decide) _)
    · exact guardsBind guardsType fun _ => guardsBind body fun _ => guardsPure _

theorem guardsPeripheral (n : Nat) : Guards (parserParsePeripheral n) := by
  refine @guardsYields _ _ _ (.tokPeripheral :: deviceKinds) (by decide) (readsPeripheral n) fun _ u derived => ?_
  obtain ⟨head, tail⟩ := peripheralWithin derived
  cases u with
  | nil => cases head
  | cons x xs => exact withinCons.mpr ⟨head ▸ List.mem_cons_self, withinWeaken (fun t => List.mem_cons_of_mem _) tail⟩

theorem guardsProgram (n : Nat) : Guards (parserParseProgram n) := by
  refine guardsLoop (fun program => ?_) n _
  refine guardsBind (guardsRead _) fun _ => guardsIte (guardsPure _) ?_
  refine guardsBind (guardsRead _) fun _ => guardsBind (guardsRead _) fun _ => guardsBind (guardsRead _) fun _ => ?_
  refine guardsIte (guardsBind (guardsTurn _ (guardsFunction n)) fun func => ?_) ?_
  · cases func with
    | some func => exact guardsPure _
    | none => exact guardsPure _
  refine guardsBind (guardsRead _) fun _ => guardsIte ?_ (guardsBind (guardsError _) fun _ => guardsPure _)
  exact guardsBind (guardsTurn _ (guardsPeripheral n)) fun _ => guardsPure _

end routines

theorem acceptedClosed {input : Source} {program : ASTProgram} {p : Parser} (parsed : Parses input program p)
    (clear : p.error = false) : Closed .tokEof input.terminals := by
  obtain ⟨n, ran⟩ := parsed
  obtain ⟨-, used, cut, closed⟩ := guardsProgram n _ program p ran clear
  have ended : p.terminals lexeme = [] := (programEnds ran).resolve_left (by simp [clear])
  have whole : (parserCreate input).terminals lexeme = input.terminals := by
    rw [Parser.terminals, parserCreate, aheadWindow]
    rfl
  rw [currentKind, ended] at closed
  rw [← whole, cut, ended, List.append_nil]
  exact closed

/-! The language -/

/-- The parser takes a text exactly if its tokens can be cut into settled definitions, and builds their trees. -/
theorem treeExactly (input : Source) (tree : ASTProgram) :
    Accepted input tree ↔ SettledProgram (input.terminals, tree) := by
  constructor
  · rintro ⟨program, p, parsed, clear, rfl⟩
    obtain ⟨tree, settled⟩ := programSettled (parsesProgram parsed clear lexeme) (acceptedClosed parsed clear)
    obtain ⟨program', p', parsed', clear', built⟩ := parsesSettled settled
    obtain ⟨rfl, rfl⟩ := parsesUnique parsed parsed'
    exact built ▸ settled
  · exact parsesSettled

theorem languageExactly (input : Source) :
    (∃ tree, Accepted input tree) ↔
      (∃ tree, Program (input.terminals, tree)) ∧ Closed .tokEof input.terminals := by
  constructor
  · rintro ⟨tree, program, p, parsed, clear, -⟩
    exact ⟨⟨_, parsesProgram parsed clear lexeme⟩, acceptedClosed parsed clear⟩
  · rintro ⟨⟨tree, derived⟩, closed⟩
    obtain ⟨tree, settled⟩ := programSettled derived closed
    exact ⟨tree, (treeExactly input tree).mpr settled⟩

/-! Definitions put together -/

def statementKinds : List TokenType :=
  exprKinds ++ typeWords.map Prod.fst ++
    [.tokLet, .tokVar, .tokReturn, .tokColon, .tokAssign, .tokSemicolon, .tokLbrace, .tokRbrace]

theorem settledWithin {next : TokenType} {q : Piece ASTStmt} (settled : Settled next q) :
    Within statementKinds q.1 := by
  induction settled with
  | @value next front f s e semicolon opening value ends =>
    have close : Within statementKinds semicolon := by
      cases ends with
      | semicolon => exact withinCons.mpr ⟨by decide, withinNil⟩
      | none => exact withinNil
    refine withinAppend.mpr ⟨?_, withinAppend.mpr ⟨withinWeaken (by decide) (exprWithin value), close⟩⟩
    cases opening with
    | declaration bound typed =>
      have binder : ∀ entry ∈ binders, entry.1 ∈ statementKinds := by decide
      have type : ∀ entry ∈ typeWords, entry.1 ∈ statementKinds := by decide
      simp only [withinCons, kind]
      exact ⟨binder _ bound, by decide, by decide, type _ typed, by decide, withinNil⟩
    | ret => exact withinCons.mpr ⟨by decide, withinNil⟩
    | expr => exact withinNil
  | ret => exact withinCons.mpr ⟨by decide, withinCons.mpr ⟨by decide, withinNil⟩⟩
  | retOpen => exact withinCons.mpr ⟨by decide, withinNil⟩
  | @block next statements each ih =>
    have inside : Within statementKinds (joined statements) := withinJoined fun q member => by
      obtain ⟨before, after, split⟩ := List.append_of_mem member
      exact ih before q after split
    exact withinCons.mpr ⟨by decide, withinAppend.mpr ⟨inside, withinCons.mpr ⟨by decide, withinNil⟩⟩⟩

theorem definitionTail {next : TokenType} {q : Piece Definition} (settled : SettledDefinition next q) :
    Within (.tokArrow :: statementKinds ++ deviceKinds) q.1.tail := by
  cases settled with
  | peripheral inner => exact withinWeaken (fun t => List.mem_append_right _) (peripheralWithin inner).2
  | function spelled typed inner =>
    have arrow : ∀ entry ∈ Grammar.keywords, entry.2 ∈ .tokArrow :: statementKinds ++ deviceKinds := by decide
    have type : ∀ entry ∈ typeWords, entry.1 ∈ .tokArrow :: statementKinds ++ deviceKinds := by decide
    have statements : ∀ t ∈ statementKinds, t ∈ .tokArrow :: statementKinds ++ deviceKinds := by simp +contextual
    simp only [List.tail_cons, withinCons, kind]
    refine ⟨by decide, by decide, by decide, arrow _ spelled, type _ typed, ?_⟩
    cases inner with
    | statement only => exact withinCons.mpr ⟨by decide, withinWeaken statements (settledWithin only)⟩
    | block inner => exact withinWeaken statements (settledWithin inner)

/-- A cut in front of a definition falls between two pieces. -/
theorem piecesCut {pieces : List (Piece Definition)} {next : TokenType} (each : InFront SettledDefinition next pieces)
    {s t : List (Terminal CString)} (cut : joined pieces = s ++ t) (starts : t = [] ∨ headKind t ∈ definitionStarts) :
    ∃ before after, pieces = before ++ after ∧ joined before = s ∧ joined after = t := by
  induction pieces generalizing s with
  | nil =>
    obtain ⟨rfl, rfl⟩ := List.append_eq_nil_iff.mp cut.symm
    exact ⟨[], [], rfl, rfl, rfl⟩
  | cons q qs ih =>
    obtain ⟨first, others⟩ := inFrontCons.mp each
    cases s with
    | nil => exact ⟨[], q :: qs, rfl, rfl, cut⟩
    | cons x s =>
      rw [joinedCons] at cut
      rcases List.append_eq_append_iff.mp cut with ⟨s', split, rest⟩ | ⟨t', split, rest⟩
      · obtain ⟨before, after, rfl, same, same'⟩ := ih others rest
        exact ⟨q :: before, after, rfl, by rw [joinedCons, same, split], same'⟩
      cases t' with
      | nil =>
        rw [List.append_nil] at split
        refine ⟨[q], qs, rfl, ?_, rest.symm⟩
        rw [joinedCons, split]
        exact List.append_nil _
      | cons y t' =>
        -- the cut would fall inside a definition, where no other begins
        have inside : kind y ∈ .tokArrow :: statementKinds ++ deviceKinds := by
          refine definitionTail first y ?_
          rw [split]
          exact List.mem_append_right _ List.mem_cons_self
        have apart : ∀ type ∈ definitionStarts, type ∉ .tokArrow :: statementKinds ++ deviceKinds := by decide
        rw [rest] at starts
        exact absurd inside (apart _ (starts.resolve_left (by simp)))

theorem settledElsewhere {next next' : TokenType} {q : Piece ASTStmt} (settled : Settled next q) (still : next' ∈ quiet)
    (ends : next' = .tokEof ∨ lastKind q.1 ≠ .tokReturn) : Settled next' q := by
  cases settled with
  | @value _ front f s e semicolon opening value closes =>
    refine .value opening value ?_
    cases closes with
    | semicolon => exact .semicolon
    | none =>
      have table : ∀ type ∈ quiet, type ≠ .tokSemicolon := by decide
      exact .none (quietStops still s) (table next' still)
  | ret => exact .ret
  | retOpen => exact .retOpen (.inr (ends.resolve_right fun other => other rfl))
  | block each => exact .block each

theorem definitionElsewhere {next next' : TokenType} {q : Piece Definition} (settled : SettledDefinition next q)
    (still : next' ∈ quiet) (ends : next' = .tokEof ∨ lastKind q.1 ≠ .tokReturn) : SettledDefinition next' q := by
  cases settled with
  | peripheral inner => exact .peripheral inner
  | @function keyword arrow name type kind s body spelled typed inner =>
    have last (front : List (Terminal CString)) {t : List (Terminal CString)} {b : ASTStmt}
        (only : Settled next (t, b)) : lastKind (front ++ t) = lastKind t := lastAppend front (settledFilled only)
    refine .function spelled typed ?_
    cases inner with
    | @statement t b only =>
      refine .statement (settledElsewhere only still (ends.imp_right fun other => ?_))
      rwa [← last [.mark keyword, .word name, .mark .tokLparen, .mark .tokRparen, .mark arrow, .mark type,
        .mark .tokAssign] only]
    | @block t statements only =>
      refine .block (settledElsewhere only still (ends.imp_right fun other => ?_))
      rwa [← last [.mark keyword, .word name, .mark .tokLparen, .mark .tokRparen, .mark arrow, .mark type] only]

theorem frontElsewhere {pieces : List (Piece Definition)} {next next' : TokenType}
    (each : InFront SettledDefinition next pieces) (still : next' ∈ quiet)
    (ends : next' = .tokEof ∨ lastKind (joined pieces) ≠ .tokReturn) : InFront SettledDefinition next' pieces := by
  rcases List.eq_nil_or_concat' pieces with rfl | ⟨front, q, rfl⟩
  · exact inFrontNil
  · rw [inFrontAppend] at each ⊢
    have last := (inFrontCons.mp each.2).1
    have head := definitionHead last
    have filled : joined [q] ≠ [] := by
      rw [joinedCons]
      intro empty
      rw [(List.append_eq_nil_iff.mp empty).1] at head
      exact absurd head (by decide)
    rw [joinedAppend, lastAppend _ filled, joinedCons] at ends
    refine ⟨?_, inFrontCons.mpr ⟨definitionElsewhere last still ?_, inFrontNil⟩⟩
    · rw [upcomingHead filled] at each ⊢
      exact each.1
    · rwa [show joined ([] : List (Piece Definition)) = [] from rfl, List.append_nil] at ends

theorem collectAppend (first second : List Definition) :
    collect (first ++ second) = together (collect first) (collect second) := by
  induction first with
  | nil => rfl
  | cons d rest ih => cases d <;> simp [collect, ih, together]

theorem settledTogether {s t : List (Terminal CString)} (starts : t = [] ∨ headKind t ∈ definitionStarts)
    (ends : lastKind s ≠ .tokReturn) {tree : ASTProgram} :
    SettledProgram (s ++ t, tree) ↔
      ∃ first second, SettledProgram (s, first) ∧ SettledProgram (t, second) ∧ tree = together first second := by
  have still : upcoming t .tokEof ∈ quiet := by
    have table : ∀ type ∈ definitionStarts, type ∈ quiet := by decide
    rcases starts with rfl | starts
    · decide
    · rw [upcomingHead]
      · exact table _ starts
      · rintro rfl
        exact absurd starts (by decide)
  constructor
  · intro whole
    generalize stream : s ++ t = u at whole
    cases whole with
    | program each =>
      obtain ⟨before, after, rfl, rfl, rfl⟩ := piecesCut each stream.symm starts
      obtain ⟨front, back⟩ := inFrontAppend.mp each
      refine ⟨_, _, .program (frontElsewhere front (by decide) (.inl rfl)), .program back, ?_⟩
      rw [trees, List.map_append, collectAppend, trees, trees]
  · rintro ⟨first, second, ⟨each⟩, ⟨each'⟩, rfl⟩
    rename_i before after
    have whole := SettledProgram.program (inFrontAppend.mpr ⟨frontElsewhere each still (.inr ends), each'⟩)
    rwa [joinedAppend, trees, List.map_append, collectAppend] at whole

theorem textsTogether {first second whole : Source} (spliced : whole.terminals = first.terminals ++ second.terminals)
    (starts : second.terminals = [] ∨ headKind second.terminals ∈ definitionStarts)
    (ends : lastKind first.terminals ≠ .tokReturn) (tree : ASTProgram) :
    Accepted whole tree ↔ ∃ one two, Accepted first one ∧ Accepted second two ∧ tree = together one two := by
  simp only [treeExactly, spliced]
  exact settledTogether starts ends

def nameSource : Source := ⟨"fn f()->u8=x".toList, by decide⟩

def groupSource : Source := ⟨"fn g()->u8=(y)".toList, by decide⟩

def bothSource : Source := ⟨"fn f()->u8=x fn g()->u8=(y)".toList, by decide⟩

def bothTree : ASTProgram :=
  ⟨[⟨"f".toList, some .typeU8, [], .block [.expr (.identifier "x".toList)]⟩,
    ⟨"g".toList, some .typeU8, [], .block [.expr (.identifier "y".toList)]⟩], []⟩

theorem bothTogether : Accepted bothSource bothTree ↔
    ∃ one two, Accepted nameSource one ∧ Accepted groupSource two ∧ bothTree = together one two :=
  textsTogether (by decide +kernel) (.inr (by decide +kernel)) (by decide +kernel) bothTree

end BitN.ParserLanguage

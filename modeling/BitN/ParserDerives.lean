import BitN.ParserSound

/-! Routine by routine: what is consumed is derived, and the tree is the derivation's. -/
namespace BitN.ParserDerives

open Run ParserRun ParserSound Grammar

variable {θ : CString → CString}

/-! Peripherals -/

theorem readsField : Reads θ Field (ASTField.renamed θ) parserParseField := by
  refine yieldsExpect (by decide) (yieldsName fun name => yieldsExpect (by decide) (yieldsExpect (by decide) ?_))
  refine yieldsExpectNumber fun start => yieldsExpect (by decide) ?_
  refine yieldsExpectNumber fun stop => yieldsExpect (by decide) ?_
  refine yieldsChoice .accessRw (by decide) fun access => yieldsSemicolon fun _ => yieldsPure ?_
  rintro semicolon ends word chosen stopNumeral rfl startNumeral rfl
  rw [List.append_nil]
  exact .field chosen ends

theorem readsRegister (n : Nat) : Reads θ Register (ASTRegister.renamed θ) (parserParseRegister n) := by
  refine yieldsExpect (by decide) (yieldsName fun name => yieldsExpect (by decide) ?_)
  refine yieldsChoice .typeU32 (by decide) fun kind => yieldsExpect (by decide) ?_
  refine yieldsExpectNumber fun offset => yieldsExpect (by decide) ?_
  refine yieldsBind (yieldsItems readsField .fields n) fun fields => yieldsExpect (by decide) (yieldsPure ?_)
  rintro u ⟨pieces, each, rfl, same⟩ numeral rfl word chosen
  have tree : (ASTRegister.mk name (some (kind.getD .typeU32)) (numeral32 numeral) fields).renamed θ =
      ⟨θ name, some (kind.getD .typeU32), numeral32 numeral, trees pieces⟩ := by
    rw [ASTRegister.renamed, same]
  rw [tree]
  exact .register chosen each

theorem readsPeripheral (n : Nat) : Reads θ Peripheral (ASTPeripheral.renamed θ) (parserParsePeripheral n) := by
  refine yieldsExpect (by decide) (yieldsName fun name => yieldsExpect (by decide) ?_)
  refine yieldsExpectNumber fun base => yieldsExpect (by decide) ?_
  refine yieldsBind (yieldsItems (readsRegister n) .registers n) fun registers =>
    yieldsExpect (by decide) (yieldsPure ?_)
  rintro u ⟨pieces, each, rfl, same⟩ numeral rfl
  have tree : (ASTPeripheral.mk name (numeral32 numeral) registers).renamed θ =
      ⟨θ name, numeral32 numeral, trees pieces⟩ := by
    rw [ASTPeripheral.renamed, same]
  rw [tree]
  exact .peripheral each

/-! Expressions -/

abbrev ReadsLevel (θ : CString → CString) (k : Nat) (x : Parse ASTExpr) : Prop := Reads θ (Expr k) (ASTExpr.renamed θ) x

theorem separatedSnoc {τ : Type} (pieces : List (Piece τ)) (last : Piece τ) :
    separated (pieces ++ [last]) = (pieces.map fun q => q.1 ++ [Terminal.mark .tokComma]).flatten ++ last.1 := by
  induction pieces with
  | nil => simp [separated]
  | cons q qs ih =>
    rw [List.map_cons, List.flatten_cons, List.append_assoc, ← ih]
    cases qs with
    | nil => simp [separated, List.intercalate]
    | cons r rs => simp [separated, List.intercalate, List.intersperse]

theorem readsArguments {expression : Parse ASTExpr} (inner : ReadsLevel θ 0 expression) (n : Nat) :
    Yields θ (fun args u => ∃ pieces, (∀ q ∈ pieces, Expr 0 q) ∧ u = separated pieces ∧
      args.map (ASTExpr.renamed θ) = trees pieces) (parserParseArguments expression n) := by
  refine yieldsCheck fun p => yieldsIte (yieldsPure ⟨[], by simp, rfl, rfl⟩) ?_ p
  refine yieldsLoopFrom (fun args u => ∃ pieces, (∀ q ∈ pieces, Expr 0 q) ∧
    u = (pieces.map fun q => q.1 ++ [Terminal.mark .tokComma]).flatten ∧ args.map (ASTExpr.renamed θ) = trees pieces)
    ⟨[], by simp, rfl, rfl⟩ (fun args => ?_) n
  have grown {pieces : List (Piece ASTExpr)} {v : List (Terminal CString)} {arg : ASTExpr}
      (each : ∀ q ∈ pieces, Expr 0 q) (piece : Expr 0 (v, arg.renamed θ)) :
      ∀ q ∈ pieces ++ [(v, arg.renamed θ)], Expr 0 q := by
    intro q member
    rcases List.mem_append.mp member with old | new
    · exact each q old
    · rw [List.mem_singleton.mp new]
      exact piece
  refine yieldsBind inner fun arg => yieldsMatch (by decide) (yieldsPure ?_) (yieldsPure ?_)
  · rintro v piece u ⟨pieces, each, rfl, same⟩
    exact ⟨_, grown each piece, by simp, by simp [trees, same]⟩
  · rintro v piece u ⟨pieces, each, rfl, same⟩
    exact ⟨_, grown each piece, by rw [separatedSnoc, List.append_nil], by simp [trees, same]⟩

theorem readsPrimary {expression : Parse ASTExpr} (inner : ReadsLevel θ 0 expression) (n : Nat) :
    ReadsLevel θ 9 (parserParsePrimary expression n) := by
  refine yieldsCheckIte (fun p number => ?_) ?_
  · obtain ⟨note, read⟩ := numeralAt number 64
    have here : (p.note note).current.terminal θ = .number (LexerScan.numeralSpan p.current.value) :=
      terminalNumber number
    have more : (p.note note).current.type ≠ .tokEof := by
      rw [show (p.note note).current = p.current from rfl, number]
      decide
    have step : YieldsAt θ (fun e u => Expr 9 (u, ASTExpr.renamed θ e))
        (parserAdvance >>= fun _ => pure (ASTExpr.number (strtoull (LexerScan.numeralSpan p.current.value))))
          (p.note note) := by
      refine yieldsAdvance more (here ▸ yieldsPure ?_)
      exact Expr.number
    intro e last ran clear
    rw [bindStep read] at ran
    exact step e last ran clear
  refine yieldsCheckIte (fun p identifier => ?_) ?_
  · refine yieldsValue (yieldsAdvance (by simp [identifier]) ?_)
    rw [terminalWord identifier]
    refine yieldsCheckAdvance (by decide) ?_ (yieldsPure Expr.identifier)
    refine yieldsBind (readsArguments inner n) fun args => yieldsExpect (by decide) (yieldsPure ?_)
    rintro u ⟨pieces, each, rfl, same⟩
    rw [ASTExpr.renamed, ASTExpr.renamedAllMap, same]
    exact .call each
  refine yieldsMatch (by decide) (yieldsPure Expr.true_) (yieldsMatch (by decide) (yieldsPure Expr.false_) ?_)
  refine yieldsCheckAdvance (by decide) ?_ (yieldsError ⟨fun _ _ => True, yieldsPure trivial⟩)
  refine yieldsBind inner fun e => yieldsExpect (by decide) (yieldsPure fun u piece => ?_)
  exact .group piece

theorem readsUnary {expression : Parse ASTExpr} (inner : ReadsLevel θ 0 expression) (n : Nat) :
    ReadsLevel θ 8 (parserParseUnary expression n) := by
  induction n with
  | zero => exact yieldsCut
  | succ n ih =>
    refine yieldsMatchOf (by decide) (fun type op listed => ?_) ?_
    · refine yieldsBind ih fun operand => yieldsPure fun u piece => ?_
      rw [List.append_nil]
      exact .unary listed piece
    · exact yieldsWeaken (readsPrimary inner n) fun _ _ piece => .tighter piece

theorem readsBinary {k : Nat} {next : Parse ASTExpr} (inner : ReadsLevel θ (k + 1) next)
    (fixed : ∀ entry ∈ level k, Fixed entry.1) (n : Nat) : ReadsLevel θ k (parserParseBinary (level k) next n) := by
  refine yieldsBind inner fun left => ?_
  refine yieldsWeaken (yieldsLoop (Q := fun e u => Expr k (u, e.renamed θ)) (fun e u => Expr k (u, e.renamed θ))
    (fun left => ?_) n left) fun e v kept u piece => kept u (.tighter piece)
  refine yieldsMatchOf fixed (fun type op listed => ?_) ?_
  · refine yieldsBind inner fun right => yieldsPure fun v piece u left => ?_
    rw [List.append_nil]
    exact .binary listed left piece
  · exact yieldsPure fun u left => by simpa using left

theorem readsExpression (n : Nat) : ReadsLevel θ 0 (parserParseExpression n) := by
  induction n with
  | zero => exact yieldsCut
  | succ n ih =>
    have unary := readsUnary ih n
    have multiplicative := readsBinary (k := 7) unary (by decide) n
    have additive := readsBinary (k := 6) multiplicative (by decide) n
    have shift := readsBinary (k := 5) additive (by decide) n
    have comparison := readsBinary (k := 4) shift (by decide) n
    have equality := readsBinary (k := 3) comparison (by decide) n
    have bitwiseAnd := readsBinary (k := 2) equality (by decide) n
    have bitwiseXor := readsBinary (k := 1) bitwiseAnd (by decide) n
    exact readsBinary (k := 0) bitwiseXor (by decide) n

/-! Statements and functions -/

theorem readsType : Yields θ (fun kind u => ∃ type kind', (type, kind') ∈ typeWords ∧ u = [.mark type] ∧
    kind = some kind')
    parserParseType := by
  refine yieldsMatchOf (by decide) (fun type kind listed => yieldsPure ⟨type, kind, listed, rfl, rfl⟩) ?_
  exact yieldsError ⟨fun _ _ => True, yieldsPure trivial⟩

abbrev ReadsStmt (θ : CString → CString) (x : Parse ASTStmt) : Prop := Reads θ Stmt (ASTStmt.renamed θ) x

theorem readsBlock {statement : Parse ASTStmt} (inner : ReadsStmt θ statement) (n : Nat) :
    Yields θ (fun b u => Stmt (u, b.renamed θ) ∧ ∃ statements, b = .block statements)
      (parserParseBlock statement n) := by
  refine yieldsMatch (by decide) ?_ (yieldsError ⟨fun _ _ => True, yieldsPure trivial⟩)
  refine yieldsBind (yieldsItems inner .statements n) fun statements => yieldsExpect (by decide) (yieldsPure ?_)
  rintro u ⟨pieces, each, rfl, same⟩
  refine ⟨?_, statements, rfl⟩
  rw [ASTStmt.renamed, ASTStmt.renamedAllMap, same]
  exact .block each

theorem readsDeclaration {expression : Parse ASTExpr} (inner : ReadsLevel θ 0 expression) {p : Parser} {isMut : Bool}
    (bound : (p.current.type, isMut) ∈ binders) :
    YieldsAt θ (fun b u => Stmt (u, b.renamed θ)) (parserParseDeclaration expression isMut) p := by
  have fixed : ∀ b ∈ binders, Fixed b.1 := by decide
  refine yieldsAdvance (fixed _ bound).2.2 ?_
  rw [terminalMark (fixed _ bound)]
  refine yieldsName fun name => yieldsExpect (by decide) (yieldsBind readsType fun declType => ?_)
  cases declType with
  | none => exact yieldsPure (by rintro u ⟨type, kind, -, -, same⟩; cases same)
  | some kind =>
    refine yieldsCheckEither (fun p assign => ?_) (yieldsError ⟨fun _ _ => True, yieldsPure trivial⟩)
    have here : p.current.type = .tokAssign := assign.resolve_right (emittedEqual p.currentEmitted)
    refine yieldsAdvance (by simp [here]) ?_
    rw [terminalMark (here ▸ by decide), here]
    refine yieldsBind inner fun init => yieldsSemicolon fun _ => yieldsPure ?_
    rintro semicolon ends u piece v ⟨type, kind', typed, rfl, same⟩
    obtain rfl := Option.some.inj same
    rw [List.append_nil]
    exact .declaration bound typed piece ends

theorem readsReturn {expression : Parse ASTExpr} (inner : ReadsLevel θ 0 expression) :
    Yields θ (fun b u => Stmt (.mark .tokReturn :: u, b.renamed θ)) (parserParseReturn expression) := by
  refine yieldsCheck fun p => yieldsCheck (fun p => yieldsCheck (fun p => yieldsIte ?_ ?_ p) p) p
  · refine yieldsSemicolon fun _ => yieldsPure fun semicolon ends => ?_
    rw [List.append_nil]
    exact .ret ends
  · refine yieldsBind inner fun value => yieldsSemicolon fun _ => yieldsPure fun semicolon ends u piece => ?_
    rw [List.append_nil]
    exact .retValue piece ends

theorem readsStatement (n : Nat) : ReadsStmt θ (parserParseStatement n) := by
  induction n with
  | zero => exact yieldsCut
  | succ n ih =>
    have expression := @readsExpression θ n
    refine yieldsCheckEither (fun p binder => ?_) ?_
    · change YieldsAt θ _ (parserParseDeclaration (parserParseExpression n) (decide (p.current.type = .tokVar))) p
      refine readsDeclaration expression ?_
      rcases binder with here | here <;> rw [here] <;> decide
    refine yieldsMatch (by decide) (readsReturn expression) ?_
    refine yieldsCheckIte (fun p _ => yieldsWeaken (readsBlock ih n) (fun _ _ piece => piece.1) p) ?_
    refine yieldsBind expression fun e => yieldsSemicolon fun _ => yieldsPure fun semicolon ends u piece => ?_
    rw [List.append_nil]
    exact .expr piece ends

theorem readsBody (n : Nat) : Reads θ Body (ASTStmt.renamed θ) (parserParseBody n) := by
  refine yieldsMatch (by decide) ?_ ?_
  · refine yieldsBind (readsStatement n) fun statement => yieldsPure fun u piece => ?_
    rw [List.append_nil]
    exact .statement piece
  refine yieldsCheckIte (fun p _ => ?_) (yieldsError ⟨fun _ _ => True, yieldsPure trivial⟩)
  refine yieldsWeaken (readsBlock (readsStatement n) n) (fun b u piece => ?_) p
  obtain ⟨inner, statements, rfl⟩ := piece
  rw [ASTStmt.renamed] at inner ⊢
  exact .block inner

theorem readsSignature {keyword : TokenType} {isNimStyle : Bool} (n : Nat)
    (spelled : (keyword, isNimStyle) ∈ [(TokenType.tokProc, true), (.tokFunc, true), (.tokFn, false)]) :
    Yields θ (fun f u => Function (.mark keyword :: u, f.renamed θ)) (parserParseSignature isNimStyle n) := by
  have arrow : ∃ arrow, (keyword, arrow) ∈ Grammar.keywords ∧ Fixed arrow ∧
      ∃ message, parserExpectArrow isNimStyle = parserExpect arrow message := by
    simp only [List.mem_cons, Prod.mk.injEq, List.not_mem_nil, or_false] at spelled
    rcases spelled with ⟨rfl, rfl⟩ | ⟨rfl, rfl⟩ | ⟨rfl, rfl⟩
    · exact ⟨.tokColon, by decide, by decide, _, rfl⟩
    · exact ⟨.tokColon, by decide, by decide, _, rfl⟩
    · exact ⟨.tokArrow, by decide, by decide, _, rfl⟩
  obtain ⟨arrow, listed, fixed, message, same⟩ := arrow
  refine yieldsName fun name => yieldsExpect (by decide) (yieldsExpect (by decide) ?_)
  rw [same]
  refine yieldsExpect fixed (yieldsBind readsType fun type => yieldsBind (readsBody n) fun body => yieldsPure ?_)
  rintro u inner v ⟨word, kind, typed, rfl, rfl⟩
  rw [List.append_nil]
  exact .function listed typed inner

theorem readsFunction (n : Nat) :
    Yields θ (fun f u => ∃ func, f = some func ∧ Function (u, func.renamed θ)) (parserParseFunction n) := by
  refine yieldsMatchOf (by decide) (fun keyword isNimStyle spelled => ?_) ?_
  · refine yieldsBind (readsSignature n spelled) fun func => yieldsPure fun u piece => ?_
    rw [List.append_nil]
    exact ⟨func, rfl, piece⟩
  · exact yieldsError ⟨fun _ _ => True, yieldsPure trivial⟩

/-! Programs -/

theorem collectFunction (definitions : List Definition) (func : ASTFunctionDef) :
    collect (definitions ++ [.function func]) =
      { collect definitions with functions := (collect definitions).functions ++ [func] } := by
  induction definitions with
  | nil => rfl
  | cons d rest ih => cases d <;> simp [collect, ih]

theorem collectPeripheral (definitions : List Definition) (periph : ASTPeripheral) :
    collect (definitions ++ [.peripheral periph]) =
      { collect definitions with peripherals := (collect definitions).peripherals ++ [periph] } := by
  induction definitions with
  | nil => rfl
  | cons d rest ih => cases d <;> simp [collect, ih]

theorem programSnoc {u v : List (Terminal CString)} {program : ASTProgram} {d : Definition}
    (before : Program (u, program)) (piece : Define (v, d)) :
    ∃ definitions, program = collect definitions ∧ Program (u ++ v, collect (definitions ++ [d])) := by
  cases before with
  | @program pieces each =>
    refine ⟨trees pieces, rfl, ?_⟩
    have grown : Program (joined (pieces ++ [(v, d)]), collect (trees (pieces ++ [(v, d)]))) := by
      refine .program fun q member => ?_
      rcases List.mem_append.mp member with old | new
      · exact each q old
      · rw [List.mem_singleton.mp new]
        exact piece
    simpa [joined, trees] using grown

theorem readsDefinition (n : Nat) (program : ASTProgram) :
    Yields θ (fun out v => ∀ u, Program (u, program.renamed θ) →
      Sum.elim (fun next => Program (u ++ v, next.renamed θ)) (fun result => Program (u ++ v, result.renamed θ)) out)
      (parserParseDefinition n program) := by
  refine yieldsCheckAny fun _ => yieldsIte (yieldsPure fun u before => by simpa using before) ?_
  refine yieldsCheckAny fun _ => yieldsCheckAny fun _ => yieldsCheckAny fun _ => yieldsIte ?_ ?_
  · refine yieldsBind (yieldsTurn .definitions (readsFunction n)) fun found => ?_
    cases found with
    | none => exact yieldsPure (by rintro v ⟨func, same, -⟩; cases same)
    | some func =>
      refine yieldsPure ?_
      rintro v ⟨func', same, piece⟩ u before
      obtain rfl := Option.some.inj same
      obtain ⟨definitions, same, after⟩ := programSnoc before (.function piece)
      rw [collectFunction, ← same] at after
      simpa [ASTProgram.renamed] using after
  refine yieldsCheckAny fun _ => yieldsIte ?_ (yieldsError ⟨fun _ _ => True, yieldsPure trivial⟩)
  refine yieldsBind (yieldsTurn .definitions (readsPeripheral n)) fun periph => yieldsPure fun v piece u before => ?_
  obtain ⟨definitions, same, after⟩ := programSnoc before (.peripheral piece)
  rw [collectPeripheral, ← same] at after
  simpa [ASTProgram.renamed] using after

theorem readsProgram (n : Nat) : Reads θ Program (ASTProgram.renamed θ) (parserParseProgram n) := by
  refine yieldsLoopFrom (fun program u => Program (u, program.renamed θ)) ?_ (readsDefinition n) n
  exact @Program.program [] (by simp)

theorem definitionLeaves {n : Nat} {program result : ASTProgram} {p last : Parser}
    (left : parserParseDefinition n program p = (some (.inr result), last)) :
    (p.current.type = .tokEof ∧ last = p) ∨ last.error = true := by
  simp only [parserParseDefinition, bindCheck, iteApply] at left
  split_ifs at left with ended function periph
  · simp only [pureApply, Prod.mk.injEq] at left
    exact .inl ⟨by simpa using ended, left.2.symm⟩
  · obtain ⟨found, next, -, two⟩ := bindReturns.mp left
    cases found <;> simp at two
  · obtain ⟨found, next, -, two⟩ := bindReturns.mp left
    simp at two
  · simp only [parserError, bindModify, pureApply, Prod.mk.injEq] at left
    exact .inr (by rw [← left.2]; rfl)

theorem programEnds {n : Nat} {p last : Parser} {program : ASTProgram}
    (ran : parserParseProgram n p = (some program, last)) : last.error = true ∨ last.terminals θ = [] := by
  refine loopReturns (fun _ _ => True) (fun _ last => last.error = true ∨ last.terminals θ = [])
    (fun _ _ _ _ _ _ => trivial) (fun before s after s' _ left => ?_) trivial ran
  rcases definitionLeaves left with ⟨ended, rfl⟩ | set
  · exact .inr (by rw [Parser.terminals, aheadEof.mpr ended, List.map_nil])
  · exact .inl set

theorem parsesProgram {input : Source} {program : ASTProgram} {p : Parser} (parsed : Parses input program p)
    (clear : p.error = false) (θ : CString → CString) : Program (input.named θ, program.renamed θ) := by
  obtain ⟨n, ran⟩ := parsed
  obtain ⟨-, used, cut, derived⟩ := readsProgram n _ program p ran clear
  have ended : p.terminals θ = [] := (programEnds ran).resolve_left (by simp [clear])
  have whole : (parserCreate input).terminals θ = input.named θ := by
    rw [Parser.terminals, parserCreate, aheadWindow]
    rfl
  rw [← whole, cut, ended, List.append_nil]
  exact derived

end BitN.ParserDerives

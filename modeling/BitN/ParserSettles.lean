import BitN.MaximalMunch

/-! The parser on settled pieces: in front of what may follow it, each is parsed back. -/
namespace BitN.ParserSettles

open Run ParserRun ParserSound ParserDerives ParserAccepts ParserLadder Printing MaximalMunch Grammar

variable {α β γ τ : Type}

abbrev At (next : TokenType) (rest : List (Terminal CString)) : Prop := headKind rest = next

theorem acceptsLast {F : List (Terminal CString) → Prop} {P : β → Prop} {Q : α → Prop} {s : List (Terminal CString)}
    {x : Parse β} {f : β → Parse α} (first : Accepts F P s x) (then_ : ∀ b, P b → Accepts F Q [] (f b)) :
    Accepts F Q s (x >>= f) := by
  have both := acceptsBind first then_ fun _ follow => follow
  rwa [List.append_nil] at both

/-- A loop that takes the pieces one by one: a turn sees the piece and the kind that comes after it. -/
theorem acceptsRounds {step : γ → Parse (γ ⊕ α)} {Q : α → Prop} (Inv : List (Piece τ) → γ → Prop)
    {pieces : List (Piece τ)} {next : TokenType}
    (turn : ∀ before q after c, pieces = before ++ q :: after → Inv before c →
      Accepts (At (upcoming (joined after) next)) (fun out => ∃ c', out = .inl c' ∧ Inv (before ++ [q]) c') q.1
        (step c))
    (leaves : ∀ c, Inv pieces c → Accepts (At next) (fun out => ∃ a, out = .inr a ∧ Q a) [] (step c)) {n : Nat}
    (enough : pieces.length < n) {c : γ} (start : Inv [] c) :
    Accepts (At next) Q (joined pieces) (Run.loop step n c) := by
  have run : ∀ after before c n, pieces = before ++ after → Inv before c → after.length < n →
      Accepts (At next) Q (joined after) (Run.loop step n c) := by
    intro after
    induction after with
    | nil =>
      intro before c n split inv enough p rest front allowed
      obtain ⟨n, rfl⟩ := Nat.exists_eq_succ_of_ne_zero (by omega : n ≠ 0)
      rw [List.append_nil] at split
      obtain ⟨_, last, ran, terminals, error, a, rfl, holds⟩ := leaves c (split ▸ inv) p rest front allowed
      exact ⟨a, last, by rw [Run.loop, bindStep ran]; rfl, terminals, error, holds⟩
    | cons q qs ih =>
      intro before c n split inv enough p rest front allowed
      obtain ⟨n, rfl⟩ := Nat.exists_eq_succ_of_ne_zero (by omega : n ≠ 0)
      rw [joinedCons, List.append_assoc] at front
      have here : At (upcoming (joined qs) next) (joined qs ++ rest) := by rw [At, headUpcoming, allowed]
      obtain ⟨_, mid, ran, terminals, error, c', rfl, inv'⟩ := turn before q qs c split inv p _ front here
      obtain ⟨a, last, later, terminals', error', holds⟩ :=
        ih (before ++ [q]) c' n (by rw [split]; simp) inv' (by simpa using enough) mid rest terminals allowed
      exact ⟨a, last, by rw [Run.loop, bindStep ran]; exact later, terminals', error'.trans error, holds⟩
  exact run pieces [] c n rfl start enough

/-! Expressions -/

/-- Behind a piece that does not end with a name, a parenthesis opens something else. -/
theorem parenParsed {k : Nat} {piece : Piece ASTExpr} (derived : Expr k piece)
    (other : lastKind piece.1 ≠ .tokIdentifier) {n m : Nat} (enough : piece.1.length ≤ n)
    (enough' : piece.1.length ≤ m + k / 9) :
    Accepts (At .tokLparen) (fun e => e.renamed lexeme = piece.2) piece.1
      (parserLevel (parserParseExpression n) m k) := by
  have unlisted : ∀ row ∈ ladder, ∀ entry ∈ row, TokenType.tokLparen ≠ entry.1 := by decide
  have stop {k : Nat} (listed : level k ∈ ladder) (expression : Parse ASTExpr) (m : Nat) (e : ASTExpr) :
      Accepts (At .tokLparen) (fun out => out = .inr e) []
        (parserParseOperator (level k) (parserLevel expression m (k + 1)) e) := by
    refine acceptsUnlisted (fun rest follow entry member => ?_) (acceptsPure rfl)
    rw [List.nil_append, follow]
    exact unlisted _ listed entry member
  induction derived generalizing m with
  | number => exact acceptsNumber
  | identifier => exact absurd rfl other
  | @call name args each =>
    simp only [List.length_cons, List.length_append] at enough enough'
    refine acceptsCall (fun a member => acceptsExpression (each a member) ?_)
      (fun a member => exprHead (each a member)) ?_
    · have inside := separatedLength member
      omega
    · have count := @separatedCount args
      omega
  | true_ => exact acceptsBoolean true
  | false_ => exact acceptsBoolean false
  | group inner =>
    simp only [List.length_cons, List.length_append] at enough
    exact acceptsGroup (acceptsExpression inner (by dsimp only; omega))
  | @unary s e type op listed operand ih =>
    simp only [List.length_cons] at enough enough'
    obtain ⟨m, rfl⟩ := Nat.exists_eq_succ_of_ne_zero (by omega : m ≠ 0)
    rw [← List.singleton_append, lastAppend _ (exprFilled operand)] at other
    refine acceptsListed (by decide) listed ?_
    refine acceptsLast (ih other (by dsimp only; omega) (by dsimp only; omega)) fun read known => acceptsPure ?_
    rw [ASTExpr.renamed, known]
  | @binary k s s' l r type op listed left right _ ih =>
    obtain ⟨low, row⟩ := levelRow listed
    simp only [List.length_append, List.length_cons] at enough enough'
    rw [lastAppend _ (by simp), ← List.singleton_append, lastAppend _ (exprFilled right)] at other
    intro p rest front allowed
    have cut : p.terminals lexeme = s ++ (.mark type :: (s' ++ rest)) := by rw [front]; simp
    -- the left operand is pending at the loop; this turn takes the right one, the next turn leaves
    obtain ⟨e, c, mid, fewer, same, terminals, error, ran⟩ := (ladderParsed left).2 low n m p _ (by dsimp only; omega)
      (by dsimp only; omega) cut (followOperator listed _)
    dsimp only at fewer same
    have distinct : ((level k).map Prod.fst).Nodup := by
      have table : ∀ row ∈ ladder, (row.map Prod.fst).Nodup := by decide
      exact table _ row
    have turn : Accepts (At .tokLparen) (fun out => ∃ e', out = .inl (.binaryOp op e e') ∧ e'.renamed lexeme = r)
        (.mark type :: s') (parserParseOperator (level k) (parserLevel (parserParseExpression n) m (k + 1)) e) := by
      refine acceptsListed distinct listed ?_
      exact acceptsLast (ih other (by dsimp only; omega) (by dsimp only; omega))
        fun right same => acceptsPure ⟨right, rfl, same⟩
    obtain ⟨_, mid', ran', terminals', error', e', rfl, same'⟩ := turn mid rest terminals allowed
    obtain ⟨_, last, left', terminals'', error'', rfl⟩ := stop row _ m (.binaryOp op e e') mid' rest terminals' allowed
    obtain ⟨d, turns⟩ : ∃ d, m - c = d + 2 := ⟨m - c - 2, by omega⟩
    have leaves : Run.loop (parserParseOperator (level k) (parserLevel (parserParseExpression n) m (k + 1))) (d + 1)
        (.binaryOp op e e') mid' = (some (.binaryOp op e e'), last) := by
      rw [Run.loop]
      exact bindStep left' _
    refine ⟨.binaryOp op e e', last, ?_, terminals'', error''.trans (error'.trans error), ?_⟩
    · rw [ran, turns, Run.loop, bindStep ran']
      exact leaves
    · change ASTExpr.renamed lexeme (.binaryOp op e e') = .binaryOp op l r
      rw [ASTExpr.renamed, same, same']
  | @tighter k piece inner ih =>
    have bound := exprLevel inner
    rcases Nat.lt_or_ge k 8 with low | high
    · intro p rest front allowed
      obtain ⟨e, mid, ran, terminals, error, same⟩ := ih (m := m) other enough (by omega) p rest front allowed
      have listed : level k ∈ ladder := by
        have table : ∀ k < 8, level k ∈ ladder := by decide
        exact table k low
      obtain ⟨_, last, left, terminals', error', rfl⟩ := stop listed _ m e mid rest terminals allowed
      have positive := exprNonempty inner
      obtain ⟨m', rfl⟩ := Nat.exists_eq_succ_of_ne_zero (by omega : m ≠ 0)
      refine ⟨e, last, ?_, terminals', error'.trans error, same⟩
      rw [levelBinary low, parserParseBinary, bindStep ran, Run.loop]
      exact bindStep left _
    · obtain rfl : k = 8 := by omega
      have positive := exprNonempty inner
      obtain ⟨m, rfl⟩ := Nat.exists_eq_succ_of_ne_zero (by omega : m ≠ 0)
      have heads := primaryHead inner
      refine acceptsUnlisted (fun rest _ => ?_) (ih other enough (by omega))
      rw [headUpcoming, upcomingHead (List.ne_nil_of_length_pos positive)]
      exact heads

theorem acceptsStopped {s : List (Terminal CString)} {e : ASTExpr} (derived : Expr 0 (s, e)) {next : TokenType}
    (stops : Stops s next) {n : Nat} (enough : s.length < n) :
    Accepts (At next) (fun read => read.renamed lexeme = e) s (parserParseExpression n) := by
  by_cases paren : next = .tokLparen
  · subst paren
    obtain ⟨n, rfl⟩ := Nat.exists_eq_succ_of_ne_zero (by omega : n ≠ 0)
    exact parenParsed derived (stops.1 rfl) (by dsimp only; omega) (by dsimp only; omega)
  · intro p rest front allowed
    refine acceptsExpression derived enough p rest front ⟨allowed ▸ paren, fun j _ entry member => ?_⟩
    rw [allowed]
    exact stops.2 _ (levelRow member).2 entry member

/-! Statements -/

theorem endsStop {s semicolon : List (Terminal CString)} {next : TokenType} (ends : Ends s semicolon next) :
    Stops s (upcoming semicolon next) := by
  cases ends with
  | semicolon =>
    have table : TokenType.tokSemicolon ≠ .tokLparen ∧
        ∀ row ∈ ladder, ∀ entry ∈ row, TokenType.tokSemicolon ≠ entry.1 := by decide
    exact ⟨fun here => absurd here table.1, table.2⟩
  | none stops _ => exact stops

theorem acceptsEnds {s semicolon : List (Terminal CString)} {e : ASTExpr} (derived : Expr 0 (s, e)) {next : TokenType}
    (ends : Ends s semicolon next) {n : Nat} (enough : s.length < n) {Q : α → Prop} {build : ASTExpr → α}
    (built : ∀ read, read.renamed lexeme = e → Q (build read)) :
    Accepts (At next) Q (s ++ semicolon) (parserParseExpression n >>= fun read =>
      parserMatch .tokSemicolon >>= fun _ => pure (build read)) := by
  refine acceptsBind (acceptsStopped derived (endsStop ends) enough) (fun read same => ?_) fun rest follow => ?_
  · cases ends with
    | semicolon => exact acceptsMatch rfl (acceptsPure (built read same))
    | none _ other =>
      refine acceptsSkip (fun rest follow => ?_) (acceptsPure (built read same))
      rw [List.nil_append, show headKind rest = next from follow]
      exact other
  · rw [At, headUpcoming, follow]

theorem exprOther {k : Nat} {s : List (Terminal CString)} {e : ASTExpr} (derived : Expr k (s, e)) {type : TokenType}
    (other : type ∉ expressionStarts) (rest : List (Terminal CString)) : headKind (s ++ rest) ≠ type := by
  rw [headUpcoming, upcomingHead (exprFilled derived)]
  exact fun here => other (here ▸ exprHead derived)

theorem acceptsInit {name : CString} {type : TokenType} {kind : TypeKind} {binder : TokenType} {isMut : Bool}
    (typed : (type, kind) ∈ typeWords) {s semicolon : List (Terminal CString)} {init : ASTExpr}
    (derived : Expr 0 (s, init)) {next : TokenType} (ends : Ends s semicolon next) {n : Nat} (enough : s.length < n) :
    Accepts (At next) (fun r => r.renamed lexeme = .varDecl name (some kind) init isMut)
      (.mark binder :: .word name :: .mark .tokColon :: .mark type :: .mark .tokAssign :: (s ++ semicolon))
      (parserParseDeclaration (parserParseExpression n) isMut) := by
  have read : Accepts (fun _ => True) (fun found => found = some kind) [.mark type] parserParseType :=
    acceptsListed (by decide) typed (acceptsPure rfl)
  refine acceptsAdvance (acceptsName fun raw same => acceptsExpect rfl ?_)
  refine acceptsBind read (fun found here => ?_) fun _ _ => trivial
  subst here
  refine acceptsCheck true (fun _ _ => rfl) (acceptsCheck false (fun _ _ => rfl) (acceptsAdvance ?_))
  refine acceptsEnds derived ends enough fun read known => ?_
  rw [ASTStmt.renamed, same, known]

theorem acceptsOpening {front s semicolon : List (Terminal CString)} {f : ASTExpr → ASTStmt} {e : ASTExpr}
    (opening : Opening front f) (derived : Expr 0 (s, e)) {next : TokenType} (ends : Ends s semicolon next) {n : Nat}
    (enough : s.length < n) :
    Accepts (At next) (fun r => r.renamed lexeme = f e) (front ++ (s ++ semicolon)) (parserParseStatement (n + 1)) := by
  have start {type : TokenType} (other : type ∉ expressionStarts) (rest : List (Terminal CString)) (_ : At next rest) :
      decide (headKind (s ++ semicolon ++ rest) = type) = false := by
    rw [List.append_assoc]
    exact decide_eq_false (exprOther derived other _)
  cases opening with
  | @declaration binder isMut name type kind bound typed =>
    simp only [binders, List.mem_cons, Prod.mk.injEq, List.not_mem_nil, or_false] at bound
    rcases bound with ⟨rfl, rfl⟩ | ⟨rfl, rfl⟩
    · refine acceptsCheck true (fun _ _ => rfl) (acceptsCheck false (fun _ _ => rfl)
        (acceptsCheck false (fun _ _ => rfl) ?_))
      exact acceptsInit typed derived ends enough
    · refine acceptsCheck false (fun _ _ => rfl) (acceptsCheck true (fun _ _ => rfl)
        (acceptsCheck true (fun _ _ => rfl) ?_))
      exact acceptsInit typed derived ends enough
  | ret =>
    refine acceptsCheck false (fun _ _ => rfl) (acceptsCheck false (fun _ _ => rfl) (acceptsMatch rfl ?_))
    refine acceptsCheck false (start (by decide)) (acceptsCheck false (start (by decide)) ?_)
    refine acceptsCheck false (start (by decide)) (acceptsEnds derived ends enough fun read known => ?_)
    rw [ASTStmt.renamed, known]
  | expr =>
    refine acceptsCheck false (start (by decide)) (acceptsCheck false (start (by decide)) ?_)
    refine acceptsSkip (fun rest follow => of_decide_eq_false (start (by decide) rest follow)) ?_
    refine acceptsCheck false (start (by decide)) (acceptsEnds derived ends enough fun read known => ?_)
    rw [ASTStmt.renamed, known]

theorem acceptsOpenReturn {next : TokenType} (closing : next = .tokRbrace ∨ next = .tokEof)
    {expression : Parse ASTExpr} :
    Accepts (At next) (fun r => r.renamed lexeme = .ret .null) [] (parserParseReturn expression) := by
  have skip (rest : List (Terminal CString)) (follow : At next rest) : headKind rest ≠ .tokSemicolon := by
    rw [follow]
    rcases closing with rfl | rfl <;> decide
  refine acceptsCheck false (fun rest follow => decide_eq_false (skip rest follow)) ?_
  rcases closing with rfl | rfl
  · refine acceptsCheck true (fun rest follow => decide_eq_true follow) (acceptsCheck false (fun rest follow => ?_) ?_)
    · rw [List.nil_append, follow]
      rfl
    · exact acceptsSkip skip (acceptsPure rfl)
  · refine acceptsCheck false (fun rest follow => ?_) (acceptsCheck true (fun rest follow => decide_eq_true follow) ?_)
    · rw [List.nil_append, follow]
      rfl
    · exact acceptsSkip skip (acceptsPure rfl)

theorem acceptsBraces {pieces : List (Piece ASTStmt)} {n m : Nat}
    (each : ∀ before q after, pieces = before ++ q :: after → Accepts (At (upcoming (joined after) .tokRbrace))
      (fun r => r.renamed lexeme = q.2) q.1 (parserParseStatement m))
    (heads : ∀ q ∈ pieces, headKind q.1 ∈ statementStarts) (enough : pieces.length < n) {next : TokenType} :
    Accepts (At next) (fun r => r.renamed lexeme = .block (trees pieces))
      (.mark .tokLbrace :: (joined pieces ++ [.mark .tokRbrace])) (parserParseBlock (parserParseStatement m) n) := by
  have items : Accepts (At .tokRbrace) (fun read => read.map (ASTStmt.renamed lexeme) = trees pieces) (joined pieces)
      (parserItems .statements (parserParseStatement m) n) := by
    refine acceptsRounds (fun taken read => read.map (ASTStmt.renamed lexeme) = trees taken)
      (fun before q after read split inv => ?_) (fun read inv => ?_) enough rfl
    · have head := heads q (split ▸ List.mem_append_right _ List.mem_cons_self)
      have other {type : TokenType} (outside : type ∉ statementStarts) (rest : List (Terminal CString)) :
          headKind (q.1 ++ rest) ≠ type := by
        rw [headUpcoming, upcomingHead]
        · exact fun here => outside (here ▸ head)
        · intro empty
          rw [empty] at head
          exact absurd head (by decide)
      refine acceptsCheck false (fun rest _ => decide_eq_false (other (by decide) rest)) ?_
      refine acceptsCheck false (fun rest _ => decide_eq_false (other (by decide) rest)) ?_
      refine acceptsLast (acceptsTurn .statements (each before q after split)) fun r known => acceptsPure ?_
      exact ⟨_, rfl, by simp [trees, inv, known]⟩
    · exact acceptsCheck true (fun rest follow => decide_eq_true follow) (acceptsPure ⟨read, rfl, inv⟩)
  refine acceptsMatch rfl (acceptsBind items (fun read known => acceptsExpect rfl (acceptsPure ?_)) fun _ _ => rfl)
  rw [ASTStmt.renamed, ASTStmt.renamedAllMap, known]

theorem statementsCount {next : TokenType} {pieces : List (Piece ASTStmt)} (each : InFront Settled next pieces) :
    pieces.length ≤ (joined pieces).length := by
  refine joinedLength fun q member => ?_
  obtain ⟨before, after, split⟩ := List.append_of_mem member
  exact settledFilled (each before q after split)

theorem acceptsSettled {next : TokenType} {q : Piece ASTStmt} (settled : Settled next q) {n : Nat}
    (enough : q.1.length + 1 < n) :
    Accepts (At next) (fun r => r.renamed lexeme = q.2) q.1 (parserParseStatement n) := by
  induction settled generalizing n with
  | @value next front f s e semicolon opening value ends =>
    simp only [List.length_append] at enough
    obtain ⟨n, rfl⟩ := Nat.exists_eq_succ_of_ne_zero (by omega : n ≠ 0)
    exact acceptsOpening opening value ends (by omega)
  | ret =>
    obtain ⟨n, rfl⟩ := Nat.exists_eq_succ_of_ne_zero (by omega : n ≠ 0)
    refine acceptsCheck false (fun _ _ => rfl) (acceptsCheck false (fun _ _ => rfl) (acceptsMatch rfl ?_))
    exact acceptsBareReturn
  | retOpen closing =>
    obtain ⟨n, rfl⟩ := Nat.exists_eq_succ_of_ne_zero (by omega : n ≠ 0)
    refine acceptsCheck false (fun _ _ => rfl) (acceptsCheck false (fun _ _ => rfl) (acceptsMatch rfl ?_))
    exact acceptsOpenReturn closing
  | @block next statements each ih =>
    obtain ⟨n, rfl⟩ := Nat.exists_eq_succ_of_ne_zero (by omega : n ≠ 0)
    have count := statementsCount each
    simp only [List.length_cons, List.length_append] at enough
    have brace : TokenType.tokLbrace ≠ .tokReturn := by decide
    refine acceptsCheck false (fun _ _ => rfl) (acceptsCheck false (fun _ _ => rfl) ?_)
    refine acceptsSkip (fun _ _ => brace) (acceptsCheck true (fun _ _ => rfl) ?_)
    refine acceptsBraces (fun before q after split => ih before q after split ?_) (fun q member => ?_) (by omega)
    · have part := @pieceLength _ statements q (split ▸ List.mem_append_right _ List.mem_cons_self)
      omega
    · obtain ⟨before, after, split⟩ := List.append_of_mem member
      exact settledHead (each before q after split)

/-! Definitions -/

theorem acceptsSettledBody {next : TokenType} {q : Piece ASTStmt} (settled : SettledBody next q) {n : Nat}
    (enough : q.1.length < n) :
    Accepts (At next) (fun r => r.renamed lexeme = q.2) q.1 (parserParseBody n) := by
  cases settled with
  | @statement s b only =>
    simp only [List.length_cons] at enough
    refine acceptsMatch rfl (acceptsLast (acceptsSettled only enough) fun read known => acceptsPure ?_)
    rw [ASTStmt.renamed, ASTStmt.renamedAllMap, List.map_singleton, known]
  | @block s statements inner =>
    generalize tree : ASTStmt.block statements = t at inner
    cases inner with
    | value opening => cases opening <;> cases tree
    | ret => cases tree
    | retOpen => cases tree
    | block each =>
      cases tree
      rename_i pieces
      have count := statementsCount each
      simp only [List.length_cons, List.length_append] at enough
      refine acceptsSkip (fun _ _ => TokenType.noConfusion) (acceptsCheck true (fun _ _ => rfl) ?_)
      refine acceptsBraces (fun before r after split => acceptsSettled (each before r after split) ?_)
        (fun r member => ?_) (by omega)
      · have part := @pieceLength _ pieces r (split ▸ List.mem_append_right _ List.mem_cons_self)
        omega
      · obtain ⟨before, after, split⟩ := List.append_of_mem member
        exact settledHead (each before r after split)

theorem acceptsSignature {next keyword arrow type : TokenType} {name : CString} {kind : TypeKind}
    {s : List (Terminal CString)} {body : ASTStmt} (spelled : (keyword, arrow) ∈ Grammar.keywords)
    (typed : (type, kind) ∈ typeWords) (inner : SettledBody next (s, body)) {n : Nat} (enough : s.length < n) :
    Accepts (At next) (fun r : ASTFunctionDef => r.renamed lexeme = ⟨name, some kind, [], body⟩)
      (.word name :: .mark .tokLparen :: .mark .tokRparen :: .mark arrow :: .mark type :: s)
      (parserParseSignature (decide (arrow = .tokColon)) n) := by
  have read : Accepts (fun _ => True) (fun found => found = some kind) [.mark type] parserParseType :=
    acceptsListed (by decide) typed (acceptsPure rfl)
  have known : arrow = .tokColon ∨ arrow = .tokArrow := by
    have table : ∀ entry ∈ Grammar.keywords, entry.2 = .tokColon ∨ entry.2 = .tokArrow := by decide
    exact table _ spelled
  obtain ⟨message, expected⟩ :
      ∃ message, parserExpectArrow (decide (arrow = .tokColon)) = parserExpect arrow message := by
    rcases known with rfl | rfl
    · exact ⟨_, rfl⟩
    · exact ⟨_, rfl⟩
  refine acceptsName fun raw same => acceptsExpect rfl (acceptsExpect rfl ?_)
  rw [expected]
  refine acceptsExpect rfl (acceptsBind read (fun found here => ?_) fun _ _ => trivial)
  refine acceptsLast (acceptsSettledBody inner enough) fun body built => acceptsPure ?_
  rw [ASTFunctionDef.renamed, same, built, here]
  rfl

theorem acceptsFunction {next : TokenType} {s : List (Terminal CString)} {func : ASTFunctionDef}
    (settled : SettledDefinition next (s, .function func)) {n : Nat} (enough : s.length < n) :
    Accepts (At next) (fun r => r.map (ASTFunctionDef.renamed lexeme) = some func) s (parserParseFunction n) := by
  cases settled with
  | @function keyword arrow name type kind s body spelled typed inner =>
    simp only [List.length_cons] at enough
    have listed : (keyword, decide (arrow = TokenType.tokColon)) ∈
        [(TokenType.tokProc, true), (.tokFunc, true), (.tokFn, false)] := by
      have table : ∀ entry ∈ Grammar.keywords, (entry.1, decide (entry.2 = TokenType.tokColon)) ∈
          [(TokenType.tokProc, true), (.tokFunc, true), (.tokFn, false)] := by decide
      exact table _ spelled
    have signature := @acceptsSignature next _ _ _ name _ _ _ spelled typed inner n (by omega)
    refine acceptsListed (by decide) listed (acceptsLast signature fun read known => acceptsPure ?_)
    rw [Option.map_some, known]

theorem acceptsDefinition {next : TokenType} {q : Piece Definition} (settled : SettledDefinition next q) {n : Nat}
    (enough : q.1.length < n) (program : ASTProgram) {before : List Definition}
    (inv : program.renamed lexeme = collect before) :
    Accepts (At next) (fun out => ∃ c, out = .inl c ∧ c.renamed lexeme = collect (before ++ [q.2])) q.1
      (parserParseDefinition n program) := by
  have head := definitionHead settled
  have first (type : TokenType) (rest : List (Terminal CString)) :
      decide (headKind (q.1 ++ rest) = type) = decide (headKind q.1 = type) := by
    rw [headUpcoming, upcomingHead]
    intro empty
    rw [empty] at head
    exact absurd head (by decide)
  refine acceptsCheck false (fun rest _ => ?_) ?_
  · rw [first]
    have table : ∀ type ∈ definitionStarts, decide (type = .tokEof) = false := by decide
    exact table _ head
  refine acceptsCheck _ (fun rest _ => first _ rest) (acceptsCheck _ (fun rest _ => first _ rest) ?_)
  refine acceptsCheck _ (fun rest _ => first _ rest) ?_
  obtain ⟨s, d⟩ := q
  cases d with
  | function func =>
    have keyword : headKind s = .tokProc ∨ headKind s = .tokFunc ∨ headKind s = .tokFn := by
      cases settled with
      | function spelled =>
        have table : ∀ entry ∈ Grammar.keywords, entry.1 = .tokProc ∨ entry.1 = .tokFunc ∨ entry.1 = .tokFn := by decide
        exact table _ spelled
    rw [if_pos (by simpa [or_assoc] using keyword)]
    refine acceptsLast (acceptsTurn .definitions (acceptsFunction settled enough)) fun found same => ?_
    obtain ⟨func', rfl, rfl⟩ := Option.map_eq_some_iff.mp same
    refine acceptsPure ⟨_, rfl, ?_⟩
    rw [collectFunction, ← inv]
    simp [ASTProgram.renamed]
  | peripheral periph =>
    cases settled with
    | peripheral inner =>
      have keyword : headKind s = .tokPeripheral := by
        cases inner
        rfl
      have weaker : Accepts (At next) (fun r => r.renamed lexeme = periph) s (parserParsePeripheral n) :=
        fun p rest front _ => acceptsPeripheral inner (Nat.le_of_lt enough) p rest front trivial
      rw [if_neg (by simp [keyword])]
      refine acceptsCheck true (fun rest _ => (first _ rest).trans (decide_eq_true keyword)) ?_
      refine acceptsLast (acceptsTurn .definitions weaker) fun periph' same => acceptsPure ⟨_, rfl, ?_⟩
      rw [collectPeripheral, ← inv, ← same]
      simp [ASTProgram.renamed]

theorem parsesSettled {input : Source} {tree : ASTProgram} (settled : SettledProgram (input.terminals, tree)) :
    ∃ program p, Parses input program p ∧ p.error = false ∧ program.lexemes = tree := by
  generalize stream : input.terminals = s at settled
  cases settled with
  | @program definitions each =>
    have front : (parserCreate input).terminals lexeme = joined definitions ++ [] := by
      rw [List.append_nil, ← stream, Parser.terminals, parserCreate, aheadWindow]
      rfl
    have filled : ∀ q ∈ definitions, q.1 ≠ [] := by
      intro q member empty
      obtain ⟨before, after, split⟩ := List.append_of_mem member
      have head := definitionHead (each before q after split)
      rw [empty] at head
      exact absurd head (by decide)
    have count := joinedLength filled
    have fuel : ∀ q ∈ definitions, q.1.length < (joined definitions).length + 1 :=
      fun q member => Nat.lt_succ_of_le (pieceLength member)
    have run : Accepts (At .tokEof) (fun program => program.renamed lexeme = collect (trees definitions))
        (joined definitions) (parserParseProgram ((joined definitions).length + 1)) := by
      refine acceptsRounds (fun taken program => program.renamed lexeme = collect (trees taken))
        (fun before q after program split inv => ?_) (fun program inv => ?_) (by omega) rfl
      · have turn := acceptsDefinition (each before q after split)
          (fuel q (split ▸ List.mem_append_right _ List.mem_cons_self)) program inv
        rw [show trees before ++ [q.2] = trees (before ++ [q]) by simp [trees]] at turn
        exact turn
      · exact acceptsCheck true (fun rest follow => decide_eq_true follow) (acceptsPure ⟨program, rfl, inv⟩)
    obtain ⟨program, p, ran, -, error, built⟩ := run _ _ front rfl
    exact ⟨program, p, ⟨_, ran⟩, error, built⟩

end BitN.ParserSettles

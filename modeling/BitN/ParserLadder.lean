import BitN.ParserPeripherals

/-! Completeness of the expression routines: level by level, each derivation is parsed back,
provided that what follows cannot continue it. -/
namespace BitN.ParserLadder

open Run ParserRun ParserSound ParserDerives ParserAccepts Grammar

def parserLevel (expression : Parse ASTExpr) (fuel : Nat) : Nat → Parse ASTExpr
  | 0 => parserParseBitwiseOr expression fuel
  | 1 => parserParseBitwiseXor expression fuel
  | 2 => parserParseBitwiseAnd expression fuel
  | 3 => parserParseEquality expression fuel
  | 4 => parserParseComparison expression fuel
  | 5 => parserParseShift expression fuel
  | 6 => parserParseAdditive expression fuel
  | 7 => parserParseMultiplicative expression fuel
  | 8 => parserParseUnary expression fuel
  | _ => parserParsePrimary expression fuel

theorem levelBinary {k : Nat} (low : k < 8) (expression : Parse ASTExpr) (fuel : Nat) :
    parserLevel expression fuel k =
      parserParseBinary (level k) (parserLevel expression fuel (k + 1)) fuel := by
  match k, low with
  | 0, _ | 1, _ | 2, _ | 3, _ | 4, _ | 5, _ | 6, _ | 7, _ => rfl

def Follow (k : Nat) (rest : List (Terminal CString)) : Prop :=
  headKind rest ≠ .tokLparen ∧ ∀ j, k ≤ j → ∀ entry ∈ level j, headKind rest ≠ entry.1

theorem followTighter {k : Nat} {rest : List (Terminal CString)} (follow : Follow k rest) : Follow (k + 1) rest :=
  ⟨follow.1, fun j above => follow.2 j (by omega)⟩

theorem followClosed {rest : List (Terminal CString)} {type : TokenType} (here : headKind rest = type)
    (closing : type = .tokRparen ∨ type = .tokComma ∨ type = .tokSemicolon) (k : Nat) : Follow k rest := by
  have table : ∀ row ∈ ladder, ∀ entry ∈ row, entry.1 ≠ .tokRparen ∧ entry.1 ≠ .tokComma ∧ entry.1 ≠ .tokSemicolon := by
    decide
  refine ⟨by rcases closing with rfl | rfl | rfl <;> simp [here], fun j _ entry member => ?_⟩
  obtain ⟨rparen, comma, semicolon⟩ := table (level j) (levelRow member).2 entry member
  rw [here]
  rcases closing with rfl | rfl | rfl
  · exact rparen.symm
  · exact comma.symm
  · exact semicolon.symm

theorem followOperator {k : Nat} {entry : TokenType × BinaryOp} (listed : entry ∈ level k)
    (rest : List (Terminal CString)) : Follow (k + 1) (.mark entry.1 :: rest) := by
  have table : ∀ i < 8, ∀ j < 8, i < j → ∀ e ∈ level i, ∀ e' ∈ level j, e.1 ≠ e'.1 := by decide
  have paren : ∀ row ∈ ladder, ∀ e ∈ row, e.1 ≠ .tokLparen := by decide
  obtain ⟨low, inside⟩ := levelRow listed
  refine ⟨paren (level k) inside entry listed, fun j above other member' => ?_⟩
  exact table k low j (levelRow member').1 (by omega) entry listed other member'

/-! First tokens -/

def expressionStarts : List TokenType := [
  .tokNumber, .tokIdentifier, .tokTrue, .tokFalse, .tokLparen, .tokMinus, .tokNot, .tokXor]

theorem exprHead {k : Nat} {piece : Piece ASTExpr} (derived : Expr k piece) : headKind piece.1 ∈ expressionStarts := by
  induction derived with
  | unary listed operand =>
    have table : ∀ entry ∈ prefixes, entry.1 ∈ expressionStarts := by decide
    exact table _ listed
  | binary listed left right ih =>
    rwa [headAppend]
    rintro ended
    rw [ended] at ih
    exact absurd ih (by decide)
  | tighter inner ih => exact ih
  | _ => simp [headKind, kind, expressionStarts]

theorem exprNonempty {k : Nat} {piece : Piece ASTExpr} (derived : Expr k piece) : 0 < piece.1.length := by
  refine List.length_pos_of_ne_nil fun empty => ?_
  have head := exprHead derived
  rw [empty] at head
  exact absurd head (by decide)

theorem exprLevel {k : Nat} {piece : Piece ASTExpr} (derived : Expr k piece) : k ≤ 9 := by
  induction derived with
  | binary listed => exact (levelRow listed).1.le.trans (by omega)
  | tighter inner ih => omega
  | _ => omega

theorem primaryHead {piece : Piece ASTExpr} (derived : Expr 9 piece) :
    ∀ entry ∈ prefixes, headKind piece.1 ≠ entry.1 := by
  generalize nine : 9 = k at derived
  cases derived with
  | unary => omega
  | binary listed =>
    have := (levelRow listed).1
    omega
  | tighter inner =>
    have := exprLevel inner
    omega
  | _ => simp [headKind, kind, prefixes]

/-! Arguments -/

theorem acceptsArguments {expression : Parse ASTExpr} {args : List (Piece ASTExpr)}
    (each : ∀ a ∈ args, Accepts (Follow 0) (fun e => e.renamed lexeme = a.2) a.1 expression)
    (heads : ∀ a ∈ args, headKind a.1 ∈ expressionStarts) {n : Nat} (enough : args.length ≤ n) :
    Accepts (fun rest => headKind rest = .tokRparen) (fun read => read.map (ASTExpr.renamed lexeme) = trees args)
      (separated args)
      (parserParseArguments expression n) := by
  have run : ∀ args : List (Piece ASTExpr), ∀ a : Piece ASTExpr, ∀ n acc,
      (∀ b ∈ a :: args, Accepts (Follow 0) (fun e => e.renamed lexeme = b.2) b.1 expression) → args.length < n →
      Accepts (fun rest => headKind rest = .tokRparen)
        (fun read => read.map (ASTExpr.renamed lexeme) = acc.map (ASTExpr.renamed lexeme) ++ trees (a :: args))
          (separated (a :: args))
        (Run.loop (parserParseArgument expression) n acc) := by
    intro args
    induction args with
    | nil =>
      intro a n acc each enough p rest front allowed
      obtain ⟨n, rfl⟩ := Nat.exists_eq_succ_of_ne_zero (by omega : n ≠ 0)
      rw [separated, List.map_cons, List.map_nil, List.intercalate_singleton] at front
      obtain ⟨e, next, ran, terminals, error, same⟩ :=
        each a List.mem_cons_self p rest front (followClosed allowed (.inl rfl) 0)
      have stop : next.current.type ≠ .tokComma := by rw [currentKind, terminals, allowed]; decide
      have step : parserParseArgument expression acc p = (some (.inr (acc ++ [e])), next) := by
        rw [parserParseArgument, bindStep ran, bindStep (matchSkipped stop)]
        rfl
      refine ⟨acc ++ [e], next, ?_, terminals, error, by simp [trees, same]⟩
      rw [Run.loop, bindStep step]
      rfl
    | cons b bs ih =>
      intro a n acc each enough p rest front allowed
      obtain ⟨n, rfl⟩ := Nat.exists_eq_succ_of_ne_zero (by omega : n ≠ 0)
      have cut : p.terminals lexeme = a.1 ++ (.mark .tokComma :: (separated (b :: bs) ++ rest)) := by
        rw [front, separated, List.map_cons, List.map_cons, List.intercalate_cons_cons, ← List.map_cons, ← separated]
        simp
      obtain ⟨e, next, ran, terminals, error, same⟩ :=
        each a List.mem_cons_self p _ cut (followClosed rfl (.inr (.inl rfl)) 0)
      have comma : next.current.type = .tokComma := by rw [currentKind, terminals]; rfl
      have step : parserParseArgument expression acc p = (some (.inl (acc ++ [e])), next.advance) := by
        rw [parserParseArgument, bindStep ran, bindStep (matchTaken comma)]
        rfl
      obtain ⟨read, last, later, terminals', error', same'⟩ :=
        ih b n (acc ++ [e]) (fun c member => each c (List.mem_cons_of_mem _ member)) (by simpa using enough)
          next.advance rest (currentTerminal terminals).2 allowed
      refine ⟨read, last, ?_, terminals', error'.trans error, by simp [same', trees, same]⟩
      rw [Run.loop, bindStep step]
      exact later
  cases args with
  | nil => exact acceptsCheck true (fun rest close => by simpa [separated] using close) (acceptsPure rfl)
  | cons a args =>
    refine acceptsCheck false (fun rest _ => ?_) ?_
    · have head := heads a List.mem_cons_self
      have start : headKind (separated (a :: args) ++ rest) = headKind a.1 := by
        have nonempty : headKind a.1 ≠ .tokEof := by
          intro ended
          rw [ended] at head
          exact absurd head (by decide)
        cases args with
        | nil => rw [separated, List.map_cons, List.map_nil, List.intercalate_singleton, headAppend nonempty]
        | cons b bs =>
          rw [separated, List.map_cons, List.map_cons, List.intercalate_cons_cons, List.append_assoc, List.append_assoc,
            headAppend nonempty]
      rw [start, decide_eq_false]
      intro close
      rw [close] at head
      exact absurd head (by decide)
    · have all := run args a n [] each enough
      simp only [List.map_nil, List.nil_append] at all
      exact all

/-! The ladder -/

def Parsed (k : Nat) (piece : Piece ASTExpr) : Prop :=
  ∀ n m, piece.1.length ≤ n → piece.1.length ≤ m + k / 9 →
    Accepts (Follow k) (fun e => e.renamed lexeme = piece.2) piece.1 (parserLevel (parserParseExpression n) m k)

/-- Before the loop of its level sees what follows, the piece is the loop's left operand. -/
def Pending (k : Nat) (piece : Piece ASTExpr) : Prop :=
  ∀ n m p rest, piece.1.length ≤ n → piece.1.length ≤ m → p.terminals lexeme = piece.1 ++ rest → Follow (k + 1) rest →
    ∃ e c last, c < piece.1.length ∧ e.renamed lexeme = piece.2 ∧ last.terminals lexeme = rest ∧ last.error = p.error ∧
      parserLevel (parserParseExpression n) m k p =
        Run.loop (parserParseOperator (level k) (parserLevel (parserParseExpression n) m (k + 1))) (m - c) e last

theorem pendingParsed {k : Nat} {piece : Piece ASTExpr} (low : k < 8) (pending : Pending k piece) : Parsed k piece := by
  intro n m enough enough' p rest front follow
  have fuel : piece.1.length ≤ m := by omega
  obtain ⟨e, c, last, fewer, same, terminals, error, ran⟩ := pending n m p rest enough fuel front (followTighter follow)
  obtain ⟨d, turns⟩ := Nat.exists_eq_succ_of_ne_zero (by omega : m - c ≠ 0)
  have step : Accepts (Follow k) (fun out => out = .inr e) []
      (parserParseOperator (level k) (parserLevel (parserParseExpression n) m (k + 1)) e) :=
    acceptsUnlisted (fun rest follow entry member => follow.2 k le_rfl entry member) (acceptsPure rfl)
  obtain ⟨out, next, left, terminals', error', rfl⟩ := step last rest terminals follow
  refine ⟨e, next, ?_, terminals', error'.trans error, same⟩
  rw [ran, turns, Run.loop]
  exact bindStep left _

theorem pendingTighter {k : Nat} {piece : Piece ASTExpr} (low : k < 8) (positive : 0 < piece.1.length)
    (inner : Parsed (k + 1) piece) : Pending k piece := by
  intro n m p rest enough enough' front follow
  obtain ⟨e, last, ran, terminals, error, same⟩ := inner n m enough (by omega) p rest front follow
  refine ⟨e, 0, last, positive, same, terminals, error, ?_⟩
  rw [levelBinary low, parserParseBinary, bindStep ran]
  rfl

theorem pendingBinary {k : Nat} {s s' : List (Terminal CString)} {l r : ASTExpr} {type : TokenType} {op : BinaryOp}
    (listed : (type, op) ∈ level k) (left : Pending k (s, l)) (right : Parsed (k + 1) (s', r)) :
    Pending k (s ++ .mark type :: s', .binaryOp op l r) := by
  intro n m p rest enough enough' front follow
  simp only [List.length_append, List.length_cons] at enough enough'
  have cut : p.terminals lexeme = s ++ (.mark type :: (s' ++ rest)) := by rw [front]; simp
  obtain ⟨e, c, mid, fewer, same, terminals, error, ran⟩ :=
    left n m p _ (by dsimp only; omega) (by dsimp only; omega) cut (followOperator listed _)
  dsimp only at fewer same
  obtain ⟨d, turns⟩ := Nat.exists_eq_succ_of_ne_zero (by omega : m - c ≠ 0)
  have distinct : ((level k).map Prod.fst).Nodup := by
    have table : ∀ row ∈ ladder, (row.map Prod.fst).Nodup := by decide
    exact table _ (levelRow listed).2
  have operand := right n m (by dsimp only; omega) (by dsimp only; omega)
  have step : Accepts (Follow (k + 1)) (fun out => ∃ e', out = .inl (.binaryOp op e e') ∧ e'.renamed lexeme = r)
    (.mark type :: s')
      (parserParseOperator (level k) (parserLevel (parserParseExpression n) m (k + 1)) e) := by
    refine acceptsListed distinct listed ?_
    rw [← List.append_nil s']
    exact acceptsBind operand (fun right same => acceptsPure ⟨right, rfl, same⟩) fun rest follow => follow
  obtain ⟨out, last, ran', terminals', error', e', rfl, same'⟩ := step mid rest terminals follow
  refine ⟨.binaryOp op e e', c + 1, last, by simp; omega, ?_, terminals', error'.trans error, ?_⟩
  · rw [ASTExpr.renamed, same, same']
  · rw [ran, turns, Run.loop, bindStep ran', show m - (c + 1) = d by omega]

/-! Primaries -/

section primaries
variable {F : List (Terminal CString) → Prop} {expression : Parse ASTExpr} {fuel : Nat}

theorem acceptsNumber {numeral : CString} :
    Accepts F (fun e => e.renamed lexeme = .number (strtoull numeral)) [.number numeral]
      (parserParsePrimary expression fuel) :=
  acceptsCheck true (fun _ _ => rfl) (acceptsNumeral 64 (acceptsAdvance (acceptsPure rfl)))

theorem acceptsIdentifier {name : CString} :
    Accepts (Follow 9) (fun e => e.renamed lexeme = .identifier name) [.word name]
      (parserParsePrimary expression fuel) := by
  refine acceptsCheck false (fun _ _ => rfl) (acceptsCheck true (fun _ _ => rfl) ?_)
  refine acceptsValue fun raw same => acceptsAdvance (acceptsCheck false (fun rest follow => ?_) (acceptsPure ?_))
  · exact decide_eq_false follow.1
  · rw [ASTExpr.renamed, same]

theorem acceptsCall {name : CString} {args : List (Piece ASTExpr)}
    (each : ∀ a ∈ args, Accepts (Follow 0) (fun e => e.renamed lexeme = a.2) a.1 expression)
    (heads : ∀ a ∈ args, headKind a.1 ∈ expressionStarts) (enough : args.length ≤ fuel) :
    Accepts F (fun e => e.renamed lexeme = .call (.identifier name) (trees args))
      (.word name :: .mark .tokLparen :: (separated args ++ [.mark .tokRparen]))
        (parserParsePrimary expression fuel) := by
  refine acceptsCheck false (fun _ _ => rfl) (acceptsCheck true (fun _ _ => rfl) ?_)
  refine acceptsValue fun raw same => acceptsAdvance (acceptsCheck true (fun _ _ => rfl) (acceptsAdvance ?_))
  refine acceptsBind (acceptsArguments each heads enough) (fun read known => ?_) fun _ _ => rfl
  refine acceptsExpect rfl (acceptsPure ?_)
  rw [ASTExpr.renamed, ASTExpr.renamed, same, ASTExpr.renamedAllMap, known]

theorem acceptsBoolean (value : Bool) :
    Accepts F (fun e => e.renamed lexeme = .boolean value) [.mark (if value then .tokTrue else .tokFalse)]
      (parserParsePrimary expression fuel) := by
  cases value with
  | true =>
    refine acceptsCheck false (fun _ _ => rfl) (acceptsCheck false (fun _ _ => rfl) ?_)
    exact acceptsMatch rfl (acceptsPure rfl)
  | false =>
    refine acceptsCheck false (fun _ _ => rfl) (acceptsCheck false (fun _ _ => rfl) ?_)
    exact acceptsSkip (fun _ _ => by simp [headKind, kind]) (acceptsMatch rfl (acceptsPure rfl))

theorem acceptsGroup {s : List (Terminal CString)} {e : ASTExpr}
    (inner : Accepts (Follow 0) (fun read => read.renamed lexeme = e) s expression) :
    Accepts F (fun read => read.renamed lexeme = e) (.mark .tokLparen :: (s ++ [.mark .tokRparen]))
      (parserParsePrimary expression fuel) := by
  refine acceptsCheck false (fun _ _ => rfl) (acceptsCheck false (fun _ _ => rfl) ?_)
  refine acceptsSkip (fun _ _ => by simp [headKind, kind]) (acceptsSkip (fun _ _ => by simp [headKind, kind]) ?_)
  refine acceptsCheck true (fun _ _ => rfl) (acceptsAdvance ?_)
  refine acceptsBind inner (fun read known => acceptsExpect rfl (acceptsPure known)) fun rest _ => ?_
  exact followClosed rfl (.inl rfl) 0

end primaries

theorem parsedExpression {piece : Piece ASTExpr} (parsed : Parsed 0 piece) {n : Nat} (enough : piece.1.length < n) :
    Accepts (Follow 0) (fun e => e.renamed lexeme = piece.2) piece.1 (parserParseExpression n) := by
  obtain ⟨n, rfl⟩ := Nat.exists_eq_succ_of_ne_zero (by omega : n ≠ 0)
  exact parsed n n (by omega) (by omega)

theorem separatedLength {args : List (Piece ASTExpr)} {a : Piece ASTExpr} (member : a ∈ args) :
    a.1.length ≤ (separated args).length := by
  induction args with
  | nil => cases member
  | cons b bs ih =>
    cases bs with
    | nil =>
      obtain rfl : a = b := by simpa using member
      rw [separated, List.map_cons, List.map_nil, List.intercalate_singleton]
    | cons c cs =>
      rw [separated, List.map_cons, List.map_cons, List.intercalate_cons_cons, ← List.map_cons, ← separated]
      simp only [List.length_append]
      rcases List.mem_cons.mp member with rfl | later
      · omega
      · have tail := ih later
        omega

theorem separatedCount {args : List (Piece ASTExpr)} : args.length ≤ (separated args).length + 1 := by
  induction args with
  | nil => simp
  | cons b bs ih =>
    cases bs with
    | nil => simp
    | cons c cs =>
      rw [separated, List.map_cons, List.map_cons, List.intercalate_cons_cons, ← List.map_cons, ← separated]
      simp only [List.length_append, List.length_cons, List.length_nil] at ih ⊢
      omega

theorem ladderParsed {k : Nat} {piece : Piece ASTExpr} (derived : Expr k piece) :
    Parsed k piece ∧ (k < 8 → Pending k piece) := by
  induction derived with
  | number => exact ⟨fun _ _ _ _ => acceptsNumber, by omega⟩
  | identifier => exact ⟨fun _ _ _ _ => acceptsIdentifier, by omega⟩
  | @call name args each ih =>
    refine ⟨fun n m enough enough' => acceptsCall (fun a member => ?_) (fun a member => exprHead (each a member)) ?_,
      by omega⟩
    · have inside := separatedLength member
      refine parsedExpression (ih a member).1 ?_
      simp only [List.length_cons, List.length_append] at enough
      omega
    · have count := @separatedCount args
      simp only [List.length_cons, List.length_append] at enough'
      omega
  | true_ => exact ⟨fun _ _ _ _ => acceptsBoolean true, by omega⟩
  | false_ => exact ⟨fun _ _ _ _ => acceptsBoolean false, by omega⟩
  | group inner ih =>
    refine ⟨fun n m enough enough' => acceptsGroup (parsedExpression ih.1 ?_), by omega⟩
    simp only [List.length_cons, List.length_append] at enough
    dsimp only
    omega
  | @unary s e type op listed operand ih =>
    refine ⟨fun n m enough enough' => ?_, by omega⟩
    simp only [List.length_cons] at enough enough'
    obtain ⟨m, rfl⟩ := Nat.exists_eq_succ_of_ne_zero (by omega : m ≠ 0)
    have inner := ih.1 n m (by dsimp only; omega) (by dsimp only; omega)
    refine acceptsListed (by decide) listed ?_
    rw [← List.append_nil s]
    refine acceptsBind inner (fun read known => acceptsPure ?_) fun rest follow => follow
    rw [ASTExpr.renamed, known]
  | binary listed left right left' right' =>
    have low := (levelRow listed).1
    have pending := pendingBinary listed (left'.2 low) right'.1
    exact ⟨pendingParsed low pending, fun _ => pending⟩
  | @tighter k piece inner ih =>
    have positive := exprNonempty inner
    have bound := exprLevel inner
    rcases Nat.lt_or_ge k 8 with low | high
    · have pending := pendingTighter low positive ih.1
      exact ⟨pendingParsed low pending, fun _ => pending⟩
    · obtain rfl : k = 8 := by omega
      refine ⟨fun n m enough enough' => ?_, by omega⟩
      obtain ⟨m, rfl⟩ := Nat.exists_eq_succ_of_ne_zero (by omega : m ≠ 0)
      have heads := primaryHead inner
      refine acceptsUnlisted (fun rest _ => ?_) ?_
      · rw [headAppend]
        · exact heads
        · intro ended
          have head := exprHead inner
          rw [ended] at head
          exact absurd head (by decide)
      · exact fun p rest front follow => ih.1 n m enough (by omega) p rest front (followTighter follow)

theorem acceptsExpression {piece : Piece ASTExpr} (derived : Expr 0 piece) {n : Nat} (enough : piece.1.length < n) :
    Accepts (Follow 0) (fun e => e.renamed lexeme = piece.2) piece.1 (parserParseExpression n) :=
  parsedExpression (ladderParsed derived).1 enough

end BitN.ParserLadder

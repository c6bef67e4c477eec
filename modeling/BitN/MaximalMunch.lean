import BitN.Printing

/-! The grammar read greedily. Semicolons are optional, and so one stream may be cut into statements
in several ways; a settled cut leaves nothing to a statement that could still belong to the one before. -/
namespace BitN.MaximalMunch

open Grammar ParserAccepts ParserLadder Printing

def upcoming (s : List (Terminal CString)) (next : TokenType) : TokenType :=
  match s with
  | [] => next
  | x :: _ => kind x

def lastKind (s : List (Terminal CString)) : TokenType := headKind s.reverse

theorem upcomingAppend (s t : List (Terminal CString)) (next : TokenType) :
    upcoming (s ++ t) next = upcoming s (upcoming t next) := by
  cases s <;> rfl

theorem upcomingHead {s : List (Terminal CString)} (nonempty : s ≠ []) (next : TokenType) :
    upcoming s next = headKind s := by
  cases s with
  | nil => exact absurd rfl nonempty
  | cons x xs => rfl

theorem headUpcoming (s rest : List (Terminal CString)) : headKind (s ++ rest) = upcoming s (headKind rest) := by
  cases s <;> rfl

theorem lastAppend (s : List (Terminal CString)) {t : List (Terminal CString)} (nonempty : t ≠ []) :
    lastKind (s ++ t) = lastKind t := by
  rw [lastKind, List.reverse_append]
  cases h : t.reverse with
  | nil => exact absurd (List.reverse_eq_nil_iff.mp h) nonempty
  | cons x xs => rw [lastKind, h]; rfl

theorem exprFilled {k : Nat} {s : List (Terminal CString)} {e : ASTExpr} (derived : Expr k (s, e)) : s ≠ [] :=
  List.ne_nil_of_length_pos (exprNonempty derived)

/-! What an expression leaves -/

def Stops (s : List (Terminal CString)) (next : TokenType) : Prop :=
  (next = .tokLparen → lastKind s ≠ .tokIdentifier) ∧ ∀ row ∈ ladder, ∀ entry ∈ row, next ≠ entry.1

theorem stopsLast {s t : List (Terminal CString)} {next : TokenType} (same : lastKind s = lastKind t)
    (stops : Stops s next) : Stops t next :=
  ⟨same ▸ stops.1, stops.2⟩

theorem exprOperator {k j : Nat} {piece : Piece ASTExpr} (derived : Expr k piece) {type : TokenType} {op : BinaryOp}
    (listed : (type, op) ∈ level j) {s : List (Terminal CString)} {r : ASTExpr} (right : Expr (j + 1) (s, r)) :
    ∃ e, Expr (min k j) (piece.1 ++ .mark type :: s, e) := by
  -- on a piece of a tighter level the operator goes on top, on a looser one into the right operand
  by_cases top : j ≤ k
  · rw [Nat.min_eq_right top]
    exact ⟨_, .binary listed (exprLooser top derived) right⟩
  rw [Nat.min_eq_left (by omega)]
  induction derived with
  | @binary k s' s'' l r' type' op' listed' left operand _ ih =>
    obtain ⟨e, inner⟩ : ∃ e, Expr (k + 1) (s'' ++ .mark type :: s, e) := by
      by_cases same : j ≤ k + 1
      · exact ⟨_, exprLooser (by omega) (.binary listed (exprLooser same operand) right)⟩
      · exact ih same
    have whole := Expr.binary listed' left inner
    rw [← List.cons_append, ← List.append_assoc] at whole
    exact ⟨_, whole⟩
  | @tighter k piece inner ih =>
    by_cases same : j ≤ k + 1
    · exact ⟨_, exprLooser (by omega) (.binary listed (exprLooser same inner) right)⟩
    · obtain ⟨e, grown⟩ := ih same
      exact ⟨e, .tighter grown⟩
  | @unary =>
    have low := (levelRow listed).1
    omega
  | _ =>
    have low := (levelRow listed).1
    omega

theorem exprArgument {k : Nat} {piece : Piece ASTExpr} (derived : Expr k piece)
    (word : lastKind piece.1 = .tokIdentifier) {s : List (Terminal CString)} {a : ASTExpr} (argument : Expr 0 (s, a)) :
    ∃ e, Expr k (piece.1 ++ .mark .tokLparen :: (s ++ [.mark .tokRparen]), e) := by
  have closed (u : List (Terminal CString)) : lastKind (u ++ [.mark .tokRparen]) = .tokRparen := by
    rw [lastAppend u (by simp)]
    rfl
  induction derived with
  | @identifier name =>
    have called := @Expr.call name [(s, a)] fun b member => List.mem_singleton.mp member ▸ argument
    rw [separated, List.map_singleton, List.intercalate_singleton] at called
    exact ⟨_, called⟩
  | @call name args =>
    rw [← List.cons_append, ← List.cons_append, closed] at word
    cases word
  | @group s e =>
    rw [← List.cons_append, closed] at word
    cases word
  | @unary u e type op listed operand ih =>
    rw [← List.singleton_append, lastAppend _ (exprFilled operand)] at word
    obtain ⟨e, inner⟩ := ih word
    exact ⟨_, .unary listed inner⟩
  | @binary k u u' l r type op listed left right _ ih =>
    rw [lastAppend _ (by simp), ← List.singleton_append, lastAppend _ (exprFilled right)] at word
    obtain ⟨e, inner⟩ := ih word
    have whole := Expr.binary listed left inner
    rw [← List.cons_append, ← List.append_assoc] at whole
    exact ⟨_, whole⟩
  | tighter inner ih =>
    obtain ⟨e, grown⟩ := ih word
    exact ⟨e, .tighter grown⟩
  | number => cases word
  | true_ => cases word
  | false_ => cases word

/-- An expression that does not stop before another goes on through all of it. -/
theorem exprAbsorbs {s : List (Terminal CString)} {l : ASTExpr} (left : Expr 0 (s, l)) {k : Nat} {piece : Piece ASTExpr}
    (derived : Expr k piece) (goes : ¬ Stops s (headKind piece.1)) : ∃ e, Expr 0 (s ++ piece.1, e) := by
  have halts (next : TokenType) (paren : next ≠ .tokLparen)
      (other : ∀ row ∈ ladder, ∀ entry ∈ row, next ≠ entry.1) : Stops s next := ⟨fun here => absurd here paren, other⟩
  induction derived with
  | number => exact absurd (halts .tokNumber (by decide) (by decide)) goes
  | identifier => exact absurd (halts .tokIdentifier (by decide) (by decide)) goes
  | call => exact absurd (halts .tokIdentifier (by decide) (by decide)) goes
  | true_ => exact absurd (halts .tokTrue (by decide) (by decide)) goes
  | false_ => exact absurd (halts .tokFalse (by decide) (by decide)) goes
  | @group u e inner =>
    refine exprArgument left ?_ inner
    by_contra other
    exact goes ⟨fun _ => other, by simp only [headKind, kind]; decide⟩
  | @unary u e type op listed operand =>
    have infixed : type = .tokNot ∨ ∃ op' j, j ≤ 6 ∧ (type, op') ∈ level j := by
      simp only [prefixes, List.mem_cons, Prod.mk.injEq, List.not_mem_nil, or_false] at listed
      rcases listed with ⟨rfl, -⟩ | ⟨rfl, -⟩ | ⟨rfl, -⟩
      · exact .inr ⟨.bopSub, 6, by omega, by decide⟩
      · exact .inl rfl
      · exact .inr ⟨.bopXor, 1, by omega, by decide⟩
    rcases infixed with rfl | ⟨op', j, low, row⟩
    · exact absurd (halts .tokNot (by decide) (by decide)) goes
    · exact exprOperator left row (exprLooser (by omega) operand)
  | @binary k u u' l' r type op listed first second ih =>
    rw [headUpcoming, upcomingHead (exprFilled first)] at goes
    obtain ⟨e, grown⟩ := ih goes
    obtain ⟨e', whole⟩ := exprOperator grown listed second
    rw [List.append_assoc] at whole
    exact ⟨e', whole⟩
  | tighter inner ih => exact ih goes

/-! Settled pieces -/

inductive Ends (s : List (Terminal CString)) : List (Terminal CString) → TokenType → Prop where
  | semicolon {next} : Ends s [.mark .tokSemicolon] next
  | none {next} (stops : Stops s next) (other : next ≠ .tokSemicolon) : Ends s [] next

/-- What stands before the expression of a statement, and what the statement makes of it. -/
inductive Opening : List (Terminal CString) → (ASTExpr → ASTStmt) → Prop where
  | declaration {binder isMut name type kind} (bound : (binder, isMut) ∈ binders) (typed : (type, kind) ∈ typeWords) :
      Opening [.mark binder, .word name, .mark .tokColon, .mark type, .mark .tokAssign]
        fun init => .varDecl name (some kind) init isMut
  | ret : Opening [.mark .tokReturn] .ret
  | expr : Opening [] .expr

def InFront {τ : Type} (D : TokenType → Piece τ → Prop) (next : TokenType) (pieces : List (Piece τ)) : Prop :=
  ∀ before q after, pieces = before ++ q :: after → D (upcoming (joined after) next) q

inductive Settled : TokenType → Piece ASTStmt → Prop where
  | value {next front f s e semicolon} (opening : Opening front f) (value : Expr 0 (s, e))
      (ends : Ends s semicolon next) :
      Settled next (front ++ (s ++ semicolon), f e)
  | ret {next} : Settled next ([.mark .tokReturn, .mark .tokSemicolon], .ret .null)
  | retOpen {next} (closing : next = .tokRbrace ∨ next = .tokEof) : Settled next ([.mark .tokReturn], .ret .null)
  | block {next} {statements : List (Piece ASTStmt)}
      (each : ∀ before q after, statements = before ++ q :: after → Settled (upcoming (joined after) .tokRbrace) q) :
      Settled next (.mark .tokLbrace :: (joined statements ++ [.mark .tokRbrace]), .block (trees statements))

inductive SettledBody (next : TokenType) : Piece ASTStmt → Prop where
  | statement {s b} (only : Settled next (s, b)) : SettledBody next (.mark .tokAssign :: s, .block [b])
  | block {s statements} (inner : Settled next (s, .block statements)) : SettledBody next (s, .block statements)

inductive SettledDefinition (next : TokenType) : Piece Definition → Prop where
  | function {keyword arrow name type kind s body} (spelled : (keyword, arrow) ∈ Grammar.keywords)
      (typed : (type, kind) ∈ typeWords) (inner : SettledBody next (s, body)) :
      SettledDefinition next (.mark keyword :: .word name :: .mark .tokLparen :: .mark .tokRparen :: .mark arrow ::
        .mark type :: s, .function ⟨name, some kind, [], body⟩)
  | peripheral {s periph} (inner : Peripheral (s, periph)) : SettledDefinition next (s, .peripheral periph)

inductive SettledProgram : Piece ASTProgram → Prop where
  | program {definitions} (each : InFront SettledDefinition .tokEof definitions) :
      SettledProgram (joined definitions, collect (trees definitions))

section infront
variable {τ : Type} {D : TokenType → Piece τ → Prop} {next : TokenType} {q : Piece τ} {pieces later : List (Piece τ)}

theorem joinedCons (q : Piece τ) (pieces : List (Piece τ)) : joined (q :: pieces) = q.1 ++ joined pieces := rfl

theorem joinedAppend (pieces later : List (Piece τ)) : joined (pieces ++ later) = joined pieces ++ joined later := by
  rw [joined, List.map_append, List.flatten_append, joined, joined]

theorem inFrontNil : InFront D next [] := by
  intro before q after split
  cases before <;> cases split

theorem inFrontCons : InFront D next (q :: pieces) ↔ D (upcoming (joined pieces) next) q ∧ InFront D next pieces := by
  constructor
  · refine fun each => ⟨each [] q pieces rfl, fun before r after split => ?_⟩
    exact each (q :: before) r after (congrArg (q :: ·) split)
  · rintro ⟨first, others⟩ before r after split
    cases before with
    | nil =>
      obtain ⟨rfl, rfl⟩ := List.cons.inj split
      exact first
    | cons x before => exact others before r after (List.cons.inj split).2

theorem inFrontAppend :
    InFront D next (pieces ++ later) ↔ InFront D (upcoming (joined later) next) pieces ∧ InFront D next later := by
  induction pieces with
  | nil => simp [inFrontNil]
  | cons q pieces ih =>
    rw [List.cons_append, inFrontCons, inFrontCons, ih, joinedAppend, upcomingAppend, and_assoc]

end infront

/-! Bare returns -/

def afterReturn : List TokenType := [.tokSemicolon, .tokRbrace, .tokEof] ++ expressionStarts

/-- After a return there is a value, a semicolon or the end of the block or the text: a statement
that is no expression may not follow a bare return. -/
def Closed (next : TokenType) : List (Terminal CString) → Prop
  | [] => True
  | x :: xs => (kind x = .tokReturn → upcoming xs next ∈ afterReturn) ∧ Closed next xs

theorem closedAppend {next : TokenType} {s t : List (Terminal CString)} :
    Closed next (s ++ t) ↔ Closed (upcoming t next) s ∧ Closed next t := by
  induction s with
  | nil => simp [Closed]
  | cons x xs ih => rw [List.cons_append, Closed, Closed, ih, upcomingAppend, and_assoc]

/-! Every derivation can be settled -/

/-- What ends an expression whatever it is. -/
def quiet : List TokenType := [
  .tokRbrace, .tokEof, .tokProc, .tokFunc, .tokFn, .tokPeripheral, .tokLet, .tokVar, .tokReturn, .tokLbrace]

theorem quietStops {next : TokenType} (still : next ∈ quiet) (s : List (Terminal CString)) : Stops s next := by
  have table : ∀ type ∈ quiet, type ≠ .tokLparen ∧ ∀ row ∈ ladder, ∀ entry ∈ row, type ≠ entry.1 := by decide
  exact ⟨fun here => absurd here (table next still).1, (table next still).2⟩

theorem endsLast {s t semicolon : List (Terminal CString)} {next : TokenType} (same : lastKind s = lastKind t)
    (ends : Ends s semicolon next) : Ends t semicolon next := by
  cases ends with
  | semicolon => exact .semicolon
  | none stops other => exact .none (stopsLast same stops) other

def Absorbs (next : TokenType) (s : List (Terminal CString)) : Prop :=
  ∀ u r semicolon later, Expr 0 (u, r) → headKind u = next → Ends u semicolon later →
    ∃ t, Settled later (s ++ (u ++ semicolon), t)

def Munchable (s : List (Terminal CString)) : Prop :=
  ∀ next ∈ quiet ++ expressionStarts, Closed next s →
    (∃ t, Settled next (s, t)) ∨ next ∈ expressionStarts ∧ Absorbs next s

theorem valueMunchable {front s semicolon : List (Terminal CString)} {f : ASTExpr → ASTStmt} {e : ASTExpr}
    (opening : Opening front f) (value : Expr 0 (s, e)) (ends : Semicolon semicolon) :
    Munchable (front ++ (s ++ semicolon)) := by
  intro next known _
  cases ends with
  | some => exact .inl ⟨_, .value opening value .semicolon⟩
  | none =>
    by_cases stops : Stops s next
    · have table : ∀ type ∈ quiet ++ expressionStarts, type ≠ .tokSemicolon := by decide
      exact .inl ⟨_, .value opening value (.none stops (table next known))⟩
    have starts : next ∈ expressionStarts :=
      (List.mem_append.mp known).resolve_left fun still => stops (quietStops still s)
    refine .inr ⟨starts, fun u r semicolon later derived here ends => ?_⟩
    obtain ⟨e', whole⟩ := exprAbsorbs value derived (here ▸ stops)
    have settled := Settled.value opening whole (endsLast (lastAppend s (exprFilled derived)).symm ends)
    rw [List.append_nil, List.append_assoc, ← List.append_assoc s]
    exact ⟨_, settled⟩

theorem retMunchable {semicolon : List (Terminal CString)} (ends : Semicolon semicolon) :
    Munchable (.mark .tokReturn :: semicolon) := by
  intro next known closed
  cases ends with
  | some => exact .inl ⟨_, .ret⟩
  | none =>
    have after : next ∈ afterReturn := closed.1 rfl
    by_cases starts : next ∈ expressionStarts
    · exact .inr ⟨starts, fun u r semicolon later derived _ ends => ⟨_, .value .ret derived ends⟩⟩
    have table : ∀ type ∈ quiet ++ expressionStarts, type ∈ afterReturn → type ∉ expressionStarts →
        type = .tokRbrace ∨ type = .tokEof := by decide
    exact .inl ⟨_, .retOpen (table next known after starts)⟩

def statementStarts : List TokenType := [.tokLet, .tokVar, .tokReturn, .tokLbrace] ++ expressionStarts

theorem settledHead {next : TokenType} {q : Piece ASTStmt} (settled : Settled next q) :
    headKind q.1 ∈ statementStarts := by
  cases settled with
  | value opening value ends =>
    cases opening with
    | declaration bound typed =>
      have table : ∀ entry ∈ binders, entry.1 ∈ statementStarts := by decide
      exact table _ bound
    | ret =>
      have table : TokenType.tokReturn ∈ statementStarts := by decide
      exact table
    | expr =>
      have starts := exprHead value
      rw [List.nil_append, headUpcoming, upcomingHead (exprFilled value)]
      exact List.mem_append_right _ starts
  | ret => decide
  | retOpen => decide
  | block => exact List.mem_append_left _ (by simp [headKind, kind])

theorem settledFilled {next : TokenType} {q : Piece ASTStmt} (settled : Settled next q) : q.1 ≠ [] := by
  intro empty
  have head := settledHead settled
  rw [empty] at head
  exact absurd head (by decide)

theorem settledExpression {next : TokenType} {q : Piece ASTStmt} (settled : Settled next q)
    (starts : headKind q.1 ∈ expressionStarts) :
    ∃ u r semicolon, q.1 = u ++ semicolon ∧ Expr 0 (u, r) ∧ Ends u semicolon next := by
  cases settled with
  | value opening value ends =>
    cases opening with
    | declaration bound typed =>
      have table : ∀ entry ∈ binders, entry.1 ∉ expressionStarts := by decide
      exact absurd starts (table _ bound)
    | ret =>
      have table : TokenType.tokReturn ∉ expressionStarts := by decide
      exact absurd starts table
    | expr => exact ⟨_, _, _, List.nil_append _, value, ends⟩
  | ret => exact absurd starts (by decide)
  | retOpen => exact absurd starts (by decide)
  | block => exact absurd starts (by simp [headKind, kind, expressionStarts])

theorem statementsSettled {pieces : List (Piece ASTStmt)} (each : ∀ q ∈ pieces, Munchable q.1) {next : TokenType}
    (still : next ∈ quiet) (closed : Closed next (joined pieces)) :
    ∃ settled, InFront Settled next settled ∧ joined settled = joined pieces := by
  induction pieces with
  | nil => exact ⟨[], inFrontNil, rfl⟩
  | cons q qs ih =>
    rw [joinedCons, closedAppend] at closed
    obtain ⟨settled, others, same⟩ := ih (fun r member => each r (List.mem_cons_of_mem _ member)) closed.2
    rw [← same] at closed
    have known : upcoming (joined settled) next ∈ quiet ++ expressionStarts := by
      cases settled with
      | nil => exact List.mem_append_left _ still
      | cons m ms =>
        have table : ∀ type ∈ statementStarts, type ∈ quiet ++ expressionStarts := by decide
        have first := (inFrontCons.mp others).1
        rw [joinedCons, upcomingAppend, upcomingHead (settledFilled first)]
        exact table _ (settledHead first)
    rcases each q List.mem_cons_self _ known closed.1 with ⟨t, alone⟩ | ⟨starts, absorbs⟩
    · exact ⟨(q.1, t) :: settled, inFrontCons.mpr ⟨alone, others⟩, by rw [joinedCons, joinedCons, same]⟩
    -- what follows is an expression statement that goes on with this one
    cases settled with
    | nil =>
      have apart : ∀ type ∈ quiet, type ∉ expressionStarts := by decide
      exact absurd starts (apart next still)
    | cons m ms =>
      obtain ⟨first, rest⟩ := inFrontCons.mp others
      have head : upcoming (joined (m :: ms)) next = headKind m.1 := by
        rw [joinedCons, upcomingAppend, upcomingHead (settledFilled first)]
      rw [head] at starts absorbs
      obtain ⟨u, r, semicolon, cut, derived, ends⟩ := settledExpression first starts
      have here : headKind u = headKind m.1 := by rw [cut, headUpcoming, upcomingHead (exprFilled derived)]
      obtain ⟨t, merged⟩ := absorbs u r semicolon _ derived here ends
      rw [← cut] at merged
      refine ⟨(q.1 ++ m.1, t) :: ms, inFrontCons.mpr ⟨merged, rest⟩, ?_⟩
      rw [joinedCons, joinedCons q, ← same, joinedCons, List.append_assoc]

theorem stmtMunchable {q : Piece ASTStmt} (derived : Stmt q) : Munchable q.1 := by
  induction derived with
  | declaration bound typed value ends => exact valueMunchable (.declaration bound typed) value ends
  | ret ends => exact retMunchable ends
  | retValue value ends => exact valueMunchable .ret value ends
  | expr value ends => exact valueMunchable .expr value ends
  | @block statements _ ih =>
    intro next _ closed
    have inside : Closed .tokRbrace (joined statements) := (closedAppend.mp closed.2).1
    obtain ⟨settled, each, same⟩ := statementsSettled ih (by decide) inside
    exact .inl ⟨.block (trees settled), same ▸ .block each⟩

theorem stmtSettled {q : Piece ASTStmt} (derived : Stmt q) {next : TokenType} (still : next ∈ quiet)
    (closed : Closed next q.1) : ∃ t, Settled next (q.1, t) := by
  have apart : ∀ type ∈ quiet, type ∉ expressionStarts := by decide
  exact (stmtMunchable derived next (List.mem_append_left _ still) closed).resolve_right
    fun absorbs => apart next still absorbs.1

theorem bodySettled {q : Piece ASTStmt} (derived : Body q) {next : TokenType} (still : next ∈ quiet)
    (closed : Closed next q.1) : ∃ t, SettledBody next (q.1, t) := by
  cases derived with
  | statement only =>
    obtain ⟨t, settled⟩ := stmtSettled only still closed.2
    exact ⟨_, .statement settled⟩
  | block inner =>
    cases inner with
    | @block statements each =>
      have inside : Closed .tokRbrace (joined statements) := (closedAppend.mp closed.2).1
      obtain ⟨settled, each, same⟩ :=
        statementsSettled (fun r member => stmtMunchable (each r member)) (by decide) inside
      exact ⟨.block (trees settled), same ▸ .block (.block each)⟩

theorem definitionSettled {q : Piece Definition} (derived : Define q) {next : TokenType} (still : next ∈ quiet)
    (closed : Closed next q.1) : ∃ d, SettledDefinition next (q.1, d) := by
  cases derived with
  | peripheral inner => exact ⟨_, .peripheral inner⟩
  | function inner =>
    cases inner with
    | function spelled typed inner =>
      obtain ⟨t, settled⟩ := bodySettled inner still closed.2.2.2.2.2.2
      exact ⟨_, .function spelled typed settled⟩

def definitionStarts : List TokenType := [.tokProc, .tokFunc, .tokFn, .tokPeripheral]

theorem definitionHead {next : TokenType} {q : Piece Definition} (settled : SettledDefinition next q) :
    headKind q.1 ∈ definitionStarts := by
  cases settled with
  | function spelled typed inner =>
    have table : ∀ entry ∈ Grammar.keywords, entry.1 ∈ definitionStarts := by decide
    exact table _ spelled
  | peripheral inner =>
    have table : TokenType.tokPeripheral ∈ definitionStarts := by decide
    cases inner
    exact table

theorem definitionsHead {pieces : List (Piece Definition)} (each : InFront SettledDefinition .tokEof pieces) :
    upcoming (joined pieces) .tokEof ∈ .tokEof :: definitionStarts := by
  cases pieces with
  | nil => exact List.mem_cons_self
  | cons q qs =>
    have head := definitionHead (inFrontCons.mp each).1
    have filled : q.1 ≠ [] := by
      intro empty
      rw [empty] at head
      exact absurd head (by decide)
    rw [joinedCons, upcomingAppend, upcomingHead filled]
    exact List.mem_cons_of_mem _ head

theorem programSettled {piece : Piece ASTProgram} (derived : Program piece) (closed : Closed .tokEof piece.1) :
    ∃ t, SettledProgram (piece.1, t) := by
  cases derived with
  | @program definitions each =>
    obtain ⟨settled, front, same⟩ : ∃ settled, InFront SettledDefinition .tokEof settled ∧
        joined settled = joined definitions := by
      induction definitions with
      | nil => exact ⟨[], inFrontNil, rfl⟩
      | cons q qs ih =>
        rw [joinedCons] at closed
        obtain ⟨first, others⟩ := closedAppend.mp closed
        obtain ⟨settled, front, same⟩ := ih (fun r member => each r (List.mem_cons_of_mem _ member)) others
        rw [← same] at first
        have table : ∀ type ∈ TokenType.tokEof :: definitionStarts, type ∈ quiet := by decide
        obtain ⟨d, alone⟩ :=
          definitionSettled (each q List.mem_cons_self) (table _ (definitionsHead front)) first
        exact ⟨(q.1, d) :: settled, inFrontCons.mpr ⟨alone, front⟩, by rw [joinedCons, joinedCons, same]⟩
    exact ⟨collect (trees settled), same ▸ .program front⟩

end BitN.MaximalMunch

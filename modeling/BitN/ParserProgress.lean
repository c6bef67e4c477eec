import BitN.ParserRun

/-! Whether a routine gets ahead: the kind of the token it starts at decides whether a run
that returns has consumed something or stands where it stood. -/
namespace BitN

def statementTokens : List TokenType := [
  .tokLet, .tokVar, .tokReturn, .tokLbrace, .tokNumber, .tokIdentifier, .tokTrue, .tokFalse, .tokLparen,
  .tokMinus, .tokNot, .tokXor, .tokStar, .tokSlash, .tokPercent, .tokPlus, .tokLshift, .tokRshift,
  .tokLt, .tokGt, .tokLe, .tokGe, .tokEq, .tokNe, .tokAnd, .tokOr, .tokSemicolon]

def fieldTokens : List TokenType := [
  .tokField, .tokIdentifier, .tokColon, .tokLbracket, .tokNumber, .tokRbracket, .tokRo, .tokWo, .tokRw, .tokW1c,
  .tokSemicolon]

/-- The kinds a turn of the loop gets past. -/
def Consumable : Loop → TokenType → Prop
  | .statements, type => type ∈ statementTokens
  | .fields, type => type ∈ fieldTokens
  | .registers, _ | .definitions, _ => True

instance (loop : Loop) (type : TokenType) : Decidable (Consumable loop type) := by
  cases loop <;> unfold Consumable <;> infer_instance

namespace ParserProgress

open Run ParserRun

abbrev Later (p last : Parser) : Prop := last.ahead <:+ p.ahead

theorem sameCurrent {p q : Parser} (same : q.ahead = p.ahead) : q.current.type = p.current.type := by
  by_cases ended : p.current.type = .tokEof
  · rw [ended]
    rwa [aheadEof.mpr ended, aheadEof] at same
  · have more : q.current.type ≠ .tokEof := by rwa [Ne, ← aheadEof, same, aheadEof]
    rw [aheadCons ended, aheadCons more] at same
    rw [(List.cons.inj same).1]

theorem advanceShorter {p : Parser} (more : p.current.type ≠ .tokEof) : p.advance.ahead.length < p.ahead.length := by
  rw [aheadCons more, List.length_cons]
  omega

variable {α β : Type} {S S' : TokenType → Prop} {t : TokenType}

/-- On the kinds in `S` a run that returns has consumed a token, on the others none. -/
structure Decides (S : TokenType → Prop) (x : Parse α) : Prop where
  later : Moves Later x
  eats : ∀ p a q, x p = (some a, q) → p.current.type ≠ .tokEof → S p.current.type → q.ahead.length < p.ahead.length
  stays : ∀ p a q, x p = (some a, q) → p.current.type ≠ .tokEof → ¬ S p.current.type → q.ahead = p.ahead

structure Eats (t : TokenType) (x : Parse α) : Prop where
  later : Moves Later x
  eats : ∀ p a q, x p = (some a, q) → p.current.type = t → q.ahead.length < p.ahead.length

theorem laterReturns {x : Parse α} (later : Moves Later x) {p q : Parser} {a : α} (ran : x p = (some a, q)) :
    q.ahead <:+ p.ahead := by
  have step := later p
  rwa [ran] at step

/-! Routines that stand still -/

theorem decidesStill {x : Parse α} (still : ∀ p, (x p).2.ahead = p.ahead) : Decides (fun _ => False) x where
  later p := by
    unfold Later
    exact still p ▸ List.suffix_rfl
  eats _ _ _ _ _ none := none.elim
  stays p a q ran _ _ := by rw [← still p, ran]

theorem decidesPure (a : α) : Decides (fun _ => False) (pure a : Parse α) := decidesStill fun _ => rfl

theorem decidesError (message : String) : Decides (fun _ => False) (parserError message) := decidesStill fun _ => rfl

theorem decidesValue : Decides (fun _ => False) parserValue := decidesStill fun _ => rfl

theorem decidesNumeral (width : Nat) : Decides (fun _ => False) (parserNumeral width) := by
  refine decidesStill fun p => ?_
  unfold parserNumeral
  split_ifs
  · rfl
  · rfl

theorem decidesCut : Decides S (cut : Parse α) where
  later := movesCut
  eats p a q ran := by simp at ran
  stays p a q ran := by simp at ran

theorem decidesWeaken {x : Parse α} (decides : Decides S x) (same : ∀ t, t ≠ .tokEof → (S t ↔ S' t)) :
    Decides S' x where
  later := decides.later
  eats p a q ran more inside := decides.eats p a q ran more ((same _ more).mpr inside)
  stays p a q ran more outside := decides.stays p a q ran more fun inside => outside ((same _ more).mp inside)

/-! Sequences -/

theorem decidesBind {x : Parse α} {f : α → Parse β} (first : Decides S x) (then_ : ∀ a, Decides S' (f a)) :
    Decides (fun t => S t ∨ S' t) (x >>= f) where
  later := movesBind first.later fun a => (then_ a).later
  eats p b q ran more inside := by
    obtain ⟨a, m, one, two⟩ := bindReturns.mp ran
    have weak := (laterReturns (then_ a).later two).length_le
    by_cases here : S p.current.type
    · exact weak.trans_lt (first.eats p a m one more here)
    · have still := first.stays p a m one more here
      have kind := sameCurrent still
      rw [← still]
      exact (then_ a).eats m b q two (kind ▸ more) (kind ▸ inside.resolve_left here)
  stays p b q ran more outside := by
    obtain ⟨a, m, one, two⟩ := bindReturns.mp ran
    have still := first.stays p a m one more fun here => outside (.inl here)
    have kind := sameCurrent still
    rw [← still]
    exact (then_ a).stays m b q two (kind ▸ more) (kind ▸ fun here => outside (.inr here))

theorem eatsFirst {x : Parse α} {f : α → Parse β} (first : Eats t x) (then_ : ∀ a, Moves Later (f a)) :
    Eats t (x >>= f) where
  later := movesBind first.later then_
  eats p b q ran here := by
    obtain ⟨a, m, one, two⟩ := bindReturns.mp ran
    exact (laterReturns (then_ a) two).length_le.trans_lt (first.eats p a m one here)

theorem eatsThen {x : Parse α} {f : α → Parse β} (first : Decides (fun _ => False) x) (more : t ≠ .tokEof)
    (then_ : ∀ a, Eats t (f a)) : Eats t (x >>= f) where
  later := movesBind first.later fun a => (then_ a).later
  eats p b q ran here := by
    obtain ⟨a, m, one, two⟩ := bindReturns.mp ran
    have still := first.stays p a m one (here ▸ more) id
    rw [← still]
    exact (then_ a).eats m b q two ((sameCurrent still).trans here)

theorem eatsAdvance (more : t ≠ .tokEof) : Eats t parserAdvance where
  later := movesAdvance
  eats p a q ran here := by
    obtain rfl : p.advance = q := by simpa [parserAdvance] using ran
    exact advanceShorter (here ▸ more)

/-! Tests of the current token -/

theorem decidesMatchThen {f : Bool → Parse α} (taken : Moves Later (f true))
    (skipped : Decides S (f false)) : Decides (fun u => u = t ∨ S u) (parserMatch t >>= f) where
  later := movesBind (movesMatch t) fun b => by cases b <;> [exact skipped.later; exact taken]
  eats p a q ran more inside := by
    by_cases here : p.current.type = t
    · rw [bindStep (matchTaken here)] at ran
      exact (laterReturns taken ran).length_le.trans_lt (advanceShorter more)
    · rw [bindStep (matchSkipped here)] at ran
      exact skipped.eats p a q ran more (inside.resolve_left here)
  stays p a q ran more outside := by
    rw [bindStep (matchSkipped fun here => outside (.inl here))] at ran
    exact skipped.stays p a q ran more fun here => outside (.inr here)

theorem matchOfMissing {table : List (TokenType × β)} {p : Parser} (outside : p.current.type ∉ table.map Prod.fst) :
    parserMatchOf table p = (some none, p) := by
  have lookup := matchOfApply table p
  have missing : table.find? (fun entry => p.current.type = entry.1) = none := by
    refine List.find?_eq_none.mpr fun entry member same => outside ?_
    rw [of_decide_eq_true same]
    exact List.mem_map_of_mem member
  rwa [missing] at lookup

theorem matchOfListed {table : List (TokenType × β)} {p : Parser} (inside : p.current.type ∈ table.map Prod.fst) :
    ∃ b, parserMatchOf table p = (some (some b), p.advance) := by
  have lookup := matchOfApply table p
  rcases found : table.find? (fun entry => p.current.type = entry.1) with _ | entry
  · obtain ⟨entry, member, same⟩ := List.mem_map.mp inside
    exact absurd (List.find?_eq_none.mp found entry member) (by simp [same])
  · rw [found] at lookup
    exact ⟨entry.2, lookup⟩

theorem decidesMatchOfThen {table : List (TokenType × β)} {f : Option β → Parse α}
    (taken : ∀ b, Moves Later (f (some b))) (skipped : Decides S (f none)) :
    Decides (fun u => u ∈ table.map Prod.fst ∨ S u) (parserMatchOf table >>= f) where
  later := movesBind (movesMatchOf table) fun found => by
    cases found with
    | none => exact skipped.later
    | some b => exact taken b
  eats p a q ran more inside := by
    by_cases here : p.current.type ∈ table.map Prod.fst
    · obtain ⟨b, found⟩ := matchOfListed here
      rw [bindStep found] at ran
      exact (laterReturns (taken b) ran).length_le.trans_lt (advanceShorter more)
    · rw [bindStep (matchOfMissing here)] at ran
      exact skipped.eats p a q ran more (inside.resolve_left here)
  stays p a q ran more outside := by
    rw [bindStep (matchOfMissing fun listed => outside (.inl listed))] at ran
    exact skipped.stays p a q ran more fun here => outside (.inr here)

theorem decidesMatchOf (table : List (TokenType × β)) :
    Decides (fun u => u ∈ table.map Prod.fst) (parserMatchOf table) where
  later := movesMatchOf table
  eats p a q ran more inside := by
    obtain ⟨b, found⟩ := matchOfListed inside
    obtain rfl : p.advance = q := by simpa [ran] using congrArg Prod.snd found.symm
    exact advanceShorter more
  stays p a q ran more outside := by
    obtain rfl : p = q := by simpa [ran] using congrArg Prod.snd (matchOfMissing outside).symm
    rfl

theorem decidesCheckThen {yes no : Parse α} (taken : Eats t yes) (skipped : Decides S no) :
    Decides (fun u => u = t ∨ S u) (parserCheck t >>= fun b => if b = true then yes else no) where
  later := movesBind (movesCheck t) fun b => movesIte (fun _ => taken.later) fun _ => skipped.later
  eats p a q ran more inside := by
    rw [bindCheck] at ran
    by_cases here : p.current.type = t
    · rw [decide_eq_true here] at ran
      exact taken.eats p a q ran here
    · rw [decide_eq_false here] at ran
      exact skipped.eats p a q ran more (inside.resolve_left here)
  stays p a q ran more outside := by
    rw [bindCheck, decide_eq_false fun here => outside (.inl here)] at ran
    exact skipped.stays p a q ran more fun here => outside (.inr here)

theorem decidesEitherThen {t' : TokenType} {yes no : Parse α} (first : Eats t yes) (second : Eats t' yes)
    (skipped : Decides S no) : Decides (fun u => u = t ∨ u = t' ∨ S u)
      (parserCheck t >>= fun a => parserCheck t' >>= fun b => if (a || b) = true then yes else no) where
  later := movesBind (movesCheck t) fun _ => movesBind (movesCheck t') fun _ =>
    movesIte (fun _ => first.later) fun _ => skipped.later
  eats p a q ran more inside := by
    rw [bindCheck, bindCheck] at ran
    by_cases here : p.current.type = t
    · rw [decide_eq_true here] at ran
      exact first.eats p a q ran here
    · by_cases here' : p.current.type = t'
      · rw [decide_eq_false here, decide_eq_true here'] at ran
        exact second.eats p a q ran here'
      · rw [decide_eq_false here, decide_eq_false here'] at ran
        exact skipped.eats p a q ran more ((inside.resolve_left here).resolve_left here')
  stays p a q ran more outside := by
    rw [bindCheck, bindCheck, decide_eq_false fun here => outside (.inl here),
      decide_eq_false fun here => outside (.inr (.inl here))] at ran
    exact skipped.stays p a q ran more fun here => outside (.inr (.inr here))

theorem decidesExpect (type : TokenType) (message : String) : Decides (fun u => u = type) (parserExpect type message) :=
  decidesWeaken (decidesMatchThen (movesPure _) (decidesError message)) fun _ _ => by simp

theorem decidesExpectNumber (message : String) : Decides (fun u => u = .tokNumber) (parserExpectNumber message) :=
  decidesWeaken (decidesBind (decidesNumeral 32) fun _ => decidesBind (decidesExpect _ message) fun _ => decidesPure _)
    fun _ _ => by simp

theorem eatsMatchThen {f : Bool → Parse α} (taken : Moves Later (f true)) (skipped : Moves Later (f false))
    (more : t ≠ .tokEof) :
    Eats t (parserMatch t >>= f) where
  later := movesBind (movesMatch t) fun b => by cases b <;> assumption
  eats p a q ran here := by
    rw [bindStep (matchTaken here)] at ran
    exact (laterReturns taken ran).length_le.trans_lt (advanceShorter (here ▸ more))

theorem eatsExpect {message : String} (more : t ≠ .tokEof) : Eats t (parserExpect t message) :=
  eatsMatchThen (movesPure _) (movesError message) more

/-! Expressions -/

def primaryTokens : List TokenType := [.tokNumber, .tokIdentifier, .tokTrue, .tokFalse, .tokLparen]

theorem decidesPrimary {expression : Parse ASTExpr} (inner : Moves Later expression) (n : Nat) :
    Decides (fun u => u ∈ primaryTokens) (parserParsePrimary expression n) := by
  refine decidesWeaken (decidesCheckThen ?number (decidesCheckThen ?identifier
    (decidesMatchThen ?true (decidesMatchThen ?false
    (decidesCheckThen ?group (decidesBind (decidesError _) fun _ => decidesPure _))))))
      fun u _ => by simp [primaryTokens]
  case number =>
    exact eatsThen (decidesNumeral 64) (by decide) fun _ => eatsFirst (eatsAdvance (by decide)) fun _ => movesPure _
  case identifier =>
    refine eatsThen decidesValue (by decide) fun _ => eatsFirst (eatsAdvance (by decide)) fun _ => ?_
    refine movesBind (movesCheck _) fun _ => movesIte (fun _ => ?_) fun _ => movesPure _
    exact movesBind movesAdvance fun _ => movesBind (movesArguments inner n) fun _ =>
      movesBind (movesExpect _ _) fun _ => movesPure _
  case true => exact movesPure _
  case false => exact movesPure _
  case group =>
    exact eatsFirst (eatsAdvance (by decide)) fun _ => movesBind inner fun _ => movesBind (movesExpect _ _) fun _ =>
      movesPure _

def unaryTokens : List TokenType := [.tokMinus, .tokNot, .tokXor] ++ primaryTokens

theorem decidesUnary {expression : Parse ASTExpr} (inner : Moves Later expression) (n : Nat) :
    Decides (fun u => u ∈ unaryTokens) (parserParseUnary expression n) := by
  cases n with
  | zero => exact decidesCut
  | succ n =>
    refine decidesWeaken (decidesMatchOfThen (fun op => ?_) (decidesPrimary inner n)) fun u _ => by
      simp [unaryTokens, unaryOps, or_assoc]
    exact movesBind (movesUnary inner n) fun _ => movesPure _

theorem operatorLeaves {ops : List (TokenType × BinaryOp)} {next : Parse ASTExpr} {left : ASTExpr} {p : Parser}
    (outside : p.current.type ∉ ops.map Prod.fst) : parserParseOperator ops next left p = (some (.inr left), p) := by
  rw [parserParseOperator, bindStep (matchOfMissing outside)]
  rfl

theorem decidesBinary {ops : List (TokenType × BinaryOp)} {next : Parse ASTExpr} {tokens : List TokenType}
    (inner : Decides (fun u => u ∈ tokens) next) (n : Nat) :
    Decides (fun u => u ∈ tokens ++ ops.map Prod.fst) (parserParseBinary ops next n) := by
  have chain (left : ASTExpr) :
      Decides (fun u => u ∈ ops.map Prod.fst) (Run.loop (parserParseOperator ops next) n left) := by
    have operator (left : ASTExpr) : Decides (fun u => u ∈ ops.map Prod.fst) (parserParseOperator ops next left) :=
      decidesWeaken (decidesMatchOfThen (fun _ => movesBind inner.later fun _ => movesPure _) (decidesPure _))
        fun _ _ => by simp
    have later (n : Nat) (left : ASTExpr) : Moves Later (Run.loop (parserParseOperator ops next) n left) :=
      movesLoop (fun left => (operator left).later) n left
    cases n with
    | zero => exact decidesCut
    | succ n =>
      refine ⟨later _ _, fun p a q ran more inside => ?_, fun p a q ran more outside => ?_⟩
      · obtain ⟨out, m, one, two⟩ := bindReturns.mp ran
        have weak : q.ahead <:+ m.ahead := by
          cases out with
          | inl grown => exact laterReturns (later n grown) two
          | inr whole => exact laterReturns (movesPure whole) two
        exact weak.length_le.trans_lt ((operator left).eats p out m one more inside)
      · rw [Run.loop, bindStep (operatorLeaves outside)] at ran
        obtain rfl : p = q := by simpa using congrArg Prod.snd ran
        rfl
  exact decidesWeaken (decidesBind inner chain) fun u _ => List.mem_append.symm

def expressionTokens : List TokenType := unaryTokens ++ [
  .tokStar, .tokSlash, .tokPercent, .tokPlus, .tokMinus, .tokLshift, .tokRshift, .tokLt, .tokGt, .tokLe, .tokGe,
  .tokEq, .tokNe, .tokAnd, .tokXor, .tokOr]

theorem decidesExpression (n : Nat) : Decides (fun u => u ∈ expressionTokens) (parserParseExpression n) := by
  cases n with
  | zero => exact decidesCut
  | succ n =>
    have unary := decidesUnary (movesExpression n) n
    refine decidesWeaken (decidesBinary (decidesBinary (decidesBinary (decidesBinary (decidesBinary (decidesBinary
      (decidesBinary (decidesBinary unary n) n) n) n) n) n) n) n) fun u _ => ?_
    rfl

/-! Statements -/

theorem eatsBlock {statement : Parse ASTStmt} (inner : Moves Later statement) (n : Nat) :
    Eats .tokLbrace (parserParseBlock statement n) := by
  refine eatsMatchThen ?_ (movesBind (movesError _) fun _ => movesPure _) (by decide)
  exact movesBind (movesItems _ inner n) fun _ => movesBind (movesExpect _ _) fun _ => movesPure _

theorem eatsDeclaration {expression : Parse ASTExpr} (inner : Moves Later expression) (isMut : Bool)
    (more : t ≠ .tokEof) :
    Eats t (parserParseDeclaration expression isMut) := by
  refine eatsFirst (eatsAdvance more) fun _ => movesBind movesValue fun _ => movesBind (movesExpect _ _) fun _ => ?_
  refine movesBind (movesExpect _ _) fun _ => movesBind movesType fun declType => ?_
  cases declType with
  | none => exact movesPure _
  | some declType =>
    refine movesBind (movesCheck _) fun _ => movesBind (movesCheck _) fun _ => movesIte (fun _ => ?_) fun _ => ?_
    · exact movesBind movesAdvance fun _ => movesBind inner fun _ => movesBind (movesMatch _) fun _ => movesPure _
    · exact movesBind (movesError _) fun _ => movesPure _

theorem decidesStatement (n : Nat) : Decides (fun u => u ∈ statementTokens) (parserParseStatement n) := by
  cases n with
  | zero => exact decidesCut
  | succ n =>
    have expression := movesExpression (R := Later) n
    have declaration {t : TokenType} (more : t ≠ .tokEof) : Eats t (parserCheck .tokVar >>= fun isMut =>
        parserParseDeclaration (parserParseExpression n) isMut) :=
      eatsThen (decidesStill fun _ => rfl) more fun isMut => eatsDeclaration expression isMut more
    refine decidesWeaken (decidesEitherThen (declaration (by decide)) (declaration (by decide))
      (decidesMatchThen (movesReturn expression) (decidesCheckThen (eatsBlock (movesStatement n) n)
        (decidesBind (decidesExpression n) fun _ => decidesMatchThen (movesPure _) (decidesPure _))))) fun u _ => ?_
    simp only [statementTokens, expressionTokens, unaryTokens, primaryTokens, List.cons_append, List.nil_append,
      List.mem_cons, List.not_mem_nil, or_false]
    grind

theorem decidesField : Decides (fun u => u ∈ fieldTokens) parserParseField := by
  refine decidesWeaken (decidesBind (decidesExpect _ _) fun _ => decidesBind decidesValue fun _ =>
    decidesBind (decidesExpect _ _) fun _ => decidesBind (decidesExpect _ _) fun _ => decidesBind (decidesExpect _ _)
      fun _ =>
    decidesBind (decidesExpectNumber _) fun _ => decidesBind (decidesExpect _ _) fun _ =>
    decidesBind (decidesExpectNumber _) fun _ => decidesBind (decidesExpect _ _) fun _ =>
    decidesMatchOfThen (fun _ => movesBind (movesMatch _) fun _ => movesPure _)
      (decidesMatchThen (movesPure _) (decidesPure _))) fun u _ => ?_
  simp only [fieldTokens, accesses, List.map_cons, List.map_nil, List.mem_cons, List.not_mem_nil, or_false, false_or]
  grind

/-! Loops over items -/

theorem itemsEnd {loop : Loop} {item : Parse α} {n : Nat} {p q : Parser} {items : List α}
    (ran : parserItems loop item n p = (some items, q)) : q.current.type = .tokRbrace ∨ q.current.type = .tokEof := by
  refine loopReturns (fun _ _ => True) (fun _ q => q.current.type = .tokRbrace ∨ q.current.type = .tokEof)
    (fun _ _ _ _ _ _ => trivial) (fun items p rest q _ left => ?_) trivial ran
  by_cases closed : p.current.type = .tokRbrace ∨ p.current.type = .tokEof
  · rw [itemLeaves closed] at left
    obtain rfl : p = q := by simpa using congrArg Prod.snd left
    exact closed
  · rw [not_or] at closed
    rw [itemTurns closed.1 closed.2] at left
    obtain ⟨a, m, -, later⟩ := bindReturns.mp left
    simp at later

theorem decidesItems (loop : Loop) {item : Parse α} (inner : Moves Later item) (n : Nat) :
    Decides (fun u => u ≠ .tokRbrace) (parserItems loop item n) where
  later := movesItems loop inner n
  eats p items q ran more brace := by
    have behind := laterReturns (movesItems loop inner n) ran
    refine lt_of_le_of_ne behind.length_le fun length => ?_
    have kind := sameCurrent (behind.eq_of_length length)
    rcases itemsEnd ran with closed | closed
    · exact brace (kind ▸ closed)
    · exact more (kind ▸ closed)
  stays p items q ran _ brace := by
    cases n with
    | zero => simp [parserItems, Run.loop] at ran
    | succ n =>
      rw [parserItems, Run.loop, bindStep (itemLeaves (.inl (not_not.mp brace)))] at ran
      obtain rfl : p = q := by simpa using congrArg Prod.snd ran
      rfl

theorem decidesRegister (n : Nat) : Decides (fun _ => True) (parserParseRegister n) := by
  refine decidesWeaken (decidesBind (decidesExpect _ _) fun _ => decidesBind decidesValue fun _ =>
    decidesBind (decidesExpect _ _) fun _ => decidesBind (decidesExpect _ _) fun _ =>
    decidesBind (decidesMatchOf _) fun _ => decidesBind (decidesExpect _ _) fun _ =>
    decidesBind (decidesExpectNumber _) fun _ => decidesBind (decidesExpect _ _) fun _ =>
    decidesBind (decidesItems _ movesField n) fun _ => decidesBind (decidesExpect _ _) fun _ => decidesPure _)
    fun u _ => ?_
  have brace : u ≠ .tokRbrace ∨ u = .tokRbrace := ne_or_eq _ _
  grind

/-! Definitions -/

theorem eatsPeripheral (n : Nat) : Eats .tokPeripheral (parserParsePeripheral n) := by
  refine eatsFirst (eatsExpect (by decide)) fun _ => movesBind movesValue fun _ => movesBind (movesExpect _ _) fun _ =>
    ?_
  refine movesBind (movesExpect _ _) fun _ => movesBind (movesExpectNumber _) fun _ => movesBind (movesExpect _ _)
    fun _ => ?_
  exact movesBind (movesItems _ (movesRegister n) n) fun _ => movesBind (movesExpect _ _) fun _ => movesPure _

theorem decidesFunction (n : Nat) :
    Decides (fun u => u = .tokProc ∨ u = .tokFunc ∨ u = .tokFn) (parserParseFunction n) := by
  refine decidesWeaken (decidesMatchOfThen (fun isNimStyle => ?_) (decidesBind (decidesError _) fun _ => decidesPure _))
    fun u _ => by simp
  exact movesBind (movesSignature isNimStyle n) fun _ => movesPure _

end ParserProgress
end BitN

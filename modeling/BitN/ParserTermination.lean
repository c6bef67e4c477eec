import BitN.ParserProgress

/-! When parsing ends: with fuel for its tokens a text is parsed, unless some turn of a loop
starts at a token that the turn cannot get past. -/
namespace BitN

def Event.Fine : Event → Prop
  | .enter loop token => Consumable loop token
  | .again _ before after => after < before
  | _ => True

namespace ParserTermination

open Run ParserRun ParserProgress

def Fine (p : Parser) : Prop := ∀ e ∈ p.trace, e.Fine

def Bad (p : Parser) : Prop := ∃ loop token, .enter loop token ∈ p.trace ∧ ¬ Consumable loop token

variable {α β : Type} {b : Nat}

/-- The routine returns, every turn of its loops in order, or it never returns for a bad turn. -/
def EndsAt (x : Parse α) (p : Parser) : Prop :=
  (∃ a q, x p = (some a, q) ∧ Fine q ∧ q.ahead.length ≤ p.ahead.length) ∨ ((x p).1 = none ∧ Bad (x p).2)

def Ends (b : Nat) (x : Parse α) : Prop := ∀ p, p.ahead.length < b → Fine p → EndsAt x p

theorem endsFewer {c : Nat} {x : Parse α} (fewer : c ≤ b) (ends : Ends b x) : Ends c x :=
  fun p below => ends p (below.trans_le fewer)

theorem fineNote {p : Parser} {e : Event} (fine : Fine p) (one : e.Fine) : Fine (p.note e) := by
  intro e' member
  rcases List.mem_cons.mp member with rfl | old
  · exact one
  · exact fine e' old

class Direct (x : Parse α) : Prop where
  returns : ∀ p, Fine p → ∃ a q, x p = (some a, q) ∧ Fine q ∧ q.ahead.length ≤ p.ahead.length

theorem advanceLength (p : Parser) : p.advance.ahead.length ≤ p.ahead.length := by
  rw [advanceAhead, List.length_tail]
  omega

instance (a : α) : Direct (pure a) := ⟨fun p fine => ⟨a, p, rfl, fine, le_rfl⟩⟩
instance (f : Parser → α) : Direct (Run.read f) := ⟨fun p fine => ⟨f p, p, rfl, fine, le_rfl⟩⟩
instance (type : TokenType) : Direct (parserCheck type) := ⟨fun p fine => ⟨_, p, rfl, fine, le_rfl⟩⟩
instance : Direct parserValue := ⟨fun p fine => ⟨_, p, rfl, fine, le_rfl⟩⟩
instance : Direct parserAdvance := ⟨fun p fine => ⟨(), p.advance, rfl, fine, advanceLength p⟩⟩
instance (message : String) : Direct (parserError message) :=
  ⟨fun p fine => ⟨(), p.fail message, rfl, @fineNote p (.message _ _ _) fine trivial, le_rfl⟩⟩

instance {x : Parse α} {f : α → Parse β} [first : Direct x] [then_ : ∀ a, Direct (f a)] : Direct (x >>= f) where
  returns p fine := by
    obtain ⟨a, m, one, fine', less⟩ := first.returns p fine
    obtain ⟨c, q, two, fine'', less'⟩ := (then_ a).returns m fine'
    exact ⟨c, q, by rw [bindStep one, two], fine'', less'.trans less⟩

instance {c : Prop} [Decidable c] {x y : Parse α} [yes : Direct x] [no : Direct y] : Direct (if c then x else y) := by
  split
  · exact yes
  · exact no

instance (type : TokenType) : Direct (parserMatch type) := by
  unfold parserMatch
  infer_instance

instance (type : TokenType) (message : String) : Direct (parserExpect type message) := by
  unfold parserExpect
  infer_instance

instance (table : List (TokenType × β)) : Direct (parserMatchOf table) := by
  induction table with
  | nil =>
    unfold parserMatchOf
    infer_instance
  | cons entry others ih =>
    unfold parserMatchOf
    infer_instance

instance (width : Nat) : Direct (parserNumeral width) where
  returns p fine := by
    unfold parserNumeral
    split_ifs
    · exact ⟨_, _, rfl, fineNote fine trivial, le_rfl⟩
    · exact ⟨_, _, rfl, fine, le_rfl⟩

instance (message : String) : Direct (parserExpectNumber message) := by
  unfold parserExpectNumber
  infer_instance

theorem endsDirect {x : Parse α} [direct : Direct x] : Ends b x := fun p _ fine => .inl (direct.returns p fine)

theorem endsStep {x : Parse β} {f : β → Parse α} {p m : Parser} {r : β} (one : x p = (some r, m))
    (less : m.ahead.length ≤ p.ahead.length) (then_ : EndsAt (f r) m) : EndsAt (x >>= f) p := by
  rw [EndsAt, bindStep one]
  rcases then_ with ⟨a, q, two, fine, less'⟩ | stuck
  · exact .inl ⟨a, q, two, fine, less'.trans less⟩
  · exact .inr stuck

theorem endsStuck {x : Parse β} (f : β → Parse α) {p : Parser} (cut : (x p).1 = none) (bad : Bad (x p).2) :
    EndsAt (x >>= f) p := by
  rcases h : x p with ⟨_ | r, m⟩
  · rw [h] at bad
    exact .inr ⟨by rw [bindCut h], by rwa [bindCut h]⟩
  · simp [h] at cut

theorem endsBind {x : Parse α} {f : α → Parse β} (first : Ends b x) (then_ : ∀ a, Ends b (f a)) : Ends b (x >>= f) := by
  intro p below fine
  rcases first p below fine with ⟨a, m, one, fine', less⟩ | ⟨cut, bad⟩
  · exact endsStep one less (then_ a m (less.trans_lt below) fine')
  · exact endsStuck f cut bad

theorem endsIte {c : Prop} [Decidable c] {x y : Parse α} (yes : Ends b x) (no : Ends b y) :
    Ends b (if c then x else y) := by
  split
  · exact yes
  · exact no

theorem endsMatchOf {table : List (TokenType × β)} {f : Option β → Parse α} (fixed : .tokEof ∉ table.map Prod.fst)
    (taken : ∀ r, Ends b (f (some r))) (skipped : Ends (b + 1) (f none)) :
      Ends (b + 1) (parserMatchOf table >>= f) := by
  intro p below fine
  by_cases listed : p.current.type ∈ table.map Prod.fst
  · obtain ⟨r, found⟩ := matchOfListed listed
    have shorter : p.advance.ahead.length < p.ahead.length := advanceShorter fun ended => fixed (ended ▸ listed)
    exact endsStep found shorter.le (taken r p.advance (by omega) fine)
  · exact endsStep (matchOfMissing listed) le_rfl (skipped p below fine)

theorem endsMatch {type : TokenType} {f : Bool → Parse α} (fixed : type ≠ .tokEof) (taken : Ends b (f true))
    (skipped : Ends (b + 1) (f false)) : Ends (b + 1) (parserMatch type >>= f) := by
  intro p below fine
  by_cases here : p.current.type = type
  · have shorter : p.advance.ahead.length < p.ahead.length := advanceShorter (here ▸ fixed)
    exact endsStep (matchTaken here) shorter.le (taken p.advance (by omega) fine)
  · exact endsStep (matchSkipped here) le_rfl (skipped p below fine)

theorem endsCheckAdvance {type : TokenType} {yes no : Parse α} (fixed : type ≠ .tokEof) (taken : Ends b yes)
    (skipped : Ends (b + 1) no) :
    Ends (b + 1) (parserCheck type >>= fun c => if c = true then parserAdvance >>= fun _ => yes else no) := by
  intro p below fine
  by_cases here : p.current.type = type
  · have shorter : p.advance.ahead.length < p.ahead.length := advanceShorter (here ▸ fixed)
    refine endsStep (r := true) (by simp [parserCheck, here]) le_rfl ?_
    exact @endsStep _ _ parserAdvance (fun _ => yes) p p.advance () rfl shorter.le (taken p.advance (by omega) fine)
  · exact endsStep (r := false) (by simp [parserCheck, here]) le_rfl (skipped p below fine)

theorem endsLoop {step : α → Parse (α ⊕ β)} (each : ∀ a, Ends b (step a))
    (shrinks : ∀ a p next q, step a p = (some (.inl next), q) → q.ahead.length < p.ahead.length) {n : Nat}
      (enough : b ≤ n)
    (a : α) : Ends b (Run.loop step n a) := by
  induction n generalizing b a with
  | zero =>
    intro p below
    omega
  | succ n ih =>
    intro p below fine
    rcases each a p below fine with ⟨out, m, one, fine', less⟩ | ⟨cut, bad⟩
    · refine endsStep one less ?_
      cases out with
      | inl next =>
        have fewer := shrinks a p next m one
        exact ih (b := b - 1) (fun a => endsFewer (by omega) (each a)) (by omega) next m (by omega) fine'
      | inr result => exact .inl ⟨result, m, rfl, fine', le_rfl⟩
    · exact endsStuck _ cut bad

/-! Turns of the loops over items -/

section turns
variable {loop : Loop} {item : Parse α} {p : Parser}

theorem endsTurn (inner : Ends b item) (below : p.ahead.length < b) (fine : Fine p)
    (good : Consumable loop p.current.type)
    (eats : ∀ a q, item (p.note (.enter loop p.current.type)) = (some a, q) → q.ahead.length < p.ahead.length) :
    EndsAt (parserTurn loop item) p := by
  rcases inner (p.note (.enter loop p.current.type)) below (fineNote fine good) with
    ⟨a, m, one, fine', less⟩ | ⟨cut, bad⟩
  · exact .inl ⟨a, _, turnReturns one, fineNote fine' (eats a m one), less⟩
  · rcases h : item (p.note (.enter loop p.current.type)) with ⟨_ | a, m⟩
    · rw [h] at bad
      exact .inr ⟨by rw [turnCut h], by rwa [turnCut h]⟩
    · simp [h] at cut

theorem turnEats
    (eats : ∀ a q, item (p.note (.enter loop p.current.type)) = (some a, q) → q.ahead.length < p.ahead.length) {a : α}
    {q : Parser} (ran : parserTurn loop item p = (some a, q)) : q.ahead.length < p.ahead.length := by
  rcases h : item (p.note (.enter loop p.current.type)) with ⟨_ | a', m⟩
  · simp [turnCut h] at ran
  · rw [turnReturns h] at ran
    obtain rfl : m.note (.again loop p.ahead.length m.ahead.length) = q := by simpa using congrArg Prod.snd ran
    exact eats a' m h

abbrev Noting (p last : Parser) : Prop := p.trace <:+ last.trace

theorem badLater {p q : Parser} (noting : Noting p q) (bad : Bad p) : Bad q := by
  obtain ⟨loop, token, member, stuck⟩ := bad
  exact ⟨loop, token, noting.subset member, stuck⟩

theorem stuckItems (moves : Moves Noting item)
    (stays : ∀ p a q, item p = (some a, q) → p.current.type ≠ .tokEof → ¬ Consumable loop p.current.type →
      q.current.type = p.current.type) {n : Nat} {items : List α} (brace : p.current.type ≠ .tokRbrace)
    (more : p.current.type ≠ .tokEof) (stuck : ¬ Consumable loop p.current.type) :
    (Run.loop (parserItem loop item) n items p).1 = none ∧
      (0 < n → Bad (Run.loop (parserItem loop item) n items p).2) := by
  induction n generalizing items p with
  | zero => exact ⟨rfl, by omega⟩
  | succ n ih =>
    have bad : Bad (p.note (.enter loop p.current.type)) := ⟨loop, _, List.mem_cons_self, stuck⟩
    have turn := moves (p.note (.enter loop p.current.type))
    rcases h : item (p.note (.enter loop p.current.type)) with ⟨_ | a, m⟩
    · rw [h] at turn
      have cut : parserItem loop item items p = (none, m) := by
        rw [itemTurns brace more, bindCut (turnCut h)]
      rw [Run.loop, bindCut cut]
      exact ⟨rfl, fun _ => badLater turn bad⟩
    · rw [h] at turn
      have same := stays _ a m h more stuck
      have step : parserItem loop item items p =
          (some (.inl (items ++ [a])), m.note (.again loop p.ahead.length m.ahead.length)) := by
        rw [itemTurns brace more, bindStep (turnReturns h)]
        rfl
      have kept : Noting (p.note (.enter loop p.current.type)) (m.note (.again loop p.ahead.length m.ahead.length)) :=
        turn.trans (List.suffix_cons _ _)
      have rest := movesLoop (movesItem loop moves) n (items ++ [a])
        (m.note (.again loop p.ahead.length m.ahead.length))
      rw [Run.loop, bindStep step]
      exact ⟨(ih (same ▸ brace) (same ▸ more) (same ▸ stuck)).1, fun _ => badLater rest (badLater kept bad)⟩

theorem endsItems (inner : Ends b item) (moves : Moves Noting item)
    (eats : ∀ p a q, item p = (some a, q) → p.current.type ≠ .tokEof → Consumable loop p.current.type →
      q.ahead.length < p.ahead.length)
    (stays : ∀ p a q, item p = (some a, q) → p.current.type ≠ .tokEof → ¬ Consumable loop p.current.type →
      q.current.type = p.current.type) {n : Nat} (enough : b ≤ n) : Ends b (parserItems loop item n) := by
  have run (items : List α) : Ends b (Run.loop (parserItem loop item) n items) := by
    induction n generalizing b items with
    | zero =>
      intro p below
      omega
    | succ n ih =>
      intro p below fine
      by_cases closed : p.current.type = .tokRbrace ∨ p.current.type = .tokEof
      · exact endsStep (itemLeaves closed) le_rfl (.inl ⟨items, p, rfl, fine, le_rfl⟩)
      · rw [not_or] at closed
        obtain ⟨brace, more⟩ := closed
        by_cases good : Consumable loop p.current.type
        · have eaten : ∀ a q, item (p.note (.enter loop p.current.type)) = (some a, q) →
          q.ahead.length < p.ahead.length :=
            fun a q ran => eats (p.note (.enter loop p.current.type)) a q ran more good
          have turn : parserItem loop item items p = (parserTurn loop item >>= fun a => pure (.inl (items ++ [a]))) p :=
            itemTurns brace more
          rcases endsTurn inner below fine good eaten with ⟨a, m, one, fine', -⟩ | ⟨cut, bad⟩
          · have step : parserItem loop item items p = (some (.inl (items ++ [a])), m) := by
              rw [turn, bindStep one]
              rfl
            have fewer := turnEats eaten one
            exact endsStep step fewer.le (ih (b := b - 1) (endsFewer (by omega) inner) (by omega) _ m (by omega) fine')
          · rcases h : parserTurn loop item p with ⟨_ | a, m⟩
            · rw [h] at bad
              have stop : parserItem loop item items p = (none, m) := by rw [turn, bindCut h]
              exact endsStuck _ (by rw [stop]) (by rwa [stop])
            · simp [h] at cut
        · obtain ⟨cut, bad⟩ := stuckItems moves stays (n := n + 1) brace more good
          exact .inr ⟨cut, bad (by omega)⟩
  exact run []

end turns

/-! Expressions -/

theorem endsType : Ends b parserParseType := by
  refine endsBind endsDirect fun kind => ?_
  cases kind with
  | none => exact endsDirect
  | some kind => exact endsDirect

theorem endsArguments {expression : Parse ASTExpr} (inner : Ends b expression) (later : Moves Later expression)
    {n : Nat}
    (enough : b ≤ n) : Ends b (parserParseArguments expression n) := by
  refine endsBind endsDirect fun _ => endsIte endsDirect
    (endsLoop (fun args => ?_) (fun args p next q ran => ?_) enough [])
  · exact endsBind inner fun _ => endsBind endsDirect fun _ => endsIte endsDirect endsDirect
  · obtain ⟨arg, m, one, two⟩ := bindReturns.mp ran
    have behind := (laterReturns later one).length_le
    by_cases comma : m.current.type = .tokComma
    · rw [bindStep (matchTaken comma)] at two
      obtain rfl : m.advance = q := by simpa using congrArg Prod.snd two
      exact (advanceShorter (comma ▸ by decide)).trans_le behind
    · rw [bindStep (matchSkipped comma)] at two
      simp at two

theorem endsPrimary {expression : Parse ASTExpr} (inner : Ends b expression) (later : Moves Later expression) {n : Nat}
    (enough : b ≤ n) : Ends (b + 1) (parserParsePrimary expression n) := by
  refine endsBind endsDirect fun _ => endsIte endsDirect (endsBind endsDirect fun _ => endsIte ?_ ?_)
  · refine endsBind endsDirect fun _ => endsBind endsDirect fun _ => endsCheckAdvance (by decide) ?_ endsDirect
    exact endsBind (endsArguments inner later enough) fun _ => endsDirect
  refine endsBind endsDirect fun _ => endsIte endsDirect (endsBind endsDirect fun _ => endsIte endsDirect ?_)
  exact endsCheckAdvance (by decide) (endsBind inner fun _ => endsDirect) endsDirect

theorem endsUnary {expression : Parse ASTExpr} (inner : Ends b expression) (later : Moves Later expression) {n : Nat}
    (enough : n ≤ b + 1) : Ends n (parserParseUnary expression n) := by
  induction n with
  | zero =>
    intro p below
    omega
  | succ n ih =>
    refine endsMatchOf (by decide) (fun op => ?_) ?_
    · exact endsBind (ih (by omega)) fun _ => endsDirect
    · exact endsPrimary (endsFewer (by omega) inner) later le_rfl

theorem endsBinary {ops : List (TokenType × BinaryOp)} (fixed : .tokEof ∉ ops.map Prod.fst) {next : Parse ASTExpr}
    (inner : Ends b next ∧ Moves Later next) {n : Nat} (enough : b ≤ n) :
    Ends b (parserParseBinary ops next n) ∧ Moves Later (parserParseBinary ops next n) := by
  obtain ⟨inner, later⟩ := inner
  refine ⟨?_, movesBinary ops later n⟩
  refine endsBind inner fun left => endsLoop (fun left => ?_) (fun left p grown q ran => ?_) enough left
  · refine endsBind endsDirect fun op => ?_
    cases op with
    | none => exact endsDirect
    | some op => exact endsBind inner fun _ => endsDirect
  · by_cases listed : p.current.type ∈ ops.map Prod.fst
    · obtain ⟨op, found⟩ := matchOfListed listed
      rw [parserParseOperator, bindStep found] at ran
      have behind := laterReturns (movesBind later fun _ => movesPure _) ran
      exact behind.length_le.trans_lt (advanceShorter fun ended => fixed (ended ▸ listed))
    · rw [operatorLeaves listed] at ran
      simp at ran

theorem endsExpression (n : Nat) : Ends (n - 1) (parserParseExpression n) := by
  induction n with
  | zero =>
    intro p below
    omega
  | succ n ih =>
    have later := movesExpression (R := Later) n
    have unary := And.intro (endsUnary ih later (n := n) (by omega)) (movesUnary later n)
    have additive := @endsBinary _ additiveOps (by decide) _
      (@endsBinary _ multiplicativeOps (by decide) _ unary _ le_rfl) _ le_rfl
    have comparison := @endsBinary _ comparisonOps (by decide) _
      (@endsBinary _ shiftOps (by decide) _ additive _ le_rfl) _ le_rfl
    have bitwiseAnd := @endsBinary _ bitwiseAndOps (by decide) _
      (@endsBinary _ equalityOps (by decide) _ comparison _ le_rfl) _ le_rfl
    exact (@endsBinary _ bitwiseOrOps (by decide) _
      (@endsBinary _ bitwiseXorOps (by decide) _ bitwiseAnd _ le_rfl) _ le_rfl).1

/-! Statements and functions -/

theorem endsBlock {n : Nat} (inner : Ends b (parserParseStatement n)) (enough : b ≤ n) :
    Ends (b + 1) (parserParseBlock (parserParseStatement n) n) := by
  have missing : Ends (b + 1) (parserError "Expected '\x7b'" >>= fun _ => (pure .null : Parse ASTStmt)) := endsDirect
  refine endsMatch (by decide) ?_ missing
  refine endsBind (endsItems inner (movesStatement n) (fun p a q ran more good => ?_)
    (fun p a q ran more stuck => ?_) enough)
    fun _ => endsDirect
  · exact (decidesStatement n).eats p a q ran more good
  · exact sameCurrent ((decidesStatement n).stays p a q ran more stuck)

theorem endsStatement (n : Nat) : Ends (n - 2) (parserParseStatement n) := by
  induction n with
  | zero =>
    intro p below
    omega
  | succ n ih =>
    have expression := endsExpression n
    refine endsBind endsDirect fun _ => endsBind endsDirect fun _ => endsIte ?_ ?_
    · refine endsBind endsDirect fun isMut => endsBind endsDirect fun _ => endsBind endsDirect fun _ => ?_
      refine endsBind endsDirect fun _ => endsBind endsDirect fun _ => endsBind endsType fun declType => ?_
      cases declType with
      | none => exact endsDirect
      | some declType =>
        refine endsBind endsDirect fun _ => endsBind endsDirect fun _ => endsIte ?_ endsDirect
        exact endsBind endsDirect fun _ => endsBind expression fun _ => endsDirect
    refine endsBind endsDirect fun _ => endsIte ?_ (endsBind endsDirect fun _ => endsIte ?_ ?_)
    · refine endsBind endsDirect fun _ => endsBind endsDirect fun _ => endsBind endsDirect fun _ =>
      endsIte endsDirect ?_
      exact endsBind expression fun _ => endsDirect
    · exact endsFewer (by omega) (endsBlock ih (by omega))
    · exact endsBind expression fun _ => endsDirect

theorem endsFunction (n : Nat) : Ends (n - 2) (parserParseFunction n) := by
  have statement := endsStatement n
  have block := endsFewer (Nat.le_succ _) (endsBlock statement (by omega))
  have body : Ends (n - 2) (parserParseBody n) := by
    refine endsBind endsDirect fun _ => endsIte (endsBind statement fun _ => endsDirect) ?_
    exact endsBind endsDirect fun _ => endsIte block endsDirect
  refine endsBind endsDirect fun isNimStyle => ?_
  cases isNimStyle with
  | none => exact endsDirect
  | some isNimStyle =>
    refine endsBind ?_ fun _ => endsDirect
    refine endsBind endsDirect fun _ => endsBind endsDirect fun _ => endsBind endsDirect fun _ => ?_
    refine endsBind endsDirect fun _ => endsBind ?_ fun _ => endsBind endsType fun _ => endsBind body fun _ =>
      endsDirect
    exact endsIte endsDirect endsDirect

/-! Peripherals -/

theorem endsField : Ends b parserParseField := by
  refine endsBind endsDirect fun _ => endsBind endsDirect fun _ => endsBind endsDirect fun _ => endsBind endsDirect
    fun _ => ?_
  refine endsBind endsDirect fun _ => endsBind endsDirect fun _ => endsBind endsDirect fun _ => endsBind endsDirect
    fun _ => ?_
  exact endsBind endsDirect fun _ => endsBind endsDirect fun _ => endsDirect

theorem endsRegister (n : Nat) : Ends n (parserParseRegister n) := by
  refine endsBind endsDirect fun _ => endsBind endsDirect fun _ => endsBind endsDirect fun _ => endsBind endsDirect
    fun _ => ?_
  refine endsBind endsDirect fun _ => endsBind endsDirect fun _ => endsBind endsDirect fun _ => endsBind endsDirect
    fun _ => ?_
  refine endsBind (endsItems endsField movesField (fun p a q ran more good => ?_)
    (fun p a q ran more stuck => ?_) le_rfl)
    fun _ => endsDirect
  · exact decidesField.eats p a q ran more good
  · exact sameCurrent (decidesField.stays p a q ran more stuck)

theorem endsPeripheral (n : Nat) : Ends n (parserParsePeripheral n) := by
  refine endsBind endsDirect fun _ => endsBind endsDirect fun _ => endsBind endsDirect fun _ => endsBind endsDirect
    fun _ => ?_
  refine endsBind endsDirect fun _ => endsBind endsDirect fun _ => ?_
  refine endsBind (endsItems (endsRegister n) (movesRegister n) (fun p a q ran more _ => ?_)
    (fun p a q _ _ stuck => ?_) le_rfl)
    fun _ => endsDirect
  · exact (decidesRegister n).eats p a q ran more trivial
  · exact absurd trivial stuck

/-! Programs -/

section definitions
variable {n : Nat} {p : Parser} {item : Parse α} {f : α → Parse (ASTProgram ⊕ ASTProgram)}

theorem endsDefine (inner : Ends b item) (below : p.ahead.length < b) (fine : Fine p)
    (eats : ∀ a q, item (p.note (.enter .definitions p.current.type)) = (some a, q) → q.ahead.length < p.ahead.length)
    (after : ∀ a m, ∃ next, f a m = (some (.inl next), m)) : EndsAt (parserTurn .definitions item >>= f) p := by
  have good : Consumable .definitions p.current.type := trivial
  rcases endsTurn inner below fine good eats with ⟨a, m, one, fine', less⟩ | ⟨cut, bad⟩
  · obtain ⟨next, built⟩ := after a m
    exact endsStep one less (.inl ⟨.inl next, m, built, fine', le_rfl⟩)
  · exact endsStuck f cut bad

theorem defineEats
    (eats : ∀ a q, item (p.note (.enter .definitions p.current.type)) = (some a, q) → q.ahead.length < p.ahead.length)
    (after : ∀ a m, ∃ next, f a m = (some (.inl next), m)) {next : ASTProgram ⊕ ASTProgram} {q : Parser}
    (ran : (parserTurn .definitions item >>= f) p = (some next, q)) : q.ahead.length < p.ahead.length := by
  obtain ⟨a, m, one, two⟩ := bindReturns.mp ran
  obtain ⟨_, built⟩ := after a m
  obtain rfl : m = q := by simpa [two] using congrArg Prod.snd built.symm
  exact turnEats eats one

theorem functionEats (here : p.current.type = .tokProc ∨ p.current.type = .tokFunc ∨ p.current.type = .tokFn)
    (func : Option ASTFunctionDef) (q : Parser)
    (ran : parserParseFunction n (p.note (.enter .definitions p.current.type)) = (some func, q)) :
    q.ahead.length < p.ahead.length := by
  have more : p.current.type ≠ .tokEof := by rcases here with here | here | here <;> simp [here]
  exact (decidesFunction n).eats (p.note (.enter .definitions p.current.type)) func q ran more here

theorem peripheralEats (here : p.current.type = .tokPeripheral) (periph : ASTPeripheral) (q : Parser)
    (ran : parserParsePeripheral n (p.note (.enter .definitions p.current.type)) = (some periph, q)) :
    q.ahead.length < p.ahead.length :=
  (eatsPeripheral n).eats (p.note (.enter .definitions p.current.type)) periph q ran here

theorem endsDefinition (n : Nat) (program : ASTProgram) : Ends (n - 2) (parserParseDefinition n program) := by
  intro p below fine
  simp only [EndsAt, parserParseDefinition, bindCheck, iteApply]
  split_ifs with ended function periph
  · exact .inl ⟨_, p, rfl, fine, le_rfl⟩
  · refine endsDefine (endsFunction n) below fine (functionEats (by simpa [or_assoc] using function)) fun func m => ?_
    cases func <;> exact ⟨_, rfl⟩
  · exact endsDefine (endsFewer (by omega) (endsPeripheral n)) below fine (peripheralEats (by simpa using periph))
      fun _ _ => ⟨_, rfl⟩
  · exact .inl ⟨_, _, rfl, @fineNote p (.message _ _ _) fine trivial, le_rfl⟩

theorem definitionShrinks (program : ASTProgram) (p : Parser) (next : ASTProgram) (q : Parser)
    (ran : parserParseDefinition n program p = (some (.inl next), q)) : q.ahead.length < p.ahead.length := by
  simp only [parserParseDefinition, bindCheck, iteApply] at ran
  split_ifs at ran with ended function periph
  · simp at ran
  · refine defineEats (functionEats (by simpa [or_assoc] using function)) (fun func m => ?_) ran
    cases func <;> exact ⟨_, rfl⟩
  · exact defineEats (peripheralEats (by simpa using periph)) (fun _ _ => ⟨_, rfl⟩) ran
  · obtain ⟨_, _, _, left⟩ := bindReturns.mp ran
    simp at left

end definitions

theorem endsProgram (n : Nat) : Ends (n - 2) (parserParseProgram n) :=
  endsLoop (endsDefinition n) definitionShrinks (by omega) _

theorem sourceEnds (input : Source) {fuel : Nat} (enough : input.tokens.length + 3 ≤ fuel) :
    (∃ program p, parseSource fuel input = (some program, p) ∧ Fine p) ∨
      ((parseSource fuel input).1 = none ∧ Bad (parseSource fuel input).2) := by
  have whole : (parserCreate input).ahead = input.tokens := aheadWindow _
  have fine : Fine (parserCreate input) := nofun
  rcases endsProgram fuel (parserCreate input) (by rw [whole]; omega) fine with ⟨program, p, ran, fine, -⟩ | stuck
  · exact .inl ⟨program, p, ran, fine⟩
  · exact .inr stuck

theorem returnsFine {input : Source} {fuel : Nat} {program : ASTProgram} {p : Parser}
    (ran : parseSource fuel input = (some program, p)) : Fine p := by
  have more := returnsMore (Nat.le_max_left fuel (input.tokens.length + 3)) ran
  rcases sourceEnds input (Nat.le_max_right fuel (input.tokens.length + 3)) with ⟨program', p', ran', fine⟩ | ⟨cut, -⟩
  · obtain rfl : p = p' := by simpa [more] using congrArg Prod.snd ran'
    exact fine
  · simp [more] at cut

theorem returnsTrace {input : Source} {bound fuel : Nat} {program : ASTProgram} {p : Parser} {e : Event}
    (ran : parseSource bound input = (some program, p)) (noted : e ∈ (parseSource fuel input).2.trace) :
      e ∈ p.trace := by
  have inside := (traceMore (Nat.le_max_right bound fuel)).subset noted
  rwa [returnsMore (Nat.le_max_left bound fuel) ran] at inside

theorem parsingEnds (input : Source) :
    ((∃ program p, Parses input program p) ∧
      ∀ fuel loop before after, .again loop before after ∈ (parseSource fuel input).2.trace → after < before) ↔
    ∀ fuel loop token, .enter loop token ∈ (parseSource fuel input).2.trace → Consumable loop token := by
  constructor
  · rintro ⟨⟨program, p, bound, ran⟩, -⟩ fuel loop token noted
    exact returnsFine ran _ (returnsTrace ran noted)
  · intro good
    rcases sourceEnds input le_rfl with ⟨program, p, ran, fine⟩ | ⟨-, loop, token, noted, stuck⟩
    · exact ⟨⟨program, p, _, ran⟩, fun fuel loop before after noted => fine _ (returnsTrace ran noted)⟩
    · exact absurd (good _ loop token noted) stuck

-- fn f()->u8{)
def strayParen : Source := ⟨"fn f()->u8\x7b)".toList, by decide⟩

theorem strayParenHangs : ¬ ∃ program p, Parses strayParen program p := by
  rintro ⟨program, p, bound, ran⟩
  have noted : .enter .statements .tokRparen ∈ (parseSource 3 strayParen).2.trace := by decide
  have passed : Consumable .statements .tokRparen := returnsFine ran _ (returnsTrace ran noted)
  exact absurd passed (by decide)

end ParserTermination
end BitN

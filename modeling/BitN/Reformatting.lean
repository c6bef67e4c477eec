import BitN.Lib.Pairs
import BitN.ParserAccepts
import BitN.Renaming

/-! Two texts of the same terminals, however spaced and commented: the parser goes through them
side by side. It fails in both or in neither, with the same messages at the same tokens, and
accepted trees differ only in what their names show behind the lexeme. -/
namespace BitN

def Source.lexerAt (input : Source) : Nat → Lexer
  | 0 => lexerCreate input
  | k + 1 => (lexerNextToken (input.lexerAt k)).2

/-- What the call `k` of the lexer returns; behind the last token, the end. -/
def Source.call (input : Source) (k : Nat) : Token := (lexerNextToken (input.lexerAt k)).1

def Event.said : Event → Option (Int × Int × String)
  | .message line column text => some (line, column, text)
  | .enter .. | .again .. | .store .. => none

/-- The diagnostics of a run, in the order in which they come. -/
def Parser.messages (parser : Parser) : List (Int × Int × String) := (parser.trace.filterMap Event.said).reverse

def Source.message (input : Source) (m : Nat × String) : Int × Int × String :=
  ((input.call m.1).line, (input.call m.1).column, m.2)

namespace Reformatting

open Run ParserRun

/-! Lexers of the same terminals -/

theorem lexerAtNext (input : Source) (k : Nat) : input.lexerAt (k + 1) = (lexerNextToken (input.lexerAt k)).2 := by
  rw [Source.lexerAt]

theorem callsAhead (input : Source) (k : Nat) :
    (input.lexerAt k).ahead.map (Token.terminal lexeme) = input.terminals.drop k := by
  induction k with
  | zero => rfl
  | succ k ih =>
    rw [← List.drop_drop, ← ih, lexerAtNext]
    by_cases ended : (lexerNextToken (input.lexerAt k)).1.type = .tokEof
    · rw [LexerPartition.aheadEnd ended, LexerPartition.aheadEnd (LexerPartition.nextTokenEnd _ ended)]
      rfl
    · rw [LexerPartition.aheadToken ended, List.map_cons, List.drop_one, List.tail_cons]

/-- A call is told by the terminals alone, whatever stands between them. -/
theorem callTold (input : Source) (k : Nat) :
    (input.call k).terminal lexeme = (input.terminals.drop k).headD (.mark .tokEof) := by
  rw [← callsAhead, Source.call]
  by_cases ended : (lexerNextToken (input.lexerAt k)).1.type = .tokEof
  · rw [LexerPartition.aheadEnd ended, Token.terminal, ended]
    rfl
  · rw [LexerPartition.aheadToken ended, List.map_cons, List.headD_cons]

/-- Where the parser stands in its source, and what it has said so far, the latest first. -/
structure Stands (input : Source) (k : Nat) (said : List (Nat × String)) (p : Parser) : Prop where
  current : p.current = input.call k
  peek : p.peek = input.call (k + 1)
  lexer : p.lexer = input.lexerAt (k + 2)
  told : p.trace.filterMap Event.said = said.map input.message
  error : p.error = true ↔ said ≠ []

section stands
variable {input : Source} {k : Nat} {said : List (Nat × String)} {p : Parser}

theorem standsCreate : Stands input 0 [] (parserCreate input) where
  current := by rw [Source.call, Source.lexerAt, parserCreate, parserWindow]
  peek := by rw [Source.call, lexerAtNext, Source.lexerAt, parserCreate, parserWindow]
  lexer := by rw [lexerAtNext, lexerAtNext, Source.lexerAt, parserCreate, parserWindow]
  told := by simp [parserCreate, parserWindow]
  error := by simp [parserCreate, parserWindow]

theorem standsAdvance (stands : Stands input k said p) : Stands input (k + 1) said p.advance where
  current := stands.peek
  peek := by rw [Source.call, ← stands.lexer, Parser.advance]
  lexer := by rw [lexerAtNext, ← stands.lexer, Parser.advance]
  told := stands.told
  error := stands.error

theorem standsFail (message : String) (stands : Stands input k said p) :
    Stands input k ((k, message) :: said) (p.fail message) where
  current := stands.current
  peek := stands.peek
  lexer := stands.lexer
  told := by
    have told := stands.told
    simp [Parser.fail, Parser.note, Event.said, told, Source.message, stands.current]
  error := by simp

theorem standsNote {e : Event} (silent : e.said = none) (stands : Stands input k said p) :
    Stands input k said (p.note e) where
  current := stands.current
  peek := stands.peek
  lexer := stands.lexer
  told := by simp [Parser.note, silent, stands.told]
  error := stands.error

end stands

/-- Two parsers at the same call of their sources, with the same said there, and `c` unless they
have failed. -/
def Twin (a b : Source) (c : Prop) (p q : Parser) : Prop :=
  ∃ k said, Stands a k said p ∧ Stands b k said q ∧ (k :: said.map Prod.fst).Pairwise (· ≥ ·) ∧ (said = [] → c)

section twin
variable {a b : Source} {c d : Prop} {p q : Parser}

theorem twinWeaken (twin : Twin a b c p q) (weaker : c → d) : Twin a b d p q := by
  obtain ⟨k, said, left, right, sorted, holds⟩ := twin
  exact ⟨k, said, left, right, sorted, fun none => weaker (holds none)⟩

theorem twinFact (twin : Twin a b c p q) (fact : d) : Twin a b (c ∧ d) p q := twinWeaken twin fun holds => ⟨holds, fact⟩

theorem twinCreate : Twin a b True (parserCreate a) (parserCreate b) :=
  ⟨0, [], standsCreate, standsCreate, by simp, fun _ => trivial⟩

theorem twinAdvance (twin : Twin a b c p q) : Twin a b c p.advance q.advance := by
  obtain ⟨k, said, left, right, sorted, holds⟩ := twin
  refine ⟨k + 1, said, standsAdvance left, standsAdvance right, ?_, holds⟩
  rw [List.pairwise_cons] at sorted ⊢
  exact ⟨fun m member => (sorted.1 m member).trans (Nat.le_succ k), sorted.2⟩

theorem twinFail (message : String) (twin : Twin a b c p q) : Twin a b d (p.fail message) (q.fail message) := by
  obtain ⟨k, said, left, right, sorted, -⟩ := twin
  refine ⟨k, (k, message) :: said, standsFail message left, standsFail message right, ?_, nofun⟩
  rw [List.map_cons, List.pairwise_cons]
  refine ⟨fun m member => ?_, sorted⟩
  rcases List.mem_cons.mp member with rfl | earlier
  · exact le_rfl
  · exact (List.pairwise_cons.mp sorted).1 m earlier

theorem twinNote {e f : Event} (silent : e.said = none) (silent' : f.said = none) (twin : Twin a b c p q) :
    Twin a b c (p.note e) (q.note f) := by
  obtain ⟨k, said, left, right, sorted, holds⟩ := twin
  exact ⟨k, said, standsNote silent left, standsNote silent' right, sorted, holds⟩

variable (same : a.terminals = b.terminals)
include same

theorem twinTerminal (twin : Twin a b c p q) : p.current.terminal lexeme = q.current.terminal lexeme := by
  obtain ⟨k, said, left, right, -⟩ := twin
  rw [left.current, right.current, callTold, callTold, same]

theorem twinKind (twin : Twin a b c p q) : p.current.type = q.current.type := by
  have kinds := congrArg ParserAccepts.kind (twinTerminal same twin)
  rwa [ParserAccepts.kindTerminal, ParserAccepts.kindTerminal] at kinds

theorem twinWord (twin : Twin a b c p q) (word : p.current.type = .tokIdentifier) :
    lexeme p.current.value = lexeme q.current.value := by
  have told := twinTerminal same twin
  rw [ParserSound.terminalWord word, ParserSound.terminalWord (twinKind same twin ▸ word)] at told
  exact Terminal.word.inj told

theorem twinNumber (twin : Twin a b c p q) (number : p.current.type = .tokNumber) :
    strtoull p.current.value = strtoull q.current.value := by
  have number' : q.current.type = .tokNumber := twinKind same twin ▸ number
  have told := twinTerminal same twin
  rw [ParserSound.terminalNumber number, ParserSound.terminalNumber number'] at told
  rw [Numeral.strtoullLexeme (ParserSound.emittedNumber p.currentEmitted number),
    Numeral.strtoullLexeme (ParserSound.emittedNumber q.currentEmitted number'), Terminal.number.inj told]

end twin

/-! What a routine does to both -/

section goes
variable {a b : Source} {c d : Prop} {α β γ δ : Type} {Q : α → β → Parser → Parser → Prop}
  {S : γ → δ → Parser → Parser → Prop}

def Goes (a b : Source) (c : Prop) (Q : α → β → Parser → Parser → Prop) (x : Parse α) (y : Parse β) : Prop :=
  Pairs (Twin a b True) (Twin a b c) Q x y

/-- The results satisfy `E` unless the parsers have failed. -/
def Told (a b : Source) (E : α → β → Prop) (v : α) (w : β) : Parser → Parser → Prop := Twin a b (E v w)

theorem goesPure {E : α → β → Prop} {v : α} {w : β} (holds : c → E v w) : Goes a b c (Told a b E) (pure v) (pure w) :=
  pairsPure fun _ _ twin => twinWeaken twin holds

theorem goesOn {I : α → β → Prop} {v : α} {w : β} (holds : c → I v w) :
    Goes a b c (Abreast (Told a b I) S) (pure (.inl v)) (pure (.inl w)) :=
  pairsPure fun _ _ twin => .on (twinWeaken twin holds)

theorem goesOff {I : α → β → Parser → Parser → Prop} {F : γ → δ → Prop} {v : γ} {w : δ} (holds : c → F v w) :
    Goes a b c (Abreast I (Told a b F)) (pure (.inr v)) (pure (.inr w)) :=
  pairsPure fun _ _ twin => .off (twinWeaken twin holds)

theorem goesCut : Goes a b c Q Run.cut Run.cut := pairsCut fun _ _ twin => twinWeaken twin fun _ => trivial

theorem goesBind {E : α → β → Prop} {x : Parse α} {y : Parse β} {f : α → Parse γ} {g : β → Parse δ}
    (first : Goes a b c (Told a b E) x y) (then_ : ∀ v w, Goes a b (E v w) S (f v) (g w)) :
    Goes a b c S (x >>= f) (y >>= g) :=
  pairsBind first then_

theorem goesIte {t : Prop} [Decidable t] {x x' : Parse α} {y y' : Parse β} (yes : t → Goes a b c Q x y)
    (no : ¬ t → Goes a b c Q x' y') : Goes a b c Q (if t then x else x') (if t then y else y') := by
  by_cases h : t
  · rw [if_pos h, if_pos h]
    exact yes h
  · rw [if_neg h, if_neg h]
    exact no h

theorem goesError {f : Unit → Parse α} {g : Unit → Parse β} (message : String)
    (then_ : Goes a b False Q (f ()) (g ())) : Goes a b c Q (parserError message >>= f) (parserError message >>= g) :=
  pairsBind (pairsModify (Q := fun _ _ => Twin a b False) fun _ _ twin => twinFail message twin) fun _ _ => then_

theorem goesLoop {step : α → Parse (α ⊕ γ)} {step' : β → Parse (β ⊕ δ)} (I : α → β → Prop)
    (body : ∀ v w, Goes a b (I v w) (Abreast (Told a b I) S) (step v) (step' w)) (n : Nat) {v : α} {w : β}
    (start : c → I v w) :
    Goes a b c S (Run.loop step n v) (Run.loop step' n w) :=
  pairsWeaken (pairsLoop (Told a b I) (fun _ _ _ _ twin => twinWeaken twin fun _ => trivial) body n v w)
    (fun _ _ twin => twinWeaken twin start) fun _ _ _ _ => id

theorem goesTurn {E : α → β → Prop} (loop : Loop) {x : Parse α} {y : Parse β} (inner : Goes a b c (Told a b E) x y) :
    Goes a b c (Told a b E) (parserTurn loop x) (parserTurn loop y) := by
  refine pairsBind (Q := fun _ _ => Twin a b c) (pairsRead fun _ _ twin => twin) fun _ _ => ?_
  refine pairsBind (Q := fun _ _ => Twin a b c) (pairsModify fun _ _ twin => twinNote rfl rfl twin) fun _ _ => ?_
  refine goesBind inner fun v w => ?_
  exact pairsBind (Q := fun _ _ => Twin a b (E v w)) (pairsModify fun _ _ twin => twinNote rfl rfl twin) fun _ _ =>
    goesPure id

/-- A routine that steers the rest: it returns the same on both sides. -/
def Steers (a b : Source) (x : Parse α) : Prop :=
  ∀ c, Goes a b c (fun v w p q => v = w ∧ Twin a b c p q) x x

theorem goesAfter {x : Parse α} {f : α → Parse γ} {g : α → Parse δ} (steers : Steers a b x)
    (then_ : ∀ v, Goes a b c S (f v) (g v)) : Goes a b c S (x >>= f) (x >>= g) := by
  refine pairsBind (steers c) fun v w p q ⟨together, twin⟩ => ?_
  subst together
  exact then_ v p q twin

theorem steersPure (v : α) : Steers a b (pure v) := fun _ => pairsPure fun _ _ twin => ⟨rfl, twin⟩

theorem steersBind {x : Parse α} {f : α → Parse γ} (first : Steers a b x) (then_ : ∀ v, Steers a b (f v)) :
    Steers a b (x >>= f) :=
  fun c => goesAfter first fun v => then_ v c

theorem steersIte {t : Prop} [Decidable t] {x y : Parse α} (yes : Steers a b x) (no : Steers a b y) :
    Steers a b (if t then x else y) :=
  fun c => goesIte (fun _ => yes c) fun _ => no c

theorem steersAdvance : Steers a b parserAdvance := fun _ => pairsModify fun _ _ twin => ⟨rfl, twinAdvance twin⟩

theorem steersError (message : String) : Steers a b (parserError message) :=
  fun _ => pairsModify fun _ _ twin => ⟨rfl, twinFail message twin⟩

end goes

/-! The routines, on texts of the same terminals -/

section routines
variable {a b : Source} (same : a.terminals = b.terminals) {c : Prop} {α β γ δ : Type}
  {S : γ → δ → Parser → Parser → Prop}
include same

theorem steersCheck (type : TokenType) : Steers a b (parserCheck type) :=
  fun _ => pairsRead fun _ _ twin => ⟨by rw [twinKind same twin], twin⟩

theorem steersMatch (type : TokenType) : Steers a b (parserMatch type) :=
  steersBind (steersCheck same type) fun _ => steersIte (steersBind steersAdvance fun _ => steersPure _) (steersPure _)

theorem steersExpect (type : TokenType) (message : String) : Steers a b (parserExpect type message) :=
  steersBind (steersMatch same type) fun _ => steersIte (steersPure _) (steersError message)

theorem steersMatchOf (table : List (TokenType × β)) : Steers a b (parserMatchOf table) := by
  induction table with
  | nil => exact steersPure _
  | cons entry others ih => exact steersBind (steersMatch same entry.1) fun _ => steersIte (steersPure _) ih

theorem steersType : Steers a b parserParseType := by
  refine steersBind (steersMatchOf same types) fun kind => ?_
  cases kind with
  | none => exact steersBind (steersError _) fun _ => steersPure _
  | some kind => exact steersPure _

theorem goesName {message : String} {f : CString → Parse γ} {g : CString → Parse δ}
    (then_ : ∀ v w, Goes a b (c ∧ lexeme v = lexeme w) S (f v) (g w)) :
    Goes a b c S (parserValue >>= fun v => parserExpect .tokIdentifier message >>= fun _ => f v)
      (parserValue >>= fun w => parserExpect .tokIdentifier message >>= fun _ => g w) := by
  intro p q twin
  rw [parserValue, bindRead, bindRead]
  by_cases word : p.current.type = .tokIdentifier
  · rw [bindStep (expectTaken message word), bindStep (expectTaken message (twinKind same twin ▸ word))]
    exact then_ _ _ _ _ (twinFact (twinAdvance twin) (twinWord same twin word))
  · rw [bindStep (expectFailed message word), bindStep (expectFailed message (twinKind same twin ▸ word))]
    exact then_ _ _ _ _ (twinFail message twin)

theorem numeralAlike (width : Nat) {p q : Parser} (twin : Twin a b c p q) :
    Meets (Twin a b True) (fun v w p' q' => (p.current.type = .tokNumber → v = w) ∧ Twin a b c p' q' ∧
      p'.current.type = p.current.type) (parserNumeral width p) (parserNumeral width q) := by
  unfold parserNumeral
  dsimp only
  by_cases number : p.current.type = .tokNumber
  · rw [if_pos number, if_pos (twinKind same twin ▸ number)]
    exact .returned ⟨fun _ => twinNumber same twin number, twinNote rfl rfl twin, rfl⟩
  · rw [if_neg number, if_neg (twinKind same twin ▸ number)]
    exact .returned ⟨fun other => absurd other number, twin, rfl⟩

theorem goesNumber {message : String} {f : UInt32 → Parse γ} {g : UInt32 → Parse δ}
    (then_ : ∀ v w, Goes a b (c ∧ v = w) S (f v) (g w)) :
    Goes a b c S (parserExpectNumber message >>= f) (parserExpectNumber message >>= g) := by
  refine pairsBind (Q := fun v w => Twin a b (c ∧ v = w)) ?_ then_
  refine fun p q twin => pairsBind (P := fun p' q' => p' = p ∧ q' = q)
    (Q := fun v w p' q' => (p.current.type = .tokNumber → v = w) ∧ Twin a b c p' q' ∧
      p'.current.type = p.current.type) ?_ (fun v w p' q' ⟨alike, twin', kind⟩ => ?_) p q ⟨rfl, rfl⟩
  · rintro _ _ ⟨rfl, rfl⟩
    exact numeralAlike same 32 twin
  · by_cases number : p'.current.type = .tokNumber
    · rw [bindStep (expectTaken message number), bindStep (expectTaken message (twinKind same twin' ▸ number))]
      exact .returned (twinFact (twinAdvance twin') (congrArg UInt64.toUInt32 (alike (kind ▸ number))))
    · rw [bindStep (expectFailed message number), bindStep (expectFailed message (twinKind same twin' ▸ number))]
      exact .returned (twinFail message twin')

/-- A number or a word, looked at before it is read. -/
theorem goesLiteral {f g : UInt64 → Parse γ} {x y : Parse γ} {S : γ → γ → Parser → Parser → Prop}
    (then_ : ∀ v w, Goes a b (c ∧ v = w) S (f v) (g w)) (else_ : Goes a b c S x y) :
    Goes a b c S (parserCheck .tokNumber >>= fun h => if h = true then parserNumeral 64 >>= f else x)
      (parserCheck .tokNumber >>= fun h => if h = true then parserNumeral 64 >>= g else y) := by
  intro p q twin
  rw [bindCheck, bindCheck, ← twinKind same twin]
  by_cases number : p.current.type = .tokNumber
  · simp only [number, decide_true, if_true]
    refine pairsBind (P := fun p' q' => p' = p ∧ q' = q) (Q := fun v w => Twin a b (c ∧ v = w)) ?_ then_ p q ⟨rfl, rfl⟩
    rintro _ _ ⟨rfl, rfl⟩
    exact meetsWeaken (numeralAlike same 64 twin) fun v w p' q' ⟨alike, twin', _⟩ => twinFact twin' (alike number)
  · simp only [number, decide_false, Bool.false_eq_true, if_false]
    exact else_ p q twin

theorem goesWord {f g : CString → Parse γ} {x y : Parse γ} {S : γ → γ → Parser → Parser → Prop}
    (then_ : ∀ v w, Goes a b (c ∧ lexeme v = lexeme w) S (f v) (g w)) (else_ : Goes a b c S x y) :
    Goes a b c S (parserCheck .tokIdentifier >>= fun h => if h = true then parserValue >>= f else x)
      (parserCheck .tokIdentifier >>= fun h => if h = true then parserValue >>= g else y) := by
  intro p q twin
  rw [bindCheck, bindCheck, ← twinKind same twin]
  by_cases word : p.current.type = .tokIdentifier
  · simp only [word, decide_true, if_true, parserValue, bindRead]
    exact then_ _ _ p q (twinFact twin (twinWord same twin word))
  · simp only [word, decide_false, Bool.false_eq_true, if_false]
    exact else_ p q twin

end routines

/-! The trees -/

/-- The trees read on the two sides agree under `f`. -/
def Retells (a b : Source) {α β : Type} (f : α → β) (x : Parse α) : Prop :=
  ∀ c, Goes a b c (Told a b fun v w => c ∧ f v = f w) x x

section trees
variable {a b : Source} (same : a.terminals = b.terminals) {c : Prop} {α β γ : Type}
include same

theorem retellsItems (loop : Loop) {f : α → β} {item : Parse α} (inner : Retells a b f item) (n : Nat) :
    Retells a b (List.map f) (parserItems loop item n) := by
  intro c
  refine goesLoop (fun v w => c ∧ v.map f = w.map f) (fun v w => ?_) n fun holds => ⟨holds, rfl⟩
  refine goesAfter (steersCheck same _) fun _ => goesIte (fun _ => goesOff id) fun _ => ?_
  refine goesAfter (steersCheck same _) fun _ => goesIte (fun _ => goesOff id) fun _ => ?_
  refine goesBind (goesTurn loop (inner _)) fun i j => goesOn fun ⟨⟨holds, before⟩, here⟩ => ⟨holds, ?_⟩
  rw [List.map_append, List.map_append, before, List.map_singleton, List.map_singleton, here]

theorem retellsArguments {f : ASTExpr → β} {expression : Parse ASTExpr} (inner : Retells a b f expression) (n : Nat) :
    Retells a b (List.map f) (parserParseArguments expression n) := by
  intro c
  refine goesAfter (steersCheck same _) fun _ => goesIte (fun _ => goesPure fun holds => ⟨holds, rfl⟩) fun _ => ?_
  refine goesLoop (fun v w => c ∧ v.map f = w.map f) (fun v w => ?_) n fun holds => ⟨holds, rfl⟩
  refine goesBind (inner _) fun i j => ?_
  have grown : ((c ∧ v.map f = w.map f) ∧ f i = f j) → c ∧ (v ++ [i]).map f = (w ++ [j]).map f :=
    fun ⟨⟨holds, before⟩, here⟩ =>
    ⟨holds, by rw [List.map_append, List.map_append, before, List.map_singleton, List.map_singleton, here]⟩
  exact goesAfter (steersMatch same _) fun _ => goesIte (fun _ => goesOn grown) fun _ => goesOff grown

theorem retellsPrimary {expression : Parse ASTExpr} (inner : Retells a b ASTExpr.lexemes expression) (n : Nat) :
    Retells a b ASTExpr.lexemes (parserParsePrimary expression n) := by
  intro c
  refine goesLiteral same (fun v w => ?_) (goesWord same (fun v w => ?_) ?_)
  · exact goesAfter steersAdvance fun _ => goesPure fun both => ⟨both.1, by rw [both.2]⟩
  · refine goesAfter steersAdvance fun _ => goesAfter (steersCheck same _) fun _ => goesIte (fun _ => ?_) fun _ => ?_
    · refine goesAfter steersAdvance fun _ => goesBind (retellsArguments same inner n _) fun args args' => ?_
      refine goesAfter (steersExpect same _ _) fun _ => goesPure fun all => ⟨all.1.1, ?_⟩
      simp only [ASTExpr.lexemes, ASTExpr.renamed, ASTExpr.renamedAllMap, all.1.2]
      rw [show args.map (ASTExpr.renamed lexeme) = args'.map (ASTExpr.renamed lexeme) from all.2]
    · exact goesPure fun both => ⟨both.1, by simp only [ASTExpr.lexemes, ASTExpr.renamed, both.2]⟩
  refine goesAfter (steersMatch same _) fun _ => goesIte (fun _ => goesPure fun holds => ⟨holds, rfl⟩) fun _ => ?_
  refine goesAfter (steersMatch same _) fun _ => goesIte (fun _ => goesPure fun holds => ⟨holds, rfl⟩) fun _ => ?_
  refine goesAfter (steersCheck same _) fun _ => goesIte (fun _ => ?_) fun _ => ?_
  · refine goesAfter steersAdvance fun _ => goesBind (inner c) fun v w => ?_
    exact goesAfter (steersExpect same _ _) fun _ => goesPure id
  · exact goesError _ (goesPure fun never => never.elim)

theorem retellsUnary {expression : Parse ASTExpr} (inner : Retells a b ASTExpr.lexemes expression) (n : Nat) :
    Retells a b ASTExpr.lexemes (parserParseUnary expression n) := by
  induction n with
  | zero => exact fun c => goesCut
  | succ n ih =>
    refine fun c => goesAfter (steersMatchOf same unaryOps) fun op => ?_
    cases op with
    | none => exact retellsPrimary same inner n c
    | some op =>
      refine goesBind (ih c) fun v w => goesPure fun ⟨holds, operand⟩ => ⟨holds, ?_⟩
      simpa only [ASTExpr.lexemes, ASTExpr.renamed] using congrArg (ASTExpr.unaryOp op) operand

theorem retellsBinary (ops : List (TokenType × BinaryOp)) {next : Parse ASTExpr}
    (inner : Retells a b ASTExpr.lexemes next) (n : Nat) :
    Retells a b ASTExpr.lexemes (parserParseBinary ops next n) := by
  refine fun c => goesBind (inner c) fun left left' => ?_
  refine goesLoop (fun v w => c ∧ v.lexemes = w.lexemes) (fun v w => ?_) n id
  refine goesAfter (steersMatchOf same ops) fun op => ?_
  cases op with
  | none => exact goesOff id
  | some op =>
    refine goesBind (inner _) fun i j => goesOn fun ⟨⟨holds, before⟩, operand⟩ => ⟨holds, ?_⟩
    simpa only [ASTExpr.lexemes, ASTExpr.renamed] using congrArg₂ (ASTExpr.binaryOp op) before operand

theorem retellsExpression (n : Nat) : Retells a b ASTExpr.lexemes (parserParseExpression n) := by
  induction n with
  | zero => exact fun c => goesCut
  | succ n ih =>
    have unary := retellsUnary same ih n
    exact retellsBinary same _ (retellsBinary same _ (retellsBinary same _ (retellsBinary same _ (retellsBinary same _
      (retellsBinary same _ (retellsBinary same _ (retellsBinary same _ unary n) n) n) n) n) n) n) n

theorem retellsBlock {statement : Parse ASTStmt} (inner : Retells a b ASTStmt.lexemes statement) (n : Nat) :
    Retells a b ASTStmt.lexemes (parserParseBlock statement n) := by
  refine fun c => goesAfter (steersMatch same _) fun _ => goesIte (fun _ => ?_) fun _ => ?_
  · refine goesBind (retellsItems same _ inner n c) fun v w => ?_
    refine goesAfter (steersExpect same _ _) fun _ => goesPure fun ⟨holds, each⟩ => ⟨holds, ?_⟩
    simpa only [ASTStmt.lexemes, ASTStmt.renamed, ASTStmt.renamedAllMap] using congrArg ASTStmt.block each
  · exact goesError _ (goesPure fun never => never.elim)

theorem retellsDeclaration {expression : Parse ASTExpr} (inner : Retells a b ASTExpr.lexemes expression)
    (isMut : Bool) :
    Retells a b ASTStmt.lexemes (parserParseDeclaration expression isMut) := by
  refine fun c => goesAfter steersAdvance fun _ => goesName same fun name name' => ?_
  refine goesAfter (steersExpect same _ _) fun _ => goesAfter (steersType same) fun declType => ?_
  cases declType with
  | none => exact goesPure fun ⟨holds, _⟩ => ⟨holds, rfl⟩
  | some declType =>
    refine goesAfter (steersCheck same _) fun _ => goesAfter (steersCheck same _) fun _ =>
      goesIte (fun _ => ?_) fun _ => ?_
    · refine goesAfter steersAdvance fun _ => goesBind (inner _) fun init init' => ?_
      refine goesAfter (steersMatch same _) fun _ => goesPure fun ⟨⟨holds, word⟩, value⟩ => ⟨holds, ?_⟩
      simp only [ASTStmt.lexemes, ASTStmt.renamed, word, show init.renamed lexeme = init'.renamed lexeme from value]
    · exact goesError _ (goesPure fun never => never.elim)

theorem retellsReturn {expression : Parse ASTExpr} (inner : Retells a b ASTExpr.lexemes expression) :
    Retells a b ASTStmt.lexemes (parserParseReturn expression) := by
  refine fun c => goesAfter (steersCheck same _) fun _ => goesAfter (steersCheck same _) fun _ => ?_
  refine goesAfter (steersCheck same _) fun _ => goesIte (fun _ => ?_) fun _ => ?_
  · exact goesAfter (steersMatch same _) fun _ => goesPure fun holds => ⟨holds, rfl⟩
  · refine goesBind (inner c) fun v w => goesAfter (steersMatch same _) fun _ =>
      goesPure fun ⟨holds, value⟩ => ⟨holds, ?_⟩
    simp only [ASTStmt.lexemes, ASTStmt.renamed, show v.renamed lexeme = w.renamed lexeme from value]

theorem retellsStatement (n : Nat) : Retells a b ASTStmt.lexemes (parserParseStatement n) := by
  induction n with
  | zero => exact fun c => goesCut
  | succ n ih =>
    have expression := retellsExpression same n
    refine fun c => goesAfter (steersCheck same _) fun _ => goesAfter (steersCheck same _) fun _ =>
      goesIte (fun _ => ?_) fun _ => ?_
    · exact goesAfter (steersCheck same _) fun isMut => retellsDeclaration same expression isMut c
    refine goesAfter (steersMatch same _) fun _ => goesIte (fun _ => retellsReturn same expression c) fun _ => ?_
    refine goesAfter (steersCheck same _) fun _ => goesIte (fun _ => retellsBlock same ih n c) fun _ => ?_
    refine goesBind (expression c) fun v w => goesAfter (steersMatch same _) fun _ =>
      goesPure fun ⟨holds, value⟩ => ⟨holds, ?_⟩
    simp only [ASTStmt.lexemes, ASTStmt.renamed, show v.renamed lexeme = w.renamed lexeme from value]

theorem retellsBody (n : Nat) : Retells a b ASTStmt.lexemes (parserParseBody n) := by
  have statement := retellsStatement same n
  refine fun c => goesAfter (steersMatch same _) fun _ => goesIte (fun _ => ?_) fun _ => ?_
  · refine goesBind (statement c) fun v w => goesPure fun ⟨holds, only⟩ => ⟨holds, ?_⟩
    simp only [ASTStmt.lexemes, ASTStmt.renamed, ASTStmt.renamedAllMap, List.map_singleton,
      show v.renamed lexeme = w.renamed lexeme from only]
  refine goesAfter (steersCheck same _) fun _ => goesIte (fun _ => retellsBlock same statement n c) fun _ => ?_
  exact goesError _ (goesPure fun never => never.elim)

theorem retellsFunction (n : Nat) : Retells a b (Option.map ASTFunctionDef.lexemes) (parserParseFunction n) := by
  refine fun c => goesAfter (steersMatchOf same _) fun isNimStyle => ?_
  cases isNimStyle with
  | none => exact goesError _ (goesPure fun never => never.elim)
  | some isNimStyle =>
    have signature : Retells a b ASTFunctionDef.lexemes (parserParseSignature isNimStyle n) := by
      refine fun c => goesName same fun name name' => goesAfter (steersExpect same _ _) fun _ => ?_
      refine goesAfter (steersExpect same _ _) fun _ => goesAfter ?_ fun _ => goesAfter (steersType same) fun kind => ?_
      · exact steersIte (steersExpect same _ _) (steersExpect same _ _)
      · refine goesBind (retellsBody same n _) fun v w => goesPure fun all => ⟨all.1.1, ?_⟩
        simp only [ASTFunctionDef.lexemes, ASTFunctionDef.renamed, all.1.2, List.map_nil,
          show v.renamed lexeme = w.renamed lexeme from all.2]
    exact goesBind (signature c) fun v w => goesPure fun both => ⟨both.1, congrArg some both.2⟩

theorem retellsField : Retells a b (ASTField.renamed lexeme) parserParseField := by
  refine fun c => goesAfter (steersExpect same _ _) fun _ => goesName same fun name name' => ?_
  refine goesAfter (steersExpect same _ _) fun _ => goesAfter (steersExpect same _ _) fun _ => ?_
  refine goesNumber same fun start start' => goesAfter (steersExpect same _ _) fun _ => ?_
  refine goesNumber same fun stop stop' => goesAfter (steersExpect same _ _) fun _ => ?_
  refine goesAfter (steersMatchOf same _) fun access => goesAfter (steersMatch same _) fun _ => ?_
  refine goesPure fun ⟨⟨⟨holds, word⟩, low⟩, high⟩ => ⟨holds, ?_⟩
  simp only [ASTField.renamed, word, low, high]

theorem retellsRegister (n : Nat) : Retells a b (ASTRegister.renamed lexeme) (parserParseRegister n) := by
  refine fun c => goesAfter (steersExpect same _ _) fun _ => goesName same fun name name' => ?_
  refine goesAfter (steersExpect same _ _) fun _ => goesAfter (steersMatchOf same _) fun kind => ?_
  refine goesAfter (steersExpect same _ _) fun _ => goesNumber same fun offset offset' => ?_
  refine goesAfter (steersExpect same _ _) fun _ => goesBind (retellsItems same _ (retellsField same) n _) fun v w => ?_
  refine goesAfter (steersExpect same _ _) fun _ => goesPure fun ⟨⟨⟨holds, word⟩, place⟩, each⟩ => ⟨holds, ?_⟩
  simp only [ASTRegister.renamed, word, place, each]

theorem retellsPeripheral (n : Nat) : Retells a b ASTPeripheral.lexemes (parserParsePeripheral n) := by
  refine fun c => goesAfter (steersExpect same _ _) fun _ => goesName same fun name name' => ?_
  refine goesAfter (steersExpect same _ _) fun _ => goesNumber same fun base base' => ?_
  refine goesAfter (steersExpect same _ _) fun _ => goesBind (retellsItems same _ (retellsRegister same n) n _)
    fun v w => ?_
  refine goesAfter (steersExpect same _ _) fun _ => goesPure fun ⟨⟨⟨holds, word⟩, place⟩, each⟩ => ⟨holds, ?_⟩
  simp only [ASTPeripheral.lexemes, ASTPeripheral.renamed, word, place, each]

theorem retellsProgram (n : Nat) : Retells a b ASTProgram.lexemes (parserParseProgram n) := by
  refine fun c => goesLoop (fun v w => c ∧ v.lexemes = w.lexemes) (fun v w => ?_) n fun holds => ⟨holds, rfl⟩
  refine goesAfter (steersCheck same _) fun _ => goesIte (fun _ => goesOff id) fun _ => ?_
  refine goesAfter (steersCheck same _) fun _ => goesAfter (steersCheck same _) fun _ => ?_
  refine goesAfter (steersCheck same _) fun _ => goesIte (fun _ => ?_) fun _ => ?_
  · refine goesBind (goesTurn _ (retellsFunction same n _)) fun func func' => ?_
    cases func with
    | none =>
      cases func' with
      | none => exact goesOn And.left
      | some func' => exact goesOn fun both => absurd both.2 (Option.some_ne_none _).symm
    | some func =>
      cases func' with
      | none => exact goesOn fun both => absurd both.2 (Option.some_ne_none _)
      | some func' =>
        refine goesOn fun all => ⟨all.1.1, ?_⟩
        have before := all.1.2
        have last : func.renamed lexeme = func'.renamed lexeme := Option.some.inj all.2
        simp only [ASTProgram.lexemes, ASTProgram.renamed, ASTProgram.mk.injEq] at before
        simp only [ASTProgram.lexemes, ASTProgram.renamed, List.map_append, before.1, before.2, List.map_singleton,
          last]
  refine goesAfter (steersCheck same _) fun _ => goesIte (fun _ => ?_) fun _ => ?_
  · refine goesBind (goesTurn _ (retellsPeripheral same n _)) fun periph periph' => goesOn fun all => ⟨all.1.1, ?_⟩
    have before := all.1.2
    have last : periph.renamed lexeme = periph'.renamed lexeme := all.2
    simp only [ASTProgram.lexemes, ASTProgram.renamed, ASTProgram.mk.injEq] at before
    simp only [ASTProgram.lexemes, ASTProgram.renamed, List.map_append, before.1, before.2, List.map_singleton, last]
  · exact goesError _ (goesOff fun never => never.elim)

/-- What two runs of the parser on the two texts have in common. -/
structure Retold (a b : Source) (x y : Option ASTProgram × Parser) : Prop where
  returned : x.1.isSome = y.1.isSome
  failed : x.2.error = y.2.error
  diagnosed : ∃ said : List (Nat × String), (said.map Prod.fst).Pairwise (· ≤ ·) ∧ (x.2.error = true ↔ said ≠ []) ∧
    x.2.messages = said.map a.message ∧ y.2.messages = said.map b.message
  built : x.2.error = false → x.1.map ASTProgram.lexemes = y.1.map ASTProgram.lexemes

omit same in
theorem twinMessages {p q : Parser} (twin : Twin a b c p q) : p.error = q.error ∧
    (∃ said : List (Nat × String), (said.map Prod.fst).Pairwise (· ≤ ·) ∧ (p.error = true ↔ said ≠ []) ∧
      p.messages = said.map a.message ∧ q.messages = said.map b.message) ∧ (p.error = false → c) := by
  obtain ⟨k, said, left, right, sorted, holds⟩ := twin
  refine ⟨Bool.eq_iff_iff.mpr (left.error.trans right.error.symm), ⟨said.reverse, ?_, ?_, ?_, ?_⟩, fun clear => ?_⟩
  · rw [List.map_reverse, List.pairwise_reverse]
    exact (List.pairwise_cons.mp sorted).2
  · rw [left.error, ne_eq, ne_eq, List.reverse_eq_nil_iff]
  · rw [Parser.messages, left.told, List.map_reverse]
  · rw [Parser.messages, right.told, List.map_reverse]
  · exact holds (not_not.mp fun some => by simp [left.error.mpr some] at clear)

/-- A text is parsed by its terminals: blanks and comments decide where a message stands, not whether
or in what order it comes, and change nothing in an accepted tree but what its names show behind the lexeme. -/
theorem layoutIrrelevant (fuel : Nat) : Retold a b (parseSource fuel a) (parseSource fuel b) := by
  have met := retellsProgram same fuel True _ _ (twinCreate (a := a) (b := b))
  rw [parseSource, parseSource]
  rcases hx : parserParseProgram fuel (parserCreate a) with ⟨_ | v, p⟩ <;>
    rcases hy : parserParseProgram fuel (parserCreate b) with ⟨_ | w, q⟩ <;> rw [hx, hy] at met
  · obtain ⟨-⟩ | ⟨twin⟩ := met
    obtain ⟨failed, diagnosed, -⟩ := twinMessages twin
    exact ⟨rfl, failed, diagnosed, fun _ => rfl⟩
  · cases met
  · cases met
  · have twin : Told a b (fun v w => True ∧ v.lexemes = w.lexemes) v w p q := meetsReturned.mp met
    obtain ⟨failed, diagnosed, built⟩ := twinMessages (show Twin a b _ p q from twin)
    exact ⟨rfl, failed, diagnosed, fun clear => congrArg some (built clear).2⟩

/-- An accepted text stays accepted however it is laid out, and the checker makes the same of it. -/
theorem checkingRetold {program : ASTProgram} {p : Parser} (parsed : Parses a program p) (clear : p.error = false) :
    ∃ program' p', Parses b program' p' ∧ p'.error = false ∧ program'.lexemes = program.lexemes ∧
      (checkProgramTypes typeContextCreate program').1 = (checkProgramTypes typeContextCreate program).1 ∧
      (checkProgramTypes typeContextCreate program').2.errorCount =
        (checkProgramTypes typeContextCreate program).2.errorCount ∧
      (checkProgramTypes typeContextCreate program').2.reports.map (Report.renamed lexeme) =
        (checkProgramTypes typeContextCreate program).2.reports.map (Report.renamed lexeme) := by
  obtain ⟨n, ran⟩ := parsed
  obtain ⟨returned, failed, -, built⟩ := layoutIrrelevant same n
  rw [ran] at returned failed built
  obtain ⟨program', found⟩ := Option.isSome_iff_exists.mp returned.symm
  have parsed' : Parses b program' (parseSource n b).2 := ⟨n, Prod.ext found rfl⟩
  have clear' : (parseSource n b).2.error = false := failed.symm.trans clear
  have alike : program.lexemes = program'.lexemes := by simpa [found] using built clear
  have distinct := (Names.parsedDistinct ⟨n, ran⟩ clear).of_append_left
  have distinct' := (Names.parsedDistinct parsed' clear').of_append_left
  exact ⟨program', _, parsed', clear', alike.symm, Renaming.checkedAlike alike distinct distinct'⟩

end trees

def crowded : Source := ⟨"fn f()->u8\x7breturn 0x1F+;\x7d".toList, by decide⟩

def spaced : Source := ⟨"fn f ( ) ->\n u8 /* a; b */\x7b return\t0x1F + ; // none\n \x7d ".toList, by decide⟩

theorem crowdedRetold : Retold crowded spaced (parseSource 20 crowded) (parseSource 20 spaced) :=
  layoutIrrelevant (by decide +kernel) 20

example : (parseSource 20 crowded).2.messages = [(1, 23, "Expected primary expression")] ∧
    (parseSource 20 spaced).2.messages = [(2, 30, "Expected primary expression")] := by
  decide +kernel

def plain : Source := ⟨"fn f()->u8\x7breturn x;\x7d".toList, by decide⟩

def plainProgram : ASTProgram :=
  ⟨[⟨"f()->u8\x7breturn x;\x7d".toList, some .typeU8, [], .block [.ret (.identifier "x;\x7d".toList)]⟩], []⟩

def airy : Source := ⟨"fn f() -> u8 // x\n\x7b return x; \x7d".toList, by decide⟩

theorem plainRetold : ∃ program' p', Parses airy program' p' ∧ p'.error = false ∧
    program'.lexemes = plainProgram.lexemes ∧
    (checkProgramTypes typeContextCreate program').1 = (checkProgramTypes typeContextCreate plainProgram).1 ∧
    (checkProgramTypes typeContextCreate program').2.errorCount =
      (checkProgramTypes typeContextCreate plainProgram).2.errorCount ∧
    (checkProgramTypes typeContextCreate program').2.reports.map (Report.renamed lexeme) =
      (checkProgramTypes typeContextCreate plainProgram).2.reports.map (Report.renamed lexeme) :=
  checkingRetold (p := (parseSource 9 plain).2) (by decide +kernel) ⟨9, Prod.ext rfl rfl⟩ rfl

end Reformatting
end BitN

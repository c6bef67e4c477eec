import BitN.ParserDerives
import BitN.TypeChecker

/-! The number literals of a parsed program, which are the numerals its function definitions are
written with, in their order and whole: every run of the parser, clean or not, loses and adds none. -/
namespace BitN

mutual
def ASTExpr.literals : ASTExpr → List UInt64
  | .null | .identifier _ | .string _ | .boolean _ => []
  | .number value => [value]
  | .binaryOp _ left right => left.literals ++ right.literals
  | .unaryOp _ operand => operand.literals
  | .call func args => func.literals ++ ASTExpr.literalsAll args
  | .arrayIndex array index => array.literals ++ index.literals
  | .bitSlice expr _ _ => expr.literals
  | .memberAccess object _ => object.literals
def ASTExpr.literalsAll : List ASTExpr → List UInt64
  | [] => []
  | e :: es => e.literals ++ ASTExpr.literalsAll es
end

mutual
def ASTStmt.literals : ASTStmt → List UInt64
  | .null | .ifStmt | .whileStmt => []
  | .varDecl _ _ init _ => init.literals
  | .expr e => e.literals
  | .ret value => value.literals
  | .block statements => ASTStmt.literalsAll statements
def ASTStmt.literalsAll : List ASTStmt → List UInt64
  | [] => []
  | s :: ss => s.literals ++ ASTStmt.literalsAll ss
end

/-! The numbers of devices -/

def ASTField.numbers (field : ASTField) : List UInt32 := [field.startBit, field.endBit]

def ASTRegister.numbers (reg : ASTRegister) : List UInt32 := reg.offset :: reg.fields.flatMap ASTField.numbers

def ASTPeripheral.numbers (periph : ASTPeripheral) : List UInt32 :=
  periph.baseAddress :: periph.registers.flatMap ASTRegister.numbers

def ASTProgram.numbers (program : ASTProgram) : List UInt32 := program.peripherals.flatMap ASTPeripheral.numbers

def ASTProgram.literals (program : ASTProgram) : List UInt64 := program.functions.flatMap fun f => f.body.literals

/-- Each literal has a value of the type it is given. -/
def ASTProgram.LiteralsFit (program : ASTProgram) : Prop :=
  ∀ value ∈ program.literals, ∀ ctx, (inferExprType ctx (.number value)).1 = some .typeU32 ∧ value.toNat < 2 ^ 32

inductive Mark where
  | function
  | peripheral
  | number (value : UInt64)
  deriving DecidableEq, Repr

def Token.marks (tok : Token) : List Mark :=
  match tok.type with
  | .tokProc | .tokFunc | .tokFn => [.function]
  | .tokPeripheral => [.peripheral]
  | .tokNumber => [.number (strtoull tok.value)]
  | _ => []

def Source.marks (input : Source) : List Mark := input.tokens.flatMap Token.marks

def Parser.marks (parser : Parser) : List Mark := parser.ahead.flatMap Token.marks

/-- The numbers whose last keyword before them opens a function, rather than a peripheral. -/
def operands (inFunction : Bool) : List Mark → List UInt64
  | [] => []
  | .function :: marks => operands true marks
  | .peripheral :: marks => operands false marks
  | .number value :: marks => if inFunction then value :: operands inFunction marks else operands inFunction marks

namespace ParserLiterals

open Run ParserRun

theorem literalsSnoc (es : List ASTExpr) (e : ASTExpr) :
    ASTExpr.literalsAll (es ++ [e]) = ASTExpr.literalsAll es ++ e.literals := by
  induction es with
  | nil => simp [ASTExpr.literalsAll]
  | cons first es ih => simp [ASTExpr.literalsAll, ih]

theorem statementsSnoc (ss : List ASTStmt) (s : ASTStmt) :
    ASTStmt.literalsAll (ss ++ [s]) = ASTStmt.literalsAll ss ++ s.literals := by
  induction ss with
  | nil => simp [ASTStmt.literalsAll]
  | cons first ss ih => simp [ASTStmt.literalsAll, ih]

/-! What is read of the numerals on a way of the parser -/

def Quiet (type : TokenType) : Prop :=
  type ∉ [.tokNumber, .tokProc, .tokFunc, .tokFn, .tokPeripheral, .tokEof]

instance (type : TokenType) : Decidable (Quiet type) := inferInstanceAs (Decidable (¬ _))

/-- The messages for a number that is missing where a device needs one. -/
def numberMessages : List String :=
  ["Expected start bit", "Expected end bit", "Expected offset value", "Expected base address"]

/-- Ways of the parser with labels for the numerals whose values it keeps, for numbers that a device
lacks, and for the words that open a definition; nothing else has a label. -/
structure Reading (τ : Type) where
  via : Parser → List τ → Parser → Prop
  passage : Passage via
  literal : CString → τ
  field : Option CString → List τ
  functionWord : List τ
  peripheralWord : List τ
  advanced : ∀ p, Quiet p.current.type → via p [] p.advance
  entered : ∀ p loop, via p [] (p.note (.enter loop p.current.type))
  repeated : ∀ p loop before, via p [] (p.note (.again loop before p.ahead.length))
  failed : ∀ p message, message ∉ numberMessages → via p [] (p.fail message)
  literalRead : ∀ p, p.current.type = .tokNumber → via p [literal p.current.value]
    (p.note (.store p.current.value 64 ((strtoull p.current.value).toNat % 2 ^ 64))).advance
  fieldRead : ∀ p, p.current.type = .tokNumber → via p (field (some p.current.value))
    (p.note (.store p.current.value 32 ((strtoull p.current.value).toNat % 2 ^ 32))).advance
  fieldMissing : ∀ p message, message ∈ numberMessages → via p (field none) (p.fail message)
  functionOpened : ∀ p, p.current.type ∈ [.tokProc, .tokFunc, .tokFn] → via p functionWord p.advance
  peripheralOpened : ∀ p, p.current.type = .tokPeripheral → via p peripheralWord p.advance

/-- The value kept of a numeral. -/
def Reads (text : CString) (value : UInt64) : Prop := isDigit (text.headD '\x00') = true ∧ value = strtoull text

def ReadsField (slot : Option CString) (value : UInt32) : Prop :=
  ∀ text ∈ slot, isDigit (text.headD '\x00') = true ∧ value = (strtoull text).toUInt32

section reading
variable {τ α β : Type} (r : Reading τ) {Q : α → List τ → Prop}

instance : Passage r.via := r.passage

abbrev Draws (Q : α → List τ → Prop) (x : Parse α) : Prop := Passes r.via Q x
abbrev DrawsAt (Q : α → List τ → Prop) (x : Parse α) (p : Parser) : Prop := PassesAt r.via Q x p
abbrev Still (x : Parse α) : Prop := Draws r (fun _ u => u = []) x

/-- These values are kept, of numerals with these labels. -/
def Spelled (values : List UInt64) (u : List τ) : Prop := ∃ texts, u = texts.map r.literal ∧ List.Forall₂ Reads texts values

def Filled (values : List UInt32) (u : List τ) : Prop :=
  ∃ slots, u = slots.flatMap r.field ∧ List.Forall₂ ReadsField slots values

variable {r}

theorem spelledNone : Spelled r [] [] := ⟨[], rfl, .nil⟩

theorem Spelled.append {values values' : List UInt64} {u v : List τ} (first : Spelled r values u)
    (later : Spelled r values' v) : Spelled r (values ++ values') (u ++ v) := by
  obtain ⟨texts, rfl, reads⟩ := first
  obtain ⟨texts', rfl, reads'⟩ := later
  exact ⟨texts ++ texts', List.map_append.symm, List.rel_append reads reads'⟩

theorem filledNone : Filled r [] [] := ⟨[], rfl, .nil⟩

theorem Filled.append {values values' : List UInt32} {u v : List τ} (first : Filled r values u)
    (later : Filled r values' v) : Filled r (values ++ values') (u ++ v) := by
  obtain ⟨slots, rfl, reads⟩ := first
  obtain ⟨slots', rfl, reads'⟩ := later
  exact ⟨slots ++ slots', List.flatMap_append.symm, List.rel_append reads reads'⟩

theorem stillCheck (type : TokenType) : Still r (parserCheck type) := passesRead _

theorem stillValue : Still r parserValue := passesRead _

theorem stillError {message : String} (other : message ∉ numberMessages) : Still r (parserError message) := by
  intro p a last ran
  obtain rfl : p.fail message = last := (Prod.mk.inj ran).2
  exact ⟨[], r.failed p message other, rfl⟩

theorem stillAdvance {p : Parser} (quiet : Quiet p.current.type) : DrawsAt r (fun _ u => u = []) parserAdvance p := by
  intro a last ran
  obtain rfl : p.advance = last := (Prod.mk.inj ran).2
  exact ⟨[], r.advanced p quiet, rfl⟩

theorem drawsMatch {type : TokenType} {word : List τ}
    (taken : ∀ p : Parser, p.current.type = type → r.via p word p.advance) :
    Draws r (fun found u => u = if found then word else []) (parserMatch type) := by
  intro p found last ran
  by_cases here : p.current.type = type
  · rw [matchTaken here] at ran
    obtain ⟨rfl, rfl⟩ : true = found ∧ p.advance = last := by simpa using ran
    exact ⟨word, taken p here, rfl⟩
  · rw [matchSkipped here] at ran
    obtain ⟨rfl, rfl⟩ : false = found ∧ p = last := by simpa using ran
    exact ⟨[], Passage.refl p, rfl⟩

theorem drawsMatchOf {table : List (TokenType × β)} {word : List τ}
    (taken : ∀ entry ∈ table, ∀ p : Parser, p.current.type = entry.1 → r.via p word p.advance) :
    Draws r (fun found u => u = if found.isSome then word else []) (parserMatchOf table) := by
  induction table with
  | nil => exact passesPure rfl
  | cons entry others ih =>
    have first := drawsMatch (taken entry List.mem_cons_self)
    have later := ih fun other member => taken other (List.mem_cons_of_mem _ member)
    refine passesBind first fun found => ?_
    cases found with
    | true => exact passesPure fun u taken => by simpa using taken
    | false => exact passesWeaken later fun other v drawn u skipped => by simpa [skipped] using drawn

theorem stillMatch {type : TokenType} (quiet : Quiet type) : Still r (parserMatch type) := by
  refine passesWeaken (drawsMatch fun p here => r.advanced p (here ▸ quiet)) fun found u drawn => ?_
  simpa using drawn

theorem stillMatchOf {table : List (TokenType × β)} (quiet : ∀ entry ∈ table, Quiet entry.1) :
    Still r (parserMatchOf table) := by
  refine passesWeaken (drawsMatchOf fun entry member p here => r.advanced p (here ▸ quiet entry member))
    fun found u drawn => ?_
  simpa using drawn

theorem stillExpect {type : TokenType} (quiet : Quiet type) {message : String} (other : message ∉ numberMessages) :
    Still r (parserExpect type message) :=
  passesAfter (stillMatch quiet) fun _ => passesIte (passesPure rfl) (stillError other)

theorem drawsCheckIte {type : TokenType} {yes no : Parse α} (taken : ∀ p, p.current.type = type → DrawsAt r Q yes p)
    (skipped : Draws r Q no) : Draws r Q (parserCheck type >>= fun b => if b = true then yes else no) := by
  intro p
  change DrawsAt r Q (if decide (p.current.type = type) = true then yes else no) p
  split_ifs with here
  · exact taken p (by simpa using here)
  · exact skipped p

theorem drawsCheckEither {type type' : TokenType} {yes no : Parse α}
    (taken : ∀ p, p.current.type = type ∨ p.current.type = type' → DrawsAt r Q yes p) (skipped : Draws r Q no) :
    Draws r Q (parserCheck type >>= fun a => parserCheck type' >>= fun b => if (a || b) = true then yes else no) := by
  intro p
  change DrawsAt r Q (if (decide (p.current.type = type) || decide (p.current.type = type')) = true then yes else no) p
  split_ifs with here
  · exact taken p (by simpa using here)
  · exact skipped p

theorem drawsValue {f : CString → Parse α} {p : Parser} (then_ : DrawsAt r Q (f p.current.value) p) :
    DrawsAt r Q (parserValue >>= f) p := then_

theorem drawsAdvance {f : Unit → Parse α} {p : Parser} (quiet : Quiet p.current.type) (then_ : Draws r Q (f ())) :
    DrawsAt r Q (parserAdvance >>= f) p :=
  passesBindAt (stillAdvance quiet) fun _ => passesWeaken then_ fun _ _ holds u none => by rwa [none, List.nil_append]

theorem drawsTurnAt {loop : Loop} {body : Parse α} {p : Parser}
    (inner : DrawsAt r Q body (p.note (.enter loop p.current.type))) : DrawsAt r Q (parserTurn loop body) p := by
  intro a last ran
  simp only [parserTurn, bindRead, bindModify] at ran
  obtain ⟨item, next, one, two⟩ := bindReturns.mp ran
  obtain ⟨rfl, rfl⟩ : item = a ∧ next.note _ = last := by simpa using two
  obtain ⟨u, way, holds⟩ := inner item next one
  have turned := Passage.trans (r.entered p loop) (Passage.trans way (r.repeated next loop p.ahead.length))
  rw [List.nil_append, List.append_nil] at turned
  exact ⟨u, turned, holds⟩

theorem drawsItems (Inv : List α → List τ → Prop) (start : Inv [] []) (loop : Loop) {item : Parse α}
    (inner : Draws r Q item) (on : ∀ items u a v, Inv items u → Q a v → Inv (items ++ [a]) (u ++ v)) (n : Nat) :
    Draws r Inv (parserItems loop item n) := by
  refine passesLoopFrom Inv start (fun items => ?_) n
  have leave : Draws r (fun out v => ∀ u, Inv items u → Sum.elim (fun next => Inv next (u ++ v))
      (fun result => Inv result (u ++ v)) out) (pure (.inr items) : Parse (List α ⊕ List α)) :=
    passesPure fun u inv => by simpa using inv
  refine passesAfter (stillCheck _) fun _ => passesIte leave ?_
  refine passesAfter (stillCheck _) fun _ => passesIte leave ?_
  refine passesBind (fun p => drawsTurnAt (inner _)) fun a => passesPure fun v drawn u inv => ?_
  rw [List.append_nil]
  exact on items u a v inv drawn

/-! Expressions -/

variable (r) in
abbrev Spells (e : ASTExpr) (u : List τ) : Prop := Spelled r e.literals u

theorem numeralTaken (width : Nat) {p : Parser} (number : p.current.type = .tokNumber) :
    parserNumeral width p = (some (strtoull p.current.value),
      p.note (.store p.current.value width ((strtoull p.current.value).toNat % 2 ^ width))) := if_pos number

theorem spellsNumber {p : Parser} (number : p.current.type = .tokNumber) : DrawsAt r (Spells r)
    (parserNumeral 64 >>= fun value => parserAdvance >>= fun _ => pure (.number value)) p := by
  intro e last ran
  rw [bindStep (numeralTaken 64 number)] at ran
  obtain ⟨same, rfl⟩ := Prod.mk.inj ran
  obtain rfl := Option.some.inj same
  exact ⟨_, r.literalRead p number, [p.current.value], rfl,
    .cons ⟨ParserSound.emittedNumber p.currentEmitted number, rfl⟩ .nil⟩

theorem spellsArguments {expression : Parse ASTExpr} (inner : Draws r (Spells r) expression) (n : Nat) :
    Draws r (fun args u => Spelled r (ASTExpr.literalsAll args) u) (parserParseArguments expression n) := by
  refine passesAfter (stillCheck _) fun _ => passesIte (passesPure spelledNone) ?_
  refine passesLoopFrom (fun args u => Spelled r (ASTExpr.literalsAll args) u) spelledNone (fun args => ?_) n
  have grown {arg : ASTExpr} {u v : List τ} (spelled : Spells r arg v)
      (before : Spelled r (ASTExpr.literalsAll args) u) :
      Spelled r (ASTExpr.literalsAll (args ++ [arg])) (u ++ (v ++ [])) := by
    rw [List.append_nil, literalsSnoc]
    exact before.append spelled
  refine passesBind inner fun arg => passesAfter (stillMatch (by decide)) fun _ => passesIte (passesPure ?_) (passesPure ?_)
  · exact fun v spelled u before => grown spelled before
  · exact fun v spelled u before => grown spelled before

-- What is missing becomes `null`, which has no literals, so an error neither loses nor adds one.
theorem spellsPrimary {expression : Parse ASTExpr} (inner : Draws r (Spells r) expression) (n : Nat) :
    Draws r (Spells r) (parserParsePrimary expression n) := by
  refine drawsCheckIte (fun p number => spellsNumber number) ?_
  refine drawsCheckIte (fun p name => ?_) ?_
  · refine drawsValue (drawsAdvance (by rw [name]; decide) ?_)
    refine drawsCheckIte (fun q opened => drawsAdvance (by rw [opened]; decide) ?_) (passesPure spelledNone)
    refine passesFinish (.call (.identifier p.current.value)) (spellsArguments inner n) (fun args => ?_)
      fun args u spelled => spelled
    exact passesAfter (stillExpect (by decide) (by decide)) fun _ => passesPure ⟨rfl, rfl⟩
  refine passesAfter (stillMatch (by decide)) fun _ => passesIte (passesPure spelledNone) ?_
  refine passesAfter (stillMatch (by decide)) fun _ => passesIte (passesPure spelledNone) ?_
  refine drawsCheckIte (fun p opened => drawsAdvance (by rw [opened]; decide) ?_) ?_
  · refine passesFinish id inner (fun e => ?_) fun e u spelled => spelled
    exact passesAfter (stillExpect (by decide) (by decide)) fun _ => passesPure ⟨rfl, rfl⟩
  · exact passesAfter (stillError (by decide)) fun _ => passesPure spelledNone

theorem spellsUnary {expression : Parse ASTExpr} (inner : Draws r (Spells r) expression) (n : Nat) :
    Draws r (Spells r) (parserParseUnary expression n) := by
  induction n with
  | zero => exact passesCut
  | succ n ih =>
    refine passesAfter (stillMatchOf (by decide)) fun op => ?_
    cases op with
    | some op => exact passesFinish (.unaryOp op) ih (fun e => passesPure ⟨rfl, rfl⟩) fun e u spelled => spelled
    | none => exact spellsPrimary inner n

theorem spellsBinary {ops : List (TokenType × BinaryOp)} (quiet : ∀ entry ∈ ops, Quiet entry.1) {next : Parse ASTExpr}
    (inner : Draws r (Spells r) next) (n : Nat) : Draws r (Spells r) (parserParseBinary ops next n) := by
  refine passesBind inner fun left => passesLoop (Spells r) (fun left => ?_) n left
  refine passesAfter (stillMatchOf quiet) fun op => ?_
  cases op with
  | some op =>
    refine passesBind inner fun right => passesPure fun v spelled u before => ?_
    rw [List.append_nil]
    exact before.append spelled
  | none => exact passesPure fun u spelled => by simpa using spelled

theorem spellsExpression (n : Nat) : Draws r (Spells r) (parserParseExpression n) := by
  induction n with
  | zero => exact passesCut
  | succ n ih =>
    have unary := spellsUnary ih n
    have level {ops : List (TokenType × BinaryOp)} (quiet : ∀ entry ∈ ops, Quiet entry.1) {next : Parse ASTExpr}
        (inner : Draws r (Spells r) next) : Draws r (Spells r) (parserParseBinary ops next n) := spellsBinary quiet inner n
    exact level (by decide) (level (by decide) (level (by decide) (level (by decide) (level (by decide)
      (level (by decide) (level (by decide) (level (by decide) unary)))))))

/-! Statements and functions -/

variable (r) in
abbrev SpellsStmt (s : ASTStmt) (u : List τ) : Prop := Spelled r s.literals u

theorem stillType : Still r parserParseType := by
  refine passesAfter (stillMatchOf (by decide)) fun kind => ?_
  cases kind with
  | none => exact passesAfter (stillError (by decide)) fun _ => passesPure rfl
  | some kind => exact passesPure rfl

theorem spellsBlock {statement : Parse ASTStmt} (inner : Draws r (SpellsStmt r) statement) (n : Nat) :
    Draws r (SpellsStmt r) (parserParseBlock statement n) := by
  refine passesAfter (stillMatch (by decide)) fun _ => passesIte ?_
    (passesAfter (stillError (by decide)) fun _ => passesPure spelledNone)
  have items := drawsItems (fun ss u => Spelled r (ASTStmt.literalsAll ss) u) spelledNone .statements inner
    (fun ss u s v before spelled => statementsSnoc ss s ▸ before.append spelled) n
  refine passesFinish .block items (fun ss => ?_) fun ss u spelled => spelled
  exact passesAfter (stillExpect (by decide) (by decide)) fun _ => passesPure ⟨rfl, rfl⟩

theorem spellsDeclaration {expression : Parse ASTExpr} (inner : Draws r (Spells r) expression) (isMut : Bool) {p : Parser}
    (quiet : Quiet p.current.type) : DrawsAt r (SpellsStmt r) (parserParseDeclaration expression isMut) p := by
  refine drawsAdvance quiet (passesAfter stillValue fun name => ?_)
  refine passesAfter (stillExpect (by decide) (by decide)) fun _ => ?_
  refine passesAfter (stillExpect (by decide) (by decide)) fun _ => passesAfter stillType fun declType => ?_
  cases declType with
  | none => exact passesPure spelledNone
  | some declType =>
    refine drawsCheckEither (fun q assigned => ?_) (passesAfter (stillError (by decide)) fun _ => passesPure spelledNone)
    have quiet : Quiet q.current.type := by rcases assigned with here | here <;> rw [here] <;> decide
    refine drawsAdvance quiet (passesFinish (.varDecl name declType · isMut) inner (fun init => ?_)
      fun init u spelled => spelled)
    exact passesAfter (stillMatch (by decide)) fun _ => passesPure ⟨rfl, rfl⟩

theorem spellsReturn {expression : Parse ASTExpr} (inner : Draws r (Spells r) expression) :
    Draws r (SpellsStmt r) (parserParseReturn expression) := by
  refine passesAfter (stillCheck _) fun _ => passesAfter (stillCheck _) fun _ => passesAfter (stillCheck _) fun _ => ?_
  refine passesIte (passesAfter (stillMatch (by decide)) fun _ => passesPure spelledNone) ?_
  refine passesFinish .ret inner (fun value => ?_) fun value u spelled => spelled
  exact passesAfter (stillMatch (by decide)) fun _ => passesPure ⟨rfl, rfl⟩

theorem spellsStatement (n : Nat) : Draws r (SpellsStmt r) (parserParseStatement n) := by
  induction n with
  | zero => exact passesCut
  | succ n ih =>
    have expression := @spellsExpression τ r n
    refine drawsCheckEither (fun p opened => ?_) ?_
    · have quiet : Quiet p.current.type := by rcases opened with here | here <;> rw [here] <;> decide
      exact spellsDeclaration expression (decide (p.current.type = .tokVar)) quiet
    refine passesAfter (stillMatch (by decide)) fun _ => passesIte (spellsReturn expression) ?_
    refine passesAfter (stillCheck _) fun _ => passesIte (spellsBlock ih n) ?_
    refine passesFinish .expr expression (fun e => ?_) fun e u spelled => spelled
    exact passesAfter (stillMatch (by decide)) fun _ => passesPure ⟨rfl, rfl⟩

theorem spellsBody (n : Nat) : Draws r (SpellsStmt r) (parserParseBody n) := by
  have statement := @spellsStatement τ r n
  refine passesAfter (stillMatch (by decide)) fun _ => passesIte ?_ ?_
  · refine passesFinish (fun s => .block [s]) statement (fun s => passesPure ⟨rfl, rfl⟩) fun s u spelled => ?_
    rw [SpellsStmt, ASTStmt.literals, ASTStmt.literalsAll, ASTStmt.literalsAll, List.append_nil]
    exact spelled
  refine passesAfter (stillCheck _) fun _ => passesIte (spellsBlock statement n) ?_
  exact passesAfter (stillError (by decide)) fun _ => passesPure spelledNone

theorem spellsSignature (isNimStyle : Bool) (n : Nat) :
    Draws r (fun f u => Spelled r f.body.literals u) (parserParseSignature isNimStyle n) := by
  refine passesAfter stillValue fun name => passesAfter (stillExpect (by decide) (by decide)) fun _ => ?_
  refine passesAfter (stillExpect (by decide) (by decide)) fun _ => ?_
  refine passesAfter (stillExpect (by decide) (by decide)) fun _ => ?_
  refine passesAfter (passesIte (stillExpect (by decide) (by decide)) (stillExpect (by decide) (by decide))) fun _ => ?_
  refine passesAfter stillType fun kind => ?_
  exact passesFinish (⟨name, some (kind.getD .typeU32), [], ·⟩) (spellsBody n) (fun body => passesPure ⟨rfl, rfl⟩)
    fun body u spelled => spelled

variable (r) in
def SpellsFunction (found : Option ASTFunctionDef) (u : List τ) : Prop :=
  (found = none → u = []) ∧ ∀ f, found = some f → ∃ v, Spelled r f.body.literals v ∧ u = r.functionWord ++ v

theorem spellsFunction (n : Nat) : Draws r (SpellsFunction r) (parserParseFunction n) := by
  have keyword : Draws r (fun found u => u = if found.isSome then r.functionWord else [])
      (parserMatchOf [(.tokProc, true), (.tokFunc, true), (.tokFn, false)]) :=
    drawsMatchOf fun entry member p here => r.functionOpened p (here ▸ List.mem_map_of_mem member)
  refine passesBind keyword fun isNimStyle => ?_
  cases isNimStyle with
  | none =>
    refine passesAfter (stillError (by decide)) fun _ => passesPure fun u skipped => ⟨fun _ => ?_, by simp⟩
    simpa using skipped
  | some isNimStyle =>
    refine passesBind (spellsSignature isNimStyle n) fun f => passesPure fun v spelled u opened => ⟨by simp, ?_⟩
    rintro g same
    obtain rfl := Option.some.inj same
    exact ⟨v, spelled, by rw [opened, List.append_nil]; rfl⟩

/-! Peripherals -/

theorem fillsNumber {message : String} (missing : message ∈ numberMessages) :
    Draws r (fun value u => Filled r [value] u) (parserExpectNumber message) := by
  intro p value last ran
  by_cases number : p.current.type = .tokNumber
  · have kept : ReadsField (some p.current.value) (strtoull p.current.value).toUInt32 := by
      rintro text same
      obtain rfl := Option.some.inj same
      exact ⟨ParserSound.emittedNumber p.currentEmitted number, rfl⟩
    have taken (e : Event) : parserExpect .tokNumber message (p.note e) = (some (), (p.note e).advance) :=
      expectTaken message number
    rw [parserExpectNumber, bindStep (numeralTaken 32 number), bindStep (taken _)] at ran
    obtain ⟨same, rfl⟩ := Prod.mk.inj ran
    obtain rfl := Option.some.inj same
    exact ⟨_, r.fieldRead p number, [some p.current.value], (List.flatMap_singleton _ _).symm, .cons kept .nil⟩
  · have skipped : parserNumeral 32 p = (some (strtoull p.current.value), p) := if_neg number
    have unread (value : UInt32) : ReadsField none value := fun text same => by cases same
    rw [parserExpectNumber, bindStep skipped, bindStep (expectFailed message number)] at ran
    obtain ⟨same, rfl⟩ := Prod.mk.inj ran
    obtain rfl := Option.some.inj same
    exact ⟨_, r.fieldMissing p message missing, [none], (List.flatMap_singleton _ _).symm, .cons (unread _) .nil⟩

theorem fillsItems {α : Type} {numbers : α → List UInt32} (loop : Loop) {item : Parse α}
    (inner : Draws r (fun a u => Filled r (numbers a) u) item) (n : Nat) :
    Draws r (fun items u => Filled r (items.flatMap numbers) u) (parserItems loop item n) := by
  refine drawsItems (fun items u => Filled r (items.flatMap numbers) u) filledNone loop inner ?_ n
  intro items u a v before filled
  rw [List.flatMap_append, List.flatMap_singleton]
  exact before.append filled

theorem fillsField : Draws r (fun field u => Filled r field.numbers u) parserParseField := by
  have first : Draws r _ (parserExpectNumber "Expected start bit") := fillsNumber (by decide)
  have last : Draws r _ (parserExpectNumber "Expected end bit") := fillsNumber (by decide)
  refine passesAfter (stillExpect (by decide) (by decide)) fun _ => passesAfter stillValue fun name => ?_
  refine passesAfter (stillExpect (by decide) (by decide)) fun _ => ?_
  refine passesAfter (stillExpect (by decide) (by decide)) fun _ => ?_
  refine passesAfter (stillExpect (by decide) (by decide)) fun _ => passesBind first fun start => ?_
  refine passesAfter (stillExpect (by decide) (by decide)) fun _ => passesBind last fun stop => ?_
  refine passesAfter (stillExpect (by decide) (by decide)) fun _ => passesAfter (stillMatchOf (by decide)) fun access => ?_
  refine passesAfter (stillMatch (by decide)) fun _ => passesPure fun v second u first => ?_
  rw [List.append_nil]
  exact first.append second

theorem fillsRegister (n : Nat) : Draws r (fun reg u => Filled r reg.numbers u) (parserParseRegister n) := by
  have number : Draws r _ (parserExpectNumber "Expected offset value") := fillsNumber (by decide)
  refine passesAfter (stillExpect (by decide) (by decide)) fun _ => passesAfter stillValue fun name => ?_
  refine passesAfter (stillExpect (by decide) (by decide)) fun _ => ?_
  refine passesAfter (stillExpect (by decide) (by decide)) fun _ => passesAfter (stillMatchOf (by decide)) fun kind => ?_
  refine passesAfter (stillExpect (by decide) (by decide)) fun _ => passesBind number fun offset => ?_
  refine passesAfter (stillExpect (by decide) (by decide)) fun _ => passesBind (fillsItems _ fillsField n) fun fields => ?_
  refine passesAfter (stillExpect (by decide) (by decide)) fun _ => passesPure fun v fields u offset => ?_
  rw [List.append_nil]
  exact offset.append fields

theorem fillsPeripheral (n : Nat) {p : Parser} (here : p.current.type = .tokPeripheral) :
    DrawsAt r (fun periph u => ∃ v, Filled r periph.numbers v ∧ u = r.peripheralWord ++ v) (parserParsePeripheral n) p := by
  have opened (message : String) : DrawsAt r (fun _ u => u = r.peripheralWord) (parserExpect .tokPeripheral message) p := by
    intro a last ran
    rw [expectTaken message here] at ran
    obtain rfl : p.advance = last := (Prod.mk.inj ran).2
    exact ⟨_, r.peripheralOpened p here, rfl⟩
  have number : Draws r _ (parserExpectNumber "Expected base address") := fillsNumber (by decide)
  refine passesBindAt (opened _) fun _ =>
    passesWeaken (Q := fun periph v => Filled r periph.numbers v) ?_ fun _ v filled u word => ⟨v, filled, by rw [word]⟩
  refine passesAfter stillValue fun name => passesAfter (stillExpect (by decide) (by decide)) fun _ => ?_
  refine passesAfter (stillExpect (by decide) (by decide)) fun _ => passesBind number fun base => ?_
  refine passesAfter (stillExpect (by decide) (by decide)) fun _ => ?_
  refine passesBind (fillsItems _ (fillsRegister n) n) fun registers => ?_
  refine passesAfter (stillExpect (by decide) (by decide)) fun _ => passesPure fun v registers u base => ?_
  rw [List.append_nil]
  exact base.append registers

/-! Programs -/

/-- What holds of the program and the labels so far, and goes on with every definition. -/
theorem drawsProgram (Inv : ASTProgram → List τ → Prop) (start : Inv ⟨[], []⟩ [])
    (function : ∀ program u f v, Inv program u → Spelled r f.body.literals v →
      Inv { program with functions := program.functions ++ [f] } (u ++ (r.functionWord ++ v)))
    (peripheral : ∀ program u periph v, Inv program u → Filled r periph.numbers v →
      Inv { program with peripherals := program.peripherals ++ [periph] } (u ++ (r.peripheralWord ++ v))) (n : Nat) :
    Draws r Inv (parserParseProgram n) := by
  refine passesLoopFrom Inv start (fun program => ?_) n
  have leave : Draws r (fun out v => ∀ u, Inv program u → Sum.elim (fun next => Inv next (u ++ v))
      (fun result => Inv result (u ++ v)) out) (pure (.inr program) : Parse (ASTProgram ⊕ ASTProgram)) :=
    passesPure fun u before => by simpa using before
  refine passesAfter (stillCheck _) fun _ => passesIte leave ?_
  refine passesAfter (stillCheck _) fun _ => passesAfter (stillCheck _) fun _ => passesAfter (stillCheck _) fun _ => ?_
  refine passesIte ?_ (drawsCheckIte (fun p here => ?_) (passesAfter (stillError (by decide)) fun _ => leave))
  · refine passesBind (fun p => drawsTurnAt (spellsFunction n _)) fun found => ?_
    cases found with
    | none => exact passesPure fun v spelled u before => by simpa [spelled.1 rfl] using before
    | some f =>
      refine passesPure fun v spelled u before => ?_
      obtain ⟨w, body, rfl⟩ := spelled.2 f rfl
      rw [List.append_nil]
      exact function program u f w before body
  · refine passesBindAt (drawsTurnAt (fillsPeripheral n here)) fun periph => passesPure ?_
    rintro v ⟨w, filled, rfl⟩ u before
    rw [List.append_nil]
    exact peripheral program u periph w before filled

end reading

/-! The numerals left -/

theorem quietMarks {tok : Token} (quiet : Quiet tok.type) : tok.marks = [] := by
  unfold Token.marks
  split <;> simp_all [Quiet]

theorem marksCons {p : Parser} (more : p.current.type ≠ .tokEof) : p.marks = p.current.marks ++ p.advance.marks := by
  rw [Parser.marks, aheadCons more, List.flatMap_cons, Parser.marks]

theorem marksNumber {p : Parser} (number : p.current.type = .tokNumber) :
    p.marks = .number (strtoull p.current.value) :: p.advance.marks := by
  rw [marksCons (by simp [number]), Token.marks, number]
  rfl

/-- The marks of the tokens that are taken. -/
def marksTaken : Reading Mark where
  via := Taken Parser.marks
  passage := inferInstance
  literal text := .number (strtoull text)
  field slot := slot.toList.map fun text => .number (strtoull text)
  functionWord := [.function]
  peripheralWord := [.peripheral]
  advanced p quiet := by
    rw [Taken, marksCons fun ended => absurd (ended ▸ quiet) (by decide), quietMarks quiet]
  entered _ _ := rfl
  repeated _ _ _ := rfl
  failed _ _ _ := rfl
  literalRead _ number := marksNumber number
  fieldRead _ number := marksNumber number
  fieldMissing _ _ _ := rfl
  functionOpened p opened := by
    have more : p.current.type ≠ .tokEof := fun ended => absurd (ended ▸ opened) (by decide)
    rw [Taken, marksCons more, Token.marks]
    simp only [List.mem_cons, List.not_mem_nil, or_false] at opened
    rcases opened with here | here | here <;> rw [here]
  peripheralOpened p opened := by
    rw [Taken, marksCons (by simp [opened]), Token.marks, opened]

theorem operandsAppend (u : List Mark) (inFunction : Bool) :
    ∃ after, ∀ v, operands inFunction (u ++ v) = operands inFunction u ++ operands after v := by
  fun_induction operands inFunction u with
  | case1 inFunction => exact ⟨inFunction, fun v => rfl⟩
  | case2 inFunction marks ih => exact ih
  | case3 inFunction marks ih => exact ih
  | case4 value marks ih =>
    obtain ⟨after, split⟩ := ih
    exact ⟨after, fun v => congrArg (value :: ·) (split v)⟩
  | case5 inFunction value marks outside ih =>
    obtain ⟨after, split⟩ := ih
    exact ⟨after, fun v => (if_neg outside).trans (split v)⟩

theorem operandsFunction {values : List UInt64} {v : List Mark} (spelled : Spelled marksTaken values v) (u : List Mark)
    (inFunction : Bool) : operands inFunction (u ++ .function :: v) = operands inFunction u ++ values := by
  obtain ⟨texts, rfl, reads⟩ := spelled
  have inside : operands true (texts.map marksTaken.literal) = values := by
    induction reads with
    | nil => rfl
    | cons read _ ih => rw [List.map_cons, marksTaken, operands, if_pos rfl, read.2, ← ih, marksTaken]
  obtain ⟨after, split⟩ := operandsAppend u inFunction
  rw [split, operands, inside]

theorem operandsPeripheral {values : List UInt32} {v : List Mark} (filled : Filled marksTaken values v) (u : List Mark)
    (inFunction : Bool) : operands inFunction (u ++ .peripheral :: v) = operands inFunction u := by
  obtain ⟨slots, rfl, -⟩ := filled
  have outside : operands false (slots.flatMap marksTaken.field) = [] := by
    induction slots with
    | nil => rfl
    | cons slot slots ih =>
      cases slot with
      | none => exact ih
      | some text => exact ih
  obtain ⟨after, split⟩ := operandsAppend u inFunction
  rw [split, operands, outside, List.append_nil]

theorem marksProgram (n : Nat) :
    Draws marksTaken (fun program u => program.literals = operands false u) (parserParseProgram n) := by
  refine drawsProgram _ rfl (fun program u f v before spelled => ?_) (fun program u periph v before filled => ?_) n
  · refine Eq.trans ?_ (operandsFunction spelled u false).symm
    rw [ASTProgram.literals, List.flatMap_append, List.flatMap_singleton, ← before, ASTProgram.literals]
  · exact before.trans (operandsPeripheral filled u false).symm

theorem literalsFitting {input : Source} {program : ASTProgram} {p : Parser} (built : Parses input program p) :
    ∃ read, input.marks = read ++ p.marks ∧ (p.error = false → read = input.marks) ∧
      (program.LiteralsFit ↔ ∀ value ∈ operands false read, value.toNat < 2 ^ 32) := by
  obtain ⟨n, ran⟩ := built
  obtain ⟨read, cut, spelled⟩ := marksProgram n _ program p ran
  change (parserCreate input).marks = read ++ p.marks at cut
  have whole : (parserCreate input).marks = input.marks := by
    rw [Parser.marks, parserCreate, aheadWindow]
    rfl
  rw [whole] at cut
  refine ⟨read, cut, fun clear => ?_, ?_⟩
  · have ended : p.terminals lexeme = [] := (ParserDerives.programEnds ran).resolve_left (by simp [clear])
    have none : p.marks = [] := by rw [Parser.marks, List.map_eq_nil_iff.mp ended, List.flatMap_nil]
    rw [cut, none, List.append_nil]
  · unfold ASTProgram.LiteralsFit
    rw [spelled]
    exact ⟨fun fit value member => (fit value member typeContextCreate).2,
      fun small value member ctx => ⟨rfl, small value member⟩⟩

-- fn f()->u32{return 4294967295;}
def fittingSource : Source := ⟨"fn f()->u32\x7breturn 4294967295;\x7d".toList, by decide⟩

set_option maxRecDepth 4000 in
theorem largestFits : ASTProgram.LiteralsFit ⟨[⟨"f()->u32\x7breturn 4294967295;\x7d".toList, some .typeU32, [],
    .block [.ret (.number (.ofNat 4294967295))]⟩], []⟩ := by
  obtain ⟨read, -, whole, fits⟩ := @literalsFitting fittingSource _ (parseSource 12 fittingSource).2
    ⟨12, Prod.ext rfl rfl⟩
  have numerals : operands false fittingSource.marks = [.ofNat 4294967295] := by decide +kernel
  rw [whole (by decide), numerals] at fits
  refine fits.mpr fun value member => ?_
  obtain rfl := List.mem_singleton.mp member
  decide

-- fn f()->u32{return 4294967296;}
def wideSource : Source := ⟨"fn f()->u32\x7breturn 4294967296;\x7d".toList, by decide⟩

set_option maxRecDepth 4000 in
theorem wideAccepted : ∃ program p, Parses wideSource program p ∧ p.error = false ∧
    (checkProgramTypes typeContextCreate program).1 = true ∧ ¬ program.LiteralsFit := by
  refine ⟨⟨[⟨"f()->u32\x7breturn 4294967296;\x7d".toList, some .typeU32, [],
    .block [.ret (.number (.ofNat 4294967296))]⟩], []⟩, (parseSource 12 wideSource).2, ⟨12, Prod.ext rfl rfl⟩,
    by decide, rfl, fun fit => ?_⟩
  have small := (fit (.ofNat 4294967296) (by decide) typeContextCreate).2
  exact absurd small (by decide)

end ParserLiterals
end BitN

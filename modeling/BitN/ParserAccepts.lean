import BitN.ParserDerives

/-! The other direction: in front of a piece the grammar derives, followed by something its
phrase may be followed by, the routine returns its tree and leaves the flag as it was. -/
namespace BitN.ParserAccepts

open Run ParserRun ParserSound ParserDerives Grammar

def kind : Terminal CString → TokenType
  | .word _ => .tokIdentifier
  | .number _ => .tokNumber
  | .mark type => type

def headKind : List (Terminal CString) → TokenType
  | [] => .tokEof
  | s :: _ => kind s

theorem kindTerminal (tok : Token) : kind (tok.terminal lexeme) = tok.type := by
  unfold Token.terminal
  split <;> simp [kind, *]

theorem currentKind (p : Parser) : p.current.type = headKind (p.terminals lexeme) := by
  by_cases ended : p.current.type = .tokEof
  · rw [Parser.terminals, aheadEof.mpr ended, ended]
    rfl
  · rw [terminalsCons ended]
    exact (kindTerminal p.current).symm

theorem currentTerminal {p : Parser} {s : Terminal CString} {rest : List (Terminal CString)}
    (front : p.terminals lexeme = s :: rest) : p.current.terminal lexeme = s ∧ p.advance.terminals lexeme = rest := by
  have more : p.current.type ≠ .tokEof := by
    intro ended
    rw [Parser.terminals, aheadEof.mpr ended] at front
    cases front
  rw [terminalsCons more] at front
  exact List.cons.inj front

variable {α β : Type} {F G : List (Terminal CString) → Prop} {P : β → Prop} {Q : α → Prop}
  {s u v : List (Terminal CString)}

def Accepts (F : List (Terminal CString) → Prop) (Q : α → Prop) (s : List (Terminal CString)) (x : Parse α) : Prop :=
  ∀ p rest, p.terminals lexeme = s ++ rest → F rest →
    ∃ a last, x p = (some a, last) ∧ last.terminals lexeme = rest ∧ last.error = p.error ∧ Q a

theorem acceptsPure {a : α} (holds : Q a) : Accepts F Q [] (pure a : Parse α) :=
  fun p _ front _ => ⟨a, p, rfl, front, rfl, holds⟩

theorem acceptsBind {x : Parse β} {f : β → Parse α} (first : Accepts F P u x)
    (then_ : ∀ b, P b → Accepts G Q v (f b)) (follow : ∀ rest, G rest → F (v ++ rest)) :
    Accepts G Q (u ++ v) (x >>= f) := by
  intro p rest front allowed
  rw [List.append_assoc] at front
  obtain ⟨b, next, one, terminals, error, holds⟩ := first p (v ++ rest) front (follow rest allowed)
  obtain ⟨a, last, two, terminals', error', holds'⟩ := then_ b holds next rest terminals allowed
  exact ⟨a, last, by rw [bindStep one, two], terminals', error'.trans error, holds'⟩

theorem acceptsCheck {type : TokenType} {f : Bool → Parse α} (b : Bool)
    (known : ∀ rest, G rest → decide (headKind (s ++ rest) = type) = b) (then_ : Accepts G Q s (f b)) :
    Accepts G Q s (parserCheck type >>= f) := by
  intro p rest front allowed
  rw [bindCheck, currentKind, front, known rest allowed]
  exact then_ p rest front allowed

theorem acceptsAdvance {f : Unit → Parse α} {x : Terminal CString} (then_ : Accepts G Q v (f ())) :
    Accepts G Q (x :: v) (parserAdvance >>= f) := by
  intro p rest front allowed
  obtain ⟨a, last, ran, terminals, error, holds⟩ := then_ p.advance rest (currentTerminal front).2 allowed
  exact ⟨a, last, ran, terminals, error, holds⟩

theorem acceptsMatch {type : TokenType} {f : Bool → Parse α} {x : Terminal CString} (here : kind x = type)
    (then_ : Accepts G Q v (f true)) : Accepts G Q (x :: v) (parserMatch type >>= f) := by
  intro p rest front allowed
  have current : p.current.type = type := by rw [currentKind, front]; exact here
  rw [bindStep (matchTaken current)]
  exact acceptsAdvance (f := fun _ => f true) then_ p rest front allowed

theorem acceptsSkip {type : TokenType} {f : Bool → Parse α} (other : ∀ rest, G rest → headKind (s ++ rest) ≠ type)
    (then_ : Accepts G Q s (f false)) : Accepts G Q s (parserMatch type >>= f) := by
  intro p rest front allowed
  have current : p.current.type ≠ type := by rw [currentKind, front]; exact other rest allowed
  rw [bindStep (matchSkipped current)]
  exact then_ p rest front allowed

theorem acceptsExpect {type : TokenType} {message : String} {f : Unit → Parse α} {x : Terminal CString}
    (here : kind x = type) (then_ : Accepts G Q v (f ())) :
    Accepts G Q (x :: v) (parserExpect type message >>= f) := by
  intro p rest front allowed
  have current : p.current.type = type := by rw [currentKind, front]; exact here
  rw [bindStep (expectTaken message current)]
  exact acceptsAdvance (f := f) then_ p rest front allowed

theorem acceptsValue {f : CString → Parse α} {word : CString}
    (then_ : ∀ name, lexeme name = word → Accepts G Q (.word word :: v) (f name)) :
    Accepts G Q (.word word :: v) (parserValue >>= f) := by
  intro p rest front allowed
  have here := (currentTerminal front).1
  have current : p.current.type = .tokIdentifier := by rw [← kindTerminal, here]; rfl
  rw [terminalWord current] at here
  exact then_ p.current.value (Terminal.word.inj here) p rest front allowed

theorem acceptsNumeral {f : UInt64 → Parse α} {numeral : CString} (width : Nat)
    (then_ : Accepts G Q (.number numeral :: v) (f (strtoull numeral))) :
    Accepts G Q (.number numeral :: v) (parserNumeral width >>= f) := by
  intro p rest front allowed
  have here := (currentTerminal front).1
  have current : p.current.type = .tokNumber := by rw [← kindTerminal, here]; rfl
  rw [terminalNumber current] at here
  obtain ⟨e, read⟩ := numeralAt current width
  rw [bindStep read, Terminal.number.inj here]
  obtain ⟨a, last, ran, terminals, error, holds⟩ := then_ (p.note e) rest front allowed
  exact ⟨a, last, ran, terminals, error, holds⟩

theorem acceptsName {message : String} {f : CString → Parse α} {word : CString}
    (then_ : ∀ name, lexeme name = word → Accepts G Q v (f name)) :
    Accepts G Q (.word word :: v)
      (parserValue >>= fun name => parserExpect .tokIdentifier message >>= fun _ => f name) :=
  acceptsValue fun name same => acceptsExpect rfl (then_ name same)

theorem acceptsExpectNumber {message : String} {f : UInt32 → Parse α} {numeral : CString}
    (then_ : Accepts G Q v (f (numeral32 numeral))) :
    Accepts G Q (.number numeral :: v) (parserExpectNumber message >>= f) := by
  intro p rest front allowed
  have here := (currentTerminal front).1
  have current : p.current.type = .tokNumber := by rw [← kindTerminal, here]; rfl
  rw [terminalNumber current] at here
  obtain ⟨e, step⟩ := expectNumberTaken message current
  rw [bindStep step, Terminal.number.inj here]
  obtain ⟨a, last, ran, terminals, error, holds⟩ := then_ (p.note e).advance rest (currentTerminal front).2 allowed
  exact ⟨a, last, ran, terminals, error, holds⟩

theorem findListed {table : List (TokenType × β)} (distinct : (table.map Prod.fst).Nodup) {type : TokenType} {b : β}
    (listed : (type, b) ∈ table) : table.find? (fun entry => type = entry.1) = some (type, b) := by
  induction table with
  | nil => cases listed
  | cons entry others ih =>
    rw [List.map_cons, List.nodup_cons] at distinct
    rcases List.mem_cons.mp listed with rfl | later
    · simp
    · have other : type ≠ entry.1 := by
        rintro rfl
        exact distinct.1 (List.mem_map.mpr ⟨_, later, rfl⟩)
      rw [List.find?_cons_of_neg (by simpa using other)]
      exact ih distinct.2 later

theorem acceptsListed {table : List (TokenType × β)} {f : Option β → Parse α} {type : TokenType} {b : β}
    (distinct : (table.map Prod.fst).Nodup) (listed : (type, b) ∈ table) (then_ : Accepts G Q v (f (some b))) :
    Accepts G Q (.mark type :: v) (parserMatchOf table >>= f) := by
  intro p rest front allowed
  have current : p.current.type = type := by rw [currentKind, front]; rfl
  have lookup := matchOfApply table p
  rw [current, findListed distinct listed] at lookup
  rw [bindStep lookup]
  exact acceptsAdvance (f := fun _ => f (some b)) then_ p rest front allowed

theorem acceptsUnlisted {table : List (TokenType × β)} {f : Option β → Parse α}
    (other : ∀ rest, G rest → ∀ entry ∈ table, headKind (s ++ rest) ≠ entry.1) (then_ : Accepts G Q s (f none)) :
    Accepts G Q s (parserMatchOf table >>= f) := by
  intro p rest front allowed
  have current : p.current.type = headKind (s ++ rest) := by rw [currentKind, front]
  have lookup := matchOfApply table p
  have missing : table.find? (fun entry => p.current.type = entry.1) = none := by
    refine List.find?_eq_none.mpr fun entry member => ?_
    rw [current]
    simpa using other rest allowed entry member
  rw [missing] at lookup
  rw [bindStep lookup]
  exact then_ p rest front allowed

theorem acceptsChoice {table : List (TokenType × β)} {omitted b : β} {f : Option β → Parse α}
    {word : List (Terminal CString)} (chosen : Choice table omitted word b) (distinct : (table.map Prod.fst).Nodup)
    (other : ∀ rest, G rest → ∀ entry ∈ table, headKind (v ++ rest) ≠ entry.1)
    (then_ : ∀ found, found.getD omitted = b → Accepts G Q v (f found)) :
    Accepts G Q (word ++ v) (parserMatchOf table >>= f) := by
  cases chosen with
  | none => exact acceptsUnlisted other (then_ none rfl)
  | some listed => exact acceptsListed distinct listed (then_ (some b) rfl)

theorem acceptsSemicolon {f : Bool → Parse α} {ends : List (Terminal CString)} (shape : Semicolon ends)
    (other : ∀ rest, G rest → headKind (v ++ rest) ≠ .tokSemicolon) (then_ : ∀ b, Accepts G Q v (f b)) :
    Accepts G Q (ends ++ v) (parserMatch .tokSemicolon >>= f) := by
  cases shape with
  | none => exact acceptsSkip other (then_ false)
  | some => exact acceptsMatch rfl (then_ true)

theorem acceptsTurn {body : Parse β} (loop : Loop) (inner : Accepts F P s body) :
    Accepts F P s (parserTurn loop body) := by
  intro p rest front allowed
  obtain ⟨b, next, ran, terminals, error, holds⟩ := inner (p.note _) rest front allowed
  exact ⟨b, _, turnReturns ran, terminals, error, holds⟩

theorem acceptsItems {τ : Type} {f : β → τ} {item : Parse β} (loop : Loop) {pieces : List (Piece τ)}
    (each : ∀ q ∈ pieces, Accepts F (fun b => f b = q.2) q.1 item)
    (starts : ∀ q ∈ pieces, ∀ rest, headKind (q.1 ++ rest) ≠ .tokRbrace ∧ headKind (q.1 ++ rest) ≠ .tokEof ∧
      F (q.1 ++ rest))
    (closing : ∀ rest, headKind rest = .tokRbrace → F rest) {n : Nat} (enough : pieces.length < n) :
    Accepts (fun rest => headKind rest = .tokRbrace) (fun items => items.map f = trees pieces) (joined pieces)
      (parserItems loop item n) := by
  have run : ∀ acc, Accepts (fun rest => headKind rest = .tokRbrace)
      (fun items => items.map f = acc.map f ++ trees pieces) (joined pieces)
      (Run.loop (parserItem loop item) n acc) := by
    induction pieces generalizing n with
    | nil =>
      intro acc p rest front allowed
      obtain ⟨n, rfl⟩ := Nat.exists_eq_succ_of_ne_zero (by omega : n ≠ 0)
      have here : p.current.type = .tokRbrace := by rw [currentKind, front]; exact allowed
      refine ⟨acc, p, ?_, front, rfl, by simp [trees]⟩
      rw [Run.loop, bindStep (itemLeaves (.inl here))]
      rfl
    | cons q qs ih =>
      intro acc p rest front allowed
      obtain ⟨n, rfl⟩ := Nat.exists_eq_succ_of_ne_zero (by omega : n ≠ 0)
      have cut : p.terminals lexeme = q.1 ++ (joined qs ++ rest) := by
        rw [front, joined, List.map_cons, List.flatten_cons, List.append_assoc, joined]
      obtain ⟨brace, eof, -⟩ := starts q List.mem_cons_self (joined qs ++ rest)
      have follow : F (joined qs ++ rest) := by
        cases qs with
        | nil => exact closing rest allowed
        | cons r rs =>
          have next := (starts r (by simp) (joined rs ++ rest)).2.2
          rwa [← List.append_assoc, show r.1 ++ joined rs = joined (r :: rs) from rfl] at next
      rw [← cut, ← currentKind] at brace eof
      obtain ⟨a, next, ran, terminals, error, same⟩ :=
        acceptsTurn loop (each q List.mem_cons_self) p (joined qs ++ rest) cut follow
      have step : parserItem loop item acc p = (some (.inl (acc ++ [a])), next) := by
        rw [itemTurns brace eof, bindStep ran]
        rfl
      have tail := ih (fun r member => each r (List.mem_cons_of_mem _ member))
        (fun r member => starts r (List.mem_cons_of_mem _ member)) (n := n) (by simpa using enough)
      obtain ⟨items, last, later, terminals', error', same'⟩ := tail (acc ++ [a]) next rest terminals allowed
      refine ⟨items, last, ?_, terminals', error'.trans error, ?_⟩
      · rw [Run.loop, bindStep step]
        exact later
      · simp [same', trees, same]
  have all := run []
  simp only [List.map_nil, List.nil_append] at all
  exact all

/-! Peripherals -/

def AfterField (rest : List (Terminal CString)) : Prop := headKind rest = .tokField ∨ headKind rest = .tokRbrace

theorem acceptsField {piece : Piece ASTField} (derived : Field piece) :
    Accepts AfterField (fun f => f.renamed lexeme = piece.2) piece.1 parserParseField := by
  cases derived with
  | @field name start stop access word semicolon chosen ends =>
    refine acceptsExpect rfl (acceptsName fun raw same => acceptsExpect rfl (acceptsExpect rfl ?_))
    refine acceptsExpectNumber (acceptsExpect rfl (acceptsExpectNumber (acceptsExpect rfl ?_)))
    refine acceptsChoice chosen (by decide) (fun rest follow => ?_) fun found picked => ?_
    · have table : ∀ entry ∈ accesses, TokenType.tokSemicolon ≠ entry.1 ∧ TokenType.tokField ≠ entry.1 ∧
          TokenType.tokRbrace ≠ entry.1 := by decide
      intro entry member
      obtain ⟨semi, field, brace⟩ := table entry member
      cases ends with
      | none => rcases follow with here | here <;> rw [List.nil_append, here] <;> assumption
      | some => exact semi
    · have tail : Accepts AfterField
          (fun f : ASTField => f.renamed lexeme = ⟨name, numeral32 start, numeral32 stop, access⟩)
          (semicolon ++ []) (parserMatch .tokSemicolon >>= fun _ =>
            pure ⟨raw, numeral32 start, numeral32 stop, found.getD .accessRw⟩) := by
        refine acceptsSemicolon ends (fun rest follow => ?_) fun _ => acceptsPure ?_
        · rcases follow with here | here <;> rw [List.nil_append, here] <;> decide
        · rw [ASTField.renamed, same, picked]
      rwa [List.append_nil] at tail

theorem fieldStarts {piece : Piece ASTField} (derived : Field piece) (rest : List (Terminal CString)) :
    headKind (piece.1 ++ rest) = .tokField := by
  cases derived
  rfl

theorem registerStarts {piece : Piece ASTRegister} (derived : Register piece) (rest : List (Terminal CString)) :
    headKind (piece.1 ++ rest) = .tokRegister := by
  cases derived
  rfl

theorem joinedLength {τ : Type} {pieces : List (Piece τ)} (nonempty : ∀ q ∈ pieces, q.1 ≠ []) :
    pieces.length ≤ (joined pieces).length := by
  induction pieces with
  | nil => simp
  | cons q qs ih =>
    have first := List.length_pos_of_ne_nil (nonempty q List.mem_cons_self)
    have tail := ih fun r member => nonempty r (List.mem_cons_of_mem _ member)
    rw [show joined (q :: qs) = q.1 ++ joined qs from rfl]
    simp only [List.length_cons, List.length_append]
    omega

theorem pieceLength {τ : Type} {pieces : List (Piece τ)} {q : Piece τ} (member : q ∈ pieces) :
    q.1.length ≤ (joined pieces).length := by
  obtain ⟨before, after, rfl⟩ := List.append_of_mem member
  simp only [joined, List.map_append, List.map_cons, List.flatten_append, List.flatten_cons, List.length_append]
  omega

theorem acceptsRegister {piece : Piece ASTRegister} (derived : Register piece) {n : Nat} (enough : piece.1.length ≤ n) :
    Accepts (fun _ => True) (fun r => r.renamed lexeme = piece.2) piece.1 (parserParseRegister n) := by
  cases derived with
  | @register name kind word offset fields chosen each =>
    have count := joinedLength fun q member empty => by
      have start := fieldStarts (each q member) []
      rw [empty] at start
      cases start
    simp only [List.length_cons, List.length_append] at enough
    refine acceptsExpect rfl (acceptsName fun raw same => acceptsExpect rfl ?_)
    have unlisted : ∀ entry ∈ widthWords, TokenType.tokAt ≠ entry.1 := by decide
    refine acceptsChoice chosen (by decide) (fun _ _ => unlisted) fun found picked => ?_
    refine acceptsExpect rfl (acceptsExpectNumber (acceptsExpect rfl ?_))
    refine acceptsBind (acceptsItems .fields (F := AfterField) (fun q member => acceptsField (each q member))
      (fun q member rest => ?_) (fun rest => .inr) (by omega)) (fun read fields' => ?_) fun rest _ => rfl
    · rw [AfterField, fieldStarts (each q member)]
      simp
    · refine acceptsExpect rfl (acceptsPure ?_)
      rw [ASTRegister.renamed, same, picked, fields']

theorem acceptsPeripheral {piece : Piece ASTPeripheral} (derived : Peripheral piece) {n : Nat}
    (enough : piece.1.length ≤ n) :
    Accepts (fun _ => True) (fun p => p.renamed lexeme = piece.2) piece.1 (parserParsePeripheral n) := by
  cases derived with
  | @peripheral name base registers each =>
    have count := joinedLength fun q member empty => by
      have start := registerStarts (each q member) []
      rw [empty] at start
      cases start
    simp only [List.length_cons, List.length_append] at enough
    refine acceptsExpect rfl (acceptsName fun raw same => acceptsExpect rfl ?_)
    refine acceptsExpectNumber (acceptsExpect rfl ?_)
    refine acceptsBind (acceptsItems .registers (f := ASTRegister.renamed lexeme) (F := fun _ => True)
      (fun q member => ?_) (fun q member rest => ?_)
      (fun _ _ => trivial) (by omega)) (fun read registers' => ?_) fun rest _ => rfl
    · have part := pieceLength member
      exact acceptsRegister (each q member) (by omega)
    · rw [registerStarts (each q member)]
      simp
    · refine acceptsExpect rfl (acceptsPure ?_)
      rw [ASTPeripheral.renamed, same, registers']

/-! Programs -/

def Taken (n : Nat) (piece : Piece Definition) : Prop :=
  match piece.2 with
  | .function func => headKind piece.1 ∈ [.tokProc, .tokFunc, .tokFn] ∧
      Accepts (fun _ => True) (fun r => r.map (ASTFunctionDef.renamed lexeme) = some func) piece.1
        (parserParseFunction n)
  | .peripheral periph => headKind piece.1 = .tokPeripheral ∧
      Accepts (fun _ => True) (fun r => r.renamed lexeme = periph) piece.1 (parserParsePeripheral n)

theorem headAppend {s : List (Terminal CString)} (nonempty : headKind s ≠ .tokEof) (rest : List (Terminal CString)) :
    headKind (s ++ rest) = headKind s := by
  cases s with
  | nil => exact absurd rfl nonempty
  | cons x xs => rfl

theorem definitionTaken {n : Nat} {piece : Piece Definition} (taken : Taken n piece) {p : Parser}
    {rest : List (Terminal CString)} (front : p.terminals lexeme = piece.1 ++ rest) (program : ASTProgram) :
    ∃ next last, parserParseDefinition n program p = (some (.inl next), last) ∧ last.terminals lexeme = rest ∧
      last.error = p.error ∧ next.renamed lexeme =
        ⟨(program.renamed lexeme).functions ++ (collect [piece.2]).functions,
          (program.renamed lexeme).peripherals ++ (collect [piece.2]).peripherals⟩ := by
  obtain ⟨s, d⟩ := piece
  cases d with
  | function func =>
    obtain ⟨head, accepted⟩ := taken
    have current : p.current.type = headKind s := by
      rw [currentKind, front, headAppend]
      rintro ended
      rw [ended] at head
      simp at head
    have here : p.current.type = .tokProc ∨ p.current.type = .tokFunc ∨ p.current.type = .tokFn := by
      rw [current]
      simpa using head
    obtain ⟨r, last, ran, terminals, error, same⟩ := acceptsTurn .definitions accepted p rest front trivial
    obtain ⟨func', rfl, rfl⟩ := Option.map_eq_some_iff.mp same
    refine ⟨{ program with functions := program.functions ++ [func'] }, last, ?_, terminals, error,
      by simp [ASTProgram.renamed, collect]⟩
    have go : ((decide (p.current.type = .tokProc) || decide (p.current.type = .tokFunc)) ||
        decide (p.current.type = .tokFn)) = true := by simpa [or_assoc] using here
    have more : decide (p.current.type = .tokEof) = false := by rcases here with h | h | h <;> rw [h] <;> rfl
    simp only [parserParseDefinition, bindCheck, more, go, Bool.false_eq_true, if_false, if_true]
    rw [bindStep ran]
    rfl
  | peripheral periph =>
    obtain ⟨head, accepted⟩ := taken
    have current : p.current.type = .tokPeripheral := by
      rw [currentKind, front, headAppend]
      · exact head
      · simp only at head
        simp [head]
    obtain ⟨periph', last, ran, terminals, error, rfl⟩ := acceptsTurn .definitions accepted p rest front trivial
    refine ⟨{ program with peripherals := program.peripherals ++ [periph'] }, last, ?_, terminals, error,
      by simp [ASTProgram.renamed, collect]⟩
    simp only [parserParseDefinition, bindCheck, current, reduceCtorEq, decide_false, decide_true, Bool.or_self,
      Bool.false_eq_true, if_false, if_true]
    rw [bindStep ran]
    rfl

theorem acceptsProgram {definitions : List (Piece Definition)} {n m : Nat} (taken : ∀ d ∈ definitions, Taken n d)
    (enough : definitions.length < m) {p : Parser} (front : p.terminals lexeme = joined definitions)
      (program : ASTProgram) :
    ∃ result last, Run.loop (parserParseDefinition n) m program p = (some result, last) ∧ last.error = p.error ∧
      result.renamed lexeme = ⟨(program.renamed lexeme).functions ++ (collect (trees definitions)).functions,
        (program.renamed lexeme).peripherals ++ (collect (trees definitions)).peripherals⟩ := by
  induction definitions generalizing m p program with
  | nil =>
    obtain ⟨m, rfl⟩ := Nat.exists_eq_succ_of_ne_zero (by omega : m ≠ 0)
    have ended : p.current.type = .tokEof := by rw [currentKind, front]; rfl
    have step : parserParseDefinition n program p = (some (.inr program), p) := by
      simp [parserParseDefinition, bindCheck, ended]
    refine ⟨program, p, ?_, rfl, by simp [trees, collect]⟩
    rw [Run.loop, bindStep step]
    rfl
  | cons d ds ih =>
    obtain ⟨m, rfl⟩ := Nat.exists_eq_succ_of_ne_zero (by omega : m ≠ 0)
    obtain ⟨next, mid, step, terminals, error, grown⟩ :=
      definitionTaken (taken d List.mem_cons_self) (show p.terminals lexeme = d.1 ++ joined ds from front) program
    obtain ⟨result, last, later, error', same⟩ :=
      ih (fun e member => taken e (List.mem_cons_of_mem _ member)) (by simpa using enough) terminals next
    refine ⟨result, last, ?_, error'.trans error, ?_⟩
    · rw [Run.loop, bindStep step]
      exact later
    · have split : collect (trees (d :: ds)) =
          ⟨(collect [d.2]).functions ++ (collect (trees ds)).functions,
            (collect [d.2]).peripherals ++ (collect (trees ds)).peripherals⟩ := by
        rw [show trees (d :: ds) = d.2 :: trees ds from rfl]
        cases d.2 <;> simp [collect]
      rw [same, grown, split]
      simp

theorem parsesDefinitions {input : Source} {definitions : List (Piece Definition)}
    (taken : ∀ n, (joined definitions).length ≤ n → ∀ d ∈ definitions, Taken n d)
    (nonempty : ∀ d ∈ definitions, d.1 ≠ []) (same : input.terminals = joined definitions) :
    ∃ program p, Parses input program p ∧ p.error = false ∧ program.renamed lexeme = collect (trees definitions) := by
  have front : (parserCreate input).terminals lexeme = joined definitions := by
    rw [← same, Parser.terminals, parserCreate, aheadWindow]
    rfl
  have count := joinedLength nonempty
  obtain ⟨program, p, ran, error, built⟩ := acceptsProgram (n := (joined definitions).length + 1)
    (m := (joined definitions).length + 1) (taken _ (by omega)) (by omega) front ⟨[], []⟩
  refine ⟨program, p, ⟨(joined definitions).length + 1, ran⟩, error, ?_⟩
  rw [built]
  rfl

end BitN.ParserAccepts

import BitN.Printing
import BitN.SourceText

/-! Expressions written in the operators of the source, every operand in parentheses, and what
the lexer and the expression parser make of the text. -/
namespace BitN

def unarySpelling : UnaryOp → CString
  | .uopNeg => "-".toList
  | .uopNot => "!".toList
  | .uopBitNot => "~".toList

def binarySpelling : BinaryOp → CString
  | .bopAdd => "+".toList | .bopSub => "-".toList
  | .bopMul => "*".toList | .bopDiv => "/".toList | .bopMod => "%".toList
  | .bopAnd => "&".toList | .bopOr => "|".toList | .bopXor => "^".toList
  | .bopLshift => "<<".toList | .bopRshift => ">>".toList
  | .bopLrotate => "<<<".toList | .bopRrotate => ">>>".toList
  | .bopEq => "==".toList | .bopNe => "!=".toList
  | .bopLt => "<".toList | .bopGt => ">".toList | .bopLe => "<=".toList | .bopGe => ">=".toList

def parenthesised (s : CString) : CString := '(' :: (s ++ [')'])

def ASTExpr.source : ASTExpr → CString
  | .number value => decimal value.toNat
  | .identifier name => name
  | .string value => '"' :: (value ++ ['"'])
  | .boolean value => if value then "true".toList else "false".toList
  | .unaryOp op operand => unarySpelling op ++ parenthesised operand.source
  | .binaryOp op left right =>
      parenthesised left.source ++ (binarySpelling op ++ parenthesised right.source)
  | _ => []

inductive ASTExpr.Spellable : ASTExpr → Prop where
  | number (value) : Spellable (.number value)
  | identifier {name} (word : SourceText.Identifier name) : Spellable (.identifier name)
  | string {value} (body : Lexical.StringBody value) : Spellable (.string value)
  | boolean (value) : Spellable (.boolean value)
  | unaryOp (op) {operand} (inner : operand.Spellable) : Spellable (.unaryOp op operand)
  | binaryOp (op) {left right} (first : left.Spellable) (second : right.Spellable) :
      Spellable (.binaryOp op left right)

/-- No `~`, no rotate and no string literal. -/
def ASTExpr.Agreed : ASTExpr → Prop
  | .string _ => False
  | .unaryOp op operand => op ≠ .uopBitNot ∧ operand.Agreed
  | .binaryOp op left right => (op ≠ .bopLrotate ∧ op ≠ .bopRrotate) ∧ left.Agreed ∧ right.Agreed
  | _ => True

namespace Operators

open Run ParserRun ParserSound ParserDerives ParserAccepts ParserLadder Lexical LexerLayout Grammar SourceText

def ComesBack (θ : CString → CString) (input : Source) (tree : ASTExpr) : Prop :=
  ∃ fuel read p, parserParseExpression fuel (parserCreate input) = (some read, p) ∧ p.error = false ∧
    read.renamed θ = tree

/-! The tokens of the text -/

/-- What the lexer makes of a prefix operator: the two negations are one token. -/
def unaryKind : UnaryOp → TokenType
  | .uopNeg => .tokMinus
  | .uopNot | .uopBitNot => .tokNot

def grouped (entries : List (TokenType × CString)) : List (TokenType × CString) :=
  (.tokLparen, ['(']) :: (entries ++ [(.tokRparen, [')'])])

def entries : ASTExpr → List (TokenType × CString)
  | .number value => [(.tokNumber, decimal value.toNat)]
  | .identifier name => [(.tokIdentifier, name)]
  | .string value => [(.tokString, value)]
  | .boolean value => [if value then (.tokTrue, "true".toList) else (.tokFalse, "false".toList)]
  | .unaryOp op operand => (unaryKind op, unarySpelling op) :: grouped (entries operand)
  | .binaryOp op left right => grouped (entries left) ++ (binaryToken op, binarySpelling op) :: grouped (entries right)
  | _ => []

theorem unarySpelled (op : UnaryOp) : (unarySpelling op, unaryKind op) ∈ operators := by
  cases op <;> decide

theorem binarySpelled (op : BinaryOp) : (binarySpelling op, binaryToken op) ∈ operators := by
  cases op <;> decide

def paren (c : Char) : Prop := c = '(' ∨ c = ')'

theorem parenTable {c : Char} (isParen : paren c) :
    isWord c = false ∧ (∀ o ∈ operators, c ∈ o.1 → o.1 = [c]) ∧ c ≠ '/' ∧ c ≠ '*' := by
  rcases isParen with rfl | rfl <;> decide

theorem apartParen {s rest : CString} (nonempty : s ≠ []) (closed : ∀ c ∈ rest.head?, paren c) : Apart s rest := by
  intro c head
  obtain ⟨word, alone, slash, star⟩ := parenTable (closed c head)
  have last : ∀ d, s ++ [c] ≠ ['/', d] ∨ c = d := by
    intro d
    by_contra both
    obtain ⟨same, other⟩ := not_or.mp both
    have ends := congrArg List.getLast? (not_not.mp same)
    simp at ends
    exact other ends
  refine ⟨fun _ => word, fun o member pre => ?_, (last '/').resolve_right slash, (last '*').resolve_right star⟩
  have whole := alone o member (pre.subset (by simp))
  have width := pre.length_le
  rw [whole, List.length_append, List.length_singleton] at width
  exact nonempty (List.length_eq_zero_iff.mp (by omega))

theorem parenApart {c : Char} (isParen : paren c) (rest : CString) : Apart [c] rest := by
  intro d _
  obtain ⟨word, alone, slash, star⟩ := parenTable isParen
  refine ⟨fun last => ?_, fun o member pre => ?_, by simp [slash], by simp [slash]⟩
  · exact absurd last (by simp [word])
  · have whole := alone o member (pre.subset (by simp))
    have width := pre.length_le
    rw [whole] at width
    simp at width

theorem laidParen {c : Char} {type : TokenType} (isParen : paren c) (spelled : ([c], type) ∈ operators)
    {tail : List (TokenType × CString)} {rest : CString} (laid : Laid tail rest) :
    Laid ((type, [c]) :: tail) (c :: rest) :=
  .token .nil (.operator spelled) (parenApart isParen rest) laid

theorem laidBefore {s : CString} {entry : TokenType × CString} (spelling : Spelling s entry) (nonempty : s ≠ [])
    {tail : List (TokenType × CString)} {rest : CString} (closed : ∀ c ∈ rest.head?, paren c)
    (laid : Laid tail rest) : Laid (entry :: tail) (s ++ rest) :=
  .token .nil spelling (apartParen nonempty closed) laid

theorem laidGrouped {e : ASTExpr} (inner : ∀ {tail : List (TokenType × CString)} {rest : CString},
      (∀ c ∈ rest.head?, paren c) → Laid tail rest → Laid (entries e ++ tail) (e.source ++ rest))
    {tail : List (TokenType × CString)} {rest : CString} (laid : Laid tail rest) :
    Laid (grouped (entries e) ++ tail) (parenthesised e.source ++ rest) := by
  have closing : Laid ((.tokRparen, [')']) :: tail) (')' :: rest) := laidParen (.inr rfl) (by decide) laid
  have body := inner (by simp [paren]) closing
  unfold grouped parenthesised
  simp only [List.cons_append, List.append_assoc, List.nil_append]
  exact laidParen (.inl rfl) (by decide) body

theorem laidSource {e : ASTExpr} (spellable : e.Spellable) {tail : List (TokenType × CString)} {rest : CString}
    (closed : ∀ c ∈ rest.head?, paren c) (laid : Laid tail rest) : Laid (entries e ++ tail) (e.source ++ rest) := by
  have nonempty : ∀ o ∈ operators, o.1 ≠ [] := by decide
  induction spellable generalizing tail rest with
  | number value =>
    obtain ⟨c, cs, head, -⟩ := Numeral.leadingDigit value.toNat
    exact laidBefore (decimalSpelling _) (by rw [head]; exact List.cons_ne_nil c cs) closed laid
  | identifier word => exact laidBefore (identifierSpelling word) (wordAll word.1).1 closed laid
  | string body => exact laidBefore (.closed body) (List.cons_ne_nil _ _) closed laid
  | boolean value =>
    cases value with
    | true => exact laidBefore (keywordSpelling (by decide)) (by decide) closed laid
    | false => exact laidBefore (keywordSpelling (by decide)) (by decide) closed laid
  | unaryOp op inner ih =>
    unfold ASTExpr.source entries
    rw [List.append_assoc]
    exact laidBefore (.operator (unarySpelled op)) (nonempty _ (unarySpelled op)) (by simp [parenthesised, paren])
      (laidGrouped ih laid)
  | binaryOp op first second left right =>
    unfold ASTExpr.source entries
    rw [List.append_assoc, List.append_assoc, List.append_assoc]
    refine laidGrouped left ?_
    exact laidBefore (.operator (binarySpelled op)) (nonempty _ (binarySpelled op)) (by simp [parenthesised, paren])
      (laidGrouped right laid)

theorem laidInput {e : ASTExpr} (spellable : e.Spellable) {input : Source} (text : input.text = e.source) :
    Laid (entries e) input.text := by
  have laid := laidSource spellable (by simp) (.done .nil)
  rwa [List.append_nil, List.append_nil, ← text] at laid

/-! What the parser makes of the tokens -/

def readUnary : UnaryOp → UnaryOp
  | .uopBitNot => .uopNot
  | op => op

/-- The tree that is read: the negations have become one operator. -/
def merged : ASTExpr → ASTExpr
  | .unaryOp op operand => .unaryOp (readUnary op) (merged operand)
  | .binaryOp op left right => .binaryOp op (merged left) (merged right)
  | e => e

theorem mergedAgreed {e : ASTExpr} (agreed : e.Agreed) : merged e = e := by
  induction e with
  | unaryOp op operand ih =>
    unfold merged
    rw [ih agreed.2]
    cases op <;> first | rfl | exact absurd rfl agreed.1
  | binaryOp op left right ih ih' =>
    unfold merged
    rw [ih agreed.2.1, ih' agreed.2.2]
  | _ => rfl

theorem shapedAgreed {e : ASTExpr} (shaped : e.Shaped) : (merged e).Agreed := by
  induction shaped with
  | unaryOp op inner ih => exact ⟨by cases op <;> decide, ih⟩
  | binaryOp noRotate first second ih ih' => exact ⟨noRotate, ih, ih'⟩
  | _ => trivial

theorem groupedDerives {e : ASTExpr} {s : List (TokenType × CString)} (inner : Expr 0 (s.map terminal, e)) {k : Nat}
    (top : k ≤ 9) : Expr k ((grouped s).map terminal, e) := by
  unfold grouped
  rw [List.map_cons, List.map_append]
  exact Printing.exprLooser top (.group inner)

theorem entriesDerive {e : ASTExpr} (spellable : e.Spellable) (agreed : (merged e).Agreed) :
    Expr 0 ((entries e).map terminal, merged e) := by
  induction spellable with
  | number value =>
    have derived : Expr 9 ([.number (decimal value.toNat)], .number (strtoull (decimal value.toNat))) := .number
    rw [Numeral.strtoullDecimal] at derived
    exact Printing.exprLooser (Nat.zero_le 9) derived
  | identifier word => exact Printing.exprLooser (Nat.zero_le 9) .identifier
  | string body => exact agreed.elim
  | boolean value =>
    cases value with
    | true => exact Printing.exprLooser (Nat.zero_le 9) .true_
    | false => exact Printing.exprLooser (Nat.zero_le 9) .false_
  | unaryOp op inner ih =>
    have listed : (unaryKind op, readUnary op) ∈ prefixes := by cases op <;> decide
    have sign : terminal (unaryKind op, unarySpelling op) = .mark (unaryKind op) := by cases op <;> rfl
    unfold entries merged
    rw [List.map_cons, sign]
    exact Printing.exprLooser (Nat.zero_le 8) (.unary listed (groupedDerives (ih agreed.2) (by omega)))
  | binaryOp op first second left right =>
    have listed := Printing.binaryListed agreed.1
    have low := (levelRow listed).1
    have sign : terminal (binaryToken op, binarySpelling op) = .mark (binaryToken op) := by cases op <;> rfl
    unfold entries merged
    rw [List.map_append, List.map_cons, sign]
    exact Printing.exprLooser (Nat.zero_le _) (.binary listed (groupedDerives (left agreed.2.1) (by omega))
      (groupedDerives (right agreed.2.2) (by omega)))

theorem createTerminals (input : Source) (θ : CString → CString) :
    (parserCreate input).terminals θ = input.named θ := by
  unfold Parser.terminals parserCreate
  rw [aheadWindow]
  rfl

/-- Without rotates and strings the tree comes back with its negations merged. -/
theorem mergedComesBack {e : ASTExpr} (spellable : e.Spellable) {input : Source} (text : input.text = e.source)
    (agreed : (merged e).Agreed) : ComesBack lexeme input (merged e) := by
  have stream : (parserCreate input).terminals lexeme = (entries e).map terminal ++ [] := by
    rw [createTerminals, List.append_nil]
    exact laidTerminals (laidInput spellable text)
  have accepts := acceptsExpression (entriesDerive spellable agreed) (Nat.lt_succ_self _)
  have ended : Follow 0 [] := by
    refine ⟨nofun, fun j _ entry member => ?_⟩
    have table : ∀ row ∈ ladder, ∀ e ∈ row, TokenType.tokEof ≠ e.1 := by decide
    exact table _ (levelRow member).2 entry member
  obtain ⟨read, p, ran, -, error, same⟩ := accepts (parserCreate input) [] stream ended
  exact ⟨_, read, p, ran, error, same⟩

theorem expressionUnique {p last last' : Parser} {n m : Nat} {read read' : ASTExpr}
    (one : parserParseExpression n p = (some read, last)) (two : parserParseExpression m p = (some read', last')) :
    read = read' :=
  (chainUnique (R := fun p last => p.trace <:+ last.trace) belowExpression movesExpression one two).1

theorem comesBackUnique {θ : CString → CString} {input : Source} {tree tree' : ASTExpr}
    (one : ComesBack θ input tree) (two : ComesBack θ input tree') : tree = tree' := by
  obtain ⟨n, read, p, ran, -, rfl⟩ := one
  obtain ⟨m, read', p', ran', -, rfl⟩ := two
  rw [expressionUnique ran ran']

theorem comesBackDerives {θ : CString → CString} {input : Source} {tree : ASTExpr} (back : ComesBack θ input tree) :
    ∃ used, used <+: input.named θ ∧ Expr 0 (used, tree) := by
  obtain ⟨n, read, p, ran, clear, rfl⟩ := back
  obtain ⟨-, used, cut, derived⟩ := readsExpression n _ read p ran clear
  rw [createTerminals] at cut
  exact ⟨used, ⟨_, cut.symm⟩, derived⟩

theorem comesBackAgreed {e : ASTExpr} (spellable : e.Spellable) {input : Source} (text : input.text = e.source) :
    ComesBack lexeme input e ↔ e.Agreed := by
  constructor
  · intro back
    obtain ⟨used, -, derived⟩ := comesBackDerives back
    have agreed := shapedAgreed (Shape.exprShaped derived)
    rwa [← comesBackUnique back (mergedComesBack spellable text agreed)] at agreed
  · intro agreed
    have same := mergedAgreed agreed
    have back := mergedComesBack spellable text (same.symm ▸ agreed)
    rwa [same] at back

/-! Names as the tree carries them -/

theorem lexemeIdentifier {name : CString} (identifier : Identifier name) : lexeme name = name :=
  List.takeWhile_eq_self_iff.mpr (wordAll identifier.1).2

theorem spellableNames {e : ASTExpr} (spellable : e.Spellable) : ∀ name ∈ e.names, Identifier name := by
  induction spellable with
  | identifier word => simpa [ASTExpr.names] using word
  | unaryOp op inner ih => exact ih
  | binaryOp op first second left right =>
    unfold ASTExpr.names
    rw [List.forall_mem_append]
    exact ⟨left, right⟩
  | _ => simp [ASTExpr.names]

theorem renamedNames (θ : CString → CString) (e : ASTExpr) : (e.renamed θ).names = e.names.map θ := by
  induction e with
  | call func args ih each =>
    have args : (args.map (ASTExpr.renamed θ)).map ASTExpr.names = (args.map ASTExpr.names).map (List.map θ) := by
      rw [List.map_map, List.map_map]
      exact List.map_congr_left each
    unfold ASTExpr.renamed ASTExpr.names
    rw [List.map_append, ih, ASTExpr.renamedAllMap, ASTExpr.namesAllMap, ASTExpr.namesAllMap, args, List.map_flatten]
  | _ => simp_all [ASTExpr.renamed, ASTExpr.names]

theorem wordBefore {l : Lexer} {before after : List Token} {tok next : Token}
    (ahead : l.ahead = before ++ tok :: next :: after) (ident : tok.type = .tokIdentifier) :
    tok.value ≠ lexeme tok.value := by
  induction before generalizing l with
  | nil => exact Names.wordFollowed ahead ident
  | cons first before ih => exact ih (Names.aheadCons ahead).2.2

theorem entriesEnd {e : ASTExpr} (spellable : e.Spellable) :
    e.names = [] ∨ (∃ name, e = .identifier name) ∨ ∃ front, entries e = front ++ [(.tokRparen, [')'])] := by
  cases spellable with
  | identifier word => exact .inr (.inl ⟨_, rfl⟩)
  | unaryOp op inner => exact .inr (.inr ⟨_ :: _ :: _, rfl⟩)
  | @binaryOp op left right first second =>
    refine .inr (.inr ⟨grouped (entries left) ++
      (binaryToken op, binarySpelling op) :: (.tokLparen, ['(']) :: entries right, ?_⟩)
    exact (List.append_assoc (grouped (entries left)) (_ :: _ :: entries right) [_]).symm
  | _ => exact .inl rfl

theorem rawWords {e : ASTExpr} {input : Source} (back : ComesBack id input e) :
    ∀ name ∈ e.names, name ∈ words (input.named id) := by
  intro name member
  obtain ⟨used, part, derived⟩ := comesBackDerives back
  have among : name ∈ words used := Names.exprNames derived ▸ member
  exact (part.sublist.filterMap _).subset among

theorem rawNames {e : ASTExpr} (spellable : e.Spellable) {input : Source} (text : input.text = e.source)
    (back : ComesBack id input e) : e.names = [] ∨ ∃ name, e = .identifier name := by
  rcases entriesEnd spellable with none | single | ⟨front, ends⟩
  · exact .inl none
  · exact .inr single
  refine .inl (List.eq_nil_iff_forall_not_mem.mpr fun name member => ?_)
  obtain ⟨_, among, named⟩ := List.mem_filterMap.mp (rawWords back name member)
  obtain ⟨tok, token, rfl⟩ := List.mem_map.mp among
  have word : tok.terminal id = .word name := by
    cases shape : tok.terminal id <;> simp_all [Terminal.name?]
  obtain ⟨ident, rfl⟩ := Names.terminalWord word
  have tokens := tokensLaid (laidInput spellable text)
  obtain ⟨before, after, cut⟩ := List.append_of_mem token
  rw [cut, ends, List.map_append, List.map_cons] at tokens
  cases after with
  | nil =>
    have last := congrArg (fun l => l.getLast?.map Prod.fst) tokens
    simp [Token.entry, ident] at last
  | cons next after =>
    exact wordBefore cut ident (lexemeIdentifier (spellableNames spellable _ member)).symm

theorem rawComesBack {e : ASTExpr} (spellable : e.Spellable) {input : Source} (back : ComesBack id input e) :
    ComesBack lexeme input e := by
  obtain ⟨fuel, read, p, ran, clear, rfl⟩ := back
  rw [ASTExpr.renamedId] at spellable ⊢
  exact ⟨fuel, read, p, ran, clear,
    ASTExpr.renamedSame fun name member => lexemeIdentifier (spellableNames spellable name member)⟩

theorem namelessRaw {e : ASTExpr} {input : Source} (none : e.names = []) (back : ComesBack lexeme input e) :
    ComesBack id input e := by
  obtain ⟨fuel, read, p, ran, clear, rfl⟩ := back
  rw [renamedNames, List.map_eq_nil_iff] at none
  refine ⟨fuel, read, p, ran, clear, ?_⟩
  rw [ASTExpr.renamedId, ASTExpr.renamedSame]
  simp [none]

theorem singleRaw {name : CString} {input : Source} (text : input.text = name)
    (back : ComesBack lexeme input (.identifier name)) : ComesBack id input (.identifier name) := by
  obtain ⟨fuel, read, p, ran, clear, same⟩ := back
  obtain ⟨raw, rfl, short⟩ : ∃ raw, read = .identifier raw ∧ lexeme raw = name := by
    cases read <;> simp_all [ASTExpr.renamed]
  have back : ComesBack id input (.identifier raw) := ⟨fuel, _, p, ran, clear, rfl⟩
  have inside := rawWords back raw (List.mem_singleton_self raw)
  have width : raw.length ≤ input.text.length := Names.rawShorter (lexerCreate input) raw inside
  have pre : name <+: raw := short ▸ List.takeWhile_prefix isWord
  rw [text] at width
  obtain rfl := pre.eq_of_length_le width
  exact back

/-- What is written comes back exactly when it has no `~`, no rotate and no string literal; with
names as the tree carries them, besides, when no name is an operand. -/
theorem operatorsComeBack {e : ASTExpr} (spellable : e.Spellable) {input : Source} (text : input.text = e.source) :
    (ComesBack lexeme input e ↔ e.Agreed) ∧
    (ComesBack id input e ↔ e.Agreed ∧ (e.names = [] ∨ ∃ name, e = .identifier name)) ∧
    ∀ {e' : ASTExpr} {input' : Source}, e'.Spellable → input'.text = e'.source → (merged e).Agreed →
      (merged e').Agreed →
        ((∃ tree, ComesBack lexeme input tree ∧ ComesBack lexeme input' tree) ↔ merged e = merged e') := by
  have lexemes := comesBackAgreed spellable text
  refine ⟨lexemes, ⟨fun back => ?_, ?_⟩, fun {e' input'} spellable' text' agreed agreed' => ?_⟩
  · exact ⟨lexemes.mp (rawComesBack spellable back), rawNames spellable text back⟩
  · rintro ⟨agreed, none | ⟨name, rfl⟩⟩
    · exact namelessRaw none (lexemes.mpr agreed)
    · exact singleRaw text (lexemes.mpr agreed)
  · have back := mergedComesBack spellable text agreed
    have back' := mergedComesBack spellable' text' agreed'
    constructor
    · rintro ⟨tree, one, two⟩
      exact (comesBackUnique back one).trans (comesBackUnique two back')
    · intro same
      exact ⟨merged e, back, same ▸ back'⟩

-- -((x) ^ (true))
def signedTree : ASTExpr := .unaryOp .uopNeg (.binaryOp .bopXor (.identifier "x".toList) (.boolean true))

def signedSource : Source := ⟨"-((x)^(true))".toList, by decide⟩

theorem signedComesBack : ComesBack lexeme signedSource signedTree := by
  have word : Identifier "x".toList := ⟨⟨'x', [], rfl, .inl (by decide), by simp⟩, by decide⟩
  have spellable : signedTree.Spellable := .unaryOp _ (.binaryOp _ (.identifier word) (.boolean true))
  exact (@operatorsComeBack _ spellable signedSource rfl).1.mpr ⟨by decide, by decide, trivial, trivial⟩

-- ~(1)
def invertedTree : ASTExpr := .unaryOp .uopBitNot (.number 1)

def invertedSource : Source := ⟨"~(1)".toList, by decide⟩

-- !(1)
def deniedTree : ASTExpr := .unaryOp .uopNot (.number 1)

def deniedSource : Source := ⟨"!(1)".toList, by decide⟩

-- (1)<<<(2)
def rotatedTree : ASTExpr := .binaryOp .bopLrotate (.number 1) (.number 2)

def rotatedSource : Source := ⟨"(1)<<<(2)".toList, by decide⟩

theorem invertedDenied :
    (invertedSource.text = invertedTree.source ∧ ¬ ComesBack lexeme invertedSource invertedTree) ∧
    (deniedSource.text = deniedTree.source ∧ invertedTree ≠ deniedTree ∧
      ∃ tree, ComesBack lexeme invertedSource tree ∧ ComesBack lexeme deniedSource tree) ∧
    (rotatedSource.text = rotatedTree.source ∧ ¬ ComesBack lexeme rotatedSource rotatedTree) := by
  have inverted : invertedTree.Spellable := .unaryOp _ (.number 1)
  have denied : deniedTree.Spellable := .unaryOp _ (.number 1)
  have rotated : rotatedTree.Spellable := .binaryOp _ (.number 1) (.number 2)
  refine ⟨⟨rfl, fun back => ?_⟩, ⟨rfl, nofun, deniedTree, ?_, ?_⟩, rfl, fun back => ?_⟩
  · exact absurd rfl ((comesBackAgreed inverted rfl).mp back).1
  · exact mergedComesBack inverted rfl ⟨by decide, trivial⟩
  · exact mergedComesBack denied rfl ⟨by decide, trivial⟩
  · exact absurd rfl ((comesBackAgreed rotated rfl).mp back).1.1

end Operators
end BitN

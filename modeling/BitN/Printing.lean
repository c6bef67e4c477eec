import BitN.Flatten
import BitN.ParserLadder
import BitN.Shape

/-! Printing a function as tokens, with parentheses only where the ladder needs them, and
parsing the tokens: the same function comes back. -/
namespace BitN

def binaryLevel (op : BinaryOp) : Nat := Grammar.ladder.findIdx fun row => row.any fun entry => entry.2 = op

def bracketed (required : Prop) [Decidable required] (s : List (Terminal CString)) : List (Terminal CString) :=
  if required then .mark .tokLparen :: (s ++ [.mark .tokRparen]) else s

mutual
/-- The tokens of an expression that stands where one of level `k` is read. -/
def ASTExpr.print (k : Nat) : ASTExpr → List (Terminal CString)
  | .number value => [.number (decimal value.toNat)]
  | .identifier name => [.word name]
  | .boolean value => [.mark (if value then .tokTrue else .tokFalse)]
  | .unaryOp op operand => bracketed (8 < k) (.mark (unaryToken op) :: operand.print 8)
  | .binaryOp op left right => bracketed (binaryLevel op < k)
      (left.print (binaryLevel op) ++ .mark (binaryToken op) :: right.print (binaryLevel op + 1))
  | .call func args => func.print 9 ++ .mark .tokLparen ::
      ([Terminal.mark .tokComma].intercalate (ASTExpr.printAll args) ++ [.mark .tokRparen])
  | _ => []
def ASTExpr.printAll : List ASTExpr → List (List (Terminal CString))
  | [] => []
  | e :: es => e.print 0 :: ASTExpr.printAll es
end

mutual
def ASTStmt.print : ASTStmt → List (Terminal CString)
  | .varDecl name type init isMut => .mark (if isMut then .tokVar else .tokLet) :: .word name :: .mark .tokColon ::
      (typeTerminals type ++ .mark .tokAssign :: (init.print 0 ++ [.mark .tokSemicolon]))
  | .expr e => e.print 0 ++ [.mark .tokSemicolon]
  | .ret value => .mark .tokReturn :: (value.print 0 ++ [.mark .tokSemicolon])
  | .block statements => .mark .tokLbrace :: ((ASTStmt.printAll statements).flatten ++ [.mark .tokRbrace])
  | _ => []
def ASTStmt.printAll : List ASTStmt → List (List (Terminal CString))
  | [] => []
  | s :: ss => s.print :: ASTStmt.printAll ss
end

def ASTFunctionDef.print (func : ASTFunctionDef) : List (Terminal CString) :=
  .mark .tokFn :: .word func.name :: .mark .tokLparen :: .mark .tokRparen :: .mark .tokArrow ::
    (typeTerminals func.returnType ++ func.body.print)

@[simp] theorem ASTExpr.printAllMap (es : List ASTExpr) : ASTExpr.printAll es = es.map (ASTExpr.print 0) := by
  induction es with
  | nil => rfl
  | cons e es ih => rw [ASTExpr.printAll, ih, List.map_cons]

@[simp] theorem ASTStmt.printAllMap (ss : List ASTStmt) : ASTStmt.printAll ss = ss.map ASTStmt.print := by
  induction ss with
  | nil => rfl
  | cons s ss ih => rw [ASTStmt.printAll, ih, List.map_cons]

namespace Printing

open ParserSound ParserAccepts ParserLadder Grammar

/-! Expressions -/

theorem binaryListed {op : BinaryOp} (noRotate : op ≠ .bopLrotate ∧ op ≠ .bopRrotate) :
    (binaryToken op, op) ∈ level (binaryLevel op) := by
  cases op <;> first | decide | simp at noRotate

theorem unaryListed (op : UnaryOp) : (unaryToken op, op) ∈ prefixes := by
  cases op <;> decide

theorem typeListed (kind : TypeKind) : (typeToken kind, kind) ∈ types := by
  cases kind <;> decide

theorem exprLooser {k j : Nat} {piece : Piece ASTExpr} (above : k ≤ j) (derived : Expr j piece) : Expr k piece := by
  obtain ⟨d, rfl⟩ := Nat.exists_eq_add_of_le above
  induction d with
  | zero => exact derived
  | succ d ih => exact ih (by omega) (.tighter derived)

theorem exprBracketed {k j : Nat} {s : List (Terminal CString)} {e : ASTExpr} (top : k ≤ 9) (derived : Expr j (s, e)) :
    Expr k (bracketed (j < k) s, e) := by
  rw [bracketed]
  split_ifs with lower
  · exact exprLooser top (.group (exprLooser (Nat.zero_le j) derived))
  · exact exprLooser (Nat.le_of_not_lt lower) derived

theorem printDerives {e : ASTExpr} (shaped : e.Shaped) {k : Nat} (top : k ≤ 9) : Expr k (e.print k, e) := by
  induction shaped generalizing k with
  | number value =>
    have numeral : Expr 9 ([.number (decimal value.toNat)], .number value) := by
      have derived : Expr 9 ([.number (decimal value.toNat)], .number (strtoull (decimal value.toNat))) := .number
      rwa [Numeral.strtoullDecimal] at derived
    exact exprLooser top numeral
  | identifier name => exact exprLooser top .identifier
  | boolean value =>
    cases value with
    | true => exact exprLooser top .true_
    | false => exact exprLooser top .false_
  | unaryOp op inner ih => exact exprBracketed top (.unary (unaryListed op) (ih (by omega)))
  | @binaryOp op left right noRotate first second first' second' =>
    have listed := binaryListed noRotate
    have low := (levelRow listed).1
    exact exprBracketed top (.binary listed (first' (by omega)) (second' (by omega)))
  | @call name args each ih =>
    have derived : Expr 9 (.word name :: .mark .tokLparen ::
        (separated (args.map fun a => (a.print 0, a)) ++ [.mark .tokRparen]),
        .call (.identifier name) (trees (args.map fun a => (a.print 0, a)))) := by
      refine .call fun piece member => ?_
      obtain ⟨a, inside, rfl⟩ := List.mem_map.mp member
      exact ih a inside (by omega)
    have commas : separated (args.map fun a => (a.print 0, a)) =
        [Terminal.mark .tokComma].intercalate (ASTExpr.printAll args) := by
      rw [separated, List.map_map, ASTExpr.printAllMap]
      rfl
    have same : trees (args.map fun a => (a.print 0, a)) = args := by
      rw [trees, List.map_map]
      exact List.map_id _
    rw [commas, same] at derived
    exact exprLooser top derived

/-! Statements -/

section statements
variable {G : List (Terminal CString) → Prop} {n : Nat}

theorem acceptsEnded {α : Type} {Q : α → Prop} {e : ASTExpr} (shaped : e.Shaped)
    (enough : (e.print 0).length < n) {build : ASTExpr → α} (built : ∀ read, read.renamed lexeme = e → Q (build read)) :
    Accepts G Q (e.print 0 ++ [.mark .tokSemicolon]) (parserParseExpression n >>= fun read =>
      parserMatch .tokSemicolon >>= fun _ => pure (build read)) := by
  refine acceptsBind (acceptsExpression (printDerives shaped (by omega)) enough) (fun read same => ?_) fun rest _ => ?_
  · exact acceptsMatch rfl (acceptsPure (built read same))
  · exact followClosed rfl (.inr (.inr rfl)) 0

theorem acceptsType {kind : TypeKind} :
    Accepts (fun _ => True) (fun read => read = some kind) (typeTerminals (some kind)) parserParseType :=
  acceptsListed (by decide) (typeListed kind) (acceptsPure rfl)

theorem acceptsDeclaration {name : CString} {kind : TypeKind} {isMut : Bool} {init : ASTExpr}
    (shaped : init.Shaped) (enough : (init.print 0).length < n) :
    Accepts G (fun s => s.renamed lexeme = .varDecl name (some kind) init isMut)
      (ASTStmt.varDecl name (some kind) init isMut).print (parserParseDeclaration (parserParseExpression n) isMut) := by
  refine acceptsAdvance (acceptsName fun raw same => acceptsExpect rfl ?_)
  refine acceptsBind acceptsType (fun read found => ?_) fun _ _ => trivial
  subst found
  refine acceptsCheck true (fun _ _ => rfl) (acceptsCheck false (fun _ _ => rfl) (acceptsAdvance ?_))
  refine acceptsEnded shaped enough fun read known => ?_
  rw [ASTStmt.renamed, same, known]

theorem printStarts {e : ASTExpr} (shaped : e.Shaped) {type : TokenType} (other : type ∉ expressionStarts)
    (rest : List (Terminal CString)) : decide (headKind (e.print 0 ++ rest) = type) = false := by
  have head := exprHead (printDerives shaped (k := 0) (by omega))
  rw [headAppend, decide_eq_false]
  · rintro rfl
    exact other head
  · intro ended
    rw [ended] at head
    exact absurd head (by decide)

theorem acceptsBareReturn : Accepts G (fun s => s.renamed lexeme = .ret .null) [.mark .tokSemicolon]
    (parserParseReturn (parserParseExpression n)) := by
  refine acceptsCheck true (fun _ _ => rfl) (acceptsCheck false (fun _ _ => rfl)
    (acceptsCheck false (fun _ _ => rfl) ?_))
  exact acceptsMatch rfl (acceptsPure rfl)

theorem acceptsReturn {e : ASTExpr} (shaped : e.Shaped) (enough : (e.print 0).length < n) :
    Accepts G (fun s => s.renamed lexeme = .ret e) (e.print 0 ++ [.mark .tokSemicolon])
      (parserParseReturn (parserParseExpression n)) := by
  have start {type : TokenType} (other : type ∉ expressionStarts) (rest : List (Terminal CString)) (_ : G rest) :
      decide (headKind (e.print 0 ++ [.mark .tokSemicolon] ++ rest) = type) = false := by
    rw [List.append_assoc]
    exact printStarts shaped other _
  refine acceptsCheck false (start (by decide)) (acceptsCheck false (start (by decide)) ?_)
  refine acceptsCheck false (start (by decide)) (acceptsEnded shaped enough fun read known => ?_)
  rw [ASTStmt.renamed, known]

theorem acceptsBlock {ss : List ASTStmt} {statement : Parse ASTStmt}
    (each : ∀ s ∈ ss, Accepts (fun _ => True) (fun read => read.renamed lexeme = s) s.print statement)
    (starts : ∀ s ∈ ss, ∀ rest, headKind (s.print ++ rest) ≠ .tokRbrace ∧ headKind (s.print ++ rest) ≠ .tokEof)
    (enough : ss.length < n) :
    Accepts G (fun read => read.renamed lexeme = .block ss) (ASTStmt.block ss).print
      (parserParseBlock statement n) := by
  have pieces : joined (ss.map fun s => (s.print, s)) = (ASTStmt.printAll ss).flatten := by
    rw [joined, List.map_map, ASTStmt.printAllMap]
    rfl
  have same : trees (ss.map fun s => (s.print, s)) = ss := by
    rw [trees, List.map_map]
    exact List.map_id _
  have items : Accepts (fun rest => headKind rest = .tokRbrace)
      (fun read => read.map (ASTStmt.renamed lexeme) = trees (ss.map fun s => (s.print, s)))
      (joined (ss.map fun s => (s.print, s))) (parserItems .statements statement n) := by
    refine acceptsItems (F := fun _ => True) .statements (fun q member => ?_) (fun q member rest => ?_)
      (fun _ _ => trivial) (by simpa using enough)
    · obtain ⟨s, inside, rfl⟩ := List.mem_map.mp member
      exact each s inside
    · obtain ⟨s, inside, rfl⟩ := List.mem_map.mp member
      exact ⟨(starts s inside rest).1, (starts s inside rest).2, trivial⟩
  rw [pieces, same] at items
  refine acceptsMatch rfl (acceptsBind items (fun read known => acceptsExpect rfl (acceptsPure ?_)) fun _ _ => rfl)
  rw [ASTStmt.renamed, ASTStmt.renamedAllMap, known]

theorem stmtStarts {s : ASTStmt} (shaped : s.Shaped) (rest : List (Terminal CString)) :
    headKind (s.print ++ rest) ≠ .tokRbrace ∧ headKind (s.print ++ rest) ≠ .tokEof := by
  cases shaped with
  | varDecl name kind isMut value => cases isMut <;> exact ⟨nofun, nofun⟩
  | @expr e value =>
    rw [ASTStmt.print, List.append_assoc]
    exact ⟨of_decide_eq_false (printStarts value (by decide) _), of_decide_eq_false (printStarts value (by decide) _)⟩
  | _ => exact ⟨nofun, nofun⟩

theorem printMember {ss : List ASTStmt} {s : ASTStmt} (member : s ∈ ss) :
    s.print.length ≤ (ASTStmt.printAll ss).flatten.length := by
  obtain ⟨before, after, rfl⟩ := List.append_of_mem member
  simp only [ASTStmt.printAllMap, List.map_append, List.map_cons, List.flatten_append, List.flatten_cons,
    List.length_append]
  omega

theorem printCount {ss : List ASTStmt} (shaped : ∀ s ∈ ss, s.Shaped) :
    ss.length ≤ (ASTStmt.printAll ss).flatten.length := by
  induction ss with
  | nil => simp
  | cons s ss ih =>
    have tail := ih fun t member => shaped t (List.mem_cons_of_mem _ member)
    have nonempty : s.print ≠ [] := by
      intro empty
      have start := (stmtStarts (shaped s List.mem_cons_self) []).2
      rw [empty] at start
      exact start rfl
    have first := List.length_pos_of_ne_nil nonempty
    simp only [ASTStmt.printAll, List.flatten_cons, List.length_append, List.length_cons]
    omega

theorem acceptsStatement {s : ASTStmt} (shaped : s.Shaped) {n : Nat} (enough : s.print.length < n) :
    Accepts (fun _ => True) (fun read => read.renamed lexeme = s) s.print (parserParseStatement n) := by
  induction shaped generalizing n with
  | @varDecl name kind isMut init value =>
    obtain ⟨n, rfl⟩ := Nat.exists_eq_succ_of_ne_zero (by omega : n ≠ 0)
    have fuel : (init.print 0).length < n := by
      simp only [ASTStmt.print, List.length_cons, List.length_append] at enough
      omega
    cases isMut with
    | false =>
      refine acceptsCheck true (fun _ _ => rfl) (acceptsCheck false (fun _ _ => rfl)
        (acceptsCheck false (fun _ _ => rfl) ?_))
      exact acceptsDeclaration value fuel
    | true =>
      refine acceptsCheck false (fun _ _ => rfl) (acceptsCheck true (fun _ _ => rfl)
        (acceptsCheck true (fun _ _ => rfl) ?_))
      exact acceptsDeclaration value fuel
  | @expr e value =>
    obtain ⟨n, rfl⟩ := Nat.exists_eq_succ_of_ne_zero (by omega : n ≠ 0)
    have fuel : (e.print 0).length < n := by
      simp only [ASTStmt.print, List.length_append, List.length_cons] at enough
      omega
    have start {type : TokenType} (other : type ∉ expressionStarts) (rest : List (Terminal CString)) (_ : True) :
        decide (headKind ((ASTStmt.expr e).print ++ rest) = type) = false := by
      rw [ASTStmt.print, List.append_assoc]
      exact printStarts value other _
    refine acceptsCheck false (start (by decide)) (acceptsCheck false (start (by decide)) ?_)
    refine acceptsSkip (fun rest allowed => of_decide_eq_false (start (by decide) rest allowed)) ?_
    refine acceptsCheck false (start (by decide)) (acceptsEnded value fuel fun read known => ?_)
    rw [ASTStmt.renamed, known]
  | ret =>
    obtain ⟨n, rfl⟩ := Nat.exists_eq_succ_of_ne_zero (by omega : n ≠ 0)
    refine acceptsCheck false (fun _ _ => rfl) (acceptsCheck false (fun _ _ => rfl) (acceptsMatch rfl ?_))
    exact acceptsBareReturn
  | @retValue e value =>
    obtain ⟨n, rfl⟩ := Nat.exists_eq_succ_of_ne_zero (by omega : n ≠ 0)
    have fuel : (e.print 0).length < n := by
      simp only [ASTStmt.print, List.length_append, List.length_cons] at enough
      omega
    refine acceptsCheck false (fun _ _ => rfl) (acceptsCheck false (fun _ _ => rfl) (acceptsMatch rfl ?_))
    exact acceptsReturn value fuel
  | @block ss each ih =>
    obtain ⟨n, rfl⟩ := Nat.exists_eq_succ_of_ne_zero (by omega : n ≠ 0)
    have count := printCount each
    simp only [ASTStmt.print, List.length_cons, List.length_append] at enough
    have brace : TokenType.tokLbrace ≠ .tokReturn := by decide
    refine acceptsCheck false (fun _ _ => rfl) (acceptsCheck false (fun _ _ => rfl) ?_)
    refine acceptsSkip (fun _ _ => brace) (acceptsCheck true (fun _ _ => rfl) ?_)
    refine acceptsBlock (fun s member => ih s member ?_) (fun s member => stmtStarts (each s member)) (by omega)
    have part := printMember member
    omega

end statements

/-! Functions -/

theorem acceptsBody {ss : List ASTStmt} (shaped : ∀ s ∈ ss, s.Shaped) {n : Nat}
    (enough : (ASTStmt.block ss).print.length ≤ n) :
    Accepts (fun _ => True) (fun read => read.renamed lexeme = .block ss) (ASTStmt.block ss).print
      (parserParseBody n) := by
  have count := printCount shaped
  simp only [ASTStmt.print, List.length_cons, List.length_append] at enough
  refine acceptsSkip (fun _ _ => nofun) (acceptsCheck true (fun _ _ => rfl) ?_)
  refine acceptsBlock (fun s member => acceptsStatement (shaped s member) ?_)
    (fun s member => stmtStarts (shaped s member)) (by omega)
  have part := printMember member
  omega

theorem acceptsFunction {func : ASTFunctionDef} (shaped : func.Shaped) {n : Nat} (enough : func.print.length ≤ n) :
    Accepts (fun _ => True) (fun read => read.map (ASTFunctionDef.renamed lexeme) = some func) func.print
      (parserParseFunction n) := by
  obtain ⟨name, returnType, params, body⟩ := func
  obtain ⟨noParams, typed, inner, ss, rfl⟩ := shaped
  obtain ⟨kind, rfl⟩ := Option.isSome_iff_exists.mp typed
  obtain rfl : params = [] := noParams
  cases inner with
  | block each =>
    have fuel : (ASTStmt.block ss).print.length ≤ n := by
      simp only [ASTFunctionDef.print, List.length_cons, List.length_append] at enough
      omega
    have signature : Accepts (fun _ => True) (fun read => read.renamed lexeme = ⟨name, some kind, [], .block ss⟩)
        (.word name :: .mark .tokLparen :: .mark .tokRparen :: .mark .tokArrow ::
          (typeTerminals (some kind) ++ ((ASTStmt.block ss).print ++ []))) (parserParseSignature false n) := by
      refine acceptsName fun raw same => acceptsExpect rfl (acceptsExpect rfl (acceptsExpect rfl ?_))
      refine acceptsBind acceptsType (fun read found => ?_) fun _ _ => trivial
      refine acceptsBind (acceptsBody each fuel) (fun body known => acceptsPure ?_) fun _ _ => trivial
      rw [ASTFunctionDef.renamed, same, known, found]
      rfl
    refine acceptsListed (by decide) (b := false) (by decide) ?_
    rw [List.append_nil] at signature
    rw [← List.append_nil (_ :: _)]
    refine acceptsBind signature (fun read known => acceptsPure ?_) fun _ _ => trivial
    rw [Option.map_some, known]

theorem printParsed {func : ASTFunctionDef} (shaped : func.Shaped) {input : Source}
    (printed : input.terminals = func.print) :
    ∃ program p, Parses input program p ∧ p.error = false ∧ program.renamed lexeme = ⟨[func], []⟩ := by
  let piece : Piece Definition := (func.print, .function func)
  have stream : joined [piece] = func.print := List.append_nil func.print
  have taken : ∀ n, (joined [piece]).length ≤ n → ∀ d ∈ [piece], Taken n d := by
    intro n enough d member
    obtain rfl := List.mem_singleton.mp member
    rw [stream] at enough
    exact ⟨by simp [piece, ASTFunctionDef.print, headKind, kind], acceptsFunction shaped enough⟩
  exact parsesDefinitions taken (by simp [piece, ASTFunctionDef.print]) (printed.trans stream.symm)

-- (a ^ ^b) * f(1, -c) - 2
def mixedExpr : ASTExpr :=
  .binaryOp .bopSub (.binaryOp .bopMul
    (.binaryOp .bopXor (.identifier "a".toList) (.unaryOp .uopBitNot (.identifier "b".toList)))
    (.call (.identifier "f".toList) [.number 1, .unaryOp .uopNeg (.identifier "c".toList)])) (.number 2)

def mixedFunction : ASTFunctionDef :=
  ⟨"f".toList, some .typeU32, [], .block [.ret .null, .block [.varDecl "x".toList (some .typeU8) mixedExpr true]]⟩

def mixedSource : Source :=
  ⟨"fn f() -> u32 \x7breturn; \x7bvar x: u8 = (a ^ ^b) * f(1, -c) - 2;\x7d\x7d".toList, by decide⟩

theorem mixedParsed :
    ∃ program p, Parses mixedSource program p ∧ p.error = false ∧ program.renamed lexeme = ⟨[mixedFunction], []⟩ := by
  have expr : mixedExpr.Shaped := by
    refine .binaryOp (by decide) (.binaryOp (by decide) ?_ (.call _ ?_)) (.number 2)
    · exact .binaryOp (by decide) (.identifier _) (.unaryOp _ (.identifier _))
    · simpa using ⟨.number 1, .unaryOp _ (.identifier _)⟩
  refine printParsed ⟨rfl, rfl, .block ?_, _, rfl⟩ (by decide +kernel)
  simpa using ⟨.ret, .block (by simpa using .varDecl _ _ _ expr)⟩

end Printing
end BitN

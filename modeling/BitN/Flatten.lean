import BitN.Grammar

/-! A tree written back as tokens in order, and what a stream may have on top of that:
grouping parentheses, optional semicolons, and another spelling of a function. -/
namespace BitN

def Terminal.value : Terminal CString → Terminal UInt64
  | .word name => .word name
  | .number numeral => .number (strtoull numeral)
  | .mark type => .mark type

def binaryToken : BinaryOp → TokenType
  | .bopAdd => .tokPlus | .bopSub => .tokMinus | .bopMul => .tokStar | .bopDiv => .tokSlash | .bopMod => .tokPercent
  | .bopAnd => .tokAnd | .bopOr => .tokOr | .bopXor => .tokXor
  | .bopLshift => .tokLshift | .bopRshift => .tokRshift | .bopLrotate => .tokLrotate | .bopRrotate => .tokRrotate
  | .bopEq => .tokEq | .bopNe => .tokNe | .bopLt => .tokLt | .bopGt => .tokGt | .bopLe => .tokLe | .bopGe => .tokGe

def unaryToken : UnaryOp → TokenType
  | .uopNot => .tokNot | .uopBitNot => .tokXor | .uopNeg => .tokMinus

def typeToken : TypeKind → TokenType
  | .typeVoid => .tokVoid | .typeU8 => .tokU8 | .typeU16 => .tokU16 | .typeU32 => .tokU32 | .typeU64 => .tokU64
  | .typeI8 => .tokI8 | .typeI16 => .tokI16 | .typeI32 => .tokI32 | .typeI64 => .tokI64

def typeTerminals {ν : Type} : Option TypeKind → List (Terminal ν)
  | some kind => [.mark (typeToken kind)]
  | none => []

mutual
def ASTExpr.flatten : ASTExpr → List (Terminal UInt64)
  | .null => []
  | .number value => [.number value]
  | .identifier name => [.word name]
  | .string _ => [.mark .tokString]
  | .boolean value => [.mark (if value then .tokTrue else .tokFalse)]
  | .binaryOp op left right => left.flatten ++ .mark (binaryToken op) :: right.flatten
  | .unaryOp op operand => .mark (unaryToken op) :: operand.flatten
  | .call func args => func.flatten ++ .mark .tokLparen ::
      ([Terminal.mark .tokComma].intercalate (ASTExpr.flattenAll args) ++ [.mark .tokRparen])
  | .arrayIndex array index => array.flatten ++ .mark .tokLbracket :: (index.flatten ++ [.mark .tokRbracket])
  | .bitSlice expr start stop => expr.flatten ++ [.mark .tokLbracket, .number start.toUInt64, .mark .tokColon,
      .number stop.toUInt64, .mark .tokRbracket]
  | .memberAccess object field => object.flatten ++ [.mark .tokDot, .word field]
def ASTExpr.flattenAll : List ASTExpr → List (List (Terminal UInt64))
  | [] => []
  | e :: es => e.flatten :: ASTExpr.flattenAll es
end

mutual
def ASTStmt.flatten : ASTStmt → List (Terminal UInt64)
  | .null => []
  | .varDecl name type init isMut => .mark (if isMut then .tokVar else .tokLet) :: .word name :: .mark .tokColon ::
      (typeTerminals type ++ .mark .tokAssign :: init.flatten)
  | .expr e => e.flatten
  | .ret value => .mark .tokReturn :: value.flatten
  | .ifStmt => [.mark .tokIf]
  | .whileStmt => [.mark .tokWhile]
  | .block statements => .mark .tokLbrace :: ((ASTStmt.flattenAll statements).flatten ++ [.mark .tokRbrace])
def ASTStmt.flattenAll : List ASTStmt → List (List (Terminal UInt64))
  | [] => []
  | s :: ss => s.flatten :: ASTStmt.flattenAll ss
end

@[simp] theorem ASTExpr.flattenAllMap (es : List ASTExpr) : ASTExpr.flattenAll es = es.map ASTExpr.flatten := by
  induction es with
  | nil => rfl
  | cons e es ih => rw [ASTExpr.flattenAll, ih, List.map_cons]

@[simp] theorem ASTStmt.flattenAllMap (ss : List ASTStmt) : ASTStmt.flattenAll ss = ss.map ASTStmt.flatten := by
  induction ss with
  | nil => rfl
  | cons s ss ih => rw [ASTStmt.flattenAll, ih, List.map_cons]

def ASTFunctionDef.flatten (func : ASTFunctionDef) : List (Terminal UInt64) :=
  .mark .tokFn :: .word func.name :: .mark .tokLparen :: .mark .tokRparen :: .mark .tokArrow ::
    (typeTerminals func.returnType ++ func.body.flatten)

/-! No pointer is NULL, except the value of a bare return -/

mutual
def ASTExpr.Whole : ASTExpr → Prop
  | .null => False
  | .number _ | .identifier _ | .string _ | .boolean _ => True
  | .binaryOp _ left right => left.Whole ∧ right.Whole
  | .unaryOp _ operand => operand.Whole
  | .call func args => func.Whole ∧ ASTExpr.WholeAll args
  | .arrayIndex array index => array.Whole ∧ index.Whole
  | .bitSlice expr _ _ => expr.Whole
  | .memberAccess object _ => object.Whole
def ASTExpr.WholeAll : List ASTExpr → Prop
  | [] => True
  | e :: es => e.Whole ∧ ASTExpr.WholeAll es
end

mutual
def ASTStmt.Whole : ASTStmt → Prop
  | .null => False
  | .varDecl _ type init _ => type ≠ none ∧ init.Whole
  | .expr e => e.Whole
  | .ret value => value = .null ∨ value.Whole
  | .ifStmt | .whileStmt => True
  | .block statements => ASTStmt.WholeAll statements
def ASTStmt.WholeAll : List ASTStmt → Prop
  | [] => True
  | s :: ss => s.Whole ∧ ASTStmt.WholeAll ss
end

@[simp] theorem ASTExpr.wholeAllIff (es : List ASTExpr) : ASTExpr.WholeAll es ↔ ∀ e ∈ es, e.Whole := by
  induction es with
  | nil => simp [ASTExpr.WholeAll]
  | cons e es ih => simp [ASTExpr.WholeAll, ih]

@[simp] theorem ASTStmt.wholeAllIff (ss : List ASTStmt) : ASTStmt.WholeAll ss ↔ ∀ s ∈ ss, s.Whole := by
  induction ss with
  | nil => simp [ASTStmt.WholeAll]
  | cons s ss ih => simp [ASTStmt.WholeAll, ih]

def ASTFunctionDef.Whole (func : ASTFunctionDef) : Prop := func.returnType ≠ none ∧ func.body.Whole

section renamed
variable (θ : CString → CString)

theorem ASTExpr.renamedNull {e : ASTExpr} : e.renamed θ = .null ↔ e = .null := by
  cases e <;> simp [ASTExpr.renamed]

theorem ASTExpr.wholeRenamed (e : ASTExpr) : (e.renamed θ).Whole ↔ e.Whole := by
  induction e with
  | call func args func' args' => simp +contextual [ASTExpr.renamed, ASTExpr.Whole, func', args']
  | _ => simp [ASTExpr.renamed, ASTExpr.Whole, *]

theorem ASTStmt.wholeRenamed (s : ASTStmt) : (s.renamed θ).Whole ↔ s.Whole := by
  induction s with
  | block statements each => simp +contextual [ASTStmt.renamed, ASTStmt.Whole, each]
  | _ => simp [ASTStmt.renamed, ASTStmt.Whole, ASTExpr.wholeRenamed, ASTExpr.renamedNull]

theorem ASTFunctionDef.wholeRenamed (func : ASTFunctionDef) : (func.renamed θ).Whole ↔ func.Whole := by
  rw [Whole, Whole, renamed, ASTStmt.wholeRenamed]

end renamed

/-! The stream against the flattened tree -/

/-- The first is the second with grouping parentheses and semicolons put in. -/
inductive Regrouped {ν : Type} : List (Terminal ν) → List (Terminal ν) → Prop where
  | nil : Regrouped [] []
  | keep {x s t} (rest : Regrouped s t) : Regrouped (x :: s) (x :: t)
  | group {s t s' t'} (inner : Regrouped s t) (rest : Regrouped s' t') :
      Regrouped (.mark .tokLparen :: (s ++ .mark .tokRparen :: s')) (t ++ t')
  | semicolon {s t} (rest : Regrouped s t) : Regrouped (.mark .tokSemicolon :: s) t

inductive Respelled {ν : Type} : List (Terminal ν) → List (Terminal ν) → Prop where
  | block {keyword arrow name type s t} (spelled : (keyword, arrow) ∈ Grammar.keywords) (body : Regrouped s t) :
      Respelled (.mark keyword :: .word name :: .mark .tokLparen :: .mark .tokRparen :: .mark arrow :: .mark type :: s)
        (.mark .tokFn :: .word name :: .mark .tokLparen :: .mark .tokRparen :: .mark .tokArrow :: .mark type :: t)
  | statement {keyword arrow name type s t} (spelled : (keyword, arrow) ∈ Grammar.keywords) (body : Regrouped s t) :
      Respelled (.mark keyword :: .word name :: .mark .tokLparen :: .mark .tokRparen :: .mark arrow :: .mark type ::
          .mark .tokAssign :: s)
        (.mark .tokFn :: .word name :: .mark .tokLparen :: .mark .tokRparen :: .mark .tokArrow :: .mark type ::
          .mark .tokLbrace :: (t ++ [.mark .tokRbrace]))

namespace Flatten

open Grammar

theorem regroupedAppend {ν : Type} {s t s' t' : List (Terminal ν)} (first : Regrouped s t) (second : Regrouped s' t') :
    Regrouped (s ++ s') (t ++ t') := by
  induction first with
  | nil => exact second
  | keep rest ih => exact .keep ih
  | group inner rest _ ih =>
    rw [List.append_assoc, List.cons_append, List.append_assoc, List.cons_append]
    exact .group inner ih
  | semicolon rest ih => exact .semicolon ih

theorem regroupedFlatten {ν : Type} (parts : List (List (Terminal ν) × List (Terminal ν)))
    (each : ∀ q ∈ parts, Regrouped q.1 q.2) : Regrouped (parts.map Prod.fst).flatten (parts.map Prod.snd).flatten := by
  induction parts with
  | nil => exact .nil
  | cons q qs ih =>
    exact regroupedAppend (each q List.mem_cons_self) (ih fun r member => each r (List.mem_cons_of_mem _ member))

theorem regroupedSeparated {ν : Type} (parts : List (List (Terminal ν) × List (Terminal ν)))
    (each : ∀ q ∈ parts, Regrouped q.1 q.2) :
    Regrouped ([Terminal.mark .tokComma].intercalate (parts.map Prod.fst))
      ([Terminal.mark .tokComma].intercalate (parts.map Prod.snd)) := by
  induction parts with
  | nil => exact .nil
  | cons q qs ih =>
    have head := each q List.mem_cons_self
    have tail := ih fun r member => each r (List.mem_cons_of_mem _ member)
    cases qs with
    | nil => simpa [List.intercalate] using head
    | cons r rs =>
      simp only [List.map_cons, List.intercalate_cons_cons] at tail ⊢
      exact regroupedAppend (regroupedAppend head (.keep .nil)) tail

theorem separatedValue (pieces : List (List (Terminal CString))) :
    ([Terminal.mark .tokComma].intercalate pieces).map Terminal.value =
      [Terminal.mark .tokComma].intercalate (pieces.map (List.map Terminal.value)) := by
  induction pieces with
  | nil => rfl
  | cons q qs ih =>
    cases qs with
    | nil => simp [List.intercalate]
    | cons r rs =>
      simp only [List.map_cons, List.intercalate_cons_cons, List.map_append] at ih ⊢
      rw [ih]
      rfl

theorem semicolonRegrouped {s : List (Terminal CString)} (ends : Semicolon s) :
    Regrouped (s.map Terminal.value) [] := by
  cases ends with
  | none => exact .nil
  | some => exact .semicolon .nil

theorem exprWhole {k : Nat} {piece : Piece ASTExpr} (derived : Expr k piece) : piece.2.Whole := by
  induction derived with
  | call each args =>
    simp only [ASTExpr.Whole, ASTExpr.wholeAllIff, true_and, trees]
    rintro e member
    obtain ⟨q, inside, rfl⟩ := List.mem_map.mp member
    exact args q inside
  | group inner ih => exact ih
  | unary listed operand ih => exact ih
  | binary listed left right ihLeft ihRight => exact ⟨ihLeft, ihRight⟩
  | tighter inner ih => exact ih
  | _ => trivial

theorem levelToken {k : Nat} {type : TokenType} {op : BinaryOp} (listed : (type, op) ∈ level k) :
    binaryToken op = type := by
  have table : ∀ row ∈ ladder, ∀ entry ∈ row, binaryToken entry.2 = entry.1 := by decide
  exact table (level k) (levelRow listed).2 _ listed

theorem exprRegrouped {k : Nat} {piece : Piece ASTExpr} (derived : Expr k piece) :
    Regrouped (piece.1.map Terminal.value) piece.2.flatten := by
  induction derived with
  | number => exact .keep .nil
  | identifier => exact .keep .nil
  | @call name args each ih =>
    have inside := regroupedSeparated (args.map fun q => (q.1.map Terminal.value, q.2.flatten)) (by
      intro r member
      obtain ⟨q, arg, rfl⟩ := List.mem_map.mp member
      exact ih q arg)
    simp only [List.map_map, Function.comp_def] at inside
    simp only [List.map_cons, List.map_append, ASTExpr.flatten, ASTExpr.flattenAllMap, separated, separatedValue,
      List.map_map, trees, Function.comp_def, List.cons_append, List.nil_append, Terminal.value, List.map_nil]
    exact .keep (.keep (regroupedAppend inside (.keep .nil)))
  | true_ => exact .keep .nil
  | false_ => exact .keep .nil
  | group inner ih =>
    simp only [List.map_cons, List.map_append, List.map_nil]
    have grouped := Regrouped.group ih Regrouped.nil
    rwa [List.append_nil] at grouped
  | @unary s e type op listed operand ih =>
    have spelled : unaryToken op = type := by
      have table : ∀ entry ∈ prefixes, unaryToken entry.2 = entry.1 := by decide
      exact table _ listed
    simp only [List.map_cons, ASTExpr.flatten, spelled]
    exact .keep ih
  | binary listed left right ihLeft ihRight =>
    simp only [List.map_append, List.map_cons, ASTExpr.flatten, levelToken listed]
    exact regroupedAppend ihLeft (.keep ihRight)
  | tighter inner ih => exact ih

theorem typeSpelled {type : TokenType} {kind : TypeKind} (typed : (type, kind) ∈ typeWords) :
    typeToken kind = type := by
  have table : ∀ entry ∈ typeWords, typeToken entry.2 = entry.1 := by decide
  exact table _ typed

theorem stmtWhole {piece : Piece ASTStmt} (derived : Stmt piece) : piece.2.Whole := by
  induction derived with
  | declaration bound typed value ends => exact ⟨by simp, exprWhole value⟩
  | ret ends => exact .inl rfl
  | retValue value ends => exact .inr (exprWhole value)
  | expr value ends => exact exprWhole value
  | block each ih =>
    simp only [ASTStmt.Whole, ASTStmt.wholeAllIff, trees]
    rintro s member
    obtain ⟨q, inside, rfl⟩ := List.mem_map.mp member
    exact ih q inside

theorem joinedRegrouped {τ : Type} {pieces : List (Piece τ)} (flatten : τ → List (Terminal UInt64))
    (each : ∀ q ∈ pieces, Regrouped (q.1.map Terminal.value) (flatten q.2)) :
    Regrouped ((joined pieces).map Terminal.value) ((trees pieces).map flatten).flatten := by
  have all := regroupedFlatten (pieces.map fun q => (q.1.map Terminal.value, flatten q.2)) (by
    intro r member
    obtain ⟨q, inside, rfl⟩ := List.mem_map.mp member
    exact each q inside)
  simpa [joined, trees, List.map_flatten, Function.comp_def] using all

theorem stmtRegrouped {piece : Piece ASTStmt} (derived : Stmt piece) :
    Regrouped (piece.1.map Terminal.value) piece.2.flatten := by
  have ended {s : List (Terminal CString)} {t : List (Terminal UInt64)} {semicolon : List (Terminal CString)}
      (inner : Regrouped (s.map Terminal.value) t) (ends : Semicolon semicolon) :
      Regrouped ((s ++ semicolon).map Terminal.value) t := by
    have both := regroupedAppend inner (semicolonRegrouped ends)
    rwa [List.append_nil, ← List.map_append] at both
  induction derived with
  | @declaration binder isMut name type kind s init semicolon bound typed value ends =>
    have spelled : (if isMut then TokenType.tokVar else .tokLet) = binder := by
      have table : ∀ entry ∈ binders, (if entry.2 then TokenType.tokVar else .tokLet) = entry.1 := by decide
      exact table _ bound
    simp only [List.map_cons, ASTStmt.flatten, typeTerminals, typeSpelled typed, spelled]
    exact .keep (.keep (.keep (.keep (.keep (ended (exprRegrouped value) ends)))))
  | ret ends => exact .keep (semicolonRegrouped ends)
  | retValue value ends => exact .keep (ended (exprRegrouped value) ends)
  | expr value ends => exact ended (exprRegrouped value) ends
  | @block statements each ih =>
    have inside := joinedRegrouped ASTStmt.flatten ih
    simp only [List.map_cons, List.map_append, ASTStmt.flatten, ASTStmt.flattenAllMap, List.map_nil]
    exact .keep (regroupedAppend inside (.keep .nil))

theorem functionWhole {piece : Piece ASTFunctionDef} (derived : Function piece) : piece.2.Whole := by
  cases derived with
  | function spelled typed inner =>
    refine ⟨by simp, ?_⟩
    cases inner with
    | statement only => simpa [ASTStmt.Whole] using stmtWhole only
    | block inner => exact stmtWhole inner

theorem functionRespelled {piece : Piece ASTFunctionDef} (derived : Function piece) :
    Respelled (piece.1.map Terminal.value) piece.2.flatten := by
  cases derived with
  | @function keyword arrow name type kind s body spelled typed inner =>
    simp only [ASTFunctionDef.flatten, typeTerminals, typeSpelled typed]
    cases inner with
    | statement only =>
      have body := stmtRegrouped only
      simp only [ASTStmt.flatten, ASTStmt.flattenAllMap, List.map_cons, List.map_nil, List.flatten_cons,
        List.flatten_nil,
        List.append_nil]
      exact .statement spelled body
    | block inner => exact .block spelled (stmtRegrouped inner)

end Flatten
end BitN

import BitN.CheckerEffects

/-! Bit slices and their types. The width is the 32-bit difference of the ends, so only a slice
with equal ends is refused. -/
namespace BitN.Loose

mutual
/-- The slices of a tree: operand, start and end. -/
def slices : Expr → List (Expr × UInt32 × UInt32)
  | .binaryOp _ left right => slices left ++ slices right
  | .unaryOp _ operand => slices operand
  | .call func args => slices func ++ argSlices args
  | .arrayIndex array index => slices array ++ slices index
  | .bitSlice expr start stop => (expr, start, stop) :: slices expr
  | .memberAccess object _ => slices object
  | _ => []
def argSlices : List Expr → List (Expr × UInt32 × UInt32)
  | [] => []
  | e :: es => slices e ++ argSlices es
end

/-- The smallest unsigned type with so many bits. -/
def smallestType (bits : Nat) : Option TypeKind :=
  [TypeKind.typeU8, .typeU16, .typeU32, .typeU64].find? fun type => bits ≤ 8 * typeGetSize type

def SlicesTyped (ctx : TypeContext) (e : Expr) : Prop :=
  (inferExprType increment ctx e).1.isSome = true → ∀ operand start stop, (operand, start, stop) ∈ slices e →
    start < stop ∧
    (∃ type, (inferExprType increment ctx operand).1 = some type ∧ typeIsInteger type = true) ∧
    (inferExprType increment ctx (.bitSlice operand start stop)).1 = smallestType (stop.toNat - start.toNat)

/-! The rules that the checker follows -/

def sliceType (width : UInt32) : TypeKind :=
  if width ≤ 8 then .typeU8 else if width ≤ 16 then .typeU16 else if width ≤ 32 then .typeU32 else .typeU64

/-- A slice is typed by the 32-bit difference of its ends. -/
inductive Typed (table : SymbolTable) : Expr → TypeKind → Prop where
  | number (value) : Typed table (.number value) .typeU32
  | boolean (value) : Typed table (.boolean value) .typeU8
  | identifier {name sym} (found : lookup table name = some sym) : Typed table (.identifier name) sym.type
  | unaryOp (op) {operand type} (inner : Typed table operand type) : Typed table (.unaryOp (.named op) operand) type
  | binaryOp (op) {left right type} (first : Typed table left type) (second : Typed table right type) :
      Typed table (.binaryOp op left right) (inferBinaryOpType op type)
  | bitSlice {operand type start stop} (inner : Typed table operand type) (integer : typeIsInteger type = true)
      (ends : start ≠ stop) : Typed table (.bitSlice operand start stop) (sliceType (stop - start))

theorem inferUnchanged {tick : Int → Int} {ctx after : TypeContext} {e : Expr} {type : TypeKind}
    (inferred : inferExprType tick ctx e = (some type, after)) : after = ctx := by
  obtain ⟨inference, here⟩ := inferHere tick ctx e
  rw [here] at inferred
  cases inference with
  | typed type => exact (congrArg Prod.snd inferred).symm
  | silent => cases inferred
  | reported r => cases inferred

theorem differs {start stop : UInt32} : stop - start ≤ 0 ↔ start = stop := by
  rw [UInt32.le_iff_toNat_le, UInt32.toNat_sub, ← UInt32.toNat_inj]
  have := start.toNat_lt
  have := stop.toNat_lt
  simp only [UInt32.toNat_zero]
  omega

theorem inferSlice {tick : Int → Int} {ctx : TypeContext} {operand : Expr} {start stop : UInt32} {type : TypeKind} :
    (inferExprType tick ctx (.bitSlice operand start stop)).1 = some type ↔
      ∃ inner, (inferExprType tick ctx operand).1 = some inner ∧ typeIsInteger inner = true ∧ start ≠ stop ∧
        sliceType (stop - start) = type := by
  rw [inferExprType]
  rcases inferExprType tick ctx operand with ⟨_ | inner, after⟩
  · simp
  · unfold sliceType
    dsimp only
    by_cases integer : typeIsInteger inner = true
    · by_cases same : start = stop
      · simp [integer, same]
      · have width := differs.not.mpr same
        simp only [integer, width]
        split_ifs <;> simp_all
    · simp [integer]

theorem inferredTyped {tick : Int → Int} {ctx : TypeContext} {e : Expr} {type : TypeKind}
    (inferred : (inferExprType tick ctx e).1 = some type) : Typed ctx.symbols e type := by
  induction e generalizing type ctx with
  | null => cases inferred
  | number value =>
    cases inferred
    exact .number value
  | boolean value =>
    cases inferred
    exact .boolean value
  | string value => cases inferred
  | identifier name =>
    rw [inferExprType] at inferred
    cases found : lookup ctx.symbols name with
    | none =>
      rw [found] at inferred
      cases inferred
    | some sym =>
      rw [found] at inferred
      cases inferred
      exact .identifier found
  | unaryOp op operand ih =>
    rw [inferExprType] at inferred
    rcases whole : inferExprType tick ctx operand with ⟨_ | inner, after⟩
    · rw [whole] at inferred
      cases inferred
    · rw [whole] at inferred
      cases op with
      | named op =>
        cases inferred
        exact .unaryOp op (ih (by rw [whole]))
      | other code => cases inferred
  | binaryOp op left right left' right' =>
    rw [inferExprType] at inferred
    rcases first : inferExprType tick ctx left with ⟨_ | leftType, between⟩
    · rw [first] at inferred
      cases inferred
    obtain rfl := inferUnchanged first
    rcases second : inferExprType tick between right with ⟨_ | rightType, after⟩
    · simp [first, second] at inferred
    simp only [first, second] at inferred
    split at inferred
    · rename_i equal
      obtain rfl : leftType = rightType := by simpa [typeCompatible, typeEqual] using equal
      cases inferred
      exact .binaryOp op (left' (by rw [first])) (right' (by rw [second]))
    · cases inferred
  | bitSlice operand start stop ih =>
    obtain ⟨inner, found, integer, ends, rfl⟩ := inferSlice.mp inferred
    exact .bitSlice (ih found) integer ends
  | arrayIndex array index _ _ => simp [inferExprType] at inferred
  | call func args _ _ => simp [inferExprType] at inferred
  | memberAccess object field _ => simp [inferExprType] at inferred
  | other kind => simp [inferExprType] at inferred

theorem typedInferred {tick : Int → Int} {ctx : TypeContext} {e : Expr} {type : TypeKind}
    (typed : Typed ctx.symbols e type) : (inferExprType tick ctx e).1 = some type := by
  induction typed with
  | number value => rfl
  | boolean value => rfl
  | identifier found => rw [inferExprType, found]
  | @unaryOp op operand type inner ih =>
    rw [inferExprType]
    rcases whole : inferExprType tick ctx operand with ⟨_ | found, after⟩ <;> simp [whole] at ih
    simp [ih]
  | @binaryOp op left right type first second left' right' =>
    rcases firstIs : inferExprType tick ctx left with ⟨_ | leftType, between⟩ <;> simp [firstIs] at left'
    obtain rfl := inferUnchanged firstIs
    rcases secondIs : inferExprType tick between right with ⟨_ | rightType, after⟩ <;> simp [secondIs] at right'
    simp [inferExprType, firstIs, secondIs, left', right', typeCompatible, typeEqual]
  | bitSlice inner integer ends ih => exact inferSlice.mpr ⟨_, ih, integer, ends, rfl⟩

theorem Typed.slice {table : SymbolTable} {e operand : Expr} {type : TypeKind} {start stop : UInt32}
    (typed : Typed table e type) (inside : (operand, start, stop) ∈ slices e) :
    ∃ inner, Typed table operand inner ∧ typeIsInteger inner = true ∧ start ≠ stop := by
  induction typed with
  | number value => cases inside
  | boolean value => cases inside
  | identifier found => cases inside
  | unaryOp op inner ih => exact ih inside
  | binaryOp op first second left' right' =>
    rcases List.mem_append.mp inside with member | member
    · exact left' member
    · exact right' member
  | bitSlice inner integer ends ih =>
    rcases List.mem_cons.mp inside with same | member
    · cases same
      exact ⟨_, inner, integer, ends⟩
    · exact ih member

/-! The exact ranges -/

theorem sliceSmallest {start stop : UInt32} : smallestType (stop.toNat - start.toNat) = some (sliceType (stop - start)) ∧
    start < stop ↔ start < stop ∧ stop.toNat - start.toNat ≤ 64 := by
  rw [and_comm]
  refine and_congr_right fun ascending => ?_
  have width : (stop - start).toNat = stop.toNat - start.toNat := UInt32.toNat_sub_of_le _ _ (UInt32.le_of_lt ascending)
  unfold smallestType sliceType
  simp only [UInt32.le_iff_toNat_le, width, List.find?_cons, List.find?_nil, typeGetSize]
  generalize stop.toNat - start.toNat = bits
  by_cases byte : bits ≤ 8
  · simp [byte]
    omega
  · by_cases half : bits ≤ 16
    · simp [byte, half]
      omega
    · by_cases word : bits ≤ 32
      · simp [byte, half, word]
        omega
      · by_cases double : bits ≤ 64 <;> simp [byte, half, word, double]

/-- The slices of a tree are typed by their exact widths where none of them runs backwards or is
wider than 64 bits, and where the tree has no type for another reason. -/
theorem slicesExact (ctx : TypeContext) (e : Expr) :
    SlicesTyped ctx e ↔ ((∃ type, Typed ctx.symbols e type) → ∀ operand start stop, (operand, start, stop) ∈ slices e →
      start ≤ stop ∧ stop.toNat - start.toNat ≤ 64) := by
  constructor
  · rintro sound ⟨type, typed⟩ operand start stop inside
    have given : (inferExprType increment ctx e).1.isSome = true := by rw [typedInferred typed]; rfl
    obtain ⟨ascending, -, exact_⟩ := sound given operand start stop inside
    obtain ⟨inner, inferred, integer, ends⟩ := typed.slice inside
    have here := inferSlice.mpr ⟨inner, @typedInferred increment _ _ _ inferred, integer, ends, rfl⟩
    have narrow := sliceSmallest.mp ⟨exact_.symm.trans here, ascending⟩
    exact ⟨UInt32.le_of_lt ascending, narrow.2⟩
  · intro narrow given operand start stop inside
    obtain ⟨type, inferred⟩ := Option.isSome_iff_exists.mp given
    have typed := inferredTyped inferred
    obtain ⟨inner, innerTyped, integer, ends⟩ := typed.slice inside
    obtain ⟨le, bits⟩ := narrow ⟨type, typed⟩ operand start stop inside
    have ascending : start < stop := UInt32.lt_of_le_of_ne le ends
    have found := @typedInferred increment _ _ _ innerTyped
    refine ⟨ascending, ⟨inner, found, integer⟩, ?_⟩
    rw [inferSlice.mpr ⟨inner, found, integer, ends, rfl⟩]
    exact (sliceSmallest.mpr ⟨ascending, bits⟩).1.symm

theorem backwardsTyped : ¬ SlicesTyped typeContextCreate (.bitSlice (.number 255) 8 4) := by
  intro sound
  have ascending := (sound (by decide) (.number 255) 8 4 List.mem_cons_self).1
  exact absurd ascending (by decide)

end BitN.Loose

import BitN.ParserAccepts

/-! A text without functions is parsed without an error exactly when it is a sequence of
peripherals, and then into exactly that sequence. -/
namespace BitN.ParserPeripherals

open ParserRun ParserDerives ParserAccepts Grammar

def asDefinition (piece : Piece ASTPeripheral) : Piece Definition := (piece.1, .peripheral piece.2)

theorem joinedDefinitions (pieces : List (Piece ASTPeripheral)) : joined (pieces.map asDefinition) = joined pieces := by
  simp [joined, Function.comp_def, asDefinition]

theorem collectDefinitions (pieces : List (Piece ASTPeripheral)) :
    collect (trees (pieces.map asDefinition)) = ⟨[], trees pieces⟩ := by
  induction pieces with
  | nil => rfl
  | cons q qs ih =>
    rw [show trees ((q :: qs).map asDefinition) = .peripheral q.2 :: trees (qs.map asDefinition) from rfl, collect, ih]
    rfl

theorem onlyPeripherals {definitions : List (Piece Definition)} (each : ∀ d ∈ definitions, Define d)
    (none : ∀ entry ∈ Grammar.keywords, Terminal.mark entry.1 ∉ joined definitions) :
    ∃ pieces : List (Piece ASTPeripheral), (∀ q ∈ pieces, Peripheral q) ∧ definitions = pieces.map asDefinition := by
  induction definitions with
  | nil => exact ⟨[], by simp, rfl⟩
  | cons d ds ih =>
    have cut : joined (d :: ds) = d.1 ++ joined ds := rfl
    obtain ⟨pieces, peripherals, rfl⟩ := ih (fun e member => each e (List.mem_cons_of_mem _ member))
      fun entry member inside => none entry member (by rw [cut]; exact List.mem_append_right _ inside)
    have first := each d List.mem_cons_self
    cases first with
    | function inner =>
      cases inner with
      | @function keyword arrow name type kind s body spelled typed inner =>
        exact absurd (by rw [cut]; simp) (none _ spelled)
    | @peripheral s periph inner =>
      refine ⟨(s, periph) :: pieces, ?_, rfl⟩
      rintro q member
      rcases List.mem_cons.mp member with rfl | old
      · exact inner
      · exact peripherals q old

theorem peripheralTaken {pieces : List (Piece ASTPeripheral)} (each : ∀ q ∈ pieces, Peripheral q) {n : Nat}
    (enough : (joined pieces).length ≤ n) : ∀ d ∈ pieces.map asDefinition, Taken n d := by
  rintro d member
  obtain ⟨q, inside, rfl⟩ := List.mem_map.mp member
  have length := pieceLength inside
  have derived := each q inside
  refine ⟨?_, acceptsPeripheral derived (by omega)⟩
  cases derived
  rfl

theorem peripheralNonempty {pieces : List (Piece ASTPeripheral)} (each : ∀ q ∈ pieces, Peripheral q) :
    ∀ d ∈ pieces.map asDefinition, d.1 ≠ [] := by
  rintro d member
  obtain ⟨q, inside, rfl⟩ := List.mem_map.mp member
  have derived := each q inside
  cases derived
  simp [asDefinition]

def functionKinds : List TokenType := [.tokProc, .tokFunc, .tokFn]

theorem noKeywordTerminals {input : Source} (none : ∀ t ∈ input.tokens, t.type ∉ functionKinds) :
    ∀ entry ∈ Grammar.keywords, Terminal.mark entry.1 ∉ input.terminals := by
  have listed : ∀ entry ∈ Grammar.keywords, entry.1 ∈ functionKinds := by decide
  rintro entry member inside
  obtain ⟨t, token, same⟩ := List.mem_map.mp inside
  refine none t token ?_
  rw [← kindTerminal, same]
  exact listed entry member

theorem peripheralsAccepted {input : Source} {pieces : List (Piece ASTPeripheral)} (each : ∀ q ∈ pieces, Peripheral q)
    (same : input.terminals = joined pieces) :
    ∃ program p, Parses input program p ∧ p.error = false ∧ program.lexemes = ⟨[], trees pieces⟩ := by
  rw [← joinedDefinitions] at same
  rw [← collectDefinitions]
  refine parsesDefinitions (fun n enough => peripheralTaken each ?_) (peripheralNonempty each) same
  rwa [joinedDefinitions] at enough

theorem peripheralsParsed (input : Source) (none : ∀ t ∈ input.tokens, t.type ∉ functionKinds) :
    ((∃ program p, Parses input program p ∧ p.error = false) ↔
      ∃ pieces : List (Piece ASTPeripheral), (∀ q ∈ pieces, Peripheral q) ∧ input.terminals = joined pieces) ∧
    ∀ program p pieces, Parses input program p → p.error = false → (∀ q ∈ pieces, Peripheral q) →
      input.terminals = joined pieces → program.functions = [] ∧
        program.peripherals.map ASTPeripheral.lexemes = trees pieces := by
  refine ⟨⟨?_, ?_⟩, ?_⟩
  · rintro ⟨program, p, parsed, clear⟩
    have derived : Program (input.terminals, program.lexemes) := parsesProgram parsed clear lexeme
    have keywords := noKeywordTerminals none
    generalize input.terminals = terminals at derived keywords
    generalize program.lexemes = tree at derived
    cases derived with
    | program each =>
      obtain ⟨pieces, peripherals, rfl⟩ := onlyPeripherals each keywords
      exact ⟨pieces, peripherals, joinedDefinitions pieces⟩
  · rintro ⟨pieces, each, same⟩
    obtain ⟨program, p, parsed, clear, -⟩ := peripheralsAccepted each same
    exact ⟨program, p, parsed, clear⟩
  · intro program p pieces parsed clear each same
    obtain ⟨program', p', parsed', -, built⟩ := peripheralsAccepted each same
    obtain ⟨rfl, -⟩ := parsesUnique parsed parsed'
    have functions := congrArg ASTProgram.functions built
    exact ⟨List.map_eq_nil_iff.mp functions, congrArg ASTProgram.peripherals built⟩

-- peripheral U @ 4 {register D : @ 0 {field F : [0:7] ro}}
def uartSource : Source :=
  ⟨"peripheral U @ 4 \x7bregister D : @ 0 \x7bfield F : [0:7] ro\x7d\x7d".toList, by decide⟩

theorem uartParsed :
    ((∃ program p, Parses uartSource program p ∧ p.error = false) ↔
      ∃ pieces : List (Piece ASTPeripheral), (∀ q ∈ pieces, Peripheral q) ∧ uartSource.terminals = joined pieces) ∧
    ∀ program p pieces, Parses uartSource program p → p.error = false → (∀ q ∈ pieces, Peripheral q) →
      uartSource.terminals = joined pieces → program.functions = [] ∧
        program.peripherals.map ASTPeripheral.lexemes = trees pieces :=
  peripheralsParsed uartSource (by decide)

end BitN.ParserPeripherals

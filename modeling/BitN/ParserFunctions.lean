import BitN.Flatten
import BitN.ParserPeripherals

/-! A text without peripherals that is parsed without an error is a sequence of functions,
and no token of it is lost, doubled or moved on the way into the tree. -/
namespace BitN.ParserFunctions

open ParserRun ParserDerives ParserAccepts Grammar

theorem onlyFunctions {definitions : List (Piece Definition)} (each : ∀ d ∈ definitions, Define d)
    (missing : Terminal.mark .tokPeripheral ∉ joined definitions) :
    ∃ pieces : List (Piece ASTFunctionDef), (∀ q ∈ pieces, Function q) ∧ joined definitions = joined pieces ∧
      collect (trees definitions) = ⟨trees pieces, []⟩ := by
  induction definitions with
  | nil => exact ⟨[], by simp, rfl, rfl⟩
  | cons d ds ih =>
    have cut : joined (d :: ds) = d.1 ++ joined ds := rfl
    obtain ⟨pieces, functions, same, collected⟩ := ih (fun e member => each e (List.mem_cons_of_mem _ member))
      fun inside => missing (by rw [cut]; exact List.mem_append_right _ inside)
    have first := each d List.mem_cons_self
    cases first with
    | @function s func inner =>
      refine ⟨(s, func) :: pieces, ?_, ?_, ?_⟩
      · rintro q member
        rcases List.mem_cons.mp member with rfl | old
        · exact inner
        · exact functions q old
      · rw [cut, same]
        rfl
      · rw [show trees ((s, .function func) :: ds) = .function func :: trees ds from rfl, collect, collected]
        rfl
    | @peripheral s periph inner =>
      cases inner with
      | peripheral each => exact absurd (by rw [cut]; simp) missing

theorem respelledPieces {pieces : List (Piece ASTFunctionDef)} (each : ∀ q ∈ pieces, Function q) :
    List.Forall₂ Respelled (pieces.map fun q => q.1.map Terminal.value)
      ((trees pieces).map ASTFunctionDef.flatten) := by
  induction pieces with
  | nil => exact .nil
  | cons q qs ih =>
    exact .cons (Flatten.functionRespelled (each q List.mem_cons_self))
      (ih fun r member => each r (List.mem_cons_of_mem _ member))

theorem functionsParsed {input : Source} {program : ASTProgram} {p : Parser}
    (missing : ∀ t ∈ input.tokens, t.type ≠ .tokPeripheral) (parsed : Parses input program p)
      (clear : p.error = false) :
    (∃ pieces : List (Piece ASTFunctionDef), (∀ q ∈ pieces, Function q) ∧ input.terminals = joined pieces ∧
      program.functions.map ASTFunctionDef.lexemes = trees pieces) ∧ program.peripherals = [] ∧
    (∀ f ∈ program.functions, f.Whole) ∧
    ∃ parts, input.terminals.map Terminal.value = parts.flatten ∧
      List.Forall₂ Respelled parts (program.functions.map fun f => f.lexemes.flatten) := by
  have derived : Program (input.terminals, program.lexemes) := parsesProgram parsed clear lexeme
  have absent : Terminal.mark .tokPeripheral ∉ input.terminals := by
    rintro inside
    obtain ⟨t, token, same⟩ := List.mem_map.mp inside
    exact missing t token (by rw [← kindTerminal, same]; rfl)
  generalize terminals : input.terminals = stream at derived absent ⊢
  generalize tree : program.lexemes = whole at derived
  cases derived with
  | @program definitions each =>
    obtain ⟨pieces, functions, same, collected⟩ := onlyFunctions each absent
    have trees_ : program.functions.map ASTFunctionDef.lexemes = trees pieces :=
      congrArg ASTProgram.functions (tree.trans collected)
    have none : program.peripherals = [] :=
      List.map_eq_nil_iff.mp (congrArg ASTProgram.peripherals (tree.trans collected))
    refine ⟨⟨pieces, functions, same, trees_⟩, none, fun f member => ?_, ?_⟩
    · have image : f.lexemes ∈ trees pieces := trees_ ▸ List.mem_map_of_mem member
      obtain ⟨q, inside, same⟩ := List.mem_map.mp image
      have whole : f.lexemes.Whole := same ▸ Flatten.functionWhole (functions q inside)
      exact (ASTFunctionDef.wholeRenamed lexeme f).mp whole
    · refine ⟨pieces.map fun q => q.1.map Terminal.value, ?_, ?_⟩
      · rw [same, joined, List.map_flatten, List.map_map]
        rfl
      · have respelled := respelledPieces functions
        rwa [← trees_, List.map_map] at respelled

def returnSource : Source := ⟨"func f():u8=(true)".toList, by decide⟩

theorem returnParsed :
    ∃ pieces : List (Piece ASTFunctionDef), (∀ q ∈ pieces, Function q) ∧ returnSource.terminals = joined pieces ∧
      [ASTFunctionDef.mk "f".toList (some .typeU8) [] (.block [.expr (.boolean true)])] = trees pieces := by
  have parsed : Parses returnSource ⟨[⟨"f():u8=(true)".toList, some .typeU8, [], .block [.expr (.boolean true)]⟩], []⟩
      (parseSource 12 returnSource).2 := ⟨12, Prod.ext rfl rfl⟩
  obtain ⟨derived, -⟩ := functionsParsed (by decide) parsed (by decide)
  exact derived

end BitN.ParserFunctions

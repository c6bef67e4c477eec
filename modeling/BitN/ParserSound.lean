import BitN.Grammar
import BitN.ParserRun

/-! A run of the parser that ends with a clear flag has consumed a piece of the stream that
the grammar derives, and built the tree of that derivation. -/
namespace BitN

def Parser.terminals (θ : CString → CString) (parser : Parser) : List (Terminal CString) :=
  parser.ahead.map (Token.terminal θ)

namespace ParserSound

open Run ParserRun Grammar

variable {θ : CString → CString}

/-! Tokens and terminals -/

def Fixed (type : TokenType) : Prop := type ≠ .tokIdentifier ∧ type ≠ .tokNumber ∧ type ≠ .tokEof

instance (type : TokenType) : Decidable (Fixed type) := inferInstanceAs (Decidable (_ ∧ _))

theorem terminalMark {tok : Token} (fixed : Fixed tok.type) : tok.terminal θ = .mark tok.type := by
  unfold Token.terminal
  split
  · exact absurd ‹_› fixed.1
  · exact absurd ‹_› fixed.2.1
  · rfl

theorem terminalWord {tok : Token} (type : tok.type = .tokIdentifier) : tok.terminal θ = .word (θ tok.value) := by
  simp [Token.terminal, type]

theorem terminalNumber {tok : Token} (type : tok.type = .tokNumber) :
    tok.terminal θ = .number (LexerScan.numeralSpan tok.value) := by
  simp [Token.terminal, type]

theorem terminalsCons {p : Parser} (more : p.current.type ≠ .tokEof) :
    p.terminals θ = p.current.terminal θ :: p.advance.terminals θ := by
  rw [Parser.terminals, aheadCons more, List.map_cons, Parser.terminals]

theorem emittedNumber {tok : Token} (emitted : tok.Emitted) (type : tok.type = .tokNumber) :
    isDigit (tok.value.headD '\x00') = true := by
  have keyword : TokenType.tokNumber ∉ BitN.keywords.map Prod.snd := by decide
  have operator : TokenType.tokNumber ∉ Lexical.operators.map Prod.snd := by decide
  have kinds := LexerPartition.emittedKinds emitted
  rw [type] at kinds
  simpa [keyword, operator] using kinds

theorem emittedEqual {tok : Token} (emitted : tok.Emitted) : tok.type ≠ .tokEqual := by
  intro type
  have keyword : TokenType.tokEqual ∉ BitN.keywords.map Prod.snd := by decide
  have operator : TokenType.tokEqual ∉ Lexical.operators.map Prod.snd := by decide
  have kinds := LexerPartition.emittedKinds emitted
  rw [type] at kinds
  simp [keyword, operator] at kinds

/-! What a routine consumes -/

variable {α β : Type} {Q : α → List (Terminal CString) → Prop}

/-- From this state: if the flag is clear at the end, it was clear before, and what has been
consumed in between stands to the result as `Q` says. -/
def YieldsAt (θ : CString → CString) (Q : α → List (Terminal CString) → Prop) (x : Parse α) (p : Parser) : Prop :=
  ∀ a last, x p = (some a, last) → last.error = false →
    p.error = false ∧ ∃ used, p.terminals θ = used ++ last.terminals θ ∧ Q a used

def Yields (θ : CString → CString) (Q : α → List (Terminal CString) → Prop) (x : Parse α) : Prop :=
  ∀ p, YieldsAt θ Q x p

theorem yieldsPure {a : α} (holds : Q a []) : Yields θ Q (pure a : Parse α) := by
  rintro p b last ran clear
  obtain ⟨rfl, rfl⟩ : a = b ∧ p = last := by simpa using ran
  exact ⟨clear, [], rfl, holds⟩

theorem yieldsCut : Yields θ Q (cut : Parse α) := by
  rintro p a last ran
  simp at ran

theorem yieldsIte {c : Prop} [Decidable c] {x y : Parse α} (yes : Yields θ Q x) (no : Yields θ Q y) :
    Yields θ Q (if c then x else y) := by
  split
  · exact yes
  · exact no

theorem yieldsWeaken {Q' : α → List (Terminal CString) → Prop} {x : Parse α} (ran : Yields θ Q x)
    (weaker : ∀ a u, Q a u → Q' a u) : Yields θ Q' x := by
  intro p a last done clear
  obtain ⟨before, used, cut, holds⟩ := ran p a last done clear
  exact ⟨before, used, cut, weaker a used holds⟩

theorem yieldsBindAt {P : β → List (Terminal CString) → Prop} {x : Parse β} {f : β → Parse α} {p : Parser}
    (first : YieldsAt θ P x p) (then_ : ∀ b, Yields θ (fun a v => ∀ u, P b u → Q a (u ++ v)) (f b)) :
    YieldsAt θ Q (x >>= f) p := by
  intro a last ran clear
  obtain ⟨b, next, one, two⟩ := bindReturns.mp ran
  obtain ⟨clearNext, v, cutV, holdsV⟩ := then_ b next a last two clear
  obtain ⟨before, u, cutU, holdsU⟩ := first b next one clearNext
  exact ⟨before, u ++ v, by rw [cutU, cutV, List.append_assoc], holdsV u holdsU⟩

theorem yieldsBind {P : β → List (Terminal CString) → Prop} {x : Parse β} {f : β → Parse α} (first : Yields θ P x)
    (then_ : ∀ b, Yields θ (fun a v => ∀ u, P b u → Q a (u ++ v)) (f b)) : Yields θ Q (x >>= f) :=
  fun p => yieldsBindAt (first p) then_

theorem yieldsError {message : String} {f : Unit → Parse α} (later : ∃ P, Yields θ P (f ())) :
    Yields θ Q (parserError message >>= f) := by
  obtain ⟨P, later⟩ := later
  intro p a last ran clear
  obtain ⟨set, -⟩ := later _ a last ran clear
  simp at set

theorem yieldsCheck {type : TokenType} {f : Bool → Parse α}
    (then_ : ∀ p, YieldsAt θ Q (f (decide (p.current.type = type))) p) : Yields θ Q (parserCheck type >>= f) :=
  fun p => then_ p

theorem yieldsAdvance {f : Unit → Parse α} {p : Parser} (more : p.current.type ≠ .tokEof)
    (then_ : Yields θ (fun a v => Q a (p.current.terminal θ :: v)) (f ())) : YieldsAt θ Q (parserAdvance >>= f) p := by
  intro a last ran clear
  obtain ⟨before, used, cut, holds⟩ := then_ p.advance a last ran clear
  exact ⟨before, p.current.terminal θ :: used, by rw [terminalsCons more, cut, List.cons_append], holds⟩

theorem yieldsCheckAny {type : TokenType} {f : Bool → Parse α} (then_ : ∀ b, Yields θ Q (f b)) :
    Yields θ Q (parserCheck type >>= f) :=
  yieldsCheck fun p => then_ _ p

theorem yieldsCheckIte {type : TokenType} {yes no : Parse α}
    (taken : ∀ p, p.current.type = type → YieldsAt θ Q yes p) (skipped : Yields θ Q no) :
    Yields θ Q (parserCheck type >>= fun b => if b = true then yes else no) := by
  refine yieldsCheck fun p => ?_
  by_cases here : p.current.type = type
  · rw [decide_eq_true here]
    exact taken p here
  · rw [decide_eq_false here]
    exact skipped p

theorem yieldsCheckEither {type type' : TokenType} {yes no : Parse α}
    (taken : ∀ p, p.current.type = type ∨ p.current.type = type' → YieldsAt θ Q yes p) (skipped : Yields θ Q no) :
    Yields θ Q (parserCheck type >>= fun a => parserCheck type' >>= fun b => if (a || b) = true then yes else no) := by
  intro p
  change YieldsAt θ Q (if (decide (p.current.type = type) || decide (p.current.type = type')) = true then yes else no) p
  split_ifs with here
  · exact taken p (by simpa using here)
  · exact skipped p

theorem yieldsValue {f : CString → Parse α} {p : Parser} (then_ : YieldsAt θ Q (f p.current.value) p) :
    YieldsAt θ Q (parserValue >>= f) p := then_

theorem yieldsCheckAdvance {type : TokenType} (fixed : Fixed type) {yes no : Parse α}
    (taken : Yields θ (fun a v => Q a (.mark type :: v)) yes) (skipped : Yields θ Q no) :
    Yields θ Q (parserCheck type >>= fun b => if b = true then parserAdvance >>= fun _ => yes else no) := by
  refine yieldsCheckIte (fun p here => yieldsAdvance (here ▸ fixed.2.2) ?_) skipped
  rw [terminalMark (here ▸ fixed), here]
  exact taken

theorem yieldsMatch {type : TokenType} (fixed : Fixed type) {f : Bool → Parse α}
    (taken : Yields θ (fun a v => Q a (.mark type :: v)) (f true)) (skipped : Yields θ Q (f false)) :
    Yields θ Q (parserMatch type >>= f) := by
  intro p a last ran clear
  by_cases here : p.current.type = type
  · rw [bindStep (matchTaken here)] at ran
    have step : YieldsAt θ Q (parserAdvance >>= fun _ => f true) p := by
      refine yieldsAdvance (here ▸ fixed.2.2) ?_
      rw [terminalMark (here ▸ fixed), here]
      exact taken
    exact step a last ran clear
  · rw [bindStep (matchSkipped here)] at ran
    exact skipped p a last ran clear

theorem yieldsSemicolon {f : Bool → Parse α}
    (then_ : ∀ b, Yields θ (fun a v => ∀ ends, Semicolon ends → Q a (ends ++ v)) (f b)) :
    Yields θ Q (parserMatch .tokSemicolon >>= f) := by
  have weaken {b : Bool} {ends : List (Terminal CString)} (shape : Semicolon ends) :
      Yields θ (fun a v => Q a (ends ++ v)) (f b) := by
    intro p a last ran clear
    obtain ⟨before, used, cut, holds⟩ := then_ b p a last ran clear
    exact ⟨before, used, cut, holds ends shape⟩
  exact yieldsMatch (by decide) (weaken .some) (weaken .none)

theorem yieldsExpectAt {type : TokenType} {message : String} {f : Unit → Parse α} {p : Parser}
    (keeps : ∃ P, Yields θ P (f ())) (then_ : p.current.type = type → YieldsAt θ Q (parserAdvance >>= f) p) :
    YieldsAt θ Q (parserExpect type message >>= f) p := by
  by_cases here : p.current.type = type
  · intro a last ran clear
    rw [bindStep (expectTaken message here)] at ran
    exact then_ here a last ran clear
  · intro a last ran clear
    rw [bindStep (expectFailed message here)] at ran
    exact yieldsError keeps p a last ran clear

theorem yieldsExpect {type : TokenType} {message : String} (fixed : Fixed type) {f : Unit → Parse α}
    (then_ : Yields θ (fun a v => Q a (.mark type :: v)) (f ())) : Yields θ Q (parserExpect type message >>= f) := by
  intro p
  refine yieldsExpectAt ⟨_, then_⟩ fun here => yieldsAdvance (here ▸ fixed.2.2) ?_
  rw [terminalMark (here ▸ fixed), here]
  exact then_

theorem yieldsName {message : String} {f : CString → Parse α}
    (then_ : ∀ name, Yields θ (fun a v => Q a (.word (θ name) :: v)) (f name)) :
    Yields θ Q (parserValue >>= fun name => parserExpect .tokIdentifier message >>= fun _ => f name) := by
  intro p
  change YieldsAt θ Q (parserExpect .tokIdentifier message >>= fun _ => f p.current.value) p
  refine yieldsExpectAt ⟨_, then_ p.current.value⟩ fun here => yieldsAdvance (by simp [here]) ?_
  rw [terminalWord here]
  exact then_ p.current.value

theorem numeralAt {p : Parser} (number : p.current.type = .tokNumber) (width : Nat) :
    ∃ e, parserNumeral width p = (some (strtoull (LexerScan.numeralSpan p.current.value)), p.note e) := by
  rw [← Numeral.strtoullLexeme (emittedNumber p.currentEmitted number)]
  exact ⟨_, by rw [parserNumeral, if_pos number]⟩

theorem expectNumberTaken {p : Parser} (message : String) (number : p.current.type = .tokNumber) :
    ∃ e, parserExpectNumber message p =
      (some (numeral32 (LexerScan.numeralSpan p.current.value)), (p.note e).advance) := by
  obtain ⟨e, read⟩ := numeralAt number 32
  have next : parserExpect .tokNumber message (p.note e) = (some (), (p.note e).advance) := expectTaken message number
  exact ⟨e, by rw [parserExpectNumber, bindStep read, bindStep next]; rfl⟩

theorem expectNumberFailed {p : Parser} (message : String) (other : p.current.type ≠ .tokNumber) :
    parserExpectNumber message p = (some (numeral32 p.current.value), p.fail message) := by
  have read : parserNumeral 32 p = (some (strtoull p.current.value), p) := if_neg other
  rw [parserExpectNumber, bindStep read, bindStep (expectFailed message other)]
  rfl

theorem yieldsExpectNumber {message : String} {f : UInt32 → Parse α}
    (then_ : ∀ value, Yields θ (fun a v => ∀ numeral, value = numeral32 numeral → Q a (.number numeral :: v))
      (f value)) :
    Yields θ Q (parserExpectNumber message >>= f) := by
  intro p a last ran clear
  by_cases number : p.current.type = .tokNumber
  · obtain ⟨e, step⟩ := expectNumberTaken message number
    rw [bindStep step] at ran
    obtain ⟨before, v, cut, holds⟩ := then_ _ _ a last ran clear
    have more : (p.note e).current.type ≠ .tokEof := by
      rw [show (p.note e).current = p.current from rfl, number]
      decide
    have here : (p.note e).current.terminal θ = .number (LexerScan.numeralSpan p.current.value) := terminalNumber number
    refine ⟨before, _, ?_, holds _ rfl⟩
    change (p.note e).terminals θ = _
    rw [terminalsCons more, here, cut, List.cons_append]
  · rw [bindStep (expectNumberFailed message number)] at ran
    obtain ⟨set, -⟩ := then_ _ _ a last ran clear
    simp at set

theorem yieldsMatchOf {table : List (TokenType × β)} (fixed : ∀ entry ∈ table, Fixed entry.1)
    {f : Option β → Parse α}
    (taken : ∀ type b, (type, b) ∈ table → Yields θ (fun a v => Q a (.mark type :: v)) (f (some b)))
    (skipped : Yields θ Q (f none)) : Yields θ Q (parserMatchOf table >>= f) := by
  intro p a last ran clear
  have lookup := matchOfApply table p
  rcases found : table.find? (fun entry => p.current.type = entry.1) with _ | entry
  · rw [found] at lookup
    rw [bindStep lookup] at ran
    exact skipped p a last ran clear
  · rw [found] at lookup
    rw [bindStep lookup] at ran
    have member := List.mem_of_find?_eq_some found
    have here : p.current.type = entry.1 := by simpa using List.find?_some found
    have step : YieldsAt θ Q (parserAdvance >>= fun _ => f (some entry.2)) p := by
      refine yieldsAdvance (here ▸ (fixed entry member).2.2) ?_
      rw [terminalMark (here ▸ fixed entry member), here]
      exact taken entry.1 entry.2 member
    exact step a last ran clear

theorem yieldsChoice {table : List (TokenType × β)} (omitted : β) (fixed : ∀ entry ∈ table, Fixed entry.1)
    {f : Option β → Parse α}
    (then_ : ∀ b, Yields θ (fun a v => ∀ u, Choice table omitted u (b.getD omitted) → Q a (u ++ v)) (f b)) :
    Yields θ Q (parserMatchOf table >>= f) := by
  refine yieldsMatchOf fixed (fun type b listed => ?_) ?_
  · intro p a last ran clear
    obtain ⟨before, used, cut, holds⟩ := then_ (some b) p a last ran clear
    exact ⟨before, used, cut, holds _ (.some listed)⟩
  · intro p a last ran clear
    obtain ⟨before, used, cut, holds⟩ := then_ none p a last ran clear
    exact ⟨before, used, cut, holds _ .none⟩

theorem yieldsLoop {γ : Type} {step : γ → Parse (γ ⊕ α)} (Inv : γ → List (Terminal CString) → Prop)
    (turn : ∀ c, Yields θ (fun out v => ∀ u, Inv c u →
      Sum.elim (fun next => Inv next (u ++ v)) (fun a => Q a (u ++ v)) out) (step c)) (n : Nat) (c : γ) :
    Yields θ (fun a v => ∀ u, Inv c u → Q a (u ++ v)) (loop step n c) := by
  induction n generalizing c with
  | zero => exact yieldsCut
  | succ n ih =>
    refine yieldsBind (turn c) fun out => ?_
    cases out with
    | inl next =>
      intro p a last ran clear
      obtain ⟨before, v, cut, holds⟩ := ih next p a last ran clear
      refine ⟨before, v, cut, fun w kept u inv => ?_⟩
      rw [← List.append_assoc]
      exact holds _ (kept u inv)
    | inr a => exact yieldsPure fun w kept u inv => by simpa using kept u inv

theorem yieldsLoopFrom {γ : Type} {step : γ → Parse (γ ⊕ α)} (Inv : γ → List (Terminal CString) → Prop) {c : γ}
    (start : Inv c [])
    (turn : ∀ c, Yields θ (fun out v => ∀ u, Inv c u →
      Sum.elim (fun next => Inv next (u ++ v)) (fun a => Q a (u ++ v)) out) (step c)) (n : Nat) :
        Yields θ Q (loop step n c) :=
  yieldsWeaken (yieldsLoop Inv turn n c) fun _ _ kept => kept [] start

def Reads {τ : Type} (θ : CString → CString) (D : Piece τ → Prop) (f : α → τ) (x : Parse α) : Prop :=
  Yields θ (fun a u => D (u, f a)) x

theorem yieldsTurn {P : β → List (Terminal CString) → Prop} {body : Parse β} (loop : Loop) (inner : Yields θ P body) :
    Yields θ P (parserTurn loop body) := by
  intro p b last ran clear
  simp only [parserTurn, bindRead, bindModify] at ran
  obtain ⟨item, next, one, two⟩ := bindReturns.mp ran
  obtain ⟨rfl, rfl⟩ : item = b ∧ next.note _ = last := by simpa using two
  exact inner (p.note _) item next one clear

theorem yieldsItems {τ : Type} {D : Piece τ → Prop} {f : β → τ} {item : Parse β} (reads : Reads θ D f item)
    (loop : Loop) (n : Nat) :
    Yields θ (fun items u => ∃ pieces, (∀ q ∈ pieces, D q) ∧ u = joined pieces ∧ items.map f = trees pieces)
      (parserItems loop item n) := by
  refine yieldsLoopFrom
    (fun items u => ∃ pieces, (∀ q ∈ pieces, D q) ∧ u = joined pieces ∧ items.map f = trees pieces)
    ⟨[], by simp, rfl, rfl⟩ (fun items => ?_) n
  refine yieldsCheck fun p => yieldsIte (yieldsPure fun u inv => by simpa using inv) ?_ p
  refine yieldsCheck fun p => yieldsIte (yieldsPure fun u inv => by simpa using inv) ?_ p
  refine yieldsBind (yieldsTurn loop reads) fun item => yieldsPure ?_
  rintro v piece u ⟨pieces, each, rfl, same⟩
  refine ⟨pieces ++ [(v, f item)], ?_, by simp [joined], by simp [trees, same]⟩
  rintro q member
  rcases List.mem_append.mp member with old | new
  · exact each q old
  · rw [List.mem_singleton.mp new]
    exact piece

end ParserSound
end BitN

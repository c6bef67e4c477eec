import Mathlib.Algebra.BigOperators.Group.List.Basic
import Mathlib.Algebra.GroupWithZero.Nat
import Mathlib.Tactic.Common

/-! The text of a C file as a compiler comes to its declarations, as far as these are structures of
plain members: without its comments, by its words and directives, and declaration by declaration. -/
namespace CText

/-! Machines that read a text from left to right -/

section machines
variable {σ α β : Type} {step : σ → α → List β × σ}

def run (step : σ → α → List β × σ) : σ → List α → List β × σ
  | s, [] => ([], s)
  | s, a :: as => ((step s a).1 ++ (run step (step s a).2 as).1, (run step (step s a).2 as).2)

theorem runAppend (s : σ) (text rest : List α) : run step s (text ++ rest) =
    ((run step s text).1 ++ (run step (run step s text).2 rest).1, (run step (run step s text).2 rest).2) := by
  induction text generalizing s with
  | nil => rfl
  | cons a as ih => simp only [List.cons_append, run, ih, List.append_assoc]

end machines

/-! Comments -/

/-- Behind a slash that may open a comment, in a comment, or in neither. -/
inductive Mode where
  | code | slash | line | block | star
  deriving DecidableEq

-- Character and string literals and lines that a backslash joins are not looked for.
def uncommentStep : Mode → Char → List Char × Mode
  | .code, c => if c = '/' then ([], .slash) else ([c], .code)
  | .slash, c => if c = '/' then ([], .line) else if c = '*' then ([' '], .block) else (['/', c], .code)
  | .line, c => if c = '\n' then (['\n'], .code) else ([], .line)
  | .block, c => if c = '*' then ([], .star) else ([], .block)
  | .star, c => if c = '/' then ([], .code) else if c = '*' then ([], .star) else ([], .block)

def uncomment : Mode → List Char → List Char × Mode := run uncommentStep

theorem uncommentAppend (mode : Mode) (text rest : List Char) : uncomment mode (text ++ rest) =
    ((uncomment mode text).1 ++ (uncomment (uncomment mode text).2 rest).1,
      (uncomment (uncomment mode text).2 rest).2) := runAppend mode text rest

@[simp] theorem uncommentNil (mode : Mode) : uncomment mode [] = ([], mode) := rfl

theorem uncommentCode {text : List Char} (plain : '/' ∉ text) : uncomment .code text = (text, .code) := by
  induction text with
  | nil => rfl
  | cons c cs ih =>
    obtain ⟨first, rest⟩ := not_or.mp fun found => plain (List.mem_cons.mpr found)
    have step : uncommentStep .code c = ([c], .code) := if_neg (Ne.symm first)
    have tail : run uncommentStep .code cs = (cs, .code) := ih rest
    simp only [uncomment, run, step, tail, List.singleton_append]

theorem uncommentLine {text : List Char} (inside : '\n' ∉ text) : uncomment .line text = ([], .line) := by
  induction text with
  | nil => rfl
  | cons c cs ih =>
    obtain ⟨first, rest⟩ := not_or.mp fun found => inside (List.mem_cons.mpr found)
    have step : uncommentStep .line c = ([], .line) := if_neg (Ne.symm first)
    have tail : run uncommentStep .line cs = ([], .line) := ih rest
    simp only [uncomment, run, step, tail, List.nil_append]

/-- What is left of a text is characters of it, but for the slash before it and the blank for a comment. -/
theorem uncommentCount {c : Char} (noSlash : c ≠ '/') (noBlank : c ≠ ' ') (mode : Mode) (text : List Char) :
    (uncomment mode text).1.count c ≤ text.count c := by
  induction text generalizing mode with
  | nil => exact Nat.le_refl _
  | cons d ds ih =>
    have step : (uncommentStep mode d).1.count c ≤ [d].count c := by
      cases mode <;> simp only [uncommentStep] <;> split_ifs <;>
        simp [List.count_cons, Ne.symm noSlash, Ne.symm noBlank, *]
    have split : (d :: ds).count c = [d].count c + ds.count c := by rw [← List.count_append, List.singleton_append]
    rw [uncomment, run, List.count_append, split]
    exact Nat.add_le_add step (ih _)

/-! Words, marks and directives -/

inductive Token where
  | word (text : List Char)
  | mark (c : Char)
  | directive (text : List Char)
  deriving DecidableEq

/-- Between directives, with the word so far, and whether only blanks stand before it on its line; or
in a directive, with its text so far. -/
inductive Place where
  | code (start : Bool) (word : List Char)
  | directive (text : List Char)
  deriving DecidableEq

def isName (c : Char) : Bool := c.isAlphanum || c = '_'

def ended : List Char → List Token
  | [] => []
  | word => [.word word]

def lexStep : Place → Char → List Token × Place
  | .directive text, c => if c = '\n' then ([.directive text], .code true []) else ([], .directive (text ++ [c]))
  | .code start word, c =>
    if isName c then ([], .code false (word ++ [c]))
    else if c = '\n' then (ended word, .code true [])
    else if c = ' ' then (ended word, .code start [])
    else if start ∧ c = '#' then (ended word, .directive [])
    else (ended word ++ [.mark c], .code false [])

def lex : Place → List Char → List Token × Place := run lexStep

theorem lexAppend (place : Place) (text rest : List Char) : lex place (text ++ rest) =
    ((lex place text).1 ++ (lex (lex place text).2 rest).1, (lex (lex place text).2 rest).2) :=
  runAppend place text rest

@[simp] theorem lexNil (place : Place) : lex place [] = ([], place) := rfl

theorem lexBlanks (start : Bool) (n : Nat) :
    lex (.code start []) (List.replicate n ' ') = ([], .code start []) := by
  induction n with
  | zero => rfl
  | succ n ih => exact ih

theorem lexWord {word : List Char} (named : ∀ c ∈ word, isName c = true) (some : word ≠ []) (start : Bool)
    (before : List Char) : lex (.code start before) word = ([], .code false (before ++ word)) := by
  induction word generalizing start before with
  | nil => exact absurd rfl some
  | cons c cs ih =>
    have step : lexStep (.code start before) c = ([], .code false (before ++ [c])) :=
      if_pos (named c List.mem_cons_self)
    cases cs with
    | nil => simp only [lex, run, step, List.append_nil]
    | cons d ds =>
      have tail : run lexStep (.code false (before ++ [c])) (d :: ds) = _ :=
        ih (fun e member => named e (List.mem_cons_of_mem c member)) (List.cons_ne_nil d ds) false (before ++ [c])
      rw [lex, run, step, tail, List.append_assoc, List.singleton_append]
      rfl

theorem lexDirective {text : List Char} (line : '\n' ∉ text) (before : List Char) :
    lex (.directive before) text = ([], .directive (before ++ text)) := by
  induction text generalizing before with
  | nil => simp
  | cons c cs ih =>
    obtain ⟨first, rest⟩ := not_or.mp fun found => line (List.mem_cons.mpr found)
    have step : lexStep (.directive before) c = ([], .directive (before ++ [c])) := if_neg (Ne.symm first)
    have tail : run lexStep (.directive (before ++ [c])) cs = _ := ih rest (before ++ [c])
    simp only [lex, run, step, tail, List.nil_append, List.append_assoc, List.singleton_append]

def Token.text : Token → List Char
  | .word text | .directive text => text
  | .mark c => [c]

def Place.pending : Place → List Char
  | .code _ text | .directive text => text

theorem lexStepCount {c : Char} (mark : isName c = false ∧ c ∉ [' ', '\n', '#']) (place : Place) (d : Char) :
    ((lexStep place d).1.flatMap Token.text).count c + (lexStep place d).2.pending.count c =
      place.pending.count c + [d].count c := by
  have other (e : Char) (special : e ∈ [' ', '\n', '#']) : [e].count c = 0 :=
    List.count_eq_zero.mpr fun member => mark.2 (List.mem_singleton.mp member ▸ special)
  have closed (word : List Char) : ((ended word).flatMap Token.text).count c = word.count c := by
    cases word <;> simp [ended, Token.text]
  cases place with
  | directive before =>
    rw [lexStep]
    split_ifs with newline
    · rw [newline, other '\n' (by decide)]
      simp [Token.text, Place.pending]
    · simp [Place.pending, List.count_append]
  | code start word =>
    rw [lexStep]
    split_ifs with named newline blank hash
    · simp [Place.pending, List.count_append]
    · rw [newline, other '\n' (by decide), closed]
      rfl
    · rw [blank, other ' ' (by decide), closed]
      rfl
    · rw [hash.2, other '#' (by decide), closed]
      rfl
    · rw [List.flatMap_append, List.count_append, closed]
      simp [Place.pending, Token.text]

theorem lexCount {c : Char} (mark : isName c = false ∧ c ∉ [' ', '\n', '#']) (place : Place) (text : List Char) :
    ((lex place text).1.flatMap Token.text).count c + (lex place text).2.pending.count c =
      place.pending.count c + text.count c := by
  induction text generalizing place with
  | nil => simp
  | cons d ds ih =>
    have step := lexStepCount mark place d
    have split : (d :: ds).count c = [d].count c + ds.count c := by rw [← List.count_append, List.singleton_append]
    have later := ih (lexStep place d).2
    rw [lex, run, List.flatMap_append, List.count_append, split]
    dsimp only [lex] at later ⊢
    omega

/-! Declarations -/

inductive Item where
  | directive (text : List Char)
  | opened
  | member (type name : List Char)
  | closed (name : List Char)
  deriving DecidableEq

def Item.tokens : Item → List Token
  | .directive text => [.directive text]
  | .opened => [.word "typedef".toList, .word "struct".toList, .mark '\x7b']
  | .member type name => [.word type, .word name, .mark ';']
  | .closed name => [.mark '\x7d', .word name, .mark ';']

def identifier : List Char → Bool
  | [] => false
  | c :: _ => !c.isDigit

/-- The declarations that the tokens spell, from outside or inside a structure on; it may be without members. -/
def items : Bool → List Token → Option (List Item)
  | false, [] => some []
  | inside, .directive text :: rest => (items inside rest).map (.directive text :: ·)
  | false, .word first :: .word second :: .mark c :: rest =>
    if first = "typedef".toList ∧ second = "struct".toList ∧ c = '\x7b' then (items true rest).map (.opened :: ·)
    else none
  | true, .word type :: .word name :: .mark c :: rest =>
    if c = ';' ∧ identifier type ∧ identifier name then (items true rest).map (.member type name :: ·) else none
  | true, .mark c :: .word name :: .mark d :: rest =>
    if c = '\x7d' ∧ d = ';' ∧ identifier name then (items false rest).map (.closed name :: ·) else none
  | _, _ => none

def formed : Bool → List Item → Bool
  | inside, [] => !inside
  | inside, .directive _ :: rest => formed inside rest
  | inside, .opened :: rest => !inside && formed true rest
  | inside, .member type name :: rest => inside && identifier type && identifier name && formed true rest
  | inside, .closed name :: rest => inside && identifier name && formed false rest

theorem itemsFormed {inside : Bool} {tokens : List Token} {found : List Item} :
    items inside tokens = some found ↔ tokens = found.flatMap Item.tokens ∧ formed inside found = true := by
  constructor
  · intro read
    fun_induction items inside tokens generalizing found with
    | case1 =>
      obtain rfl := Option.some.inj read
      exact ⟨rfl, rfl⟩
    | case2 inside text rest ih =>
      obtain ⟨later, spelled, rfl⟩ := Option.map_eq_some_iff.mp read
      obtain ⟨rfl, fine⟩ := ih spelled
      exact ⟨rfl, fine⟩
    | case3 first second c rest start ih =>
      obtain ⟨later, spelled, rfl⟩ := Option.map_eq_some_iff.mp read
      obtain ⟨rfl, fine⟩ := ih spelled
      obtain ⟨rfl, rfl, rfl⟩ := start
      exact ⟨rfl, fine⟩
    | case5 type name c rest start ih =>
      obtain ⟨later, spelled, rfl⟩ := Option.map_eq_some_iff.mp read
      obtain ⟨rfl, fine⟩ := ih spelled
      obtain ⟨rfl, typed, named⟩ := start
      exact ⟨rfl, by simp [formed, typed, named, fine]⟩
    | case7 c name d rest start ih =>
      obtain ⟨later, spelled, rfl⟩ := Option.map_eq_some_iff.mp read
      obtain ⟨rfl, fine⟩ := ih spelled
      obtain ⟨rfl, rfl, named⟩ := start
      exact ⟨rfl, by simp [formed, named, fine]⟩
    | _ => cases read
  · rintro ⟨rfl, fine⟩
    induction found generalizing inside with
    | nil =>
      cases inside with
      | false => rfl
      | true => cases fine
    | cons item rest ih =>
      cases item with
      | directive text => cases inside <;> exact Option.map_eq_some_iff.mpr ⟨rest, ih fine, rfl⟩
      | opened =>
        cases inside with
        | false => exact Option.map_eq_some_iff.mpr ⟨rest, ih fine, rfl⟩
        | true => cases fine
      | member type name =>
        obtain ⟨⟨⟨rfl, typed⟩, named⟩, later⟩ : ((inside = true ∧ identifier type = true) ∧ identifier name = true) ∧
            formed true rest = true := by simpa [formed] using fine
        have start : ';' = ';' ∧ identifier type = true ∧ identifier name = true := ⟨rfl, typed, named⟩
        exact (if_pos start).trans (Option.map_eq_some_iff.mpr ⟨rest, ih later, rfl⟩)
      | closed name =>
        obtain ⟨⟨rfl, named⟩, later⟩ : (inside = true ∧ identifier name = true) ∧ formed false rest = true := by
          simpa [formed] using fine
        have start : '\x7d' = '\x7d' ∧ ';' = ';' ∧ identifier name = true := ⟨rfl, rfl, named⟩
        exact (if_pos start).trans (Option.map_eq_some_iff.mpr ⟨rest, ih later, rfl⟩)

theorem openedFirst {before rest found : List Token}
    (first : before ++ (Item.opened.tokens ++ rest) = Item.opened.tokens ++ found) (once : .mark '\x7b' ∉ found) : before = [] := by
  rcases before with _ | ⟨a, _ | ⟨b, _ | ⟨c, more⟩⟩⟩
  · rfl
  · simp [Item.tokens] at first
  · simp [Item.tokens] at first
  · obtain ⟨-, -, -, later⟩ : a = _ ∧ b = _ ∧ c = _ ∧ more ++ (Item.opened.tokens ++ rest) = found := by
      simpa [Item.tokens] using first
    refine absurd ?_ once
    rw [← later]
    simp [Item.tokens]

section formed
variable {α : Type} {type name : α → List Char} {target : List Char} {rest : List Item}

theorem formedMembers (fields : List α) : formed true ((fields.map fun a => .member (type a) (name a)) ++ rest) =
    ((fields.all fun a => identifier (type a) && identifier (name a)) && formed true rest) := by
  induction fields with
  | nil => rfl
  | cons a fields ih => simp only [List.map_cons, List.cons_append, formed, ih, List.all_cons, Bool.true_and, Bool.and_assoc]

theorem formedStructure (fields : List α) :
    formed false (.opened :: ((fields.map fun a => .member (type a) (name a)) ++ .closed target :: rest)) =
      ((fields.all fun a => identifier (type a) && identifier (name a)) && (identifier target && formed false rest)) := by
  rw [formed, formedMembers, formed, Bool.true_and]
  rfl

theorem formedAll {fields : List α} {made : α → List Item}
    (each : ∀ a ∈ fields, ∀ rest, formed false (made a ++ rest) = formed false rest) :
    formed false (fields.flatMap made ++ rest) = formed false rest := by
  induction fields with
  | nil => rfl
  | cons a fields ih =>
    rw [List.flatMap_cons, List.append_assoc, each a List.mem_cons_self,
      ih fun b member => each b (List.mem_cons_of_mem a member)]

end formed

/-! Names that are not a file's own -/

def keywords : List (List Char) := ["auto", "break", "case", "char", "const", "continue", "default", "do", "double",
  "else", "enum", "extern", "float", "for", "goto", "if", "inline", "int", "long", "register", "restrict", "return", "short",
  "signed", "sizeof", "static", "struct", "switch", "typedef", "union", "unsigned", "void", "volatile", "while",
  "_Alignas", "_Alignof", "_Atomic", "_Bool", "_Complex", "_Generic", "_Imaginary", "_Noreturn", "_Static_assert",
  "_Thread_local"].map String.toList

-- Macros of the language itself.
def predefined : List (List Char) := ["__DATE__", "__FILE__", "__LINE__", "__STDC__", "__STDC_HOSTED__",
  "__STDC_VERSION__", "__TIME__"].map String.toList

def widths : List (List Char) := ["8", "16", "32", "64"].map String.toList

def around (front : String) (middle : List Char) (back : String) : List Char := front.toList ++ middle ++ back.toList

-- <stdint.h>
def stdintTypes : List (List Char) :=
  widths.flatMap (fun n => [around "int" n "_t", around "uint" n "_t", around "int_least" n "_t",
    around "uint_least" n "_t", around "int_fast" n "_t", around "uint_fast" n "_t"]) ++
  ["intptr_t", "uintptr_t", "intmax_t", "uintmax_t"].map String.toList

def stdintMacros : List (List Char) :=
  widths.flatMap (fun n => [around "INT" n "_MIN", around "INT" n "_MAX", around "UINT" n "_MAX",
    around "INT_LEAST" n "_MIN", around "INT_LEAST" n "_MAX", around "UINT_LEAST" n "_MAX", around "INT_FAST" n "_MIN",
    around "INT_FAST" n "_MAX", around "UINT_FAST" n "_MAX"]) ++
  ["INTPTR_MIN", "INTPTR_MAX", "UINTPTR_MAX", "INTMAX_MIN", "INTMAX_MAX", "UINTMAX_MAX", "PTRDIFF_MIN", "PTRDIFF_MAX",
    "SIG_ATOMIC_MIN", "SIG_ATOMIC_MAX", "SIZE_MAX", "WCHAR_MIN", "WCHAR_MAX", "WINT_MIN", "WINT_MAX"].map String.toList

-- Macros with an argument.
def stdintFunctions : List (List Char) := widths.flatMap (fun n => [around "INT" n "_C", around "UINT" n "_C"]) ++
  ["INTMAX_C", "UINTMAX_C"].map String.toList

-- <stdbool.h>
def stdboolMacros : List (List Char) := ["bool", "true", "false", "__bool_true_false_are_defined"].map String.toList

/-! Whole files -/

def scan (s : Mode × Place) (text : List Char) : List Token × (Mode × Place) :=
  ((lex s.2 (uncomment s.1 text).1).1, (uncomment s.1 text).2, (lex s.2 (uncomment s.1 text).1).2)

theorem scanAppend (s : Mode × Place) (text rest : List Char) : scan s (text ++ rest) =
    ((scan s text).1 ++ (scan (scan s text).2 rest).1, (scan (scan s text).2 rest).2) := by
  simp only [scan, uncommentAppend, lexAppend]

/-- At the beginning of a line. -/
def fresh : Mode × Place := (.code, .code true [])

/-- The declarations of a file, which ends with a whole line. -/
def declarations (text : List Char) : Option (List Item) :=
  if (scan fresh text).2 = fresh then items false (scan fresh text).1 else none

theorem declarationsRead {text : List Char} {found : List Item} : declarations text = some found ↔
    scan fresh text = (found.flatMap Item.tokens, fresh) ∧ formed false found = true := by
  unfold declarations
  split_ifs with ends
  · rw [itemsFormed]
    exact ⟨fun ⟨spelled, fine⟩ => ⟨Prod.ext spelled ends, fine⟩, fun ⟨read, fine⟩ => ⟨congrArg Prod.fst read, fine⟩⟩
  · exact ⟨nofun, fun ⟨read, _⟩ => absurd (congrArg Prod.snd read) ends⟩

theorem scannedCount {c : Char} (mark : isName c = false ∧ c ∉ [' ', '\n', '#']) {text : List Char} {tokens : List Token}
    (read : scan fresh text = (tokens, fresh)) :
    (uncomment .code text).1.count c = (tokens.flatMap Token.text).count c := by
  have tokensRead : (lex (.code true []) (uncomment .code text).1).1 = tokens := congrArg Prod.fst read
  have placeLeft : (lex (.code true []) (uncomment .code text).1).2 = .code true [] :=
    congrArg (Prod.snd ∘ Prod.snd) read
  have counted := lexCount mark (.code true []) (uncomment .code text).1
  rw [tokensRead, placeLeft] at counted
  simpa [Place.pending] using counted.symm

/-! What a text gives, in states of a kind, and the kind of state it leaves -/

def Gives (before : Mode × Place → Prop) (text : List Char) (made : List Token) (after : Mode × Place → Prop) : Prop :=
  ∀ s, before s → ∃ last, scan s text = (made, last) ∧ after last

section gives
variable {before between after : Mode × Place → Prop} {text text' : List Char} {made made' : List Token}

theorem Gives.trans (first : Gives before text made between) (second : Gives between text' made' after) :
    Gives before (text ++ text') (made ++ made') after := by
  intro s entered
  obtain ⟨next, one, here⟩ := first s entered
  obtain ⟨last, two, left⟩ := second next here
  exact ⟨last, by rw [scanAppend, one, two], left⟩

theorem Gives.weaken (gives : Gives before text made between) (weaker : ∀ {s}, between s → after s) :
    Gives before text made after := by
  intro s entered
  obtain ⟨last, scanned, left⟩ := gives s entered
  exact ⟨last, scanned, weaker left⟩

theorem givesAll {α : Type} {items : List α} {text : α → List Char} {made : α → List Token}
    (each : ∀ a ∈ items, Gives between (text a) (made a) between) :
    Gives between (items.flatMap text) (items.flatMap made) between := by
  induction items with
  | nil => exact fun s here => ⟨s, rfl, here⟩
  | cons a items ih =>
    rw [List.flatMap_cons, List.flatMap_cons]
    exact (each a List.mem_cons_self).trans (ih fun b member => each b (List.mem_cons_of_mem a member))

end gives

def Fresh (s : Mode × Place) : Prop := s = fresh

/-- Between two tokens of code. -/
def Between (s : Mode × Place) : Prop := ∃ start, s = (.code, .code start [])

/-- At the beginning of a line, or in the comment that is all there is on it. -/
def Calm (s : Mode × Place) : Prop := s = fresh ∨ s = (.line, .code true [])

theorem freshBetween {s : Mode × Place} (here : Fresh s) : Between s := ⟨true, here⟩

theorem freshCalm {s : Mode × Place} (here : Fresh s) : Calm s := .inl here

section rules
variable {name type text body : List Char}

theorem scanCode (plain : '/' ∉ text) (place : Place) :
    scan (.code, place) text = ((lex place text).1, .code, (lex place text).2) := by
  simp only [scan, uncommentCode plain]

theorem scanLine (line : '\n' ∉ body) (place : Place) : scan (.line, place) body = ([], .line, place) := by
  simp only [scan, uncommentLine line, lexNil]

theorem scanComment (line : '\n' ∉ body) (place : Place) :
    scan (.code, place) ('/' :: '/' :: body) = ([], .line, place) := scanLine line place

theorem givesBlanks (n : Nat) : Gives Between (List.replicate n ' ') [] Between := by
  rintro s ⟨start, rfl⟩
  have plain : '/' ∉ List.replicate n ' ' := fun member => absurd (List.eq_of_mem_replicate member) (by decide)
  exact ⟨_, by rw [scanCode plain, lexBlanks], start, rfl⟩

theorem givesIndent (n : Nat) : Gives Fresh (List.replicate n ' ') [] Fresh := by
  rintro s rfl
  have plain : '/' ∉ List.replicate n ' ' := fun member => absurd (List.eq_of_mem_replicate member) (by decide)
  exact ⟨_, by rw [fresh, scanCode plain, lexBlanks], rfl⟩

theorem givesNewline : Gives Between ['\n'] [] Fresh := by
  rintro s ⟨start, rfl⟩
  exact ⟨_, rfl, rfl⟩

theorem givesEnd : Gives Calm ['\n'] [] Fresh := by
  rintro s (rfl | rfl)
  · exact ⟨_, rfl, rfl⟩
  · exact ⟨_, rfl, rfl⟩

theorem givesRemark (line : '\n' ∉ body) : Gives Between ('/' :: '/' :: body ++ ['\n']) [] Fresh := by
  rintro s ⟨start, rfl⟩
  refine ⟨fresh, ?_, rfl⟩
  rw [scanAppend, scanComment line]
  rfl

theorem givesComment (line : '\n' ∉ body) : Gives Calm ('/' :: '/' :: body) [] Calm := by
  rintro s (rfl | rfl)
  · exact ⟨_, scanComment line _, .inr rfl⟩
  · refine ⟨_, scanLine ?_ _, .inr rfl⟩
    simpa using line

/-! Words end before a character that is none of theirs -/

theorem lexStopped {c : Char} (stop : isName c = false) (word : List Char) : lexStep (.code false word) c =
    (ended word ++ (lexStep (.code false []) c).1, (lexStep (.code false []) c).2) := by
  have other : ¬ isName c = true := by simp [stop]
  simp only [lexStep, if_neg other, ended, Bool.false_eq_true, false_and, if_false]
  split_ifs
  · rw [List.append_nil]
  · rw [List.append_nil]
  · rfl

theorem lexNamed (named : ∀ c ∈ name, isName c = true) (some : name ≠ []) (start : Bool) {c : Char}
    (stop : isName c = false) (rest : List Char) : lex (.code start []) (name ++ c :: rest) =
      (.word name :: (lex (.code false []) (c :: rest)).1, (lex (.code false []) (c :: rest)).2) := by
  obtain ⟨d, ds, rfl⟩ := List.exists_cons_of_ne_nil some
  have step : lex (.code false (d :: ds)) (c :: rest) =
      (.word (d :: ds) :: (lex (.code false []) (c :: rest)).1, (lex (.code false []) (c :: rest)).2) := by
    rw [lex, run, run, lexStopped stop]
    rfl
  rw [lexAppend, lexWord named some, List.nil_append, List.nil_append, step]

theorem lexMark {c : Char} (mark : isName c = false ∧ c ∉ [' ', '\n', '#']) (start : Bool) (rest : List Char) :
    lex (.code start []) (c :: rest) = (.mark c :: (lex (.code false []) rest).1, (lex (.code false []) rest).2) := by
  obtain ⟨blank, newline, hash⟩ : c ≠ ' ' ∧ c ≠ '\n' ∧ c ≠ '#' := by simpa using mark.2
  have step : lexStep (.code start []) c = ([.mark c], .code false []) := by
    rw [lexStep, if_neg (by simp [mark.1]), if_neg newline, if_neg blank, if_neg fun both => hash both.2]
    rfl
  simp only [lex, run, step, List.singleton_append]

theorem lexBlank (start : Bool) (rest : List Char) : lex (.code start []) (' ' :: rest) = lex (.code start []) rest := rfl

theorem namePlain (named : ∀ c ∈ name, isName c = true) : '/' ∉ name :=
  fun member => absurd (named _ member) (by decide)

theorem givesOpened : Gives Between "typedef struct \x7b".toList Item.opened.tokens Between := by
  rintro s ⟨start, rfl⟩
  exact ⟨_, by cases start <;> rfl, false, rfl⟩

theorem givesMember (typed : ∀ c ∈ type, isName c = true) (named : ∀ c ∈ name, isName c = true) (some : type ≠ [])
    (some' : name ≠ []) : Gives Between (type ++ ' ' :: (name ++ [';'])) (Item.member type name).tokens Between := by
  rintro s ⟨start, rfl⟩
  have plain : '/' ∉ type ++ ' ' :: (name ++ [';']) := by simp [namePlain typed, namePlain named]
  refine ⟨(.code, .code false []), ?_, false, rfl⟩
  rw [scanCode plain, lexNamed typed some start (by decide), lexBlank, lexNamed named some' false (by decide),
    lexMark (by decide), lexNil]
  rfl

theorem givesClosed (named : ∀ c ∈ name, isName c = true) (some : name ≠ []) :
    Gives Between ('\x7d' :: ' ' :: (name ++ [';'])) (Item.closed name).tokens Between := by
  rintro s ⟨start, rfl⟩
  have plain : '/' ∉ '\x7d' :: ' ' :: (name ++ [';']) := by simp [namePlain named]
  refine ⟨(.code, .code false []), ?_, false, rfl⟩
  rw [scanCode plain, lexMark (by decide), lexBlank, lexNamed named some false (by decide), lexMark (by decide), lexNil]
  rfl

theorem givesDirective (plain : '/' ∉ text) (line : '\n' ∉ text) :
    Gives Fresh ('#' :: text ++ ['\n']) (Item.directive text).tokens Fresh := by
  rintro s rfl
  have whole : '/' ∉ '#' :: text ++ ['\n'] := by simp [plain]
  have opened : lex (.code true []) ('#' :: text) = lex (.directive []) text := rfl
  refine ⟨fresh, ?_, rfl⟩
  rw [fresh, scanCode whole, lexAppend, opened, lexDirective line]
  rfl

theorem givesNewlines (n : Nat) : Gives Between (List.replicate (n + 1) '\n') [] Fresh := by
  induction n with
  | zero => exact givesNewline
  | succ n ih => exact (givesNewline.weaken freshBetween).trans ih

/-! What remains of a declaration behind which a text is cut -/

variable {tokens : List Token} {front : List Char} {n : Nat}

theorem remarkGives (declares : Gives Between front tokens Between) (line : '\n' ∉ body)
    (fits : n = front.length ∨ n = front.length + 1 ∨ front.length + body.length + 4 ≤ n) :
    Gives Between ((front ++ [' ', '/', '/'] ++ body ++ ['\n']).take n) tokens Between := by
  have blank : Gives Between (front ++ [' ']) (tokens ++ []) Between := declares.trans (givesBlanks 1)
  rw [List.append_nil] at blank
  have split : front ++ [' ', '/', '/'] ++ body ++ ['\n'] = front ++ [' '] ++ ('/' :: '/' :: body ++ ['\n']) := by simp
  rw [split]
  rcases fits with rfl | rfl | enough
  · rw [List.append_assoc, List.take_left]
    exact declares
  · have cut : (front ++ [' ']).length = front.length + 1 := List.length_append
    rw [← cut, List.take_left]
    exact blank
  · rw [List.take_of_length_le (by simp only [List.length_append, List.length_cons, List.length_nil]; omega)]
    have whole := (blank.trans (givesRemark line)).weaken freshBetween
    rwa [List.append_nil] at whole

theorem linesGives (declares : Gives Between front tokens Between) (newlines : Nat) (fits : front.length < n) :
    Gives Between ((front ++ List.replicate (newlines + 1) '\n').take n) tokens Fresh := by
  obtain ⟨k, more⟩ : ∃ k, min (n - front.length) (newlines + 1) = k + 1 :=
    ⟨min (n - front.length) (newlines + 1) - 1, by omega⟩
  have whole := declares.trans (givesNewlines k)
  rw [List.take_append, List.take_of_length_le (by omega), List.take_replicate, more]
  rwa [List.append_nil] at whole

theorem directiveGives (plain : '/' ∉ text) (line : '\n' ∉ text) (newlines : Nat) (fits : text.length + 1 < n) :
    Gives Fresh (('#' :: text ++ List.replicate (newlines + 1) '\n').take n) (Item.directive text).tokens Fresh := by
  obtain ⟨k, more⟩ : ∃ k, min (n - ('#' :: text).length) (newlines + 1) = k + 1 :=
    ⟨min (n - ('#' :: text).length) (newlines + 1) - 1, by simp only [List.length_cons]; omega⟩
  have later : Gives Fresh (List.replicate k '\n') [] Fresh := by
    cases k with
    | zero => exact fun s here => ⟨s, rfl, here⟩
    | succ k => exact fun s here => givesNewlines k s (freshBetween here)
  have whole := (givesDirective plain line).trans later
  rw [List.append_nil, List.append_assoc] at whole
  rw [List.take_append, List.take_of_length_le (by simp only [List.length_cons]; omega), List.take_replicate, more]
  exact whole

theorem commentGives (line : '\n' ∉ body) : Gives Calm ('/' :: '/' :: body ++ ['\n']) [] Fresh :=
  (givesComment line).trans givesEnd

theorem calmIndent (n : Nat) : Gives Calm (List.replicate n ' ') [] Calm := by
  rintro s (rfl | rfl)
  · obtain ⟨last, scanned, left⟩ := givesIndent n fresh rfl
    exact ⟨last, scanned, freshCalm left⟩
  · exact ⟨_, scanLine (fun member => absurd (List.eq_of_mem_replicate member) (by decide)) _, .inr rfl⟩

theorem cutCommentGives (line : '\n' ∉ body) (some : 2 ≤ n) :
    Gives Calm (('/' :: '/' :: body ++ ['\n']).take n) [] Calm := by
  obtain ⟨k, rfl⟩ : ∃ k, n = k + 2 := ⟨n - 2, by omega⟩
  rw [List.cons_append, List.cons_append, List.take_succ_cons, List.take_succ_cons]
  by_cases enough : body.length < k
  · rw [List.take_of_length_le (by simp only [List.length_append, List.length_singleton]; omega)]
    exact (commentGives line).weaken freshCalm
  · rw [List.take_append_of_le_length (by omega)]
    exact givesComment fun member => line (List.mem_of_mem_take member)

end rules

/-! Texts that may be cut: what is left of them tells where they stand and how much of them there is -/

def Outside (mode : Mode) : Prop := mode ∉ [.block, .star]
instance (mode : Mode) : Decidable (Outside mode) := inferInstanceAs (Decidable (_ ∉ _))

theorem outsideStep {c : Char} {mode : Mode} (outside : Outside mode) (other : mode = .slash → c ≠ '*') :
    Outside (uncommentStep mode c).2 := by
  have code : Outside .code := by decide
  have line : Outside .line := by decide
  have slash : Outside .slash := by decide
  cases mode with
  | code =>
    rw [uncommentStep]
    split_ifs
    · exact slash
    · exact code
  | slash =>
    rw [uncommentStep, if_neg (other rfl)]
    split_ifs
    · exact line
    · exact code
  | line =>
    rw [uncommentStep]
    split_ifs
    · exact code
    · exact line
  | block => exact absurd outside (by decide)
  | star => exact absurd outside (by decide)

theorem outsideStarless {text : List Char} (starless : '*' ∉ text) {mode : Mode} (outside : Outside mode) :
    Outside (uncomment mode text).2 := by
  induction text generalizing mode with
  | nil => exact outside
  | cons c cs ih =>
    obtain ⟨first, rest⟩ := not_or.mp fun found => starless (List.mem_cons.mpr found)
    exact ih rest (outsideStep outside fun _ => Ne.symm first)

theorem unopenedStep {c : Char} (plain : c ≠ '/') (mode : Mode) : (uncommentStep mode c).2 ≠ .slash := by
  cases mode <;> simp only [uncommentStep] <;> split_ifs <;> simp_all

-- Without a slash no comment is opened, but by the slash before the text.
theorem outsidePlain {c : Char} {cs : List Char} (plain : '/' ∉ c :: cs) (other : c ≠ '*') {mode : Mode}
    (outside : Outside mode) : Outside (uncomment mode (c :: cs)).2 := by
  have steady {text : List Char} {mode : Mode} (plain : '/' ∉ text) (outside : Outside mode) (apart : mode ≠ .slash) :
      Outside (uncomment mode text).2 := by
    induction text generalizing mode with
    | nil => exact outside
    | cons d ds ih =>
      obtain ⟨first, rest⟩ := not_or.mp fun found => plain (List.mem_cons.mpr found)
      exact ih rest (outsideStep outside fun same => absurd same apart) (unopenedStep (Ne.symm first) mode)
  obtain ⟨first, rest⟩ := not_or.mp fun found => plain (List.mem_cons.mpr found)
  change Outside (uncomment (uncommentStep mode c).2 cs).2
  exact steady rest (outsideStep outside fun _ => other) (unopenedStep (Ne.symm first) mode)

theorem blockStarless {text : List Char} (starless : '*' ∉ text) : uncomment .block text = ([], .block) := by
  induction text with
  | nil => rfl
  | cons c cs ih =>
    obtain ⟨first, rest⟩ := not_or.mp fun found => starless (List.mem_cons.mpr found)
    have step : uncommentStep .block c = ([], .block) := if_neg (Ne.symm first)
    have tail : run uncommentStep .block cs = ([], .block) := ih rest
    simp only [uncomment, run, step, tail, List.nil_append]

theorem insideSlashless {text : List Char} (plain : '/' ∉ text) {mode : Mode} (inside : mode ∈ [.block, .star]) :
    (uncomment mode text).2 ∈ [.block, .star] := by
  induction text generalizing mode with
  | nil => exact inside
  | cons c cs ih =>
    obtain ⟨first, rest⟩ := not_or.mp fun found => plain (List.mem_cons.mpr found)
    refine ih rest ?_
    have block : Mode.block ∈ [.block, .star] := by decide
    have star : Mode.star ∈ [.block, .star] := by decide
    simp only [List.mem_cons, List.not_mem_nil, or_false] at inside
    rcases inside with rfl | rfl
    · rw [uncommentStep]
      split_ifs
      · exact star
      · exact block
    · rw [uncommentStep, if_neg (Ne.symm first)]
      split_ifs
      · exact star
      · exact block

/-- Behind a whole line, outside of comments or in one of more lines. -/
theorem scanEnds (s : Mode × Place) (text : List Char) :
    (scan s (text ++ ['\n'])).2 = fresh ∨ (scan s (text ++ ['\n'])).2.1 = .block := by
  have newline (place : Place) : (lexStep place '\n').2 = .code true [] := by cases place <;> rfl
  rw [scanAppend]
  obtain ⟨mode, place⟩ := (scan s text).2
  have left : (scan (mode, place) ['\n']).2 =
      ((uncommentStep mode '\n').2, (lex place (uncommentStep mode '\n').1).2) := by
    simp [scan, uncomment, run]
  cases mode with
  | code => exact .inl (congrArg (Prod.mk Mode.code) (newline place))
  | slash => exact .inl (congrArg (Prod.mk Mode.code) (newline _))
  | line => exact .inl (congrArg (Prod.mk Mode.code) (newline place))
  | block => exact .inr rfl
  | star => exact .inr rfl

/-- Read outside of comments the text is left outside of them, and gives no more of these marks than its share. -/
def Shares (c : Char) (text : List Char) (share : Nat) : Prop :=
  ∀ mode, Outside mode → Outside (uncomment mode text).2 ∧ (uncomment mode text).1.count c ≤ share

/-- The mark comes out of the text, and no slash before it, only if it begins in code. -/
def Tells (c : Char) (text : List Char) : Prop :=
  ∀ mode, Outside mode → 0 < (uncomment mode text).1.count c → '/' ∉ (uncomment mode text).1 → mode = .code

section shares
variable {α : Type} {c : Char} {text : α → List Char} {share : α → Nat} {items front back : List α} {a b : α} {mode : Mode}

theorem sharesAll (shares : ∀ a ∈ items, Shares c (text a) (share a)) :
    Shares c (items.flatMap text) (items.map share).sum := by
  induction items with
  | nil => exact fun mode outside => ⟨outside, Nat.le_refl _⟩
  | cons b items ih =>
    intro mode outside
    obtain ⟨between, first⟩ := shares b List.mem_cons_self mode outside
    obtain ⟨after, rest⟩ := ih (fun d member => shares d (List.mem_cons_of_mem b member)) _ between
    rw [List.flatMap_cons, uncommentAppend, List.count_append, List.map_cons, List.sum_cons]
    exact ⟨after, Nat.add_le_add first rest⟩

/-- Marks that all come out come out of every part, as many as its share is. -/
theorem shared (outside : Outside mode) (shares : ∀ a ∈ items, Shares c (text a) (share a))
    (all : (items.map share).sum ≤ (uncomment mode (items.flatMap text)).1.count c) (split : items = front ++ a :: back) :
    Outside (uncomment mode (front.flatMap text)).2 ∧
      (uncomment (uncomment mode (front.flatMap text)).2 (text a)).1.count c = share a := by
  subst split
  obtain ⟨here, before⟩ := sharesAll (fun b member => shares b (List.mem_append_left _ member)) mode outside
  obtain ⟨next, inside⟩ := shares a (List.mem_append_right _ List.mem_cons_self) _ here
  obtain ⟨-, after⟩ := sharesAll (fun b member => shares b (List.mem_append_right _ (List.mem_cons_of_mem a member))) _ next
  rw [List.map_append, List.map_cons, List.sum_append, List.sum_cons, List.flatMap_append, List.flatMap_cons,
    uncommentAppend, uncommentAppend, List.count_append, List.count_append] at all
  exact ⟨here, by omega⟩

/-- A part that tells where it begins begins in code. -/
theorem codeBefore (outside : Outside mode) (shares : ∀ a ∈ items, Shares c (text a) (share a))
    (all : (items.map share).sum ≤ (uncomment mode (items.flatMap text)).1.count c)
    (slashless : '/' ∉ (uncomment mode (items.flatMap text)).1) (split : items = front ++ a :: back)
    (tells : Tells c (text a)) (some : 0 < share a) : (uncomment mode (front.flatMap text)).2 = .code := by
  obtain ⟨here, shown⟩ := shared outside shares all split
  refine tells _ here (by rwa [shown]) fun slash => slashless ?_
  rw [split, List.flatMap_append, List.flatMap_cons, uncommentAppend, uncommentAppend]
  exact List.mem_append_right _ (List.mem_append_left _ slash)

end shares

section cut
variable {c d : Char} {front back body text : List Char} {n : Nat} {mode : Mode}

theorem tellsLine (other : c ∉ ['/', ' ']) (line : '\n' ∉ front) (only : c ∉ back) (same : front ++ back = d :: text)
    (start : d ∉ ['/', '*']) : Tells c (front ++ back) := by
  obtain ⟨noSlash, noBlank⟩ : c ≠ '/' ∧ c ≠ ' ' := by simpa using other
  obtain ⟨plain, starless⟩ : d ≠ '/' ∧ d ≠ '*' := by simpa using start
  intro mode outside shown slashless
  cases mode with
  | code => rfl
  | slash =>
    have step : uncommentStep .slash d = (['/', d], .code) := (if_neg plain).trans (if_neg starless)
    rw [same, uncomment, run, step] at slashless
    exact absurd List.mem_cons_self slashless
  | line =>
    have most := uncommentCount noSlash noBlank .line back
    rw [List.count_eq_zero.mpr only] at most
    rw [uncommentAppend, uncommentLine line] at shown
    exact absurd (Nat.lt_of_lt_of_le shown most) (Nat.lt_irrefl 0)
  | block => exact absurd outside (by decide)
  | star => exact absurd outside (by decide)

theorem tellsCut (other : c ∉ ['/', ' ', '\n']) (line : '\n' ∉ d :: body) (start : d ∉ ['/', '*']) (blanks newlines : Nat) :
    Tells c (List.replicate blanks ' ' ++ (d :: body ++ List.replicate newlines '\n').take (n + 1)) := by
  obtain ⟨noSlash, noBlank, noNewline⟩ : c ≠ '/' ∧ c ≠ ' ' ∧ c ≠ '\n' := by simpa using other
  have cut : (d :: body ++ List.replicate newlines '\n').take (n + 1) =
      d :: body.take n ++ List.replicate (min (n - body.length) newlines) '\n' := by
    rw [List.cons_append, List.take_succ_cons, List.take_append, List.take_replicate, List.cons_append]
  have inside : '\n' ∉ List.replicate blanks ' ' ++ d :: body.take n := by
    refine List.not_mem_append (fun member => absurd (List.eq_of_mem_replicate member) (by decide)) fun member => line ?_
    exact (List.take_sublist (n + 1) (d :: body)).subset member
  have only : c ∉ List.replicate (min (n - body.length) newlines) '\n' := fun member =>
    noNewline (List.eq_of_mem_replicate member)
  rw [cut, ← List.append_assoc]
  cases blanks with
  | zero => exact tellsLine (by simp [noSlash, noBlank]) inside only rfl start
  | succ blanks => exact tellsLine (by simp [noSlash, noBlank]) inside only rfl (by decide : ' ' ∉ ['/', '*'])

theorem markReached (other : c ∉ ['/', ' '])
    (more : front.count c < (uncomment mode ((front ++ back).take n)).1.count c) : front.length < n := by
  obtain ⟨noSlash, noBlank⟩ : c ≠ '/' ∧ c ≠ ' ' := by simpa using other
  by_contra short
  have most := uncommentCount noSlash noBlank mode ((front ++ back).take n)
  rw [List.take_append_of_le_length (by omega)] at most more
  have fewer := (List.take_sublist n front).count_le c
  omega

/-- A declaration with a comment behind it, cut so that what follows is code again. -/
theorem remarkFits (plain : '/' ∉ front) (line : '\n' ∉ body)
    (after : (uncomment .code ((front ++ [' ', '/', '/'] ++ body ++ ['\n']).take n)).2 = .code) :
    n ≤ front.length + 1 ∨ front.length + body.length + 4 ≤ n := by
  by_contra cut
  obtain ⟨k, rfl⟩ : ∃ k, n = front.length + 2 + k := ⟨n - front.length - 2, by omega⟩
  have split : (front ++ [' ', '/', '/'] ++ body ++ ['\n']).take (front.length + 2 + k) =
      front ++ ' ' :: '/' :: ('/' :: body).take k := by
    rw [List.append_assoc, List.append_assoc, Nat.add_assoc, List.take_length_add_append]
    change front ++ (' ' :: '/' :: ('/' :: (body ++ ['\n']))).take (2 + k) = _
    rw [Nat.add_comm 2 k, List.take_succ_cons, List.take_succ_cons, ← List.cons_append,
      List.take_append_of_le_length (by simp only [List.length_cons]; omega)]
  rw [split, uncommentAppend, uncommentCode plain] at after
  cases k with
  | zero => cases after
  | succ k =>
    have inside : (uncomment .code (' ' :: '/' :: '/' :: body.take k)).2 = .line :=
      congrArg Prod.snd (uncommentLine fun member => line (List.mem_of_mem_take member))
    rw [List.take_succ_cons] at after
    cases inside.symm.trans after

theorem commentFits (line : '\n' ∉ body) (some : 2 ≤ n) (outside : Outside mode)
    (after : (uncomment mode (('/' :: '/' :: body ++ ['\n']).take n)).2 = .code) : body.length + 3 ≤ n := by
  by_contra cut
  obtain ⟨k, rfl⟩ : ∃ k, n = k + 2 := ⟨n - 2, by omega⟩
  have inside : '\n' ∉ body.take k := fun member => line (List.mem_of_mem_take member)
  have split : ('/' :: '/' :: body ++ ['\n']).take (k + 2) = '/' :: '/' :: body.take k := by
    rw [List.cons_append, List.cons_append, List.take_succ_cons, List.take_succ_cons,
      List.take_append_of_le_length (by omega)]
  rw [split] at after
  cases mode with
  | code => cases (congrArg Prod.snd (uncommentLine inside)).symm.trans after
  | slash =>
    have rest : '\n' ∉ '/' :: body.take k := by simpa using inside
    cases (congrArg Prod.snd (uncommentLine rest)).symm.trans after
  | line =>
    have rest : '\n' ∉ '/' :: '/' :: body.take k := by simpa using inside
    cases (congrArg Prod.snd (uncommentLine rest)).symm.trans after
  | block => exact absurd outside (by decide)
  | star => exact absurd outside (by decide)

theorem commentShares (other : c ≠ '\n') (line : '\n' ∉ body) (some : 2 ≤ n) :
    Shares c (('/' :: '/' :: body ++ ['\n']).take n) 0 := by
  obtain ⟨k, rfl⟩ : ∃ k, n = k + 2 := ⟨n - 2, by omega⟩
  have cut : ('/' :: '/' :: body ++ ['\n']).take (k + 2) =
      '/' :: '/' :: body.take k ++ List.replicate (min (k - body.length) 1) '\n' := by
    rw [List.cons_append, List.cons_append, List.take_succ_cons, List.take_succ_cons, List.take_append,
      ← List.replicate_one, List.take_replicate]
    rfl
  have inside : '\n' ∉ body.take k := fun member => line (List.mem_of_mem_take member)
  have ends : Outside (uncomment .line (List.replicate (min (k - body.length) 1) '\n')).2 ∧
      (uncomment .line (List.replicate (min (k - body.length) 1) '\n')).1.count c ≤ 0 := by
    rcases Nat.le_one_iff_eq_zero_or_eq_one.mp (Nat.min_le_right (k - body.length) 1) with none | one
    · rw [none]
      exact ⟨by decide, Nat.le_refl _⟩
    · rw [one]
      refine ⟨by decide, ?_⟩
      change ['\n'].count c ≤ 0
      simp [Ne.symm other]
  have opened (mode : Mode) (outside : Outside mode) :
      uncomment mode ('/' :: '/' :: body.take k) = ([], .line) := by
    cases mode with
    | code => exact uncommentLine inside
    | slash => exact uncommentLine (by simpa using inside)
    | line => exact uncommentLine (by simpa using inside)
    | block => exact absurd outside (by decide)
    | star => exact absurd outside (by decide)
  intro mode outside
  rw [cut, uncommentAppend, opened mode outside]
  exact ends

theorem blanksCount (other : c ∉ ['/', ' ']) (blanks : Nat) (mode : Mode) :
    (uncomment mode (List.replicate blanks ' ' ++ text)).1.count c =
      (uncomment (uncomment mode (List.replicate blanks ' ')).2 text).1.count c := by
  obtain ⟨noSlash, noBlank⟩ : c ≠ '/' ∧ c ≠ ' ' := by simpa using other
  have nothing := uncommentCount noSlash noBlank mode (List.replicate blanks ' ')
  rw [List.count_replicate, if_neg (by simpa using Ne.symm noBlank)] at nothing
  rw [uncommentAppend, List.count_append, Nat.le_zero.mp nothing, Nat.zero_add]

end cut

end CText

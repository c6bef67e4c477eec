import BitN.Lexer

/-! The lexical structure of a source text, said without a lexer: gaps, spans, the
longest span at a position, and a text cut into both. -/
namespace BitN.Lexical

def operators : List (CString × TokenType) := [
  ("+=".toList, .tokPlusAssign), ("+".toList, .tokPlus),
  ("-=".toList, .tokMinusAssign), ("->".toList, .tokArrow), ("-".toList, .tokMinus),
  ("*".toList, .tokStar), ("/".toList, .tokSlash), ("%".toList, .tokPercent),
  ("&=".toList, .tokAndAssign), ("&".toList, .tokAnd),
  ("|=".toList, .tokOrAssign), ("|".toList, .tokOr),
  ("^=".toList, .tokXorAssign), ("^".toList, .tokXor),
  ("~".toList, .tokNot), ("!=".toList, .tokNe), ("!".toList, .tokNot),
  ("<<<".toList, .tokLrotate), ("<<".toList, .tokLshift), ("<=".toList, .tokLe), ("<".toList, .tokLt),
  (">>>".toList, .tokRrotate), (">>".toList, .tokRshift), (">=".toList, .tokGe), (">".toList, .tokGt),
  ("==".toList, .tokEq), ("=".toList, .tokAssign),
  ("(".toList, .tokLparen), (")".toList, .tokRparen),
  ("\x7b".toList, .tokLbrace), ("\x7d".toList, .tokRbrace),
  ("[".toList, .tokLbracket), ("]".toList, .tokRbracket),
  (":".toList, .tokColon), (";".toList, .tokSemicolon), (",".toList, .tokComma),
  (".".toList, .tokDot), ("@".toList, .tokAt)]

def Word (s : CString) : Prop :=
  ∃ c cs, s = c :: cs ∧ (isAlpha c = true ∨ c = '_') ∧ ∀ d ∈ cs, isWord d = true

def Prefixed (letters : List Char) (digit : Char → Bool) (s : CString) : Prop :=
  ∃ m cs, s = '0' :: m :: cs ∧ m ∈ letters ∧ ∀ d ∈ cs, digit d = true

def isBit (c : Char) : Bool := c = '0' || c = '1'

inductive Numeral (s : CString) : Prop where
  | decimal (nonempty : s ≠ []) (digits : ∀ d ∈ s, isDigit d = true)
  | hexadecimal (shape : Prefixed ['x', 'X'] isXdigit s)
  | binary (shape : Prefixed ['b', 'B'] isBit s)

inductive StringBody : CString → Prop where
  | nil : StringBody []
  | plain {c cs} (quote : c ≠ '"') (slash : c ≠ '\\') (rest : StringBody cs) : StringBody (c :: cs)
  | escape {c cs} (rest : StringBody cs) : StringBody ('\\' :: c :: cs)

/-- A whole span is a keyword exactly when it is spelled like it. -/
def KeywordRule (s : CString) (type : TokenType) : Prop :=
  (∀ k ∈ keywords, type = k.2 ↔ s = k.1) ∧ (type = .tokIdentifier ↔ ∀ k ∈ keywords, s ≠ k.1)

/-- `span` may be read at the start of `text`, as a token of this type with this content. -/
inductive Reading (text : CString) : CString → TokenType → CString → Prop where
  | word {s type} (start : s <+: text) (shape : Word s) (rule : KeywordRule s type) :
      Reading text s type s
  | numeral {s} (start : s <+: text) (shape : Numeral s) : Reading text s .tokNumber s
  | operator {s type} (start : s <+: text) (spelled : (s, type) ∈ operators) : Reading text s type s
  | closed {body} (start : '"' :: (body ++ ['"']) <+: text) (shape : StringBody body) :
      Reading text ('"' :: (body ++ ['"'])) .tokString body
  | unclosed {body} (all : text = '"' :: body)
      (open_ : ∀ closed, StringBody closed → ¬ closed ++ ['"'] <+: body) :
      Reading text ('"' :: body) .tokString body

def Holds (tok : Token) (content : CString) : Prop :=
  tok.length = content.length ∧ content <+: tok.value

/-- The span and token at the start of a text: the longest reading, or one stray character. -/
inductive TokenAt (text : CString) : CString → Token → Prop where
  | lexeme {span tok content} (reading : Reading text span tok.type content)
      (longest : ∀ s type c, Reading text s type c → s.length ≤ span.length)
      (holds : Holds tok content) : TokenAt text span tok
  | error {c tok} (none : ∀ s type c, ¬ Reading text s type c) (start : [c] <+: text)
      (type : tok.type = .tokError) (holds : Holds tok []) : TokenAt text [c] tok

/-- Whitespace and comments in front of `after`. A line comment reaches to a newline or
the end; a block comment to its first `*/`, or, when it is the last thing, to the end. -/
inductive Gap (after : CString) : CString → Prop where
  | nil : Gap after []
  | space {c gap} (blank : isSpace c = true) (rest : Gap after gap) : Gap after (c :: gap)
  | line {body gap} (oneLine : '\n' ∉ body) (ends : (gap ++ after).headD '\n' = '\n')
      (rest : Gap after gap) : Gap after ('/' :: '/' :: (body ++ gap))
  | block {body gap} (first : ¬ ['*', '/'] <:+: body ++ ['*']) (rest : Gap after gap) :
      Gap after ('/' :: '*' :: (body ++ '*' :: '/' :: gap))
  | unclosed {body} (last : after = []) (none : ¬ ['*', '/'] <:+: body) :
      Gap after ('/' :: '*' :: body)

def Solid (text : CString) : Prop :=
  (∀ c ∈ text.head?, isSpace c = false) ∧ ¬ ['/', '/'] <+: text ∧ ¬ ['/', '*'] <+: text

inductive Partition : CString → List Token → Prop where
  | done {gap} (last : Gap [] gap) : Partition gap []
  | token {gap span rest tok toks} (before : Gap (span ++ rest) gap) (solid : Solid (span ++ rest))
      (found : TokenAt (span ++ rest) span tok) (tail : Partition rest toks) :
      Partition (gap ++ (span ++ rest)) (tok :: toks)

theorem spaces {after ws gap} (blank : ∀ c ∈ ws, isSpace c = true) (rest : Gap after gap) :
    Gap after (ws ++ gap) := by
  induction ws with
  | nil => exact rest
  | cons c cs ih =>
    exact .space (blank c List.mem_cons_self) (ih fun d member => blank d (List.mem_cons_of_mem _ member))

/-! The first character of a text decides which readings it has. -/

theorem alphaNotDigit {c : Char} (alpha : isAlpha c = true) : isDigit c = false := by
  simp only [isAlpha, isDigit, Char.le_def, UInt32.le_iff_toNat_le, Bool.or_eq_true, Bool.and_eq_true,
    decide_eq_true_eq, Bool.and_eq_false_iff, decide_eq_false_iff_not, Nat.not_le] at alpha ⊢
  have a : 'a'.val.toNat = 97 := rfl
  have z : 'z'.val.toNat = 122 := rfl
  have A : 'A'.val.toNat = 65 := rfl
  have Z : 'Z'.val.toNat = 90 := rfl
  have zero : '0'.val.toNat = 48 := rfl
  have nine : '9'.val.toNat = 57 := rfl
  omega

theorem wordStartNotDigit {c : Char} (start : isAlpha c = true ∨ c = '_') : isDigit c = false := by
  rcases start with alpha | rfl
  · exact alphaNotDigit alpha
  · decide

theorem operatorHeads : ∀ o ∈ operators, o.1 ≠ [] ∧ ∀ c ∈ o.1.head?,
    isAlpha c = false ∧ c ≠ '_' ∧ isDigit c = false ∧ c ≠ '"' := by
  have table : operators.all fun o => o.1 ≠ [] && o.1.head?.all fun c =>
      !isAlpha c && c ≠ '_' && !isDigit c && c ≠ '"' := by decide
  simpa [and_assoc, Option.all_eq_true] using table

theorem prefixHead {s cs : CString} {c : Char} (start : s <+: c :: cs) (nonempty : s ≠ []) :
    s.head? = some c := by
  obtain ⟨d, ds, rfl⟩ := List.exists_cons_of_ne_nil nonempty
  obtain ⟨rfl, -⟩ := List.cons_prefix_cons.mp start
  rfl

theorem numeralHead {s : CString} (shape : Numeral s) : ∃ c cs, s = c :: cs ∧ isDigit c = true := by
  cases shape with
  | decimal nonempty digits =>
    obtain ⟨c, cs, rfl⟩ := List.exists_cons_of_ne_nil nonempty
    exact ⟨c, cs, rfl, digits c List.mem_cons_self⟩
  | hexadecimal shape => obtain ⟨m, cs, rfl, -, -⟩ := shape; exact ⟨_, _, rfl, by decide⟩
  | binary shape => obtain ⟨m, cs, rfl, -, -⟩ := shape; exact ⟨_, _, rfl, by decide⟩

theorem wordReading {c cs s type content} (reading : Reading (c :: cs) s type content)
    (start : isAlpha c = true ∨ c = '_') : Word s ∧ s <+: c :: cs := by
  have digit := wordStartNotDigit start
  have quote : c ≠ '"' := by rintro rfl; revert start; decide
  cases reading with
  | word pre shape rule => exact ⟨shape, pre⟩
  | numeral pre shape =>
    obtain ⟨d, ds, rfl, isNum⟩ := numeralHead shape
    obtain ⟨rfl, -⟩ := List.cons_prefix_cons.mp pre
    simp [digit] at isNum
  | operator pre spelled =>
    obtain ⟨nonempty, heads⟩ := operatorHeads _ spelled
    obtain ⟨alpha, under, -, -⟩ := heads c (prefixHead pre nonempty)
    rcases start with h | h
    · simp [alpha] at h
    · exact absurd h under
  | closed pre shape => exact absurd (List.cons_prefix_cons.mp pre).1.symm quote
  | unclosed all none => exact absurd (List.cons.inj all).1 quote

theorem numeralReading {c cs s type content} (reading : Reading (c :: cs) s type content)
    (start : isDigit c = true) : Numeral s ∧ s <+: c :: cs := by
  have quote : c ≠ '"' := by rintro rfl; revert start; decide
  cases reading with
  | word pre shape rule =>
    obtain ⟨d, ds, rfl, letter, -⟩ := shape
    obtain ⟨rfl, -⟩ := List.cons_prefix_cons.mp pre
    exact absurd start (by simp [wordStartNotDigit letter])
  | numeral pre shape => exact ⟨shape, pre⟩
  | operator pre spelled =>
    obtain ⟨nonempty, heads⟩ := operatorHeads _ spelled
    simp [(heads c (prefixHead pre nonempty)).2.2.1] at start
  | closed pre shape => exact absurd (List.cons_prefix_cons.mp pre).1.symm quote
  | unclosed all none => exact absurd (List.cons.inj all).1 quote

theorem stringReading {cs s type content} (reading : Reading ('"' :: cs) s type content) :
    (∃ body, s = '"' :: (body ++ ['"']) ∧ StringBody body ∧ body ++ ['"'] <+: cs) ∨
    (s = '"' :: cs ∧ ∀ closed, StringBody closed → ¬ closed ++ ['"'] <+: cs) := by
  cases reading with
  | word pre shape rule =>
    obtain ⟨d, ds, rfl, letter, -⟩ := shape
    obtain ⟨rfl, -⟩ := List.cons_prefix_cons.mp pre
    exact absurd letter (by decide)
  | numeral pre shape =>
    obtain ⟨d, ds, rfl, digit⟩ := numeralHead shape
    obtain ⟨rfl, -⟩ := List.cons_prefix_cons.mp pre
    exact absurd digit (by decide)
  | operator pre spelled =>
    obtain ⟨nonempty, heads⟩ := operatorHeads _ spelled
    exact absurd rfl (heads '"' (prefixHead pre nonempty)).2.2.2
  | closed pre shape => exact .inl ⟨_, rfl, shape, (List.cons_prefix_cons.mp pre).2⟩
  | unclosed all none =>
    obtain ⟨-, rfl⟩ := List.cons.inj all
    exact .inr ⟨rfl, none⟩

theorem operatorReading {c cs s type content} (reading : Reading (c :: cs) s type content)
    (letter : isAlpha c = false) (under : c ≠ '_') (digit : isDigit c = false) (quote : c ≠ '"') :
    (s, type) ∈ operators ∧ s <+: c :: cs := by
  cases reading with
  | word pre shape rule =>
    obtain ⟨d, ds, rfl, start, -⟩ := shape
    obtain ⟨rfl, -⟩ := List.cons_prefix_cons.mp pre
    rcases start with h | h
    · simp [letter] at h
    · exact absurd h under
  | numeral pre shape =>
    obtain ⟨d, ds, rfl, isNum⟩ := numeralHead shape
    obtain ⟨rfl, -⟩ := List.cons_prefix_cons.mp pre
    simp [digit] at isNum
  | operator pre spelled => exact ⟨spelled, pre⟩
  | closed pre shape => exact absurd (List.cons_prefix_cons.mp pre).1.symm quote
  | unclosed all none => exact absurd (List.cons.inj all).1 quote

end BitN.Lexical

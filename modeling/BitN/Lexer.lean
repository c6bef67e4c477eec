import BitN.Token
import BitN.Lib.Bounded

/-! The lexer over a NUL-terminated input. `current` and `pos` are kept in step as
fields of the state, so no scanner can hold a character that is not at its position
or stand past the terminator. The indentation fields, which nothing reads, are left out. -/
namespace BitN

/-- A C source text: its characters before the terminator. -/
structure Source where
  text : CString
  noNul : '\x00' ∉ text

/-- Reading `input[pos]`: the terminator stands after the last character. -/
def charAt (input : CString) (pos : Nat) : Char := input.getD pos '\x00'

structure Lexer where
  input : CString
  pos : Nat
  line : Int
  column : Int
  current : Char
  noNul : '\x00' ∉ input
  inside : pos ≤ input.length
  synced : current = charAt input pos

theorem charAtEnd {input : CString} {pos : Nat} (noNul : '\x00' ∉ input) :
    charAt input pos = '\x00' ↔ input.length ≤ pos := by
  unfold charAt
  by_cases h : pos < input.length
  · have other : input[pos] ≠ '\x00' := fun same => noNul (same ▸ List.getElem_mem h)
    simp [other, h]
  · simp [Nat.le_of_not_lt h]

def lexerAdvance (lexer : Lexer) : Lexer :=
  let line := if lexer.current = '\n' then wrapInt (lexer.line + 1) else lexer.line
  let column := if lexer.current = '\n' then 0 else wrapInt (lexer.column + 1)
  if stop : charAt lexer.input lexer.pos = '\x00' then
    { lexer with line := line, column := column, current := '\x00', synced := stop.symm }
  else
    { lexer with
      line := line, column := column, pos := lexer.pos + 1
      current := charAt lexer.input (lexer.pos + 1)
      inside := by
        have := (charAtEnd lexer.noNul).not.mp stop
        omega
      synced := rfl }

def lexerPeek (lexer : Lexer) : Char :=
  if charAt lexer.input lexer.pos = '\x00' then '\x00' else charAt lexer.input (lexer.pos + 1)

def lexerCreate (input : Source) : Lexer where
  input := input.text
  pos := 0
  line := 1
  column := 0
  current := charAt input.text 0
  noNul := input.noNul
  inside := Nat.zero_le _
  synced := rfl

def Lexer.remaining (lexer : Lexer) : Nat := lexer.input.length - lexer.pos

def lexerAdvanceWhile (guard : Char → Bool) (lexer : Lexer) : Lexer :=
  Bounded.loop (fun l => guard l.current) lexerAdvance lexer.remaining lexer

def lexerSkipWhitespace (lexer : Lexer) : Lexer :=
  lexerAdvanceWhile (fun c => c ≠ '\x00' && isSpace c) lexer

/-- The block comment loop; the `*/` branch consumes both characters and breaks. -/
def lexerSkipBlock : Nat → Lexer → Lexer
  | 0, lexer => lexer
  | n + 1, lexer =>
    if lexer.current ≠ '\x00' then
      if lexer.current = '*' && lexerPeek lexer = '/' then
        lexerAdvance (lexerAdvance lexer)
      else lexerSkipBlock n (lexerAdvance lexer)
    else lexer

def lexerSkipComment (lexer : Lexer) : Lexer :=
  if lexer.current = '/' && lexerPeek lexer = '/' then
    lexerAdvanceWhile (fun c => c ≠ '\n' && c ≠ '\x00') lexer
  else if lexer.current = '/' && lexerPeek lexer = '*' then
    let lexer := lexerAdvance (lexerAdvance lexer)
    lexerSkipBlock lexer.remaining lexer
  else lexer

def lexerMakeToken (type : TokenType) (value : CString) (length line column : Int) : Token :=
  ⟨type, value, line, column, length⟩

def keywords : List (CString × TokenType) := [
  ("fn".toList, .tokFn), ("mut".toList, .tokMut),
  ("proc".toList, .tokProc), ("func".toList, .tokFunc), ("var".toList, .tokVar),
  ("let".toList, .tokLet), ("return".toList, .tokReturn), ("if".toList, .tokIf),
  ("else".toList, .tokElse), ("while".toList, .tokWhile), ("for".toList, .tokFor),
  ("in".toList, .tokIn),
  ("true".toList, .tokTrue), ("false".toList, .tokFalse),
  ("u8".toList, .tokU8), ("u16".toList, .tokU16), ("u32".toList, .tokU32),
  ("u64".toList, .tokU64), ("i8".toList, .tokI8), ("i16".toList, .tokI16),
  ("i32".toList, .tokI32), ("i64".toList, .tokI64), ("void".toList, .tokVoid),
  ("peripheral".toList, .tokPeripheral), ("register".toList, .tokRegister),
  ("field".toList, .tokField),
  ("ro".toList, .tokRo), ("wo".toList, .tokWo), ("rw".toList, .tokRw), ("w1c".toList, .tokW1c)]

def lexerKeywordType (word : CString) (length : Int) : TokenType :=
  match keywords.find? (fun k => length = k.1.length && word.take k.1.length = k.1) with
  | some k => k.2
  | none => .tokIdentifier

def spanLength (start stop : Nat) : Int := wrapInt ((stop - start : Nat) : Int)

def lexerReadString (lexer : Lexer) : Token × Lexer :=
  let line := lexer.line
  let column := lexer.column
  let start := lexerAdvance lexer
  let stop := Bounded.loop (fun l => l.current ≠ '"' && l.current ≠ '\x00')
    (fun l => lexerAdvance (if l.current = '\\' && lexerPeek l ≠ '\x00' then lexerAdvance l else l))
    start.remaining start
  let length := spanLength start.pos stop.pos
  let lexer := if stop.current = '"' then lexerAdvance stop else stop
  (lexerMakeToken .tokString (start.input.drop start.pos) length line column, lexer)

def lexerReadNumber (lexer : Lexer) : Token × Lexer :=
  let line := lexer.line
  let column := lexer.column
  let start := lexer
  let lexer :=
    if lexer.current = '0' && (lexerPeek lexer = 'x' || lexerPeek lexer = 'X') then
      lexerAdvanceWhile isXdigit (lexerAdvance (lexerAdvance lexer))
    else if lexer.current = '0' && (lexerPeek lexer = 'b' || lexerPeek lexer = 'B') then
      lexerAdvanceWhile (fun c => c = '0' || c = '1') (lexerAdvance (lexerAdvance lexer))
    else lexerAdvanceWhile isDigit lexer
  let length := spanLength start.pos lexer.pos
  (lexerMakeToken .tokNumber (start.input.drop start.pos) length line column, lexer)

def lexerReadIdentifierOrKeyword (lexer : Lexer) : Token × Lexer :=
  let line := lexer.line
  let column := lexer.column
  let start := lexer
  let lexer := lexerAdvanceWhile isWord lexer
  let length := spanLength start.pos lexer.pos
  let value := start.input.drop start.pos
  (lexerMakeToken (lexerKeywordType value length) value length line column, lexer)

def lexerOperator (c : Char) (line column : Int) (lexer : Lexer) : Token × Lexer :=
  let one (type : TokenType) (text : String) : Token × Lexer :=
    (lexerMakeToken type text.toList 1 line column, lexer)
  let two (type : TokenType) (text : String) : Token × Lexer :=
    (lexerMakeToken type text.toList 2 line column, lexerAdvance lexer)
  let three (type : TokenType) (text : String) : Token × Lexer :=
    (lexerMakeToken type text.toList 3 line column, lexerAdvance (lexerAdvance lexer))
  match c with
  | '+' => if lexer.current = '=' then two .tokPlusAssign "+=" else one .tokPlus "+"
  | '-' =>
    if lexer.current = '=' then two .tokMinusAssign "-="
    else if lexer.current = '>' then two .tokArrow "->"
    else one .tokMinus "-"
  | '*' => one .tokStar "*"
  | '/' => one .tokSlash "/"
  | '%' => one .tokPercent "%"
  | '&' => if lexer.current = '=' then two .tokAndAssign "&=" else one .tokAnd "&"
  | '|' => if lexer.current = '=' then two .tokOrAssign "|=" else one .tokOr "|"
  | '^' => if lexer.current = '=' then two .tokXorAssign "^=" else one .tokXor "^"
  | '~' => one .tokNot "~"
  | '!' => if lexer.current = '=' then two .tokNe "!=" else one .tokNot "!"
  | '<' =>
    if lexer.current = '<' then
      if (lexerAdvance lexer).current = '<' then three .tokLrotate "<<<"
      else two .tokLshift "<<"
    else if lexer.current = '=' then two .tokLe "<="
    else one .tokLt "<"
  | '>' =>
    if lexer.current = '>' then
      if (lexerAdvance lexer).current = '>' then three .tokRrotate ">>>"
      else two .tokRshift ">>"
    else if lexer.current = '=' then two .tokGe ">="
    else one .tokGt ">"
  | '=' => if lexer.current = '=' then two .tokEq "==" else one .tokAssign "="
  | '(' => one .tokLparen "("
  | ')' => one .tokRparen ")"
  | '\x7b' => one .tokLbrace "\x7b"
  | '\x7d' => one .tokRbrace "\x7d"
  | '[' => one .tokLbracket "["
  | ']' => one .tokRbracket "]"
  | ':' => one .tokColon ":"
  | ';' => one .tokSemicolon ";"
  | ',' => one .tokComma ","
  | '.' => one .tokDot "."
  | '@' => one .tokAt "@"
  | _ => (lexerMakeToken .tokError [] 0 line column, lexer)

def lexerSkipGap : Nat → Lexer → Lexer
  | 0, lexer => lexer
  | n + 1, lexer =>
    let lexer := lexerSkipWhitespace lexer
    if lexer.current = '/' && (lexerPeek lexer = '/' || lexerPeek lexer = '*') then
      lexerSkipGap n (lexerSkipComment lexer)
    else lexer

def lexerNextToken (lexer : Lexer) : Token × Lexer :=
  let lexer := lexerSkipGap (lexer.remaining + 1) lexer
  let line := lexer.line
  let column := lexer.column
  if lexer.current = '\x00' then (lexerMakeToken .tokEof [] 0 line column, lexer)
  else if lexer.current = '"' then lexerReadString lexer
  else if isDigit lexer.current then lexerReadNumber lexer
  else if isAlpha lexer.current || lexer.current = '_' then lexerReadIdentifierOrKeyword lexer
  else
    let c := lexer.current
    lexerOperator c line column (lexerAdvance lexer)

end BitN

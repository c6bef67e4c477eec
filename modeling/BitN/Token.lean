import Mathlib.Algebra.Group.Nat.Defs
import Mathlib.Data.List.Basic

/-! Token kinds and tokens. A C string is the list of its characters before the
terminator, so `value` is everything readable from the stored pointer and
`length` is what the lexer meant of it. C `int` arithmetic goes through `wrapInt`. -/
namespace BitN

abbrev CString := List Char

def wrapInt (n : Int) : Int := n.bmod (2 ^ 32)

theorem wrapIntSmall {n : Nat} (small : n < 2 ^ 31) : wrapInt n = n := by
  unfold wrapInt
  rw [Int.bmod_def]
  omega

inductive TokenType where
  | tokNumber | tokIdentifier | tokString
  | tokIf | tokElse | tokWhile | tokFor | tokIn | tokReturn
  | tokProc | tokFunc
  | tokLet | tokVar
  | tokTrue | tokFalse
  | tokU8 | tokU16 | tokU32 | tokU64 | tokI8 | tokI16 | tokI32 | tokI64 | tokVoid
  | tokPeripheral | tokRegister | tokField
  | tokRo | tokWo | tokRw | tokW1c
  | tokAnd | tokOr | tokXor | tokNot | tokLshift | tokRshift | tokLrotate | tokRrotate
  | tokPlus | tokMinus | tokStar | tokSlash | tokPercent
  | tokEq | tokNe | tokLt | tokGt | tokLe | tokGe
  | tokAssign | tokPlusAssign | tokMinusAssign | tokAndAssign | tokOrAssign | tokXorAssign
  | tokLparen | tokRparen
  | tokLbracket | tokRbracket
  | tokColon | tokSemicolon | tokComma | tokDot
  | tokAt
  | tokEqual | tokIndent | tokDedent
  | tokFn | tokMut | tokArrow | tokLbrace | tokRbrace | tokDarrow
  | tokEof | tokError
  deriving DecidableEq, Repr

structure Token where
  type : TokenType
  value : CString
  line : Int
  column : Int
  length : Int
  deriving DecidableEq, Repr

/- C-locale character classes, on the bytes that are ASCII; every other byte is in none. -/
def isSpace (c : Char) : Bool :=
  c = ' ' || c = '\t' || c = '\n' || c = '\x0b' || c = '\x0c' || c = '\r'
def isDigit (c : Char) : Bool := '0' ≤ c && c ≤ '9'
def isXdigit (c : Char) : Bool := isDigit c || ('a' ≤ c && c ≤ 'f') || ('A' ≤ c && c ≤ 'F')
def isAlpha (c : Char) : Bool := ('a' ≤ c && c ≤ 'z') || ('A' ≤ c && c ≤ 'Z')
def isAlnum (c : Char) : Bool := isAlpha c || isDigit c

def isWord (c : Char) : Bool := isAlnum c || c = '_'

end BitN

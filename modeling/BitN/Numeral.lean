import BitN.LexerSpans
import Mathlib.Data.Nat.Digits.Defs

/-! Two readings of a numeral: the positional value in the notation the lexer scanned,
and `strtoull(text, NULL, 0)`, which picks its base by itself. -/
namespace BitN

def digitValue (c : Char) : Nat :=
  if isDigit c then c.toNat - 48 else if 'a' ≤ c && c ≤ 'z' then c.toNat - 87 else c.toNat - 55

def positional (base : Nat) (digits : CString) : Nat := Nat.ofDigits base (digits.map digitValue).reverse

def isOctal (c : Char) : Bool := '0' ≤ c && c ≤ '7'

/-- The subject of `strtoull` behind the sign: base 16 after `0x` and a digit, else base 8
after `0`, else base 10, up to the first character that is no digit of the base. -/
def strtoullDigits (text : CString) : Nat :=
  if LexerScan.marked ['x', 'X'] text && isXdigit ((text.drop 2).headD '\x00') then
    positional 16 ((text.drop 2).takeWhile isXdigit)
  else if text.headD '\x00' = '0' then positional 8 (text.takeWhile isOctal)
  else positional 10 (text.takeWhile isDigit)

def strtoull (text : CString) : UInt64 :=
  let text := text.dropWhile isSpace
  let sign := text.headD '\x00'
  let magnitude := strtoullDigits (if sign = '-' || sign = '+' then text.tail else text)
  if 2 ^ 64 ≤ magnitude then UInt64.ofNat (2 ^ 64 - 1)
  else if sign = '-' then -UInt64.ofNat magnitude
  else UInt64.ofNat magnitude

def numeralValue (numeral : CString) : Nat :=
  if LexerScan.marked ['x', 'X'] numeral then positional 16 (numeral.drop 2)
  else if LexerScan.marked ['b', 'B'] numeral then positional 2 (numeral.drop 2)
  else positional 10 numeral

def HasDigits (numeral : CString) : Prop :=
  LexerScan.marked ['x', 'X', 'b', 'B'] numeral = true → numeral.drop 2 ≠ []

/-- The numerals both readings agree on: hexadecimal ones, binary zeros, and decimal ones
with no leading zero or below eight. -/
def Plain (numeral : CString) : Prop :=
  if LexerScan.marked ['x', 'X'] numeral then True
  else if LexerScan.marked ['b', 'B'] numeral then numeralValue numeral = 0
  else numeral.headD '\x00' ≠ '0' ∨ numeralValue numeral < 8

def decimal (n : Nat) : CString := Nat.toDigits 10 n

instance (numeral : CString) : Decidable (HasDigits numeral) :=
  inferInstanceAs (Decidable (_ → _))

instance (numeral : CString) : Decidable (Plain numeral) := by
  unfold Plain
  infer_instance

namespace Numeral

open LexerScan LexerSpans Lexical

theorem positionalAppend (base : Nat) (front back : CString) :
    positional base (front ++ back) = positional base back + base ^ back.length * positional base front := by
  simp [positional, Nat.ofDigits_append]

theorem positionalSnoc (base : Nat) (front : CString) (c : Char) :
    positional base (front ++ [c]) = digitValue c + base * positional base front := by
  simp [positional, Nat.ofDigits_cons]

theorem octalDigit {c : Char} (octal : isOctal c = true) : isDigit c = true ∧ digitValue c < 8 := by
  simp only [isOctal, Char.le_def, UInt32.le_iff_toNat_le, Bool.and_eq_true, decide_eq_true_eq] at octal
  have digit : isDigit c = true := by
    simp only [isDigit, Char.le_def, UInt32.le_iff_toNat_le, Bool.and_eq_true, decide_eq_true_eq]
    exact ⟨octal.1, octal.2.trans (by decide)⟩
  have seven : '7'.val.toNat = 55 := rfl
  have top : c.toNat ≤ 55 := seven ▸ octal.2
  rw [digitValue, if_pos digit]
  exact ⟨digit, by omega⟩

theorem positionalOctal {digits : CString} (octal : ∀ c ∈ digits, isOctal c = true) :
    positional 8 digits ≤ positional 10 digits ∧ (positional 8 digits = positional 10 digits ↔
      positional 10 digits < 8) := by
  have below : positional 8 digits ≤ positional 10 digits := Nat.ofDigits_monotone _ (by omega)
  refine ⟨below, ?_⟩
  rcases List.eq_nil_or_concat digits with rfl | ⟨front, c, rfl⟩
  · simp [positional]
  · have small := (octalDigit (octal c (by simp))).2
    have front8 : positional 8 front ≤ positional 10 front := Nat.ofDigits_monotone _ (by omega)
    simp only [List.concat_eq_append, positionalSnoc]
    omega

theorem positionalPrefix {front digits : CString} (base : Nat) (start : front <+: digits) (positive : 0 < base) :
    positional base front ≤ positional base digits := by
  obtain ⟨back, rfl⟩ := start
  rw [positionalAppend]
  have := Nat.le_mul_of_pos_left (positional base front) (Nat.pow_pos (n := back.length) positive)
  omega

theorem leadingZero (digits : CString) (decimal : ∀ c ∈ digits, isDigit c = true) :
    positional 8 (digits.takeWhile isOctal) ≤ positional 10 digits ∧
      (positional 8 (digits.takeWhile isOctal) = positional 10 digits ↔ positional 10 digits < 8) := by
  obtain ⟨below, same⟩ := positionalOctal (@takeWhileAll isOctal digits)
  have whole := positionalPrefix 10 (List.takeWhile_prefix isOctal (l := digits)) (by omega)
  refine ⟨below.trans whole, ?_⟩
  rcases h : digits.dropWhile isOctal with _ | ⟨c, back⟩
  · have all : digits.takeWhile isOctal = digits := by
      have cut := List.takeWhile_append_dropWhile (p := isOctal) (l := digits)
      rwa [h, List.append_nil] at cut
    rw [all] at same ⊢
    exact same
  · -- an eight or a nine: the octal reading stops in front of it
    have cut : digits = digits.takeWhile isOctal ++ [c] ++ back := by
      rw [List.append_assoc, List.singleton_append, ← h, List.takeWhile_append_dropWhile]
    have stop : isOctal c = false := by
      have := List.head?_dropWhile_not isOctal digits
      rw [h] at this
      simpa using this
    have digit := decimal c (by rw [cut]; simp)
    have large : 8 ≤ digitValue c := by
      rw [digitValue, if_pos digit]
      simp only [isOctal, isDigit, Char.le_def, UInt32.le_iff_toNat_le, Bool.and_eq_true, decide_eq_true_eq,
        Bool.and_eq_false_iff, decide_eq_false_iff_not] at stop digit
      have zero : '0'.val.toNat = 48 := rfl
      have seven : '7'.val.toNat = 55 := rfl
      have code : c.toNat = c.val.toNat := rfl
      omega
    have upTo := positionalPrefix 10 (show digits.takeWhile isOctal ++ [c] <+: digits from ⟨back, cut.symm⟩) (by omega)
    rw [positionalSnoc] at upTo
    omega

theorem markedTail {letters : List Char} {text : CString} (mark : marked letters text = true) (rest : CString) :
    marked letters (text.take 2 ++ rest) = true ∧ (text.take 2 ++ rest).drop 2 = rest := by
  obtain ⟨m, ds, rfl, member⟩ := markedIff.mp mark
  exact ⟨markedIff.mpr ⟨m, rest, rfl, member⟩, rfl⟩

theorem markedDigits (letters : List Char) {digits : CString} (decimal : ∀ c ∈ digits, isDigit c = true)
    (letter : ∀ m ∈ letters, isDigit m = false) : marked letters digits = false := by
  rw [Bool.eq_false_iff]
  intro mark
  obtain ⟨m, ds, rfl, member⟩ := markedIff.mp mark
  simpa [letter m member] using decimal m (by simp)

theorem digitsHex {text : CString} (hex : marked ['x', 'X'] text = true) :
    strtoullDigits text = positional 16 ((text.drop 2).takeWhile isXdigit) := by
  obtain ⟨m, ds, rfl, member⟩ := markedIff.mp hex
  have letter : isOctal m = false := by
    simp only [List.mem_cons, List.not_mem_nil, or_false] at member
    rcases member with rfl | rfl <;> decide
  rw [strtoullDigits, hex, Bool.true_and]
  change (if isXdigit (ds.headD '\x00') = true then positional 16 (ds.takeWhile isXdigit)
    else positional 8 (('0' :: m :: ds).takeWhile isOctal)) = positional 16 (ds.takeWhile isXdigit)
  split_ifs with digit
  · rfl
  · have none : ds.takeWhile isXdigit = [] := by
      cases ds with
      | nil => rfl
      | cons d ds => exact List.takeWhile_cons_of_neg digit
    have zero : ('0' :: m :: ds).takeWhile isOctal = ['0'] := by
      rw [List.takeWhile_cons_of_pos (by decide), List.takeWhile_cons_of_neg (by simp [letter])]
    rw [none, zero]
    rfl

theorem digitsBinary {text : CString} (binary : marked ['b', 'B'] text = true) : strtoullDigits text = 0 := by
  obtain ⟨m, ds, rfl, member⟩ := markedIff.mp binary
  simp only [List.mem_cons, List.not_mem_nil, or_false] at member
  have letter : isOctal m = false ∧ marked ['x', 'X'] ('0' :: m :: ds) = false := by
    rcases member with rfl | rfl <;> exact ⟨by decide, by simp [marked]⟩
  have zero : ('0' :: m :: ds).takeWhile isOctal = ['0'] := by
    rw [List.takeWhile_cons_of_pos (by decide), List.takeWhile_cons_of_neg (by simp [letter.1])]
  rw [strtoullDigits, letter.2, Bool.false_and, if_neg (by simp), List.headD_cons, if_pos rfl, zero]
  rfl

theorem digitsUnmarked {text : CString} (hex : marked ['x', 'X'] text = false) :
    strtoullDigits text = if text.headD '\x00' = '0' then positional 8 (text.takeWhile isOctal)
      else positional 10 (text.takeWhile isDigit) := by
  rw [strtoullDigits, hex, Bool.false_and, if_neg (by simp)]

theorem digitNotSpaceOrSign {c : Char} (digit : isDigit c = true) : isSpace c = false ∧ c ≠ '-' ∧ c ≠ '+' := by
  refine ⟨?_, by rintro rfl; revert digit; decide, by rintro rfl; revert digit; decide⟩
  by_contra space
  simp only [isSpace, Bool.or_eq_true, decide_eq_true_eq, Bool.not_eq_false] at space
  rcases space with ((((rfl | rfl) | rfl) | rfl) | rfl) | rfl <;> revert digit <;> decide

theorem strtoullDigit {text : CString} (digit : isDigit (text.headD '\x00') = true) :
    (strtoull text).toNat = min (strtoullDigits text) (2 ^ 64 - 1) := by
  obtain ⟨c, cs, rfl⟩ : ∃ c cs, text = c :: cs := by
    cases text with
    | nil => exact absurd digit (by decide)
    | cons c cs => exact ⟨c, cs, rfl⟩
  obtain ⟨space, minus, plus⟩ := digitNotSpaceOrSign (c := c) digit
  have drop : (c :: cs).dropWhile isSpace = c :: cs := List.dropWhile_cons_of_neg (by simp [space])
  simp only [strtoull, drop, List.headD_cons, minus, plus, decide_false, Bool.or_false, Bool.false_eq_true, if_false]
  split_ifs with large
  · rw [Nat.min_eq_right (by omega)]
    rfl
  · rw [Nat.min_eq_left (by omega)]
    exact Nat.mod_eq_of_lt (by omega)

theorem strtoullLexeme {text : CString} (digit : isDigit (text.headD '\x00') = true) :
    strtoull text = strtoull (numeralSpan text) := by
  obtain ⟨c, cs, shape, first⟩ := numeralHead (numeralSpanLongest text digit).1
  have same : strtoullDigits text = strtoullDigits (numeralSpan text) := by
    unfold numeralSpan
    split_ifs with hex bin
    · obtain ⟨mark, tail⟩ := markedTail hex ((text.drop 2).takeWhile isXdigit)
      rw [digitsHex hex, digitsHex mark, tail, List.takeWhile_takeWhile]
      simp
    · obtain ⟨mark, -⟩ := markedTail bin ((text.drop 2).takeWhile fun c => c = '0' || c = '1')
      rw [digitsBinary bin, digitsBinary mark]
    · have head : (text.takeWhile isDigit).headD '\x00' = text.headD '\x00' := by
        cases text with
        | nil => rfl
        | cons d ds => rw [List.takeWhile_cons_of_pos (by exact digit)]; rfl
      have unmarked := markedDigits ['x', 'X'] (@takeWhileAll isDigit text) (by simp [isDigit])
      rw [digitsUnmarked (by simpa using hex), digitsUnmarked unmarked, head, List.takeWhile_takeWhile,
        List.takeWhile_takeWhile]
      congr 2
      · apply takeWhileCongr
        intro d _
        by_cases octal : isOctal d = true
        · simp [octal, (octalDigit octal).1]
        · simp [octal]
      · simp
  have lexeme : isDigit ((numeralSpan text).headD '\x00') = true := by rw [shape]; exact first
  apply UInt64.toNat_inj.mp
  rw [strtoullDigit digit, strtoullDigit lexeme, same]

theorem digitsPlain {numeral : CString} (shape : Lexical.Numeral numeral) :
    strtoullDigits numeral ≤ numeralValue numeral ∧
      (strtoullDigits numeral = numeralValue numeral ↔ Plain numeral) := by
  cases shape with
  | decimal nonempty digits =>
    have hex := markedDigits ['x', 'X'] digits (by simp [isDigit])
    have bin := markedDigits ['b', 'B'] digits (by simp [isDigit])
    have all : numeral.takeWhile isDigit = numeral := List.takeWhile_eq_self_iff.mpr digits
    obtain ⟨below, same⟩ := leadingZero numeral digits
    simp only [digitsUnmarked hex, numeralValue, Plain, hex, bin, Bool.false_eq_true, if_false]
    split_ifs with zero
    · exact ⟨below, same.trans (or_iff_right (not_not.mpr zero)).symm⟩
    · rw [all]
      exact ⟨le_rfl, iff_of_true rfl (.inl zero)⟩
  | hexadecimal shape =>
    obtain ⟨m, ds, rfl, member, digits⟩ := shape
    have hex : marked ['x', 'X'] ('0' :: m :: ds) = true := markedIff.mpr ⟨m, ds, rfl, member⟩
    have all : ds.takeWhile isXdigit = ds := List.takeWhile_eq_self_iff.mpr digits
    have same : strtoullDigits ('0' :: m :: ds) = numeralValue ('0' :: m :: ds) := by
      rw [digitsHex hex, numeralValue, if_pos hex]
      exact congrArg _ all
    exact ⟨same.le, by simp [same, Plain, hex]⟩
  | binary shape =>
    obtain ⟨m, ds, rfl, member, digits⟩ := shape
    have bin : marked ['b', 'B'] ('0' :: m :: ds) = true := markedIff.mpr ⟨m, ds, rfl, member⟩
    have hex : marked ['x', 'X'] ('0' :: m :: ds) = false := by
      simp only [List.mem_cons, List.not_mem_nil, or_false] at member
      rcases member with rfl | rfl <;> simp [marked]
    rw [digitsBinary bin]
    exact ⟨Nat.zero_le _, by simp [Plain, hex, bin, eq_comm]⟩

theorem storedPlain {numeral : CString} (shape : Lexical.Numeral numeral) {width : Nat} (narrow : width ≤ 64)
    (fits : numeralValue numeral < 2 ^ width) :
    (strtoull numeral).toNat % 2 ^ width = numeralValue numeral ↔ Plain numeral := by
  obtain ⟨below, same⟩ := digitsPlain shape
  obtain ⟨c, cs, spelled, digit⟩ := numeralHead shape
  have start : isDigit (numeral.headD '\x00') = true := by rw [spelled]; exact digit
  have wide : 2 ^ width ≤ 2 ^ 64 := Nat.pow_le_pow_right (by omega) narrow
  have read : (strtoull numeral).toNat = strtoullDigits numeral := by
    rw [strtoullDigit start, Nat.min_eq_left (by omega)]
  rw [read, Nat.mod_eq_of_lt (by omega), same]

example : (strtoull "017".toList, numeralValue "017".toList) = (15, 17) := by decide

/-! Numerals that are written -/

theorem writtenDigits {base : Nat} (more : 1 < base) {digit : Char → Prop} (each : ∀ d < base, digit d.digitChar)
    (n : Nat) : ∀ c ∈ Nat.toDigits base n, digit c := by
  induction n using Nat.strongRecOn with
  | _ n ih =>
    rcases Nat.lt_or_ge n base with small | large
    · rw [Nat.toDigits_of_lt_base small]
      simpa using each n small
    · rw [Nat.toDigits_of_base_le more large]
      have last := each (n % base) (Nat.mod_lt n (by omega))
      have front := ih (n / base) (Nat.div_lt_self (by omega) more)
      simpa [or_imp, forall_and, last] using front

theorem decimalDigits (n : Nat) : ∀ c ∈ decimal n, isDigit c = true := writtenDigits (by decide) (by decide) n

theorem writtenValue {base : Nat} (more : 1 < base) (few : base ≤ 16) (n : Nat) :
    positional base (Nat.toDigits base n) = n := by
  have table : ∀ d < 16, digitValue d.digitChar = d := by decide
  induction n using Nat.strongRecOn with
  | _ n ih =>
    rcases Nat.lt_or_ge n base with small | large
    · rw [Nat.toDigits_of_lt_base small]
      simp [positional, table n (by omega)]
    · have last := Nat.mod_lt n (by omega : 0 < base)
      rw [Nat.toDigits_of_base_le more large, positionalSnoc, ih (n / base) (Nat.div_lt_self (by omega) more),
        table _ (by omega)]
      exact Nat.mod_add_div n base

theorem leadingDigit (n : Nat) : ∃ c cs, decimal n = c :: cs ∧ (c = '0' → n = 0) := by
  induction n using Nat.strongRecOn with
  | _ n ih =>
    have table : ∀ d < 10, d.digitChar = '0' → d = 0 := by decide
    rcases Nat.lt_or_ge n 10 with small | large
    · exact ⟨_, _, Nat.toDigits_of_lt_base small, table n small⟩
    · obtain ⟨c, cs, head, zero⟩ := ih (n / 10) (by omega)
      have cut : decimal n = decimal (n / 10) ++ [(n % 10).digitChar] := Nat.toDigits_of_base_le (by omega) large
      refine ⟨c, cs ++ [(n % 10).digitChar], by rw [cut, head]; rfl, fun first => ?_⟩
      have := zero first
      omega

theorem strtoullDecimal (value : UInt64) : strtoull (decimal value.toNat) = value := by
  have digits := decimalDigits value.toNat
  have whole : positional 10 (decimal value.toNat) = value.toNat := writtenValue (by decide) (by decide) _
  obtain ⟨c, cs, head, zero⟩ := leadingDigit value.toNat
  have first : isDigit ((decimal value.toNat).headD '\x00') = true := by
    rw [head]
    exact digits c (by rw [head]; exact List.mem_cons_self)
  have hex := markedDigits ['x', 'X'] digits (by simp [isDigit])
  have read : strtoullDigits (decimal value.toNat) = value.toNat := by
    rw [digitsUnmarked hex]
    split_ifs with leading
    · have none : value.toNat = 0 := zero (by rw [head] at leading; exact leading)
      rw [none]
      rfl
    · rw [List.takeWhile_eq_self_iff.mpr digits, whole]
  apply UInt64.toNat_inj.mp
  have bound := value.toNat_lt
  rw [strtoullDigit first, read, Nat.min_eq_left (by omega)]

end Numeral
end BitN

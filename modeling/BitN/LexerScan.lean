import BitN.Lexer
import Mathlib.Data.List.TakeWhile
import Mathlib.Logic.Function.Iterate
import Mathlib.Tactic.Common

/-! Every scanner of the lexer is a number of `lexer_advance` calls that depends on
the remaining text only, so position, line and column all follow from that number. -/
namespace BitN

def Lexer.rest (lexer : Lexer) : CString := lexer.input.drop lexer.pos

namespace LexerScan

theorem restNoNul (l : Lexer) : '\x00' ∉ l.rest := fun member => l.noNul (List.mem_of_mem_drop member)

theorem remainingRest (l : Lexer) : l.remaining = l.rest.length := by
  simp [Lexer.remaining, Lexer.rest]

theorem charAtDrop (input : CString) (pos : Nat) : charAt input pos = (input.drop pos).headD '\x00' := by
  simp [charAt, List.headD_eq_head?_getD, List.head?_drop]

theorem currentRest (l : Lexer) : l.current = l.rest.headD '\x00' := by
  rw [l.synced, charAtDrop, Lexer.rest]

theorem headNul {text : CString} (noNul : '\x00' ∉ text) : text.headD '\x00' = '\x00' ↔ text = [] := by
  cases text with
  | nil => simp
  | cons c cs =>
    have other : c ≠ '\x00' := by rintro rfl; simp at noNul
    simp [other]

theorem currentEnd (l : Lexer) : l.current = '\x00' ↔ l.rest = [] := by
  rw [currentRest, headNul (restNoNul l)]

theorem peekRest (l : Lexer) : lexerPeek l = l.rest.tail.headD '\x00' := by
  have next : charAt l.input (l.pos + 1) = l.rest.tail.headD '\x00' := by
    rw [charAtDrop, Lexer.rest, List.tail_drop]
  unfold lexerPeek
  split
  · rename_i stop
    have ended : l.rest = [] := (currentEnd l).mp (l.synced.trans stop)
    simp [ended]
  · exact next

theorem advanceInput (l : Lexer) : (lexerAdvance l).input = l.input := by
  simp only [lexerAdvance]
  split <;> rfl

theorem advancePos (l : Lexer) : (lexerAdvance l).pos = l.pos + min 1 l.rest.length := by
  simp only [lexerAdvance]
  split
  · rename_i stop
    have ended : l.rest = [] := (currentEnd l).mp (l.synced.trans stop)
    simp [ended]
  · rename_i go
    have more : l.rest ≠ [] := fun ended => go (l.synced.symm.trans ((currentEnd l).mpr ended))
    have := List.length_pos_of_ne_nil more
    have one : min 1 l.rest.length = 1 := by omega
    simp [one]

theorem advanceRest (l : Lexer) : (lexerAdvance l).rest = l.rest.tail := by
  rw [Lexer.rest, advanceInput, advancePos]
  cases h : l.rest with
  | nil => simpa [Lexer.rest] using h
  | cons c cs =>
    have one : min 1 (c :: cs).length = 1 := by simp
    rw [one, ← List.tail_drop, ← Lexer.rest, h]

@[simp] theorem advancesInput (n : Nat) (l : Lexer) : (lexerAdvance^[n] l).input = l.input := by
  induction n generalizing l with
  | zero => rfl
  | succ n ih => rw [Function.iterate_succ_apply, ih, advanceInput]

@[simp] theorem advancesRest (n : Nat) (l : Lexer) : (lexerAdvance^[n] l).rest = l.rest.drop n := by
  induction n generalizing l with
  | zero => simp
  | succ n ih => rw [Function.iterate_succ_apply, ih, advanceRest, List.drop_tail]

theorem advancesPos {n : Nat} {l : Lexer} (inside : n ≤ l.rest.length) :
    (lexerAdvance^[n] l).pos = l.pos + n := by
  induction n generalizing l with
  | zero => simp
  | succ n ih =>
    have shorter : n ≤ (lexerAdvance l).rest.length := by rw [advanceRest, List.length_tail]; omega
    rw [Function.iterate_succ_apply, ih shorter, advancePos]
    omega

theorem advancesAdd (n m : Nat) (l : Lexer) :
    lexerAdvance^[m] (lexerAdvance^[n] l) = lexerAdvance^[n + m] l := by
  rw [Nat.add_comm, Function.iterate_add_apply]

theorem scanLoop {p : Char → Bool} (stop : p '\x00' = false) (n : Nat) (l : Lexer)
    (enough : l.rest.length ≤ n) :
    Bounded.loop (fun l => p l.current) lexerAdvance n l =
      lexerAdvance^[(l.rest.takeWhile p).length] l := by
  induction n generalizing l with
  | zero =>
    have ended : l.rest = [] := List.eq_nil_of_length_eq_zero (by omega)
    simp [Bounded.loop, ended]
  | succ n ih =>
    cases h : l.rest with
    | nil =>
      have done : p l.current = false := by rw [currentRest, h]; simpa using stop
      have stopped : Bounded.loop (fun l : Lexer => p l.current) lexerAdvance (n + 1) l = l :=
        Bounded.loopStop (by exact done) _
      simp [stopped]
    | cons c cs =>
      have here : l.current = c := by rw [currentRest, h]; rfl
      have next : (lexerAdvance l).rest = cs := by rw [advanceRest, h]; rfl
      by_cases go : p c = true
      · rw [Bounded.loopStep (by simpa [here] using go)]
        have tail := ih (lexerAdvance l) (by rw [next]; simp [h] at enough; omega)
        rw [tail, next, List.takeWhile_cons_of_pos go, List.length_cons, Function.iterate_succ_apply]
      · rw [Bounded.loopStop (by simpa [here] using go), List.takeWhile_cons_of_neg go]
        simp

theorem advanceWhileScan {p : Char → Bool} (stop : p '\x00' = false) (l : Lexer) :
    lexerAdvanceWhile p l = lexerAdvance^[(l.rest.takeWhile p).length] l :=
  scanLoop stop _ l (by rw [remainingRest])

theorem takeWhileCongr {p q : Char → Bool} {text : CString} (same : ∀ c ∈ text, p c = q c) :
    text.takeWhile p = text.takeWhile q := by
  induction text with
  | nil => rfl
  | cons c cs ih =>
    have tail := ih fun d member => same d (List.mem_cons_of_mem _ member)
    simp [List.takeWhile_cons, same c List.mem_cons_self, tail]

theorem skipWhitespaceScan (l : Lexer) :
    lexerSkipWhitespace l = lexerAdvance^[(l.rest.takeWhile isSpace).length] l := by
  have guard : (fun c => decide (c ≠ '\x00') && isSpace c) = isSpace := by
    funext c
    by_cases nul : c = '\x00'
    · subst c; decide
    · simp [nul]
  rw [lexerSkipWhitespace, guard, advanceWhileScan (by decide)]

theorem lineCommentScan (l : Lexer) :
    lexerAdvanceWhile (fun c => c ≠ '\n' && c ≠ '\x00') l =
      lexerAdvance^[(l.rest.takeWhile (· ≠ '\n')).length] l := by
  rw [advanceWhileScan (by decide)]
  congr 2
  apply takeWhileCongr
  intro c member
  have other : c ≠ '\x00' := fun same => restNoNul l (same ▸ member)
  simp [other]

def blockSpan : CString → Nat
  | [] => 0
  | '*' :: '/' :: _ => 2
  | _ :: cs => blockSpan cs + 1

theorem blockSpanStep {c : Char} {cs : CString} (more : ¬ (c = '*' ∧ cs.headD '\x00' = '/')) :
    blockSpan (c :: cs) = blockSpan cs + 1 := by
  rw [blockSpan]
  rintro ds rfl rfl
  exact more ⟨rfl, rfl⟩

theorem skipBlockScan (n : Nat) (l : Lexer) (enough : l.rest.length ≤ n) :
    lexerSkipBlock n l = lexerAdvance^[blockSpan l.rest] l := by
  induction n generalizing l with
  | zero =>
    have ended : l.rest = [] := List.eq_nil_of_length_eq_zero (by omega)
    simp [lexerSkipBlock, ended, blockSpan]
  | succ n ih =>
    cases h : l.rest with
    | nil =>
      have done := (currentEnd l).mpr h
      simp [lexerSkipBlock, done, blockSpan]
    | cons c cs =>
      have here : l.current = c := by rw [currentRest, h]; rfl
      have next : (lexerAdvance l).rest = cs := by rw [advanceRest, h]; rfl
      have peek : lexerPeek l = cs.headD '\x00' := by rw [peekRest, h]; rfl
      have go : l.current ≠ '\x00' := by rw [Ne, currentEnd, h]; simp
      rw [lexerSkipBlock, if_pos go, here, peek]
      by_cases close : c = '*' ∧ cs.headD '\x00' = '/'
      · obtain ⟨rfl, slash⟩ := close
        obtain ⟨d, ds, rfl⟩ : ∃ d ds, cs = d :: ds := by cases cs <;> simp at slash ⊢
        obtain rfl : d = '/' := by simpa using slash
        simp [blockSpan]
      · rw [if_neg (by simpa using close), ih _ (by rw [next]; simp [h] at enough; omega), next,
          blockSpanStep close, Function.iterate_succ_apply]

def stringSpan : CString → Nat
  | [] => 0
  | '"' :: _ => 0
  | '\\' :: _ :: cs => stringSpan cs + 2
  | _ :: cs => stringSpan cs + 1

theorem stringLoopScan (n : Nat) (l : Lexer) (enough : l.rest.length ≤ n) :
    Bounded.loop (fun l => l.current ≠ '"' && l.current ≠ '\x00')
      (fun l => lexerAdvance (if l.current = '\\' && lexerPeek l ≠ '\x00' then lexerAdvance l else l))
      n l = lexerAdvance^[stringSpan l.rest] l := by
  induction n using Nat.strongRecOn generalizing l with
  | ind n ih =>
    rcases h : l.rest with _ | ⟨c, cs⟩
    · have done := (currentEnd l).mpr h
      rw [Bounded.loopStop (by simp [done])]
      simp [stringSpan]
    · have here : l.current = c := by rw [currentRest, h]; rfl
      have next : (lexerAdvance l).rest = cs := by rw [advanceRest, h]; rfl
      have peek : lexerPeek l = cs.headD '\x00' := by rw [peekRest, h]; rfl
      have go : c ≠ '\x00' := by rw [← here, Ne, currentEnd, h]; simp
      have peekEnd : cs.headD '\x00' = '\x00' ↔ cs = [] :=
        headNul fun member => restNoNul l (by rw [h]; exact List.mem_cons_of_mem _ member)
      obtain ⟨n, rfl⟩ : ∃ m, n = m + 1 := by
        cases n with
        | zero => simp [h] at enough
        | succ n => exact ⟨n, rfl⟩
      by_cases quote : c = '"'
      · rw [Bounded.loopStop (by simp [here, quote])]
        simp [stringSpan, quote]
      · rw [Bounded.loopStep (by simp [here, quote, go])]
        by_cases escape : c = '\\' ∧ cs ≠ []
        · obtain ⟨rfl, more⟩ := escape
          obtain ⟨d, ds, rfl⟩ := List.exists_cons_of_ne_nil more
          have after : (lexerAdvance (lexerAdvance l)).rest = ds := by rw [advanceRest, next]; rfl
          have taken : (l.current = '\\' && lexerPeek l ≠ '\x00') = true := by
            have seen : (d :: ds).headD '\x00' ≠ '\x00' := peekEnd.not.mpr more
            simpa [here, peek] using seen
          rw [if_pos taken, ih n (by omega) _ (by rw [after]; simp [h] at enough; omega), after]
          rfl
        · have skipped : ¬ (l.current = '\\' && lexerPeek l ≠ '\x00') = true := by
            simp only [here, peek, Bool.and_eq_true, decide_eq_true_eq, ne_eq, peekEnd]
            exact escape
          rw [if_neg skipped, ih n (by omega) _ (by rw [next]; simp [h] at enough; omega), next]
          have one : stringSpan (c :: cs) = stringSpan cs + 1 := by
            rcases cs with _ | ⟨d, ds⟩
            · by_cases slash : c = '\\' <;> simp [stringSpan, slash]
            · have other : c ≠ '\\' := fun same => escape ⟨same, by simp⟩
              simp [stringSpan, other]
          rw [one, Function.iterate_succ_apply]

def marked (letters : List Char) : CString → Bool
  | '0' :: m :: _ => letters.contains m
  | _ => false

theorem markedIff {letters : List Char} {text : CString} :
    marked letters text = true ↔ ∃ m ds, text = '0' :: m :: ds ∧ m ∈ letters := by
  unfold marked
  split
  · simp
  · rename_i other
    refine iff_of_false (by simp) ?_
    rintro ⟨m, ds, same, -⟩
    exact other m ds same

theorem markedGuard (text : CString) (a b : Char) (ha : a ≠ '\x00') (hb : b ≠ '\x00') :
    (text.headD '\x00' = '0' && (text.tail.headD '\x00' = a || text.tail.headD '\x00' = b)) =
      marked [a, b] text := by
  rw [Bool.eq_iff_iff, markedIff]
  rcases text with _ | ⟨c, _ | ⟨d, ds⟩⟩
  · simp
  · simp [ha.symm, hb.symm]
  · simp

/-- The numeral at the start of a text, in the notation its first two characters select. -/
def numeralSpan (text : CString) : CString :=
  if marked ['x', 'X'] text then text.take 2 ++ (text.drop 2).takeWhile isXdigit
  else if marked ['b', 'B'] text then text.take 2 ++ (text.drop 2).takeWhile (fun c => c = '0' || c = '1')
  else text.takeWhile isDigit

theorem numeralSpanPrefix (text : CString) : numeralSpan text <+: text := by
  have two (p : Char → Bool) : text.take 2 ++ (text.drop 2).takeWhile p <+: text := by
    conv_rhs => rw [← List.take_append_drop 2 text]
    exact (List.prefix_append_right_inj _).mpr (List.takeWhile_prefix p)
  unfold numeralSpan
  split_ifs
  · exact two _
  · exact two _
  · exact List.takeWhile_prefix _

theorem markedLength {letters : List Char} {text : CString} (mark : marked letters text = true)
    (p : Char → Bool) :
    (text.take 2 ++ (text.drop 2).takeWhile p).length = 2 + ((text.drop 2).takeWhile p).length := by
  obtain ⟨m, ds, rfl, -⟩ := markedIff.mp mark
  simp only [List.take_succ_cons, List.take_zero, List.cons_append, List.nil_append, List.length_cons]
  omega

theorem numberScan (l : Lexer) :
    lexerReadNumber l =
      (⟨.tokNumber, l.rest, l.line, l.column, wrapInt (numeralSpan l.rest).length⟩,
        lexerAdvance^[(numeralSpan l.rest).length] l) := by
  have inside := (numeralSpanPrefix l.rest).length_le
  have two (p : Char → Bool) (stop : p '\x00' = false) :
      lexerAdvanceWhile p (lexerAdvance (lexerAdvance l)) =
        lexerAdvance^[2 + ((l.rest.drop 2).takeWhile p).length] l := by
    have step : lexerAdvance (lexerAdvance l) = lexerAdvance^[2] l := rfl
    rw [step, advanceWhileScan stop, advancesRest, advancesAdd]
  have scanned : (if marked ['x', 'X'] l.rest then
        lexerAdvanceWhile isXdigit (lexerAdvance (lexerAdvance l))
      else if marked ['b', 'B'] l.rest then
        lexerAdvanceWhile (fun c => c = '0' || c = '1') (lexerAdvance (lexerAdvance l))
      else lexerAdvanceWhile isDigit l) = lexerAdvance^[(numeralSpan l.rest).length] l := by
    unfold numeralSpan
    split_ifs with hex bin
    · rw [two _ (by decide), markedLength hex]
    · rw [two _ (by decide), markedLength bin]
    · rw [advanceWhileScan (by decide)]
  simp only [lexerReadNumber, currentRest, peekRest]
  simp only [markedGuard l.rest 'x' 'X' (by decide) (by decide),
    markedGuard l.rest 'b' 'B' (by decide) (by decide), scanned, advancesPos inside, spanLength,
    Nat.add_sub_cancel_left]
  rfl

theorem identifierScan (l : Lexer) :
    lexerReadIdentifierOrKeyword l =
      (⟨lexerKeywordType l.rest (wrapInt (l.rest.takeWhile isWord).length), l.rest, l.line, l.column,
          wrapInt (l.rest.takeWhile isWord).length⟩,
        lexerAdvance^[(l.rest.takeWhile isWord).length] l) := by
  have inside := (List.takeWhile_prefix isWord (l := l.rest)).length_le
  simp only [lexerReadIdentifierOrKeyword, advanceWhileScan (by decide : isWord '\x00' = false),
    advancesPos inside, spanLength, Nat.add_sub_cancel_left]
  rfl

theorem stringSpanInside (text : CString) : stringSpan text ≤ text.length := by
  fun_induction stringSpan text with
  | case1 => simp
  | case2 => simp
  | case3 c cs ih => simp only [List.length_cons]; omega
  | case4 c cs _ _ ih => simp only [List.length_cons]; omega

theorem stringSpanStop (text : CString) :
    text.drop (stringSpan text) = [] ∨ (text.drop (stringSpan text)).headD '\x00' = '"' := by
  fun_induction stringSpan text with
  | case1 => simp
  | case2 => simp
  | case3 c cs ih => simpa using ih
  | case4 c cs _ _ ih => simpa using ih

theorem stringScan (l : Lexer) (quote : l.rest.headD '\x00' = '"') :
    lexerReadString l =
      (⟨.tokString, l.rest.tail, l.line, l.column, wrapInt (stringSpan l.rest.tail)⟩,
        lexerAdvance^[stringSpan l.rest.tail +
          if l.rest.tail.drop (stringSpan l.rest.tail) = [] then 1 else 2] l) := by
  have nonempty : l.rest ≠ [] := by intro ended; simp [ended] at quote
  have first : (lexerAdvance l).rest = l.rest.tail := advanceRest l
  have firstPos : (lexerAdvance l).input.drop (lexerAdvance l).pos = l.rest.tail := first
  have inside : stringSpan l.rest.tail ≤ (lexerAdvance l).rest.length := by
    rw [first]; exact stringSpanInside _
  have stop := stringLoopScan (lexerAdvance l).remaining (lexerAdvance l) (by rw [remainingRest])
  rw [first] at stop
  have length : spanLength (lexerAdvance l).pos (lexerAdvance^[stringSpan l.rest.tail] (lexerAdvance l)).pos
      = wrapInt (stringSpan l.rest.tail) := by
    rw [advancesPos inside, spanLength, Nat.add_sub_cancel_left]
  have stopCurrent : (lexerAdvance^[stringSpan l.rest.tail] (lexerAdvance l)).current =
      (l.rest.tail.drop (stringSpan l.rest.tail)).headD '\x00' := by rw [currentRest, advancesRest, first]
  have one : lexerAdvance^[stringSpan l.rest.tail] (lexerAdvance l) =
      lexerAdvance^[stringSpan l.rest.tail + 1] l := (Function.iterate_succ_apply _ _ _).symm
  simp only [lexerReadString, stop, length, firstPos, stopCurrent]
  rcases stringSpanStop l.rest.tail with ended | quoted
  · have open_ : ([] : CString).headD '\x00' ≠ '"' := by decide
    rw [ended, if_neg open_, if_pos rfl, one]
    rfl
  · have more : l.rest.tail.drop (stringSpan l.rest.tail) ≠ [] := by
      intro ended; simp [ended] at quoted
    rw [if_pos quoted, if_neg more, one, ← Function.iterate_succ_apply' lexerAdvance]
    rfl

end LexerScan
end BitN

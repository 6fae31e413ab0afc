/-
This file models `ExpressionParser`: an expression over tags is turned into a text in
which the operators follow their operands, and that text is evaluated word by word over
the answers of `query_bitmap`. The converter passes over the characters that it does not
know; the evaluator only asks for two operands when it meets a word that is no number.

A character is a byte, and the locale is that of C.
-/

import OdinVector.Inverted.Searcher

namespace OdinVector.Inverted

/-- What `parse` throws: `runtime_error` and the `out_of_range` of `std::stoi`. -/
inductive ParseError
  | invalidExpression
  | outOfRange
  deriving DecidableEq

namespace ExpressionParser

/-! ### Characters and numbers -/

/-- `std::isspace`. -/
def isSpace (c : Char) : Bool := c.toNat == 32 || (9 ≤ c.toNat && c.toNat ≤ 13)

/-- The number that digits stand for. -/
def valueOf (digits : List Char) : Nat :=
  digits.foldl (fun value c => 10 * value + (c.toNat - 48)) 0

/-- `std::stoi` of a word that begins with a digit. -/
def stoi (word : List Char) : Except ParseError Tag :=
  let value := valueOf (word.takeWhile Char.isDigit)
  if value < 2 ^ 31 then .ok (Int32.ofNat value) else .error .outOfRange

/-- Whether the next character is a digit. -/
def digitNext : List Char → Bool
  | [] => false
  | c :: _ => c.isDigit

/-! ### `to_rpn` -/

/-- `precedence`. -/
def precedence (op : Char) : Nat :=
  if op = '&' then 2 else if op = '|' then 1 else if op = '-' then 2 else 0

/-- The operators at the top of the stack go to the output while they pass the test. -/
def popWhile (test : Char → Bool) : List Char → List Char → List Char × List Char
  | output, [] => (output, [])
  | output, op :: ops =>
    if test op then popWhile test (output ++ [op, ' ']) ops else (output, op :: ops)

/-- The loop of `to_rpn` over the characters. The inner loop over the digits of a number ends
with a blank. -/
def readChars : List Char → List Char → List Char → List Char × List Char
  | [], output, ops => (output, ops)
  | c :: rest, output, ops =>
    if isSpace c then readChars rest output ops
    else if c.isDigit then
      readChars rest (output ++ c :: if digitNext rest then [] else [' ']) ops
    else if c = '(' then readChars rest output (c :: ops)
    else if c = ')' then
      let (output, ops) := popWhile (fun top => top ≠ '(') output ops
      readChars rest output ops.tail
    else if c = '&' ∨ c = '|' ∨ c = '-' then
      let (output, ops) := popWhile (fun top => precedence c ≤ precedence top) output ops
      readChars rest output (c :: ops)
    else readChars rest output ops

/-- `to_rpn`. -/
def toRpn (exp : List Char) : List Char :=
  let (output, ops) := readChars exp [] []
  (popWhile (fun _ => true) output ops).1

/-! ### `evaluate_rpn` -/

/-- The words that `ss >> token` gives. -/
def words (rpn : List Char) : List (List Char) :=
  (rpn.splitOnP isSpace).filter fun word => word ≠ []

variable (searcher : Searcher)

/-- A word changes the stack of bitmaps. -/
def evaluateWord (stk : List Bitmap) (word : List Char) : Except ParseError (List Bitmap) :=
  if digitNext word then
    (stoi word).map fun tag => searcher.queryBitmap [tag] :: stk
  else
    match stk with
    | b :: a :: rest =>
      .ok ((if word = ['&'] then a ∩ b
        else if word = ['|'] then a ∪ b
        else if word = ['-'] then a \ b
        else a) :: rest)
    | _ => .error .invalidExpression

/-- `evaluate_rpn`. -/
def evaluateRpn (rpn : List Char) : Except ParseError Bitmap :=
  ((words rpn).foldlM (evaluateWord searcher) []).map fun stk => stk.headD ∅

/-- `parse`. -/
def parse (expression : List Char) : Except ParseError Bitmap :=
  if expression = [] then .ok (searcher.queryBitmap [])
  else if expression.all Char.isDigit then
    (stoi expression).map fun tag => searcher.queryBitmap [tag]
  else evaluateRpn searcher (toRpn expression)

/-! ### The tokens of an expression -/

/-- The digits of a number. -/
structure Numeral where
  digits : List Char
  some : digits ≠ []
  all : ∀ c ∈ digits, c.isDigit = true

namespace Numeral

theorem all_single {c : Char} (digit : c.isDigit = true) : ∀ other ∈ [c], other.isDigit = true :=
  fun _ member => List.mem_singleton.mp member ▸ digit

theorem all_cons {c : Char} {digits : List Char} (digit : c.isDigit = true)
    (all : ∀ other ∈ digits, other.isDigit = true) :
    ∀ other ∈ c :: digits, other.isDigit = true :=
  List.forall_mem_cons.mpr ⟨digit, all⟩

/-- A number of one digit. -/
def single (c : Char) (digit : c.isDigit = true) : Numeral :=
  ⟨[c], List.cons_ne_nil c [], all_single digit⟩

/-- A number with a digit before it. -/
def cons (c : Char) (digit : c.isDigit = true) (numeral : Numeral) : Numeral :=
  ⟨c :: numeral.digits, List.cons_ne_nil c numeral.digits, all_cons digit numeral.all⟩

end Numeral

/-- `&`, `|` and `-`. -/
inductive Operator
  | intersection
  | union
  | difference
  deriving DecidableEq

namespace Operator

def sign : Operator → Char
  | intersection => '&'
  | union => '|'
  | difference => '-'

/-- How tight an operator binds. -/
def level : Operator → Nat
  | intersection => 2
  | union => 1
  | difference => 2

theorem precedence_sign (op : Operator) : precedence op.sign = op.level := by
  cases op <;> rfl

theorem one_le_level (op : Operator) : 1 ≤ op.level := by
  cases op <;> decide

theorem level_le_two (op : Operator) : op.level ≤ 2 := by
  cases op <;> decide

end Operator

/-- The tokens of an expression. -/
inductive Token
  | number (numeral : Numeral)
  | operator (op : Operator)
  | opening
  | closing

/-- A digit in front of the tokens of what is behind it, which belongs to their number when it
begins with a digit. -/
def consDigit (c : Char) (digit : c.isDigit = true) (joined : Bool) : List Token → List Token
  | .number numeral :: rest =>
    if joined then .number (.cons c digit numeral) :: rest
    else .number (.single c digit) :: .number numeral :: rest
  | rest => .number (.single c digit) :: rest

/-- The tokens among the characters; the others are passed over. -/
def tokens : List Char → List Token
  | [] => []
  | c :: rest =>
    if digit : c.isDigit = true then consDigit c digit (digitNext rest) (tokens rest)
    else if c = '(' then .opening :: tokens rest
    else if c = ')' then .closing :: tokens rest
    else if c = '&' then .operator .intersection :: tokens rest
    else if c = '|' then .operator .union :: tokens rest
    else if c = '-' then .operator .difference :: tokens rest
    else tokens rest

/-- What a token does to the output and to the stack of `to_rpn`. -/
def readToken : List Char × List Char → Token → List Char × List Char
  | (output, ops), .number numeral => (output ++ numeral.digits ++ [' '], ops)
  | (output, ops), .opening => (output, '(' :: ops)
  | (output, ops), .closing =>
    let (output, ops) := popWhile (fun top => top ≠ '(') output ops
    (output, ops.tail)
  | (output, ops), .operator op =>
    let (output, ops) := popWhile (fun top => op.level ≤ precedence top) output ops
    (output, op.sign :: ops)

theorem not_isSpace_of_digit {c : Char} (digit : c.isDigit = true) : isSpace c = false := by
  have range : 48 ≤ c.toNat ∧ c.toNat ≤ 57 := Char.isDigit_iff_toNat.mp digit
  unfold isSpace
  simp only [Bool.or_eq_false_iff, Bool.and_eq_false_iff, beq_eq_false_iff_ne,
    decide_eq_false_iff_not]
  omega

/-! ### The converter reads the tokens -/

theorem consDigit_of_digitNext {c : Char} (digit : c.isDigit = true) (numeral : Numeral)
    (rest : List Token) :
    consDigit c digit true (.number numeral :: rest) = .number (.cons c digit numeral) :: rest :=
  rfl

theorem consDigit_alone {c : Char} (digit : c.isDigit = true) (rest : List Token) :
    consDigit c digit false rest = .number (.single c digit) :: rest := by
  unfold consDigit
  split <;> rfl

theorem tokens_digit {c : Char} (digit : c.isDigit = true) (rest : List Char) :
    tokens (c :: rest) = consDigit c digit (digitNext rest) (tokens rest) := by
  rw [tokens, dif_pos digit]

/-- What begins with a digit begins with a number. -/
theorem tokens_of_digitNext {text : List Char} (next : digitNext text = true) :
    ∃ numeral rest, tokens text = .number numeral :: rest := by
  cases text with
  | nil => cases next
  | cons c rest =>
    rw [tokens_digit next]
    unfold consDigit
    split
    · split <;> exact ⟨_, _, rfl⟩
    · exact ⟨_, _, rfl⟩

/-- A blank is none of the characters of a token. -/
theorem tokens_space {c : Char} (space : isSpace c = true) (rest : List Char) :
    tokens (c :: rest) = tokens rest := by
  have digit : ¬ c.isDigit = true := by
    intro digit
    rw [not_isSpace_of_digit digit] at space
    cases space
  have other : ∀ d, isSpace d = false → c ≠ d := by
    rintro d notSpace rfl
    rw [notSpace] at space
    cases space
  rw [tokens, dif_neg digit, if_neg (other _ rfl), if_neg (other _ rfl), if_neg (other _ rfl),
    if_neg (other _ rfl), if_neg (other _ rfl)]

/-- An operator in the loop over the characters. -/
theorem readChars_operator (op : Operator) (rest output ops : List Char) :
    readChars (op.sign :: rest) output ops =
      readChars rest (readToken (output, ops) (.operator op)).1
        (readToken (output, ops) (.operator op)).2 := by
  cases op <;> rfl

theorem readChars_eq (text output ops : List Char) :
    readChars text output ops = (tokens text).foldl readToken (output, ops) := by
  induction text generalizing output ops with
  | nil => rfl
  | cons c rest inductionHypothesis =>
    by_cases space : isSpace c = true
    · rw [tokens_space space, readChars, if_pos space, inductionHypothesis]
    by_cases digit : c.isDigit = true
    · rw [readChars, if_neg space, if_pos digit, inductionHypothesis, tokens_digit digit]
      cases next : digitNext rest with
      | false =>
        rw [consDigit_alone, List.foldl_cons]
        simp only [readToken, Numeral.single, Bool.false_eq_true, if_false, List.append_assoc,
          List.cons_append, List.nil_append]
      | true =>
        obtain ⟨numeral, more, begins⟩ := tokens_of_digitNext next
        rw [begins, consDigit_of_digitNext, List.foldl_cons, List.foldl_cons]
        simp only [readToken, Numeral.cons, if_true, List.append_assoc, List.cons_append,
          List.nil_append]
    by_cases opens : c = '('
    · subst opens
      exact inductionHypothesis _ _
    by_cases closes : c = ')'
    · subst closes
      exact inductionHypothesis _ _
    by_cases sign : ∃ op : Operator, c = op.sign
    · obtain ⟨op, rfl⟩ := sign
      rw [readChars_operator, inductionHypothesis]
      cases op <;> rfl
    · have other : ∀ op : Operator, c ≠ op.sign := fun op same => sign ⟨op, same⟩
      have first : c ≠ '&' := other .intersection
      have second : c ≠ '|' := other .union
      have third : c ≠ '-' := other .difference
      rw [readChars, if_neg space, if_neg digit, if_neg opens, if_neg closes,
        if_neg (not_or.mpr ⟨first, not_or.mpr ⟨second, third⟩⟩), inductionHypothesis, tokens,
        dif_neg digit, if_neg opens, if_neg closes, if_neg first, if_neg second, if_neg third]

/-! ### Words -/

/-- What waits on the stack of `to_rpn`. -/
inductive Symbol
  | operator (op : Operator)
  | opening

/-- The character on the stack. -/
def Symbol.char : Symbol → Char
  | .operator op => op.sign
  | .opening => '('

/-- A word of the text that `to_rpn` makes. -/
inductive Word
  | number (numeral : Numeral)
  | symbol (top : Symbol)

def Word.text : Word → List Char
  | .number numeral => numeral.digits
  | .symbol top => [top.char]

/-- Words with a blank behind each of them. -/
def spell (code : List Word) : List Char :=
  code.flatMap fun word => word.text ++ [' ']

@[simp] theorem spell_nil : spell [] = [] := rfl

@[simp] theorem spell_append (first second : List Word) :
    spell (first ++ second) = spell first ++ spell second :=
  List.flatMap_append

@[simp] theorem spell_number (numeral : Numeral) :
    spell [.number numeral] = numeral.digits ++ [' '] :=
  List.append_nil _

theorem Word.text_ne_nil (word : Word) : word.text ≠ [] := by
  cases word with
  | number numeral => exact numeral.some
  | symbol top => exact List.cons_ne_nil _ _

theorem Word.not_isSpace (word : Word) : ∀ c ∈ word.text, isSpace c = false := by
  intro c member
  cases word with
  | number numeral => exact not_isSpace_of_digit (numeral.all c member)
  | symbol top =>
    rw [List.mem_singleton.mp member]
    cases top with
    | operator op => cases op <;> rfl
    | opening => rfl

/-- The evaluator reads the words that were written. -/
theorem words_spell (code : List Word) : words (spell code) = code.map Word.text := by
  induction code with
  | nil => rfl
  | cons word code inductionHypothesis =>
    have split : (spell (word :: code)).splitOnP isSpace =
        word.text :: (spell code).splitOnP isSpace := by
      show (word.text ++ [' '] ++ spell code).splitOnP isSpace = _
      rw [List.append_assoc, List.singleton_append,
        List.splitOnP_append_cons_of_forall_mem word.not_isSpace ' ' rfl]
    unfold words at inductionHypothesis ⊢
    have kept : decide (word.text ≠ []) = true := decide_eq_true word.text_ne_nil
    rw [split, List.filter_cons, if_pos kept, inductionHypothesis, List.map_cons]

/-- What is popped goes to the output as words. -/
theorem popWhile_all (test : Char → Bool) (pops : List Symbol)
    (all : ∀ symbol ∈ pops, test symbol.char = true) (output : List Char) (ops : List Symbol)
    (stops : ∀ symbol ∈ ops.head?, test symbol.char = false) :
    popWhile test output ((pops ++ ops).map Symbol.char) =
      (output ++ spell (pops.map .symbol), ops.map Symbol.char) := by
  induction pops generalizing output with
  | nil =>
    rw [List.nil_append, List.map_nil, spell_nil, List.append_nil]
    cases ops with
    | nil => rfl
    | cons top ops =>
      rw [List.map_cons, popWhile, if_neg]
      rw [stops top rfl]
      exact Bool.false_ne_true
  | cons symbol pops inductionHypothesis =>
    rw [List.cons_append, List.map_cons, popWhile, if_pos (all symbol List.mem_cons_self),
      inductionHypothesis fun other member => all other (List.mem_cons_of_mem _ member)]
    rw [List.append_assoc]
    rfl

end ExpressionParser

end OdinVector.Inverted

/-
This file says what an expression over tags means and compares `ExpressionParser` with it.

Two grammars lie side by side. The strict one is that of the expressions. The lenient one
reads every list of tokens: operands may stand beside each other or be missing, an unclosed
parenthesis stays among the operators, and a closing parenthesis without an opening one
ends what is before it. The operator stack is proved against the lenient one, by induction
on its trees; the strict grammar is a part of it.
-/

import Mathlib.Data.List.TakeWhile
import OdinVector.Inverted.ExpressionParser

namespace OdinVector.Inverted

namespace ExpressionParser

/-! ### Expressions -/

/-- A syntax tree. -/
inductive Expression (Number : Type)
  | number (number : Number)
  | binary (op : Operator) (left right : Expression Number)

/-- `&` is intersection, `|` is union and `-` is difference. -/
def Operator.apply : Operator → Bitmap → Bitmap → Bitmap
  | intersection, a, b => a ∩ b
  | union, a, b => a ∪ b
  | difference, a, b => a \ b

/-- The set that a syntax tree stands for. -/
def Expression.eval {Number : Type} (answer : Number → Bitmap) : Expression Number → Bitmap
  | number n => answer n
  | binary op left right => op.apply (left.eval answer) (right.eval answer)

/-- The number that a numeral stands for. -/
def Numeral.value (numeral : Numeral) : Nat := valueOf numeral.digits

section Grammar

variable {Number : Type} (value : Number → Int)

/-- The grammar. At level 1 every operator may stand, at level 2 those that bind tighter than
`|`, and at level 3 none: the right operand stands one level higher, so operators of one
precedence associate to the left. -/
inductive Parses : Nat → Expression Number → List Token → Prop
  | number {n : Number} {numeral : Numeral} (same : value n = numeral.value) :
      Parses 3 (.number n) [.number numeral]
  | group {e : Expression Number} {ts : List Token} (inner : Parses 1 e ts) :
      Parses 3 e (.opening :: ts ++ [.closing])
  | binary {op : Operator} {a b : Expression Number} {ts us : List Token}
      (left : Parses op.level a ts) (right : Parses (op.level + 1) b us) :
      Parses op.level (.binary op a b) (ts ++ .operator op :: us)
  | looser {level : Nat} {e : Expression Number} {ts : List Token} (positive : 1 ≤ level)
      (tighter : Parses (level + 1) e ts) : Parses level e ts

variable {value} in
theorem Parses.ne_nil {level : Nat} {e : Expression Number} {ts : List Token}
    (parses : Parses value level e ts) : ts ≠ [] := by
  induction parses with
  | number => exact List.cons_ne_nil _ _
  | group => exact List.cons_ne_nil _ _
  | binary => exact List.append_ne_nil_of_right_ne_nil _ (List.cons_ne_nil _ _)
  | looser _ _ inductionHypothesis => exact inductionHypothesis

end Grammar

/-- The characters of an expression. -/
def isExpressionChar (c : Char) : Bool :=
  isSpace c || c.isDigit || c == '(' || c == ')' || c == '&' || c == '|' || c == '-'

/-- A text that spells a syntax tree, with any blanks between the tokens. -/
def Spells {Number : Type} (value : Number → Int) (e : Expression Number) (text : List Char) :
    Prop :=
  (∀ c ∈ text, isExpressionChar c = true) ∧ Parses value 1 e (tokens text)

/-- A well-formed expression over numbers. -/
def WellFormed (text : List Char) : Prop :=
  ∃ e : Expression Nat, Spells Nat.cast e text

/-! ### Lenient reading -/

/-- What the lenient grammar reads. The operands before a number or a parenthesis stand beside
it. -/
inductive Reading
  | nothing
  | number (before : Reading) (numeral : Numeral)
  | group (before inner : Reading)
  | binary (op : Operator) (left right : Reading)
  | opened (before inner : Reading)

/-- The lenient grammar. A reading that is not closed has an opening parenthesis without its
closing one, and everything behind that parenthesis is inside it. -/
inductive Reads : Bool → Nat → Reading → List Token → Prop
  | nothing : Reads true 3 .nothing []
  | number {before : Reading} {ts : List Token} (left : Reads true 3 before ts)
      (numeral : Numeral) : Reads true 3 (.number before numeral) (ts ++ [.number numeral])
  | group {before inner : Reading} {ts us : List Token} (left : Reads true 3 before ts)
      (right : Reads true 1 inner us) :
      Reads true 3 (.group before inner) (ts ++ .opening :: us ++ [.closing])
  | opened {closed : Bool} {before inner : Reading} {ts us : List Token}
      (left : Reads true 3 before ts) (right : Reads closed 1 inner us) :
      Reads false 3 (.opened before inner) (ts ++ .opening :: us)
  | binary {closed : Bool} {op : Operator} {a b : Reading} {ts us : List Token}
      (left : Reads true op.level a ts) (right : Reads closed (op.level + 1) b us) :
      Reads closed op.level (.binary op a b) (ts ++ .operator op :: us)
  | looser {closed : Bool} {level : Nat} {reading : Reading} {ts : List Token}
      (positive : 1 ≤ level) (tighter : Reads closed (level + 1) reading ts) :
      Reads closed level reading ts

/-- The closing parentheses without an opening one cut an expression into lines. -/
inductive Lines : List Reading → List Token → Prop
  | last {closed : Bool} {reading : Reading} {ts : List Token} (reads : Reads closed 1 reading ts) :
      Lines [reading] ts
  | cons {reading : Reading} {readings : List Reading} {ts us : List Token}
      (reads : Reads true 1 reading ts) (more : Lines readings us) :
      Lines (reading :: readings) (ts ++ .closing :: us)

/-- The words in the order of `to_rpn`: a parenthesis that is never closed stays on the stack
like an operator. -/
def Reading.code : Reading → List Word
  | nothing => []
  | number before numeral => before.code ++ [.number numeral]
  | group before inner => before.code ++ inner.code
  | binary op left right => left.code ++ right.code ++ [.symbol (.operator op)]
  | opened before inner => before.code ++ inner.code ++ [.symbol .opening]

/-- How many bitmaps more than before a reading leaves on the stack. -/
def Reading.surplus : Reading → Int
  | nothing => 0
  | number before _ => before.surplus + 1
  | group before inner => before.surplus + inner.surplus
  | binary _ left right => left.surplus + right.surplus - 1
  | opened before inner => before.surplus + inner.surplus - 1

/-- With so many bitmaps before it, some operator or unclosed parenthesis of a reading has less
than two bitmaps to work on at the end of its right operand. -/
def Reading.Starves (available : Int) : Reading → Prop
  | nothing => False
  | number before _ => before.Starves available
  | group before inner => before.Starves available ∨ inner.Starves (available + before.surplus)
  | binary _ left right =>
    left.Starves available ∨ right.Starves (available + left.surplus) ∨
      available + left.surplus + right.surplus < 2
  | opened before inner =>
    before.Starves available ∨ inner.Starves (available + before.surplus) ∨
      available + before.surplus + inner.surplus < 2

/-- The lines are read one after the other. -/
def LinesStarve (available : Int) : List Reading → Prop
  | [] => False
  | reading :: readings =>
    reading.Starves available ∨ LinesStarve (available + reading.surplus) readings

/-- How tight what waits on the stack binds. -/
def Symbol.level : Symbol → Nat
  | .operator op => op.level
  | .opening => 0

theorem Symbol.precedence_char (top : Symbol) : precedence top.char = top.level := by
  cases top with
  | operator op => exact op.precedence_sign
  | opening => rfl

theorem Symbol.level_le_two (top : Symbol) : top.level ≤ 2 := by
  cases top with
  | operator op => exact op.level_le_two
  | opening => exact Nat.zero_le 2

/-- What binds is no parenthesis. -/
theorem Symbol.char_ne_opening {top : Symbol} (binds : 1 ≤ top.level) : top.char ≠ '(' := by
  cases top with
  | operator op => cases op <;> decide
  | opening => cases binds

/-! ### The converter follows the lenient grammar -/

/-- The level of the operator on top of the stack; an empty stack has none. -/
def topLevel : List Symbol → Nat
  | [] => 0
  | top :: _ => top.level

/-- An opening parenthesis stops a closing one. -/
theorem readToken_closing (pending ops : List Symbol) (output : List Char)
    (binds : ∀ top ∈ pending, 1 ≤ top.level) (stops : ∀ top ∈ ops.head?, top = .opening) :
    readToken (output, (pending ++ ops).map Symbol.char) .closing =
      (output ++ spell (pending.map .symbol), ops.tail.map Symbol.char) := by
  have popped := popWhile_all (fun top => decide (top ≠ '(')) pending
    (fun top member => decide_eq_true (Symbol.char_ne_opening (binds top member))) output ops
    (fun top member => by rw [stops top member]; rfl)
  unfold readToken
  dsimp only
  rw [popped, List.map_tail]

/-- An operator takes from the stack what binds at least as tight. -/
theorem readToken_operator (op : Operator) (pending ops : List Symbol) (output : List Char)
    (binds : ∀ top ∈ pending, op.level ≤ top.level) (stops : topLevel ops < op.level) :
    readToken (output, (pending ++ ops).map Symbol.char) (.operator op) =
      (output ++ spell (pending.map .symbol), (.operator op :: ops).map Symbol.char) := by
  have popped := popWhile_all (fun top => decide (op.level ≤ precedence top)) pending
    (fun top member => decide_eq_true (by rw [top.precedence_char]; exact binds top member))
    output ops (fun top member => by
      cases ops with
      | nil => cases member
      | cons first ops =>
        obtain rfl : first = top := Option.some.inj member
        rw [first.precedence_char]
        exact decide_eq_false (Nat.not_le.mpr stops))
  unfold readToken
  dsimp only
  rw [popped]
  rfl

/-- From every stack whose top binds less than the level, the tokens write the code up to the
symbols that still wait on the stack. Those of a closed reading bind at least as tight as its
level. -/
def Follows (closed : Bool) (level : Nat) (code : List Word) (ts : List Token) : Prop :=
  ∀ (output : List Char) (ops : List Symbol), topLevel ops < level →
    ∃ (written : List Word) (pending : List Symbol),
      written ++ pending.map Word.symbol = code ∧
        ts.foldl readToken (output, ops.map Symbol.char) =
          (output ++ spell written, (pending ++ ops).map Symbol.char) ∧
        (closed = true → ∀ top ∈ pending, level ≤ top.level)

namespace Follows

variable {closed : Bool} {level : Nat} {code inner : List Word} {ts us : List Token}

/-- At level 3 nothing waits on the stack. -/
theorem settled (left : Follows true 3 code ts) (output : List Char) (ops : List Symbol) :
    ts.foldl readToken (output, ops.map Symbol.char) =
      (output ++ spell code, ops.map Symbol.char) := by
  have below : topLevel ops < 3 := by
    cases ops with
    | nil => exact Nat.zero_lt_succ 2
    | cons top ops => exact Nat.lt_succ_of_le top.level_le_two
  obtain ⟨written, pending, same, folded, binds⟩ := left output ops below
  have empty : pending = [] := by
    refine List.eq_nil_iff_forall_not_mem.mpr fun top member => ?_
    have tight : 3 ≤ top.level := binds rfl top member
    have loose : top.level ≤ 2 := top.level_le_two
    omega
  rw [empty, List.map_nil, List.append_nil] at same
  rw [folded, empty, same, List.nil_append]

theorem nothing : Follows true 3 [] [] := by
  intro output ops _
  refine ⟨[], [], rfl, ?_, fun _ => List.forall_mem_nil _⟩
  rw [spell_nil, List.append_nil, List.nil_append, List.foldl_nil]

theorem number (left : Follows true 3 code ts) (numeral : Numeral) :
    Follows true 3 (code ++ [.number numeral]) (ts ++ [.number numeral]) := by
  intro output ops _
  refine ⟨code ++ [.number numeral], [], List.append_nil _, ?_, fun _ => List.forall_mem_nil _⟩
  rw [List.foldl_append, left.settled, spell_append, spell_number, List.foldl_cons, List.foldl_nil,
    readToken, List.nil_append, List.append_assoc, List.append_assoc]

theorem group (left : Follows true 3 code ts) (right : Follows true 1 inner us) :
    Follows true 3 (code ++ inner) (ts ++ .opening :: us ++ [.closing]) := by
  intro output ops _
  obtain ⟨written, pending, same, folded, binds⟩ :=
    right (output ++ spell code) (.opening :: ops) Nat.zero_lt_one
  refine ⟨code ++ inner, [], List.append_nil _, ?_, fun _ => List.forall_mem_nil _⟩
  have opens : readToken (output ++ spell code, ops.map Symbol.char) .opening =
      (output ++ spell code, (Symbol.opening :: ops).map Symbol.char) := rfl
  rw [List.append_assoc, List.foldl_append, left.settled, List.cons_append, List.foldl_cons, opens,
    List.foldl_append, folded, List.foldl_cons, List.foldl_nil,
    readToken_closing pending (.opening :: ops) _ (binds rfl)
      fun top member => (Option.some.inj member).symm]
  rw [← same, spell_append, spell_append, List.nil_append, List.tail_cons, List.append_assoc,
    List.append_assoc]

theorem opened (left : Follows true 3 code ts) (right : Follows closed 1 inner us) :
    Follows false 3 (code ++ inner ++ [.symbol .opening]) (ts ++ .opening :: us) := by
  intro output ops _
  obtain ⟨written, pending, same, folded, -⟩ :=
    right (output ++ spell code) (.opening :: ops) Nat.zero_lt_one
  refine ⟨code ++ written, pending ++ [.opening], ?_, ?_, fun isClosed => by cases isClosed⟩
  · rw [List.map_append, ← same]
    simp only [List.append_assoc, List.map_cons, List.map_nil]
  · have opens : readToken (output ++ spell code, ops.map Symbol.char) .opening =
        (output ++ spell code, (Symbol.opening :: ops).map Symbol.char) := rfl
    rw [List.foldl_append, left.settled, List.foldl_cons, opens, folded, spell_append]
    simp only [List.append_assoc, List.cons_append, List.nil_append]

theorem binary {op : Operator} (left : Follows true op.level code ts)
    (right : Follows closed (op.level + 1) inner us) :
    Follows closed op.level (code ++ inner ++ [.symbol (.operator op)])
      (ts ++ .operator op :: us) := by
  intro output ops below
  obtain ⟨first, firstPending, sameFirst, foldedFirst, bindsFirst⟩ := left output ops below
  obtain ⟨second, pending, same, folded, binds⟩ :=
    right (output ++ spell code) (.operator op :: ops) (Nat.lt_succ_self op.level)
  refine ⟨code ++ second, pending ++ [.operator op], ?_, ?_, ?_⟩
  · rw [List.map_append, ← same]
    simp only [List.append_assoc, List.map_cons, List.map_nil]
  · rw [List.foldl_append, foldedFirst, List.foldl_cons,
      readToken_operator op firstPending ops _ (bindsFirst rfl) below, List.append_assoc,
      ← spell_append, sameFirst, folded, spell_append]
    simp only [List.append_assoc, List.cons_append, List.nil_append]
  · intro isClosed top member
    rcases List.mem_append.mp member with member | member
    · exact Nat.le_of_succ_le (binds isClosed top member)
    · obtain rfl : top = .operator op := List.mem_singleton.mp member
      exact Nat.le_refl _

theorem looser (tighter : Follows closed (level + 1) code ts) : Follows closed level code ts := by
  intro output ops below
  obtain ⟨written, pending, same, folded, binds⟩ := tighter output ops (Nat.lt_succ_of_lt below)
  exact ⟨written, pending, same, folded,
    fun isClosed top member => Nat.le_of_succ_le (binds isClosed top member)⟩

end Follows

theorem follows_of_reads {closed : Bool} {level : Nat} {reading : Reading} {ts : List Token}
    (reads : Reads closed level reading ts) : Follows closed level reading.code ts := by
  induction reads with
  | nothing => exact .nothing
  | number _ numeral inductionHypothesis => exact inductionHypothesis.number numeral
  | group _ _ leftHypothesis rightHypothesis => exact leftHypothesis.group rightHypothesis
  | opened _ _ leftHypothesis rightHypothesis => exact leftHypothesis.opened rightHypothesis
  | binary _ _ leftHypothesis rightHypothesis => exact leftHypothesis.binary rightHypothesis
  | looser _ _ inductionHypothesis => exact inductionHypothesis.looser

/-- `to_rpn` writes the code of the lines. -/
theorem popWhile_lines {readings : List Reading} {ts : List Token} (lines : Lines readings ts)
    (output : List Char) :
    (popWhile (fun _ => true) (ts.foldl readToken (output, [])).1
        (ts.foldl readToken (output, [])).2).1 =
      output ++ spell (readings.flatMap Reading.code) := by
  induction lines generalizing output with
  | @last closed reading ts reads =>
    obtain ⟨written, pending, same, folded, -⟩ := follows_of_reads reads output [] Nat.zero_lt_one
    rw [List.map_nil] at folded
    rw [folded, popWhile_all (fun _ => true) pending (fun _ _ => rfl) _ []
      (fun _ member => by cases member), List.append_assoc, ← spell_append, same,
      List.flatMap_cons, List.flatMap_nil, List.append_nil]
  | @cons reading readings ts us reads more inductionHypothesis =>
    obtain ⟨written, pending, same, folded, binds⟩ :=
      follows_of_reads reads output [] Nat.zero_lt_one
    rw [List.map_nil] at folded
    rw [List.foldl_append, List.foldl_cons, folded,
      readToken_closing pending [] _ (binds rfl) (fun _ member => by cases member),
      List.append_assoc, ← spell_append, same, List.tail_nil, List.map_nil, inductionHypothesis,
      List.flatMap_cons, spell_append, List.append_assoc]

theorem toRpn_eq {readings : List Reading} {text : List Char}
    (lines : Lines readings (tokens text)) :
    toRpn text = spell (readings.flatMap Reading.code) := by
  unfold toRpn
  rw [readChars_eq]
  exact popWhile_lines lines []

/-! ### The evaluator on the code -/

section Evaluation

variable (searcher : Searcher)

/-- The words of a code, one after the other. -/
def evaluateCode (stk : List Bitmap) (code : List Word) : Except ParseError (List Bitmap) :=
  (code.map Word.text).foldlM (evaluateWord searcher) stk

theorem evaluateCode_append (stk : List Bitmap) (first second : List Word) :
    evaluateCode searcher stk (first ++ second) =
      evaluateCode searcher stk first >>= fun stk => evaluateCode searcher stk second := by
  unfold evaluateCode
  rw [List.map_append, List.foldlM_append]

theorem evaluateCode_cons (stk : List Bitmap) (word : Word) (code : List Word) :
    evaluateCode searcher stk (word :: code) =
      evaluateWord searcher stk word.text >>= fun stk => evaluateCode searcher stk code :=
  rfl

theorem evaluateRpn_spell (code : List Word) :
    evaluateRpn searcher (spell code) =
      (evaluateCode searcher [] code).map fun stk => stk.headD ∅ := by
  unfold evaluateRpn
  rw [words_spell]
  rfl

theorem stoi_digits (numeral : Numeral) :
    stoi numeral.digits =
      if numeral.value < 2 ^ 31 then .ok (Int32.ofNat numeral.value) else .error .outOfRange := by
  unfold stoi
  rw [List.takeWhile_eq_self_iff.mpr numeral.all]
  rfl

theorem evaluateWord_number (stk : List Bitmap) (numeral : Numeral) :
    evaluateWord searcher stk (Word.number numeral).text =
      (stoi numeral.digits).map fun tag => searcher.queryBitmap [tag] :: stk := by
  have next : digitNext numeral.digits = true := by
    have all := numeral.all
    cases first : numeral.digits with
    | nil => exact absurd first numeral.some
    | cons c rest =>
      rw [first] at all
      exact all c List.mem_cons_self
  unfold evaluateWord Word.text
  rw [if_pos next]

/-- An operator takes its two operands from the stack. -/
theorem evaluateWord_operator (op : Operator) (a b : Bitmap) (stk : List Bitmap) :
    evaluateWord searcher (b :: a :: stk) (Word.symbol (.operator op)).text =
      .ok (op.apply a b :: stk) := by
  cases op <;> rfl

/-- Whatever waits on the stack of `to_rpn` takes two bitmaps and leaves one. -/
theorem evaluateWord_symbol (top : Symbol) (a b : Bitmap) (stk : List Bitmap) :
    ∃ result, evaluateWord searcher (b :: a :: stk) (Word.symbol top).text =
      .ok (result :: stk) := by
  cases top with
  | operator op => exact ⟨op.apply a b, evaluateWord_operator searcher op a b stk⟩
  | opening => exact ⟨a, rfl⟩

theorem evaluateWord_short (top : Symbol) {stk : List Bitmap} (short : stk.length < 2) :
    evaluateWord searcher stk (Word.symbol top).text = .error .invalidExpression := by
  have notDigit : digitNext (Word.symbol top).text = false := by
    cases top with
    | operator op => cases op <;> rfl
    | opening => rfl
  unfold evaluateWord
  rw [notDigit]
  match stk, short with
  | [], _ => rfl
  | [_], _ => rfl

/-- Digits are one number. -/
theorem tokens_digits (numeral : Numeral) : tokens numeral.digits = [.number numeral] := by
  obtain ⟨digits, some, all⟩ := numeral
  induction digits with
  | nil => exact absurd rfl some
  | cons c rest inductionHypothesis =>
    have digit : c.isDigit = true := all c List.mem_cons_self
    have more : ∀ other ∈ rest, other.isDigit = true :=
      fun other member => all other (List.mem_cons_of_mem c member)
    rw [tokens_digit digit]
    cases rest with
    | nil => exact consDigit_alone digit _
    | cons next rest =>
      rw [inductionHypothesis (List.cons_ne_nil next rest) more]
      have joined : digitNext (next :: rest) = true := more next List.mem_cons_self
      rw [joined]
      rfl

/-- The way past the converter for a text of digits gives the same answer. -/
theorem parse_eq {text : List Char} (some : text ≠ []) :
    parse searcher text = evaluateRpn searcher (toRpn text) := by
  unfold parse
  rw [if_neg some]
  by_cases digits : text.all Char.isDigit = true
  · rw [if_pos digits]
    have all : ∀ c ∈ text, c.isDigit = true := List.all_eq_true.mp digits
    have read : tokens text = [.number ⟨text, some, all⟩] := tokens_digits ⟨text, some, all⟩
    have lines : Lines [.number .nothing ⟨text, some, all⟩] (tokens text) := by
      rw [read]
      exact .last (.looser (le_refl 1) (.looser (Nat.le_succ 1) (.number .nothing _)))
    rw [toRpn_eq lines, evaluateRpn_spell]
    show _ = (evaluateCode searcher [] [.number ⟨text, some, all⟩]).map _
    rw [evaluateCode_cons, evaluateWord_number]
    cases stoi text <;> rfl
  · rw [if_neg digits]

end Evaluation

/-! ### Expressions mean what they say -/

/-- A syntax tree over tags is read as a closed reading whose code evaluates to its set. -/
theorem exists_reads_of_parses (searcher : Searcher) {level : Nat} {e : Expression Tag}
    {ts : List Token} (parses : Parses Int32.toInt level e ts) :
    ∃ reading, Reads true level reading ts ∧ ∀ stk,
      evaluateCode searcher stk reading.code =
        .ok (e.eval (fun tag => searcher.queryBitmap [tag]) :: stk) := by
  induction parses with
  | @number tag numeral same =>
    refine ⟨.number .nothing numeral, .number .nothing numeral, fun stk => ?_⟩
    have small : numeral.value < 2 ^ 31 := by
      have bound : tag.toInt < 2 ^ 31 := tag.toInt_lt
      omega
    have equal : Int32.ofNat numeral.value = tag := by
      rw [← Int32.toInt_inj, Int32.toInt_ofNat_of_lt small, same]
    show evaluateCode searcher stk [.number numeral] = _
    rw [evaluateCode_cons, evaluateWord_number, stoi_digits, if_pos small, equal]
    rfl
  | group _ inductionHypothesis =>
    obtain ⟨reading, reads, evaluates⟩ := inductionHypothesis
    exact ⟨.group .nothing reading, .group .nothing reads, evaluates⟩
  | @binary op a b ts us _ _ leftHypothesis rightHypothesis =>
    obtain ⟨left, readsLeft, evaluatesLeft⟩ := leftHypothesis
    obtain ⟨right, readsRight, evaluatesRight⟩ := rightHypothesis
    refine ⟨.binary op left right, .binary readsLeft readsRight, fun stk => ?_⟩
    show evaluateCode searcher stk (left.code ++ right.code ++ [.symbol (.operator op)]) = _
    rw [evaluateCode_append, evaluateCode_append, evaluatesLeft]
    show evaluateCode searcher _ right.code >>= _ = _
    rw [evaluatesRight]
    show evaluateWord searcher _ _ >>= _ = _
    rw [evaluateWord_operator]
    rfl
  | looser positive _ inductionHypothesis =>
    obtain ⟨reading, reads, evaluates⟩ := inductionHypothesis
    exact ⟨reading, .looser positive reads, evaluates⟩

/-- `parse` gives the set that the syntax tree stands for. -/
theorem parse_of_spells (searcher : Searcher) (e : Expression Tag) (text : List Char)
    (spells : Spells Int32.toInt e text) :
    parse searcher text = .ok (e.eval fun tag => searcher.queryBitmap [tag]) := by
  obtain ⟨reading, reads, evaluates⟩ := exists_reads_of_parses searcher spells.2
  have some : text ≠ [] := by
    rintro rfl
    exact spells.2.ne_nil rfl
  rw [parse_eq searcher some, toRpn_eq (.last reads), evaluateRpn_spell, List.flatMap_cons,
    List.flatMap_nil, List.append_nil, evaluates]
  rfl

/-- Three tags: what binds tighter comes first. -/
theorem parse_of_spells_three :
    Spells Int32.toInt
        (.binary .union (.number 1) (.binary .difference (.number 2) (.number 3)))
        ['1', ' ', '|', '2', '-', '3'] ∧
      parse ((Searcher.init.insert 7 [1]).insert 8 [2, 3]) ['1', ' ', '|', '2', '-', '3'] =
        .ok ((Expression.binary .union (.number 1)
            (.binary .difference (.number 2) (.number (3 : Tag)))).eval
          fun tag => ((Searcher.init.insert 7 [1]).insert 8 [2, 3]).queryBitmap [tag]) := by
  have digit : ∀ {n : Tag} {c : Char} (isDigit : c.isDigit = true),
      n.toInt = (Numeral.single c isDigit).value →
      Parses Int32.toInt 3 (.number n) [.number (.single c isDigit)] :=
    fun _ same => .number same
  have one : Parses Int32.toInt 1 (.number 1) [.number (.single '1' rfl)] :=
    .looser (le_refl 1) (.looser (Nat.le_succ 1) (digit rfl (by decide)))
  have two : Parses Int32.toInt 2 (.number 2) [.number (.single '2' rfl)] :=
    .looser (Nat.le_succ 1) (digit rfl (by decide))
  have three : Parses Int32.toInt 3 (.number 3) [.number (.single '3' rfl)] :=
    digit rfl (by decide)
  have right : Parses Int32.toInt Operator.difference.level
      (.binary .difference (.number 2) (.number 3)) _ := .binary two three
  have spells : Spells Int32.toInt
      (.binary .union (.number 1) (.binary .difference (.number 2) (.number 3)))
      ['1', ' ', '|', '2', '-', '3'] :=
    ⟨List.all_eq_true.mp rfl, (.binary one right : Parses Int32.toInt Operator.union.level _ _)⟩
  exact ⟨spells, parse_of_spells _ _ _ spells⟩

/-! ### The lenient grammar reads everything -/

/-- Nothing is read at every level. -/
theorem Reads.empty {level : Nat} (positive : 1 ≤ level) (low : level ≤ 3 := by decide) :
    Reads true level .nothing [] := by
  obtain rfl | rfl | rfl : level = 1 ∨ level = 2 ∨ level = 3 := by omega
  · exact .looser (le_refl 1) (.looser (Nat.le_succ 1) .nothing)
  · exact .looser positive .nothing
  · exact .nothing

/-- A number is read behind every reading. -/
theorem Reads.snoc_number {closed : Bool} {level : Nat} {reading : Reading} {ts : List Token}
    (reads : Reads closed level reading ts) (numeral : Numeral) :
    ∃ next, Reads closed level next (ts ++ [.number numeral]) := by
  induction reads with
  | nothing => exact ⟨_, .number .nothing numeral⟩
  | number left other => exact ⟨_, .number (.number left other) numeral⟩
  | group left right => exact ⟨_, .number (.group left right) numeral⟩
  | opened left _ _ inductionHypothesis =>
    obtain ⟨next, reads⟩ := inductionHypothesis
    rw [List.append_assoc, List.cons_append]
    exact ⟨_, .opened left reads⟩
  | binary left _ _ inductionHypothesis =>
    obtain ⟨next, reads⟩ := inductionHypothesis
    rw [List.append_assoc, List.cons_append]
    exact ⟨_, .binary left reads⟩
  | looser positive _ inductionHypothesis =>
    obtain ⟨next, reads⟩ := inductionHypothesis
    exact ⟨next, .looser positive reads⟩

/-- An opening parenthesis leaves the reading open. -/
theorem Reads.snoc_opening {closed : Bool} {level : Nat} {reading : Reading} {ts : List Token}
    (reads : Reads closed level reading ts) :
    ∃ next, Reads false level next (ts ++ [.opening]) := by
  induction reads with
  | nothing => exact ⟨_, .opened .nothing (.empty (le_refl 1))⟩
  | number left other => exact ⟨_, .opened (.number left other) (.empty (le_refl 1))⟩
  | group left right => exact ⟨_, .opened (.group left right) (.empty (le_refl 1))⟩
  | opened left _ _ inductionHypothesis =>
    obtain ⟨next, reads⟩ := inductionHypothesis
    rw [List.append_assoc, List.cons_append]
    exact ⟨_, .opened left reads⟩
  | binary left _ _ inductionHypothesis =>
    obtain ⟨next, reads⟩ := inductionHypothesis
    rw [List.append_assoc, List.cons_append]
    exact ⟨_, .binary left reads⟩
  | looser positive _ inductionHypothesis =>
    obtain ⟨next, reads⟩ := inductionHypothesis
    exact ⟨next, .looser positive reads⟩

/-- A closing parenthesis closes the last one that is open. -/
theorem Reads.snoc_closing {closed : Bool} {level : Nat} {reading : Reading} {ts : List Token}
    (reads : Reads closed level reading ts) (isOpen : closed = false) :
    ∃ still next, Reads still level next (ts ++ [.closing]) := by
  induction reads with
  | nothing => cases isOpen
  | number => cases isOpen
  | group => cases isOpen
  | @opened closed _ _ ts us left right _ inductionHypothesis =>
    cases closed with
    | true => exact ⟨true, _, .group left right⟩
    | false =>
      obtain ⟨still, next, reads⟩ := inductionHypothesis rfl
      rw [List.append_assoc, List.cons_append]
      exact ⟨false, _, .opened left reads⟩
  | binary left _ _ inductionHypothesis =>
    obtain ⟨still, next, reads⟩ := inductionHypothesis isOpen
    rw [List.append_assoc, List.cons_append]
    exact ⟨still, _, .binary left reads⟩
  | looser positive _ inductionHypothesis =>
    obtain ⟨still, next, reads⟩ := inductionHypothesis isOpen
    exact ⟨still, next, .looser positive reads⟩

/-- An operator is read behind what binds at least as tight, and inside an open parenthesis. -/
theorem Reads.snoc_operator {closed : Bool} {level : Nat} {reading : Reading} {ts : List Token}
    (reads : Reads closed level reading ts) (op : Operator)
    (fits : closed = false ∨ level ≤ op.level) :
    ∃ next, Reads closed level next (ts ++ [.operator op]) := by
  have loose : op.level ≤ 2 := op.level_le_two
  -- a reading of the level of the operator becomes its left operand
  have after : ∀ {left : Reading} {ts : List Token}, Reads true op.level left ts →
      Reads true op.level (.binary op left .nothing) (ts ++ [.operator op]) :=
    fun left => .binary left (.empty (Nat.succ_pos op.level) (Nat.succ_le_succ loose))
  have settled : ¬ (true = false ∨ 3 ≤ op.level) :=
    not_or.mpr ⟨by decide, by omega⟩
  induction reads with
  | nothing => exact absurd fits settled
  | number => exact absurd fits settled
  | group => exact absurd fits settled
  | opened left _ _ inductionHypothesis =>
    obtain ⟨next, reads⟩ := inductionHypothesis (Or.inr op.one_le_level)
    rw [List.append_assoc, List.cons_append]
    exact ⟨_, .opened left reads⟩
  | @binary closed other _ _ _ _ left right _ inductionHypothesis =>
    by_cases inner : closed = false ∨ other.level + 1 ≤ op.level
    · obtain ⟨next, reads⟩ := inductionHypothesis inner
      rw [List.append_assoc, List.cons_append]
      exact ⟨_, .binary left reads⟩
    · obtain ⟨isClosed, tight⟩ := not_or.mp inner
      obtain rfl : closed = true := Bool.eq_true_of_not_eq_false isClosed
      have upper : other.level ≤ op.level := fits.resolve_left isClosed
      have same : other.level = op.level := by omega
      have whole := Reads.binary left right
      rw [same] at whole ⊢
      exact ⟨_, after whole⟩
  | @looser closed level reading ts positive tighter inductionHypothesis =>
    by_cases inner : closed = false ∨ level + 1 ≤ op.level
    · obtain ⟨next, reads⟩ := inductionHypothesis inner
      exact ⟨next, .looser positive reads⟩
    · obtain ⟨isClosed, tight⟩ := not_or.mp inner
      obtain rfl : closed = true := Bool.eq_true_of_not_eq_false isClosed
      have upper : level ≤ op.level := fits.resolve_left isClosed
      obtain rfl : level = op.level := by omega
      exact ⟨_, after (.looser positive tighter)⟩

/-- Every token is read behind every line. -/
theorem Lines.snoc {readings : List Reading} {ts : List Token} (lines : Lines readings ts)
    (token : Token) : ∃ next, Lines next (ts ++ [token]) := by
  induction lines with
  | @last closed reading ts reads =>
    cases token with
    | number numeral =>
      obtain ⟨next, reads⟩ := reads.snoc_number numeral
      exact ⟨_, .last reads⟩
    | operator op =>
      obtain ⟨next, reads⟩ := reads.snoc_operator op (Or.inr op.one_le_level)
      exact ⟨_, .last reads⟩
    | opening =>
      obtain ⟨next, reads⟩ := reads.snoc_opening
      exact ⟨_, .last reads⟩
    | closing =>
      cases closed with
      | true => exact ⟨_, .cons reads (.last (.empty (le_refl 1)))⟩
      | false =>
        obtain ⟨still, next, reads⟩ := reads.snoc_closing rfl
        exact ⟨_, .last reads⟩
  | cons reads _ inductionHypothesis =>
    obtain ⟨next, more⟩ := inductionHypothesis
    rw [List.append_assoc, List.cons_append]
    exact ⟨_, .cons reads more⟩

theorem exists_lines (ts : List Token) : ∃ readings, Lines readings ts := by
  induction ts using List.reverseRecOn with
  | nil => exact ⟨_, .last (.empty (le_refl 1))⟩
  | append_singleton ts token inductionHypothesis =>
    obtain ⟨readings, lines⟩ := inductionHypothesis
    exact lines.snoc token

/-! ### What the evaluator rejects -/

/-- With so many bitmaps before it, some symbol of a code has less than two. -/
def CodeStarves (available : Int) : List Word → Prop
  | [] => False
  | .number _ :: code => CodeStarves (available + 1) code
  | .symbol _ :: code => available < 2 ∨ CodeStarves (available - 1) code

/-- How many bitmaps more than before a code leaves. -/
def codeSurplus : List Word → Int
  | [] => 0
  | .number _ :: code => codeSurplus code + 1
  | .symbol _ :: code => codeSurplus code - 1

theorem codeSurplus_append (first second : List Word) :
    codeSurplus (first ++ second) = codeSurplus first + codeSurplus second := by
  induction first with
  | nil => exact (Int.zero_add _).symm
  | cons word first inductionHypothesis =>
    cases word <;> rw [List.cons_append, codeSurplus, codeSurplus, inductionHypothesis] <;> omega

theorem codeStarves_append (available : Int) (first second : List Word) :
    CodeStarves available (first ++ second) ↔
      CodeStarves available first ∨ CodeStarves (available + codeSurplus first) second := by
  induction first generalizing available with
  | nil =>
    show CodeStarves available second ↔ False ∨ CodeStarves (available + 0) second
    rw [Int.add_zero, false_or]
  | cons word first inductionHypothesis =>
    cases word with
    | number numeral =>
      rw [List.cons_append, CodeStarves, CodeStarves, inductionHypothesis, codeSurplus,
        Int.add_assoc, Int.add_comm 1]
    | symbol top =>
      have shifted : available - 1 + codeSurplus first = available + (codeSurplus first - 1) := by
        omega
      rw [List.cons_append, CodeStarves, CodeStarves, inductionHypothesis, codeSurplus, shifted,
        or_assoc]

theorem codeSurplus_code (reading : Reading) : codeSurplus reading.code = reading.surplus := by
  induction reading with
  | nothing => rfl
  | number before numeral inductionHypothesis =>
    rw [Reading.code, codeSurplus_append, inductionHypothesis]
    rfl
  | group before inner beforeHypothesis innerHypothesis =>
    rw [Reading.code, codeSurplus_append, beforeHypothesis, innerHypothesis]
    rfl
  | binary op left right leftHypothesis rightHypothesis =>
    rw [Reading.code, codeSurplus_append, codeSurplus_append, leftHypothesis, rightHypothesis]
    rfl
  | opened before inner beforeHypothesis innerHypothesis =>
    rw [Reading.code, codeSurplus_append, codeSurplus_append, beforeHypothesis, innerHypothesis]
    rfl

/-- A symbol behind two operands. -/
theorem codeStarves_symbol (available : Int) (left right : Reading) (top : Symbol)
    (leftHypothesis : ∀ available, CodeStarves available left.code ↔ left.Starves available)
    (rightHypothesis : ∀ available, CodeStarves available right.code ↔ right.Starves available) :
    CodeStarves available (left.code ++ right.code ++ [.symbol top]) ↔
      left.Starves available ∨ right.Starves (available + left.surplus) ∨
        available + left.surplus + right.surplus < 2 := by
  rw [codeStarves_append, codeStarves_append, codeSurplus_append, leftHypothesis, rightHypothesis,
    codeSurplus_code, codeSurplus_code, or_assoc, ← Int.add_assoc]
  show _ ∨ _ ∨ (_ ∨ False) ↔ _
  rw [or_false]

/-- The tree says where its code has too few bitmaps. -/
theorem codeStarves_code (available : Int) (reading : Reading) :
    CodeStarves available reading.code ↔ reading.Starves available := by
  induction reading generalizing available with
  | nothing => exact Iff.rfl
  | number before numeral inductionHypothesis =>
    rw [Reading.code, codeStarves_append, inductionHypothesis]
    exact iff_of_eq (or_false _)
  | group before inner beforeHypothesis innerHypothesis =>
    rw [Reading.code, codeStarves_append, beforeHypothesis, innerHypothesis, codeSurplus_code]
    rfl
  | binary op left right leftHypothesis rightHypothesis =>
    exact codeStarves_symbol available left right (.operator op) leftHypothesis rightHypothesis
  | opened before inner beforeHypothesis innerHypothesis =>
    exact codeStarves_symbol available before inner .opening beforeHypothesis innerHypothesis

theorem codeStarves_lines (available : Int) (readings : List Reading) :
    CodeStarves available (readings.flatMap Reading.code) ↔ LinesStarve available readings := by
  induction readings generalizing available with
  | nil => exact Iff.rfl
  | cons reading readings inductionHypothesis =>
    rw [List.flatMap_cons, codeStarves_append, codeStarves_code, codeSurplus_code,
      inductionHypothesis]
    rfl

/-- The numbers of the code are those among the tokens. -/
theorem mem_code_iff {closed : Bool} {level : Nat} {reading : Reading} {ts : List Token}
    (reads : Reads closed level reading ts) (numeral : Numeral) :
    Word.number numeral ∈ reading.code ↔ Token.number numeral ∈ ts := by
  induction reads with
  | nothing => simp [Reading.code]
  | number _ _ inductionHypothesis => simp [Reading.code, inductionHypothesis]
  | group _ _ leftHypothesis rightHypothesis =>
    simp [Reading.code, leftHypothesis, rightHypothesis]
  | opened _ _ leftHypothesis rightHypothesis =>
    simp [Reading.code, leftHypothesis, rightHypothesis]
  | binary _ _ leftHypothesis rightHypothesis =>
    simp [Reading.code, leftHypothesis, rightHypothesis]
  | looser _ _ inductionHypothesis => exact inductionHypothesis

theorem mem_lines_iff {readings : List Reading} {ts : List Token} (lines : Lines readings ts)
    (numeral : Numeral) :
    Word.number numeral ∈ readings.flatMap Reading.code ↔ Token.number numeral ∈ ts := by
  induction lines with
  | last reads =>
    rw [List.flatMap_cons, List.flatMap_nil, List.append_nil]
    exact mem_code_iff reads numeral
  | cons reads _ inductionHypothesis =>
    simp [List.flatMap_cons, mem_code_iff reads, inductionHypothesis]

/-- A word that is no number beyond the tags adds none. -/
theorem exists_big_cons (word : Word) (code : List Word)
    (small : ∀ numeral, Word.number numeral = word → numeral.value < 2 ^ 31) :
    (∃ numeral, Word.number numeral ∈ word :: code ∧ 2 ^ 31 ≤ numeral.value) ↔
      ∃ numeral, Word.number numeral ∈ code ∧ 2 ^ 31 ≤ numeral.value := by
  constructor
  · rintro ⟨numeral, member, big⟩
    rcases List.mem_cons.mp member with same | member
    · exact absurd (small numeral same) (Nat.not_lt.mpr big)
    · exact ⟨numeral, member, big⟩
  · rintro ⟨numeral, member, big⟩
    exact ⟨numeral, List.mem_cons_of_mem word member, big⟩

/-- A symbol takes two bitmaps and leaves one, or it fails. -/
theorem evaluateCode_symbol (searcher : Searcher) (stk : List Bitmap) (top : Symbol)
    (code : List Word) {big : Prop}
    (rest : ∀ stk, (∃ error, evaluateCode searcher stk code = .error error) ↔
      big ∨ CodeStarves stk.length code) :
    (∃ error, evaluateCode searcher stk (.symbol top :: code) = .error error) ↔
      big ∨ CodeStarves stk.length (.symbol top :: code) := by
  rw [evaluateCode_cons]
  match stk with
  | [] =>
    rw [@evaluateWord_short searcher top [] Nat.zero_lt_two]
    have short : (0 : Int) < 2 := Int.ofNat_lt.mpr Nat.zero_lt_two
    exact ⟨fun _ => Or.inr (Or.inl short), fun _ => ⟨.invalidExpression, rfl⟩⟩
  | [only] =>
    rw [@evaluateWord_short searcher top [only] Nat.one_lt_two]
    have short : (1 : Int) < 2 := Int.ofNat_lt.mpr Nat.one_lt_two
    exact ⟨fun _ => Or.inr (Or.inl short), fun _ => ⟨.invalidExpression, rfl⟩⟩
  | b :: a :: stk =>
    obtain ⟨result, applied⟩ := evaluateWord_symbol searcher top a b stk
    rw [applied]
    show (∃ error, evaluateCode searcher (result :: stk) code = .error error) ↔ _
    rw [rest, CodeStarves]
    have enough : ¬ ((b :: a :: stk).length : Int) < 2 := by
      rw [List.length_cons, List.length_cons]
      omega
    have taken : ((b :: a :: stk).length : Int) - 1 = ((result :: stk).length : Int) := by
      rw [List.length_cons, List.length_cons, List.length_cons]
      omega
    rw [taken]
    simp only [enough, false_or]

/-- Too big a number for `std::stoi` and too few bitmaps are what the evaluator throws at. -/
theorem evaluateCode_error (searcher : Searcher) (stk : List Bitmap) (code : List Word) :
    (∃ error, evaluateCode searcher stk code = .error error) ↔
      (∃ numeral, Word.number numeral ∈ code ∧ 2 ^ 31 ≤ numeral.value) ∨
        CodeStarves stk.length code := by
  induction code generalizing stk with
  | nil =>
    constructor
    · rintro ⟨error, fails⟩
      cases fails
    · rintro (⟨numeral, member, -⟩ | starves)
      · cases member
      · exact starves.elim
  | cons word code inductionHypothesis =>
    cases word with
    | number numeral =>
      rw [evaluateCode_cons, evaluateWord_number, stoi_digits]
      by_cases small : numeral.value < 2 ^ 31
      · have kept := exists_big_cons (.number numeral) code fun other same =>
          (Word.number.inj same) ▸ small
        rw [if_pos small, kept]
        show (∃ error, evaluateCode searcher (_ :: stk) code = .error error) ↔ _
        rw [inductionHypothesis, List.length_cons, Int.natCast_add]
        rfl
      · rw [if_neg small]
        refine ⟨fun _ => Or.inl ⟨numeral, List.mem_cons_self, Nat.le_of_not_lt small⟩, fun _ => ?_⟩
        exact ⟨.outOfRange, rfl⟩
    | symbol top =>
      have kept := exists_big_cons (.symbol top) code fun other same => by cases same
      rw [kept]
      exact evaluateCode_symbol searcher stk top code inductionHypothesis

theorem evaluateRpn_error (searcher : Searcher) {readings : List Reading} {text : List Char}
    (lines : Lines readings (tokens text)) :
    (∃ error, evaluateRpn searcher (toRpn text) = .error error) ↔
      (∃ numeral, Token.number numeral ∈ tokens text ∧ 2 ^ 31 ≤ numeral.value) ∨
        LinesStarve 0 readings := by
  rw [toRpn_eq lines, evaluateRpn_spell, ← codeStarves_lines]
  simp only [← mem_lines_iff lines]
  refine Iff.trans ?_ (evaluateCode_error searcher [] _)
  cases evaluateCode searcher [] (readings.flatMap Reading.code) with
  | error error => exact ⟨fun _ => ⟨error, rfl⟩, fun _ => ⟨error, rfl⟩⟩
  | ok stk =>
    constructor
    · rintro ⟨error, same⟩
      cases same
    · rintro ⟨error, same⟩
      cases same

/-- When `parse` throws. -/
theorem parse_error (searcher : Searcher) (text : List Char) :
    (∃ error, parse searcher text = .error error) ↔
      (∃ numeral, Token.number numeral ∈ tokens text ∧ 2 ^ 31 ≤ numeral.value) ∨
        ∃ readings, Lines readings (tokens text) ∧ LinesStarve 0 readings := by
  have converted : (∃ error, parse searcher text = .error error) ↔
      ∃ error, evaluateRpn searcher (toRpn text) = .error error := by
    by_cases some : text = []
    · subst some
      constructor
      · rintro ⟨error, same⟩
        cases same
      · rintro ⟨error, same⟩
        cases same
    · rw [parse_eq searcher some]
  rw [converted]
  constructor
  · intro throws
    obtain ⟨readings, lines⟩ := exists_lines (tokens text)
    exact ((evaluateRpn_error searcher lines).mp throws).imp_right
      fun starve => ⟨readings, lines, starve⟩
  · rintro (big | ⟨readings, lines, starve⟩)
    · obtain ⟨readings, lines⟩ := exists_lines (tokens text)
      exact (evaluateRpn_error searcher lines).mpr (Or.inl big)
    · exact (evaluateRpn_error searcher lines).mpr (Or.inr starve)

/-- What is no well-formed expression is rejected when it has a number beyond the tags or some
operator, or an unclosed parenthesis, finds less than two bitmaps. -/
theorem parse_rejects_iff (searcher : Searcher) (text : List Char) :
    (¬ WellFormed text → ∃ error, parse searcher text = .error error) ↔
      WellFormed text ∨
        (∃ numeral, Token.number numeral ∈ tokens text ∧ 2 ^ 31 ≤ numeral.value) ∨
        ∃ readings, Lines readings (tokens text) ∧ LinesStarve 0 readings := by
  rw [parse_error]
  by_cases wellFormed : WellFormed text
  · exact ⟨fun _ => Or.inl wellFormed, fun _ malformed => absurd wellFormed malformed⟩
  · exact ⟨fun rejects => Or.inr (rejects wellFormed),
      fun condition _ => condition.resolve_left wellFormed⟩

/-- A character that is in no token is passed over. -/
theorem not_rejects_letter :
    ¬ (¬ WellFormed ['1', 'a'] → ∃ error, parse Searcher.init ['1', 'a'] = .error error) := by
  intro rejects
  have malformed : ¬ WellFormed ['1', 'a'] := by
    rintro ⟨e, characters, -⟩
    have letter : isExpressionChar 'a' = true :=
      characters 'a' (List.mem_cons_of_mem _ List.mem_cons_self)
    revert letter
    decide
  have accepted : parse Searcher.init ['1', 'a'] = .ok (Searcher.init.queryBitmap [1]) := rfl
  obtain ⟨error, fails⟩ := rejects malformed
  rw [accepted] at fails
  cases fails

end ExpressionParser

end OdinVector.Inverted

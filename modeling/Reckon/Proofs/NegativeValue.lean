import Reckon.Proofs.Acceptance
import Reckon.Proofs.Lexemes
import Reckon.Proofs.WrittenValue

/-! Values less than zero. The minus of each is one more operator among the tokens, so an expression
with one has a value only if it has operands to spare. -/

namespace Reckon

namespace Token

/-- The same tokens with so many minuses put in. -/
inductive Negates : Nat → List Token → List Token → Prop where
  | done : Negates 0 [] []
  | token (rest : Negates n bare tokens) : Negates n (t :: bare) (t :: tokens)
  | minus (rest : Negates n bare tokens) : Negates (n + 1) bare (.operator .minus :: tokens)

variable {n : Nat} {bare tokens : List Token}

theorem negates_self (tokens : List Token) : Negates 0 tokens tokens := by
  induction tokens with
  | nil => exact .done
  | cons t rest ih => exact .token ih

theorem Negates.behind (negates : Negates n bare tokens) (before : List Token) :
    Negates n (before ++ bare) (before ++ tokens) := by
  induction before with
  | nil => exact negates
  | cons t rest ih => exact .token ih

theorem Negates.counts (negates : Negates n bare tokens) :
    tokens.countP isNumber = bare.countP isNumber ∧
      tokens.countP isOperator = bare.countP isOperator + n := by
  induction negates with
  | done => exact ⟨rfl, rfl⟩
  | token rest ih =>
    obtain ⟨numbers, operators⟩ := ih
    constructor
    · rw [List.countP_cons, List.countP_cons, numbers]
    · rw [List.countP_cons, List.countP_cons, operators, Nat.add_right_comm]
  | minus rest ih =>
    obtain ⟨numbers, operators⟩ := ih
    simp [List.countP_cons, isNumber, isOperator, numbers, operators, Nat.add_assoc]

theorem Negates.balanced (negates : Negates n bare tokens) {depth : Nat}
    (balanced : Balanced depth tokens) : Balanced depth bare := by
  induction negates generalizing depth with
  | done => exact balanced
  | @token n bare tokens t rest ih =>
    cases t with
    | closing =>
      cases depth with
      | zero => exact balanced.elim
      | succ depth => exact ih balanced
    | opening => exact ih (by simpa [Balanced] using balanced)
    | _ => simpa [Balanced] using ih (by simpa [Balanced] using balanced)
  | minus rest ih => exact ih (by simpa [Balanced] using balanced)

end Token

namespace Variable

open Binary64 (negative isNaN)
open Token (Negates)

/-- Whether a piece is a variable with a value that is written with a minus. -/
def isSigned (values : Assignment) (piece : Text.Piece) : Bool :=
  ((ofPiece? piece).bind values).any fun x => negative x && !isNaN x

/-- A piece with the value of the variable that it is, and a blank for the value's minus. -/
def replaceUnsigned (values : Assignment) (piece : Text.Piece) : List Char :=
  if isSigned values piece then ' ' :: replace (fun name => (values name).map Float.abs) piece
  else replace values piece

/-- The text with the values of its variables, and blanks for their minuses. -/
def fillUnsigned (values : Assignment) (text : List Char) : List Char :=
  (Text.pieces text).flatMap (replaceUnsigned values)

theorem replace_signed {values : Assignment} {piece : Text.Piece} (signed : isSigned values piece = true) :
    ∃ digits, replace values piece = '-' :: digits ∧ replaceUnsigned values piece = ' ' :: digits := by
  obtain ⟨x, bound, sign⟩ := (Option.any_eq_true _ _).mp signed
  obtain ⟨n, named, bound⟩ := Option.bind_eq_some_iff.mp bound
  obtain ⟨below, number⟩ := (Bool.and_eq_true _ _).mp sign
  refine ⟨(Numeral.write x.abs).toList, ?_, ?_⟩
  · simpa [replace, named, bound] using
      Numeral.write_negative below ((Bool.not_eq_true' _).mp number)
  · rw [replaceUnsigned, if_pos signed]
    simp [replace, named, bound]

/-- The minus of a value keeps it apart from the text in front, as a blank does, and is a token. -/
theorem scan_signed {values : Assignment} {pieces : List Text.Piece} {plain : List Char}
    {tokens : List Token} (scanned : Token.scan (plain ++ pieces.flatMap (replace values)) = .ok tokens) :
    ∃ bare, Token.scan (plain ++ pieces.flatMap (replaceUnsigned values)) = .ok bare ∧
      Negates (pieces.countP (isSigned values)) bare tokens := by
  induction pieces generalizing plain tokens with
  | nil => exact ⟨tokens, scanned, Token.negates_self tokens⟩
  | cons piece rest ih =>
    rw [List.flatMap_cons] at scanned ⊢
    by_cases signed : isSigned values piece = true
    · obtain ⟨digits, minus, blank⟩ := replace_signed signed
      have apart {c : Char} (other : Token.isNumeral c = false) (later : List Char) :
          Token.Splits plain (c :: later) := by
        refine .inr fun d first => ?_
        cases first
        exact other
      rw [minus, List.cons_append] at scanned
      obtain ⟨before, _, front, behind, rfl⟩ := (Token.scan_append_ok_iff (apart rfl _)).mp scanned
      rw [Token.scan_symbol rfl] at behind
      obtain ⟨after, found, rfl⟩ := exists_of_map_ok behind
      obtain ⟨bare, foundBare, negates⟩ := ih found
      refine ⟨before ++ bare, ?_, ?_⟩
      · rw [blank, List.cons_append]
        refine (Token.scan_append_ok_iff (apart rfl _)).mpr ⟨before, bare, front, ?_, rfl⟩
        rw [Token.scan_cons_gap rfl, foundBare]
      · rw [List.countP_cons_of_pos signed]
        exact negates.minus.behind before
    · have kept : replaceUnsigned values piece = replace values piece := if_neg signed
      rw [kept, List.countP_cons_of_neg signed]
      rw [← List.append_assoc] at scanned ⊢
      exact ih scanned

/-- An expression with a value is balanced, and has an operand more than operators and another one for
each minus of a value. -/
theorem evaluate_ok {power : Grouping} {values : Assignment} {expression : String} {result : Float}
    (evaluated : evaluate power values expression = .ok result) :
    ∃ bare, Token.read (fillUnsigned values expression.toList) = .ok bare ∧ Token.Balanced 0 bare ∧
      bare.countP Token.isNumber = bare.countP Token.isOperator + 1 +
        (Text.pieces expression.toList).countP (isSigned values) := by
  obtain ⟨tokens, found, evaluated⟩ := exists_of_bind_ok evaluated
  obtain ⟨items, arranged, evaluated⟩ := exists_of_bind_ok evaluated
  rw [Token.read_substitute] at found
  have scanned : Token.scan ([] ++ (Text.pieces expression.toList).flatMap (replace values)) =
      .ok tokens := (Token.read_eq_ok_iff.mp found).1
  obtain ⟨bare, foundBare, negates⟩ := scan_signed scanned
  obtain ⟨balanced, numbers, operators⟩ := Postfix.arrange_ok arranged
  obtain ⟨sameNumbers, moreOperators⟩ := negates.counts
  have count := Postfix.run_ok evaluated
  simp only [List.length_nil, List.flatten_nil] at operators count
  have total : bare.countP Token.isNumber = bare.countP Token.isOperator + 1 +
      (Text.pieces expression.toList).countP (isSigned values) := by omega
  refine ⟨bare, Token.read_eq_ok_iff.mpr ⟨foundBare, ?_⟩, negates.balanced balanced, total⟩
  rintro rfl
  rw [List.countP_nil, List.countP_nil] at total
  omega

theorem countP_isSigned_pos {values : Assignment} {expression name : String} {value : Float}
    (free : name ∈ free expression) (bound : values name = some value) (below : value < 0) :
    0 < (Text.pieces expression.toList).countP (isSigned values) := by
  obtain ⟨piece, member, named⟩ := mem_free_iff_exists_piece.mp free
  refine List.countP_pos_iff.mpr ⟨piece, member, ?_⟩
  simp [isSigned, named, bound, Binary64.negative_of_lt_zero below, Binary64.not_isNaN_of_lt_zero below]

/-- An operand stands directly before another, and there are enough operands for all operators and the
minuses of values. -/
def Juxtaposes (values : Assignment) (expression : String) : Prop :=
  ∃ tokens, Token.read (fillUnsigned values expression.toList) = .ok tokens ∧ ¬ Token.Apart tokens ∧
    tokens.countP Token.isNumber = tokens.countP Token.isOperator + 1 +
      (Text.pieces expression.toList).countP (isSigned values)

/-- An expression with a variable less than zero is refused, unless it juxtaposes operands: the minus is
an operator, which takes an operand from the rest. -/
theorem evaluate_negative_refused (power : Grouping) {values : Assignment} {expression : String}
    (separate : ¬ Juxtaposes values expression) {name : String} {value : Float}
    (free : name ∈ free expression) (bound : values name = some value) (below : value < 0) :
    ∃ error, evaluate power values expression = .error error := by
  cases evaluated : evaluate power values expression with
  | error error => exact ⟨error, rfl⟩
  | ok result =>
    obtain ⟨bare, found, balanced, count⟩ := evaluate_ok evaluated
    have plain := Token.blank_not_mem_scan (Token.read_eq_ok_iff.mp found).1
    have minuses := countP_isSigned_pos free bound below
    by_cases apart : Token.Apart bare
    · have orderly : Token.Orderly false 0 bare := Token.orderly_of_apart plain balanced apart nofun
      have most := orderly.count_le.1
      simp only [Bool.false_eq_true, if_false] at most
      omega
    · exact absurd ⟨bare, found, apart, count⟩ separate

/-- A difference with a variable less than zero to take away. -/
theorem evaluate_negative_refused_difference :
    ¬ Juxtaposes (fun _ => some (-5)) "10 - a" ∧ "a" ∈ free "10 - a" ∧ (-5 : Float) < 0 ∧
      ∃ error, evaluate .left (fun _ => some (-5)) "10 - a" = .error error := by
  have separate : ¬ Juxtaposes (fun _ => some (-5)) "10 - a" := by
    rintro ⟨tokens, found, apart, _⟩
    have bare : Token.read (fillUnsigned (fun _ => some (-5)) "10 - a".toList) =
        .ok [.number 10, .operator .minus, .number 5] := by decide +kernel
    obtain rfl := Except.ok.inj (bare.symm.trans found)
    exact apart (by simp [Token.Apart, Token.endsOperand, Token.startsOperand])
  have free : "a" ∈ free "10 - a" := by decide +kernel
  have below : (-5 : Float) < 0 := by decide +kernel
  exact ⟨separate, free, below, evaluate_negative_refused .left separate free rfl below⟩

/-- With an operand directly in front, the minus of the value takes it as the left one. -/
theorem juxtaposed_negative :
    "a" ∈ free "10 a" ∧ (-5 : Float) < 0 ∧
      evaluate .left (fun _ => some (-5)) "10 a" = .ok 5 ∧
      evaluate .right (fun _ => some (-5)) "10 a" = .ok 5 := by
  decide +kernel

end Variable

end Reckon

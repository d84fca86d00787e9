import Bella.Proofs.Guards
import Bella.Proofs.Outcome
import Bella.Proofs.Rules.Judgement

/-! The primitive operations follow their rules: a rule's outcome is the operation's, and some rule
applies to whatever operands there are. -/

namespace Bella

def Outcome.result {α : Type} (outcome : Outcome α) : Except Fault α :=
  outcome.mapError .misuse

section

variable {α : Type}

@[simp] theorem Outcome.result_ok (value : α) :
    Outcome.result (.ok value : Outcome α) = .ok value :=
  rfl

@[simp] theorem Outcome.result_error (misuse : Misuse) :
    Outcome.result (.error misuse : Outcome α) = .error (.misuse misuse) :=
  rfl

end

theorem Text.string?_eq_some {text : Text} {string : String}
    (read : text.string? = some string) : text = Text.ofString string := by
  have characters : ∀ (points : List CodePoint) (values : List Char),
      points.mapM CodePoint.character? = some values → points = values.map .character := by
    intro points
    induction points with
    | nil =>
        intro values taken
        obtain rfl : values = [] := by simpa using taken.symm
        rfl
    | cons point rest ih =>
        intro values taken
        cases point with
        | surrogate index => simp [List.mapM_cons, CodePoint.character?] at taken
        | character value =>
            simp only [List.mapM_cons, CodePoint.character?, bind, Option.bind] at taken
            cases later : rest.mapM CodePoint.character? with
            | none => simp [later] at taken
            | some others =>
                obtain rfl : value :: others = values := by simpa [later] using taken
                rw [ih others later, List.map_cons]
  simp only [Text.string?, Option.map_eq_some_iff] at read
  obtain ⟨values, taken, rfl⟩ := read
  rw [characters text values taken, Text.ofString, String.toList_ofList, Text.ofCharacters]

theorem Datum.string?_text (string : String) : (Datum.text string).string? = some string :=
  Text.string?_ofString string

theorem Datum.string?_eq_some {datum : Datum} {string : String}
    (read : datum.string? = some string) : datum = .text string := by
  cases datum with
  | text value => rw [Text.string?_eq_some read]
  | _ => simp [Datum.string?] at read

theorem Value.kind_eq_number {value : Value} :
    value.kind = .number ↔ ∃ number, value = .number number := by
  cases value with
  | foreign text => cases text <;> simp [Value.kind]
  | _ => simp [Value.kind]

theorem Value.kind_eq_boolean {value : Value} :
    value.kind = .boolean ↔ ∃ truth, value = .boolean truth := by
  cases value with
  | foreign text => cases text <;> simp [Value.kind]
  | _ => simp [Value.kind]

theorem Value.kind_eq_array {value : Value} :
    value.kind = .array ↔ ∃ items, value = .array items := by
  cases value with
  | foreign text => cases text <;> simp [Value.kind]
  | _ => simp [Value.kind]

theorem unaryResult_of_rule {operator : Datum} {operand : Value} {outcome : Outcome Value}
    (rule : UnaryRule operator operand outcome) :
    unaryResult operator operand = outcome.result := by
  cases rule with
  | negate number => simp [unaryResult, Datum.string?_text]
  | negateMismatch mismatch =>
      cases operand with
      | number value => exact absurd rfl mismatch
      | _ => simp [unaryResult, Datum.string?_text]
  | invert truth => simp [unaryResult, Datum.string?_text]
  | invertMismatch mismatch =>
      cases operand with
      | boolean truth => exact absurd rfl mismatch
      | _ => simp [unaryResult, Datum.string?_text]
  | unknown noMinus noBang =>
      unfold unaryResult
      split
      · rename_i minus
        exact absurd (Datum.string?_eq_some minus) noMinus
      · rename_i bang
        exact absurd (Datum.string?_eq_some bang) noBang
      · rfl

theorem unaryRule_total (operator : Datum) (operand : Value) :
    ∃ outcome, UnaryRule operator operand outcome := by
  by_cases minus : operator = .text "-"
  · subst minus
    by_cases number : operand.kind = .number
    · obtain ⟨value, rfl⟩ := Value.kind_eq_number.mp number
      exact ⟨_, .negate value⟩
    · exact ⟨_, .negateMismatch number⟩
  · by_cases bang : operator = .text "!"
    · subst bang
      by_cases boolean : operand.kind = .boolean
      · obtain ⟨truth, rfl⟩ := Value.kind_eq_boolean.mp boolean
        exact ⟨_, .invert truth⟩
      · exact ⟨_, .invertMismatch boolean⟩
    · exact ⟨_, .unknown minus bang⟩

theorem numberOperator_of_numeric {symbol : String} (numeric : symbol ∈ numericOperators) :
    ∃ operator, NumberOperator.ofText? symbol = some operator := by
  simp only [numericOperators, List.mem_cons, List.not_mem_nil, or_false] at numeric
  rcases numeric with rfl | rfl | rfl | rfl | rfl | rfl | rfl | rfl | rfl | rfl | rfl | rfl <;>
    exact ⟨_, rfl⟩

theorem truthOperator_of_boolean {symbol : String} (boolean : symbol ∈ booleanOperators) :
    NumberOperator.ofText? symbol = none ∧ ∃ operator, truthOperator? symbol = some operator := by
  simp only [booleanOperators, List.mem_cons, List.not_mem_nil, or_false] at boolean
  rcases boolean with rfl | rfl
  · exact ⟨rfl, _, rfl⟩
  · exact ⟨rfl, _, rfl⟩

theorem numeric_of_numberOperator {symbol : String} {operator : NumberOperator}
    (classified : NumberOperator.ofText? symbol = some operator) : symbol ∈ numericOperators := by
  unfold NumberOperator.ofText? at classified
  split at classified <;> simp_all [numericOperators]

theorem boolean_of_truthOperator {symbol : String} {operator : Bool → Bool → Bool}
    (classified : truthOperator? symbol = some operator) : symbol ∈ booleanOperators := by
  unfold truthOperator? at classified
  split at classified <;> simp_all [booleanOperators]

theorem hostNumber_ok (number : Number) : hostNumber (.ok number) = .ok (.number number) :=
  rfl

theorem numberRule_classified {symbol : String} {left right : Number} {outcome : Outcome Value}
    (rule : NumberRule symbol left right outcome) :
    ∃ operator, NumberOperator.ofText? symbol = some operator ∧
      operator.apply left right = outcome.result := by
  cases rule with
  | divide nonzero =>
      exact ⟨.divide, rfl, by simp [NumberOperator.apply, Host.divide, nonzero, hostNumber_ok]⟩
  | divideByZero zero => exact ⟨.divide, rfl, by simp [NumberOperator.apply, zero]⟩
  | remainder =>
      exact ⟨.remainder, rfl, by simp [NumberOperator.apply, remainder_guarded, hostNumber_ok]⟩
  | power =>
      exact ⟨.power, rfl, by simp [NumberOperator.apply, power_guarded, hostNumber_ok]⟩
  | _ => exact ⟨_, rfl, rfl⟩

theorem binaryResult_of_rule {operator : Datum} {left right : Value} {outcome : Outcome Value}
    (rule : BinaryRule operator left right outcome) :
    binaryResult operator left right = outcome.result := by
  cases rule with
  | numbers rule =>
      obtain ⟨onNumbers, classified, applied⟩ := numberRule_classified rule
      simp [binaryResult, Datum.string?_text, classified, applied]
  | numericMismatch numeric mismatch =>
      obtain ⟨onNumbers, classified⟩ := numberOperator_of_numeric numeric
      simp only [binaryResult, Datum.string?_text, classified]
      split
      · simp [Value.kind] at mismatch
      · rfl
  | conjunction leftTruth rightTruth =>
      simp [binaryResult, Datum.string?_text, NumberOperator.ofText?, truthOperator?]
  | disjunction leftTruth rightTruth =>
      simp [binaryResult, Datum.string?_text, NumberOperator.ofText?, truthOperator?]
  | booleanMismatch boolean mismatch =>
      obtain ⟨otherwise, onTruths, classified⟩ := truthOperator_of_boolean boolean
      simp only [binaryResult, Datum.string?_text, otherwise, classified]
      split
      · simp [Value.kind] at mismatch
      · rfl
  | unknown nowhere =>
      unfold binaryResult
      cases read : operator.string? with
      | none => rfl
      | some symbol =>
          have same := Datum.string?_eq_some read
          have absent : symbol ∉ numericOperators ++ booleanOperators :=
            fun present => nowhere symbol present same
          simp only
          split
          · rename_i classified
            exact absurd (List.mem_append_left _ (numeric_of_numberOperator classified)) absent
          · rename_i classified
            exact absurd (List.mem_append_right _ (boolean_of_truthOperator classified)) absent
          · rfl

theorem numberRule_total {symbol : String} (numeric : symbol ∈ numericOperators)
    (left right : Number) : ∃ outcome, NumberRule symbol left right outcome := by
  simp only [numericOperators, List.mem_cons, List.not_mem_nil, or_false] at numeric
  rcases numeric with rfl | rfl | rfl | rfl | rfl | rfl | rfl | rfl | rfl | rfl | rfl | rfl
  case inr.inr.inr.inl =>
    cases zero : right.isZero with
    | false => exact ⟨_, .divide zero⟩
    | true => exact ⟨_, .divideByZero zero⟩
  all_goals exact ⟨_, by constructor⟩

theorem booleanRule_total {symbol : String} (boolean : symbol ∈ booleanOperators)
    (left right : Bool) :
    ∃ outcome, BinaryRule (.text symbol) (.boolean left) (.boolean right) outcome := by
  simp only [booleanOperators, List.mem_cons, List.not_mem_nil, or_false] at boolean
  rcases boolean with rfl | rfl
  · exact ⟨_, .conjunction left right⟩
  · exact ⟨_, .disjunction left right⟩

theorem binaryRule_total (operator : Datum) (left right : Value) :
    ∃ outcome, BinaryRule operator left right outcome := by
  by_cases known : ∃ symbol ∈ numericOperators ++ booleanOperators, operator = .text symbol
  · obtain ⟨symbol, listed, rfl⟩ := known
    rcases List.mem_append.mp listed with numeric | boolean
    · by_cases numbers : left.kind = .number ∧ right.kind = .number
      · obtain ⟨leftNumber, rfl⟩ := Value.kind_eq_number.mp numbers.1
        obtain ⟨rightNumber, rfl⟩ := Value.kind_eq_number.mp numbers.2
        obtain ⟨outcome, rule⟩ := numberRule_total numeric leftNumber rightNumber
        exact ⟨outcome, .numbers rule⟩
      · exact ⟨_, .numericMismatch numeric (Decidable.not_and_iff_or_not.mp numbers)⟩
    · by_cases booleans : left.kind = .boolean ∧ right.kind = .boolean
      · obtain ⟨leftTruth, rfl⟩ := Value.kind_eq_boolean.mp booleans.1
        obtain ⟨rightTruth, rfl⟩ := Value.kind_eq_boolean.mp booleans.2
        exact booleanRule_total boolean leftTruth rightTruth
      · exact ⟨_, .booleanMismatch boolean (Decidable.not_and_iff_or_not.mp booleans)⟩
  · exact ⟨_, .unknown fun symbol listed same => known ⟨symbol, listed, same⟩⟩

theorem subscriptResult_of_rule {array subscript : Value} {outcome : Outcome Value}
    (rule : SubscriptRule array subscript outcome) :
    subscriptResult array subscript = outcome.result := by
  cases rule with
  | @item items number index item whole found =>
      have located : itemAt items number = .ok (some item) := by
        rw [itemAt_guarded, whole]
        exact congrArg Except.ok found
      simp [subscriptResult, located]
  | @outOfBounds items number outside =>
      have located : itemAt items number = .ok none := by
        rw [itemAt_guarded]
        split
        · rename_i index whole
          exact congrArg Except.ok (List.getElem?_eq_none (outside index whole))
        · rfl
      simp [subscriptResult, located]
  | subscriptMismatch mismatch =>
      cases subscript with
      | number value => exact absurd rfl mismatch
      | _ => rfl
  | arrayMismatch mismatch =>
      cases array with
      | array items => exact absurd rfl mismatch
      | _ => rfl

theorem subscriptRule_total (array subscript : Value) :
    ∃ outcome, SubscriptRule array subscript outcome := by
  by_cases isArray : array.kind = .array
  · obtain ⟨items, rfl⟩ := Value.kind_eq_array.mp isArray
    by_cases isNumber : subscript.kind = .number
    · obtain ⟨number, rfl⟩ := Value.kind_eq_number.mp isNumber
      by_cases inside : ∃ index : Nat, number.integer? = some (index : Int) ∧ index < items.length
      · obtain ⟨index, whole, below⟩ := inside
        exact ⟨_, .item whole (List.getElem?_eq_getElem below)⟩
      · refine ⟨_, .outOfBounds fun index whole => ?_⟩
        exact Nat.le_of_not_lt fun below => inside ⟨index, whole, below⟩
    · exact ⟨_, .subscriptMismatch isNumber⟩
  · exact ⟨_, .arrayMismatch isArray⟩

section

variable {α : Type} {holds : α → Prop} {excused : Fault → Prop}

theorem checkArity_ok {callee : Datum} {expected given : Nat} (fits : given = expected) :
    checkArity callee expected given = .ok () :=
  if_pos fits

theorem checkArity_error {callee : Datum} {expected given : Nat} (mismatch : given ≠ expected) :
    checkArity callee expected given = .error (.misuse (.wrongArity callee expected given)) :=
  if_neg mismatch

theorem checkArity_length {callee : Datum} {expected given : Nat}
    (checked : checkArity callee expected given = .ok ()) : given = expected := by
  refine Decidable.byContradiction fun mismatch => ?_
  cases (checkArity_error mismatch).symm.trans checked

theorem checkArity_ensures {callee : Datum} {expected given : Nat} {next : Unit → Traced α}
    (mismatched : given ≠ expected → excused (.misuse (.wrongArity callee expected given)))
    (after : given = expected → (next ()).Ensures holds excused) :
    (Traced.ofExcept (checkArity callee expected given) >>= next).Ensures holds excused := by
  by_cases fits : given = expected
  · exact Traced.ensures_known (checkArity_ok fits) (after fits)
  · rw [checkArity_error fits]
    exact Traced.ensures_fail (mismatched fits)

theorem mayDeclare_ensures {scope : Scope} {name : Datum} {key : Key} {next : Unit → Traced α}
    (named : name.key? = some key)
    (bound : ∀ value, scope.find? key = some value → excused (.misuse (.alreadyDeclared name)))
    (after : scope.find? key = none → (next ()).Ensures holds excused) :
    (Traced.ofExcept (scope.mayDeclare name) >>= next).Ensures holds excused := by
  rcases scope.mayDeclare_cases named with ⟨fresh, allowed⟩ | ⟨value, found, refused⟩
  · exact Traced.ensures_known allowed (after fresh)
  · rw [refused]
    exact Traced.ensures_fail (bound value found)

end

theorem compute_of_rule {builtin : Builtin} {numbers : List Number} {result : Number}
    (rule : BuiltinRule builtin numbers result) : builtin.compute numbers = .ok result := by
  cases rule with
  | squareRoot number => exact squareRoot_guarded number
  | sine number => exact sine_guarded number
  | cosine number => exact cosine_guarded number
  | naturalLogarithm number => exact naturalLogarithm_guarded number
  | exponential bounded => simp [Builtin.compute, exponential_guarded, bounded]
  | exponentialOverflow overflow => simp [Builtin.compute, exponential_guarded, overflow]
  | hypotenuse left right => rfl

theorem builtinRule_arity {builtin : Builtin} {numbers : List Number} {result : Number}
    (rule : BuiltinRule builtin numbers result) : numbers.length = builtin.arity := by
  cases rule <;> rfl

theorem builtinRule_total (builtin : Builtin) {numbers : List Number}
    (enough : numbers.length = builtin.arity) : ∃ result, BuiltinRule builtin numbers result := by
  match builtin, numbers, enough with
  | .squareRoot, [number], _ => exact ⟨_, .squareRoot number⟩
  | .sine, [number], _ => exact ⟨_, .sine number⟩
  | .cosine, [number], _ => exact ⟨_, .cosine number⟩
  | .naturalLogarithm, [number], _ => exact ⟨_, .naturalLogarithm number⟩
  | .exponential, [number], _ =>
      cases size : Host.isInfinite number.exponential with
      | false => exact ⟨_, .exponential size⟩
      | true => exact ⟨_, .exponentialOverflow size⟩
  | .hypotenuse, [left, right], _ => exact ⟨_, .hypotenuse left right⟩

theorem numbersOf_numbers (builtin : Builtin) (numbers : List Number) :
    numbersOf builtin (numbers.map .number) = .ok numbers := by
  induction numbers with
  | nil => rfl
  | cons number rest ih => simp [numbersOf, ih, Except.map]

theorem numbersOf_mismatch (builtin : Builtin) (numbers : List Number) {other : Value}
    (rest : List Value) (mismatch : other.kind ≠ .number) :
    numbersOf builtin (numbers.map .number ++ other :: rest) =
      .error (.misuse (.argumentKind builtin other.kind)) := by
  induction numbers with
  | nil =>
      cases other with
      | number value => exact absurd rfl mismatch
      | _ => rfl
  | cons number later ih => simp [numbersOf, ih, Except.map]

theorem numbers_or_mismatch (arguments : List Value) :
    (∃ numbers : List Number, arguments = numbers.map .number) ∨
      ∃ (numbers : List Number) (other : Value) (rest : List Value),
        other.kind ≠ .number ∧ arguments = numbers.map .number ++ other :: rest := by
  induction arguments with
  | nil => exact .inl ⟨[], rfl⟩
  | cons first rest ih =>
      by_cases isNumber : first.kind = .number
      · obtain ⟨number, rfl⟩ := Value.kind_eq_number.mp isNumber
        rcases ih with ⟨numbers, rfl⟩ | ⟨numbers, other, later, mismatch, rfl⟩
        · exact .inl ⟨number :: numbers, rfl⟩
        · exact .inr ⟨number :: numbers, other, later, mismatch, rfl⟩
      · exact .inr ⟨[], first, rest, isNumber, rfl⟩

end Bella

import Bella.Proofs.Arithmetic.Nearest
import Bella.Proofs.Decimal.Written
import Bella.Proofs.Grammar.Joining
import Bella.Material

/-! Literals of natural numbers. Main statement: the digits of a natural number in source text stand for
the nearest number, infinity included, and the integer in a stored numeral for the same one, unless this
is infinity; then it is a fault. -/

namespace Bella

namespace Source

open Construction

section

variable {first : Char} {others lexeme read rest : List Char} {loops : List OpenLoop}
  {statements : List Node} {purpose : Purpose} {frames : List Frame} {last : Construction}

theorem numeralExtent_digits (digital : ∀ character ∈ others, Text.isDigit character = true)
    (rest : List Char) : numeralExtent (others ++ ';' :: rest) = others.length := by
  have whole : digitsExtent (others ++ ';' :: rest) = others.length := by
    rw [digitsExtent_append digital, digitsExtent_eq_zero (by decide), Nat.add_zero]
  have fraction : fractionExtent (';' :: rest) = 0 := rfl
  have exponent : exponentExtent (';' :: rest) = 0 := by
    rw [exponentExtent_cons, if_neg]
    exact fun both => absurd both.1 (by decide)
  simp only [numeralExtent, whole, List.drop_left, fraction, Nat.add_zero, exponent]

theorem bare_digit {rest : List Char} (digit : Text.isDigit first = true) : Bare first rest := by
  refine ⟨isBlank_of_isDigit digit, commentExtent?_eq_none.mpr ?_⟩
  rintro ⟨rfl, -⟩
  exact absurd digit (by decide)

theorem Passes.digits (digital : Digits lexeme)
    (passes : Passes ⟨loops, statements, .operator purpose frames
      (.numeral (.real (Number.ofNumeral lexeme))) none⟩ (';' :: read) rest last) :
    Passes ⟨loops, statements, .operand purpose frames⟩ (lexeme ++ ';' :: read) rest last := by
  obtain ⟨first, others, rfl⟩ := List.exists_cons_of_ne_nil digital.1
  obtain ⟨digit, later⟩ := List.forall_mem_cons.mp digital.2
  have scanned : Place.operand.scan first (others ++ ';' :: (read ++ rest)) =
      some (.number, others.length) := by
    rw [Place.scan_operand_digit digit, numeralExtent_digits later]
  exact .token (bare_digit digit) scanned rfl passes

theorem parse_print_digits (digital : Digits lexeme) :
    parse ("print " ++ String.ofList lexeme ++ ";") =
      .ok (.program (.block [.printStatement (.numeral (.real (Number.ofNumeral lexeme)))])) := by
  have ends (literal : Node) : Passes ⟨[], [], .operator .print [] literal none⟩ [';'] []
      ⟨[], [.printStatement literal], .statement⟩ :=
    @Passes.token _ _ _ ';' [] .semicolon [] [] ⟨rfl, rfl⟩ rfl rfl .stay
  have starts : Passes .empty ("print ".toList ++ (lexeme ++ [';'])) []
      ⟨[], [.printStatement (.numeral (.real (Number.ofNumeral lexeme)))], .statement⟩ :=
    @Passes.token _ _ _ 'p' ['r', 'i', 'n', 't'] .printKeyword (' ' :: (lexeme ++ [';'])) []
      ⟨rfl, rfl⟩ rfl rfl (.blank rfl (.digits digital (ends _)))
  refine (parse_iff_passes _ _).mpr ⟨_, ?_, finish?_eq_some.mpr ⟨[_], List.cons_ne_nil _ _, rfl, rfl⟩⟩
  rw [String.toList_append, String.toList_append, List.append_assoc, @String.toList_ofList lexeme]
  exact starts

end

end Source

open Number

section

variable (value : Nat) (level : Nat) (budget : Budget) (scope : Scope)

theorem ofInt_natCast : ofInt value = ofNat value := by
  have unsigned : ¬(value : ℤ) < 0 := by omega
  rw [ofInt, decide_eq_false unsigned, Int.natAbs_natCast, ofNat]

theorem ofNat_eq_infinite : ofNat value = .infinite false ↔ overflowBound ≤ value := by
  rw [(ofNat_isNearest value).overflow, Nat.cast_le]

theorem ofDecimal_natural : ofDecimal false ⟨value, 0⟩ = ofNat value := by
  by_cases zero : value = 0
  · subst zero
    decide +kernel
  have digit : 0 < decimalLength value := lt_decimalLength (by omega)
  simp only [ofDecimal, zero, false_or, Int.add_zero]
  rw [if_neg (by omega)]
  split
  · rename_i long
    have digits : 310 ≤ decimalLength value - 1 := by omega
    have bound : overflowBound ≤ 10 ^ 310 := by decide +kernel
    have power : 10 ^ 310 ≤ 10 ^ (decimalLength value - 1) := pow_le_pow_right₀ (by decide) digits
    have large := (bound.trans power).trans (pow_decimalLength_le zero)
    exact ((ofNat_eq_infinite value).mpr large).symm
  · exact congrArg (ofUnits false) (congrArg (· * unitsPerOne) (Nat.mul_one value))

theorem ofNumeral_toDigits : ofNumeral (Nat.toDigits 10 value) = ofNat value := by
  have read := (Source.readDecimal?_toDigits value (.inl rfl)).2
  rw [List.append_nil] at read
  rw [ofNumeral, read]
  exact ofDecimal_natural value

theorem numeralValue_natural : numeralValue (.integer value) =
    if value < overflowBound then .ok (ofNat value) else .error .oversizedNumeral := by
  rw [numeralValue, ofInt_natCast]
  split
  · rename_i below
    obtain ⟨rank, finite⟩ := (ofNat_isNearest value).exists_finite (Nat.cast_lt.mpr below)
    rw [finite]
    rfl
  · rename_i past
    rw [(ofNat_eq_infinite value).mpr (Nat.not_lt.mp past)]
    rfl

theorem expression_of_parse {text : String} {expression : Node}
    (parsed : Source.parse ("print " ++ text ++ ";") =
      .ok (.program (.block [.printStatement expression]))) :
    (Material.source text).expression = .ok expression := by
  simp only [Material.expression, Material.parse, parsed]
  rfl

def storedNumeral : Datum :=
  .object [("type", .text "Numeral"), ("value", .integer value)]

theorem evaluate_digits :
    (Material.source (toString value)).expression.map (evaluateIn level budget scope) =
      .ok (pure (.number (ofNat value))) := by
  have digital : ∀ character ∈ Nat.toDigits 10 value, Text.isDigit character = true :=
    fun _ inside => Source.isDigit_of_common (digital_toDigits value _ inside)
  have parsed := Source.parse_print_digits ⟨Nat.toDigits_ne_nil, digital⟩
  rw [ofNumeral_toDigits] at parsed
  have printed : (Material.source (toString value)).expression = .ok (.numeral (.real (ofNat value))) :=
    expression_of_parse parsed
  rw [printed]
  rfl

theorem evaluate_storedNumeral :
    (Material.stored (storedNumeral value)).expression.map (evaluateIn level budget scope) =
      .ok (if value < overflowBound then pure (.number (ofNat value)) else .fail .oversizedNumeral) := by
  have decoded : (Material.stored (storedNumeral value)).expression = .ok (.numeral (.integer value)) :=
    rfl
  have evaluated : evaluateIn level budget scope (.numeral (.integer value)) =
      .ofExcept ((numeralValue (.integer value)).map .number) :=
    rfl
  rw [decoded, Except.map, evaluated, numeralValue_natural]
  split <;> rfl

end

/-- The digits of a natural number in source text are evaluated to the one number that is nearest to
it, infinity if it is not below the bound. The integer in a stored numeral is evaluated to the same number
below the bound; else it is a fault. -/
theorem natural_literals_nearest (value : Nat) :
    ∃ number : Number, (∀ other : Number, other.IsNearest value ↔ other = number) ∧
      ∀ (level : Nat) (budget : Budget) (scope : Scope),
        (Material.source (toString value)).expression.map (evaluateIn level budget scope) =
          .ok (pure (.number number)) ∧
        (Material.stored (storedNumeral value)).expression.map (evaluateIn level budget scope) =
          .ok (if value < overflowBound then pure (.number number) else .fail .oversizedNumeral) := by
  refine ⟨ofNat value, fun other => ?_, fun level budget scope => ?_⟩
  · constructor
    · exact fun nearest => nearest.unique (ofNat_isNearest value)
    · rintro rfl
      exact ofNat_isNearest value
  · exact ⟨evaluate_digits value level budget scope, evaluate_storedNumeral value level budget scope⟩

theorem natural_literals_differ_large :
    (Material.source (toString (10 ^ 309))).expression.map (evaluateIn 0 .ample .initial) =
        .ok (pure (.number (.infinite false))) ∧
      (Material.stored (storedNumeral (10 ^ 309))).expression.map (evaluateIn 0 .ample .initial) =
        .ok (.fail .oversizedNumeral) := by
  have past : overflowBound ≤ 10 ^ 309 := by decide +kernel
  have infinite := (ofNat_eq_infinite _).mpr past
  constructor
  · rw [evaluate_digits, infinite]
  · rw [evaluate_storedNumeral, if_neg (Nat.not_lt.mpr past)]

end Bella

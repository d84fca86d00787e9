import Bella.Proofs.Exchange.Relation
import Bella.Proofs.Rules.Primitive
import Bella.Proofs.Safety
import Mathlib.Data.List.Forall2
import Mathlib.Data.Option.Basic

/-! Values of two runs that differ by an exchange of expressions. They have the same shape and differ at
most in the bodies of functions, so they have the same kind and text, and every primitive operation has
outcomes of the same shape on them. -/

namespace Bella

inductive Value.Native (vocabulary : Vocabulary) : Value → Prop
  | number (value : Number) : Native vocabulary (.number value)
  | boolean (value : Bool) : Native vocabulary (.boolean value)
  | array {items : List Value} (each : ∀ item ∈ items, Native vocabulary item) :
      Native vocabulary (.array items)
  | builtin (function : Builtin) : Native vocabulary (.builtin function)
  | function {name : Datum} {parameters : List Datum} {body : Node}
      (admitted : vocabulary.Admits name parameters body) :
      Native vocabulary (.function name parameters body)

def Scope.Native (vocabulary : Vocabulary) (scope : Scope) : Prop :=
  ∀ key value, scope.find? key = some value → value.Native vocabulary

section

variable (vocabulary : Vocabulary) (first second : Node)

inductive Value.Matches : Value → Value → Prop
  | number (value : Number) : Matches (.number value) (.number value)
  | boolean (value : Bool) : Matches (.boolean value) (.boolean value)
  | array {items others : List Value} (same : items.length = others.length)
      (each : ∀ item other, (item, other) ∈ items.zip others → Matches item other) :
      Matches (.array items) (.array others)
  | builtin (function : Builtin) : Matches (.builtin function) (.builtin function)
  | function {name : Datum} {parameters : List Datum} {body other : Node}
      (one : vocabulary.Admits name parameters body)
      (two : vocabulary.Admits name parameters other)
      (exchanged : Exchanged first second body other) :
      Matches (.function name parameters body) (.function name parameters other)

structure Scope.Matches (one other : Scope) : Prop where
  found : ∀ key, Option.Rel (Value.Matches vocabulary first second) (one.find? key)
    (other.find? key)
  constants : one.constants = other.constants

structure State.Matches (one other : State) : Prop where
  scope : one.scope.Matches vocabulary first second other.scope
  output : List.Forall₂ (Value.Matches vocabulary first second) one.output other.output

end

/-- Outcomes with corresponding values, or with the same kind of error and the same message. -/
inductive Outcome.Alike {α β : Type} (values : α → β → Prop) : Outcome α → Outcome β → Prop
  | ok {value : α} {other : β} (corresponding : values value other) :
      Alike values (.ok value) (.ok other)
  | error {misuse other : Misuse} (kind : misuse.kind = other.kind)
      (message : misuse.message = other.message) : Alike values (.error misuse) (.error other)

namespace Value

theorem texts_eq_map (items : List Value) : texts items = items.map text := by
  induction items with
  | nil => rfl
  | cons item rest ih => rw [texts, List.map_cons, ih]

end Value

section

variable {vocabulary : Vocabulary} {first second : Node} {value other : Value}

theorem matches_array_iff {items others : List Value} :
    (Value.array items).Matches vocabulary first second (.array others) ↔
      List.Forall₂ (Value.Matches vocabulary first second) items others := by
  rw [List.forall₂_iff_zip]
  constructor
  · intro matched
    cases matched with
    | array same each => exact ⟨same, fun member => each _ _ member⟩
  · rintro ⟨same, each⟩
    exact .array same fun item other member => each member

theorem Value.Matches.kind_eq (matched : value.Matches vocabulary first second other) :
    value.kind = other.kind := by
  cases matched <;> rfl

theorem Value.Matches.isFunction_eq (matched : value.Matches vocabulary first second other) :
    value.isFunction = other.isFunction := by
  cases matched <;> rfl

theorem Value.Matches.untrue (matched : value.Matches vocabulary first second other)
    (untrue : value ≠ .boolean true) : other ≠ .boolean true := by
  rintro rfl
  cases matched
  exact untrue rfl

theorem Value.Matches.text_eq (matched : value.Matches vocabulary first second other) :
    value.text = other.text := by
  induction matched with
  | number | boolean | builtin | function => rfl
  | @array items others same _ ih =>
      have texts : items.map Value.text = others.map Value.text := by
        have each : List.Forall₂ (fun item other => Value.text item = Value.text other) items
            others :=
          List.forall₂_iff_zip.mpr ⟨same, fun member => ih _ _ member⟩
        rwa [← List.forall₂_eq_eq_eq, List.forall₂_map_left_iff, List.forall₂_map_right_iff]
      rw [Value.text, Value.text, Value.texts_eq_map, Value.texts_eq_map, texts]

theorem Value.Matches.native (matched : value.Matches vocabulary first second other) :
    other.Native vocabulary := by
  induction matched with
  | number value => exact .number value
  | boolean value => exact .boolean value
  | builtin function => exact .builtin function
  | function _ two _ => exact .function two
  | @array items others same _ ih =>
      refine .array fun other member => ?_
      obtain ⟨index, bound, rfl⟩ := List.getElem_of_mem member
      have each : List.Forall₂ (fun _ other => Value.Native vocabulary other) items others :=
        List.forall₂_iff_zip.mpr ⟨same, fun member => ih _ _ member⟩
      exact each.get (same ▸ bound) bound

theorem Value.Native.matched (native : value.Native vocabulary) :
    value.Matches vocabulary first second value := by
  induction native with
  | number value => exact .number value
  | boolean value => exact .boolean value
  | builtin function => exact .builtin function
  | function admitted => exact .function admitted admitted (.within (exchangedWithin_self admitted.2))
  | array _ ih =>
      refine matches_array_iff.mpr ?_
      exact List.forall₂_same.mpr ih

theorem Value.Native.every (native : value.Native vocabulary) : value.Every vocabulary.Admits := by
  induction native with
  | number value => exact .number value
  | boolean value => exact .boolean value
  | builtin function => exact .builtin function
  | function admitted => exact .function admitted
  | array _ ih => exact .array ih

variable {key : Key} {one two : Scope}

theorem Scope.Matches.unbound (matched : one.Matches vocabulary first second two)
    (absent : one.find? key = none) : two.find? key = none := by
  have related := matched.found key
  rw [absent] at related
  cases found : two.find? key with
  | none => rfl
  | some value =>
      rw [found] at related
      cases related

theorem Scope.Matches.bound (matched : one.Matches vocabulary first second two)
    (found : one.find? key = some value) :
    ∃ other, two.find? key = some other ∧ value.Matches vocabulary first second other := by
  have related := matched.found key
  rw [found] at related
  cases known : two.find? key with
  | none =>
      rw [known] at related
      cases related
  | some other =>
      rw [known] at related
      cases related with
      | some corresponding => exact ⟨other, rfl, corresponding⟩

theorem Scope.Matches.native (matched : one.Matches vocabulary first second two) :
    two.Native vocabulary := by
  intro key other found
  have related := matched.found key
  rw [found] at related
  cases known : one.find? key with
  | none =>
      rw [known] at related
      cases related
  | some value =>
      rw [known] at related
      cases related with
      | some corresponding => exact corresponding.native

theorem Scope.Native.matched (native : one.Native vocabulary) :
    one.Matches vocabulary first second one := by
  refine ⟨fun key => ?_, rfl⟩
  cases found : one.find? key with
  | none => exact .none
  | some value => exact .some (native key value found).matched

theorem Scope.Native.every (native : one.Native vocabulary) :
    one.EveryAt Set.univ vocabulary.Admits :=
  fun key _ value found => (native key value found).every

theorem Scope.Matches.bind (matched : one.Matches vocabulary first second two) (key : Key)
    (corresponding : value.Matches vocabulary first second other) :
    (one.bind key value).Matches vocabulary first second (two.bind key other) := by
  refine ⟨fun looked => ?_, matched.constants⟩
  rw [find?_bind, find?_bind]
  split
  · exact .some corresponding
  · exact matched.found looked

theorem Scope.Matches.extend (matched : one.Matches vocabulary first second two)
    (keys : List Key) {arguments others : List Value}
    (corresponding : List.Forall₂ (Value.Matches vocabulary first second) arguments others) :
    (one.extend (keys.zip arguments)).Matches vocabulary first second
      (two.extend (keys.zip others)) := by
  induction corresponding generalizing one two keys with
  | nil =>
      rw [List.zip_nil_right]
      exact matched
  | cons head _ ih =>
      cases keys with
      | nil => exact matched
      | cons key rest => exact ih (matched.bind key head) rest

theorem Scope.Matches.assignable (matched : one.Matches vocabulary first second two)
    (allowed : one.Assignable key) : two.Assignable key := by
  obtain ⟨value, found, data, free⟩ := allowed
  obtain ⟨other, known, corresponding⟩ := matched.bound found
  exact ⟨other, known, corresponding.isFunction_eq ▸ data, matched.constants ▸ free⟩

variable {operator : Datum} {outcome : Outcome Value}

theorem matches_number {number : Number}
    (matched : (Value.number number).Matches vocabulary first second other) :
    other = .number number := by
  cases matched
  rfl

theorem matches_boolean {truth : Bool}
    (matched : (Value.boolean truth).Matches vocabulary first second other) :
    other = .boolean truth := by
  cases matched
  rfl

theorem UnaryRule.matched (rule : UnaryRule operator value outcome)
    (matched : value.Matches vocabulary first second other) :
    ∃ following, UnaryRule operator other following ∧
      outcome.Alike (Value.Matches vocabulary first second) following := by
  cases rule with
  | negate number =>
      obtain rfl := matches_number matched
      exact ⟨_, .negate number, .ok (.number _)⟩
  | invert truth =>
      obtain rfl := matches_boolean matched
      exact ⟨_, .invert truth, .ok (.boolean _)⟩
  | negateMismatch mismatch =>
      rw [matched.kind_eq] at mismatch ⊢
      exact ⟨_, .negateMismatch mismatch, .error rfl rfl⟩
  | invertMismatch mismatch =>
      rw [matched.kind_eq] at mismatch ⊢
      exact ⟨_, .invertMismatch mismatch, .error rfl rfl⟩
  | unknown noMinus noBang => exact ⟨_, .unknown noMinus noBang, .error rfl rfl⟩

theorem NumberRule.alike_self {symbol : String} {left right : Number}
    (rule : NumberRule symbol left right outcome) :
    outcome.Alike (Value.Matches vocabulary first second) outcome := by
  cases rule with
  | divideByZero zero => exact .error rfl rfl
  | greater | less | greaterOrEqual | lessOrEqual | equal | notEqual => exact .ok (.boolean _)
  | _ => exact .ok (.number _)

theorem BinaryRule.matched {left right otherLeft otherRight : Value}
    (rule : BinaryRule operator left right outcome)
    (one : left.Matches vocabulary first second otherLeft)
    (two : right.Matches vocabulary first second otherRight) :
    ∃ following, BinaryRule operator otherLeft otherRight following ∧
      outcome.Alike (Value.Matches vocabulary first second) following := by
  cases rule with
  | numbers rule =>
      obtain rfl := matches_number one
      obtain rfl := matches_number two
      exact ⟨_, .numbers rule, rule.alike_self⟩
  | conjunction left right =>
      obtain rfl := matches_boolean one
      obtain rfl := matches_boolean two
      exact ⟨_, .conjunction left right, .ok (.boolean _)⟩
  | disjunction left right =>
      obtain rfl := matches_boolean one
      obtain rfl := matches_boolean two
      exact ⟨_, .disjunction left right, .ok (.boolean _)⟩
  | numericMismatch numeric mismatch =>
      rw [one.kind_eq, two.kind_eq] at mismatch ⊢
      exact ⟨_, .numericMismatch numeric mismatch, .error rfl rfl⟩
  | booleanMismatch boolean mismatch =>
      rw [one.kind_eq, two.kind_eq] at mismatch ⊢
      exact ⟨_, .booleanMismatch boolean mismatch, .error rfl rfl⟩
  | unknown nowhere => exact ⟨_, .unknown nowhere, .error rfl rfl⟩

theorem SubscriptRule.matched {array subscript otherArray otherSubscript : Value}
    (rule : SubscriptRule array subscript outcome)
    (one : array.Matches vocabulary first second otherArray)
    (two : subscript.Matches vocabulary first second otherSubscript) :
    ∃ following, SubscriptRule otherArray otherSubscript following ∧
      outcome.Alike (Value.Matches vocabulary first second) following := by
  cases rule with
  | @item items number index item whole found =>
      obtain rfl := matches_number two
      have each := one
      cases one with
      | @array _ others same _ =>
          obtain ⟨bound, rfl⟩ := List.getElem?_eq_some_iff.mp found
          have within : index < others.length := same ▸ bound
          refine ⟨_, .item whole (List.getElem?_eq_getElem within), .ok ?_⟩
          exact (matches_array_iff.mp each).get bound within
  | @outOfBounds items number outside =>
      obtain rfl := matches_number two
      cases one with
      | array same each =>
          rw [same] at outside ⊢
          exact ⟨_, .outOfBounds outside, .error rfl rfl⟩
  | subscriptMismatch mismatch =>
      rw [two.kind_eq] at mismatch ⊢
      cases one with
      | array same each => exact ⟨_, .subscriptMismatch mismatch, .error rfl rfl⟩
  | arrayMismatch mismatch =>
      rw [one.kind_eq] at mismatch ⊢
      exact ⟨_, .arrayMismatch mismatch, .error rfl rfl⟩

theorem forall_matches_numbers {numbers : List Number} {others : List Value}
    (matched : List.Forall₂ (Value.Matches vocabulary first second) (numbers.map .number) others) :
    others = numbers.map .number := by
  induction numbers generalizing others with
  | nil =>
      cases matched
      rfl
  | cons number rest ih =>
      cases matched with
      | cons head tail => rw [matches_number head, ih tail, List.map_cons]

theorem forall_matches_mismatch {numbers : List Number} {rest others : List Value}
    (matched : List.Forall₂ (Value.Matches vocabulary first second)
      (numbers.map .number ++ value :: rest) others) :
    ∃ other later, others = numbers.map .number ++ other :: later ∧
      value.Matches vocabulary first second other := by
  induction numbers generalizing others with
  | nil =>
      cases matched with
      | @cons _ other _ later head tail => exact ⟨other, later, rfl, head⟩
  | cons number numbers ih =>
      cases matched with
      | cons head tail =>
          obtain ⟨other, later, rfl, corresponding⟩ := ih tail
          exact ⟨other, later, by rw [matches_number head]; rfl, corresponding⟩

end

end Bella

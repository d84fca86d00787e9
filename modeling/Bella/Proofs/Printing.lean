import Bella.Proofs.Decimal.Printed
import Bella.Proofs.Exchange.Values

/-! The texts of data. A number or a boolean value is printed as a word, and words in an array are
ended by what comes between items, so a text is taken apart in one way only. Main statement: data with
the same text are equal, apart from the signs of zeros. -/

namespace Bella

inductive Value.IsData : Value → Prop
  | number (value : Number) : IsData (.number value)
  | boolean (value : Bool) : IsData (.boolean value)
  | array {items : List Value} (each : ∀ item ∈ items, IsData item) : IsData (.array items)

/-- Equality apart from the signs of zeros. There is only one number that is none. -/
inductive Value.Same : Value → Value → Prop
  | number {one other : Number} (same : one = other ∨ one.isZero = true ∧ other.isZero = true) :
      Same (.number one) (.number other)
  | boolean (value : Bool) : Same (.boolean value) (.boolean value)
  | array {items others : List Value} (same : items.length = others.length)
      (each : ∀ item other, (item, other) ∈ items.zip others → Same item other) :
      Same (.array items) (.array others)

def CodePoint.isWord : CodePoint → Bool
  | .character value => Datum.isWordCharacter value
  | .surrogate _ => false

namespace Text

def IsWord (text : Text) : Prop :=
  text ≠ [] ∧ ∀ point ∈ text, point.isWord = true

def EndsWord (rest : Text) : Prop :=
  ∀ point ∈ rest.head?, point.isWord = false

def closing (rest : Text) : List Text → Text
  | [] => "]" ++ rest
  | part :: parts => ", " ++ (part ++ closing rest parts)

section

variable {one other rest following : Text}

theorem takeWhile_word (word : ∀ point ∈ one, point.isWord = true) (ends : rest.EndsWord) :
    (one ++ rest).takeWhile CodePoint.isWord = one := by
  rw [List.takeWhile_append_of_pos word]
  cases rest with
  | nil => simp
  | cons first others =>
      rw [List.takeWhile_cons, ends first rfl]
      simp

theorem word_unique (first : ∀ point ∈ one, point.isWord = true)
    (second : ∀ point ∈ other, point.isWord = true) (ends : rest.EndsWord)
    (stops : following.EndsWord) (same : one ++ rest = other ++ following) :
    one = other ∧ rest = following := by
  have words := congrArg (List.takeWhile CodePoint.isWord) same
  rw [takeWhile_word first ends, takeWhile_word second stops] at words
  subst words
  exact ⟨rfl, List.append_cancel_left same⟩

theorem closing_endsWord (rest : Text) (parts : List Text) : (closing rest parts).EndsWord := by
  intro point found
  cases parts <;> obtain rfl := Option.some.inj found <;> decide

theorem separated_closing (rest part : Text) (parts : List Text) :
    Text.separated ", " (part :: parts) ++ ("]" ++ rest) = part ++ closing rest parts := by
  induction parts generalizing part with
  | nil => rw [Text.separated, List.intercalate_singleton, closing]
  | cons next parts ih =>
      rw [closing, ← ih, Text.separated, List.intercalate_cons_cons, Text.separated]
      simp only [List.append_assoc]

end

end Text

namespace Number

theorem withoutSignOfZero_eq_iff {one other : Number} :
    one.withoutSignOfZero = other.withoutSignOfZero ↔
      one = other ∨ one.isZero = true ∧ other.isZero = true := by
  rw [withoutSignOfZero, withoutSignOfZero]
  by_cases first : one.isZero = true
  · by_cases second : other.isZero = true
    · simp [first, second]
    · have differ : zero false ≠ other := by
        rintro rfl
        exact second rfl
      have unequal : one ≠ other := by
        rintro rfl
        exact second first
      simp [first, second, differ, unequal]
  · by_cases second : other.isZero = true
    · have differ : one ≠ zero false := by
        rintro rfl
        exact first rfl
      have unequal : one ≠ other := by
        rintro rfl
        exact first second
      simp [first, second, differ, unequal]
    · simp [first, second]

theorem text_of_isZero {number : Number} (least : number.isZero = true) :
    number.text = String.ofList (integerText 0) := by
  have known : number.rational? = some ((0 : ℤ) : ℚ) := by
    rw [rational?_eq_zero.mpr least, Int.cast_zero]
  exact number.isPrinted.whole 0 known (by decide)

theorem text_eq_iff {one other : Number} :
    one.text = other.text ↔ one = other ∨ one.isZero = true ∧ other.isZero = true := by
  constructor
  · intro same
    have read := one.read?_text
    rw [same, other.read?_text] at read
    exact withoutSignOfZero_eq_iff.mp (Option.some.inj read).symm
  · rintro (rfl | ⟨first, second⟩)
    · rfl
    · rw [text_of_isZero first, text_of_isZero second]

theorem text_ne_of_read? {word : String} (unread : read? word = none) (number : Number) :
    number.text ≠ word := by
  rintro rfl
  exact absurd (unread.symm.trans number.read?_text) nofun

theorem text_isWord (number : Number) : (Text.ofString number.text).IsWord :=
  ⟨fun empty => text_ne_of_read? (by decide) number (Text.ofString_injective number.text "" empty),
    List.forall_mem_map.mpr number.text_isWordCharacter⟩

end Number

namespace Value

theorem boolean_text_isWord (truth : Bool) : (Value.boolean truth).text.IsWord := by
  cases truth <;> exact ⟨by decide, by decide⟩

theorem number_text_ne_boolean (number : Number) (truth : Bool) :
    (Value.number number).text ≠ (Value.boolean truth).text := by
  intro same
  cases truth with
  | false =>
      exact Number.text_ne_of_read? (by decide) number
        (Text.ofString_injective number.text "false" same)
  | true =>
      exact Number.text_ne_of_read? (by decide) number
        (Text.ofString_injective number.text "true" same)

end Value

section

variable {one other : Value} {items others : List Value} {rest following : Text}

theorem same_array_iff :
    (Value.array items).Same (.array others) ↔ List.Forall₂ Value.Same items others := by
  rw [List.forall₂_iff_zip]
  constructor
  · intro same
    cases same with
    | array length each => exact ⟨length, fun member => each _ _ member⟩
  · rintro ⟨length, each⟩
    exact .array length fun item other member => each member

theorem Value.IsData.text_cases (data : one.IsData) :
    one.text.IsWord ∨ ∃ items, one = .array items := by
  cases data with
  | number value => exact .inl value.text_isWord
  | boolean value => exact .inl (Value.boolean_text_isWord value)
  | array each => exact .inr ⟨_, rfl⟩

theorem array_text (items : List Value) :
    (Value.array items).text ++ rest =
      "[" ++ (Text.separated ", " (items.map Value.text) ++ ("]" ++ rest)) := by
  rw [Value.text, Value.texts_eq_map]
  simp only [List.append_assoc]

theorem Text.IsWord.ne_cons {word : Text} (letters : word.IsWord) {point : CodePoint}
    (other : point.isWord = false) : word ++ rest ≠ point :: following := by
  obtain ⟨filled, each⟩ := letters
  obtain ⟨first, others, rfl⟩ := List.exists_cons_of_ne_nil filled
  intro same
  obtain rfl := (List.cons.inj same).1
  exact Bool.false_ne_true (other.symm.trans (each first List.mem_cons_self))

theorem Text.IsWord.ne_array {word : Text} (letters : word.IsWord) :
    word ++ rest ≠ (Value.array items).text ++ following := by
  rw [array_text]
  exact letters.ne_cons (by decide)

theorem Value.IsData.first_ne (data : one.IsData) : one.text ++ rest ≠ "]" ++ following := by
  rcases data.text_cases with word | ⟨items, rfl⟩
  · exact word.ne_cons (by decide)
  · rw [array_text]
    intro equal
    exact absurd (List.cons.inj equal).1 (by decide)

/-- A text is taken apart in one way: the value that stands first, and what follows. -/
def Value.Settled (one : Value) : Prop :=
  ∀ other rest following, other.IsData → Text.EndsWord rest → Text.EndsWord following →
    one.text ++ rest = other.text ++ following → one.Same other ∧ rest = following

theorem first_unique {item : Value} {parts texts : List Text} (settled : item.Settled)
    (data : other.IsData)
    (same : item.text ++ Text.closing rest parts = other.text ++ Text.closing following texts) :
    item.Same other ∧ Text.closing rest parts = Text.closing following texts :=
  settled other _ _ data (Text.closing_endsWord _ _) (Text.closing_endsWord _ _) same

theorem closing_unique (each : ∀ item ∈ items, item.Settled) (data : ∀ item ∈ others, item.IsData)
    (same : Text.closing rest (items.map Value.text) = Text.closing following (others.map Value.text)) :
    List.Forall₂ Value.Same items others ∧ rest = following := by
  induction items generalizing others with
  | nil =>
      cases others with
      | nil => exact ⟨.nil, List.append_cancel_left same⟩
      | cons other others => exact absurd (List.cons.inj same).1 (by decide)
  | cons item items ih =>
      cases others with
      | nil => exact absurd (List.cons.inj same).1 (by decide)
      | cons other others =>
          obtain ⟨here, later⟩ := List.forall_mem_cons.mp each
          obtain ⟨first, second⟩ := List.forall_mem_cons.mp data
          obtain ⟨equal, closed⟩ := first_unique here first (List.append_cancel_left same)
          obtain ⟨pairs, end_⟩ := ih later second closed
          exact ⟨.cons equal pairs, end_⟩

theorem settled_array (each : ∀ item ∈ items, item.IsData) (settled : ∀ item ∈ items, item.Settled) :
    (Value.array items).Settled := by
  intro other rest following data _ _ same
  rcases data.text_cases with word | ⟨others, rfl⟩
  · exact absurd same.symm word.ne_array
  cases data with
  | array data =>
      rw [array_text, array_text] at same
      have inner := List.append_cancel_left same
      rw [same_array_iff]
      cases items with
      | nil =>
          cases others with
          | nil => exact ⟨.nil, List.append_cancel_left inner⟩
          | cons other others =>
              rw [List.map_cons, Text.separated_closing] at inner
              exact absurd inner.symm (data other List.mem_cons_self).first_ne
      | cons item items =>
          cases others with
          | nil =>
              rw [List.map_cons, Text.separated_closing] at inner
              exact absurd inner (each item List.mem_cons_self).first_ne
          | cons other others =>
              rw [List.map_cons, List.map_cons, Text.separated_closing, Text.separated_closing] at inner
              obtain ⟨here, later⟩ := List.forall_mem_cons.mp settled
              obtain ⟨first, second⟩ := List.forall_mem_cons.mp data
              obtain ⟨equal, closed⟩ := first_unique here first inner
              obtain ⟨pairs, end_⟩ := closing_unique later second closed
              exact ⟨.cons equal pairs, end_⟩

theorem texts_of_word (word : one.text.IsWord) (data : other.IsData) (ends : rest.EndsWord)
    (stops : following.EndsWord) (same : one.text ++ rest = other.text ++ following) :
    (∀ items, other ≠ .array items) ∧ one.text = other.text ∧ rest = following := by
  have plain : ∀ items, other ≠ .array items := by
    rintro items rfl
    exact word.ne_array same
  rcases data.text_cases with letters | ⟨items, rfl⟩
  · exact ⟨plain, Text.word_unique word.2 letters.2 ends stops same⟩
  · exact absurd rfl (plain items)

theorem settled_number (number : Number) : (Value.number number).Settled := by
  intro other rest following data ends stops same
  obtain ⟨plain, texts, end_⟩ := @texts_of_word (.number number) other rest following
    number.text_isWord data ends stops same
  refine ⟨?_, end_⟩
  cases data with
  | number next => exact .number (Number.text_eq_iff.mp (Text.ofString_injective _ _ texts))
  | boolean truth => exact absurd texts (Value.number_text_ne_boolean number truth)
  | array each => exact absurd rfl (plain _)

theorem settled_boolean (truth : Bool) : (Value.boolean truth).Settled := by
  intro other rest following data ends stops same
  obtain ⟨plain, texts, end_⟩ :=
    texts_of_word (Value.boolean_text_isWord truth) data ends stops same
  refine ⟨?_, end_⟩
  cases data with
  | number next => exact absurd texts.symm (Value.number_text_ne_boolean next truth)
  | boolean next =>
      have equal : truth = next := by
        revert texts
        cases truth <;> cases next <;> decide
      exact equal ▸ .boolean truth
  | array each => exact absurd rfl (plain _)

theorem Value.IsData.settled (data : one.IsData) : one.Settled := by
  induction data with
  | number number => exact settled_number number
  | boolean truth => exact settled_boolean truth
  | array each ih => exact settled_array each ih

theorem Value.Same.text_eq (same : one.Same other) : one.text = other.text := by
  induction same with
  | number equal => exact congrArg Text.ofString (Number.text_eq_iff.mpr equal)
  | boolean => rfl
  | @array items others length _ ih =>
      have texts : items.map Value.text = others.map Value.text := by
        have each : List.Forall₂ (fun item other => Value.text item = Value.text other) items
            others :=
          List.forall₂_iff_zip.mpr ⟨length, fun member => ih _ _ member⟩
        rwa [← List.forall₂_eq_eq_eq, List.forall₂_map_left_iff, List.forall₂_map_right_iff]
      rw [Value.text, Value.text, Value.texts_eq_map, Value.texts_eq_map, texts]

end

/-- Data have the same text just if they are equal apart from the signs of zeros. A number is read back
from its text, which shows all digits of a whole number that is not large and else the fewest that do. -/
theorem text_determines_value :
    (∀ one other : Value, one.IsData → other.IsData → (one.text = other.text ↔ one.Same other)) ∧
      ∀ number : Number, Number.read? number.text = some number.withoutSignOfZero ∧
        number.IsPrinted := by
  refine ⟨fun one other first second => ⟨fun same => ?_, Value.Same.text_eq⟩,
    fun number => ⟨number.read?_text, number.isPrinted⟩⟩
  have none : Text.EndsWord [] := nofun
  exact (first.settled other [] [] second none none (congrArg (· ++ []) same)).1

theorem text_determines_value_nested :
    Value.text (.array [.number (.zero true), .array [.boolean true]]) =
        Value.text (.array [.number (.zero false), .array [.boolean true]]) ∧
      Number.read? (Number.text (.zero true)) = some (.zero false) := by
  have data (sign : Bool) : (Value.array [.number (.zero sign), .array [.boolean true]]).IsData := by
    refine .array (List.forall_mem_cons.mpr ⟨.number _, List.forall_mem_singleton.mpr ?_⟩)
    exact .array (List.forall_mem_singleton.mpr (.boolean true))
  have inner := same_array_iff.mpr (.cons (.boolean true) .nil)
  have zeros : (Value.number (.zero true)).Same (.number (.zero false)) := .number (.inr ⟨rfl, rfl⟩)
  have same := same_array_iff.mpr (.cons zeros (.cons inner .nil))
  obtain ⟨texts, numbers⟩ := text_determines_value
  exact ⟨(texts _ _ (data true) (data false)).mpr same, (numbers _).1⟩

end Bella

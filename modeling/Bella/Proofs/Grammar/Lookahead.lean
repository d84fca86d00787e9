import Bella.Proofs.Grammar.Spelling

/-! How far a scan looks ahead. What it finds in a text is found as well when the text after it is
exchanged for one that starts with a blank, since no terminal has a blank in it. -/

namespace Bella.Source

def Halted (text : List Char) : Prop :=
  ∀ character ∈ text.head?, isBlank character = true

theorem halted_nil : Halted [] :=
  fun _ found => nomatch found

theorem halted_cons {blank : Char} (is : isBlank blank = true) (rest : List Char) :
    Halted (blank :: rest) := by
  intro character found
  obtain rfl := Option.some.inj found
  exact is

section

variable {character : Char} {kept after other lexeme : List Char}

theorem blank_cases (blank : isBlank character = true) :
    character = ' ' ∨ character = '\t' ∨ character = '\n' ∨ character = '\r' ∨
      character = Char.ofNat 12 := by
  simp only [isBlank, Bool.or_eq_true, beq_iff_eq, or_assoc] at blank
  exact blank

theorem takeWhile_stable {kind : Char → Bool}
    (within : ((kept ++ after).takeWhile kind).length ≤ kept.length)
    (stops : ∀ character ∈ other.head?, kind character = false) :
    (kept ++ other).takeWhile kind = (kept ++ after).takeWhile kind := by
  induction kept with
  | nil =>
      have none : after.takeWhile kind = [] := List.eq_nil_of_length_eq_zero (Nat.le_zero.mp within)
      rw [List.nil_append, List.nil_append, none]
      cases other with
      | nil => rfl
      | cons first rest => rw [List.takeWhile_cons, stops first rfl]; rfl
  | cons first kept ih =>
      simp only [List.cons_append, List.takeWhile_cons] at within ⊢
      split
      · rename_i holds
        rw [if_pos holds] at within
        rw [ih (Nat.le_of_succ_le_succ within)]
      · rfl

theorem prefix_of_filled (initial : lexeme <+: kept ++ other)
    (filled : ∀ character ∈ lexeme, isBlank character = false) (halted : Halted other) :
    lexeme <+: kept := by
  induction kept generalizing lexeme with
  | nil =>
      cases lexeme with
      | nil => exact List.nil_prefix
      | cons first others =>
          obtain ⟨rest, rfl⟩ := initial
          have blank := halted first rfl
          rw [filled first (List.mem_cons_self ..)] at blank
          cases blank
  | cons first kept ih =>
      cases lexeme with
      | nil => exact List.nil_prefix
      | cons head others =>
          obtain ⟨rfl, later⟩ := List.cons_prefix_cons.mp initial
          have inside : others <+: kept :=
            ih later fun character found => filled character (List.mem_cons_of_mem _ found)
          exact List.cons_prefix_cons.mpr ⟨rfl, inside⟩

theorem isBlank_of_isDigit (digit : Text.isDigit character = true) :
    isBlank character = false := by
  rw [Bool.eq_false_iff]
  intro blank
  rcases blank_cases blank with rfl | rfl | rfl | rfl | rfl <;> exact absurd digit (by decide)

theorem isBlank_of_isNameCharacter (named : isNameCharacter character = true) :
    isBlank character = false := by
  rw [Bool.eq_false_iff]
  intro blank
  rcases blank_cases blank with rfl | rfl | rfl | rfl | rfl <;> exact absurd named (by decide)

theorem filled_of_all (all : (lexeme.all fun character => !isBlank character) = true) :
    ∀ character ∈ lexeme, isBlank character = false := by
  intro character found
  simpa using List.all_eq_true.mp all character found

theorem Numeral.filled {numeral : List Char} (numerical : Numeral numeral) :
    ∀ character ∈ numeral, isBlank character = false := by
  have digits {part : List Char} (digital : Digits part) :
      ∀ character ∈ part, isBlank character = false :=
    fun character found => isBlank_of_isDigit (digital.2 character found)
  obtain ⟨whole, fraction, exponent, rfl, digital, fractional, exponential⟩ := numerical
  simp only [List.forall_mem_append]
  refine ⟨digits digital, ?_, ?_⟩
  · rcases fractional with rfl | ⟨part, rfl, digital⟩
    · exact List.forall_mem_nil _
    · exact List.forall_mem_cons.mpr ⟨by decide, digits digital⟩
  · rcases exponential with rfl | ⟨mark, sign, part, rfl, marked, signs, digital⟩
    · exact List.forall_mem_nil _
    · simp only [List.forall_mem_cons, List.forall_mem_append]
      refine ⟨?_, ?_, digits digital⟩
      · rcases marked with rfl | rfl <;> decide
      · rcases signs with rfl | rfl | rfl <;> exact filled_of_all rfl

theorem Terminal.Matches.filled {terminal : Terminal} (matched : terminal.Matches lexeme) :
    ∀ character ∈ lexeme, isBlank character = false := by
  have listed {spellings : List (List Char)} (found : lexeme ∈ spellings)
      (all : (spellings.all fun lexeme => lexeme.all fun character => !isBlank character) = true) :
      ∀ character ∈ lexeme, isBlank character = false :=
    filled_of_all (List.all_eq_true.mp all lexeme found)
  cases terminal
  case name =>
    obtain ⟨first, others, rfl, start, named⟩ := matched
    refine List.forall_mem_cons.mpr ⟨?_, fun character found =>
      isBlank_of_isNameCharacter (named character found)⟩
    refine isBlank_of_isNameCharacter ?_
    simp only [isNameStart, isNameCharacter, Char.isAlphanum, Bool.or_eq_true] at start ⊢
    exact start.imp_left .inl
  case number => exact Numeral.filled matched
  case relation | product | sum | sign =>
    exact listed matched rfl
  case conjunction | disjunction | power =>
    rw [show lexeme = _ from matched]
    exact filled_of_all rfl
  all_goals
    obtain rfl := Option.some.inj matched
    exact filled_of_all rfl

theorem numeralExtent_stable (digit : Text.isDigit character = true)
    (within : numeralExtent (kept ++ after) ≤ kept.length) (halted : Halted other) :
    numeralExtent (kept ++ other) = numeralExtent (kept ++ after) := by
  apply Nat.le_antisymm
  · obtain ⟨numerical, length⟩ := take_numeralExtent digit (kept ++ other)
    have filled : ∀ character ∈ (kept ++ other).take (numeralExtent (kept ++ other)),
        isBlank character = false :=
      fun character found => numerical.filled character (List.mem_cons_of_mem _ found)
    obtain ⟨more, same⟩ := prefix_of_filled (List.take_prefix _ _) filled halted
    have bound := (numeral_le numerical (more ++ after)).2
    rw [← List.append_assoc, same, List.length_take_of_le length] at bound
    exact bound
  · obtain ⟨numerical, length⟩ := take_numeralExtent digit (kept ++ after)
    rw [List.take_append_of_le_length within] at numerical
    have bound := (numeral_le numerical (kept.drop (numeralExtent (kept ++ after)) ++ other)).2
    rw [← List.append_assoc, List.take_append_drop, List.length_take_of_le within] at bound
    exact bound

theorem scanWord_stable {keyword? : List Char → Option Terminal}
    (within : (scanWord keyword? character (kept ++ after)).2 ≤ kept.length)
    (halted : Halted other) :
    scanWord keyword? character (kept ++ other) = scanWord keyword? character (kept ++ after) := by
  have stops : ∀ character ∈ other.head?, isNameCharacter character = false := by
    intro character found
    rw [Bool.eq_false_iff]
    intro named
    have blank := halted character found
    rw [isBlank_of_isNameCharacter named] at blank
    cases blank
  simp only [scanWord, takeWhile_stable within stops]

theorem scanPair_stable {second : Char} {pair : Terminal} {single : Option Terminal}
    (within : ∀ found ∈ scanPair second pair single (kept ++ after), found.2 ≤ kept.length)
    (halted : Halted other) (filled : isBlank second = false) :
    scanPair second pair single (kept ++ other) = scanPair second pair single (kept ++ after) := by
  cases kept with
  | cons first kept => rfl
  | nil =>
      have alone : other.head? ≠ some second := by
        intro next
        have blank := halted second next
        rw [filled] at blank
        cases blank
      simp only [List.nil_append, scanPair] at within ⊢
      rw [if_neg alone]
      split
      · rename_i next
        rw [if_pos next] at within
        exact absurd (within _ rfl) (Nat.not_succ_le_zero 0)
      · rfl

theorem scanAny_stable
    (within : ∀ found ∈ scanAny character (kept ++ after), found.2 ≤ kept.length)
    (halted : Halted other) :
    scanAny character (kept ++ other) = scanAny character (kept ++ after) := by
  unfold scanAny at within ⊢
  split
  · rename_i start
    rw [if_pos start] at within
    rw [scanWord_stable (within _ rfl) halted]
  split
  · rename_i word digit
    rw [if_neg word, if_pos digit] at within
    rw [numeralExtent_stable digit (within _ rfl) halted]
  rename_i word digit
  rw [if_neg word, if_neg digit] at within
  split <;> first
    | exact scanPair_stable within halted (by decide)
    | rfl

/-- What is found before a blank does not depend on what follows the blank. -/
theorem Place.scan_stable {place : Place}
    (within : ∀ found ∈ place.scan character (kept ++ after), found.2 ≤ kept.length)
    (halted : Halted other) :
    place.scan character (kept ++ other) = place.scan character (kept ++ after) := by
  cases place with
  | statement | name =>
      simp only [Place.scan] at within ⊢
      split
      · rename_i start
        rw [if_pos start] at within
        rw [scanWord_stable (within _ rfl) halted]
      · rename_i otherwise
        rw [if_neg otherwise] at within
        exact scanAny_stable within halted
  | equal =>
      simp only [Place.scan] at within ⊢
      split
      · rfl
      · rename_i otherwise
        rw [if_neg otherwise] at within
        exact scanAny_stable within halted
  | operand =>
      simp only [Place.scan] at within ⊢
      split
      · rename_i start
        rw [if_pos start] at within
        rw [scanWord_stable (within _ rfl) halted]
      · rename_i word
        rw [if_neg word] at within
        split
        · rfl
        · rename_i otherwise
          rw [if_neg otherwise] at within
          exact scanAny_stable within halted
  | other => exact scanAny_stable within halted

theorem Place.scan_of_spells {place : Place} {terminal : Terminal} {others rest : List Char}
    (admitted : terminal ∈ place.admits)
    (spells : place.Spells terminal (character :: others)) (halted : Halted rest) :
    place.scan character (others ++ rest) = some (terminal, others.length) := by
  obtain ⟨found, extent, scanned, covers⟩ := Place.scan_covers admitted spells.spelled rest
  obtain ⟨matched, within⟩ := Place.scan_matches scanned
  have initial : character :: (others ++ rest).take extent <+: character :: others := by
    refine prefix_of_filled ?_ matched.filled halted
    exact List.cons_prefix_cons.mpr ⟨rfl, List.take_prefix _ _⟩
  have length : extent = others.length := by
    have short := initial.length_le
    rw [List.length_cons, List.length_cons, List.length_take_of_le within] at short
    exact Nat.le_antisymm (Nat.le_of_succ_le_succ short) covers.reaches
  subst length
  rw [List.take_left] at matched
  rw [scanned]
  rcases covers.prefers with rfl | ⟨rfl, keyword⟩ | ⟨-, -, shorter⟩ | ⟨rfl, rfl⟩
  · rfl
  · exact absurd matched (spells.named rfl found keyword)
  · exact absurd shorter (Nat.lt_irrefl _)
  · have single := spells.spelled
    rw [show character :: others = ['*', '*'] from matched] at single
    simp [Terminal.Matches] at single

end

end Bella.Source

import Bella.Proofs.Grammar.Spelling

/-! A construction and the scan at its place. Whether a terminal can be added does not depend on its
lexeme, and the scan finds the longest of those that can be, with keywords before names. -/

namespace Bella.Source

open Construction

def Construction.Accepts (construction : Construction) (terminal : Terminal) : Prop :=
  ∃ lexeme, (construction.add terminal lexeme).isSome

/-- The longest initial part of a text that is an allowed terminal. A word that is an allowed keyword
is no name. -/
structure Longest (allowed : Terminal → Prop) (token : Token) (text : List Char) : Prop where
  possible : allowed token.terminal
  spelled : token.terminal.Matches token.lexeme
  initial : token.lexeme <+: text
  longest : ∀ terminal lexeme, allowed terminal → terminal.Matches lexeme → lexeme <+: text →
    lexeme.length ≤ token.lexeme.length
  keyword : token.terminal = .name → ∀ terminal, allowed terminal →
    terminal.Matches token.lexeme → terminal = .name

section

variable {construction : Construction} {terminal : Terminal} {lexeme : List Char}

theorem addStatement_isSome (other : List Char) :
    (construction.addStatement terminal lexeme).isSome =
      (construction.addStatement terminal other).isSome := by
  cases terminal <;> rfl

theorem addOperand_isSome {purpose : Purpose} {frames : List Frame} (other : List Char) :
    (addOperand purpose frames terminal lexeme).isSome =
      (addOperand purpose frames terminal other).isSome := by
  cases terminal <;> rfl

theorem addBinary_isSome {purpose : Purpose} {frames : List Frame} {value : Node}
    {strength : Strength} {operator : String} (other : String) :
    (addBinary purpose frames value strength operator).isSome =
      (addBinary purpose frames value strength other).isSome := by
  simp only [addBinary]
  split <;> rfl

theorem addOperator_isSome {purpose : Purpose} {frames : List Frame} {value : Node}
    {callee : Option String} (other : List Char) :
    (addOperator purpose frames value callee terminal lexeme).isSome =
      (addOperator purpose frames value callee terminal other).isSome := by
  simp only [addOperator]
  split
  · exact addBinary_isSome _
  · rfl

theorem add_isSome (other : List Char) :
    (construction.add terminal lexeme).isSome = (construction.add terminal other).isSome := by
  simp only [add]
  split
  · exact addStatement_isSome other
  case h_10 =>
    simp only [Option.isSome_map]
    exact addOperand_isSome other
  case h_11 =>
    split
    · rfl
    · simp only [Option.isSome_map]
      exact addOperator_isSome other
  all_goals first
    | rfl
    | split <;> rfl

theorem accepts_iff : construction.Accepts terminal ↔
    (construction.add terminal lexeme).isSome := by
  constructor
  · rintro ⟨other, accepted⟩
    rw [add_isSome other]
    exact accepted
  · exact fun accepted => ⟨lexeme, accepted⟩

theorem addStatement_admits (accepted : (construction.addStatement terminal lexeme).isSome) :
    terminal ∈ Place.statement.admits := by
  cases terminal <;> first
    | decide
    | cases accepted

theorem addOperand_admits {purpose : Purpose} {frames : List Frame}
    (accepted : (addOperand purpose frames terminal lexeme).isSome) :
    terminal ∈ Place.operand.admits := by
  cases terminal <;> first
    | decide
    | cases accepted

theorem addOperator_admits {purpose : Purpose} {frames : List Frame} {value : Node}
    {callee : Option String}
    (accepted : (addOperator purpose frames value callee terminal lexeme).isSome) :
    terminal ∈ Place.other.admits := by
  cases terminal <;> first
    | decide
    | cases accepted

theorem eq_of_isSome {α : Type} {value : α} {required : Terminal}
    (accepted : (if terminal = required then some value else none).isSome) :
    terminal = required := by
  split at accepted
  · assumption
  · cases accepted

theorem Construction.Accepts.admitted (accepted : construction.Accepts terminal) :
    terminal ∈ construction.stage.place.admits := by
  obtain ⟨lexeme, accepted⟩ := accepted
  cases stage : construction.stage with
  | statement =>
      simp only [add, stage] at accepted
      exact addStatement_admits accepted
  | operand =>
      simp only [add, stage, Option.isSome_map] at accepted
      exact addOperand_admits accepted
  | operator =>
      simp only [add, stage] at accepted
      split at accepted
      · rename_i ends
        rcases ends with rfl | rfl <;> simp [Stage.place, Place.admits]
      · rw [Option.isSome_map] at accepted
        exact addOperator_admits accepted
  | parameter =>
      simp only [add, stage] at accepted
      split at accepted
      · rename_i next
        rw [next]
        simp [Stage.place, Place.admits]
      · split at accepted
        · rename_i closed
          rw [closed.1]
          simp [Stage.place, Place.admits]
        · cases accepted
  | parameterEnd =>
      simp only [add, stage] at accepted
      split at accepted
      · rename_i next
        rw [next]
        simp [Stage.place, Place.admits]
      · rw [eq_of_isSome accepted]
        simp [Stage.place, Place.admits]
  | _ =>
      simp only [add, stage] at accepted
      rw [eq_of_isSome accepted]
      simp [Stage.place, Place.admits]

theorem accepts_words (word : terminal ∈ .name :: construction.stage.place.keywords ∧
    Terminal.name ∈ construction.stage.place.admits) : construction.Accepts terminal := by
  refine ⟨[], ?_⟩
  obtain ⟨loops, statements, stage⟩ := construction
  cases stage with
  | statement =>
      simp only [Stage.place, Place.keywords, List.mem_cons, List.not_mem_nil, or_false] at word
      rcases word.1 with rfl | rfl | rfl | rfl | rfl <;> rfl
  | operand =>
      simp only [Stage.place, Place.keywords, List.mem_cons, List.not_mem_nil, or_false] at word
      rcases word.1 with rfl | rfl | rfl <;> rfl
  | letName | funName | parameter =>
      obtain rfl : terminal = .name := List.mem_singleton.mp word.1
      rfl
  | _ => exact absurd word.2 (by simp [Stage.place, Place.admits])

theorem accepts_power (product : construction.Accepts .product) : construction.Accepts .power := by
  obtain ⟨lexeme, product⟩ := product
  refine ⟨lexeme, ?_⟩
  cases stage : construction.stage with
  | operator purpose frames value callee =>
      simp [add, stage, addOperator, Terminal.strength?, addBinary]
  | _ => simp [add, stage, addStatement, addOperand] at product

variable {character : Char} {rest : List Char} {token : Token}

theorem not_longest_nil {allowed : Terminal → Prop} : ¬Longest allowed token [] :=
  fun found => found.spelled.ne_nil (List.prefix_nil.mp found.initial)

theorem covers_of_prefix (accepted : construction.Accepts terminal)
    (spelled : terminal.Matches lexeme) (initial : lexeme <+: character :: rest) :
    ∃ found extent, construction.stage.place.scan character rest = some (found, extent) ∧
      construction.stage.place.Covers terminal (lexeme.length - 1) found extent := by
  obtain ⟨first, others, rfl⟩ := List.exists_cons_of_ne_nil spelled.ne_nil
  obtain ⟨rfl, more, rfl⟩ := List.cons_prefix_cons.mp initial
  exact Place.scan_covers accepted.admitted spelled more

/-- A name that is scanned where a keyword could stand is no such keyword. -/
theorem scan_longest {extent : Nat}
    (scanned : construction.stage.place.scan character rest = some (terminal, extent))
    (accepted : construction.Accepts terminal) :
    Longest construction.Accepts ⟨terminal, character :: rest.take extent⟩ (character :: rest) := by
  obtain ⟨spelled, within⟩ := Place.scan_matches scanned
  have length : (character :: rest.take extent).length - 1 = extent := by
    rw [List.length_cons, Nat.add_sub_cancel, List.length_take_of_le within]
  have initial : character :: rest.take extent <+: character :: rest :=
    List.cons_prefix_cons.mpr ⟨rfl, List.take_prefix _ _⟩
  refine ⟨accepted, spelled, initial, ?_, ?_⟩
  · intro other lexeme possible spells begins
    obtain ⟨found, reached, same, covers⟩ := covers_of_prefix possible spells begins
    rw [scanned] at same
    obtain ⟨rfl, rfl⟩ := Prod.mk.inj (Option.some.inj same)
    have bound := covers.reaches
    simp only [List.length_cons] at length ⊢
    omega
  · intro name other possible spells
    obtain ⟨found, reached, same, covers⟩ := covers_of_prefix possible spells initial
    rw [scanned] at same
    obtain ⟨rfl, rfl⟩ := Prod.mk.inj (Option.some.inj same)
    rw [length] at covers
    rcases covers.prefers with rfl | ⟨rfl, -⟩ | ⟨-, -, shorter⟩ | ⟨rfl, rfl⟩
    · exact name
    · rfl
    · exact absurd shorter (Nat.lt_irrefl _)
    · exact nomatch name

theorem longest_scan (found : Longest construction.Accepts token (character :: rest)) :
    ∃ extent, construction.stage.place.scan character rest = some (token.terminal, extent) ∧
      token.lexeme = character :: rest.take extent ∧ extent ≤ rest.length := by
  obtain ⟨other, extent, scanned, covers⟩ :=
    covers_of_prefix found.possible found.spelled found.initial
  obtain ⟨spelled, within⟩ := Place.scan_matches scanned
  have initial : character :: rest.take extent <+: character :: rest :=
    List.cons_prefix_cons.mpr ⟨rfl, List.take_prefix _ _⟩
  have named : Terminal.name ∈ construction.stage.place.admits →
      other ∈ .name :: construction.stage.place.keywords → construction.Accepts other :=
    fun admitted word => accepts_words ⟨word, admitted⟩
  have names (keyword : Terminal) (listed : keyword ∈ construction.stage.place.keywords) :
      Terminal.name ∈ construction.stage.place.admits := by
    revert listed
    generalize construction.stage.place = place
    cases place <;> simp [Place.keywords, Place.admits]
  have accepted : construction.Accepts other := by
    rcases covers.prefers with rfl | ⟨name, word⟩ | ⟨word, known, -⟩ | ⟨product, rfl⟩
    · exact found.possible
    · exact named (names _ word) (List.mem_cons_of_mem _ word)
    · exact named (names _ word) known
    · exact accepts_power (product ▸ found.possible)
  have bound := found.longest other _ accepted spelled initial
  have filled : 0 < token.lexeme.length := List.length_pos_iff.mpr found.spelled.ne_nil
  have reaches := covers.reaches
  rw [List.length_cons, List.length_take_of_le within] at bound
  have length : token.lexeme.length = extent + 1 := by omega
  have lexeme : token.lexeme = character :: rest.take extent := by
    rw [List.prefix_iff_eq_take.mp found.initial, length, List.take_succ_cons]
  refine ⟨extent, ?_, lexeme, within⟩
  rw [scanned]
  rcases covers.prefers with rfl | ⟨name, word⟩ | ⟨-, -, shorter⟩ | ⟨product, rfl⟩
  · rfl
  · rw [← lexeme] at spelled
    rw [found.keyword name other accepted spelled, name]
  · omega
  · have pair : character :: rest.take extent = ['*', '*'] := spelled
    have single := found.spelled
    rw [product, lexeme, pair] at single
    simp [Terminal.Matches] at single

theorem longest_unique {text : List Char} {first second : Token}
    (found : Longest construction.Accepts first text)
    (other : Longest construction.Accepts second text) : first = second := by
  cases text with
  | nil => exact (not_longest_nil found).elim
  | cons character rest =>
      obtain ⟨extent, scanned, lexeme, -⟩ := longest_scan found
      obtain ⟨length, rescanned, same, -⟩ := longest_scan other
      rw [scanned] at rescanned
      obtain ⟨terminal, rfl⟩ := Prod.mk.inj (Option.some.inj rescanned)
      obtain ⟨_, _⟩ := first
      obtain ⟨_, _⟩ := second
      simp_all

end

end Bella.Source

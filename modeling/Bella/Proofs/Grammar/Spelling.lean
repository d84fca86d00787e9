import Bella.Proofs.Grammar.Numeral
import Bella.Proofs.Grammar.Derivation
import Mathlib.Tactic.SplitIfs

/-! How the terminals are spelled, and what a scan finds at a place. What it finds is spelled as the
terminal says; and whatever could stand at the place is no longer than what it finds. -/

namespace Bella.Source

def Terminal.Matches (terminal : Terminal) (lexeme : List Char) : Prop :=
  match terminal with
  | .name => ∃ first others, lexeme = first :: others ∧ isNameStart first = true ∧
      ∀ character ∈ others, isNameCharacter character = true
  | .number => Numeral lexeme
  | .relation => lexeme ∈ [['<', '='], ['>', '='], ['=', '='], ['!', '='], ['<'], ['>']]
  | .conjunction => lexeme = ['&', '&']
  | .disjunction => lexeme = ['|', '|']
  | .power => lexeme = ['*', '*']
  | .product => lexeme ∈ [['*'], ['/'], ['%']]
  | .sum => lexeme ∈ [['+'], ['-']]
  | .sign => lexeme ∈ [['-'], ['!']]
  | other => other.spelling? = some lexeme

theorem Terminal.Matches.wellSpelled {token : Token}
    (matched : token.terminal.Matches token.lexeme) : token.WellSpelled := by
  obtain ⟨terminal, lexeme⟩ := token
  intro spelling found
  cases terminal <;> first
    | exact Option.some.inj (matched.symm.trans found)
    | cases found

theorem Terminal.Matches.ne_nil {terminal : Terminal} {lexeme : List Char}
    (matched : terminal.Matches lexeme) : lexeme ≠ [] := by
  rintro rfl
  cases terminal
  case name => exact matched.elim fun _ ⟨_, same, _⟩ => nomatch same
  case number =>
    obtain ⟨whole, fraction, exponent, same, digits, -⟩ := matched
    exact digits.1 (List.append_eq_nil_iff.mp same.symm).1
  all_goals simp [Terminal.Matches, Terminal.spelling?] at matched

def Place.admits : Place → List Terminal
  | .statement => [.name, .letKeyword, .funKeyword, .printKeyword, .whileKeyword, .rightBrace]
  | .name => [.name, .rightParenthesis]
  | .equal => [.equal]
  | .operand => [.name, .number, .trueKeyword, .falseKeyword, .sign, .leftParenthesis,
      .leftBracket, .rightParenthesis, .rightBracket]
  | .other => [.disjunction, .conjunction, .relation, .sum, .product, .power, .question, .colon,
      .comma, .leftParenthesis, .leftBracket, .rightParenthesis, .rightBracket, .leftBrace,
      .semicolon]

def Place.keywords : Place → List Terminal
  | .statement => [.letKeyword, .funKeyword, .printKeyword, .whileKeyword]
  | .operand => [.trueKeyword, .falseKeyword]
  | _ => []

structure Place.Spells (place : Place) (terminal : Terminal) (lexeme : List Char) : Prop where
  spelled : terminal.Matches lexeme
  named : terminal = .name → ∀ keyword ∈ place.keywords, ¬keyword.Matches lexeme

section

variable {character : Char} {rest lexeme : List Char} {terminal : Terminal} {extent : Nat}

theorem statementKeyword?_spelling {word : List Char}
    (found : statementKeyword? word = some terminal) : terminal.spelling? = some word := by
  unfold statementKeyword? at found
  split_ifs at found with same same same same
  all_goals
    rw [same, ← Option.some.inj found]
    rfl

theorem literalKeyword?_spelling {word : List Char}
    (found : literalKeyword? word = some terminal) : terminal.spelling? = some word := by
  unfold literalKeyword? at found
  split_ifs at found with same same
  all_goals
    rw [same, ← Option.some.inj found]
    rfl

theorem anyKeyword?_spelling {word : List Char} (found : anyKeyword? word = some terminal) :
    terminal.spelling? = some word := by
  rcases Option.or_eq_some_iff.mp found with found | ⟨-, found⟩
  · exact statementKeyword?_spelling found
  · exact literalKeyword?_spelling found

theorem matches_of_spelling (spelled : terminal.spelling? = some lexeme) :
    terminal.Matches lexeme := by
  cases terminal <;> first
    | exact spelled
    | cases spelled

theorem scanWord_matches {keyword? : List Char → Option Terminal}
    (spells : ∀ {word terminal}, keyword? word = some terminal →
      terminal.spelling? = some word)
    (start : isNameStart character = true)
    (found : scanWord keyword? character rest = (terminal, extent)) :
    terminal.Matches (character :: rest.take extent) ∧ extent ≤ rest.length := by
  obtain ⟨rfl, rfl⟩ := Prod.mk.inj found
  have part := List.takeWhile_prefix (l := rest) isNameCharacter
  rw [← List.prefix_iff_eq_take.mp part]
  refine ⟨?_, part.length_le⟩
  cases word : keyword? (character :: rest.takeWhile isNameCharacter) with
  | some keyword => exact matches_of_spelling (spells word)
  | none => exact ⟨character, _, rfl, start, List.all_eq_true.mp List.all_takeWhile⟩

theorem scanPair_matches {second : Char} {pair : Terminal} {single : Option Terminal}
    (paired : pair.Matches [character, second])
    (alone : ∀ terminal ∈ single, terminal.Matches [character])
    (found : scanPair second pair single rest = some (terminal, extent)) :
    terminal.Matches (character :: rest.take extent) ∧ extent ≤ rest.length := by
  unfold scanPair at found
  split at found
  · rename_i next
    obtain ⟨rfl, rfl⟩ := Prod.mk.inj (Option.some.inj found)
    obtain ⟨more, rfl⟩ := List.head?_eq_some_iff.mp next
    exact ⟨paired, Nat.succ_le_succ (Nat.zero_le _)⟩
  · obtain ⟨one, is, same⟩ := Option.map_eq_some_iff.mp found
    obtain ⟨rfl, rfl⟩ := Prod.mk.inj same
    exact ⟨alone one is, Nat.zero_le _⟩

theorem scanAny_matches (found : scanAny character rest = some (terminal, extent)) :
    terminal.Matches (character :: rest.take extent) ∧ extent ≤ rest.length := by
  unfold scanAny at found
  split at found
  · rename_i start
    exact scanWord_matches anyKeyword?_spelling start (Option.some.inj found)
  split at found
  · rename_i digit
    obtain ⟨rfl, rfl⟩ := Prod.mk.inj (Option.some.inj found)
    exact take_numeralExtent digit rest
  split at found
  all_goals first
    | exact scanPair_matches (by simp [Terminal.Matches])
        (by simp [Terminal.Matches, Terminal.spelling?]) found
    | obtain ⟨rfl, rfl⟩ := Prod.mk.inj (Option.some.inj found)
      exact ⟨by simp [Terminal.Matches, Terminal.spelling?], Nat.zero_le _⟩
    | skip
  split at found
  · rename_i same
    obtain ⟨rfl, rfl⟩ := Prod.mk.inj (Option.some.inj found)
    rw [same]
    exact ⟨rfl, Nat.zero_le _⟩
  split at found
  · rename_i same
    obtain ⟨rfl, rfl⟩ := Prod.mk.inj (Option.some.inj found)
    rw [same]
    exact ⟨rfl, Nat.zero_le _⟩
  · exact nomatch found

theorem Place.scan_matches {place : Place}
    (found : place.scan character rest = some (terminal, extent)) :
    terminal.Matches (character :: rest.take extent) ∧ extent ≤ rest.length := by
  unfold Place.scan at found
  split at found <;> try split at found
  case h_1.isTrue start =>
    exact scanWord_matches statementKeyword?_spelling start (Option.some.inj found)
  case h_2.isTrue start => exact scanWord_matches (fun found => by cases found) start (Option.some.inj found)
  case h_3.isTrue same =>
    obtain ⟨rfl, rfl⟩ := Prod.mk.inj (Option.some.inj found)
    exact ⟨by rw [same]; rfl, Nat.zero_le _⟩
  case h_4.isTrue start =>
    exact scanWord_matches literalKeyword?_spelling start (Option.some.inj found)
  case h_4.isFalse =>
    split at found
    · rename_i same
      obtain ⟨rfl, rfl⟩ := Prod.mk.inj (Option.some.inj found)
      refine ⟨?_, Nat.zero_le _⟩
      rcases same with same | same <;> simp [Terminal.Matches, same]
    · exact scanAny_matches found
  all_goals exact scanAny_matches found

/-- What a scan finds where a terminal could stand. It is the terminal itself, unless a word is one of
the keywords of its place, or goes on after one of them, or a product is the first half of a power. -/
structure Place.Covers (place : Place) (terminal : Terminal) (length : Nat) (found : Terminal)
    (extent : Nat) : Prop where
  reaches : length ≤ extent
  prefers : found = terminal ∨ (terminal = .name ∧ found ∈ place.keywords) ∨
    (terminal ∈ place.keywords ∧ found ∈ .name :: place.keywords ∧ length < extent) ∨
    (terminal = .product ∧ found = .power)

theorem digitZeros_spread : ∀ start ∈ Text.digitZeros, start = 0x30 ∨ 0x660 ≤ start := by
  decide

theorem not_isNameStart_of_isDigit (digit : Text.isDigit character = true) :
    isNameStart character = false := by
  simp only [Text.isDigit, Text.digitValue?, Option.isSome_map, List.find?_isSome,
    decide_eq_true_eq] at digit
  obtain ⟨first, listed, low, high⟩ := digit
  have spread := digitZeros_spread first listed
  rw [Bool.eq_false_iff]
  intro start
  unfold isNameStart Char.isAlpha Char.isUpper Char.isLower at start
  simp only [Bool.or_eq_true, decide_eq_true_eq, Bool.and_eq_true, beq_iff_eq] at start
  have code (low high : Char) (above : character.val ≥ low.val) (below : character.val ≤ high.val) :
      low.toNat ≤ character.toNat ∧ character.toNat ≤ high.toNat :=
    ⟨UInt32.le_iff_toNat_le.mp above, UInt32.le_iff_toNat_le.mp below⟩
  rcases start with (⟨above, below⟩ | ⟨above, below⟩) | rfl
  · have bounds : 65 ≤ character.toNat ∧ character.toNat ≤ 90 := code 'A' 'Z' above below
    omega
  · have bounds : 97 ≤ character.toNat ∧ character.toNat ≤ 122 := code 'a' 'z' above below
    omega
  · have bounds : '_'.toNat = 95 := rfl
    omega

theorem scanWord_covers {place : Place} {keyword? : List Char → Option Terminal}
    (placed : ∀ word found, keyword? word = some found → found ∈ place.keywords)
    (others : ∀ character ∈ lexeme, isNameCharacter character = true) (rest : List Char)
    (word : terminal = .name ∨
      (terminal ∈ place.keywords ∧ keyword? (character :: lexeme) = some terminal)) :
    ∃ found extent, scanWord keyword? character (lexeme ++ rest) = (found, extent) ∧
      place.Covers terminal lexeme.length found extent := by
  have whole : (lexeme ++ rest).takeWhile isNameCharacter =
      lexeme ++ rest.takeWhile isNameCharacter :=
    List.takeWhile_append_of_pos others
  refine ⟨_, _, rfl, ?_, ?_⟩
  · rw [whole, List.length_append]
    exact Nat.le_add_right _ _
  rw [whole]
  cases more : rest.takeWhile isNameCharacter with
  | nil =>
      rw [List.append_nil]
      cases keyword : keyword? (character :: lexeme) with
      | none =>
          rcases word with rfl | ⟨-, spelled⟩
          · exact .inl rfl
          · rw [keyword] at spelled
            exact nomatch spelled
      | some found =>
          rcases word with rfl | ⟨-, spelled⟩
          · exact .inr (.inl ⟨rfl, placed _ _ keyword⟩)
          · rw [keyword] at spelled
            exact .inl (Option.some.inj spelled)
  | cons next later =>
      have longer : lexeme.length < (lexeme ++ next :: later).length := by
        rw [List.length_append, List.length_cons]
        omega
      cases keyword : keyword? (character :: (lexeme ++ next :: later)) with
      | none =>
          rcases word with rfl | ⟨listed, -⟩
          · exact .inl rfl
          · exact .inr (.inr (.inl ⟨listed, List.mem_cons_self .., longer⟩))
      | some found =>
          have known := placed _ _ keyword
          rcases word with rfl | ⟨listed, -⟩
          · exact .inr (.inl ⟨rfl, known⟩)
          · exact .inr (.inr (.inl ⟨listed, List.mem_cons_of_mem _ known, longer⟩))

theorem statementKeyword?_placed (word : List Char) (found : Terminal)
    (keyword : statementKeyword? word = some found) : found ∈ Place.statement.keywords := by
  unfold statementKeyword? at keyword
  split at keyword
  · simp [← Option.some.inj keyword, Place.keywords]
  · split at keyword
    · simp [← Option.some.inj keyword, Place.keywords]
    · split at keyword
      · simp [← Option.some.inj keyword, Place.keywords]
      · split at keyword
        · simp [← Option.some.inj keyword, Place.keywords]
        · exact nomatch keyword

theorem literalKeyword?_placed (word : List Char) (found : Terminal)
    (keyword : literalKeyword? word = some found) : found ∈ Place.operand.keywords := by
  unfold literalKeyword? at keyword
  split at keyword
  · simp [← Option.some.inj keyword, Place.keywords]
  · split at keyword
    · simp [← Option.some.inj keyword, Place.keywords]
    · exact nomatch keyword

theorem Place.scan_statement (start : isNameStart character = true) :
    Place.statement.scan character rest = some (scanWord statementKeyword? character rest) := by
  rw [Place.scan, if_pos start]

theorem Place.scan_name (start : isNameStart character = true) :
    Place.name.scan character rest = some (scanWord (fun _ => none) character rest) := by
  rw [Place.scan, if_pos start]

theorem Place.scan_operand (start : isNameStart character = true) :
    Place.operand.scan character rest = some (scanWord literalKeyword? character rest) := by
  rw [Place.scan, if_pos start]

theorem Place.scan_operand_digit (digit : Text.isDigit character = true) :
    Place.operand.scan character rest = some (.number, numeralExtent rest) := by
  have unsigned : ¬(character = '-' ∨ character = '!') := by
    rintro (rfl | rfl) <;> exact absurd digit (by decide)
  simp only [Place.scan, scanAny, not_isNameStart_of_isDigit digit, digit, unsigned, if_true,
    if_false, Bool.false_eq_true]

theorem covers_self {place : Place} {length : Nat}
    (scanned : place.scan character (lexeme ++ rest) = some (terminal, length))
    (same : lexeme.length = length) :
    ∃ found extent, place.scan character (lexeme ++ rest) = some (found, extent) ∧
      place.Covers terminal lexeme.length found extent :=
  ⟨_, _, scanned, Nat.le_of_eq same, .inl rfl⟩

theorem statement_covers (admitted : terminal ∈ Place.statement.admits)
    (matched : terminal.Matches (character :: lexeme)) (rest : List Char) :
    ∃ found extent, Place.statement.scan character (lexeme ++ rest) = some (found, extent) ∧
      Place.statement.Covers terminal lexeme.length found extent := by
  have word (start : isNameStart character = true)
      (others : ∀ character ∈ lexeme, isNameCharacter character = true)
      (known : terminal = .name ∨ (terminal ∈ Place.statement.keywords ∧
        statementKeyword? (character :: lexeme) = some terminal)) :
      ∃ found extent, Place.statement.scan character (lexeme ++ rest) = some (found, extent) ∧
        Place.statement.Covers terminal lexeme.length found extent := by
    rw [Place.scan_statement start]
    simp only [Option.some.injEq]
    exact scanWord_covers statementKeyword?_placed others rest known
  simp only [Place.admits, List.mem_cons, List.not_mem_nil, or_false] at admitted
  rcases admitted with rfl | rfl | rfl | rfl | rfl | rfl
  case inl =>
    obtain ⟨first, others, same, start, named⟩ := matched
    obtain ⟨rfl, rfl⟩ := List.cons.inj same
    exact word start named (.inl rfl)
  all_goals
    obtain ⟨rfl, rfl⟩ := List.cons.inj (Option.some.inj matched).symm
    first
      | exact word (by decide) (List.all_eq_true.mp rfl) (.inr (by decide))
      | exact covers_self rfl rfl

theorem name_covers (admitted : terminal ∈ Place.name.admits)
    (matched : terminal.Matches (character :: lexeme)) (rest : List Char) :
    ∃ found extent, Place.name.scan character (lexeme ++ rest) = some (found, extent) ∧
      Place.name.Covers terminal lexeme.length found extent := by
  simp only [Place.admits, List.mem_cons, List.not_mem_nil, or_false] at admitted
  rcases admitted with rfl | rfl
  · obtain ⟨first, others, same, start, named⟩ := matched
    obtain ⟨rfl, rfl⟩ := List.cons.inj same
    rw [Place.scan_name start]
    simp only [Option.some.injEq]
    have unplaced (word : List Char) (found : Terminal) (keyword : none = some found) :
        found ∈ Place.name.keywords := nomatch keyword
    exact scanWord_covers unplaced named rest (.inl rfl)
  · obtain ⟨rfl, rfl⟩ := List.cons.inj (Option.some.inj matched).symm
    exact covers_self rfl rfl

theorem operand_covers (admitted : terminal ∈ Place.operand.admits)
    (matched : terminal.Matches (character :: lexeme)) (rest : List Char) :
    ∃ found extent, Place.operand.scan character (lexeme ++ rest) = some (found, extent) ∧
      Place.operand.Covers terminal lexeme.length found extent := by
  have word (start : isNameStart character = true)
      (others : ∀ character ∈ lexeme, isNameCharacter character = true)
      (known : terminal = .name ∨ (terminal ∈ Place.operand.keywords ∧
        literalKeyword? (character :: lexeme) = some terminal)) :
      ∃ found extent, Place.operand.scan character (lexeme ++ rest) = some (found, extent) ∧
        Place.operand.Covers terminal lexeme.length found extent := by
    rw [Place.scan_operand start]
    simp only [Option.some.injEq]
    exact scanWord_covers literalKeyword?_placed others rest known
  simp only [Place.admits, List.mem_cons, List.not_mem_nil, or_false] at admitted
  rcases admitted with rfl | rfl | rfl | rfl | rfl | rfl | rfl | rfl | rfl
  · obtain ⟨first, others, same, start, named⟩ := matched
    obtain ⟨rfl, rfl⟩ := List.cons.inj same
    exact word start named (.inl rfl)
  · obtain ⟨digit, bound⟩ := numeral_le matched rest
    exact ⟨_, _, Place.scan_operand_digit digit, bound, .inl rfl⟩
  case inr.inr.inr.inr.inl =>
    simp only [Terminal.Matches, List.mem_cons, List.not_mem_nil, or_false] at matched
    rcases matched with same | same <;> obtain ⟨rfl, rfl⟩ := List.cons.inj same <;>
      exact covers_self rfl rfl
  all_goals
    obtain ⟨rfl, rfl⟩ := List.cons.inj (Option.some.inj matched).symm
    first
      | exact word (by decide) (List.all_eq_true.mp rfl) (.inr (by decide))
      | exact covers_self rfl rfl

theorem scanPair_covers {place : Place} {second : Char} {pair single : Terminal}
    (scan : place.scan character rest = scanPair second pair (some single) rest)
    (prefers : pair = single ∨ (single = .product ∧ pair = .power)) :
    ∃ found extent, place.scan character rest = some (found, extent) ∧
      place.Covers single 0 found extent := by
  rw [scan, scanPair]
  split
  · exact ⟨_, _, rfl, Nat.zero_le _, prefers.imp_right fun power => .inr (.inr power)⟩
  · exact ⟨_, _, rfl, Nat.zero_le _, .inl rfl⟩

theorem other_covers (admitted : terminal ∈ Place.other.admits)
    (matched : terminal.Matches (character :: lexeme)) (rest : List Char) :
    ∃ found extent, Place.other.scan character (lexeme ++ rest) = some (found, extent) ∧
      Place.other.Covers terminal lexeme.length found extent := by
  simp only [Place.admits, List.mem_cons, List.not_mem_nil, or_false] at admitted
  rcases admitted with rfl | rfl | rfl | rfl | rfl | rfl | rfl | rfl | rfl | rfl | rfl | rfl |
    rfl | rfl | rfl
  case inr.inr.inl =>
    simp only [Terminal.Matches, List.mem_cons, List.not_mem_nil, or_false] at matched
    rcases matched with same | same | same | same | same | same <;>
      obtain ⟨rfl, rfl⟩ := List.cons.inj same <;> first
        | exact covers_self rfl rfl
        | exact scanPair_covers rfl (.inl rfl)
  case inr.inr.inr.inl =>
    simp only [Terminal.Matches, List.mem_cons, List.not_mem_nil, or_false] at matched
    rcases matched with same | same <;> obtain ⟨rfl, rfl⟩ := List.cons.inj same <;>
      exact covers_self rfl rfl
  case inr.inr.inr.inr.inl =>
    simp only [Terminal.Matches, List.mem_cons, List.not_mem_nil, or_false] at matched
    rcases matched with same | same | same <;> obtain ⟨rfl, rfl⟩ := List.cons.inj same <;> first
      | exact covers_self rfl rfl
      | exact scanPair_covers rfl (.inr ⟨rfl, rfl⟩)
  all_goals first
    | obtain ⟨rfl, rfl⟩ := List.cons.inj (Option.some.inj matched).symm
      exact covers_self rfl rfl
    | obtain ⟨rfl, rfl⟩ := List.cons.inj matched
      exact covers_self rfl rfl

theorem Place.scan_covers {place : Place} (admitted : terminal ∈ place.admits)
    (matched : terminal.Matches (character :: lexeme)) (rest : List Char) :
    ∃ found extent, place.scan character (lexeme ++ rest) = some (found, extent) ∧
      place.Covers terminal lexeme.length found extent := by
  cases place with
  | statement => exact statement_covers admitted matched rest
  | name => exact name_covers admitted matched rest
  | operand => exact operand_covers admitted matched rest
  | other => exact other_covers admitted matched rest
  | equal =>
      obtain rfl : terminal = .equal := List.mem_singleton.mp admitted
      obtain ⟨rfl, rfl⟩ := List.cons.inj (Option.some.inj matched).symm
      exact covers_self rfl rfl

theorem Place.keywords_admitted {place : Place} {keyword : Terminal}
    (listed : keyword ∈ place.keywords) : keyword ∈ place.admits ∧ keyword ≠ .name := by
  revert keyword
  cases place <;> decide

theorem Place.scan_spells {place : Place}
    (scanned : place.scan character rest = some (terminal, extent)) :
    place.Spells terminal (character :: rest.take extent) := by
  obtain ⟨spelled, within⟩ := Place.scan_matches scanned
  refine ⟨spelled, ?_⟩
  rintro rfl keyword listed matched
  obtain ⟨admitted, other⟩ := Place.keywords_admitted listed
  obtain ⟨found, reached, same, covers⟩ :=
    Place.scan_covers admitted matched (rest.drop extent)
  rw [List.take_append_drop, scanned] at same
  obtain ⟨rfl, rfl⟩ := Prod.mk.inj (Option.some.inj same)
  have length := List.length_take_of_le within
  rcases covers.prefers with name | ⟨name, -⟩ | ⟨-, -, shorter⟩ | ⟨-, power⟩
  · exact other name.symm
  · exact other name
  · omega
  · exact nomatch power

end

end Bella.Source

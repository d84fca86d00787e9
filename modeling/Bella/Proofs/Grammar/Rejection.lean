import Bella.Proofs.Grammar.Passage

/-! Rejections. What comes before a rejected place can always be completed to a program, what is
rejected there cannot stand there, and the end of a source is rejected only for what it lacks. -/

namespace Bella.Source

open Construction

def spaced (tokens : List Token) : List Char :=
  tokens.flatMap fun token => ' ' :: token.lexeme

def Continues (before : String) : Prop :=
  ∃ more program, parse (before ++ more) = .ok program

def positionAfter (text : String) : Position :=
  ⟨1 + text.toList.count '\n', 1 + (text.toList.reverse.takeWhile (· != '\n')).length,
    text.toList.length⟩

/-- The source is rejected at the position for what is refused there, and not too late: the text
before can be continued. Nor is it rejected too early: every other source that starts in the same
way, up to what is refused and a blank, is rejected alike. -/
def Refuses (source : String) (error : SyntaxError) (refused : String) (position : Position) :
    Prop :=
  ∃ before after, source = before ++ refused ++ after ∧ position = positionAfter before ∧
    Continues before ∧ ∀ blank rest, isBlank blank = true →
      parse (before ++ refused ++ String.singleton blank ++ rest) = .error error

/-- The source ends too early. The position is that of its last token, if it has one. -/
def EndsEarly (source : String) (position : Position) : Prop :=
  Continues source ∧ ∃ before last gap, source = before ++ last ++ gap ∧
    position = positionAfter before ∧ Gap gap.toList ∧
      ((before = "" ∧ last = "") ∨ ∃ terminal : Terminal, terminal.Matches last.toList)

section

variable {before tokens : List Token} {construction last : Construction} {program : Node}
  {read rest start after : List Char} {source : String} {error : SyntaxError}

theorem foldl_after (reversed : List Char) :
    reversed.reverse.foldl Position.after .start =
      ⟨1 + reversed.count '\n', 1 + (reversed.takeWhile (· != '\n')).length, reversed.length⟩ := by
  induction reversed with
  | nil => rfl
  | cons character reversed ih =>
      rw [List.reverse_cons, List.foldl_append, ih]
      by_cases line : character = '\n'
      · subst line
        simp [Position.after, Nat.add_assoc]
      · simp [Position.after, line, Nat.add_assoc]

theorem positionAfter_ofList (read : List Char) :
    positionAfter (String.ofList read) = read.foldl Position.after .start := by
  have position := foldl_after read.reverse
  rw [List.reverse_reverse, List.count_reverse, List.length_reverse] at position
  rw [position, positionAfter, String.toList_ofList]

theorem fillers_spelled : ∀ token ∈ fillers, token.terminal.Matches token.lexeme ∧
    (token.terminal = .name → token.lexeme = ['x']) := by
  refine List.forall_mem_cons.mpr ⟨⟨⟨'x', [], rfl, rfl, List.forall_mem_nil _⟩, fun _ => rfl⟩,
    List.forall_mem_map.mpr ?_⟩
  have single : ∀ terminal ∈ [Terminal.trueKeyword, .printKeyword, .colon, .equal, .leftBrace,
      .leftParenthesis, .rightBrace, .rightParenthesis, .rightBracket, .semicolon],
      terminal.spelling? = some terminal.token.lexeme ∧ terminal ≠ .name := by
    decide
  intro terminal member
  obtain ⟨spelling, keyword⟩ := single terminal member
  exact ⟨matches_of_spelling spelling, fun name => absurd name keyword⟩

theorem halted_spaced (tokens : List Token) : Halted (spaced tokens) := by
  cases tokens with
  | nil => exact halted_nil
  | cons token rest => exact halted_cons rfl _

theorem filler_longest {token : Token} {allowed : Terminal → Prop} (filler : token ∈ fillers)
    (possible : allowed token.terminal) (halted : Halted rest) :
    Longest allowed token (token.lexeme ++ rest) := by
  obtain ⟨spelled, named⟩ := fillers_spelled token filler
  refine ⟨possible, spelled, List.prefix_append _ _, ?_, ?_⟩
  · intro terminal lexeme _ matched initial
    exact (prefix_of_filled initial matched.filled halted).length_le
  · intro name terminal _ matched
    rw [named name] at matched
    cases terminal
    case name => rfl
    case number => exact absurd (numeral_le matched []).1 (by decide)
    all_goals simp [Terminal.Matches, Terminal.spelling?] at matched

theorem reading_spaced {derivation : Derivation .program}
    (split : derivation.tokens = before ++ tokens) (plain : tokens ⊆ fillers) :
    Reading before (spaced tokens) tokens := by
  induction tokens generalizing before with
  | nil => exact .finish .empty
  | cons token rest ih =>
      obtain ⟨filler, later⟩ := List.cons_subset.mp plain
      obtain ⟨spelled, -⟩ := fillers_spelled token filler
      have possible : Follows before token.terminal := ⟨derivation, token.lexeme, rest, split⟩
      have longest := filler_longest filler possible (halted_spaced rest)
      have further : Reading (before ++ [token]) (spaced rest) rest :=
        ih (by rw [split, List.append_assoc, List.singleton_append]) later
      change Reading before ([' '] ++ (token.lexeme ++ spaced rest)) (token :: rest)
      rw [reading_lead (blank_leads rfl)]
      obtain ⟨first, others, lexeme⟩ := List.exists_cons_of_ne_nil spelled.ne_nil
      rw [lexeme] at spelled
      have bare : Bare first (others ++ spaced rest) := spelled.bare (halted_spaced rest)
      have text : token.lexeme ++ spaced rest = first :: (others ++ spaced rest) := by
        rw [lexeme, List.cons_append]
      rw [text] at longest ⊢
      exact (reading_token bare.gapless).mpr
        ⟨token, rest, spaced rest, rfl, longest, text.symm, further⟩

/-- Whatever has been read can be continued on a new line. -/
theorem Passes.continues (passes : Passes .empty read rest last) :
    Continues (String.ofList read) := by
  -- What is reached can be completed, but the completion goes on a new line: the text may end in a
  -- comment or in a word.
  obtain ⟨tokens, reached⟩ := passes.reached reached_empty
  obtain ⟨program, more, plain, completes⟩ := exists_completes reached.orderly
  obtain ⟨derivation, split, -⟩ := completes_empty.mp ((reached.completes _ _).mp completes)
  have line : ∀ character ∈ ('\n' :: spaced more).head?, character = '\n' :=
    fun character found => (Option.some.inj found).symm
  obtain ⟨told, -, same⟩ := (passes.exchange (.inl line)).parsed .start .start
  have reading : Reading tokens (['\n'] ++ spaced more) more :=
    (reading_lead (blank_leads rfl)).mpr (reading_spaced split plain)
  refine ⟨String.ofList ('\n' :: spaced more), program, ?_⟩
  rw [parse, String.toList_append, String.toList_ofList, String.toList_ofList, same,
    parseFrom_ok_iff reached]
  exact ⟨more, reading, completes⟩

theorem parseFrom_unread_halted {character : Char} {later : List Char} (bare : Bare character rest)
    (unscanned : construction.stage.place.scan character rest = none) (halted : Halted later)
    (position told : Position) :
    parseFrom construction position told 0 ([character] ++ later) =
      .error (.unexpectedCharacter character position) := by
  have alone : Bare character ([] ++ rest) := bare
  have within : ∀ found ∈ construction.stage.place.scan character ([] ++ rest),
      found.2 ≤ ([] : List Char).length := by
    intro found is
    rw [List.nil_append, unscanned] at is
    cases is
  have same := Place.scan_stable within halted
  exact parseFrom_unread (alone.exchange halted) (same.trans unscanned) position told

theorem parseFrom_refused_halted {character : Char} {terminal : Terminal} {extent : Nat}
    {later : List Char} (bare : Bare character rest)
    (scanned : construction.stage.place.scan character rest = some (terminal, extent))
    (refused : construction.add terminal (character :: rest.take extent) = none)
    (halted : Halted later) (position told : Position) :
    parseFrom construction position told 0 (character :: rest.take extent ++ later) =
      .error (.unexpectedToken terminal (String.ofList (character :: rest.take extent))
        position) := by
  have length : (rest.take extent).length = extent :=
    List.length_take_of_le (Place.scan_matches scanned).2
  have lexeme : (rest.take extent ++ later).take extent = rest.take extent :=
    List.take_left' length
  rw [← List.take_append_drop extent rest] at bare scanned
  have within : ∀ found ∈ construction.stage.place.scan character
      (rest.take extent ++ rest.drop extent), found.2 ≤ (rest.take extent).length := by
    intro found is
    obtain rfl := Option.some.inj (scanned.symm.trans is)
    exact Nat.le_of_eq length.symm
  have same := Place.scan_stable within halted
  rw [← lexeme] at refused
  rw [List.cons_append,
    parseFrom_refused (bare.exchange halted) (same.trans scanned) refused, lexeme]

theorem lastToken_split {told : Position} (whole : source = String.ofList read)
    (token : LastToken .start .start read told) :
    ∃ before last gap, source = before ++ last ++ gap ∧ told = positionAfter before ∧
      Gap gap.toList ∧
        ((before = "" ∧ last = "") ∨ ∃ terminal : Terminal, terminal.Matches last.toList) := by
  rcases token with ⟨run, rfl⟩ | ⟨before, lexeme, gap, rfl, matched, run, rfl⟩
  · refine ⟨"", "", source, rfl, rfl, ?_, .inl ⟨rfl, rfl⟩⟩
    rw [whole, String.toList_ofList]
    exact run
  · refine ⟨String.ofList before, String.ofList lexeme, String.ofList gap, ?_,
      (positionAfter_ofList before).symm, ?_, .inr ?_⟩
    · rw [whole, String.ofList_append, String.ofList_append, String.append_assoc]
    · rw [String.toList_ofList]
      exact run
    · rw [String.toList_ofList]
      exact matched

theorem Passes.refuses (passes : Passes .empty read (start ++ after) last)
    (filled : start ≠ [])
    (stuck : ∀ later, Halted later → ∀ told,
      parseFrom last (read.foldl Position.after .start) told 0 (start ++ later) = .error error)
    (split : source.toList = read ++ (start ++ after)) :
    Refuses source error (String.ofList start) (read.foldl Position.after .start) := by
  refine ⟨String.ofList read, String.ofList after, ?_, (positionAfter_ofList read).symm,
    passes.continues, fun blank rest is => ?_⟩
  · rw [← String.toList_inj]
    simp only [String.toList_append, String.toList_ofList, split, List.append_assoc]
  · have halted : Halted (blank :: rest.toList) := halted_cons is _
    have seam : Seam (start ++ after) (start ++ blank :: rest.toList) :=
      .inr ⟨start, after, _, filled, rfl, rfl, halted⟩
    obtain ⟨told, -, same⟩ := (passes.exchange seam).parsed .start .start
    have text : (String.ofList read ++ String.ofList start ++ String.singleton blank ++ rest).toList =
        read ++ (start ++ blank :: rest.toList) := by
      simp
    rw [parse, text, same]
    exact stuck _ halted told

end

/-- Every rejection is reported at the first possible place. -/
theorem rejected_first {source : String} {error : SyntaxError}
    (rejected : parse source = .error error) :
    match error with
    | .unexpectedToken _ lexeme position => Refuses source error lexeme position
    | .unexpectedCharacter character position =>
        Refuses source error (String.singleton character) position
    | .unexpectedEnd position => EndsEarly source position := by
  obtain ⟨read, rest, last, split, passes, stops⟩ := exists_passes .empty source.toList
  obtain ⟨told, token, same⟩ := passes.parsed .start .start
  rw [parse, split, same] at rejected
  cases stops with
  | ended =>
      have whole : source = String.ofList read := by
        rw [← String.toList_inj, String.toList_ofList, split, List.append_nil]
      rw [parseFrom] at rejected
      split at rejected
      · cases rejected
      · obtain rfl := Except.error.inj rejected
        exact ⟨whole ▸ passes.continues, lastToken_split whole token⟩
  | @unread character rest bare unscanned =>
      rw [parseFrom_unread bare unscanned] at rejected
      obtain rfl := Except.error.inj rejected
      have refuses := passes.refuses (List.cons_ne_nil character [])
        (fun _ halted => parseFrom_unread_halted bare unscanned halted _) split
      exact refuses
  | @refused character rest terminal extent bare scanned refused =>
      rw [parseFrom_refused bare scanned refused] at rejected
      obtain rfl := Except.error.inj rejected
      rw [← List.take_append_drop extent rest, ← List.cons_append] at passes split
      exact passes.refuses (List.cons_ne_nil _ _)
        (fun _ halted => parseFrom_refused_halted bare scanned refused halted _) split

def lackingSource : String :=
  "print 1; // one\nprint ;"

theorem rejected_first_lacking :
    parse lackingSource = .error (.unexpectedToken .semicolon ";" ⟨2, 7, 22⟩) ∧
      Refuses lackingSource (.unexpectedToken .semicolon ";" ⟨2, 7, 22⟩) ";" ⟨2, 7, 22⟩ := by
  have rejected : parse lackingSource = .error (.unexpectedToken .semicolon ";" ⟨2, 7, 22⟩) := rfl
  exact ⟨rejected, rejected_first rejected⟩

end Bella.Source

import Bella.Proofs.Grammar.Lookahead
import Bella.Proofs.Grammar.Reading

/-! Parsing as a passage over text, from one construction to another, with the text after it in view.
Every text is passed over up to a place where it ends or is refused. Passages are joined, and what
comes after one may be exchanged. -/

namespace Bella.Source

open Construction

structure Bare (character : Char) (rest : List Char) : Prop where
  filled : isBlank character = false
  plain : commentExtent? character rest = none

inductive Passes : Construction → (read rest : List Char) → Construction → Prop where
  | stay {construction rest} : Passes construction [] rest construction
  | blank {construction last character read rest} : isBlank character = true →
      Passes construction read rest last → Passes construction (character :: read) rest last
  | comment {construction last body read rest} : (∀ character ∈ body, character ≠ '\n') →
      (∀ character ∈ (read ++ rest).head?, character = '\n') →
      Passes construction read rest last →
      Passes construction ('/' :: '/' :: (body ++ read)) rest last
  | token {construction next last character others terminal read rest} :
      Bare character (others ++ (read ++ rest)) →
      construction.stage.place.scan character (others ++ (read ++ rest)) =
        some (terminal, others.length) →
      construction.add terminal (character :: others) = some next →
      Passes next read rest last → Passes construction (character :: (others ++ read)) rest last

inductive Stops (construction : Construction) : List Char → Prop where
  | ended : Stops construction []
  | unread {character rest} : Bare character rest →
      construction.stage.place.scan character rest = none → Stops construction (character :: rest)
  | refused {character rest terminal extent} : Bare character rest →
      construction.stage.place.scan character rest = some (terminal, extent) →
      construction.add terminal (character :: rest.take extent) = none →
      Stops construction (character :: rest)

/-- What may stand instead of the rest of a text so that the text before is read as before: a new
line, or a part of the rest and a blank after it. -/
def Seam (rest other : List Char) : Prop :=
  (∀ character ∈ other.head?, character = '\n') ∨
    ∃ start after later, start ≠ [] ∧ rest = start ++ after ∧ other = start ++ later ∧ Halted later

/-- The position told for the end of what has been read is that of its last token. -/
def LastToken (position last : Position) (read : List Char) (told : Position) : Prop :=
  (Gap read ∧ told = last) ∨
    ∃ before lexeme gap, read = before ++ (lexeme ++ gap) ∧
      (∃ terminal : Terminal, terminal.Matches lexeme) ∧ Gap gap ∧
      told = before.foldl Position.after position

section

variable {construction next last : Construction} {character : Char}
  {kept after other read rest text : List Char} {terminal : Terminal} {extent : Nat}

theorem commentExtent?_eq_none : commentExtent? character rest = none ↔
    ¬(character = '/' ∧ rest.head? = some '/') := by
  refine ⟨not_comment, fun different => ?_⟩
  unfold commentExtent?
  split
  · rw [if_neg fun slashes => different ⟨slashes.1, by rw [slashes.2]; rfl⟩]
  · rfl

theorem Bare.gapless (bare : Bare character rest) (gap : List Char) (run : Gap gap)
    (initial : gap <+: character :: rest) : gap = [] :=
  (gap_iff_nil bare.filled (not_comment bare.plain)).mp ⟨run, initial⟩

theorem Bare.exchange (bare : Bare character (kept ++ after)) (halted : Halted other) :
    Bare character (kept ++ other) := by
  refine ⟨bare.filled, commentExtent?_eq_none.mpr ?_⟩
  rintro ⟨rfl, next⟩
  cases kept with
  | nil =>
      have blank := halted '/' next
      exact absurd blank (by decide)
  | cons first kept => exact commentExtent?_eq_none.mp bare.plain ⟨rfl, next⟩

theorem Terminal.Matches.slash {others : List Char} (matched : terminal.Matches ('/' :: others)) :
    others = [] := by
  cases terminal
  case name =>
    obtain ⟨first, more, same, start, -⟩ := matched
    obtain ⟨rfl, -⟩ := List.cons.inj same
    exact absurd start (by decide)
  case number => exact absurd (numeral_le matched []).1 (by decide)
  all_goals simp_all [Terminal.Matches, Terminal.spelling?]

theorem Terminal.Matches.bare {others : List Char}
    (matched : terminal.Matches (character :: others)) (halted : Halted rest) :
    Bare character (others ++ rest) := by
  refine ⟨matched.filled character (List.mem_cons_self ..), commentExtent?_eq_none.mpr ?_⟩
  rintro ⟨rfl, next⟩
  obtain rfl := matched.slash
  have blank := halted '/' next
  exact absurd blank (by decide)

theorem Seam.halted (seam : Seam rest other) :
    ∃ start after later, rest = start ++ after ∧ other = start ++ later ∧ Halted later := by
  rcases seam with line | ⟨start, after, later, -, one, two, halted⟩
  · refine ⟨[], rest, other, rfl, rfl, fun character found => ?_⟩
    rw [line character found]
    rfl
  · exact ⟨start, after, later, one, two, halted⟩

theorem Seam.head_line (seam : Seam rest other)
    (line : ∀ character ∈ (read ++ rest).head?, character = '\n') :
    ∀ character ∈ (read ++ other).head?, character = '\n' := by
  cases read with
  | cons first read => exact line
  | nil =>
      rcases seam with line | ⟨start, after, later, filled, rfl, rfl, -⟩
      · exact line
      · obtain ⟨first, others, rfl⟩ := List.exists_cons_of_ne_nil filled
        exact line

/-- A passage does not depend on what comes after it, as long as this starts alike or in a new
line. -/
theorem Passes.exchange (passes : Passes construction read rest last) (seam : Seam rest other) :
    Passes construction read other last := by
  induction passes with
  | stay => exact .stay
  | blank blank _ ih => exact .blank blank (ih seam)
  | comment plain ended _ ih => exact .comment plain (seam.head_line ended) (ih seam)
  | @token _ _ _ character others _ read _ bare scanned added _ ih =>
      obtain ⟨start, after, later, rfl, rfl, halted⟩ := seam.halted
      have split (rest : List Char) : others ++ (read ++ (start ++ rest)) =
          (others ++ (read ++ start)) ++ rest := by
        simp only [List.append_assoc]
      rw [split after] at bare scanned
      refine .token ?_ ?_ added (ih seam)
      · rw [split later]
        exact bare.exchange halted
      · rw [split later, ← scanned]
        refine Place.scan_stable (fun found is => ?_) halted
        obtain rfl := Option.some.inj (scanned.symm.trans is)
        rw [List.length_append]
        exact Nat.le_add_right _ _

theorem Passes.append (first : Passes construction read (kept ++ rest) next)
    (second : Passes next kept rest last) : Passes construction (read ++ kept) rest last := by
  generalize whole : kept ++ rest = text at first
  induction first with
  | stay => exact second
  | blank blank _ ih => exact .blank blank (ih second whole)
  | @comment _ _ body read _ plain ended _ ih =>
      subst whole
      rw [List.cons_append, List.cons_append, List.append_assoc]
      refine .comment plain ?_ (ih second rfl)
      rwa [List.append_assoc]
  | @token _ _ _ character others _ read _ bare scanned added _ ih =>
      subst whole
      rw [← List.append_assoc read] at bare scanned
      rw [List.cons_append, List.append_assoc]
      exact .token bare scanned added (ih second rfl)

theorem exists_passes (construction : Construction) (text : List Char) :
    ∃ read rest last, text = read ++ rest ∧ Passes construction read rest last ∧
      Stops last rest := by
  match text with
  | [] => exact ⟨[], [], construction, rfl, .stay, .ended⟩
  | character :: rest =>
      by_cases blank : isBlank character = true
      · obtain ⟨read, left, last, rfl, passes, stops⟩ := exists_passes construction rest
        exact ⟨character :: read, left, last, rfl, .blank blank passes, stops⟩
      cases comment : commentExtent? character rest with
      | some extent =>
          obtain ⟨body, split, plain, ended⟩ := comment_of_extent comment
          obtain ⟨read, left, last, remaining, passes, stops⟩ :=
            exists_passes construction (rest.drop extent)
          rw [remaining] at split ended
          refine ⟨'/' :: '/' :: (body ++ read), left, last, ?_, .comment plain ended passes, stops⟩
          simpa using split
      | none =>
          have bare : Bare character rest := ⟨Bool.eq_false_iff.mpr blank, comment⟩
          cases scanned : construction.stage.place.scan character rest with
          | none => exact ⟨[], _, construction, rfl, .stay, .unread bare scanned⟩
          | some found =>
              obtain ⟨terminal, extent⟩ := found
              cases added : construction.add terminal (character :: rest.take extent) with
              | none => exact ⟨[], _, construction, rfl, .stay, .refused bare scanned added⟩
              | some next =>
                  obtain ⟨read, left, last, remaining, passes, stops⟩ :=
                    exists_passes next (rest.drop extent)
                  have split : rest.take extent ++ (read ++ left) = rest := by
                    rw [← remaining, List.take_append_drop]
                  have length : (rest.take extent).length = extent :=
                    List.length_take_of_le (Place.scan_matches scanned).2
                  refine ⟨character :: (rest.take extent ++ read), left, last, ?_,
                    .token ?_ ?_ added passes, stops⟩
                  · rw [List.cons_append, List.append_assoc, split]
                  · rw [split]
                    exact bare
                  · rw [split, length]
                    exact scanned
termination_by text.length
decreasing_by
  all_goals
    simp only [List.length_drop, List.length_cons]
    omega

theorem Passes.reached {before : List Token} (passes : Passes construction read rest last)
    (reached : Reached before construction) : ∃ tokens, Reached (before ++ tokens) last := by
  induction passes generalizing before with
  | stay => exact ⟨[], by rwa [List.append_nil]⟩
  | blank _ _ ih => exact ih reached
  | comment _ _ _ ih => exact ih reached
  | @token _ _ _ character others terminal _ _ _ scanned added _ ih =>
      have spelled := (Place.scan_matches scanned).1
      rw [List.take_left] at spelled
      have later : Reached (before ++ [⟨terminal, character :: others⟩]) _ :=
        reached.add spelled.wellSpelled added
      obtain ⟨tokens, further⟩ := ih later
      rw [List.append_assoc] at further
      exact ⟨_, further⟩

theorem LastToken.prepend {position before told : Position} (part : List Char)
    (token : LastToken (part.foldl Position.after position) before read told)
    (joins : Gap read → Gap (part ++ read)) : LastToken position before (part ++ read) told := by
  rcases token with ⟨run, same⟩ | ⟨earlier, lexeme, gap, rfl, spelled, run, same⟩
  · exact .inl ⟨joins run, same⟩
  · refine .inr ⟨part ++ earlier, lexeme, gap, (List.append_assoc _ _ _).symm, spelled, run, ?_⟩
    rw [same, List.foldl_append]

theorem commentExtent?_line {body : List Char} (plain : ∀ character ∈ body, character ≠ '\n')
    (ended : ∀ character ∈ rest.head?, character = '\n') :
    commentExtent? '/' ('/' :: (body ++ rest)) = some (body.length + 1) := by
  have stops : rest.takeWhile (· != '\n') = [] := by
    cases rest with
    | nil => rfl
    | cons first later => rw [ended first rfl]; rfl
  have line : (body ++ rest).takeWhile (· != '\n') = body := by
    rw [List.takeWhile_append_of_pos fun character found => by simpa using plain character found,
      stops, List.append_nil]
  simp [commentExtent?, line]

theorem Passes.parsed (passes : Passes construction read rest last) (position before : Position) :
    ∃ told, LastToken position before read told ∧
      parseFrom construction position before 0 (read ++ rest) =
        parseFrom last (read.foldl Position.after position) told 0 rest := by
  induction passes generalizing position before with
  | stay => exact ⟨before, .inl ⟨.empty, rfl⟩, rfl⟩
  | @blank _ _ character read rest blank _ ih =>
      obtain ⟨told, token, same⟩ := ih (position.after character) before
      refine ⟨told, LastToken.prepend [character] token (.blank blank), ?_⟩
      rw [List.cons_append, parseFrom, if_pos blank, same, List.foldl_cons]
  | @comment construction _ body read rest plain ended _ ih =>
      obtain ⟨told, token, same⟩ :=
        ih (('/' :: '/' :: body).foldl Position.after position) before
      refine ⟨told, LastToken.prepend ('/' :: '/' :: body) token (.comment plain), ?_⟩
      have filled : isBlank '/' = false := rfl
      have extent := commentExtent?_line plain ended
      rw [List.cons_append, List.cons_append, List.append_assoc, parseFrom,
        if_neg (by rw [filled]; decide)]
      simp only [extent]
      rw [parseFrom_passed, List.take_succ_cons, List.take_left, List.drop_succ_cons, List.drop_left]
      rw [List.foldl_cons, List.foldl_cons, List.foldl_cons, List.foldl_append]
      exact same
  | @token _ next last character others terminal read rest bare scanned added _ ih =>
      obtain ⟨told, token, same⟩ :=
        ih ((character :: others).foldl Position.after position) position
      have lexeme : (others ++ (read ++ rest)).take others.length = others := List.take_left
      refine ⟨told, ?_, ?_⟩
      · have spelled := (Place.scan_matches scanned).1
        rw [lexeme] at spelled
        rcases token with ⟨run, rfl⟩ | ⟨earlier, last, gap, rfl, spells, run, same⟩
        · exact .inr ⟨[], character :: others, read, rfl, ⟨terminal, spelled⟩, run, rfl⟩
        · refine .inr ⟨character :: others ++ earlier, last, gap, ?_, spells, run, ?_⟩
          · rw [← List.cons_append, List.append_assoc]
          · rw [same, List.foldl_append]
      · rw [List.cons_append, List.append_assoc, parseFrom,
          if_neg (by rw [bare.filled]; decide)]
        simp only [bare.plain, scanned, lexeme, added]
        rw [parseFrom_passed, List.take_left, List.drop_left, List.foldl_cons, List.foldl_append]
        exact same

theorem parseFrom_unread (bare : Bare character rest)
    (unscanned : construction.stage.place.scan character rest = none) (position before : Position) :
    parseFrom construction position before 0 (character :: rest) =
      .error (.unexpectedCharacter character position) := by
  rw [parseFrom, if_neg (by rw [bare.filled]; decide)]
  simp only [bare.plain, unscanned]

theorem parseFrom_refused (bare : Bare character rest)
    (scanned : construction.stage.place.scan character rest = some (terminal, extent))
    (refused : construction.add terminal (character :: rest.take extent) = none)
    (position before : Position) :
    parseFrom construction position before 0 (character :: rest) =
      .error (.unexpectedToken terminal (String.ofList (character :: rest.take extent))
        position) := by
  rw [parseFrom, if_neg (by rw [bare.filled]; decide)]
  simp only [bare.plain, scanned, refused]

theorem parse_iff_passes (source : String) (program : Node) :
    parse source = .ok program ↔
      ∃ last, Passes .empty source.toList [] last ∧ last.finish? = some program := by
  constructor
  · intro parsed
    obtain ⟨read, rest, last, split, passes, stops⟩ := exists_passes .empty source.toList
    obtain ⟨told, -, same⟩ := passes.parsed .start .start
    rw [parse, split, same] at parsed
    cases stops with
    | ended =>
        rw [List.append_nil] at split
        exact ⟨last, split ▸ passes, parseFrom_nil.mp parsed⟩
    | unread bare unscanned =>
        rw [parseFrom_unread bare unscanned] at parsed
        cases parsed
    | refused bare scanned refused =>
        rw [parseFrom_refused bare scanned refused] at parsed
        cases parsed
  · rintro ⟨last, passes, finished⟩
    obtain ⟨told, -, same⟩ := passes.parsed .start .start
    rw [List.append_nil] at same
    rw [parse, same, parseFrom_nil]
    exact finished

end

end Bella.Source

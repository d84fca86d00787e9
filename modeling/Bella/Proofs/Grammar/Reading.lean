import Bella.Source.Parse
import Bella.Proofs.Grammar.Acceptance
import Bella.Proofs.Grammar.Gap
import Bella.Proofs.Grammar.Scanning

/-! Parsing is the grammar. A text is read token by token, each the longest that some program goes on
with; parsing gives a tree just if the tokens that are read have a derivation, and gives what that
derivation means. -/

namespace Bella.Source

open Construction

def Follows (before : List Token) (terminal : Terminal) : Prop :=
  ∃ (derivation : Derivation .program) (lexeme : List Char) (after : List Token),
    derivation.tokens = before ++ ⟨terminal, lexeme⟩ :: after

/-- A text is read as tokens, with gaps as long as they can be between tokens as long as they can
be. -/
inductive Reading : List Token → List Char → List Token → Prop where
  | finish {before text} : Gap text → Reading before text []
  | next {before gap text token rest after} : MaximalGap gap (gap ++ text) →
      Longest (Follows before) token text → text = token.lexeme ++ rest →
      Reading (before ++ [token]) rest after → Reading before (gap ++ text) (token :: after)

structure Reached (before : List Token) (construction : Construction) : Prop where
  orderly : construction.Orderly
  completes : ∀ program tokens, construction.Completes program tokens ↔
    Construction.empty.Completes program (before ++ tokens)

section

variable {before tokens : List Token} {construction next : Construction} {token : Token}
  {terminal : Terminal} {lexeme text rest lead : List Char} {program : Node}

theorem reached_empty : Reached [] Construction.empty :=
  ⟨.inl rfl, fun _ _ => Iff.rfl⟩

theorem Reached.add (reached : Reached before construction) (spelled : token.WellSpelled)
    (added : construction.add token.terminal token.lexeme = some next) :
    Reached (before ++ [token]) next := by
  have agrees (program : Node) (tokens : List Token) : next.Orderly ∧
      (construction.Completes program (token :: tokens) ↔ next.Completes program tokens) := by
    have agrees : Agrees (construction.add token.terminal token.lexeme) program
        (construction.Completes program (token :: tokens)) tokens :=
      add_agrees spelled reached.orderly
    rwa [added] at agrees
  refine ⟨(agrees (.booleanLiteral true) []).1, fun program tokens => ?_⟩
  rw [← (agrees program tokens).2, reached.completes, List.append_assoc, List.singleton_append]

/-- A construction accepts just what some program goes on with. -/
theorem Reached.follows_iff (reached : Reached before construction) :
    Follows before terminal ↔ construction.Accepts terminal := by
  constructor
  · rintro ⟨derivation, lexeme, after, split⟩
    have spelled : Token.WellSpelled ⟨terminal, lexeme⟩ :=
      derivation.tokens_wellSpelled _ (split ▸ List.mem_append_right _ (List.mem_cons_self ..))
    have completes : construction.Completes derivation.meaning (⟨terminal, lexeme⟩ :: after) :=
      (reached.completes _ _).mpr (completes_empty.mpr ⟨derivation, split, rfl⟩)
    have agrees : Agrees (construction.add terminal lexeme) derivation.meaning
        (construction.Completes derivation.meaning (⟨terminal, lexeme⟩ :: after)) after :=
      add_agrees spelled reached.orderly
    refine ⟨lexeme, ?_⟩
    cases added : construction.add terminal lexeme with
    | none =>
        rw [added] at agrees
        exact absurd completes agrees
    | some next => rfl
  · intro accepted
    have spelled := token_wellSpelled terminal
    have some : (construction.add terminal terminal.token.lexeme).isSome := accepts_iff.mp accepted
    obtain ⟨next, added⟩ := Option.isSome_iff_exists.mp some
    have later := reached.add spelled added
    obtain ⟨program, tokens, -, completes⟩ := exists_completes later.orderly
    rw [later.completes, List.append_assoc, completes_empty] at completes
    obtain ⟨derivation, split, -⟩ := completes
    exact ⟨derivation, _, tokens, split⟩

theorem reading_lead (leads : Leads lead rest) :
    Reading before (lead ++ rest) tokens ↔ Reading before rest tokens := by
  have gap : Gap (lead ++ rest) ↔ Gap rest := by
    rw [maximalGap_self, leads, maximalGap_self]
    simp
  constructor
  · intro reading
    generalize same : lead ++ rest = whole at reading
    cases reading with
    | finish run =>
        subst same
        exact .finish (gap.mp run)
    | @next _ _ text token more after maximal longest split later =>
        have whole : MaximalGap _ (lead ++ rest) := same ▸ maximal
        obtain ⟨part, rfl, maximal⟩ := (leads _).mp whole
        rw [List.append_assoc, List.append_cancel_left_eq] at same
        subst same
        exact .next maximal longest split later
  · intro reading
    cases reading with
    | finish run => exact .finish (gap.mpr run)
    | next maximal longest split later =>
        rw [← List.append_assoc]
        refine .next ?_ longest split later
        rw [List.append_assoc]
        exact (leads _).mpr ⟨_, rfl, maximal⟩

theorem reading_token {character : Char} (gapless : ∀ gap, Gap gap →
    gap <+: character :: rest → gap = []) :
    Reading before (character :: rest) tokens ↔
      ∃ token after more, tokens = token :: after ∧
        Longest (Follows before) token (character :: rest) ∧
        character :: rest = token.lexeme ++ more ∧ Reading (before ++ [token]) more after := by
  constructor
  · intro reading
    generalize same : character :: rest = whole at reading
    cases reading with
    | finish run =>
        subst same
        exact nomatch gapless _ run (List.prefix_refl _)
    | next maximal longest split later =>
        have none : _ = [] := gapless _ maximal.run (same ▸ maximal.initial)
        subst none
        exact ⟨_, _, _, rfl, longest, split, later⟩
  · rintro ⟨token, after, more, rfl, longest, split, later⟩
    have maximal : MaximalGap [] ([] ++ character :: rest) := by
      refine ⟨.empty, List.nil_prefix, fun other run initial => ?_⟩
      exact Nat.le_of_eq (congrArg List.length (gapless other run initial))
    exact .next maximal longest split later

theorem parseFrom_passed (construction : Construction) (position last : Position)
    (passed : Nat) (text : List Char) :
    parseFrom construction position last passed text =
      parseFrom construction ((text.take passed).foldl Position.after position) last 0
        (text.drop passed) := by
  induction passed generalizing position text with
  | zero => rfl
  | succ passed ih =>
      cases text with
      | nil => rw [List.take_nil, List.drop_nil, parseFrom, List.foldl_nil, parseFrom]
      | cons character rest =>
          rw [parseFrom, ih, List.take_succ_cons, List.foldl_cons, List.drop_succ_cons]

theorem comment_of_extent {character : Char} {extent : Nat}
    (comment : commentExtent? character rest = some extent) :
    ∃ body, character :: rest = ('/' :: '/' :: body) ++ rest.drop extent ∧
      (∀ character ∈ body, character ≠ '\n') ∧
      ∀ character ∈ (rest.drop extent).head?, character = '\n' := by
  unfold commentExtent? at comment
  split at comment
  · rename_i second more
    split at comment
    · rename_i slashes
      obtain ⟨rfl, rfl⟩ := slashes
      obtain rfl := Option.some.inj comment
      have ended : ('/' :: more).drop (('/' :: more).takeWhile (· != '\n')).length =
          more.dropWhile (· != '\n') :=
        calc
          _ = more.drop (more.takeWhile (· != '\n')).length := rfl
          _ = (more.takeWhile (· != '\n') ++ more.dropWhile (· != '\n')).drop
                (more.takeWhile (· != '\n')).length := by rw [List.takeWhile_append_dropWhile]
          _ = more.dropWhile (· != '\n') := List.drop_left
      rw [ended]
      refine ⟨more.takeWhile (· != '\n'), ?_, ?_, ?_⟩
      · rw [List.cons_append, List.cons_append, List.takeWhile_append_dropWhile]
      · intro character found
        simpa using List.all_eq_true.mp List.all_takeWhile character found
      · intro character found
        have stops := List.head?_dropWhile_not (· != '\n') more
        rw [Option.mem_def.mp found] at stops
        simpa using stops
    · cases comment
  · cases comment

theorem not_comment {character : Char} (none : commentExtent? character rest = none) :
    ¬(character = '/' ∧ rest.head? = some '/') := by
  rintro ⟨rfl, next⟩
  obtain ⟨more, rfl⟩ := List.head?_eq_some_iff.mp next
  simp [commentExtent?] at none

theorem parseFrom_nil {position last : Position} :
    parseFrom construction position last 0 [] = .ok program ↔
      construction.finish? = some program := by
  rw [parseFrom]
  split
  · rename_i found
    rw [found, Except.ok.injEq, Option.some.injEq]
  · rename_i missing
    rw [missing]
    exact iff_of_false nofun nofun

theorem reading_nil : Reading before [] tokens ↔ tokens = [] := by
  constructor
  · intro reading
    generalize same : [] = whole at reading
    cases reading with
    | finish => rfl
    | next _ longest =>
        obtain ⟨-, rfl⟩ := List.append_eq_nil_iff.mp same.symm
        exact (not_longest_nil longest).elim
  · rintro rfl
    exact .finish .empty

section

variable {character : Char}

theorem Reached.longest_iff (reached : Reached before construction) :
    Longest (Follows before) token text ↔ Longest construction.Accepts token text := by
  have follows : Follows before = construction.Accepts :=
    funext fun _ => propext reached.follows_iff
  rw [follows]

theorem not_reading_unscanned (reached : Reached before construction)
    (gapless : ∀ gap, Gap gap → gap <+: character :: rest → gap = [])
    (unscanned : construction.stage.place.scan character rest = none) :
    ¬Reading before (character :: rest) tokens := by
  rw [reading_token gapless]
  rintro ⟨token, after, more, rfl, longest, -, -⟩
  obtain ⟨extent, scanned, -, -⟩ := longest_scan (reached.longest_iff.mp longest)
  rw [unscanned] at scanned
  exact nomatch scanned

/-- Where no gap starts, what is read first is what is scanned, if it is accepted. -/
theorem reading_scanned {extent : Nat} (reached : Reached before construction)
    (gapless : ∀ gap, Gap gap → gap <+: character :: rest → gap = [])
    (scanned : construction.stage.place.scan character rest = some (terminal, extent)) :
    Reading before (character :: rest) tokens ↔ construction.Accepts terminal ∧
      ∃ after, tokens = ⟨terminal, character :: rest.take extent⟩ :: after ∧
        Reading (before ++ [⟨terminal, character :: rest.take extent⟩]) (rest.drop extent)
          after := by
  rw [reading_token gapless]
  constructor
  · rintro ⟨⟨found, lexeme⟩, after, more, rfl, longest, split, reading⟩
    have accepted := reached.longest_iff.mp longest
    obtain ⟨length, rescanned, same, -⟩ := longest_scan accepted
    rw [scanned] at rescanned
    obtain ⟨rfl, rfl⟩ := Prod.mk.inj (Option.some.inj rescanned)
    obtain rfl : lexeme = character :: rest.take extent := same
    have remaining : rest.drop extent = more := by
      rw [List.cons_append] at split
      have parts := (List.cons.inj split).2
      conv at parts => lhs; rw [← List.take_append_drop extent rest]
      exact List.append_cancel_left parts
    exact ⟨accepted.possible, after, rfl, remaining ▸ reading⟩
  · rintro ⟨accepted, after, rfl, reading⟩
    refine ⟨_, after, _, rfl, reached.longest_iff.mpr (scan_longest scanned accepted), ?_, reading⟩
    rw [List.cons_append, List.take_append_drop]

end

/-- Parsing goes on to a program just if what is left is read as tokens that complete it. -/
theorem parseFrom_ok_iff {before : List Token} {construction : Construction}
    {position last : Position} (reached : Reached before construction) (text : List Char) :
    parseFrom construction position last 0 text = .ok program ↔
      ∃ tokens, Reading before text tokens ∧ construction.Completes program tokens := by
  match text with
  | [] =>
      rw [parseFrom_nil, ← completes_nil]
      simp only [reading_nil, exists_eq_left]
  | character :: rest =>
      rw [parseFrom]
      by_cases blank : isBlank character = true
      · rw [if_pos blank, parseFrom_ok_iff reached rest]
        have leads : Leads [character] rest := blank_leads blank
        exact exists_congr fun tokens => and_congr_left fun _ => (reading_lead leads).symm
      rw [if_neg blank]
      cases comment : commentExtent? character rest with
      | some extent =>
          obtain ⟨body, split, plain, ended⟩ := comment_of_extent comment
          simp only [parseFrom_passed construction _ last extent rest]
          rw [parseFrom_ok_iff reached (rest.drop extent), split]
          exact exists_congr fun tokens =>
            and_congr_left fun _ => (reading_lead (comment_leads plain ended)).symm
      | none =>
          have gapless : ∀ gap, Gap gap → gap <+: character :: rest → gap = [] :=
            fun gap run initial =>
              (gap_iff_nil (Bool.eq_false_iff.mpr blank) (not_comment comment)).mp ⟨run, initial⟩
          cases scanned : construction.stage.place.scan character rest with
          | none =>
              exact iff_of_false nofun fun ⟨_, reading, _⟩ =>
                not_reading_unscanned reached gapless scanned reading
          | some found =>
              obtain ⟨terminal, extent⟩ := found
              simp only [reading_scanned reached gapless scanned]
              cases added : construction.add terminal (character :: rest.take extent) with
              | none =>
                  have refused : ¬construction.Accepts terminal := by
                    rw [accepts_iff, added]
                    exact Bool.false_ne_true
                  exact iff_of_false nofun fun ⟨_, ⟨accepted, _⟩, _⟩ => refused accepted
              | some next =>
                  obtain ⟨spelled, -⟩ := Place.scan_matches scanned
                  have later : Reached (before ++ [⟨terminal, character :: rest.take extent⟩]) next :=
                    reached.add spelled.wellSpelled added
                  have accepted : construction.Accepts terminal := ⟨_, by rw [added]; rfl⟩
                  have same (after : List Token) : construction.Completes program
                      (⟨terminal, character :: rest.take extent⟩ :: after) ↔
                        next.Completes program after := by
                    rw [reached.completes, later.completes, List.append_assoc, List.singleton_append]
                  simp only [parseFrom_passed next _ position extent rest]
                  rw [parseFrom_ok_iff later (rest.drop extent)]
                  constructor
                  · rintro ⟨after, reading, completes⟩
                    exact ⟨_, ⟨accepted, after, rfl, reading⟩, (same after).mpr completes⟩
                  · rintro ⟨_, ⟨-, after, rfl, reading⟩, completes⟩
                    exact ⟨after, reading, (same after).mp completes⟩
termination_by text.length
decreasing_by
  all_goals
    simp only [List.length_drop, List.length_cons]
    omega

end

/-- A text is read in one way only. -/
theorem reading_unique {before tokens others : List Token} {construction : Construction}
    {text : List Char} (reached : Reached before construction)
    (first : Reading before text tokens) (second : Reading before text others) :
    tokens = others := by
  induction first generalizing construction others with
  | @finish before text run =>
      generalize same : text = whole at second
      cases second with
      | finish => rfl
      | @next _ gap text token rest after maximal longest =>
          subst same
          have all := maximal.longest _ run (List.prefix_refl _)
          rw [List.length_append] at all
          obtain rfl : text = [] := List.eq_nil_of_length_eq_zero (by omega)
          exact (not_longest_nil longest).elim
  | @next before gap text token rest after maximal longest split _ ih =>
      generalize same : gap ++ text = whole at second
      cases second with
      | finish run =>
          subst same
          have all := maximal.longest _ run (List.prefix_refl _)
          rw [List.length_append] at all
          obtain rfl : text = [] := List.eq_nil_of_length_eq_zero (by omega)
          exact (not_longest_nil longest).elim
      | @next _ gap' text' token' rest' after' maximal' longest' split' reading' =>
          obtain rfl : gap = gap' := maximal.unique (same ▸ maximal')
          obtain rfl : text = text' := List.append_cancel_left same
          rw [reached.longest_iff] at longest longest'
          obtain rfl : token = token' := longest_unique longest longest'
          obtain rfl : rest = rest' := List.append_cancel_left (split.symm.trans split')
          have some : (construction.add token.terminal token.lexeme).isSome :=
            accepts_iff.mp longest.possible
          obtain ⟨next, added⟩ := Option.isSome_iff_exists.mp some
          rw [ih (reached.add longest.spelled.wellSpelled added) reading']

/-- Parsing gives the meaning of the one derivation of what is read. -/
theorem parse_ok_iff (source : String) (program : Node) :
    parse source = .ok program ↔
      ∃ derivation : Derivation .program, Reading [] source.toList derivation.tokens ∧
        (∀ other : Derivation .program, Reading [] source.toList other.tokens →
          other = derivation) ∧
        derivation.meaning = program := by
  rw [parse, parseFrom_ok_iff reached_empty]
  constructor
  · rintro ⟨tokens, reading, completes⟩
    obtain ⟨derivation, rfl, meaning⟩ := completes_empty.mp completes
    refine ⟨derivation, reading, fun other again => ?_, meaning⟩
    have same := reading_unique reached_empty again reading
    exact (Derivation.unambiguous other derivation [] [] nofun nofun
      (congrArg (· ++ []) same)).1
  · rintro ⟨derivation, reading, -, meaning⟩
    exact ⟨_, reading, completes_empty.mpr ⟨derivation, rfl, meaning⟩⟩

end Bella.Source

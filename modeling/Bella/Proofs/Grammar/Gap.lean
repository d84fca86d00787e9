import Bella.Source.Terminal

/-! What may stand between terminals: blanks and comments, as many as there are. -/

namespace Bella.Source

inductive Gap : List Char → Prop where
  | empty : Gap []
  | blank {character rest} : isBlank character = true → Gap rest → Gap (character :: rest)
  | comment {body rest} : (∀ character ∈ body, character ≠ '\n') → Gap rest →
      Gap ('/' :: '/' :: (body ++ rest))

structure MaximalGap (gap text : List Char) : Prop where
  run : Gap gap
  initial : gap <+: text
  longest : ∀ other, Gap other → other <+: text → other.length ≤ gap.length

def Leads (lead rest : List Char) : Prop :=
  ∀ gap, MaximalGap gap (lead ++ rest) ↔ ∃ more, gap = lead ++ more ∧ MaximalGap more rest

section

variable {rest body gap : List Char} {character : Char}

theorem maximalGap_self {text : List Char} : Gap text ↔ MaximalGap text text :=
  ⟨fun run => ⟨run, List.prefix_refl _, fun _ _ initial => initial.length_le⟩, fun maximal => maximal.run⟩

theorem MaximalGap.unique {text other : List Char} (first : MaximalGap gap text)
    (second : MaximalGap other text) : gap = other := by
  have short := second.longest gap first.run first.initial
  have long := first.longest other second.run second.initial
  exact (List.prefix_of_prefix_length_le first.initial second.initial short).eq_of_length
    (Nat.le_antisymm short long)

theorem leads_of_split {lead rest : List Char} (joins : ∀ more, Gap more → Gap (lead ++ more))
    (splits : ∀ gap, Gap gap → gap <+: lead ++ rest →
      gap.length ≤ lead.length ∨ ∃ more, gap = lead ++ more ∧ Gap more) :
    Leads lead rest := by
  intro gap
  constructor
  · intro maximal
    have least : lead.length ≤ gap.length := by
      have bound := maximal.longest (lead ++ []) (joins [] .empty)
        (List.prefix_append_right_inj lead |>.mpr (List.nil_prefix))
      rwa [List.append_nil] at bound
    obtain ⟨more, rfl, run⟩ : ∃ more, gap = lead ++ more ∧ Gap more := by
      rcases splits gap maximal.run maximal.initial with short | split
      · have same : gap = lead := by
          have initial : gap <+: lead :=
            List.prefix_of_prefix_length_le maximal.initial (List.prefix_append _ _) short
          exact initial.eq_of_length (Nat.le_antisymm short least)
        exact ⟨[], by rw [same, List.append_nil], .empty⟩
      · exact split
    refine ⟨more, rfl, run, (List.prefix_append_right_inj lead).mp maximal.initial, ?_⟩
    intro other also initial
    have bound := maximal.longest (lead ++ other) (joins other also)
      ((List.prefix_append_right_inj lead).mpr initial)
    rw [List.length_append, List.length_append] at bound
    omega
  · rintro ⟨more, rfl, maximal⟩
    refine ⟨joins more maximal.run, (List.prefix_append_right_inj lead).mpr maximal.initial, ?_⟩
    intro other also initial
    rcases splits other also initial with short | ⟨part, rfl, run⟩
    · rw [List.length_append]
      omega
    · have bound := maximal.longest part run ((List.prefix_append_right_inj lead).mp initial)
      rw [List.length_append, List.length_append]
      omega

theorem blank_leads (blank : isBlank character = true) : Leads [character] rest := by
  refine leads_of_split (fun _ run => .blank blank run) fun gap run initial => ?_
  cases run with
  | empty => exact .inl (Nat.zero_le _)
  | blank _ run =>
      obtain ⟨rfl, -⟩ := List.cons_prefix_cons.mp initial
      exact .inr ⟨_, rfl, run⟩
  | comment =>
      obtain ⟨rfl, -⟩ := List.cons_prefix_cons.mp initial
      exact absurd blank (by decide)

/-- A gap that starts inside a line either ends there or covers the line. -/
theorem Gap.drop_line {line : List Char} (run : Gap gap) (initial : gap <+: line ++ rest)
    (single : ∀ character ∈ line, character ≠ '\n')
    (ended : ∀ character ∈ rest.head?, character = '\n') :
    gap.length ≤ line.length ∨ ∃ more, gap = line ++ more ∧ Gap more := by
  induction run generalizing line with
  | empty => exact .inl (Nat.zero_le _)
  | blank blank run ih =>
      cases line with
      | nil => exact .inr ⟨_, rfl, .blank blank run⟩
      | cons first line =>
          obtain ⟨rfl, later⟩ := List.cons_prefix_cons.mp initial
          rcases ih later (fun _ found => single _ (List.mem_cons_of_mem _ found)) with
            short | ⟨more, rfl, further⟩
          · exact .inl (Nat.succ_le_succ short)
          · exact .inr ⟨more, rfl, further⟩
  | @comment body after plain run ih =>
      have opening : ∀ character ∈ '/' :: '/' :: body, character ≠ '\n' := by
        simp only [List.forall_mem_cons]
        exact ⟨by decide, by decide, plain⟩
      change '/' :: '/' :: body ++ after <+: line ++ rest at initial
      have start : '/' :: '/' :: body <+: line ++ rest := (List.prefix_append _ _).trans initial
      by_cases short : ('/' :: '/' :: body).length ≤ line.length
      · obtain ⟨later, rfl⟩ := List.prefix_of_prefix_length_le start (List.prefix_append _ _) short
        rw [List.append_assoc, List.prefix_append_right_inj] at initial
        rcases ih initial (fun _ found => single _ (List.mem_append_right _ found)) with
          short | ⟨more, rfl, further⟩
        · refine .inl ?_
          simp only [List.length_cons, List.length_append] at short ⊢
          omega
        · exact .inr ⟨more, by simp, further⟩
      · -- The comment would go past the end of the line.
        obtain ⟨past, same⟩ := List.prefix_of_prefix_length_le (List.prefix_append line rest) start
          (Nat.le_of_not_le short)
        rw [← same, List.prefix_append_right_inj] at start
        cases past with
        | nil =>
            rw [List.append_nil] at same
            exact absurd (Nat.le_of_eq (congrArg List.length same.symm)) short
        | cons next past =>
            obtain ⟨more, rfl⟩ := start
            refine absurd (ended next rfl) (opening next ?_)
            rw [← same]
            exact List.mem_append_right _ (List.mem_cons_self ..)

theorem comment_leads (plain : ∀ character ∈ body, character ≠ '\n')
    (ended : ∀ character ∈ rest.head?, character = '\n') :
    Leads ('/' :: '/' :: body) rest := by
  refine leads_of_split (fun more run => .comment plain run) fun gap run initial => ?_
  exact run.drop_line initial (by simp; exact plain) ended

theorem gap_iff_nil (filled : isBlank character = false)
    (uncommented : ¬(character = '/' ∧ rest.head? = some '/')) :
    Gap gap ∧ gap <+: character :: rest ↔ gap = [] := by
  constructor
  · rintro ⟨run, initial⟩
    cases run with
    | empty => rfl
    | blank blank =>
        obtain ⟨rfl, -⟩ := List.cons_prefix_cons.mp initial
        rw [filled] at blank
        cases blank
    | comment =>
        obtain ⟨rfl, more, rfl⟩ := List.cons_prefix_cons.mp initial
        exact absurd ⟨rfl, rfl⟩ uncommented
  · rintro rfl
    exact ⟨.empty, List.nil_prefix⟩

end

end Bella.Source

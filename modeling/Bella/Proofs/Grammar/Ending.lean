import Bella.Proofs.Grammar.Pending

/-! Frames that a terminal ends before it is looked at. A construction ends exactly those that the
grammar leaves no other way to go on from. -/

namespace Bella.Source

open Construction

theorem endOperators_collapses (frames : List Frame) (value : Node) :
    Collapses 8 frames value (endOperators frames value).1 (endOperators frames value).2 ∧
      8 ≤ expected (endOperators frames value).1 := by
  induction frames generalizing value with
  | nil => exact ⟨.done, Nat.le_succ 8⟩
  | cons frame outer ih =>
      cases frame with
      | unary operator =>
          obtain ⟨collapse, bound⟩ := ih (Construction.unary operator value)
          exact ⟨.step rfl (by simp [Frame.result]) collapse, bound⟩
      | binary strength operator left =>
          obtain ⟨collapse, bound⟩ := ih (Construction.binary operator left value)
          refine ⟨.step rfl ?_ collapse, bound⟩
          cases strength <;> simp [Frame.result, Strength.reach]
      | _ => exact ⟨.done, by simp [endOperators, expected, Frame.expects]⟩

theorem endExpression_collapses (frames : List Frame) (value : Node) :
    Collapses 9 frames value (endExpression frames value).1 (endExpression frames value).2 ∧
      ∀ frame ∈ (endExpression frames value).1.head?, ∀ last, frame.end? last = none := by
  induction frames generalizing value with
  | nil => exact ⟨.done, by simp [endExpression]⟩
  | cons frame outer ih =>
      cases frame with
      | unary operator =>
          obtain ⟨collapse, waits⟩ := ih (Construction.unary operator value)
          exact ⟨.step rfl (by simp [Frame.result]) collapse, waits⟩
      | binary strength operator left =>
          obtain ⟨collapse, waits⟩ := ih (Construction.binary operator left value)
          refine ⟨.step rfl ?_ collapse, waits⟩
          cases strength <;> simp [Frame.result, Strength.reach]
      | alternative condition consequent =>
          obtain ⟨collapse, waits⟩ := ih (.conditionalExpression condition consequent value)
          exact ⟨.step rfl (by simp [Frame.result]) collapse, waits⟩
      | _ => exact ⟨.done, by simp [endExpression, Frame.end?]⟩

theorem endBefore_eq_self {strength : Strength} {frames : List Frame} (value : Node)
    (bound : strength.reach ≤ expected frames) : endBefore strength frames value = (frames, value) := by
  cases frames with
  | nil => rfl
  | cons frame outer =>
      cases frame with
      | unary operator => cases strength <;> simp [expected, Frame.expects, Strength.reach] at bound
      | binary earlier operator left =>
          cases strength <;> cases earlier <;>
            simp [expected, Frame.expects, Strength.reach, Level.reach, Strength.operands,
              endBefore, Strength.follows, Strength.rank] at bound ⊢
      | _ => rfl

/-- After the stronger operators an operator meets one of its own strength, or none. Powers and
relations do not end an earlier one. -/
theorem endBefore_collapses (strength : Strength) {frames : List Frame} (value : Node)
    (nested : Nested frames) :
    ∃ final last, Collapses strength.operands.reach frames value final last ∧
      ((∃ operator left outer, final = .binary strength operator left :: outer ∧
          strength.Repeats ∧ endBefore strength frames value = (outer, binary operator left last)) ∨
        (∃ operator left outer, final = .binary .relation operator left :: outer ∧
          strength = .relation ∧ endBefore strength frames value = (final, last)) ∨
        (strength.reach ≤ expected final ∧ endBefore strength frames value = (final, last))) := by
  induction frames generalizing value with
  | nil => exact ⟨[], value, .done, .inr (.inr ⟨by cases strength <;> decide, rfl⟩)⟩
  | cons frame outer ih =>
      cases frame with
      | unary operator =>
          obtain ⟨final, last, collapse, ends⟩ := ih (Construction.unary operator value) nested.2
          exact ⟨final, last, .step rfl strength.operands.two_le_reach collapse, ends⟩
      | binary earlier operator left =>
          by_cases stronger : earlier.reach ≤ strength.operands.reach
          · obtain ⟨final, last, collapse, ends⟩ :=
              ih (Construction.binary operator left value) nested.2
            have follows : strength.follows earlier = true := by
              revert stronger
              cases strength <;> cases earlier <;> decide
            refine ⟨final, last, .step rfl stronger collapse, ?_⟩
            simpa only [endBefore, follows, if_true] using ends
          · refine ⟨.binary earlier operator left :: outer, value, .done, ?_⟩
            by_cases same : strength.follows earlier = true
            · have equal : earlier = strength ∧ strength.Repeats := by
                revert same stronger
                cases strength <;> cases earlier <;>
                  simp [Strength.follows, Strength.rank, Strength.reach, Level.reach,
                    Strength.operands, Strength.Repeats]
              obtain ⟨rfl, repeats⟩ := equal
              refine .inl ⟨operator, left, outer, rfl, repeats, ?_⟩
              simp only [endBefore, same, if_true]
              exact endBefore_eq_self _ nested.1
            · have stays : endBefore strength (.binary earlier operator left :: outer) value =
                  (.binary earlier operator left :: outer, value) := by
                simp only [endBefore, same, Bool.false_eq_true, if_false]
              by_cases relations : strength = .relation ∧ earlier = .relation
              · obtain ⟨rfl, rfl⟩ := relations
                exact .inr (.inl ⟨operator, left, outer, rfl, rfl, stays⟩)
              · refine .inr (.inr ⟨?_, stays⟩)
                revert same stronger relations
                cases strength <;> cases earlier <;>
                  simp [Strength.follows, Strength.rank, Strength.reach, Level.reach,
                    Strength.operands, expected, Frame.expects]
      | _ =>
          refine ⟨_, value, .done, .inr (.inr ⟨?_, rfl⟩)⟩
          cases strength <;> simp [expected, Frame.expects, Strength.reach]

end Bella.Source

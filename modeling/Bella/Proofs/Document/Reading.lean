import Bella.Datum.Writer
import Bella.Proofs.Decimal.Written

/-! Documents are read back. A written datum leads from a reader that waits for a value to one that has
the datum, whatever is open around it. Main statement: such a datum is what its document holds. -/

namespace Bella.Datum

structure Leads (characters : List Char) (before after : Reader) : Prop where
  read : characters.foldlM Reader.next before = .ok after
  unbroken : '\r' ∉ characters

inductive Reader.Settles : Reader → Progress → Prop
  | nothing (progress : Progress) : Settles ⟨.nothing, progress⟩ progress
  | word {reversed : List Char} {before after : Progress}
      (taken : before.step (.word reversed.reverse) = .ok after) :
      Settles ⟨.word reversed, before⟩ after

inductive Ready : Progress → List Container → Prop
  | valueDue (containers : List Container) : Ready (.valueDue containers) containers
  | listStart (outer : List Container) : Ready (.listStart outer) (.list [] :: outer)

inductive Mark : Char → Token → Prop
  | openList : Mark '[' .openList
  | closeList : Mark ']' .closeList
  | openObject : Mark '\x7b' .openObject
  | closeObject : Mark '\x7d' .closeObject
  | comma : Mark ',' .comma
  | colon : Mark ':' .colon

section

variable {first second word : List Char} {character : Char} {token : Token} {progress after : Progress}
  {before reader following : Reader} {containers outer : List Container}

theorem Leads.append (leads : Leads first before reader) (more : Leads second reader following) :
    Leads (first ++ second) before following := by
  refine ⟨?_, List.not_mem_append leads.unbroken more.unbroken⟩
  rw [List.foldlM_append, leads.read]
  exact more.read

theorem Leads.single (read : before.next character = .ok reader) (other : character ≠ '\r') :
    Leads [character] before reader := by
  refine ⟨?_, by simpa using other.symm⟩
  rw [List.foldlM_cons, read]
  rfl

theorem Leads.cons (read : before.next character = .ok reader) (other : character ≠ '\r')
    (more : Leads second reader following) : Leads (character :: second) before following :=
  (Leads.single read other).append more

theorem Leads.nil (reader : Reader) : Leads [] reader reader :=
  ⟨rfl, List.not_mem_nil⟩

theorem Ready.step (ready : Ready progress containers) (opening : token ≠ .closeList) :
    progress.step token = Progress.begin containers token := by
  cases ready with
  | valueDue containers => rfl
  | listStart outer =>
      cases token
      case closeList => exact absurd rfl opening
      all_goals rfl

theorem Mark.start (mark : Mark character token) (progress : Progress) :
    Reader.start progress character = (progress.step token).map (Reader.mk .nothing) := by
  cases mark <;> rfl

theorem Mark.ends_word (mark : Mark character token) : isWordCharacter character = false := by
  cases mark <;> decide

theorem Mark.ne_return (mark : Mark character token) : character ≠ '\r' := by
  cases mark <;> decide

theorem Reader.Settles.next (settles : before.Settles progress)
    (ends : isWordCharacter character = false) :
    before.next character = Reader.start progress character := by
  cases settles with
  | nothing progress => rfl
  | word taken => simp only [Reader.next, ends, Bool.false_eq_true, if_false, taken]

theorem Reader.Settles.mark (settles : before.Settles progress) (mark : Mark character token)
    (taken : progress.step token = .ok after) : Leads [character] before ⟨.nothing, after⟩ := by
  refine .single ?_ mark.ne_return
  rw [settles.next mark.ends_word, mark.start, taken]
  rfl

theorem blanks_lead (count : Nat) (progress : Progress) :
    Leads (List.replicate count ' ') ⟨.nothing, progress⟩ ⟨.nothing, progress⟩ := by
  induction count with
  | zero => exact .nil _
  | succ count ih => exact .cons rfl (by decide) ih

theorem Reader.Settles.lineBreak (settles : before.Settles progress) (depth : Nat) :
    Leads (lineBreak depth).toList before ⟨.nothing, progress⟩ := by
  rw [Datum.lineBreak, String.toList_ofList]
  exact .cons (settles.next (by decide)) (by decide) (blanks_lead _ progress)

/-! Words and texts. -/

theorem start_word (inside : isWordCharacter character = true) (progress : Progress) :
    Reader.start progress character = .ok ⟨.word [character], progress⟩ := by
  have other (mark : Char) (outside : isWordCharacter mark = false) : character ≠ mark := by
    intro same
    rw [same, outside] at inside
    exact Bool.false_ne_true inside
  simp only [Reader.start, other ' ' rfl, other '\t' rfl, other '\n' rfl, other '\r' rfl, other '"' rfl,
    other '[' rfl, other ']' rfl, other '\x7b' rfl, other '\x7d' rfl, other ',' rfl, other ':' rfl, inside,
    or_false, if_false, if_true]

theorem word_grows (inside : ∀ character ∈ word, isWordCharacter character = true)
    (reversed : List Char) (progress : Progress) :
    Leads word ⟨.word reversed, progress⟩ ⟨.word (word.reverse ++ reversed), progress⟩ := by
  induction word generalizing reversed with
  | nil => exact .nil _
  | cons character rest ih =>
      obtain ⟨here, later⟩ := List.forall_mem_cons.mp inside
      have step : Reader.next ⟨.word reversed, progress⟩ character =
          .ok ⟨.word (character :: reversed), progress⟩ := by
        simp only [Reader.next, here, if_true]
      rw [List.reverse_cons, List.append_assoc]
      exact .cons step (by rintro rfl; exact Bool.false_ne_true here) (ih later _)

/-- A word stands for a value once it has ended. -/
theorem word_leads {datum : Datum} (read : ofWord word = .ok datum) (filled : word ≠ [])
    (inside : ∀ character ∈ word, isWordCharacter character = true)
    (ready : Ready progress containers) :
    ∃ reader, Leads word ⟨.nothing, progress⟩ reader ∧ reader.Settles (.complete datum containers) := by
  obtain ⟨character, rest, rfl⟩ := List.exists_cons_of_ne_nil filled
  obtain ⟨here, later⟩ := List.forall_mem_cons.mp inside
  refine ⟨_, .cons (start_word here progress) (by rintro rfl; exact Bool.false_ne_true here)
    (word_grows later [character] progress), .word ?_⟩
  have begun := ready.step (nofun : Token.word (character :: rest) ≠ .closeList)
  rw [List.reverse_append, List.reverse_reverse, List.reverse_singleton,
    List.singleton_append, begun, Progress.begin, read]
  rfl

theorem hexadecimalValue?_digitChar {digit : Nat} (small : digit < 16) :
    hexadecimalValue? digit.digitChar = some digit ∧ digit.digitChar ≠ '\r' := by
  have each : ∀ digit < 16, hexadecimalValue? (Nat.digitChar digit) = some digit ∧
      Nat.digitChar digit ≠ '\r' := by decide
  exact each digit small

theorem addCode_character {code : Nat} (below : code < 0xd800) (reversed : Text) :
    addCode reversed code = .character (Char.ofNat code) :: reversed := by
  rw [addCode, dif_neg (by omega)]

theorem codeEscape_leads {code : Nat} (below : code < 0xd800) (reversed : Text) (progress : Progress) :
    Leads (codeEscape code) ⟨.quoted reversed, progress⟩
      ⟨.quoted (.character (Char.ofNat code) :: reversed), progress⟩ := by
  have digit (rest : Nat) : rest % 16 < 16 := Nat.mod_lt _ (by decide)
  have step (missing value rest : Nat) (more : 1 < missing) :
      Reader.next ⟨.code reversed missing value, progress⟩ (rest % 16).digitChar =
        .ok ⟨.code reversed (missing - 1) (16 * value + rest % 16), progress⟩ := by
    simp only [Reader.next, (hexadecimalValue?_digitChar (digit rest)).1, if_neg (Nat.not_le.mpr more)]
  have last (value rest : Nat) (whole : 16 * value + rest % 16 = code) :
      Reader.next ⟨.code reversed 1 value, progress⟩ (rest % 16).digitChar =
        .ok ⟨.quoted (.character (Char.ofNat code) :: reversed), progress⟩ := by
    simp only [Reader.next, (hexadecimalValue?_digitChar (digit rest)).1, Nat.le_refl, if_true, whole,
      addCode_character below]
  refine .cons rfl (by decide) (.cons rfl (by decide) ?_)
  simp only [Text.hexadecimal, List.nil_append, List.cons_append]
  refine .cons (step 4 0 _ (by decide)) (hexadecimalValue?_digitChar (digit _)).2
    (.cons (step 3 _ _ (by decide)) (hexadecimalValue?_digitChar (digit _)).2
      (.cons (step 2 _ _ (by decide)) (hexadecimalValue?_digitChar (digit _)).2
        (.single (last _ _ ?_) (hexadecimalValue?_digitChar (digit _)).2)))
  omega

theorem escapedCharacter_leads (character : Char) (reversed : Text) (progress : Progress) :
    Leads (escapedCharacter character) ⟨.quoted reversed, progress⟩
      ⟨.quoted (.character character :: reversed), progress⟩ := by
  have escaped {mark : Char} (simple : simpleEscape? mark = some character) (other : mark ≠ '\r')
      (short : mark ≠ 'u') : Leads ['\\', mark] ⟨.quoted reversed, progress⟩
        ⟨.quoted (.character character :: reversed), progress⟩ := by
    refine .cons rfl (by decide) (.single ?_ other)
    simp only [Reader.next, if_neg short, simple]
  unfold escapedCharacter
  split_ifs with quote backslash newline carriage tab backspace formFeed control
  any_goals
    subst character
    exact escaped rfl (by decide) (by decide)
  · have code := codeEscape_leads (Nat.lt_trans control (by decide)) reversed progress
    rwa [Char.ofNat_toNat] at code
  · refine .single ?_ carriage
    simp only [Reader.next, if_neg quote, if_neg backslash, if_neg control]

theorem escapedText_leads (characters : List Char) (reversed : Text) (progress : Progress) :
    Leads ((Text.ofCharacters characters).flatMap escapedCodePoint) ⟨.quoted reversed, progress⟩
      ⟨.quoted ((Text.ofCharacters characters).reverse ++ reversed), progress⟩ := by
  induction characters generalizing reversed with
  | nil => exact .nil _
  | cons character rest ih =>
      have more := ih (.character character :: reversed)
      simp only [Text.ofCharacters, List.map_cons, List.flatMap_cons, List.reverse_cons, List.append_assoc,
        List.singleton_append] at more ⊢
      exact (escapedCharacter_leads character reversed progress).append more

theorem writtenText_leads {text : String} (taken : progress.step (.text text) = .ok after) :
    Leads (writtenText text).toList ⟨.nothing, progress⟩ ⟨.nothing, after⟩ := by
  rw [writtenText, String.toList_ofList]
  refine .cons rfl (by decide) (.append (escapedText_leads text.toList [] progress) (.single ?_ (by decide)))
  simp only [Reader.next, if_true, List.append_nil, List.reverse_reverse]
  exact congrArg (Except.map (Reader.mk .nothing)) taken

end

/-! Data. -/

def Readable (datum : Datum) : Prop :=
  ∀ depth progress containers, Ready progress containers →
    ∃ reader, Leads (writeAt depth datum).toList ⟨.nothing, progress⟩ reader ∧
      reader.Settles (.complete datum containers)

theorem readable_boolean (value : Bool) : Readable (.boolean value) := by
  intro depth progress containers ready
  rw [writeAt]
  cases value
  · exact word_leads rfl (by decide) (List.all_eq_true.mp rfl) ready
  · exact word_leads rfl (by decide) (List.all_eq_true.mp rfl) ready

theorem readable_real (value : Number) : Readable (.real value) := by
  intro depth progress containers ready
  have read := ofWord_documentText value
  rw [writeAt]
  refine word_leads read ?_ (documentText_isWordCharacter value) ready
  intro empty
  rw [empty] at read
  cases read

theorem readable_text (text : String) : Readable (.text text) := by
  intro depth progress containers ready
  rw [writeAt]
  exact ⟨_, writtenText_leads (ready.step (nofun : Token.text text ≠ .closeList)), .nothing _⟩

theorem writeItems_leads {items : List Datum} (each : ∀ item ∈ items, Readable item) (depth : Nat)
    {before : Reader} {value : Datum} {earlier : List Datum} {outer : List Container}
    (settles : before.Settles (.complete value (.list earlier :: outer))) :
    ∃ reader last others, Leads (writeItems depth items).toList before reader ∧
      reader.Settles (.complete last (.list others :: outer)) ∧
      last :: others = items.reverse ++ value :: earlier := by
  induction items generalizing before value earlier with
  | nil => exact ⟨before, value, earlier, .nil before, settles, rfl⟩
  | cons item rest ih =>
      obtain ⟨here, later⟩ := List.forall_mem_cons.mp each
      have comma := settles.mark .comma rfl
      have line := (Reader.Settles.nothing (.valueDue (.list (value :: earlier) :: outer))).lineBreak depth
      obtain ⟨reader, leads, settles⟩ := here depth _ _ (.valueDue (.list (value :: earlier) :: outer))
      obtain ⟨final, last, others, more, settled, same⟩ := ih later settles
      refine ⟨final, last, others, ?_, settled, by simp [same]⟩
      simp only [writeItems, String.toList_append]
      exact ((comma.append line).append leads).append more

theorem readable_list {items : List Datum} (each : ∀ item ∈ items, Readable item) :
    Readable (.list items) := by
  intro depth progress containers ready
  have opening : progress.step .openList = .ok (.listStart containers) := ready.step nofun
  have opened := (Reader.Settles.nothing progress).mark .openList opening
  cases items with
  | nil =>
      rw [writeAt]
      exact ⟨_, opened.append ((Reader.Settles.nothing _).mark .closeList rfl), .nothing _⟩
  | cons first rest =>
      obtain ⟨here, later⟩ := List.forall_mem_cons.mp each
      have line := (Reader.Settles.nothing (.listStart containers)).lineBreak (depth + 1)
      obtain ⟨reader, leads, settles⟩ := here (depth + 1) _ _ (.listStart containers)
      obtain ⟨final, last, others, more, settled, same⟩ := writeItems_leads later (depth + 1) settles
      have finished := settled.lineBreak depth
      have closed := (Reader.Settles.nothing (.complete last (.list others :: containers))).mark
        .closeList rfl
      have whole : (last :: others).reverse = first :: rest := by simp [same]
      rw [whole] at closed
      refine ⟨_, ?_, .nothing _⟩
      simp only [writeAt, String.toList_append]
      exact ((((opened.append line).append leads).append more).append finished).append closed

theorem colon_leads (members : List (Text × Datum)) (name : Text) (outer : List Container) :
    Leads ": ".toList ⟨.nothing, .colonDue members name outer⟩
      ⟨.nothing, .valueDue (.object members name :: outer)⟩ :=
  ((Reader.Settles.nothing _).mark .colon rfl).append (blanks_lead 1 _)

theorem writeMembers_leads {members : List (Text × Datum)}
    (named : ∀ member ∈ members, ∃ name : String, member.1 = name)
    (each : ∀ member ∈ members, Readable member.2) (depth : Nat)
    {before : Reader} {name : Text} {value : Datum} {earlier : List (Text × Datum)}
    {outer : List Container} (settles : before.Settles (.complete value (.object earlier name :: outer))) :
    ∃ reader lastName last others, Leads (writeMembers depth members).toList before reader ∧
      reader.Settles (.complete last (.object others lastName :: outer)) ∧
      (lastName, last) :: others = members.reverse ++ (name, value) :: earlier := by
  induction members generalizing before name value earlier with
  | nil => exact ⟨before, name, value, earlier, .nil before, settles, rfl⟩
  | cons member rest ih =>
      obtain ⟨here, later⟩ := List.forall_mem_cons.mp each
      obtain ⟨⟨text, same⟩, texts⟩ := List.forall_mem_cons.mp named
      obtain ⟨memberName, item⟩ := member
      obtain rfl := same
      have comma := settles.mark .comma rfl
      have line := (Reader.Settles.nothing (.nameDue ((name, value) :: earlier) outer)).lineBreak depth
      have quoted := writtenText_leads
        (rfl : Progress.step (.nameDue ((name, value) :: earlier) outer) (.text (Text.ofString text)) = _)
      have colon := colon_leads ((name, value) :: earlier) text outer
      obtain ⟨reader, leads, settles⟩ :=
        here depth _ _ (.valueDue (.object ((name, value) :: earlier) text :: outer))
      obtain ⟨final, lastName, last, others, more, settled, same⟩ := ih texts later settles
      refine ⟨final, lastName, last, others, ?_, settled, by simp [same]⟩
      simp only [writeMembers, String.toList_append]
      exact ((((comma.append line).append quoted).append colon).append leads).append more

theorem setMember_fresh {members : List (Text × Datum)} {name : Text}
    (fresh : name ∉ members.map Prod.fst) (value : Datum) :
    setMember members name value = members ++ [(name, value)] := by
  induction members with
  | nil => rfl
  | cons first rest ih =>
      obtain ⟨other, later⟩ := List.ne_and_not_mem_of_not_mem_cons fresh
      rw [setMember, if_neg other.symm, ih later, List.cons_append]

theorem foldl_setMember (members : List (Text × Datum)) {earlier : List (Text × Datum)}
    (distinct : ((earlier ++ members).map Prod.fst).Nodup) :
    members.foldl (fun earlier member => setMember earlier member.1 member.2) earlier =
      earlier ++ members := by
  induction members generalizing earlier with
  | nil => simp
  | cons first rest ih =>
      have fresh : first.1 ∉ earlier.map Prod.fst := by
        rw [List.map_append, List.map_cons] at distinct
        intro inside
        exact (List.nodup_append.mp distinct).2.2 _ inside _ List.mem_cons_self rfl
      rw [List.foldl_cons, setMember_fresh fresh, ih (by simpa using distinct)]
      simp

/-- Names that are told apart give back the members as they were written. -/
theorem ofMembers_distinct {members : List (Text × Datum)} (distinct : (members.map Prod.fst).Nodup) :
    ofMembers members = .object members :=
  congrArg Datum.object (foldl_setMember members distinct)

theorem readable_object {members : List (Text × Datum)} (distinct : (members.map Prod.fst).Nodup)
    (named : ∀ member ∈ members, ∃ name : String, member.1 = name)
    (each : ∀ member ∈ members, Readable member.2) : Readable (.object members) := by
  intro depth progress containers ready
  have opening : progress.step .openObject = .ok (.objectStart containers) := ready.step nofun
  have opened := (Reader.Settles.nothing progress).mark .openObject opening
  cases members with
  | nil =>
      rw [writeAt]
      exact ⟨_, opened.append ((Reader.Settles.nothing _).mark .closeObject rfl), .nothing _⟩
  | cons first rest =>
      obtain ⟨here, later⟩ := List.forall_mem_cons.mp each
      obtain ⟨⟨text, same⟩, texts⟩ := List.forall_mem_cons.mp named
      obtain ⟨firstName, value⟩ := first
      obtain rfl := same
      have line := (Reader.Settles.nothing (.objectStart containers)).lineBreak (depth + 1)
      have quoted := writtenText_leads
        (rfl : Progress.step (.objectStart containers) (.text (Text.ofString text)) = _)
      have colon := colon_leads [] text containers
      obtain ⟨reader, leads, settles⟩ := here (depth + 1) _ _ (.valueDue (.object [] text :: containers))
      obtain ⟨final, lastName, last, others, more, settled, same⟩ :=
        writeMembers_leads texts later (depth + 1) settles
      have finished := settled.lineBreak depth
      have closed := (Reader.Settles.nothing (.complete last (.object others lastName :: containers))).mark
        .closeObject rfl
      have whole : ((lastName, last) :: others).reverse = (↑text, value) :: rest := by simp [same]
      rw [whole, ofMembers_distinct distinct] at closed
      refine ⟨_, ?_, .nothing _⟩
      simp only [writeAt, String.toList_append]
      exact ((((((opened.append line).append quoted).append colon).append leads).append more).append
        finished).append closed

theorem Readable.read_write {datum : Datum} (readable : Readable datum) :
    Datum.read datum.write = .ok datum := by
  obtain ⟨reader, leads, settles⟩ := readable 0 _ _ (.valueDue [])
  rw [Datum.read, write, leads.read]
  cases settles with
  | nothing progress => rfl
  | word taken => simp only [Reader.finish, taken]

theorem Readable.unbroken {datum : Datum} (readable : Readable datum) : '\r' ∉ datum.write.toList := by
  obtain ⟨reader, leads, -⟩ := readable 0 _ _ (.valueDue [])
  exact leads.unbroken

end Bella.Datum

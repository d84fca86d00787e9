import Bella.Command.Path
import Mathlib.Data.List.Basic

/-! The written forms of paths. Main statements: the text of a path leads to the path, and what is added to
the text of a path is added to its last part. -/

namespace Bella.Path

structure Canonical (path : Path) : Prop where
  rooted : path.root ∈ ["", "/", "//"]
  proper : ∀ part ∈ path.parts, part ≠ "" ∧ part ≠ "." ∧ '/' ∉ part.toList

section

variable {characters more : List Char} {path : Path} {text ending : String}

theorem splitParts_slash (rest : List Char) : splitParts ('/' :: rest) = [] :: splitParts rest := rfl

theorem splitParts_other {character : Char} (other : character ≠ '/') (rest : List Char) :
    splitParts (character :: rest) =
      match splitParts rest with
      | first :: others => (character :: first) :: others
      | [] => [[character]] :=
  splitParts.eq_3 character rest other

theorem splitParts_eq_splitOn (characters : List Char) :
    splitParts characters = characters.splitOn '/' := by
  induction characters with
  | nil => rfl
  | cons character rest ih =>
      rw [List.splitOn_cons_eq_if_modifyHead, ← ih]
      by_cases slash : character = '/'
      · rw [slash, splitParts_slash]
        rfl
      · rw [splitParts_other slash, if_neg (by simpa using slash)]
        cases none : splitParts rest with
        | nil => exact absurd (ih.symm.trans none) (List.splitOn_ne_nil _ _)
        | cons first others => rfl

theorem splitParts_grows {character : Char} (other : character ≠ '/') (rest : List Char) :
    ∃ first others, splitParts rest = first :: others ∧
      splitParts (character :: rest) = (character :: first) :: others := by
  have filled : splitParts rest ≠ [] := splitParts_eq_splitOn rest ▸ List.splitOn_ne_nil _ _
  obtain ⟨first, others, split⟩ := List.exists_cons_of_ne_nil filled
  exact ⟨first, others, split, by rw [splitParts_other other, split]⟩

theorem splitParts_slashless : ∀ piece ∈ splitParts characters, '/' ∉ piece := by
  induction characters with
  | nil => simp [splitParts]
  | cons character rest ih =>
      by_cases slash : character = '/'
      · subst slash
        rw [splitParts_slash]
        exact List.forall_mem_cons.mpr ⟨List.not_mem_nil, ih⟩
      · obtain ⟨first, others, split, whole⟩ := splitParts_grows slash rest
        rw [split] at ih
        obtain ⟨here, later⟩ := List.forall_mem_cons.mp ih
        rw [whole]
        exact List.forall_mem_cons.mpr ⟨List.not_mem_cons_of_ne_of_not_mem (Ne.symm slash) here, later⟩

theorem splitParts_append (slashless : '/' ∉ more) (characters : List Char) :
    ∃ earlier last, splitParts characters = earlier ++ [last] ∧
      splitParts (characters ++ more) = earlier ++ [last ++ more] := by
  induction characters with
  | nil =>
      refine ⟨[], [], rfl, ?_⟩
      rw [splitParts_eq_splitOn, List.nil_append]
      exact List.splitOn_eq_singleton slashless
  | cons character rest ih =>
      obtain ⟨earlier, last, split, added⟩ := ih
      by_cases slash : character = '/'
      · subst slash
        refine ⟨[] :: earlier, last, ?_, ?_⟩
        · rw [splitParts_slash, split, List.cons_append]
        · rw [List.cons_append, splitParts_slash, added, List.cons_append]
      · obtain ⟨first, others, one, whole⟩ := splitParts_grows slash rest
        obtain ⟨head, tail, two, also⟩ := splitParts_grows slash (rest ++ more)
        rw [List.cons_append, whole, also]
        rw [split] at one
        rw [added] at two
        cases earlier with
        | nil =>
            obtain ⟨rfl, rfl⟩ := List.cons.inj one
            obtain ⟨rfl, rfl⟩ := List.cons.inj two
            exact ⟨[], character :: last, rfl, rfl⟩
        | cons piece pieces =>
            obtain ⟨rfl, rfl⟩ := List.cons.inj one
            obtain ⟨rfl, rfl⟩ := List.cons.inj two
            exact ⟨(character :: piece) :: pieces, last, rfl, rfl⟩

theorem rootOf_mem (characters : List Char) : rootOf characters ∈ ["", "/", "//"] := by
  unfold rootOf
  split <;> simp

theorem rootOf_none {character : Char} (other : character ≠ '/') (rest : List Char) :
    rootOf (character :: rest) = "" := by
  simp [rootOf, other]

theorem rootOf_one {character : Char} (other : character ≠ '/') (rest : List Char) :
    rootOf ('/' :: character :: rest) = "/" := by
  simp [rootOf, other]

theorem rootOf_two {character : Char} (other : character ≠ '/') (rest : List Char) :
    rootOf ('/' :: '/' :: character :: rest) = "//" := by
  simp [rootOf, other]

theorem rootOf_append (filled : characters ≠ []) (slashless : '/' ∉ more) :
    rootOf (characters ++ more) = rootOf characters := by
  cases more with
  | nil => rw [List.append_nil]
  | cons next others =>
      have other : next ≠ '/' := (List.ne_of_not_mem_cons slashless).symm
      obtain ⟨first, rest, rfl⟩ := List.exists_cons_of_ne_nil filled
      by_cases one : first = '/'
      · subst one
        rcases rest with - | ⟨second, rest⟩
        · exact rootOf_one other others
        · by_cases two : second = '/'
          · subst two
            rcases rest with - | ⟨third, rest⟩
            · exact rootOf_two other others
            · by_cases three : third = '/'
              · subst three
                rfl
              · exact (rootOf_two three _).trans (rootOf_two three _).symm
          · exact (rootOf_one two _).trans (rootOf_one two _).symm
      · exact (rootOf_none one _).trans (rootOf_none one _).symm

theorem ofText_parts (text : String) : (ofText text).parts =
    ((splitParts text.toList).map String.ofList).filter fun part => part != "" && part != "." := rfl

theorem ofText_canonical (text : String) : (ofText text).Canonical := by
  refine ⟨rootOf_mem _, fun part inside => ?_⟩
  rw [ofText_parts, List.mem_filter, List.mem_map] at inside
  obtain ⟨⟨piece, listed, rfl⟩, proper⟩ := inside
  rw [Bool.and_eq_true, bne_iff_ne, bne_iff_ne] at proper
  exact ⟨proper.1, proper.2, by simpa using splitParts_slashless piece listed⟩

theorem keeps_iff (piece : List Char) :
    (String.ofList piece != "" && String.ofList piece != ".") = true ↔ piece ≠ [] ∧ piece ≠ ['.'] := by
  have same (text : String) : String.ofList piece = text ↔ piece = text.toList := by
    rw [← String.toList_inj, String.toList_ofList]
  rw [Bool.and_eq_true, bne_iff_ne, bne_iff_ne, ne_eq, ne_eq, same, same]
  rfl

theorem filter_kept {piece : List Char} (proper : piece ≠ [] ∧ piece ≠ ['.']) :
    [String.ofList piece].filter (fun part => part != "" && part != ".") = [String.ofList piece] :=
  List.filter_cons_of_pos ((keeps_iff piece).mpr proper)

theorem ofText_append {last : List Char} (piece : (splitParts text.toList).getLast? = some last)
    (proper : last ≠ [] ∧ last ≠ ['.']) (slashless : '/' ∉ ending.toList)
    (longer : 1 < ending.toList.length) : ofText (text ++ ending) = (ofText text).withEnding ending := by
  obtain ⟨earlier, found, split, added⟩ := splitParts_append slashless text.toList
  rw [split, List.getLast?_concat] at piece
  obtain rfl := Option.some.inj piece
  have filled : text.toList ≠ [] := by
    intro none
    rw [none] at split
    have alone : [[]] = earlier ++ [found] := split
    have last := congrArg List.getLast? alone
    rw [List.getLast?_concat] at last
    exact proper.1 (Option.some.inj last).symm
  have ended : found ++ ending.toList ≠ [] ∧ found ++ ending.toList ≠ ['.'] := by
    have length : 1 < (found ++ ending.toList).length := by
      rw [List.length_append]
      omega
    refine ⟨?_, ?_⟩ <;> (intro same; rw [same] at length; simp at length)
  have whole := filter_kept ended
  rw [String.ofList_append, String.ofList_toList] at whole
  rw [ofText, ofText, String.toList_append, rootOf_append filled slashless, split, added]
  simp only [withEnding, List.map_append, List.map_cons, List.map_nil, List.filter_append, filter_kept proper,
    whole, List.reverse_append, List.reverse_singleton, List.singleton_append,
    List.reverse_reverse, String.ofList_append, String.ofList_toList]

theorem Canonical.withEnding (canonical : path.Canonical) (slashless : '/' ∉ ending.toList)
    (longer : 1 < ending.toList.length) : (path.withEnding ending).Canonical := by
  obtain ⟨root, parts⟩ := path
  obtain ⟨rooted, proper⟩ := canonical
  rcases List.eq_nil_or_concat parts with rfl | ⟨before, last, rfl⟩
  · exact ⟨rooted, proper⟩
  · have beside : Path.withEnding ⟨root, before.concat last⟩ ending =
        ⟨root, before ++ [last ++ ending]⟩ := by
      simp [Path.withEnding]
    simp only [List.concat_eq_append] at proper
    rw [beside]
    refine ⟨rooted, fun part inside => ?_⟩
    rcases List.mem_append.mp inside with inside | inside
    · exact proper part (List.mem_append_left _ inside)
    · obtain rfl := List.mem_singleton.mp inside
      have clean := (proper last (List.mem_append_right _ List.mem_cons_self)).2.2
      have length : 1 < (last ++ ending).toList.length := by
        rw [String.toList_append, List.length_append]
        omega
      refine ⟨?_, ?_, ?_⟩
      · intro same
        rw [same] at length
        simp at length
      · intro same
        rw [same] at length
        simp at length
      · rw [String.toList_append]
        exact List.not_mem_append clean slashless

theorem intercalate_begins (separator piece : List Char) (others : List (List Char)) :
    ∃ tail, separator.intercalate (piece :: others) = piece ++ tail := by
  cases others with
  | nil => exact ⟨[], by rw [List.intercalate_singleton, List.append_nil]⟩
  | cons next rest => exact ⟨_, by rw [List.intercalate_cons_cons, List.append_assoc]⟩

theorem ofText_text (canonical : path.Canonical) (filled : path.parts ≠ []) :
    ofText path.text = path := by
  obtain ⟨root, parts⟩ := path
  obtain ⟨rooted, proper⟩ := canonical
  have slashless : ∀ piece ∈ parts.map String.toList, '/' ∉ piece := by
    intro piece inside
    obtain ⟨part, listed, rfl⟩ := List.mem_map.mp inside
    exact (proper part listed).2.2
  have pieces : splitParts (['/'].intercalate (parts.map String.toList)) = parts.map String.toList := by
    rw [splitParts_eq_splitOn]
    exact List.splitOn_intercalate '/' slashless (by simpa using filled)
  have kept : parts.filter (fun part => part != "" && part != ".") = parts := by
    refine List.filter_eq_self.mpr fun part listed => ?_
    simp [(proper part listed).1, (proper part listed).2.1]
  obtain ⟨first, rest, body, other⟩ : ∃ first rest,
      ['/'].intercalate (parts.map String.toList) = first :: rest ∧ first ≠ '/' := by
    obtain ⟨part, others, rfl⟩ := List.exists_cons_of_ne_nil filled
    obtain ⟨nonempty, -, clean⟩ := proper part List.mem_cons_self
    obtain ⟨first, letters, spelled⟩ := List.exists_cons_of_ne_nil
      (mt String.toList_eq_nil_iff.mp nonempty)
    rw [spelled] at clean
    obtain ⟨tail, begins⟩ := intercalate_begins ['/'] part.toList (others.map String.toList)
    refine ⟨first, letters ++ tail, ?_, (List.ne_of_not_mem_cons clean).symm⟩
    rw [List.map_cons, begins, spelled, List.cons_append]
  have relative : (splitParts (first :: rest)).map String.ofList = parts := by
    rw [← body, pieces, List.map_map]
    simp
  have shown : (text ⟨root, parts⟩).toList = root.toList ++ (first :: rest) := by
    simp [text, filled, body]
  rw [ofText, shown]
  simp only [List.mem_cons, List.not_mem_nil, or_false] at rooted
  rcases rooted with rfl | rfl | rfl
  · rw [String.toList_empty, List.nil_append, rootOf_none other, relative, kept]
  · have slash : "/".toList ++ first :: rest = '/' :: first :: rest := rfl
    rw [slash, rootOf_one other, splitParts_slash, List.map_cons, relative, List.filter_cons_of_neg (by decide),
      kept]
  · have slashes : "//".toList ++ first :: rest = '/' :: '/' :: first :: rest := rfl
    rw [slashes, rootOf_two other, splitParts_slash, splitParts_slash, List.map_cons, List.map_cons, relative,
      List.filter_cons_of_neg (by decide), List.filter_cons_of_neg (by decide), kept]

end

end Bella.Path

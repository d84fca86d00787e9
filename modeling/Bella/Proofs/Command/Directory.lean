import Bella.Command
import Mathlib.Data.List.Basic

/-! Working directories under writes. A write changes one file and leaves every path leading where it led
before. Main statement: commands that write the same files keep two directories alike beside a file. -/

namespace Bella.Directory

structure AlikeBeside (place : List String) (first second : Directory) : Prop where
  files : ∀ parts, parts ≠ place → first.fileAt? parts = second.fileAt? parts
  directories : ∀ parts, first.isDirectory parts = second.isDirectory parts
  unreadable : first.unreadable = second.unreadable
  unwritable : first.unwritable = second.unwritable

inductive Holds (directory : Directory) : Location → Prop
  | outside (steps : Nat) : Holds directory (.outside steps)
  | whole {parts : List String} (here : directory.isDirectory parts = true) :
      Holds directory (.inside parts)
  | entry {earlier : List String} (within : directory.isDirectory earlier = true) (last : String) :
      Holds directory (.inside (earlier ++ [last]))

section

variable {directory first second after : Directory} {place parts other earlier : List String}
  {location destination : Location} {path : Path} {content : ByteArray}
  {files : List (List String × ByteArray)}

theorem fileAt?_setFile (directory : Directory) (parts other : List String) (content : ByteArray) :
    fileAt? { directory with files := setFile parts content directory.files } other =
      if other = parts then some content else directory.fileAt? other := by
  obtain ⟨files, unreadable, unwritable⟩ := directory
  induction files with
  | nil =>
      by_cases same : other = parts
      · simp [fileAt?, setFile, same]
      · simp [fileAt?, setFile, same, Ne.symm same]
  | cons entry rest ih =>
      obtain ⟨place, old⟩ := entry
      simp only [fileAt?] at ih ⊢
      by_cases here : place = parts
      · subst here
        by_cases same : other = place
        · simp [setFile, same]
        · simp [setFile, same, Ne.symm same]
      · rw [setFile, if_neg here]
        by_cases found : place = other
        · subst found
          simp [here]
        · simpa [List.find?_cons, found] using ih

theorem any_setFile (files : List (List String × ByteArray)) (parts : List String) (content : ByteArray)
    (holds : List String → Bool) :
    (setFile parts content files).any (fun entry => holds entry.1) =
      (files.any (fun entry => holds entry.1) || holds parts) := by
  induction files with
  | nil => simp [setFile]
  | cons entry rest ih =>
      obtain ⟨place, old⟩ := entry
      by_cases here : place = parts
      · subst here
        simp only [setFile, if_true, List.any_cons]
        cases holds place <;> simp
      · rw [setFile, if_neg here, List.any_cons, ih, List.any_cons, Bool.or_assoc]

theorem isDirectory_iff : directory.isDirectory parts = true ↔
    parts = [] ∨ ∃ entry ∈ directory.files, parts <+: entry.1 ∧ parts.length < entry.1.length := by
  simp [isDirectory]

theorem isDirectory_above (before : earlier <+: parts) (here : directory.isDirectory parts = true) :
    directory.isDirectory earlier = true := by
  rcases isDirectory_iff.mp here with rfl | ⟨entry, inside, covers, longer⟩
  · exact isDirectory_iff.mpr (.inl (List.prefix_nil.mp before))
  · exact isDirectory_iff.mpr (.inr ⟨entry, inside, before.trans covers,
      Nat.lt_of_le_of_lt before.length_le longer⟩)

theorem isDirectory_setFile {last : String} (within : directory.isDirectory earlier = true) :
    isDirectory { directory with files := setFile (earlier ++ [last]) content directory.files } parts =
      directory.isDirectory parts := by
  have written := any_setFile directory.files (earlier ++ [last]) content fun other =>
    parts.isPrefixOf other && decide (parts.length < other.length)
  rw [isDirectory, written]
  by_cases above : (parts.isPrefixOf (earlier ++ [last]) &&
      decide (parts.length < (earlier ++ [last]).length)) = true
  · have before : parts <+: earlier := by
      simp only [Bool.and_eq_true, List.isPrefixOf_iff_prefix, decide_eq_true_eq, List.length_append,
        List.length_singleton] at above
      exact List.prefix_of_prefix_length_le above.1 (List.prefix_append _ _) (by omega)
    rw [isDirectory_above before within, above, Bool.or_true, Bool.or_true]
  · rw [Bool.not_eq_true _ |>.mp above, Bool.or_false, isDirectory]

theorem follow_congr (same : ∀ parts, first.isDirectory parts = second.isDirectory parts)
    (location : Location) (parts : List String) :
    first.follow location parts = second.follow location parts := by
  induction parts generalizing location with
  | nil => rfl
  | cons part rest ih =>
      cases location with
      | outside steps => simp only [follow, ih]
      | inside parts => simp only [follow, ih, same]

theorem AlikeBeside.locate (alike : AlikeBeside place first second) (path : Path) :
    first.locate path = second.locate path := by
  rw [Directory.locate, Directory.locate, follow_congr alike.directories]

theorem AlikeBeside.lookup (alike : AlikeBeside place first second)
    (clear : first.locate path ≠ some (.inside place)) : first.lookup path = second.lookup path := by
  rw [Directory.lookup, Directory.lookup, ← alike.locate path]
  split
  · rfl
  · rename_i parts found
    rw [alike.directories, alike.unreadable, alike.files parts fun same => clear (same ▸ found)]
  · rfl

theorem AlikeBeside.writingPlace (alike : AlikeBeside place first second) (path : Path) :
    first.writingPlace path = second.writingPlace path := by
  simp only [Directory.writingPlace, alike.locate path, alike.directories, alike.unwritable]

theorem AlikeBeside.refl (place : List String) (directory : Directory) :
    AlikeBeside place directory directory :=
  ⟨fun _ _ => rfl, fun _ => rfl, rfl, rfl⟩

theorem follow_append (directory : Directory) (location : Location) (parts more : List String) :
    directory.follow location (parts ++ more) =
      (directory.follow location parts).bind fun reached => directory.follow reached more := by
  induction parts generalizing location with
  | nil => rfl
  | cons part rest ih =>
      cases location with
      | outside steps =>
          simp only [List.cons_append, follow]
          split
          · exact ih _
          · rfl
      | inside parts =>
          simp only [List.cons_append, follow]
          split
          · split
            · exact ih _
            · exact ih _
          · rfl

theorem follow_holds (holds : directory.Holds location)
    (reached : directory.follow location parts = some destination) : directory.Holds destination := by
  induction parts generalizing location with
  | nil =>
      obtain rfl := Option.some.inj reached
      exact holds
  | cons part rest ih =>
      cases location with
      | outside steps =>
          simp only [follow] at reached
          split at reached
          · exact ih (.outside _) reached
          · cases reached
      | inside parts =>
          simp only [follow] at reached
          split at reached
          · rename_i here
            split at reached
            · refine ih ?_ reached
              split
              · exact .outside 1
              · exact .whole (isDirectory_above (List.dropLast_prefix parts) here)
            · exact ih (.entry here part) reached
          · cases reached

theorem locate_holds (located : directory.locate path = some location) : directory.Holds location := by
  rw [locate] at located
  split at located
  · exact follow_holds (.whole (isDirectory_iff.mpr (.inl rfl))) located
  · split at located
    · cases located
      exact .outside 1
    · cases located

theorem lookup_of_locate (located : directory.locate path = some (.inside parts)) :
    directory.lookup path =
      if directory.isDirectory parts then .directory
      else match directory.fileAt? parts with
        | some content => if parts ∈ directory.unreadable then .unreadable else .file content
        | none => .missing := by
  rw [lookup]
  split
  · rename_i outside
    cases located.symm.trans outside
  · rename_i inside
    obtain rfl := Location.inside.inj (Option.some.inj (located.symm.trans inside))
    rfl
  · rename_i nowhere
    cases located.symm.trans nowhere

theorem writingPlace_ok_iff : directory.writingPlace path = .ok place ↔
    directory.locate path = some (.inside place) ∧ ¬directory.isDirectory place = true ∧
      place ∉ directory.unwritable := by
  rw [writingPlace]
  split
  · simp [*]
  · rename_i parts located
    rw [located, Option.some.injEq, Location.inside.injEq]
    split
    · simp only [reduceCtorEq, false_iff, not_and]
      rintro rfl file
      contradiction
    · split
      · simp only [reduceCtorEq, false_iff, not_and]
        rintro rfl - open_
        contradiction
      · simp only [Except.ok.injEq]
        constructor
        · rintro rfl
          exact ⟨rfl, ‹_›, ‹_›⟩
        · exact And.left
  · simp [*]

theorem write_alikeBeside (opened : directory.writingPlace path = .ok place) (content : ByteArray) :
    ∃ after, directory.write path content = .ok after ∧ AlikeBeside place after directory ∧
      after.fileAt? place = some content ∧
      after.lookup path = if place ∈ directory.unreadable then .unreadable else .file content := by
  obtain ⟨located, file, -⟩ := writingPlace_ok_iff.mp opened
  refine ⟨_, by rw [write, opened]; rfl, ?_⟩
  have stored := fileAt?_setFile directory place place content
  rw [if_pos rfl] at stored
  have alike : AlikeBeside place { directory with files := setFile place content directory.files }
      directory := by
    cases locate_holds located with
    | whole here => exact absurd here file
    | entry within last =>
        refine ⟨fun parts other => ?_, fun parts => isDirectory_setFile within, rfl, rfl⟩
        rw [fileAt?_setFile, if_neg other]
  have found := lookup_of_locate ((alike.locate path).trans located)
  rw [alike.directories, if_neg file, stored] at found
  exact ⟨alike, stored, found⟩

theorem write_refused {obstacle : Obstacle} (refused : directory.writingPlace path = .error obstacle)
    (content : ByteArray) : directory.write path content = .error obstacle := by
  rw [write, refused]
  rfl

theorem lookup_file (found : directory.lookup path = .file content) :
    ∃ parts, directory.locate path = some (.inside parts) ∧ directory.isDirectory parts ≠ true ∧
      directory.fileAt? parts = some content := by
  rw [lookup] at found
  split at found
  · cases found
  · rename_i parts located
    split at found
    · cases found
    · rename_i file
      split at found
      · rename_i stored
        split at found
        · cases found
        · obtain rfl := Entry.file.inj found
          exact ⟨parts, located, file, stored⟩
      · cases found
  · cases found

theorem locate_parts (located : directory.locate path = some (.inside parts))
    (file : directory.isDirectory parts ≠ true) :
    ∃ before earlier last, path.root = "" ∧ path.parts = before ++ [last] ∧ parts = earlier ++ [last] ∧
      directory.follow (.inside []) before = some (.inside earlier) ∧
      directory.isDirectory earlier = true := by
  have top : directory.isDirectory [] = true := isDirectory_iff.mpr (.inl rfl)
  rw [locate] at located
  split at located
  · rename_i relative
    rcases List.eq_nil_or_concat path.parts with none | ⟨before, last, whole⟩
    · rw [none] at located
      obtain rfl := Location.inside.inj (Option.some.inj located)
      exact absurd top file
    · rw [List.concat_eq_append] at whole
      rw [whole, follow_append] at located
      obtain ⟨reached, followed, ended⟩ := Option.bind_eq_some_iff.mp located
      cases reached with
      | outside steps =>
          simp only [follow] at ended
          split at ended <;> cases ended
      | inside earlier =>
          simp only [follow] at ended
          split at ended
          · rename_i within
            split at ended
            · split at ended
              · cases ended
              · obtain rfl := Location.inside.inj (Option.some.inj ended)
                exact absurd (isDirectory_above (List.dropLast_prefix earlier) within) file
            · obtain rfl := Location.inside.inj (Option.some.inj ended)
              exact ⟨before, earlier, last, relative, whole, rfl, followed, within⟩
          · cases ended
  · split at located <;> cases located

theorem locate_withEnding (located : directory.locate path = some (.inside parts))
    (file : directory.isDirectory parts ≠ true) {ending : String}
    (proper : ∀ last : String, last ++ ending ≠ "..") :
    ∃ earlier last, parts = earlier ++ [last] ∧
      directory.locate (path.withEnding ending) = some (.inside (earlier ++ [last ++ ending])) := by
  obtain ⟨before, earlier, last, relative, whole, rfl, followed, within⟩ := locate_parts located file
  refine ⟨earlier, last, rfl, ?_⟩
  have beside : path.withEnding ending = ⟨path.root, before ++ [last ++ ending]⟩ := by
    simp [Path.withEnding, whole]
  rw [beside, locate, if_pos relative, follow_append, followed]
  simp [follow, within, proper last]

/-- A write fails in both directories alike or keeps them alike. -/
theorem AlikeBeside.write (alike : AlikeBeside place first second) (path : Path) (content : ByteArray) :
    (∃ obstacle, first.write path content = .error obstacle ∧
        second.write path content = .error obstacle) ∨
      ∃ next following, first.write path content = .ok next ∧
        second.write path content = .ok following ∧ AlikeBeside place next following := by
  have opened := alike.writingPlace path
  cases there : first.writingPlace path with
  | error obstacle =>
      exact .inl ⟨obstacle, write_refused there content, write_refused (opened ▸ there) content⟩
  | ok parts =>
      obtain ⟨next, one, nextAlike, stored, -⟩ := write_alikeBeside there content
      obtain ⟨following, two, followingAlike, alsoStored, -⟩ :=
        write_alikeBeside (opened.symm.trans there) content
      refine .inr ⟨next, following, one, two, ⟨fun other apart => ?_, fun other => ?_, ?_, ?_⟩⟩
      · by_cases here : other = parts
        · rw [here, stored, alsoStored]
        · rw [nextAlike.files other here, followingAlike.files other here, alike.files other apart]
      · rw [nextAlike.directories, alike.directories, followingAlike.directories]
      · rw [nextAlike.unreadable, alike.unreadable, followingAlike.unreadable]
      · rw [nextAlike.unwritable, alike.unwritable, followingAlike.unwritable]

theorem AlikeBeside.writeAll (alike : AlikeBeside place first second) (writes : List (Path × Text)) :
    (Command.writeAll first writes).2 = (Command.writeAll second writes).2 ∧
      AlikeBeside place (Command.writeAll first writes).1 (Command.writeAll second writes).1 := by
  induction writes generalizing first second with
  | nil => exact ⟨rfl, alike⟩
  | cons write rest ih =>
      obtain ⟨path, text⟩ := write
      simp only [Command.writeAll, Command.write]
      cases text.string? with
      | none => exact ⟨rfl, alike⟩
      | some content =>
          rcases alike.write path content.toUTF8 with
            ⟨obstacle, one, two⟩ | ⟨next, following, one, two, kept⟩
          · simp only [one, two, Except.mapError]
            exact ⟨trivial, alike⟩
          · simp only [one, two, Except.mapError]
            exact ih kept

end

end Bella.Directory

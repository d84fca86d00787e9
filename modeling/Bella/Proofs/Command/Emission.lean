import Bella.Proofs.Command.Arguments
import Bella.Proofs.Command.Directory
import Bella.Proofs.Command.Path
import Bella.Proofs.Document.Programs

/-! Emitted trees. The document of a tree, found again as a file, holds the tree that was parsed, so running
it is running the source. Main statement: emitting a tree and running it ends as running the source does,
for every file, all flags and in every directory that takes the tree. -/

namespace Bella

def Entry.IsSource : Entry → Prop
  | .missing | .unreadable => True
  | .directory => False
  | .file content => ∃ text : String, content = text.toUTF8

def Directory.Keeps (directory : Directory) (path : Path) : Prop :=
  ∃ place, directory.writingPlace path = .ok place ∧ place ∉ directory.unreadable

namespace Command

def HoldsProgram (entry : Entry) : Prop :=
  ∃ (text : String) (program : Node), entry = .file text.toUTF8 ∧
    Source.parse (String.ofList (unifyLineEnds text.toList)) = .ok program

section

variable (limits : Limits)

def request (arguments : List String) (entry : Entry) : Except Refusal Outcome :=
  (ofArguments arguments).map fun command => command.perform limits entry

def requestIn (arguments : List String) (directory : Directory) :
    Except Refusal (Directory × Except Breakdown Report) :=
  (ofArguments arguments).map fun command => command.performIn limits directory

def CarriedOutAlike (first second : Except Refusal (Directory × Except Breakdown Report)) : Prop :=
  ∃ firstEnd secondEnd result, first = .ok (firstEnd, result) ∧ second = .ok (secondEnd, result) ∧
    firstEnd.fileAt? ["debug.txt"] = secondEnd.fileAt? ["debug.txt"]

def IsRefusal (result : Except Breakdown Report) : Prop :=
  (∃ diagnostic, result = .ok ⟨1, "", some diagnostic⟩) ∨ result = .error (.notOpened .permission)

/-- Beside what is found at the path: the tree of a program is emitted, and the document of the tree runs as
the program, whatever argument leads to it; anything else is refused both ways. -/
def EmitsAlike (name : String) (path : Path) (flags : List String) (entry : Entry) : Prop :=
  (HoldsProgram entry ∧ ∃ document : String,
    request limits ["--emit-ast", name] entry =
      .ok ⟨[(treePath path, document)], .ok ⟨0, lines [(treePath path).text], none⟩⟩ ∧
    ∀ spelling, Names spelling (treePath path) →
      request limits (flags ++ ["--ast", spelling]) (.file document.toUTF8) =
        request limits (flags ++ [name]) entry) ∨
  ¬HoldsProgram entry ∧ ∃ result, IsRefusal result ∧
    request limits ["--emit-ast", name] entry = .ok ⟨[], result⟩ ∧
    request limits (flags ++ [name]) entry = .ok ⟨[], result⟩

/-- In a working directory: the tree of a program is written to its file and to no other, and runs from
there as the program does before and after; anything else is refused both ways and nothing is written. -/
def EmitsAlikeIn (name : String) (path : Path) (flags : List String) (directory : Directory) : Prop :=
  (HoldsProgram (directory.lookup path) ∧ ∃ place document after,
    directory.writingPlace (treePath path) = .ok place ∧
    requestIn limits ["--emit-ast", name] directory =
      .ok (after, .ok ⟨0, lines [(treePath path).text], none⟩) ∧
    after.fileAt? place = some document ∧
    (∀ parts, parts ≠ place → after.fileAt? parts = directory.fileAt? parts) ∧
    ∀ spelling, Names spelling (treePath path) → ∀ start ∈ [directory, after],
      CarriedOutAlike (requestIn limits (flags ++ ["--ast", spelling]) after)
        (requestIn limits (flags ++ [name]) start)) ∨
  ¬HoldsProgram (directory.lookup path) ∧ ∃ result, IsRefusal result ∧
    requestIn limits ["--emit-ast", name] directory = .ok (directory, result) ∧
    requestIn limits (flags ++ [name]) directory = .ok (directory, result)

end

section

variable {limits : Limits} {name spelling source document : String} {path : Path} {flags : List String}
  {entry : Entry} {directory first second after : Directory} {place : List String} {program : Node}

theorem unifyLineEnds_of_unbroken {characters : List Char} (unbroken : '\r' ∉ characters) :
    unifyLineEnds characters = characters := by
  induction characters with
  | nil => rfl
  | cons character rest ih =>
      have here : character ≠ '\r' := (List.ne_of_not_mem_cons unbroken).symm
      rw [unifyLineEnds, ih (List.not_mem_of_not_mem_cons unbroken)]
      · exact fun _ same _ => here same
      · exact here

theorem decodeText?_toUTF8 (text : String) :
    decodeText? text.toUTF8 = some (String.ofList (unifyLineEnds text.toList)) := by
  have valid : String.fromUTF8? text.toUTF8 = some text := by
    rw [String.fromUTF8?, String.toUTF8_eq_toByteArray, dif_pos text.isValidUTF8]
    rfl
  rw [decodeText?, valid]
  rfl

theorem withText_toUTF8 (path : Path) (text : String) (next : String → Outcome) :
    withText path (.file text.toUTF8) next = next (String.ofList (unifyLineEnds text.toList)) := by
  rw [withText, decodeText?_toUTF8]

theorem decodeText?_document (parsed : Source.parse source = .ok program) :
    decodeText? program.encode.write.toUTF8 = some program.encode.write := by
  have readable := Node.readable_program (Source.parse_isSourceProgram parsed)
  rw [decodeText?_toUTF8, unifyLineEnds_of_unbroken readable.unbroken, String.ofList_toList]

theorem perform_document (parsed : Source.parse source = .ok program) (path : Path) (level : Nat) :
    perform limits ⟨.runTree, path, level⟩ (.file program.encode.write.toUTF8) =
      runProgram limits level program := by
  have readable := Node.readable_program (Source.parse_isSourceProgram parsed)
  simp only [perform, withText, decodeText?_document parsed, readable.read_write, Node.decode_encode]

theorem perform_emission {text : String} (found : entry = .file text.toUTF8)
    (parsed : Source.parse (String.ofList (unifyLineEnds text.toList)) = .ok program) (limits : Limits)
    (path : Path) (level : Nat) :
    perform limits ⟨.emitTree, path, level⟩ entry =
      ⟨[(treePath path, program.encode.write)], .ok ⟨0, lines [(treePath path).text], none⟩⟩ := by
  simp only [found, perform, withText_toUTF8, withProgram, parsed]

theorem perform_source (found : entry.IsSource) (limits : Limits) (path : Path) (level : Nat) :
    (∃ content source program, entry = .file content ∧ HoldsProgram entry ∧
      Source.parse source = .ok program ∧
      (∀ lower, perform limits ⟨.emitTree, path, lower⟩ entry =
        ⟨[(treePath path, program.encode.write)], .ok ⟨0, lines [(treePath path).text], none⟩⟩) ∧
      perform limits ⟨.runSource, path, level⟩ entry = runProgram limits level program) ∨
    ¬HoldsProgram entry ∧ ∃ result, IsRefusal result ∧
      (∀ lower, perform limits ⟨.emitTree, path, lower⟩ entry = ⟨[], result⟩) ∧
      perform limits ⟨.runSource, path, level⟩ entry = ⟨[], result⟩ := by
  cases entry with
  | missing => exact .inr ⟨nofun, _, .inl ⟨.notFound path, rfl⟩, fun _ => rfl, rfl⟩
  | directory => exact found.elim
  | unreadable => exact .inr ⟨nofun, _, .inr rfl, fun _ => rfl, rfl⟩
  | file content =>
      obtain ⟨text, rfl⟩ := found
      cases parsed : Source.parse (String.ofList (unifyLineEnds text.toList)) with
      | ok program =>
          refine .inl ⟨_, _, program, rfl, ⟨text, program, rfl, parsed⟩, parsed,
            fun lower => perform_emission rfl parsed limits path lower, ?_⟩
          simp only [perform, withText_toUTF8, withProgram, parsed]
      | error error =>
          refine .inr ⟨?_, _, .inl ⟨.notParsed error, rfl⟩, fun lower => ?_, ?_⟩
          · rintro ⟨other, program, same, written⟩
            have read := congrArg decodeText? (Entry.file.inj same)
            rw [decodeText?_toUTF8, decodeText?_toUTF8, Option.some.injEq] at read
            rw [read, written] at parsed
            cases parsed
          · simp only [perform, withText_toUTF8, withProgram, parsed]
            rfl
          · simp only [perform, withText_toUTF8, withProgram, parsed]
            rfl

theorem tree_name_ne (last : String) {other : String} (ends : other.toList.getLast? ≠ some 'n') :
    last ++ ".ast.json" ≠ other := by
  rintro rfl
  refine ends ?_
  rw [String.toList_append, List.getLast?_append]
  rfl

theorem write_refused {path : Path} {obstacle : Obstacle}
    (refused : directory.writingPlace path = .error obstacle) (content : String) :
    write directory path content = .error (.notOpened obstacle) := by
  simp only [write, Text.string?_ofString, Directory.write_refused refused]
  rfl

theorem write_string {path : Path} (opened : directory.writingPlace path = .ok place) (content : String) :
    ∃ after, write directory path content = .ok after ∧ after.AlikeBeside place directory ∧
      after.fileAt? place = some content.toUTF8 ∧
      after.lookup path = if place ∈ directory.unreadable then .unreadable else .file content.toUTF8 := by
  obtain ⟨after, written, others⟩ := Directory.write_alikeBeside opened content.toUTF8
  refine ⟨after, ?_, others⟩
  simp only [write, Text.string?_ofString, written]
  rfl

/-- The tree of a file has a place beside the file and unlike the trace's. -/
theorem tree_place {content : ByteArray} (found : directory.lookup path = .file content)
    (opened : directory.writingPlace (treePath path) = .ok place) :
    place ≠ ["debug.txt"] ∧ directory.locate path ≠ some (.inside place) := by
  obtain ⟨parts, located, file, -⟩ := Directory.lookup_file found
  obtain ⟨earlier, last, rfl, beside⟩ :=
    Directory.locate_withEnding located file fun last => tree_name_ne last (by decide)
  have there := beside.symm.trans (Directory.writingPlace_ok_iff.mp opened).1
  obtain rfl := Directory.Location.inside.inj (Option.some.inj there)
  constructor
  · intro same
    have final := congrArg List.getLast? same
    rw [List.getLast?_concat] at final
    exact tree_name_ne last (by decide) (Option.some.inj final)
  · rw [located]
    intro same
    have final := congrArg List.getLast? (Directory.Location.inside.inj (Option.some.inj same))
    rw [List.getLast?_concat, List.getLast?_concat] at final
    have length := congrArg (fun name => name.toList.length) (Option.some.inj final)
    simp at length

theorem carriedOutAlike_of_alikeBeside {one two : Command} (alike : first.AlikeBeside place second)
    (apart : place ≠ ["debug.txt"])
    (same : one.perform limits (first.lookup one.path) = two.perform limits (second.lookup two.path)) :
    CarriedOutAlike (.ok (one.performIn limits first)) (.ok (two.performIn limits second)) := by
  obtain ⟨ended, kept⟩ := alike.writeAll (one.perform limits (first.lookup one.path)).writes
  refine ⟨_, _, _, rfl, ?_, kept.files ["debug.txt"] apart.symm⟩
  simp only [performIn, ← same, ended]

theorem Names.tree {last : List Char} (named : Names name path)
    (piece : (Path.splitParts name.toList).getLast? = some last) (proper : last ≠ [] ∧ last ≠ ['.']) :
    Names (name ++ ".ast.json") (treePath path) := by
  refine ⟨tree_name_ne name (by decide), fun rest dash => ?_, ?_⟩
  · obtain ⟨first, letters, spelled⟩ := List.exists_cons_of_ne_nil
      (mt String.toList_eq_nil_iff.mp named.filled)
    rw [String.toList_append, spelled, List.cons_append] at dash
    obtain ⟨rfl, -⟩ := List.cons.inj dash
    exact named.plain letters spelled
  · rw [Path.ofText_append piece proper (by decide) (by decide), named.leads]
    rfl

theorem ofArguments_emit (named : Names name path) :
    ofArguments ["--emit-ast", name] = .ok ⟨.emitTree, path, 0⟩ :=
  ofArguments_emission (List.forall_mem_nil _) named

section

variable (named : Names name path)
  (emitted : perform limits ⟨.emitTree, path, 0⟩ (directory.lookup path) =
    ⟨[(treePath path, document)], .ok ⟨0, lines [(treePath path).text], none⟩⟩)

include named emitted

theorem emission_written (opened : directory.writingPlace (treePath path) = .ok place) :
    ∃ after, requestIn limits ["--emit-ast", name] directory =
        .ok (after, .ok ⟨0, lines [(treePath path).text], none⟩) ∧
      after.AlikeBeside place directory ∧ after.fileAt? place = some document.toUTF8 ∧
      after.lookup (treePath path) =
        if place ∈ directory.unreadable then .unreadable else .file document.toUTF8 := by
  obtain ⟨after, written, stored⟩ := write_string opened document
  refine ⟨after, ?_, stored⟩
  simp only [requestIn, ofArguments_emit named, Except.map, performIn, emitted, writeAll, written]
  rfl

theorem emission_obstructed {obstacle : Obstacle}
    (refused : directory.writingPlace (treePath path) = .error obstacle) :
    requestIn limits ["--emit-ast", name] directory = .ok (directory, .error (.notOpened obstacle)) := by
  simp only [requestIn, ofArguments_emit named, Except.map, performIn, emitted, writeAll,
    write_refused refused]
  rfl

end

theorem request_alike (limits : Limits) (named : Names name path)
    (verbose : ∀ flag ∈ flags, IsVerbosity flag) (found : entry.IsSource) :
    EmitsAlike limits name path flags entry := by
  simp only [EmitsAlike, request, ofArguments_emit named, ofArguments_source verbose named, Except.map]
  rcases perform_source found limits path (levelOf flags) with
    ⟨content, source, program, -, holds, parsed, emitted, ran⟩ |
      ⟨other, result, refusal, emitted, ran⟩
  · refine .inl ⟨holds, program.encode.write, congrArg _ (emitted 0), fun spelling spelled => ?_⟩
    rw [ofArguments_tree verbose spelled]
    exact congrArg Except.ok ((perform_document parsed (treePath path) _).trans ran.symm)
  · exact .inr ⟨other, result, refusal, congrArg _ (emitted 0), congrArg _ ran⟩

theorem requestIn_alike (limits : Limits) (named : Names name path)
    (verbose : ∀ flag ∈ flags, IsVerbosity flag) (found : (directory.lookup path).IsSource)
    (keeps : HoldsProgram (directory.lookup path) → directory.Keeps (treePath path)) :
    EmitsAlikeIn limits name path flags directory := by
  simp only [EmitsAlikeIn, requestIn, ofArguments_emit named, ofArguments_source verbose named, Except.map]
  rcases perform_source found limits path (levelOf flags) with
    ⟨content, source, program, file, holds, parsed, emitted, ran⟩ |
      ⟨other, result, refusal, emitted, ran⟩
  · obtain ⟨place, opened, readable⟩ := keeps holds
    obtain ⟨trace, apart⟩ := tree_place file opened
    obtain ⟨after, performed, alike, stored, kept⟩ := emission_written named (emitted 0) opened
    simp only [requestIn, ofArguments_emit named, Except.map] at performed
    rw [file] at ran
    refine .inl ⟨holds, place, _, after, opened, performed, stored, alike.files,
      fun spelling spelled start begun => ?_⟩
    have unmoved : after.lookup path = .file content :=
      (alike.lookup (alike.locate path ▸ apart)).trans file
    have same : perform limits ⟨.runTree, treePath path, levelOf flags⟩ (after.lookup (treePath path)) =
        perform limits ⟨.runSource, path, levelOf flags⟩ (.file content) := by
      rw [kept, if_neg readable, perform_document parsed, ran]
    rw [ofArguments_tree verbose spelled]
    simp only [List.mem_cons, List.not_mem_nil, or_false] at begun
    rcases begun with rfl | rfl
    · exact carriedOutAlike_of_alikeBeside alike trace (same.trans (congrArg _ file.symm))
    · exact carriedOutAlike_of_alikeBeside (.refl place start) trace (same.trans (congrArg _ unmoved.symm))
  · refine .inr ⟨other, result, refusal, congrArg _ ?_, congrArg _ ?_⟩
    · rw [performIn, emitted 0]
      rfl
    · rw [performIn, ran]
      rfl

/-- Emitting a tree and running it is running the source, if the directory keeps the tree of a source that
parses. The source's argument with the ending added leads to the tree if the argument ends in a part of its
path, and so does the path that is printed. -/
theorem emission_runs_alike (limits : Limits) (named : Names name path)
    (verbose : ∀ flag ∈ flags, IsVerbosity flag) :
    (∀ entry : Entry, entry.IsSource → EmitsAlike limits name path flags entry) ∧
    (∀ directory : Directory, (directory.lookup path).IsSource →
      (HoldsProgram (directory.lookup path) → directory.Keeps (treePath path)) →
      EmitsAlikeIn limits name path flags directory) ∧
    (∀ last, (Path.splitParts name.toList).getLast? = some last → last ≠ [] ∧ last ≠ ['.'] →
      Names (name ++ ".ast.json") (treePath path)) ∧
    (path.parts ≠ [] → Path.ofText (treePath path).text = treePath path) := by
  refine ⟨fun entry found => request_alike limits named verbose found,
    fun directory found keeps => requestIn_alike limits named verbose found keeps,
    fun last piece proper => named.tree piece proper, fun filled => ?_⟩
  have canonical : path.Canonical := named.leads ▸ Path.ofText_canonical name
  refine Path.ofText_text (canonical.withEnding (by decide) (by decide)) ?_
  obtain ⟨before, last, parts⟩ := (List.eq_nil_or_concat path.parts).resolve_left filled
  simp [treePath, Path.withEnding, parts]

theorem names_bella : Names "p.bella" ⟨"", ["p.bella"]⟩ :=
  ⟨by decide, nofun, by decide⟩

theorem names_tree : Names "p.bella.ast.json" ⟨"", ["p.bella.ast.json"]⟩ :=
  ⟨by decide, nofun, by decide⟩

def overflowDirectory : Directory :=
  .ofFiles [(["p.bella"], "print 1e999;".toUTF8)]

theorem emission_runs_alike_overflow :
    Names "p.bella" ⟨"", ["p.bella"]⟩ ∧ (∀ flag ∈ ["-v"], IsVerbosity flag) ∧
      overflowDirectory.Keeps ⟨"", ["p.bella.ast.json"]⟩ ∧
      ∃ document after,
        requestIn .ample ["--emit-ast", "p.bella"] overflowDirectory =
          .ok (after, .ok ⟨0, lines ["p.bella.ast.json"], none⟩) ∧
        after.fileAt? ["p.bella.ast.json"] = some document ∧
        CarriedOutAlike (requestIn .ample ["-v", "--ast", "p.bella.ast.json"] after)
          (requestIn .ample ["-v", "p.bella"] overflowDirectory) := by
  have verbose : ∀ flag ∈ ["-v"], IsVerbosity flag := List.forall_mem_singleton.mpr ⟨0, rfl⟩
  have named := names_bella
  have keeps : overflowDirectory.Keeps ⟨"", ["p.bella.ast.json"]⟩ :=
    ⟨["p.bella.ast.json"], rfl, List.not_mem_nil⟩
  refine ⟨named, verbose, keeps, ?_⟩
  rcases (emission_runs_alike .ample named verbose).2.1 overflowDirectory ⟨"print 1e999;", rfl⟩
      (fun _ => keeps) with
    ⟨-, place, document, after, opened, performed, stored, -, ran⟩ | ⟨other, -⟩
  · have there : Except.ok ["p.bella.ast.json"] = (.ok place : Except Obstacle _) := opened
    obtain rfl := Except.ok.inj there
    exact ⟨document, after, performed, stored, ran _ names_tree _ List.mem_cons_self⟩
  · exact absurd ⟨"print 1e999;", _, rfl, rfl⟩ other

theorem requestIn_unreadable (limits : Limits) (named : Names name path)
    (hidden : directory.lookup path = .unreadable) :
    requestIn limits ["--ast", name] directory = .ok (directory, .error (.notOpened .permission)) := by
  have asked : ofArguments ["--ast", name] = .ok ⟨.runTree, path, 0⟩ :=
    ofArguments_tree (List.forall_mem_nil _) named
  simp only [requestIn, asked, Except.map, performIn, perform, hidden, withText, breakDown, writeAll]
  rfl

end

def quietSource : String := "print true;"

def takenTree : Directory :=
  .ofFiles [(["p.bella"], quietSource.toUTF8), (["p.bella.ast.json", "x"], "".toUTF8)]

def lockedTree : Directory :=
  ⟨[(["p.bella"], quietSource.toUTF8), (["p.bella.ast.json"], "".toUTF8)], [["p.bella.ast.json"]], []⟩

def quietProgram : Node :=
  .program (.block [.printStatement (.booleanLiteral true)])

theorem quietSource_parses :
    Source.parse (String.ofList (unifyLineEnds quietSource.toList)) = .ok quietProgram := by
  rfl

theorem requestIn_quiet {directory : Directory}
    (file : directory.lookup ⟨"", ["p.bella"]⟩ = .file quietSource.toUTF8) :
    requestIn .ample ["p.bella"] directory = .ok (directory, .ok ⟨0, lines ["true"], none⟩) := by
  have named := names_bella
  have asked : ofArguments ["p.bella"] = .ok ⟨.runSource, ⟨"", ["p.bella"]⟩, 0⟩ :=
    ofArguments_source (List.forall_mem_nil _) named
  simp only [requestIn, asked, Except.map, performIn, perform, file, withText_toUTF8, withProgram,
    quietSource_parses]
  rfl

theorem emission_taken :
    Names "p.bella" ⟨"", ["p.bella"]⟩ ∧ Names "p.bella.ast.json" (treePath ⟨"", ["p.bella"]⟩) ∧
      (∀ directory ∈ [takenTree, lockedTree],
        directory.lookup ⟨"", ["p.bella"]⟩ = .file quietSource.toUTF8 ∧
        requestIn .ample ["p.bella"] directory = .ok (directory, .ok ⟨0, lines ["true"], none⟩)) ∧
      requestIn .ample ["--emit-ast", "p.bella"] takenTree =
        .ok (takenTree, .error (.notOpened .directory)) ∧
      ∃ after, requestIn .ample ["--emit-ast", "p.bella"] lockedTree =
          .ok (after, .ok ⟨0, lines ["p.bella.ast.json"], none⟩) ∧
        requestIn .ample ["--ast", "p.bella.ast.json"] after =
          .ok (after, .error (.notOpened .permission)) := by
  have named := names_bella
  have spelled : Names "p.bella.ast.json" (treePath ⟨"", ["p.bella"]⟩) := names_tree
  have found : ∀ directory ∈ [takenTree, lockedTree],
      directory.lookup ⟨"", ["p.bella"]⟩ = .file quietSource.toUTF8 :=
    List.forall_mem_cons.mpr ⟨rfl, List.forall_mem_singleton.mpr rfl⟩
  have emitted (directory : Directory) (among : directory ∈ [takenTree, lockedTree]) :=
    perform_emission (found directory among) quietSource_parses .ample ⟨"", ["p.bella"]⟩ 0
  refine ⟨named, spelled, fun directory among => ⟨found _ among, requestIn_quiet (found _ among)⟩,
    emission_obstructed named (emitted _ List.mem_cons_self) rfl, ?_⟩
  obtain ⟨after, written, -, -, hidden⟩ := emission_written named (emitted lockedTree (by simp)) rfl
  exact ⟨after, written, requestIn_unreadable .ample spelled hidden⟩

end Command

end Bella

import Bella.Command
import Mathlib.Data.List.Basic

/-! Arguments that are flags for the level of tracing, followed by a file. Main statement: such arguments
make the command that they spell. -/

namespace Bella.Command

def IsVerbosity (flag : String) : Prop :=
  ∃ count, flag.toList = '-' :: List.replicate (count + 1) 'v'

def levelOf : List String → Nat
  | [] => 0
  | flag :: rest => flag.toList.tail.length + levelOf rest

structure Names (argument : String) (path : Path) : Prop where
  filled : argument ≠ ""
  plain : ∀ rest, argument.toList ≠ '-' :: rest
  leads : Path.ofText argument = path

section

variable {flag argument : String} {flags rest : List String} {path : Path}

theorem Names.classify (named : Names argument path) : classify argument = .plain argument := by
  have plain := named.plain
  unfold Command.classify
  split
  · rename_i dashes
    exact absurd dashes (plain _)
  · rename_i dashes
    exact absurd dashes (plain _)
  · rename_i dash
    exact absurd dash (plain _)
  · rw [String.ofList_toList]

theorem IsVerbosity.classify (verbose : IsVerbosity flag) :
    classify flag = .letters flag.toList.tail := by
  obtain ⟨count, letters⟩ := verbose
  rw [Command.classify, letters]
  cases count <;> rfl

theorem IsVerbosity.readLetters (verbose : IsVerbosity flag) (arguments : Arguments) :
    readLetters arguments flag.toList.tail =
      .ok { arguments with verbosity := arguments.verbosity + flag.toList.tail.length } := by
  obtain ⟨count, letters⟩ := verbose
  have all : (List.replicate (count + 1) 'v').all isShortOption = true := by
    simp [isShortOption]
  have silent : (List.replicate (count + 1) 'v').contains 'h' = false := by
    simp
  rw [letters, List.tail_cons, Command.readLetters, all, silent]
  rfl

theorem classifyAll_flags (verbose : ∀ flag ∈ flags, IsVerbosity flag) :
    classifyAll (flags ++ rest) =
      (flags.map fun flag => Word.letters flag.toList.tail) ++ classifyAll rest := by
  induction flags with
  | nil => rfl
  | cons flag others ih =>
      obtain ⟨here, later⟩ := List.forall_mem_cons.mp verbose
      rw [List.cons_append, classifyAll, here.classify, ih later]
      rfl

theorem readWords_flags (verbose : ∀ flag ∈ flags, IsVerbosity flag) (arguments : Arguments)
    (words : List Word) :
    readWords arguments [] ((flags.map fun flag => Word.letters flag.toList.tail) ++ words) =
      readWords { arguments with verbosity := arguments.verbosity + levelOf flags } [] words := by
  induction flags generalizing arguments with
  | nil => rfl
  | cons flag others ih =>
      obtain ⟨here, later⟩ := List.forall_mem_cons.mp verbose
      have settled : readPlain arguments [].reverse = arguments := rfl
      rw [List.map_cons, List.cons_append, readWords, settled, here.readLetters]
      simp only [ih later, levelOf, Nat.add_assoc]

theorem read_flags (verbose : ∀ flag ∈ flags, IsVerbosity flag) {words : List Word} {read : Arguments}
    (classified : classifyAll rest = words) (clear : Word.ambiguous ∉ words)
    (taken : readWords ⟨levelOf flags, none, none, none, false, false⟩ [] words = .ok read)
    (settled : read.surplus = false) : Arguments.read (flags ++ rest) = .ok read := by
  have unambiguous : (classifyAll (flags ++ rest)).contains .ambiguous = false := by
    simp [classifyAll_flags verbose, classified, clear]
  have counted := readWords_flags verbose .none words
  simp only [Arguments.none, Nat.zero_add] at counted
  rw [taken] at counted
  simp only [Arguments.read, unambiguous, Bool.false_eq_true, if_false]
  rw [classifyAll_flags verbose, classified, Arguments.none, counted]
  simp [settled]

theorem Names.given (named : Names argument path) :
    (some argument).filter (· != "") = some argument := by
  simp [Option.filter, named.filled]

theorem ofArguments_source (verbose : ∀ flag ∈ flags, IsVerbosity flag) (named : Names argument path) :
    ofArguments (flags ++ [argument]) = .ok ⟨.runSource, path, levelOf flags⟩ := by
  have word : classifyAll [argument] = [.plain argument] := by
    rw [classifyAll, named.classify]
    rfl
  have read : Arguments.read (flags ++ [argument]) =
      .ok ⟨levelOf flags, none, none, some argument, true, false⟩ :=
    read_flags verbose word (by simp) rfl rfl
  obtain rfl := named.leads
  simp only [ofArguments, read, named.given]
  rfl

theorem read_tree (verbose : ∀ flag ∈ flags, IsVerbosity flag) (named : Names argument path)
    {option : LongOption} (spelled : classify option.text = .long option none)
    {next : Arguments}
    (set : setTree ⟨levelOf flags, none, none, none, false, false⟩ option argument = .ok next)
    (settled : next.surplus = false) :
    Arguments.read (flags ++ [option.text, argument]) = .ok next := by
  have words : classifyAll [option.text, argument] = [.long option none, .plain argument] := by
    simp only [classifyAll, spelled, named.classify]
  have before : readPlain ⟨levelOf flags, none, none, none, false, false⟩ [].reverse =
      ⟨levelOf flags, none, none, none, false, false⟩ := rfl
  refine read_flags verbose words (by simp) ?_ settled
  cases option
  case help => cases set
  all_goals
    rw [readWords, before, set]
    · rfl
    all_goals exact nofun

theorem Names.value (named : Names argument path) :
    (if argument = "--" then "" else argument) = argument := by
  refine if_neg ?_
  rintro rfl
  exact named.plain ['-'] rfl

theorem ofArguments_tree (verbose : ∀ flag ∈ flags, IsVerbosity flag) (named : Names argument path) :
    ofArguments (flags ++ ["--ast", argument]) = .ok ⟨.runTree, path, levelOf flags⟩ := by
  have set : setTree ⟨levelOf flags, none, none, none, false, false⟩ .runTree argument =
      .ok ⟨levelOf flags, none, some argument, none, false, false⟩ := by
    rw [setTree, named.value]
    rfl
  have read := read_tree verbose named rfl set rfl
  rw [LongOption.text] at read
  obtain rfl := named.leads
  simp only [ofArguments, read, named.given]
  rfl

theorem ofArguments_emission (verbose : ∀ flag ∈ flags, IsVerbosity flag) (named : Names argument path) :
    ofArguments (flags ++ ["--emit-ast", argument]) = .ok ⟨.emitTree, path, levelOf flags⟩ := by
  have set : setTree ⟨levelOf flags, none, none, none, false, false⟩ .emitTree argument =
      .ok ⟨levelOf flags, some argument, none, none, false, false⟩ := by
    rw [setTree, named.value]
    rfl
  have read := read_tree verbose named rfl set rfl
  rw [LongOption.text] at read
  obtain rfl := named.leads
  simp only [ofArguments, read, named.given]

end

end Bella.Command

import Bella.Trace

/-! A recorder keeps the trace of any number of uses. It has a file, which is opened empty with
the recorder and closed at the end of every run; a later run opens it again and adds to it. While
the file is closed, the lines of other uses are shown instead. Main statement: neither the file
nor what is shown ever loses a line. -/

namespace Bella

structure Recorder where
  level : Nat
  fileOpen : Bool
  file : List Text
  shown : List Text

namespace Recorder

def new (level : Nat) : Recorder :=
  ⟨level, decide (0 < level), [], []⟩

def record (recorder : Recorder) (events : List Event) : Recorder :=
  let lines := events.map Event.text
  if recorder.fileOpen then { recorder with file := recorder.file ++ lines }
  else { recorder with shown := recorder.shown ++ lines }

def openFile (recorder : Recorder) : Recorder :=
  { recorder with fileOpen := decide (0 < recorder.level) }

def closeFile (recorder : Recorder) : Recorder :=
  { recorder with fileOpen := false }

variable {α : Type}

def use (recorder : Recorder) (traced : Traced α) : Recorder × Except Fault α :=
  (recorder.record traced.events, traced.result)

def useForRun (recorder : Recorder) (traced : Traced α) : Recorder × Except Fault α :=
  ((recorder.openFile.record traced.events).closeFile, traced.result)

theorem record_level (recorder : Recorder) (events : List Event) :
    (recorder.record events).level = recorder.level := by
  unfold record
  split <;> rfl

theorem file_prefix_record (recorder : Recorder) (events : List Event) :
    recorder.file <+: (recorder.record events).file := by
  unfold record
  split
  · exact List.prefix_append _ _
  · exact List.prefix_refl _

theorem shown_prefix_record (recorder : Recorder) (events : List Event) :
    recorder.shown <+: (recorder.record events).shown := by
  unfold record
  split
  · exact List.prefix_refl _
  · exact List.prefix_append _ _

theorem file_prefix_useForRun (recorder : Recorder) (traced : Traced α) :
    recorder.file <+: (recorder.useForRun traced).1.file :=
  file_prefix_record recorder.openFile traced.events

end Recorder

end Bella

import NoticeCheck.Comparison
import NoticeCheck.Edit.File
import NoticeCheck.Normaliser
import NoticeCheck.PrintedNotice
import NoticeCheck.Report

/-! What a checker prints: the notices in it, and the check of a transcript against expectations. -/
namespace NoticeCheck

inductive TranscriptError where
  | malformed (line : Text)
  | unknownSeverity (written line : Text)
  | missing (missing : Missing)
  deriving DecidableEq

namespace TranscriptError

def ofFault (line : Text) : PrintedNotice.Fault → TranscriptError
  | .malformed => malformed line
  | .unknownSeverity written => unknownSeverity written line

def message : TranscriptError → Text
  | malformed line => "Line from type checker output is invalid: ".toList ++ line
  | unknownSeverity written _ => "Unknown severity: ".toList ++ written
  | missing m => m.message

end TranscriptError

namespace Transcript

/-- The last line of a run counts its notices, or says that there are none. -/
def isSummary (line : Text) : Bool :=
  line.startsWith "Found ".toList || line.startsWith "Success: no issues".toList

/-- The lines that print notices: no blank lines, debug lines or summary at the end. -/
def noticeLines (stdout : Text) : List Text :=
  let lines := stdout.streamLines.filter fun line =>
    !line.isVoid && !line.startsWith ":debug:".toList
  if lines.getLast?.any isSummary then lines.dropLast else lines

end Transcript

namespace Program

/-- Record the notice printed on a line, as the normaliser leaves it, at its path under `root`. -/
def addPrinted (normaliser : Normaliser) (root : Path) (p : Program) (line : Text) :
    ExceptT TranscriptError (StateM normaliser.Memory) Program :=
  match PrintedNotice.parse line with
  | .error fault => throw (.ofFault line fault)
  | .ok printed =>
    let append (l : Line) : EditM normaliser.Memory (Option Line) := do
      let n := { l.notice printed.severity printed.message with column := printed.column }
      return l.append? [← normaliser.step n]
    let inLine (f : File) : EditM normaliser.Memory (Option File) :=
      some <$> f.editLine (.line printed.line) { line := false } append
    ExceptT.adapt .missing (p.editFile (root.join printed.path) false inLine)

/-- Record the notices of all lines. -/
def addLines (normaliser : Normaliser) (root : Path) (p : Program) (lines : List Text) :
    Except TranscriptError Program :=
  ((lines.foldlM (addPrinted normaliser root) p).run.run normaliser.start).1

end Program

inductive CheckError where
  | transcript (error : TranscriptError)
  | mismatch (mismatch : Mismatch)
  deriving DecidableEq

/-- Check what a checker printed under `root` against the expected notices. -/
def checkTranscript (expected : Program) (stdout : Text) (normaliser : Normaliser)
    (root : Path) : Except CheckError Unit := do
  let reported ← (Program.empty.addLines normaliser root (Transcript.noticeLines stdout)).mapError
    .transcript
  (Comparison.ofPrograms root reported expected).require.mapError .mismatch

end NoticeCheck

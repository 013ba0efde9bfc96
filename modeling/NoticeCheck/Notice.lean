import NoticeCheck.Path
import NoticeCheck.Severity
import NoticeCheck.StableSort

/-! Notices: what a checker says at one place, their display and their two orders. -/
namespace NoticeCheck

structure Notice where
  location : Path
  line : Nat
  column : Option Nat
  severity : Severity
  message : Text
  deriving DecidableEq

namespace Notice

/-- Line and column numbers are below this. -/
def numberLimit : Nat :=
  UInt32.size

def revealStart : Text :=
  "Revealed type is \"".toList

/-- The message of a note that reveals a type. -/
def revealMessage (revealed : Text) : Text :=
  revealStart ++ revealed ++ ['"']

def isReveal (n : Notice) : Bool :=
  n.severity.isNote && n.message.startsWith revealStart

def display (n : Notice) : Text :=
  let column := match n.column with
    | some c => "col=".toList ++ Text.ofNat c ++ [' ']
    | none => []
  column ++ "severity=".toList ++ n.severity.display ++ ":: ".toList ++ n.message

/-- Equal up to the spelling of the location and the wildcard severity. -/
def same (m n : Notice) : Bool :=
  m.location.same n.location && m.line == n.line && m.column == n.column &&
    m.severity.agrees n.severity && m.message == n.message

/-- As `same`, but a notice without a column fits every column. -/
def agrees (m n : Notice) : Bool :=
  let columns := match m.column, n.column with
    | some c, some d => c == d
    | _, _ => true
  columns && m.location.same n.location && m.line == n.line &&
    m.severity.agrees n.severity && m.message == n.message

/-- Errors first, then notes, then warnings. -/
def kindRank (n : Notice) : Nat :=
  match n.severity with
  | .error _ => 0
  | .note => 1
  | .warning => 2

/-- The order in which the notices of one line are paired; columns and subtypes do not count. -/
def pairingOrder : Notice → Notice → Ordering :=
  compareLex (compareOn kindRank) (compareOn message)

def sortOrder : Notice → Notice → Ordering :=
  compareLex (compareOn location) (compareLex (compareOn line) (compareOn display))

def sort (notices : List Notice) : List Notice :=
  sortBy sortOrder notices

/-- One notice for each row of the message. -/
def splitRows (n : Notice) : List Notice :=
  n.message.rows.map fun row => { n with message := row }

/-- Sort for pairing, then split the messages into rows. -/
def splitAll (notices : List Notice) : List Notice :=
  (sortBy pairingOrder notices).flatMap splitRows

end Notice

end NoticeCheck

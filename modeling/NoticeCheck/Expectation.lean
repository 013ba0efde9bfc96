import NoticeCheck.Edit.File

/-! Expectations added to a named line of a file after it was read. -/
namespace NoticeCheck

/-- Notices to expect: one note for all types or notes, one notice for each error. -/
inductive Expectation where
  | reveals (types : List Text)
  | errors (pairs : List (Text × Text))
  | notes (texts : List Text) (keepReveals : Bool)

namespace Expectation

/-- Whether adding the expectation in place of earlier ones drops a notice. -/
def supersedes (e : Expectation) (n : Notice) : Bool :=
  match e with
  | reveals _ => n.isReveal
  | errors _ => n.severity.isError
  | notes _ keepReveals => n.severity.isNote && !(keepReveals && n.isReveal)

def made (e : Expectation) (l : Line) : List Notice :=
  match e with
  | reveals types => [l.notice .note (Text.ofRows (types.map Notice.revealMessage))]
  | errors pairs => pairs.map fun (subtype, message) => l.notice (.error subtype) message
  | notes texts _ => [l.notice .note (Text.ofRows texts)]

end Expectation

namespace File

/-- Add an expectation to the line called `name`, dropping what it supersedes if `replacing`. -/
def expect (f : File) (name : Text) (e : Expectation) (replacing : Bool) : Except Missing File :=
  f.editLine (.name name) { line := false } fun l =>
    let l := if replacing then l.retain fun n => !e.supersedes n else l
    pure (l.append? ((e.made l).map some))

/--
Remove a fragment from the messages of all reveal notes on the line called `name`. Unless
`mustExist` is off, one of them has to contain it.
-/
def eraseFromReveals (f : File) (name fragment : Text) (mustExist : Bool) : Except Missing File :=
  f.editLine (.name name) { line := false } fun l =>
    let affected (n : Notice) : Bool := n.isReveal && n.message.contains fragment
    if mustExist && !l.notices.any affected then
      throw (Missing.atTarget l.location (.name name) (some l.number))
    else
      pure (l.withNotices? (l.notices.map fun n =>
        some (if affected n then { n with message := n.message.eraseAll fragment } else n)))

end File

end NoticeCheck

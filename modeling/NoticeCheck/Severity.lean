import NoticeCheck.Text.Basic

/-!
Severities, with three comparisons: by wildcard, by order, and against a written form. An error
without a subtype is the wildcard and agrees with every error.
-/
namespace NoticeCheck

inductive Severity where
  | note
  | warning
  | error (subtype : Text)
  deriving DecidableEq, Inhabited

namespace Severity

def isError : Severity → Bool
  | error _ => true
  | _ => false

def isNote : Severity → Bool
  | note => true
  | _ => false

def isWildcard : Severity → Bool
  | error subtype => subtype.isEmpty
  | _ => false

def agrees : Severity → Severity → Bool
  | note, note => true
  | warning, warning => true
  | error s, error t => s == t || s.isEmpty || t.isEmpty
  | _, _ => false

def display : Severity → Text
  | note => "note".toList
  | warning => "warning".toList
  | error subtype => "error[".toList ++ subtype ++ [']']

/-- Agreeing severities are level; all others stand in the order of their displays. -/
def order (s t : Severity) : Ordering :=
  if s.agrees t then .eq else compare s.display t.display

/-- A written `error` or `error[]` stands for every error, and the wildcard for every `error[..`. -/
def agreesWithText (s : Severity) (shown : Text) : Bool :=
  match s with
  | error [] => shown == "error".toList || shown.startsWith "error[".toList
  | error (_ :: _) =>
    shown == "error".toList || shown == "error[]".toList || s.display == shown
  | _ => s.display == shown

end Severity

end NoticeCheck

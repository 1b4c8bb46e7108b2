import ScreenDoc.Action.Rules
import ScreenDoc.Style.Chain

/-!
# Problems with documents

What can be wrong with a document that could be read.

## Main definitions

- `Problem` — a problem with a document
- `Problem.isFatal` — whether no tree can be made in spite of it
-/

namespace ScreenDoc

/-- A problem with a document. -/
inductive Problem where
  | unknownStyle (id : String)
  | style (error : StyleError)
  | unknownDataSource (id : String)
  | unknownAction (id : String)
  /-- An action, known by its name or else its kind, cannot be made ready. -/
  | action (id : String) (error : ActionError)
  | invalidLeaf (type reason : String)
  /-- The layout is nested deeper than the limit. -/
  | depthExceeded (limit : Nat)
deriving DecidableEq, Repr

namespace Problem

/-- The message of a problem. -/
def message : Problem → String
  | .unknownStyle id => "unknown style " ++ Text.quote id
  | .style error => error.message
  | .unknownDataSource id => "unknown data source " ++ Text.quote id
  | .unknownAction id => "unknown action " ++ Text.quote id
  | .action id error => "action " ++ Text.quote id ++ " failed to resolve: " ++ error.message
  | .invalidLeaf type reason => type ++ " component is invalid: " ++ reason
  | .depthExceeded limit => "document nesting exceeds " ++ toString limit ++ " levels"

/-- Whether no tree can be made. After any other problem, something neutral takes the place of what
has it. -/
def isFatal : Problem → Bool
  | .depthExceeded _ => true
  | _ => false

/-- The problem that a style has no properties. -/
def ofStyle : StyleError → Problem
  | .unknown id => .unknownStyle id
  | error => .style error

end Problem

end ScreenDoc

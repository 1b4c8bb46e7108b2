import ScreenDoc.Style.Layer
import ScreenDoc.Text.Quoted
import ScreenDoc.Value.Basic

/-!
# Style inheritance

A named style may inherit from another one. Its properties are those of its chain of ancestors, each
style laid over the one that it inherits from.

## Main definitions

- `Style`, `StyleTable` — named styles
- `StyleTable.chain` — a style and its ancestors, or why there is no such chain
- `StyleTable.effective` — the merged properties of a style with inline properties on top
-/

namespace ScreenDoc

/-- A named style. -/
structure Style where
  /-- The name of the style below this one. -/
  inherits : Option String
  /-- What the style itself sets. -/
  properties : StyleLayer

/-- The styles of a document by name. -/
abbrev StyleTable := List (String × Style)

/-- Why a style has no properties. -/
inductive StyleError where
  /-- The chain comes back to this style. -/
  | cycle (id : String)
  /-- There is no style of this name. -/
  | unknown (id : String)
  /-- The chain of this style is longer than the limit. -/
  | depthExceeded (id : String) (limit : Nat)
deriving DecidableEq, Repr

/-- The message of an error. -/
def StyleError.message : StyleError → String
  | .cycle id => "style inheritance cycle through " ++ Text.quote id
  | .unknown id => "unknown style " ++ Text.quote id
  | .depthExceeded id limit =>
    "style chain of " ++ Text.quote id ++ " exceeds " ++ toString limit ++ " levels"

namespace StyleTable

/-- How long a chain may be, unless told otherwise. -/
def defaultMaxDepth : Nat := 32

/-- The chain from a style on, the most specific style first, given the names that were met before
and how many styles may still follow. -/
def chainFrom (table : StyleTable) (start : String) (limit : Nat) :
    Nat → List String → String → Except StyleError (List Style)
  | remaining, visited, id =>
    if visited.contains id then .error (.cycle id)
    else
      match remaining with
      | 0 => .error (.depthExceeded start limit)
      | remaining + 1 =>
        match Fields.get? table id with
        | none => .error (.unknown id)
        | some style =>
          match style.inherits with
          | none => .ok [style]
          | some parent =>
            (chainFrom table start limit remaining (id :: visited) parent).map (style :: ·)

/-- A style and its ancestors, the most specific style first. -/
def chain (table : StyleTable) (limit : Nat) (id : String) : Except StyleError (List Style) :=
  table.chainFrom id limit limit [] id

/-- The properties of a chain: its styles laid over each other from the last one on. -/
def merged (chain : List Style) : StyleLayer :=
  chain.reverse.foldl (fun lower style => lower.merge style.properties) .unset

/-- The properties of a style, if one is named, with inline properties on top. -/
def effective (table : StyleTable) (limit : Nat) (id : Option String)
    (inline : Option StyleLayer) : Except StyleError StyleLayer := do
  let base ← match id with
    | some id => (table.chain limit id).map merged
    | none => .ok .unset
  return match inline with
    | some inline => base.merge inline
    | none => base

end StyleTable

end ScreenDoc

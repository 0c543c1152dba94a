import ScopeScript.Text.Styled
import ScopeScript.Vault.Snapshot

/-!
# The tree of scopes

The records of a snapshot are arranged as a tree by their paths: a record is nested as deep as its
path has `$` signs. `Tree.ofLevels` builds the tree, pulling up a record that is more than one
level deeper than the one before it, and `Tree.renderAll` draws it.
-/

namespace ScopeScript

/-- A line of an outline. -/
structure LeveledText where
  level : Int
  text : String
  deriving DecidableEq, Repr, Inhabited

/-- The outline of a snapshot: one line for each record, with the names it binds. -/
def RecordInfo.outline (infos : List RecordInfo) : List LeveledText :=
  infos.map fun info =>
    { level := (info.path.toList.count '$' : Int) - 1
      text := if info.names.isEmpty then info.path
        else info.path ++ "  " ++ " ".intercalate info.names }

/-- A tree of texts. -/
inductive Tree
  | node (text : String) (children : List Tree)
  deriving Inhabited

namespace Tree

/-- Add a leaf below the last node of each of the given number of levels. -/
def addLeaf : Nat → String → List Tree → List Tree
  | _, text, [] => [node text []]
  | 0, text, trees => trees ++ [node text []]
  | level + 1, text, tree :: rest =>
      match rest with
      | [] =>
          match tree with
          | node label children => [node label (addLeaf level text children)]
      | next :: later => tree :: addLeaf (level + 1) text (next :: later)
termination_by level _ trees => (level, trees.length)

/-- Add the lines of an outline one by one; a line is at most one level below the line before. -/
def addLines : Option Nat → List Tree → List LeveledText → List Tree
  | _, trees, [] => trees
  | previous?, trees, line :: lines =>
      let wanted := line.level.toNat
      let level := match previous? with
        | some previous => min wanted (previous + 1)
        | none => wanted
      addLines (some level) (addLeaf level line.text trees) lines

/-- The trees of an outline. -/
def ofLevels (lines : List LeveledText) : List Tree :=
  addLines none [] lines

/-- A drawn character of a branch. -/
private def stroke (text : String) : String :=
  Text.styled Text.Style.faint text

mutual

/-- Draw a tree behind the given indentation; the last of its siblings has a corner. -/
def render (indent : String) (isLast : Bool) : Tree → String
  | node text children =>
      let corner := stroke (if isLast then "└" else "├")
      let branch := if children.isEmpty then stroke "─" ++ stroke "─" else stroke "─" ++ stroke "┬"
      let below := if isLast then "  " else stroke "│" ++ " "
      indent ++ corner ++ branch ++ Text.styled Text.Style.plain text ++ "\n" ++
        renderAll (indent ++ below) children

/-- Draw trees one below the other. -/
def renderAll (indent : String) : List Tree → String
  | [] => ""
  | tree :: rest => render indent rest.isEmpty tree ++ renderAll indent rest

end

end Tree

end ScopeScript

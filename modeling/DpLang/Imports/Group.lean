import DpLang.Tree.Node

/-!
# Nodes with their comments

The nodes of a list are grouped with the comments that belong to them: those in front of a node and,
for some nodes, those behind it. Nothing is lost: the groups one after the other are the list.
-/

namespace DpLang

/-- A node with its comments, or a run of comments that belong to no node. -/
structure Commented where
  head : List Node := []
  node : Option Node := none
  tail : List Node := []
  deriving Repr, Inhabited

namespace Commented

/-- The nodes of a group in order. -/
def nodes (group : Commented) : List Node := group.head ++ group.node.toList ++ group.tail

/-- Is there a blank line between a node and what follows? -/
def gapBehind (node : Node) : List Node → Bool
  | [] => false
  | next :: _ => 2 ≤ next.start.line - node.stop.line

/-- The comments that follow `node` on the lines directly below each other. -/
def commentsBelow (node : Node) : List Node → List Node
  | [] => []
  | next :: rest =>
    if next.isComment && next.start.line - node.stop.line = 1 then
      next :: commentsBelow next rest
    else []

/-- The comments behind a node that belong to it. A constant or an import has the one on its line;
an identifier also those on the lines directly below. -/
def tailOf (node : Node) : List Node → List Node
  | [] => []
  | next :: rest =>
    if next.isComment && next.start.line - node.stop.line = 0 then
      match node with
      | .constantDef _ _ _ _ _ => [next]
      | .importNames _ _ _ _ => [next]
      | .identifier _ _ _ => next :: commentsBelow next rest
      | _ => []
    else []

/-- Groups the nodes of a list behind the comments `head`, with the first `skipped` nodes left out.
-/
def splitAfter (onGap : Bool) (head : List Node) (skipped : Nat) : List Node → List Commented
  | [] => if head.isEmpty then [] else [{ head }]
  | node :: rest =>
    match skipped with
    | skipped + 1 => splitAfter onGap head skipped rest
    | 0 =>
      let gap := onGap && gapBehind node rest
      if node.isComment then
        if gap then { head := head ++ [node] } :: splitAfter onGap [] 0 rest
        else splitAfter onGap (head ++ [node]) 0 rest
      else
        let tail := if gap then [] else tailOf node rest
        { head, node := some node, tail } :: splitAfter onGap [] tail.length rest

/-- The groups of a list of nodes. A blank line ends a group if `onGap` is set. -/
def split (onGap : Bool) (nodes : List Node) : List Commented := splitAfter onGap [] 0 nodes

end Commented

end DpLang

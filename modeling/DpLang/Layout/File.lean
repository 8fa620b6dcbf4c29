import DpLang.Imports.Block
import DpLang.Layout.Declaration

/-!
# Layout of a file

A file is written group by group, with the import block in its place. Blank lines stand between the
groups, except between constants of the same visibility that follow each other closely.
-/

namespace DpLang

def commentLines (indentation : Text) (comments : List Node) : Text :=
  comments.flatMap fun
    | .comment _ source => indentation ++ Text.strip source ++ ['\n']
    | _ => []

/-- The text of a comment without the blanks around it. -/
def Node.commentText : Node → Text
  | .comment _ source => Text.strip source
  | _ => []

namespace ImportEntry

def nameLines (name : CommentedName) : Text :=
  name.head.flatMap (fun comment => ("\n\t\t" : Text) ++ comment.commentText) ++
    if name.name.isEmpty then []
    else
      ("\n\t\t" : Text) ++ name.name ++ [','] ++
        match name.tail with
        | [] => []
        | first :: rest =>
          ' ' :: first.commentText ++
            rest.flatMap fun comment => ("\n\t\t" : Text) ++ comment.commentText

/-- The names of an import in parentheses: on one line if there are no comments among them. -/
def namesText (names : List CommentedName) : Text :=
  if names.all fun name => !name.name.isEmpty && name.head.isEmpty && name.tail.isEmpty then
    '(' :: Text.join ", " (names.map CommentedName.name) ++ [')']
  else '(' :: names.flatMap nameLines ++ ("\n\t)" : Text)

def pathLine (path : Text) (entry : ImportEntry) : Text :=
  '\t' :: path ++
    (if entry.names.isEmpty then []
     else (if path.isEmpty then [] else [' ']) ++ namesText entry.names) ++
    ((entry.tail.map fun comment => ' ' :: comment.commentText).getD []) ++ ['\n']

/-- An entry of the import block behind an entry with the path `previous`. A blank line is put in
front of it where the group of paths changes, and in front of comments that belong to no import. -/
def text (previous : Option Text) (entry : ImportEntry) : Except LayoutFault Text := do
  let comments := commentLines ['\t'] entry.head
  match entry.path, previous with
  | none, _ => return '\n' :: comments
  | some path, none => return comments ++ pathLine path entry
  | some path, some previous =>
    let changed := (← ImportPath.group previous) ≠ (← ImportPath.group path)
    return (if changed then ['\n'] else []) ++ comments ++ pathLine path entry

end ImportEntry

namespace ImportBlock

/-- The entries of the block behind an entry with the path `previous`. -/
def entriesText (previous : Option Text) : List ImportEntry → Except LayoutFault Text
  | [] => .ok []
  | entry :: entries => return (← entry.text previous) ++ (← entriesText entry.path entries)

def text (block : ImportBlock) : Except LayoutFault Text :=
  return commentLines [] block.head ++ ("import \x7b\n" : Text) ++
    (← entriesText none block.entries) ++ ("\x7d\n" : Text)

end ImportBlock

namespace File

def isImporting : Node → Bool
  | .importNames _ _ _ _ => true
  | .importList _ _ _ => true
  | _ => false

/-- Does a blank line stand between two members of a file? -/
def needsGap : Option Node → Option Node → Bool
  | some (.constantDef _ isPublic _ _ stop), some (.constantDef start isPublic' _ _ _) =>
    !(start.line - stop.line ≤ 1 && isPublic' = isPublic)
  | _, _ => true

def writeMember (tail : List Node) (page : Page) : Node → Except LayoutFault Page
  | .constantDef _ isPublic name value _ => writeConstant isPublic name value tail page
  | .functionDef head params results body => writeFunction head params results body page
  | .typeDef start isPublic name fields _ => writeType start.line isPublic name fields page
  | .comment _ _ => .ok page
  | .importNames _ _ _ _ => .ok page
  | .importList _ _ _ => .ok page
  | node => .error (.outOfPlace .file node.kind)

/-- Writes a group of a file. `block` is the import block if it stands in front of this group. The
comments of an import are part of the block. -/
def writeGroup (block : Option ImportBlock) (group : Commented) (page : Page) :
    Except LayoutFault Page := do
  let importing := group.node.any isImporting
  let imports ← show Except LayoutFault Text from
    match block with
    | none => .ok []
    | some block => return (← block.text) ++ if importing then [] else ['\n']
  let page := page.write imports
  let page :=
    if importing && block.isSome then page else page.write (commentLines [] group.head)
  match group.node with
  | none => return page
  | some node => writeMember group.tail page node

/-- Writes the groups of a file from number `index` on. `previous` is the node of the group before,
which is absent at the start of the file. -/
def writeGroups (imports : Imports.Consolidated) (index : Nat) (previous : Option (Option Node))
    (page : Page) : List Commented → Except LayoutFault Page
  | [] => .ok page
  | group :: groups => do
    let here := imports.index == some index
    if group.node.any isImporting && !here then
      writeGroups imports (index + 1) previous page groups
    else
      let gap := previous.any fun node => needsGap node group.node
      let page := if gap then page.write ['\n'] else page
      let page ← writeGroup (if here then some imports.block else none) group page
      writeGroups imports (index + 1) (some group.node) page groups

end File

/-- The text of a file with the given nodes. -/
def layout (nodes : List Node) : Except LayoutFault Text := do
  if nodes.isEmpty then
    return []
  let groups := Commented.split true nodes
  let imports ← Imports.consolidate groups
  return (← File.writeGroups imports 0 none .blank groups).value

end DpLang

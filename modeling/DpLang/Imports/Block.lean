import DpLang.Imports.Group
import DpLang.Imports.Path

/-!
# The import block of a file

All imports of a file, wherever they stand, are written in one block. Names that were imported
without a path get the path that provides their namespace, if exactly one does. Imports of the same
path are merged, and paths and names are sorted.
-/

namespace DpLang

/-- An imported name with its comments. Comments that belong to no name have an empty one. -/
structure CommentedName where
  head : List Node
  name : Text
  tail : List Node
  deriving Repr

/-- An imported path with its comments and names. Comments that belong to no import have no path,
and names that have none an empty one. -/
structure ImportEntry where
  head : List Node
  path : Option Text
  names : List CommentedName
  tail : Option Node
  deriving Repr

structure ImportBlock where
  head : List Node
  entries : List ImportEntry
  deriving Repr

namespace ImportBlock

/-- Is there nothing to write? -/
def isEmpty (block : ImportBlock) : Bool := block.head.isEmpty && block.entries.isEmpty

end ImportBlock

/-- An import of names, apart from its comments. -/
structure ImportClause where
  start : Position
  path : Text
  names : List Node
  stop : Position
  deriving Repr, Inhabited

/-- An import with its comments, or comments that belong to no import. -/
structure CommentedImport where
  head : List Node
  clause : Option ImportClause
  tail : List Node
  deriving Repr, Inhabited

namespace Node

mutual
/-- The imports in a statement and in the blocks below it. An import of nothing does not count. -/
def nestedImports : Node → List Node
  | n@(importNames _ path names _) => if path.isEmpty && names.isEmpty then [] else [n]
  | block _ body _ => nestedImportsOf body
  | forLoop _ _ _ body _ => nestedImportsOf body
  | ifElse _ _ _ thenBody _ elseBody _ => nestedImportsOf thenBody ++ nestedImportsOf elseBody
  | _ => []

/-- The imports in a list of statements and in the blocks below them. -/
def nestedImportsOf : List Node → List Node
  | [] => []
  | n :: ns => n.nestedImports ++ nestedImportsOf ns
end

/-- Is the node a definition of a constant, a function or a type? -/
def isDefinition : Node → Bool
  | constantDef _ _ _ _ _ => true
  | functionDef _ _ _ _ => true
  | typeDef _ _ _ _ _ => true
  | _ => false

end Node

namespace Imports

/-- The imports in a member of a file. -/
def gather (group : Commented) : List Commented :=
  match group.node with
  | some (.functionDef _ _ _ body) =>
    (Node.nestedImportsOf body).map fun node => { node := some node }
  | some (.typeDef _ _ _ fields _) =>
    (fields.filter Node.isImport).flatMap Node.nestedImports |>.map fun node =>
      { node := some node }
  | some (.importNames _ _ _ _) => [group]
  | some (.importList _ imports _) => Commented.split false imports
  | _ => []

/-- A group as an import with its comments. -/
def clauseOf (group : Commented) : Except LayoutFault CommentedImport :=
  match group.node with
  | none => .ok ⟨group.head, none, group.tail⟩
  | some (.importNames start path names stop) =>
    .ok ⟨group.head, some ⟨start, path, names, stop⟩, group.tail⟩
  | some node => .error (.outOfPlace .importList node.kind)

/-- The path that provides each namespace, none for a namespace that several provide. -/
abbrev Providers := List (Text × Option Text)

/-- Records that a path provides a namespace. -/
def provide (path : Text) (providers : Providers) (name : Text) : Providers :=
  match providers with
  | [] => [(name, some path)]
  | (other, provider) :: providers =>
    if other = name then
      (other, if provider = some path then provider else none) :: providers
    else (other, provider) :: provide path providers name

/-- Records the namespaces that the path of an import provides. A path with a backslash in it
provides none. -/
def provideAll (providers : Providers) (clause : Option ImportClause) :
    Except LayoutFault Providers :=
  match clause with
  | none => .ok providers
  | some clause =>
    if clause.path.isEmpty then .ok providers
    else do
      let (path, complete) ← ImportPath.unquote clause.path
      return if complete then
        (ImportPath.namespaces path).foldl (provide clause.path) providers
      else providers

/-- Appends a name to those of its path. -/
def addName (path : Text) (name : Node) : List (Text × List Node) → List (Text × List Node)
  | [] => [(path, [name])]
  | (other, names) :: rest =>
    if other = path then (other, names ++ [name]) :: rest
    else (other, names) :: addName path name rest

/-- Sorts the names of an import without a path into those whose namespace one path provides, by
path, and the others. -/
def resolveNames (providers : Providers) :
    List Node → List (Text × List Node) → List Node →
      Except LayoutFault (List (Text × List Node) × List Node)
  | [], found, others => .ok (found, others)
  | .comment _ _ :: nodes, found, others => resolveNames providers nodes found others
  | node@(.identifier start name stop) :: nodes, found, others =>
    match providers.lookup name.namespaceText with
    | some (some path) =>
      resolveNames providers nodes (addName path (.identifier start [name.short] stop) found)
        others
    | _ => resolveNames providers nodes found (others ++ [node])
  | node :: _, _, _ => .error (.outOfPlace .identifierList node.kind)

def addHead (head : List Node) : List CommentedImport → List CommentedImport
  | [] => []
  | first :: rest => { first with head := first.head ++ head } :: rest

/-- The imports that an import stands for once its names have their paths, and how many names went
to which path. -/
def resolve (providers : Providers) (group : CommentedImport) :
    Except LayoutFault (List CommentedImport × List (Nat × Text)) :=
  match group.clause with
  | none => .ok ([group], [])
  | some clause =>
    if !clause.path.isEmpty then .ok ([group], [])
    else do
      let (found, others) ← resolveNames providers clause.names [] []
      let counts := found.map fun (path, names) => (names.length, path)
      let resolved : List CommentedImport :=
        found.map fun (path, names) => ⟨[], some { clause with path, names }, []⟩
      if others.isEmpty then
        return (addHead group.head resolved, counts)
      return (resolved ++ [⟨group.head, some { clause with names := others }, group.tail⟩], counts)

/-- The imports of one path and one comment behind it. -/
structure Merged where
  head : List Node
  path : Text
  names : List Node
  tail : Option Node
  deriving Repr

/-- The text of the comment behind an import, empty if there is none. -/
def tailText : Option Node → Text
  | some (.comment _ source) => Text.strip source
  | _ => []

/-- Merges an import with the one of the same path and comment, or else puts it last. -/
def mergeInto (head : List Node) (clause : ImportClause) (tail : Option Node) :
    List Merged → List Merged
  | [] => [⟨head, clause.path, clause.names, tail⟩]
  | item :: items =>
    if item.path = clause.path && tailText item.tail = tailText tail then
      { item with head := item.head ++ head, names := item.names ++ clause.names } :: items
    else item :: mergeInto head clause tail items

/-- Merges the imports of the same path and comment, in the order in which they first appear. -/
def mergeAll (groups : List CommentedImport) : List Merged :=
  groups.foldl
    (fun items group =>
      match group.clause with
      | none => items
      | some clause => mergeInto group.head clause group.tail.head? items)
    []

/-- The comments that belong to no import. -/
def leftovers (groups : List CommentedImport) : List Node :=
  groups.flatMap fun group => if group.clause.isNone then group.head else []

def mergeName (name : CommentedName) : List CommentedName → List CommentedName
  | [] => [name]
  | item :: items =>
    if item.name = name.name then
      { item with head := item.head ++ name.head, tail := item.tail ++ name.tail } :: items
    else item :: mergeName name items

/-- A group of names as a name with its comments. -/
def nameOf (group : Commented) : Except LayoutFault (Option CommentedName) :=
  match group.node with
  | none => .ok none
  | some (.identifier _ name _) => .ok (some ⟨group.head, name.text, group.tail⟩)
  | some node => .error (.outOfPlace .identifierList node.kind)

/-- The names of an import, merged and sorted, with the comments that belong to no name last. -/
def sortedNames (nodes : List Node) : Except LayoutFault (List CommentedName) := do
  let groups := Commented.split false nodes
  let names ← groups.mapM nameOf
  let merged := (names.filterMap id).foldl (fun items name => mergeName name items) []
  let rest := groups.flatMap fun group => if group.node.isNone then group.head else []
  return merged.mergeSort (fun a b => Text.le a.name b.name) ++
    if rest.isEmpty then [] else [⟨rest, [], []⟩]

/-- Imports are sorted by the group of their path, then by their path. -/
def comesBefore (a b : ImportPath.Group × Merged) : Bool :=
  a.1.rank < b.1.rank || (a.1.rank == b.1.rank && Text.le a.2.path b.2.path)

def entryOf (item : Merged) : Except LayoutFault ImportEntry :=
  return ⟨item.head, some item.path, ← sortedNames item.names, item.tail⟩

/-- The entries of the import block, with the comments that belong to no import last. -/
def sortedEntries (groups : List CommentedImport) : Except LayoutFault (List ImportEntry) := do
  let items ← (mergeAll groups).mapM fun item => return (← ImportPath.group item.path, item)
  let entries ← (items.mergeSort comesBefore).mapM fun (_, item) => entryOf item
  let rest := leftovers groups
  return entries ++ if rest.isEmpty then [] else [⟨rest, none, [], none⟩]

/-- The import block of a file and how it came about. -/
structure Consolidated where
  /-- The group in front of which the block is written, if there is anything to write. -/
  index : Option Nat
  block : ImportBlock
  /-- How many imports and runs of comments were gathered. -/
  gathered : Nat
  /-- How many names were given which path. -/
  resolved : List (Nat × Text)
  deriving Repr

/-- The place of the import block: that of the first import list or else the first import, but not
behind the first definition. -/
def place (groups : List Commented) (entries : List ImportEntry) : Option Nat :=
  let firstOf (p : Node → Bool) := groups.findIdx? fun group => group.node.any p
  let isList : Node → Bool
    | .importList _ _ _ => true
    | _ => false
  let definition := firstOf Node.isDefinition
  match firstOf isList <|> firstOf Node.isImport, definition with
  | some index, some definition => some (min index definition)
  | some index, none => some index
  | none, definition => if entries.isEmpty then none else definition

def listHeads (groups : List Commented) : List Node :=
  groups.flatMap fun group =>
    match group.node with
    | some (.importList _ _ _) => group.head
    | _ => []

/-- Collects all imports of a file. -/
def consolidate (groups : List Commented) : Except LayoutFault Consolidated := do
  let gathered ← (groups.flatMap gather).mapM clauseOf
  let providers ← gathered.foldlM (fun providers group => provideAll providers group.clause) []
  let resolved ← gathered.mapM (resolve providers)
  let entries ← sortedEntries (resolved.flatMap Prod.fst)
  let block : ImportBlock := ⟨listHeads groups, entries⟩
  return {
    index := if block.isEmpty then none else place groups entries
    block
    gathered := gathered.length
    resolved := resolved.flatMap Prod.snd }

end Imports

end DpLang

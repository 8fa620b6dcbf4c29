import DpLang.Text.LowerCase
import DpLang.Tree.Kind

/-!
# Import paths

An import path such as `"example.org/Foo-Bar/baz"` provides the namespaces
`::example_org::foo_bar::baz`, `example_org::foo_bar::baz`, `foo_bar::baz` and `baz`.
-/

namespace DpLang.ImportPath

/-- The text between the quotes of a path, up to the first backslash, and whether that is all of
it. Escapes are not resolved. -/
def unquote (path : Text) : Except LayoutFault (Text × Bool) :=
  if 2 ≤ path.length && path.head? == some '"' && path.getLast? == some '"' then
    let inner := path.tail.dropLast
    .ok (inner.takeWhile (· != '\\'), !inner.contains '\\')
  else .error (.unquotedPath path)

/-- The ends of a list of names, each written as a qualified name, the longest first. -/
def qualifiedEnds : List Text → List Text
  | [] => []
  | name :: names => Text.join "::" (name :: names) :: qualifiedEnds names

def namespaceForm (path : Text) : Text :=
  (Text.lower path).map fun c => if c = '-' || c = '.' then '_' else c

/-- The namespaces that an unquoted path provides, the longest first. The first one starts at the
root. A path with an empty element provides none. -/
def namespaces (path : Text) : List Text :=
  let elements := Text.splitOn '/' path
  if 1 < elements.length && elements.any List.isEmpty then []
  else qualifiedEnds ([] :: Text.splitOn '/' (namespaceForm path))

inductive Group where
  /-- Paths that are in none of the other groups. -/
  | ordinary
  /-- Paths whose first element has a dot in it. -/
  | hosted
  /-- Paths below `internal`. -/
  | internal
  deriving DecidableEq, Repr

namespace Group

def rank : Group → Nat
  | ordinary => 1
  | hosted => 2
  | internal => 3

end Group

def groupOf (path : Text) : Group :=
  let first := path.takeWhile (· != '/')
  if first = ("internal" : Text) then .internal
  else if first.contains '.' then .hosted
  else .ordinary

/-- The group of a path, which is unquoted first if it starts with a quote. -/
def group (path : Text) : Except LayoutFault Group := do
  if 2 ≤ path.length && path.head? == some '"' then
    return groupOf (← unquote path).1
  return groupOf path

end DpLang.ImportPath

import DpLang.Text.Printable

/-!
# File stores

A store is a tree of directories with files in them. A file is replaced by way of a temporary file
beside it, so that it is never seen half written.
-/

namespace DpLang

/-- What stands under a name in a store. -/
inductive StoreEntry where
  | file (content : List UInt8) (mode : Nat)
  | directory (mode : Nat)
  deriving DecidableEq, Repr

namespace StoreEntry

/-- The permissions of a file or directory. -/
def mode : StoreEntry → Nat
  | file _ mode => mode
  | directory mode => mode

/-- Is this a file with a permission to start it as a program? -/
def isExecutable : StoreEntry → Bool
  | file _ mode => mode &&& 0o111 != 0
  | directory _ => false

/-- The same file or directory with other permissions. -/
def withMode (mode : Nat) : StoreEntry → StoreEntry
  | file content _ => .file content mode
  | directory _ => .directory mode

end StoreEntry

/-- Why a file operation fails. -/
inductive StoreError where
  | notFound
  | isDirectory
  | notDirectory
  | permissionDenied
  | notProgram
  /-- A directory that is in use is to be replaced. -/
  | busy
  | nameTooLong
  | nullInName
  deriving DecidableEq, Repr

namespace StoreError

/-- The number and wording of a failure. -/
def message : StoreError → Text
  | notFound => "[Errno 2] No such file or directory"
  | isDirectory => "[Errno 21] Is a directory"
  | notDirectory => "[Errno 20] Not a directory"
  | permissionDenied => "[Errno 13] Permission denied"
  | notProgram => "[Errno 8] Exec format error"
  | busy => "[Errno 16] Device or resource busy"
  | nameTooLong => "[Errno 36] File name too long"
  | nullInName => "embedded null byte"

end StoreError

/-- The operations that the system may refuse, for lack of rights or of space. All but the first are
steps of a replacement: a temporary file is made, gets its content and its permissions and is moved
over the file, or it is removed. -/
inductive FileStep where
  | read
  | create
  | fill
  | setMode
  | move
  | remove
  deriving DecidableEq, Repr

/-- The operations that the system refuses, and why. -/
abbrev Refusals := List (FileStep × StoreError)

/-- Fails if an operation is refused. -/
def Refusals.check (refusals : Refusals) (step : FileStep) : Except StoreError Unit :=
  match refusals.lookup step with
  | some error => .error error
  | none => .ok ()

/-- The names that lead from the working directory to a file or directory. The directories above
it are reached by names that are two dots. Paths from the root of the file system start with an
empty name. -/
abbrev StorePath := List Text

namespace StorePath

/-- The root of the file system. -/
def root : StorePath := [[]]

/-- Is this the working directory or a directory above it? -/
def isAbove (path : StorePath) : Bool := path.all fun name => name = (".." : Text)

/-- The directory that holds a file or directory. -/
def parent (path : StorePath) : StorePath :=
  if path = root then root else if path.isAbove then path ++ [(".." : Text)] else path.dropLast

/-- The path that a name leads to from a directory. -/
def step (path : StorePath) (name : Text) : StorePath :=
  if name.isEmpty || name = ("." : Text) then path
  else if name = (".." : Text) then path.parent
  else path ++ [name]

/-- The path that names lead to one after the other. -/
def walk (path : StorePath) (names : List Text) : StorePath := names.foldl step path

/-- All paths that names lead to one after the other. -/
def trail (path : StorePath) : List Text → List StorePath
  | [] => []
  | name :: names => path.step name :: trail (path.step name) names

/-- The directory from which a file name is followed. -/
def origin (name : Text) : StorePath := if name.head? == some '/' then root else []

end StorePath

/-- Files and directories with their paths. -/
structure Store where
  entries : List (StorePath × StoreEntry)
  deriving DecidableEq, Repr

/-- A change of a store. What it has done stays done if it fails. -/
abbrev StoreChange (α : Type) := ExceptT StoreError (StateM Store) α

namespace Store

/-- The permissions of a temporary file. -/
def temporaryMode : Nat := 0o600

/-- The permissions of a directory that has been given no others. -/
def directoryMode : Nat := 0o755

/-- The number of bytes that a name between two slashes may have. -/
def nameLimit : Nat := 255

/-- The number of bytes that the names of a path and the slashes between them may have. -/
def pathLimit : Nat := 4095

/-- What stands at a path. The root, the working directory and the directories above it exist
always. -/
def entry? (store : Store) (path : StorePath) : Option StoreEntry :=
  match store.entries.lookup path with
  | some entry => some entry
  | none => if path = .root || path.isAbove then some (.directory directoryMode) else none

def erase (store : Store) (path : StorePath) : Store :=
  ⟨store.entries.filter fun (other, _) => other ≠ path⟩

/-- Puts a file or directory at a path, in place of what stands there. -/
def insert (store : Store) (path : StorePath) (entry : StoreEntry) : Store :=
  if (store.entries.lookup path).isSome then
    ⟨store.entries.map fun (other, old) => (other, if other = path then entry else old)⟩
  else ⟨store.entries ++ [(path, entry)]⟩

/-- Follows names from a directory. Only what leads to the last name has to exist. -/
def follow (store : Store) (here : StorePath) : List Text → Except StoreError StorePath
  | [] => .ok here
  | name :: names =>
    match store.entry? here with
    | none => .error .notFound
    | some (.file _ _) => .error .notDirectory
    | some (.directory _) =>
      if nameLimit < name.byteLength then .error .nameTooLong
      else follow store (here.step name) names

/-- Follows names from a directory, if they can stand in a path. -/
def followNames (store : Store) (here : StorePath) (names : List Text) :
    Except StoreError StorePath :=
  let path := Text.join ['/'] names
  if path.contains '\x00' then .error .nullInName
  else if pathLimit < path.byteLength then .error .nameTooLong
  else store.follow here names

/-- The path that a file name leads to. -/
def resolve (store : Store) (name : Text) : Except StoreError StorePath :=
  if name.isEmpty then .error .notFound
  else store.followNames (.origin name) (Text.splitOn '/' name)

/-- The store that holds a file or directory with a name, and the directories on the way. -/
def holding (name : Text) (entry : StoreEntry) : Store :=
  let start := StorePath.origin name
  let paths := start :: start.trail (Text.splitOn '/' name)
  let directories : Store := ⟨paths.dropLast.map fun path => (path, .directory directoryMode)⟩
  directories.insert (paths.getLast?.getD start) entry

/-- The file or directory with a name. -/
def find (store : Store) (name : Text) : Except StoreError StoreEntry := do
  match store.entry? (← store.resolve name) with
  | some entry => return entry
  | none => throw .notFound

def isDirectory (store : Store) (name : Text) : Bool :=
  match store.find name with
  | .ok (.directory _) => true
  | _ => false

/-- The content of a file. -/
def read (store : Store) (name : Text) : Except StoreError (List UInt8) := do
  match ← store.find name with
  | .file content _ => return content
  | .directory _ => throw .isDirectory

/-- The permissions of a file or directory. -/
def mode (store : Store) (name : Text) : Except StoreError Nat := return (← store.find name).mode

/-- The store with other permissions of a file or directory. -/
def setMode (store : Store) (name : Text) (mode : Nat) : Except StoreError Store := do
  let entry ← store.find name
  return store.insert (← store.resolve name) (entry.withMode mode)

def directoryName (name : Text) : Text :=
  let front := (name.reverse.dropWhile (· != '/')).reverse
  let trimmed := (front.reverse.dropWhile (· == '/')).reverse
  if front.isEmpty then ['.'] else if trimmed.isEmpty then front else trimmed

/-- The name of the temporary file with number `n`. -/
def temporaryName (n : Nat) : Text := '.' :: Text.ofNat n ++ (".dpfmt" : Text)

/-- A path in a directory that is not in use, from number `n` on. One of as many numbers as there
are entries, and one more, is free. -/
def freshPath (store : Store) (directory : StorePath) : Nat → Nat → StorePath
  | 0, n => directory ++ [temporaryName n]
  | fuel + 1, n =>
    let path := directory ++ [temporaryName n]
    if (store.entry? path).isSome then freshPath store directory fuel (n + 1) else path

/-- Moves a file over what stands at another path. A directory is not replaced. -/
def rename (store : Store) (source target : StorePath) : Except StoreError Store :=
  match store.entry? source with
  | none => .error .notFound
  | some entry =>
    match store.entry? target with
    | some (.directory _) => .error .isDirectory
    | _ => .ok ((store.insert target entry).erase source)

/-- The last name of a file name, without the slashes behind it. -/
def lastName (name : Text) : Text :=
  ((name.reverse.dropWhile (· == '/')).takeWhile (· != '/')).reverse

/-- The path to which a file is moved that gets a name. The name has to be that of a file: one or
two dots and the root stand for directories that are in use, and a slash at the end asks for a
directory. -/
def targetOf (store : Store) (name : Text) : Except StoreError StorePath := do
  let target ← store.resolve name
  if [[], ['.'], ['.', '.']].contains (lastName name) then
    throw .busy
  if name.getLast? = some '/' then
    throw .notDirectory
  return target

/-- The directory in which a file with a name is made. Dots in the name are worked out before
anything is looked up, so that only what is left of the name has to exist. -/
def directoryOf (store : Store) (name : Text) : Except StoreError StorePath := do
  let start := StorePath.origin name
  let path := start.walk (Text.splitOn '/' (directoryName name))
  let directory ← store.followNames start (path.filter (!·.isEmpty))
  match store.entry? directory with
  | some (.directory _) => return directory
  | some (.file _ _) => throw .notDirectory
  | none => throw .notFound

/-- Writes the content of a temporary file and gives it the permissions of the file that it replaces,
if there is one. -/
def prepare (refusals : Refusals) (temporary : StorePath) (name : Text) (content : List UInt8) :
    StoreChange Unit := do
  refusals.check .fill
  modify fun store => store.insert temporary (.file content temporaryMode)
  if let .ok entry := (← get).find name then
    refusals.check .setMode
    modify fun store => store.insert temporary (.file content entry.mode)

/-- Moves a temporary file to where a name leads. -/
def moveOver (refusals : Refusals) (temporary : StorePath) (name : Text) : StoreChange Unit := do
  let target ← (← get).targetOf name
  refusals.check .move
  set (← (← get).rename temporary target)

/-- Removes a temporary file. -/
def discard (refusals : Refusals) (temporary : StorePath) : StoreChange Unit := do
  refusals.check .remove
  modify fun store => store.erase temporary

/-- Replaces a file by a temporary one. If anything fails, the temporary file is to be removed, and an
error of its removal takes the place of the first one. -/
def replaceBy (refusals : Refusals) (temporary : StorePath) (name : Text) (content : List UInt8) :
    StoreChange Unit := do
  try
    prepare refusals temporary name content
    moveOver refusals temporary name
  catch error =>
    discard refusals temporary
    throw error

/-- Replaces the content of a file, or makes a new one. The result is the outcome and the store
afterwards. -/
def replace (store : Store) (name : Text) (content : List UInt8) (refusals : Refusals := []) :
    Except StoreError Unit × Store :=
  match refusals.check .create >>= fun _ => store.directoryOf name with
  | .error error => (.error error, store)
  | .ok directory =>
    let temporary := store.freshPath directory store.entries.length 0
    let made := store.insert temporary (.file [] temporaryMode)
    (replaceBy refusals temporary name content).run.run made

def files (store : Store) : List (StorePath × List UInt8) :=
  store.entries.filterMap fun
    | (path, .file content _) => some (path, content)
    | _ => none

end Store

end DpLang

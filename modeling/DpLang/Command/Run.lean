import DpLang.Command.Options
import DpLang.Files.Store
import DpLang.Format
import DpLang.Text.Printable

/-!
# The command

The command formats one file and prints the result, shows how it differs from the file, or puts it
in place of the file. Nothing is changed unless everything before has succeeded.
-/

namespace DpLang

/-- What a program leaves when it ends. -/
structure ProgramResult where
  status : Int
  out : List UInt8
  err : List UInt8
  deriving DecidableEq, Repr

/-- A program as a function of its arguments and its standard input. -/
abbrev Program := List Text → List UInt8 → ProgramResult

/-- The programs that can be started, by the paths at which they stand. -/
abbrev Programs := StorePath → Option Program

/-- The directory that is searched for a command without a slash. -/
def searchDirectory : StorePath := .root

/-- The program that a command starts. A command with a slash is the name of its file, and any other
one is looked for in the search directory. -/
def Store.findProgram (store : Store) (programs : Programs) (command : Text) :
    Except StoreError Program := do
  let path ←
    if command.contains '/' then store.resolve command
    else store.followNames searchDirectory [command]
  match store.entry? path, programs path with
  | none, _ => throw .notFound
  | some entry, program =>
    if !entry.isExecutable then
      throw .permissionDenied
    match program with
    | some program => return program
    | none => throw .notProgram

/-- What the command tells about its work. -/
inductive Event where
  | tokenized (path : Text) (tokens : Nat)
  | parsed (nodes tokens : Nat)
  | resolved (names : Nat) (path : Text)
  | merged (imports entries : Nat)
  | laidOut (nodes bytes : Nat)
  | formatted (file : Text) (before after : Nat)
  | running (words : List Text)
  | replaced (file : Text) (bytes : Nat)
  deriving DecidableEq, Repr

namespace Event

/-- The part of the program that tells of an event. -/
def channel : Event → Text
  | tokenized _ _ => "dp.lexer.lexer"
  | parsed _ _ => "dp.parser.parser"
  | resolved _ _ => "dp.formatter.imports"
  | merged _ _ => "dp.formatter.imports"
  | laidOut _ _ => "dp.formatter.formatter"
  | formatted _ _ _ => "dp.cli"
  | running _ => "dp.fileio"
  | replaced _ _ => "dp.fileio"

def message : Event → Text
  | tokenized path tokens =>
    (if path.isEmpty then ("<input>" : Text) else path) ++ (": " : Text) ++ Text.ofNat tokens ++
      (" tokens" : Text)
  | parsed nodes tokens =>
    ("parsed " : Text) ++ Text.ofNat nodes ++ (" file-level nodes from " : Text) ++
      Text.ofNat tokens ++ (" tokens" : Text)
  | resolved names path =>
    ("resolved " : Text) ++ Text.ofNat names ++ (" names to " : Text) ++ path
  | merged imports entries =>
    ("merged " : Text) ++ Text.ofNat imports ++ (" imports into " : Text) ++
      Text.ofNat entries ++ (" entries" : Text)
  | laidOut nodes bytes =>
    ("formatted " : Text) ++ Text.ofNat nodes ++ (" nodes into " : Text) ++ Text.ofNat bytes ++
      (" bytes" : Text)
  | formatted file before after =>
    ("formatted " : Text) ++ file ++ (": " : Text) ++ Text.ofNat before ++ (" -> " : Text) ++
      Text.ofNat after ++ (" bytes" : Text)
  | running words => ("running " : Text) ++ Text.join [' '] words
  | replaced file bytes =>
    ("replaced " : Text) ++ file ++ (" (" : Text) ++ Text.ofNat bytes ++ (" bytes)" : Text)

def line (event : Event) : Text := event.channel ++ (": " : Text) ++ event.message ++ ['\n']

end Event

/-- Why the command fails. -/
inductive CommandError where
  | format (error : FormatError)
  | store (error : StoreError) (name : Text)
  | tool (command : Text) (status : Int)
  deriving Repr

namespace CommandError

def report : CommandError → Report
  | format error => error.report
  | store error name => .plain (error.message ++ (": " : Text) ++ Text.quoted name)
  | tool command status =>
    .plain (command ++ (" exited with status " : Text) ++ Text.ofInt status)

end CommandError

/-- The state of the world while the command runs. -/
structure Session where
  store : Store
  out : List UInt8 := []
  err : List UInt8 := []
  deriving Repr

/-- A step of the command. What it has done stays done if it fails. -/
abbrev Command (α : Type) := ExceptT CommandError (StateM Session) α

namespace Command

/-- Writes to the standard output. -/
def print (bytes : List UInt8) : Command Unit :=
  modify fun session => { session with out := session.out ++ bytes }

/-- Writes to the standard error. -/
def printError (bytes : List UInt8) : Command Unit :=
  modify fun session => { session with err := session.err ++ bytes }

/-- Tells of an event, if asked to. -/
def tell (verbose : Bool) (event : Event) : Command Unit := do
  if verbose then
    printError (Text.encode event.line)

def orFormatError {α : Type} : Except FormatError α → Command α
  | .ok a => return a
  | .error error => throw (.format error)

def orStoreError {α : Type} (name : Text) : Except StoreError α → Command α
  | .ok a => return a
  | .error error => throw (.store error name)

/-- Lays out a file and tells of it. A file without nodes needs no work. -/
def layOut (verbose : Bool) (nodes : List Node) : Command Text := do
  if !nodes.isEmpty then
    if let .ok imports := Imports.consolidate (Commented.split true nodes) then
      imports.resolved.forM fun (names, path) => tell verbose (.resolved names path)
      tell verbose (.merged imports.gathered imports.block.entries.length)
  let text ← orFormatError (writeNodes nodes)
  if !nodes.isEmpty then
    tell verbose (.laidOut nodes.length text.byteLength)
  return text

/-- Formats a source text and tells of each stage. -/
def formatSource (verbose : Bool) (path : Text) (source : Source) : Command Text := do
  let tokens ← orFormatError (readTokens path source)
  tell verbose (.tokenized path tokens.length)
  let nodes ← orFormatError (readNodes tokens)
  tell verbose (.parsed nodes.length tokens.length)
  layOut verbose nodes

/-- The arguments of a diff tool that compares a file with its standard input. -/
def diffArguments (file : Text) : List Text := ["-u", file, "/dev/stdin"]

/-- Compares a file with new content by a diff tool, whose output is passed on. The result is the
status of the tool. -/
def runDiff (programs : Programs) (verbose : Bool) (command file : Text) (content : List UInt8) :
    Command Int := do
  let arguments := diffArguments file
  tell verbose (.running (command :: arguments))
  if (command :: arguments).any (·.contains '\x00') then
    throw (.store .nullInName command)
  let program ← orStoreError command ((← get).store.findProgram programs command)
  let result := program arguments content
  print result.out
  printError result.err
  return result.status

def readFile (refusals : Refusals) (file : Text) : Command (List UInt8) := do
  orStoreError file (refusals.check .read)
  orStoreError file ((← get).store.read file)

def replaceFile (refusals : Refusals) (verbose : Bool) (file : Text) (content : List UInt8) :
    Command Unit := do
  let (outcome, store) := (← get).store.replace file content refusals
  modify fun session => { session with store }
  orStoreError file outcome
  tell verbose (.replaced file content.length)

/-- Shows the result as the options ask. A status of 1 only tells that there are differences. -/
def display (programs : Programs) (options : Options) (content : List UInt8) : Command Unit := do
  if options.showDiff then
    let status ← runDiff programs options.verbose options.diffCommand options.file content
    if 1 < status then
      throw (.tool options.diffCommand status)
  else if !options.write then
    print content

/-- Formats a file and delivers the result as the options ask. -/
def formatFile (programs : Programs) (refusals : Refusals) (options : Options) :
    Command Unit := do
  let data ← readFile refusals options.file
  let text ← formatSource options.verbose options.file (.bytes data)
  let content := Text.encode text
  tell options.verbose (.formatted options.file data.length content.length)
  display programs options content
  if options.write then
    replaceFile refusals options.verbose options.file content

structure Outcome where
  status : Nat
  session : Session
  deriving Repr

/-- The text about the use of the command. -/
def usage : Text :=
  "Usage: dpfmt [OPTIONS] FILE\n" ++
  "\n" ++
  "  Format a dp source FILE.\n" ++
  "\n" ++
  "Options:\n" ++
  "  -d, --diff           Display a diff instead of printing the result.\n" ++
  "  -w, --write          Write the result to the source file instead of stdout.\n" ++
  "  --diff-command TEXT  Diff tool used by --diff.  [default: diff]\n" ++
  "  -v, --verbose        Enable debug logging.\n" ++
  "  --version            Show the version and exit.\n" ++
  "  -h, --help           Show this message and exit.\n"

def versionText : Text := "dpfmt, version 0.1.0\n"

/-- Carries out a request. The message of an error is written without control sequences, which a
file name may hold. -/
def fulfil (programs : Programs) (refusals : Refusals) (session : Session) : Request → Outcome
  | .misuse => ⟨2, { session with err := session.err ++ Text.encode usage }⟩
  | .showVersion => ⟨0, { session with out := session.out ++ Text.encode versionText }⟩
  | .showHelp => ⟨0, { session with out := session.out ++ Text.encode usage }⟩
  | .format options =>
    if session.store.isDirectory options.file then
      ⟨2, { session with err := session.err ++ Text.encode usage }⟩
    else
      match (formatFile programs refusals options).run.run session with
      | (.ok (), session) => ⟨0, session⟩
      | (.error error, session) =>
        let message := Text.withoutSequences (error.report.renderFor options.file ++ ['\n'])
        ⟨1, { session with err := session.err ++ Text.encode message }⟩

/-- Runs the command with the given arguments on the files of a store. -/
def run (programs : Programs) (preferredDiff : Option Text) (arguments : List Text)
    (store : Store) (refusals : Refusals := []) : Outcome :=
  fulfil programs refusals { store } (Options.parse preferredDiff arguments)

end Command

end DpLang

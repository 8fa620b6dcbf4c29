import DpLang.Text.Basic

/-!
# Command-line options

Options may stand before and behind the file name. Short ones can be put together, a value follows
its option behind a blank or an equals sign, and two dashes end the options.
-/

namespace DpLang

/-- What the command is asked to do with a file. -/
structure Options where
  showDiff : Bool := false
  write : Bool := false
  verbose : Bool := false
  diffCommand : Text
  file : Text
  deriving DecidableEq, Repr

/-- What a command line asks for. -/
inductive Request where
  | format (options : Options)
  | showVersion
  | showHelp
  /-- The command line makes no sense. -/
  | misuse
  deriving DecidableEq, Repr

/-- The arguments of a command line as far as they have been read. -/
structure Arguments where
  showDiff : Bool := false
  write : Bool := false
  verbose : Bool := false
  diffCommand : Option Text := none
  /-- The first option that asks for information instead of work. -/
  information : Option Request := none
  files : List Text := []
  deriving DecidableEq, Repr

namespace Arguments

/-- Records an option that asks for information. The first one counts. -/
def inform (a : Arguments) (request : Request) : Arguments :=
  { a with information := a.information <|> some request }

/-- Sets the option with a long name that takes no value. -/
def setLong? (a : Arguments) (name : Text) : Option Arguments :=
  if name = ("--diff" : Text) then some { a with showDiff := true }
  else if name = ("--write" : Text) then some { a with write := true }
  else if name = ("--verbose" : Text) then some { a with verbose := true }
  else if name = ("--version" : Text) then some (a.inform .showVersion)
  else if name = ("--help" : Text) then some (a.inform .showHelp)
  else none

def setShort? (a : Arguments) (name : Char) : Option Arguments :=
  if name = 'd' then some { a with showDiff := true }
  else if name = 'w' then some { a with write := true }
  else if name = 'v' then some { a with verbose := true }
  else if name = 'h' then some (a.inform .showHelp)
  else none

/-- The name of the option that takes a value. -/
def diffOption : Text := "--diff-command"

/-- The value behind the name and the equals sign of the option that takes one. -/
def diffValue? (argument : Text) : Option Text :=
  let start := diffOption ++ ['=']
  if start.isPrefixOf argument then some (argument.drop start.length) else none

/-- Reads the arguments that follow. There is no result if one of them is unknown or lacks its
value. -/
def read? (a : Arguments) : List Text → Option Arguments
  | [] => some a
  | argument :: rest =>
    if argument = ("--" : Text) then some { a with files := a.files ++ rest }
    else if argument = diffOption then
      match rest with
      | [] => none
      | value :: rest => read? { a with diffCommand := some value } rest
    else
      match diffValue? argument, argument with
      | some value, _ => read? { a with diffCommand := some value } rest
      | none, '-' :: '-' :: _ => (a.setLong? argument).bind fun a => read? a rest
      | none, '-' :: c :: names =>
        ((c :: names).foldlM setShort? a).bind fun a => read? a rest
      | none, _ => read? { a with files := a.files ++ [argument] } rest

end Arguments

namespace Options

/-- The diff tool that is used if no other one is asked for. -/
def defaultDiffCommand : Text := "diff"

/-- What a command line asks for. `preferred` names the diff tool of the environment, which counts
unless it is empty. -/
def parse (preferred : Option Text) (arguments : List Text) : Request :=
  match Arguments.read? {} arguments with
  | none => .misuse
  | some a =>
    match a.information, a.files with
    | some request, _ => request
    | none, [file] =>
      let preferred := (preferred.filter (!·.isEmpty)).getD defaultDiffCommand
      .format
        { showDiff := a.showDiff
          write := a.write
          verbose := a.verbose
          diffCommand := a.diffCommand.getD preferred
          file }
    | none, _ => .misuse

end Options

end DpLang

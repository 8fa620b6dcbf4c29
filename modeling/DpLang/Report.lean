import DpLang.Position

/-!
# Error reports

A report tells what is wrong and where. Where several readings of the source were tried and all of
them failed, the report holds one report for each.
-/

namespace DpLang

/-- What can be wrong with a source text. -/
inductive Fault where
  /-- No token starts here. -/
  | illegalToken
  | invalidEncoding
  /-- None of the possible readings fits. -/
  | noAlternative
  /-- The next token does not fit; the message tells what was expected. -/
  | unexpectedToken (message : Text)
  /-- Operators of different precedence stand side by side. -/
  | mixedPrecedence
  | missingParameterType
  /-- The word behind a field is no access mode. -/
  | unknownAccess
  /-- A list that needs a member has none. -/
  | emptyList (context : Text)
  | unquotedImport
  | emptyImport
  deriving DecidableEq, Repr

namespace Fault

/-- The code of a fault: `L` for a fault of the tokens, `P` for one of their order. -/
def code : Fault → Text
  | illegalToken => "L001"
  | invalidEncoding => "L002"
  | noAlternative => "P001"
  | unexpectedToken _ => "P002"
  | mixedPrecedence => "P003"
  | missingParameterType => "P004"
  | unknownAccess => "P005"
  | emptyList _ => "P006"
  | unquotedImport => "P007"
  | emptyImport => "P007"

def message : Fault → Text
  | illegalToken => "illegal token"
  | invalidEncoding => "invalid UTF-8 encoding"
  | noAlternative => "syntax error"
  | unexpectedToken message => message
  | mixedPrecedence => "operators have different precedence"
  | missingParameterType => "function parameter type expected"
  | unknownAccess => "visible, mutable or assignable keyword expected"
  | emptyList context => context ++ ": empty list"
  | unquotedImport => "import path: opening quote expected"
  | emptyImport => "import: path or identifier list expected"

/-- Is the fault one of the tokens, found before their order is looked at? -/
def isLexical : Fault → Bool
  | illegalToken => true
  | invalidEncoding => true
  | _ => false

end Fault

/-- What is wrong, where, and why. -/
inductive Report where
  /-- A message that belongs to no place in a source text. -/
  | plain (message : Text)
  /-- A fault at a position, with the reports of the readings that were tried there. -/
  | located (position : Position) (fault : Fault) (causes : List Report)
  deriving Repr, Inhabited

namespace Report

def ofFault (position : Position) (fault : Fault) : Report := .located position fault []

/-- What stands in front of a message: the path if there is one, then line and column if they are
known. -/
def place (p : Position) : Text :=
  (if p.path.isEmpty then [] else p.path ++ [':']) ++
    (if p.line > 0 then
      Text.zeroPadded 4 p.line ++ [':'] ++ Text.zeroPadded 3 p.column ++ [':', ' ']
    else [])

mutual
/-- The lines of a report: one for each fault, before those of its causes. `indent` stands in front
of the message, with two more blanks for each level of causes. -/
def lines (indent : Text) : Report → List Text
  | .plain message => [indent ++ message]
  | .located position fault causes =>
    (place position ++ indent ++ fault.message ++ if causes.isEmpty then [] else [':']) ::
      causeLines (' ' :: ' ' :: indent) causes

def causeLines (indent : Text) : List Report → List Text
  | [] => []
  | cause :: causes => lines indent cause ++ causeLines indent causes
end

/-- The report as text, with `indent` in front of the messages. -/
def render (indent : Text) (report : Report) : Text := Text.join ['\n'] (report.lines indent)

/-- The report as the command line shows it: a message without a place gets the name `fallback`, if
that is not empty. -/
def renderFor (fallback : Text) : Report → Text
  | .plain message => if fallback.isEmpty then message else fallback ++ ": " ++ message
  | report => report.render []

mutual
/-- The located faults of a report, each before its causes. -/
def faults : Report → List (Position × Fault)
  | .plain _ => []
  | .located position fault causes => (position, fault) :: causeFaults causes

def causeFaults : List Report → List (Position × Fault)
  | [] => []
  | cause :: causes => faults cause ++ causeFaults causes
end

end Report

end DpLang

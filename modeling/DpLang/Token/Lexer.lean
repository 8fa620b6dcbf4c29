import DpLang.Report
import DpLang.Text.Letter
import DpLang.Token.Basic

/-!
# Cutting a text into tokens

`lexeme?` finds the token at the front of a text by its first character and takes as much as
belongs to it. `tokenize` repeats this to the end of the text. Every character ends up in a token;
the first place where no token starts is an error.
-/

namespace DpLang

namespace Token

def isWordStart (c : Char) : Bool := c == '_' || Text.isLetter c

/-- Can `c` stand inside a word? -/
def isWordChar (c : Char) : Bool := isWordStart c || Text.isDigit c

/-- Is `c` a blank other than the line feed? -/
def isSpaceChar (c : Char) : Bool := c != '\n' && Text.isBlank c

/-- The kind of the literals that stand between two marks `c`. -/
def quoteKind? (c : Char) : Option TokenKind :=
  if c = '\'' then some .character else if c = '"' || c = '\x60' then some .string else none

/-- The rest of a quoted literal, up to and including the first `mark` that has no backslash in
front of it. -/
def quotedRest? (mark : Char) : Text → Option Text
  | [] => none
  | c :: rest =>
    if c = '\\' then
      match rest with
      | [] => none
      | escaped :: rest => (quotedRest? mark rest).map (c :: escaped :: ·)
    else if c = mark then some [c]
    else (quotedRest? mark rest).map (c :: ·)

/-- The kind of a word: a reserved word has a kind of its own. -/
def wordKind (word : Text) : TokenKind :=
  match Keyword.ofWord? word with
  | some keyword => .keyword keyword
  | none => .word

/-- The kind and text of the token at the front of a text. -/
def lexeme? (t : Text) : Option (TokenKind × Text) :=
  match t with
  | [] => none
  | c :: rest =>
    if c = '\n' then some (.newline, [c])
    else if Text.isBlank c then some (.space, c :: rest.takeWhile isSpaceChar)
    else if c = '/' && rest.head? == some '/' then some (.comment, c :: rest.takeWhile (· != '\n'))
    else if isWordStart c then
      let word := c :: rest.takeWhile isWordChar
      some (wordKind word, word)
    else if Text.isDigit c then some (.integer, c :: rest.takeWhile Text.isDigit)
    else
      match quoteKind? c with
      | some kind => (quotedRest? c rest).map fun text => (kind, c :: text)
      | none => (Symbol.atFront? t).map fun s => (.symbol s, s.spelling)

/-- Cuts a text that starts at `p` into at most `fuel` tokens. Every token takes at least one
character, so the length of the text is fuel enough. -/
def tokenizeWithin : Nat → Position → Text → Except Report (List Token)
  | _, _, [] => .ok []
  | 0, p, _ :: _ => .error (.ofFault p .illegalToken)
  | fuel + 1, p, t =>
    match lexeme? t with
    | none => .error (.ofFault p .illegalToken)
    | some (kind, text) => do
      let tokens ← tokenizeWithin fuel (p.after text) (t.drop text.length)
      return ⟨p, kind, text⟩ :: tokens

end Token

/-- The tokens of a text that starts at `p`. -/
def tokenize (p : Position) (t : Text) : Except Report (List Token) :=
  Token.tokenizeWithin t.length p t

end DpLang

import DpLang.Text.Utf8
import DpLang.Token.Lexer

/-!
# Source texts as they are read

A source comes as text, as bytes, or as code points that may include surrogates. Only what UTF-8
can store is accepted; the first thing it cannot store is an error at its place, whatever else is
wrong with the source.
-/

namespace DpLang

/-- A source text before it is known to be one. -/
inductive Source where
  | text (text : Text)
  | bytes (bytes : List UInt8)
  | codePoints (numbers : List Nat)
  deriving Repr

namespace Source

/-- Is the number that of a character? Surrogates are not. -/
def isScalar (n : Nat) : Bool := n < 0xD800 || (0xDFFF < n && n < 0x110000)

/-- The longest front part of a source that is text, and whether that is all of it. -/
def readable : Source → Text × Bool
  | text t => (t, true)
  | bytes b =>
    let (t, rest) := Text.decode b
    (t, rest.isEmpty)
  | codePoints ns => ((ns.takeWhile isScalar).map Char.ofNat, ns.all isScalar)

/-- The text of a source that starts at `p`. -/
def decode (p : Position) (source : Source) : Except Report Text :=
  let (t, complete) := source.readable
  if complete then .ok t else .error (.ofFault (p.after t) .invalidEncoding)

def tokenize (p : Position) (source : Source) : Except Report (List Token) := do
  DpLang.tokenize p (← source.decode p)

end Source

end DpLang

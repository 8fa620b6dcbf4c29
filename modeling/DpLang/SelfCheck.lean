import DpLang.Format

/-!
# Self check

A small program is pushed through the whole pipeline. The check passes if the result is as expected
and a second run does not change it.
-/

namespace DpLang.SelfCheck

def path : Text := "smoke.dp"

def expected : Text :=
  "import \x7b\n" ++
  "\t\"example.org/x\" (Foo)\n" ++
  "\x7d\n" ++
  "\n" ++
  "pub main(a, b int) int \x7b\n" ++
  "\tx := a + b*2\n" ++
  "\treturn x\n" ++
  "\x7d\n"

/-- Whether a check passes, and what it prints. -/
structure Verdict where
  passed : Bool
  output : Text
  deriving Repr

def banner : Text :=
  "dp Front End Test Suite\n" ++
  "============================================================\n" ++
  "✅ All modules imported successfully\n" ++
  "\n" ++
  "Testing the format pipeline...\n"

def failed (output : Text) (error : FormatError) : Verdict :=
  ⟨false, output ++ ("❌ Pipeline test FAILED: " : Text) ++ error.report.render [] ++ ['\n']⟩

/-- Checks that `source` is formatted as `wanted` and that this does not change again. -/
def run (source wanted : Text) : Verdict :=
  let output := banner ++ ("  🔧 Lexing...\n" : Text)
  match readTokens path (.text source) with
  | .error error => failed output error
  | .ok tokens =>
    let output := output ++ ("     Generated " : Text) ++ Text.ofNat tokens.length ++
      (" tokens\n  🔧 Parsing...\n" : Text)
    match readNodes tokens with
    | .error error => failed output error
    | .ok nodes =>
      let output := output ++ ("     Generated " : Text) ++ Text.ofNat nodes.length ++
        (" top-level nodes\n  🔧 Formatting...\n" : Text)
      match writeNodes nodes with
      | .error error => failed output error
      | .ok text =>
        if text ≠ wanted then
          ⟨false, output ++ ("     ❌ Unexpected output:\n" : Text) ++ text ++ ['\n']⟩
        else
          match format path (.text text) with
          | .error error => failed output error
          | .ok again =>
            if again ≠ text then
              ⟨false, output ++ ("     ❌ Formatting is not idempotent\n" : Text)⟩
            else ⟨true, output ++ ("     ✅ Output is canonical and stable\n\n" : Text)⟩

end DpLang.SelfCheck

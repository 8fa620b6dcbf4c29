import DpLang.Text.Basic
import DpLang.Text.Case

/-!
# Lower case

Lower-casing maps every capital to its small letter. Two characters need more than that: a capital
I with a dot above becomes two characters, and a capital sigma is written in its final form at the
end of a word.
-/

namespace DpLang.Text

/-- The lower-case mapping of a character by itself. -/
def smallLetter (c : Char) : Char :=
  match capitalRuns.find? fun run =>
      run.first ≤ c.toNat && c.toNat ≤ run.last && (c.toNat - run.first) % run.step == 0 with
  | some run => Char.ofNat (c.toNat + run.shift).toNat
  | none => c

/-- Is the first character of `t` that is not passed over one with case? -/
def startsCased (t : Text) : Bool :=
  match t.dropWhile isCaseIgnorable with
  | [] => false
  | c :: _ => isCased c

/-- Lower case of `c` between `before`, nearest character first, and `after`. A capital sigma ends
a word if a character with case stands before it and none after it. -/
def lowerBetween (before : Text) (c : Char) (after : Text) : Text :=
  if c.toNat = 0x130 then ['i', Char.ofNat 0x307]
  else if c.toNat = 0x3A3 && startsCased before && !startsCased after then [Char.ofNat 0x3C2]
  else [smallLetter c]

/-- Lower case of a text that follows `before`, which is given nearest character first. -/
def lowerAfter (before : Text) : Text → Text
  | [] => []
  | c :: rest => lowerBetween before c rest ++ lowerAfter (c :: before) rest

def lower (t : Text) : Text := lowerAfter [] t

end DpLang.Text

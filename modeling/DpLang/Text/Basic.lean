/-!
# Text

A text is the list of its characters. Lengths, columns and widths count characters, whatever the
number of bytes that store them. The functions here write numbers, cut texts into pieces and put
them together again.

Between tokens stand blank characters. At the ends of a comment the four information separators are
blank as well, and `strip` removes all of them there. Other properties of characters are given by the
inclusive ranges of the code points that have them, in increasing order.
-/

namespace DpLang

/-- A text, as the list of its characters. -/
abbrev Text := List Char

instance : Coe String Text := ⟨String.toList⟩

namespace Text

/-- The decimal digits of a natural number. -/
def ofNat (n : Nat) : Text := Nat.toDigits 10 n

/-- A whole number in decimal. -/
def ofInt (n : Int) : Text := if n < 0 then '-' :: ofNat n.natAbs else ofNat n.natAbs

/-- A whole number in decimal with zeros in front of its digits, at least `width` characters long.
A minus sign comes first and counts. -/
def zeroPadded (width : Nat) (n : Int) : Text :=
  if n < 0 then '-' :: (ofNat n.natAbs).leftpad (width - 1) '0'
  else (ofNat n.natAbs).leftpad width '0'

/-- The pieces of a text between the occurrences of `mark`: one more than there are marks. -/
def splitOn (mark : Char) : Text → List Text
  | [] => [[]]
  | c :: rest =>
    if c = mark then [] :: splitOn mark rest
    else
      match splitOn mark rest with
      | [] => [[c]]
      | piece :: pieces => (c :: piece) :: pieces

/-- `pieces` with `separator` between neighbours. -/
def join (separator : Text) (pieces : List Text) : Text := List.intercalate separator pieces

/-- How many lines end in the text. -/
def newlines (t : Text) : Nat := t.count '\n'

/-- How many bytes store the text in UTF-8. -/
def byteLength (t : Text) : Nat := t.foldl (fun n c => n + c.utf8Size) 0

/-- Comparison by code points, the shorter of two texts first where one starts the other. -/
def le (a b : Text) : Bool := !List.lex b a fun c d => c.toNat < d.toNat

/-- Blank characters: tab, line feed, vertical tab, form feed, carriage return, space, next line
and the space separators of Unicode. -/
def isBlank (c : Char) : Bool :=
  let n := c.toNat
  (0x09 ≤ n && n ≤ 0x0D) || n == 0x20 || n == 0x85 || n == 0xA0 || n == 0x1680 ||
    (0x2000 ≤ n && n ≤ 0x200A) || n == 0x2028 || n == 0x2029 || n == 0x202F || n == 0x205F ||
    n == 0x3000

/-- Characters that `strip` removes: the blank ones and the four information separators. -/
def isStripped (c : Char) : Bool := isBlank c || (0x1C ≤ c.toNat && c.toNat ≤ 0x1F)

/-- The text without the stripped characters at its ends. -/
def strip (t : Text) : Text :=
  ((t.dropWhile isStripped).reverse.dropWhile isStripped).reverse

/-- Inclusive ranges of code points, in increasing order. -/
abbrev CodeRanges := List (Nat × Nat)

/-- Does one of the ranges hold `n`? The ranges increase, so the search ends at the first one that
starts above `n`. -/
def CodeRanges.contains : CodeRanges → Nat → Bool
  | [], _ => false
  | (low, high) :: ranges, n =>
    if n < low then false else if n ≤ high then true else CodeRanges.contains ranges n

end Text

end DpLang

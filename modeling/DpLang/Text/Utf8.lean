import DpLang.Text.Basic

/-!
# UTF-8

`decode` reads as many well-formed characters as stand at the front of a byte string and returns
what is left, so a byte string is well formed exactly when nothing is left. Overlong forms,
surrogates and numbers above U+10FFFF are not well formed.
-/

namespace DpLang.Text

/-- Is `b` a byte inside a character, after its first one? -/
def isContinuation (b : UInt8) : Bool := 0x80 ≤ b && b ≤ 0xBF

/-- The six bits a continuation byte carries. -/
def continuationBits (b : UInt8) : Nat := b.toNat % 64

/-- The well-formed character at the front of a byte string, with its number of bytes. -/
def decodeChar? : List UInt8 → Option (Char × Nat)
  | [] => none
  | a :: rest =>
    if a ≤ 0x7F then some (Char.ofNat a.toNat, 1)
    else if 0xC2 ≤ a && a ≤ 0xDF then
      match rest with
      | b :: _ =>
        if isContinuation b then
          some (Char.ofNat ((a.toNat - 0xC0) * 64 + continuationBits b), 2)
        else none
      | _ => none
    else if 0xE0 ≤ a && a ≤ 0xEF then
      match rest with
      | b :: c :: _ =>
        if isContinuation b && isContinuation c && (a != 0xE0 || 0xA0 ≤ b) &&
            (a != 0xED || b ≤ 0x9F) then
          some (Char.ofNat (((a.toNat - 0xE0) * 64 + continuationBits b) * 64 +
            continuationBits c), 3)
        else none
      | _ => none
    else if 0xF0 ≤ a && a ≤ 0xF4 then
      match rest with
      | b :: c :: d :: _ =>
        if isContinuation b && isContinuation c && isContinuation d &&
            (a != 0xF0 || 0x90 ≤ b) && (a != 0xF4 || b ≤ 0x8F) then
          some (Char.ofNat ((((a.toNat - 0xF0) * 64 + continuationBits b) * 64 +
            continuationBits c) * 64 + continuationBits d), 4)
        else none
      | _ => none
    else none

/-- Decodes at most `fuel` characters. -/
def decodeWithin : Nat → List UInt8 → Text × List UInt8
  | 0, bytes => ([], bytes)
  | fuel + 1, bytes =>
    match decodeChar? bytes with
    | none => ([], bytes)
    | some (c, size) =>
      let (text, rest) := decodeWithin fuel (bytes.drop size)
      (c :: text, rest)

/-- The text of the longest well-formed front part of a byte string, and the bytes after it. -/
def decode (bytes : List UInt8) : Text × List UInt8 := decodeWithin bytes.length bytes

/-- The bytes that store a character. -/
def encodeChar (c : Char) : List UInt8 := String.utf8EncodeChar c

/-- The bytes that store a text. -/
def encode (t : Text) : List UInt8 := t.flatMap encodeChar

end DpLang.Text

/-!
# Text in bytes

UTF-8 in both directions a program meets it: a file either is UTF-8 or cannot
be read, whereas what another program printed is always read, with the
replacement character in place of each ill-formed stretch.

An ill-formed stretch is as long as it can be while it still looked like the
start of a character: `E2 82` before an `A` is one stretch, `E2` before an `A`
is one, and a byte that starts nothing is one by itself. The table of second
bytes is what keeps surrogates, overlong forms and numbers beyond `10FFFF` out.
-/

namespace TwinScheme.Text

/-- How many bytes follow a first byte, and the range its second byte must lie
in; `none` for a byte that starts no character of more than one byte. -/
def leadByte (b : UInt8) : Option (Nat × UInt8 × UInt8) :=
  if 0xC2 ≤ b && b ≤ 0xDF then some (1, 0x80, 0xBF)
  else if b == 0xE0 then some (2, 0xA0, 0xBF)
  else if b == 0xED then some (2, 0x80, 0x9F)
  else if 0xE1 ≤ b && b ≤ 0xEF then some (2, 0x80, 0xBF)
  else if b == 0xF0 then some (3, 0x90, 0xBF)
  else if b == 0xF4 then some (3, 0x80, 0x8F)
  else if 0xF1 ≤ b && b ≤ 0xF3 then some (3, 0x80, 0xBF)
  else none

/-- A character still being read: the value of the bytes so far, how many are
owed, and the range of the next one. -/
structure Pending where
  value : Nat
  owed : Nat
  low : UInt8
  high : UInt8

/-- The character that stands for an ill-formed stretch. -/
def replacement : Char :=
  '\uFFFD'

/-- What a byte does at the start of a character: complete one, open one, or
neither. -/
def decodeFirst (b : UInt8) : List Char × Option Pending :=
  if b < 0x80 then ([Char.ofNat b.toNat], none)
  else
    match leadByte b with
    | some (owed, low, high) =>
      ([], some ⟨b.toNat % (64 >>> owed), owed, low, high⟩)
    | none => ([replacement], none)

/-- Decodes bytes from a given point in a character, replacing each ill-formed
stretch. -/
def decodeFrom : Option Pending → List UInt8 → List Char
  | none, [] => []
  | some _, [] => [replacement]
  | none, b :: bytes =>
    let (chars, pending) := decodeFirst b
    chars ++ decodeFrom pending bytes
  | some p, b :: bytes =>
    if p.low ≤ b && b ≤ p.high then
      let value := p.value * 64 + b.toNat % 64
      if p.owed ≤ 1 then Char.ofNat value :: decodeFrom none bytes
      else decodeFrom (some ⟨value, p.owed - 1, 0x80, 0xBF⟩) bytes
    else
      let (chars, pending) := decodeFirst b
      replacement :: (chars ++ decodeFrom pending bytes)

/-- The text of some bytes, with a replacement character for each stretch that
is not UTF-8. -/
def decodeLossy (bytes : List UInt8) : String :=
  String.ofList (decodeFrom none bytes)

/-- The bytes of a text. -/
def encode (text : String) : List UInt8 :=
  text.toUTF8.toList

/-- The text of some bytes, if they are UTF-8 throughout. -/
def decode? (bytes : List UInt8) : Option String :=
  let text := decodeLossy bytes
  if encode text = bytes then some text else none

end TwinScheme.Text

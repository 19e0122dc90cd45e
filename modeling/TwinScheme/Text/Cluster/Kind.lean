import TwinScheme.Text.Cluster.Conjunct
import TwinScheme.Text.Cluster.Pictograph
import TwinScheme.Text.Cluster.Spacing
import TwinScheme.Text.Mark

/-!
# Kinds of characters in clusters

What matters of a character when a text is divided into clusters, which are
what a reader takes for single characters: the Unicode property
Grapheme_Cluster_Break (version 17), with the pictographs and the parts of
conjuncts told apart from the rest.
-/

namespace TwinScheme.Text

/-- The part that a character can play in a cluster. -/
inductive Kind where
  /-- Any character that no other kind is for. -/
  | other
  | control
  | carriageReturn
  | lineFeed
  /-- Attached to what precedes it. -/
  | extender
  /-- An extender that merges the consonants around it. -/
  | linker
  /-- The extender that keeps consonants apart. -/
  | nonJoiner
  /-- Attached, and joins the pictographs around it. -/
  | joiner
  | spacing
  /-- Attached to what follows it. -/
  | prepended
  /-- A half of a flag. -/
  | regional
  /-- A consonant before the vowel of a Hangul syllable. -/
  | leading
  | vowel
  /-- A consonant after the vowel of a Hangul syllable. -/
  | trailing
  | openSyllable
  | closedSyllable
  | pictograph
  | consonant
  deriving DecidableEq, Repr

/-- The code points of the controls, the two line controls left out. -/
def controlRanges : List (Nat × Nat) :=
  [(0x0, 0x9), (0xB, 0xC), (0xE, 0x1F), (0x7F, 0x9F), (0xAD, 0xAD), (0x61C, 0x61C),
    (0x180E, 0x180E), (0x200B, 0x200B), (0x200E, 0x200F), (0x2028, 0x202E), (0x2060, 0x206F),
    (0xFEFF, 0xFEFF), (0xFFF0, 0xFFFB), (0x13430, 0x1343F), (0x1BCA0, 0x1BCA3), (0x1D173, 0x1D17A),
    (0xE0000, 0xE001F), (0xE0080, 0xE00FF), (0xE01F0, 0xE0FFF)]

/-- The code points of the extenders that are not marks: the halfwidth voicing
marks of katakana, the skin tones and the tags. -/
def extenderRanges : List (Nat × Nat) :=
  [(0xFF9E, 0xFF9F), (0x1F3FB, 0x1F3FF), (0xE0020, 0xE007F)]

/-- The code points of the characters that attach to what follows them. -/
def prependedRanges : List (Nat × Nat) :=
  [(0x600, 0x605), (0x6DD, 0x6DD), (0x70F, 0x70F), (0x890, 0x891), (0x8E2, 0x8E2), (0xD4E, 0xD4E),
    (0x110BD, 0x110BD), (0x110CD, 0x110CD), (0x111C2, 0x111C3), (0x113D1, 0x113D1),
    (0x1193F, 0x1193F), (0x11941, 0x11941), (0x11A84, 0x11A89), (0x11D46, 0x11D46),
    (0x11F02, 0x11F02)]

/-- The code points of the halves of flags. -/
def regionalRanges : List (Nat × Nat) :=
  [(0x1F1E6, 0x1F1FF)]

/-- The code points of the leading consonants of Hangul. -/
def leadingRanges : List (Nat × Nat) :=
  [(0x1100, 0x115F), (0xA960, 0xA97C)]

/-- The code points of the vowels of Hangul and of Kirat Rai, which are put
together alike. -/
def vowelRanges : List (Nat × Nat) :=
  [(0x1160, 0x11A7), (0xD7B0, 0xD7C6), (0x16D63, 0x16D63), (0x16D67, 0x16D6A)]

/-- The code points of the trailing consonants of Hangul. -/
def trailingRanges : List (Nat × Nat) :=
  [(0x11A8, 0x11FF), (0xD7CB, 0xD7FB)]

namespace Kind

/-- The kind of a Hangul syllable. The syllables are in order, and each without
a trailing consonant is followed by the twenty-seven that have one. -/
def ofSyllable (c : Char) : Kind :=
  if (c.toNat - 0xAC00) % 28 = 0 then openSyllable else closedSyllable

/-- The kind of a character. -/
def ofChar (c : Char) : Kind :=
  if ' ' ≤ c && c ≤ '~' then other
  else if c = '\n' then lineFeed
  else if c = '\r' then carriageReturn
  else if c = '\u200C' then nonJoiner
  else if c = '\u200D' then joiner
  else if inRanges controlRanges c then control
  else if linkerCodes.contains c.toNat then linker
  else if isMark c || inRanges extenderRanges c then extender
  else if inRanges spacingRanges c then spacing
  else if inRanges prependedRanges c then prepended
  else if inRanges regionalRanges c then regional
  else if inRanges leadingRanges c then leading
  else if inRanges vowelRanges c then vowel
  else if inRanges trailingRanges c then trailing
  else if inRanges [(0xAC00, 0xD7A3)] c then ofSyllable c
  else if inRanges pictographRanges c then pictograph
  else if inRanges consonantRanges c then consonant
  else other

/-- Whether the kind is alone in its cluster, line endings apart. -/
def isSeparate : Kind → Bool
  | control | carriageReturn | lineFeed => true
  | _ => false

/-- Whether the kind extends what precedes it and does nothing else to the
pictographs around it. -/
def isExtender : Kind → Bool
  | extender | linker | nonJoiner => true
  | _ => false

/-- Whether the kind may stand between the consonants of a conjunct. -/
def isBetweenConsonants : Kind → Bool
  | extender | linker | joiner => true
  | _ => false

/-- Whether the kind belongs to what precedes it, whatever that is. -/
def isAttached (kind : Kind) : Bool :=
  kind.isExtender || kind == joiner || kind == spacing

end Kind

end TwinScheme.Text

import DocQuery.Text.Digits

/-! # Percent-encoding

A set says which characters are written as the percent-encoded bytes of their UTF-8 form. Every set
holds the control characters and all characters beyond ASCII.
-/
namespace DocQuery.Url

def isControl (c : Char) : Bool := c.val < 0x20 || 0x7e < c.val

def inFragmentSet (c : Char) : Bool :=
  isControl c || c = ' ' || c = '"' || c = '<' || c = '>' || c = '\x60'

def inQuerySet (c : Char) : Bool :=
  isControl c || c = ' ' || c = '"' || c = '#' || c = '<' || c = '>'

/-- The query of a special scheme, where an apostrophe is encoded too. -/
def inSpecialQuerySet (c : Char) : Bool := inQuerySet c || c = '\x27'

def inPathSet (c : Char) : Bool :=
  inFragmentSet c || c = '#' || c = '?' || c = '\x7b' || c = '\x7d'

def inUserinfoSet (c : Char) : Bool :=
  inPathSet c || c = '/' || c = ':' || c = ';' || c = '=' || c = '@' || c = '[' || c = '\\' ||
    c = ']' || c = '^' || c = '|'

def upperHex (n : Nat) : Char := (Nat.digitChar n).toUpper

def encodeByte (b : UInt8) : List Char :=
  ['%', upperHex (b.toNat / 16), upperHex (b.toNat % 16)]

def encodeChar (set : Char → Bool) (c : Char) : List Char :=
  if set c then (String.utf8EncodeChar c).flatMap encodeByte else [c]

def encode (set : Char → Bool) (cs : List Char) : List Char := cs.flatMap (encodeChar set)

/-- The byte of two hexadecimal digits, as the character of that code. -/
def hexByte (h l : Char) : Option Char := do
  let h ← Text.hexDigit? h
  let l ← Text.hexDigit? l
  return Char.ofNat (h * 16 + l)

/-- Replaces every percent-encoded byte by the character of that code; a percent sign that is not
followed by two hexadecimal digits stays. Bytes beyond ASCII do not become the characters they
spell, but they stay outside ASCII, which is all that is asked of them. -/
def decodeBytes : List Char → List Char
  | '%' :: h :: l :: r => match hexByte h l with
    | some b => b :: decodeBytes r
    | none => '%' :: decodeBytes (h :: l :: r)
  | c :: cs => c :: decodeBytes cs
  | [] => []
termination_by structural cs => cs

end DocQuery.Url

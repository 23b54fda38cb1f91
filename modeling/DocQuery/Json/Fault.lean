import DocQuery.Json.Printer

/-! # What can go wrong when JSON is read

A cause says what is wrong. A fault found in a text is settled at a place, the number of bytes that
are left there, or still open: then it belongs to the end of the innermost construct being read,
and `rest` is the text still unread. A fault that stays open to the end has no position.
-/
namespace DocQuery.Json

inductive Found where
  | null
  | bool (b : Bool)
  | number (n : Number)
  | string (s : String)
  | sequence
  | map
  deriving DecidableEq

inductive Cause where
  | endInList
  | endInObject
  | endInString
  | endInValue
  | expectedColon
  | expectedListEnd
  | expectedObjectEnd
  | expectedIdent
  | expectedValue
  | invalidEscape
  | invalidNumber
  | numberOutOfRange
  | controlCharacter
  | keyNotString
  | loneSurrogate
  | trailingComma
  | trailingCharacters
  | unfinishedSurrogate
  | recursionLimit
  | invalidType (found : Found) (expected : String)
  | invalidMap (expected : String)
  | invalidLength (length : Nat) (expected : String)
  | missingField (name : String)
  | duplicateField (name : String)
  | unknownVariant (name : String) (known : List String)
  /-- The decoded data were refused, or a host value refused to be encoded. -/
  | refused (reason : String)
  | keyNotFinite
  deriving DecidableEq

inductive Place where
  | settled (left : Nat)
  | open (rest : List Char)
  deriving DecidableEq

structure Fault where
  cause : Cause
  place : Place
  deriving DecidableEq

def byteCount (cs : List Char) : Nat := cs.foldr (fun c n => c.utf8Size + n) 0

namespace Fault

/-- A fault just before `rest`. -/
def here (rest : List Char) (c : Cause) : Fault := ⟨c, .settled (byteCount rest)⟩

/-- A fault one byte into `rest`, or at its end if it is empty. -/
def next (rest : List Char) (c : Cause) : Fault := ⟨c, .settled (byteCount rest - 1)⟩

def pending (rest : List Char) (c : Cause) : Fault := ⟨c, .open rest⟩

/-- Settles an open fault after `skip` has read the end of the construct it belongs to. -/
def close (skip : List Char → List Char) (f : Fault) : Fault :=
  match f.place with
  | .settled _ => f
  | .open rest => here (skip rest) f.cause

end Fault

/-- A line and a column in bytes; the first line is 1, and column 0 is before its first byte. -/
structure Position where
  line : Nat
  column : Nat
  deriving DecidableEq, Repr

def Position.advance (p : Position) : List Char → Nat → Position
  | [], _ => p
  | c :: cs, offset =>
    if offset < c.utf8Size then { p with column := p.column + offset }
    else if c = '\n' then advance ⟨p.line + 1, 0⟩ cs (offset - c.utf8Size)
    else advance { p with column := p.column + c.utf8Size } cs (offset - c.utf8Size)

def Position.ofLeft (text : List Char) (left : Nat) : Position :=
  Position.advance ⟨1, 0⟩ text (byteCount text - left)

end DocQuery.Json

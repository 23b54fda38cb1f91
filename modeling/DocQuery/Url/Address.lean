import DocQuery.Text.Digits

/-! # Internet addresses

An address of four bytes is one number; one of sixteen bytes is eight pieces of 16 bits.
-/
namespace DocQuery.Url

open Text (decimalDigit? octalDigit? hexDigit? numeral)

/-- A part of a four-byte address: hexadecimal after `0x`, octal after another `0`, else decimal. -/
def addressPart (s : List Char) : Option Nat :=
  match s with
  | [] => none
  | '0' :: 'x' :: r => numeral 16 hexDigit? 0 r
  | '0' :: 'X' :: r => numeral 16 hexDigit? 0 r
  | '0' :: d :: r => numeral 8 octalDigit? 0 (d :: r)
  | s => numeral 10 decimalDigit? 0 s

/-- Whether a host name has to be read as an address: its last part, not counting one empty part
after a final dot, is a number. -/
def endsInNumber (s : List Char) : Bool :=
  let last := match (s.splitOn '.').reverse with
    | [] :: p :: _ => p
    | p :: _ => p
    | [] => []
  !last.isEmpty && last.all (fun c => (decimalDigit? c).isSome) || (addressPart last).isSome

/-- Every part but the last is a byte; the last fills the bytes that are left. -/
def ofParts : List Nat → Nat → Option Nat
  | [], _ => none
  | [last], bytes => if last < 1 <<< (8 * bytes) then some last else none
  | n :: ns, bytes =>
    if n < 256 then (ofParts ns (bytes - 1)).map (n <<< (8 * (bytes - 1)) + ·) else none

/-- The address of a host name that ends in a number. -/
def parseAddress4 (s : List Char) : Option Nat :=
  let parts := s.splitOn '.'
  let parts := if parts.getLast? = some [] then parts.dropLast else parts
  if 4 < parts.length then none
  else (parts.mapM addressPart).bind fun ns => ofParts ns 4

def address4Chars (n : Nat) : List Char :=
  Nat.toDigits 10 ((n >>> 24) % 256) ++ '.' :: Nat.toDigits 10 ((n >>> 16) % 256) ++
    '.' :: Nat.toDigits 10 ((n >>> 8) % 256) ++ '.' :: Nat.toDigits 10 (n % 256)

/-- At most `n` hexadecimal digits in front: their value, their number and what follows. -/
def takeHex : Nat → List Char → Nat → Nat × List Char
  | 0, s, v => (v, s)
  | n + 1, s, v => match s with
    | [] => (v, [])
    | c :: r => match hexDigit? c with
      | some d => takeHex n r (v * 16 + d)
      | none => (v, c :: r)

/-- A byte in decimal, without superfluous zeros. -/
def takeByte (s : List Char) : Option (Nat × List Char) :=
  let ds := s.takeWhile fun c => (decimalDigit? c).isSome
  match ds with
  | [] => none
  | '0' :: _ :: _ => none
  | _ => match numeral 10 decimalDigit? 0 ds with
    | some n => if n < 256 then some (n, s.drop ds.length) else none
    | none => none

/-- Four bytes with dots between them, to the end, as two pieces. -/
def trailingBytes (s : List Char) : Option (List Nat) := do
  let (a, s) ← takeByte s
  let (b, s) ← afterDot s
  let (c, s) ← afterDot s
  let (d, s) ← afterDot s
  if s.isEmpty then some [a * 256 + b, c * 256 + d] else none
where
  afterDot : List Char → Option (Nat × List Char)
    | '.' :: r => takeByte r
    | _ => none

/-- The pieces of a sixteen-byte address before and after its double colon, if it has one. -/
structure Pieces where
  before : List Nat
  after : Option (List Nat)

namespace Pieces

/-- The places taken so far; the double colon counts as one. -/
def count (p : Pieces) : Nat :=
  p.before.length + match p.after with
    | none => 0
    | some ps => ps.length + 1

def add (p : Pieces) (n : Nat) : Pieces :=
  match p.after with
  | none => { p with before := p.before ++ [n] }
  | some ps => { p with after := some (ps ++ [n]) }

/-- Eight pieces, with zeros in the place of the double colon. -/
def complete (p : Pieces) : Option (List Nat) :=
  match p.after with
  | none => if p.before.length = 8 then some p.before else none
  | some ps => some (p.before ++ List.replicate (8 - p.before.length - ps.length) 0 ++ ps)

end Pieces

/-- Reads pieces up to the end; `fuel` bounds their number. -/
def scanPieces : Nat → Pieces → List Char → Option Pieces
  | 0, _, _ => none
  | fuel + 1, p, s =>
    match s with
    | [] => some p
    | c :: r =>
      if p.count = 8 then none
      else if c = ':' then
        if p.after.isSome then none else scanPieces fuel { p with after := some [] } r
      else
        let (n, t) := takeHex 4 s 0
        match t with
        | [] => scanPieces fuel (p.add n) []
        | d :: t' =>
          if d = '.' then
            if t.length = s.length ∨ 6 < p.count then none
            else (trailingBytes s).map fun ns => ns.foldl Pieces.add p
          else if d = ':' then
            if t'.isEmpty then none else scanPieces fuel (p.add n) t'
          else none

def parseAddress6 (s : List Char) : Option (List Nat) :=
  match s with
  | ':' :: ':' :: r => (scanPieces 9 ⟨[], some []⟩ r).bind Pieces.complete
  | ':' :: _ => none
  | [] => none
  | [_] => none
  | s => (scanPieces 9 ⟨[], none⟩ s).bind Pieces.complete

def zeroRun : List Nat → Nat
  | 0 :: ps => zeroRun ps + 1
  | _ => 0

/-- The start and the length of the first longest run of zeros, `i` being the place of the first
piece. -/
def longestRun : Nat → List Nat → Nat × Nat
  | _, [] => (0, 0)
  | i, p :: ps =>
    let run := zeroRun (p :: ps)
    let later := longestRun (i + 1) ps
    if later.2 ≤ run then (i, run) else later

def colonSeparated : List Nat → List Char
  | [] => []
  | [p] => Nat.toDigits 16 p
  | p :: ps => Nat.toDigits 16 p ++ ':' :: colonSeparated ps

/-- The first longest run of at least two zeros is written as a double colon. -/
def address6Chars (ps : List Nat) : List Char :=
  let (start, run) := longestRun 0 ps
  if run < 2 then colonSeparated ps
  else colonSeparated (ps.take start) ++ [':', ':'] ++ colonSeparated (ps.drop (start + run))

end DocQuery.Url

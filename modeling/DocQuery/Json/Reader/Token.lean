import DocQuery.Json.Fault
import DocQuery.Text.Digits

/-! # Tokens

Each function takes the characters that are left and gives back a token and the characters after
it. A token fault is always settled.
-/
namespace DocQuery.Json

open Text (digitValue hexDigit?)

abbrev Reader (α : Type) := List Char → Except Fault (α × List Char)

def isBlank (c : Char) : Bool := c = ' ' || c = '\n' || c = '\t' || c = '\r'

def skipBlanks : List Char → List Char
  | [] => []
  | c :: cs => if isBlank c then skipBlanks cs else c :: cs

def readName : List Char → List Char → Except Fault (List Char)
  | [], s => .ok s
  | _ :: _, [] => .error (.here [] .endInValue)
  | c :: cs, x :: s => if x = c then readName cs s else .error (.next (x :: s) .expectedIdent)

def hexUnit (a b c d : Char) : Option Nat := do
  let a ← hexDigit? a
  let b ← hexDigit? b
  let c ← hexDigit? c
  let d ← hexDigit? d
  return ((a * 16 + b) * 16 + c) * 16 + d

/-- The fault of four bytes that are not four hexadecimal digits. -/
def hexFault (s : List Char) : Fault :=
  if byteCount s < 4 then ⟨.endInString, .settled 0⟩
  else ⟨.invalidEscape, .settled (byteCount s - 4)⟩

def unescape (c : Char) : Option Char :=
  if c = '"' ∨ c = '\\' ∨ c = '/' then some c
  else if c = 'b' then some '\x08'
  else if c = 'f' then some '\x0c'
  else if c = 'n' then some '\n'
  else if c = 'r' then some '\r'
  else if c = 't' then some '\t'
  else none

def isTrailing (n : Nat) : Bool := 0xDC00 ≤ n && n ≤ 0xDFFF

def isLeading (n : Nat) : Bool := 0xD800 ≤ n && n ≤ 0xDBFF

def pairChar (high low : Nat) : Char := Char.ofNat ((high - 0xD800) * 1024 + (low - 0xDC00) + 0x10000)

/-- Puts a character in front of a string that was read. -/
def push (c : Char) (r : Except Fault (List Char × List Char)) :
    Except Fault (List Char × List Char) :=
  match r with
  | .ok (cs, s) => .ok (c :: cs, s)
  | .error f => .error f

/-- The characters up to the closing quote, which is read too. -/
def readQuoted : Reader (List Char)
  | [] => .error (.here [] .endInString)
  | c :: s =>
    if c = '"' then .ok ([], s)
    else if c = '\\' then
      match s with
      | [] => .error (.here [] .endInString)
      | e :: s =>
        if e = 'u' then
          match s with
          | h₁ :: h₂ :: h₃ :: h₄ :: s' =>
            match hexUnit h₁ h₂ h₃ h₄ with
            | none => .error (hexFault s)
            | some n =>
              if isTrailing n then .error (.here s' .loneSurrogate)
              else if isLeading n then
                match s' with
                | [] => .error (.here [] .endInString)
                | b :: s₁ =>
                  if b ≠ '\\' then .error (.next s' .unfinishedSurrogate)
                  else match s₁ with
                  | [] => .error (.here [] .endInString)
                  | u :: s₂ =>
                    if u ≠ 'u' then .error (.next s₁ .unfinishedSurrogate)
                    else match s₂ with
                    | h₁ :: h₂ :: h₃ :: h₄ :: s₃ =>
                      match hexUnit h₁ h₂ h₃ h₄ with
                      | none => .error (hexFault s₂)
                      | some m =>
                        if isTrailing m then push (pairChar n m) (readQuoted s₃)
                        else .error (.here s₃ .loneSurrogate)
                    | _ => .error (hexFault s₂)
              else push (Char.ofNat n) (readQuoted s')
          | _ => .error (hexFault s)
        else match unescape e with
        | some x => push x (readQuoted s)
        | none => .error (.next (e :: s) .invalidEscape)
    else if c.val < 0x20 then .error (.next (c :: s) .controlCharacter)
    else push c (readQuoted s)
termination_by structural s => s

def readString (s : List Char) : Except Fault (String × List Char) :=
  match readQuoted s with
  | .ok (cs, r) => .ok (String.ofList cs, r)
  | .error f => .error f

def splitDigits (s : List Char) : List Char × List Char :=
  (s.takeWhile Char.isDigit, s.dropWhile Char.isDigit)

/-- Appends digits to a significand while it stays below `2 ^ 64`; counts those left out. -/
def absorb (n : Nat) : List Char → Nat × Nat
  | [] => (n, 0)
  | c :: cs =>
    if n * 10 + digitValue c < 0x10000000000000000 then absorb (n * 10 + digitValue c) cs
    else (n, cs.length + 1)

/-- The double of a sign, a significand and a decimal exponent. -/
def readDouble (negative : Bool) (n : Nat) (e : Int) : Reader Number := fun s =>
  match Double.ofDecimal n e with
  | some d => .ok (.double (if negative then d.neg else d), s)
  | none => .error (.here s .numberOutOfRange)

/-- The digits of an exponent below `2 ^ 31`, or what is left after the digit that passes it. -/
def readExponentDigits (n : Nat) : List Char → Except (List Char) (Nat × List Char)
  | [] => .ok (n, [])
  | c :: s =>
    if c.isDigit then
      if n * 10 + digitValue c < 0x80000000 then readExponentDigits (n * 10 + digitValue c) s
      else .error s
    else .ok (n, c :: s)

/-- The exponent after its sign; `e` is the exponent that the digits before it left. A huge
exponent makes zero of any significand if it is negative, and of zero in any case. -/
def readPower (negative : Bool) (n : Nat) (e : Int) (minus : Bool) : Reader Number
  | [] => .error (.here [] .endInValue)
  | c :: r =>
    if c.isDigit then
      match readExponentDigits (digitValue c) r with
      | .ok (k, r) => readDouble negative n (if minus then e - k else e + k) r
      | .error r =>
        if n ≠ 0 ∧ !minus then .error (.here r .numberOutOfRange)
        else .ok (.double (Double.zero negative), r.dropWhile Char.isDigit)
    else .error (.next (c :: r) .invalidNumber)

/-- Goes on with `f` after a first character of the class `p`, and with `g` if there is none. -/
def atHead {α : Type} (p : Char → Bool) (f g : Reader α) : Reader α
  | [] => g []
  | c :: r => if p c then f r else g (c :: r)

def readExponent (negative : Bool) (n : Nat) (e : Int) : Reader Number :=
  atHead (· = '+') (readPower negative n e false)
    (atHead (· = '-') (readPower negative n e true) (readPower negative n e false))

def isExponentMark (c : Char) : Bool := c = 'e' || c = 'E'

/-- What follows a fraction: an exponent or nothing. -/
def readScaled (negative : Bool) (n : Nat) (e : Int) : Reader Number :=
  atHead isExponentMark (readExponent negative n e) (readDouble negative n e)

def readFraction (negative : Bool) (n : Nat) (e : Int) : Reader Number := fun s =>
  let (ds, r) := splitDigits s
  if ds.isEmpty then
    .error (.next r (if r.isEmpty then .endInValue else .invalidNumber))
  else
    let (n, left) := absorb n ds
    readScaled negative n (e - (ds.length - left)) r

def readWhole (negative : Bool) (n left : Nat) : Reader Number := fun s =>
  if left ≠ 0 then readDouble negative n left s
  else if negative ∧ n = 0 then .ok (.double (Double.zero true), s)
  else match Number.ofInt? (if negative then -n else n) with
  | some i => .ok (i, s)
  | none => readDouble negative n 0 s

/-- What follows the integer part; `left` of its digits did not fit into the significand. -/
def readTail (negative : Bool) (n left : Nat) : Reader Number :=
  atHead (· = '.') (readFraction negative n left)
    (atHead isExponentMark (readExponent negative n left) (readWhole negative n left))

def readNumber (negative : Bool) : Reader Number
  | [] => .error (.here [] .endInValue)
  | c :: s =>
    if c = '0' then
      match s with
      | d :: _ => if d.isDigit then .error (.next s .invalidNumber) else readTail negative 0 0 s
      | [] => readTail negative 0 0 s
    else if c.isDigit then
      let (ds, r) := splitDigits (c :: s)
      let (n, left) := absorb 0 ds
      readTail negative n left r
    else .error (.next (c :: s) .invalidNumber)

end DocQuery.Json

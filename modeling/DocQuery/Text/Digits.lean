/-! # Digits and numerals -/
namespace DocQuery.Text

def digitValue (c : Char) : Nat := c.toNat - '0'.toNat

def decimalDigit? (c : Char) : Option Nat := if c.isDigit then some (digitValue c) else none

def octalDigit? (c : Char) : Option Nat :=
  if '0' ≤ c ∧ c ≤ '7' then some (digitValue c) else none

def hexDigit? (c : Char) : Option Nat :=
  if c.isDigit then some (digitValue c)
  else if 'a' ≤ c ∧ c ≤ 'f' then some (c.toNat - 'a'.toNat + 10)
  else if 'A' ≤ c ∧ c ≤ 'F' then some (c.toNat - 'A'.toNat + 10)
  else none

/-- The number written by digits of a base after the digits of `n`. -/
def numeral (base : Nat) (digit : Char → Option Nat) (n : Nat) : List Char → Option Nat
  | [] => some n
  | c :: cs => match digit c with
    | some d => numeral base digit (n * base + d) cs
    | none => none

def decimalValue (ds : List Char) : Nat := ds.foldl (fun n d => n * 10 + digitValue d) 0

end DocQuery.Text

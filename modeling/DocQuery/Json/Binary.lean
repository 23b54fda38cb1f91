/-! # Finite binary numbers

A layout fixes how many fraction bits a number has and how many values its exponent takes. A
number of the layout is finite by construction, and every operation rounds the exact rational
result once: to the nearest number, a tie to the even significand.
-/
namespace DocQuery.Json

/-- Fraction bits, exponent codes, and the code whose unit is `1`. -/
structure Layout where
  fractionBits : Nat
  exponents : Nat
  bias : Nat
  deriving DecidableEq, Repr

namespace Layout

def double : Layout := ⟨52, 2047, 1075⟩
def single : Layout := ⟨23, 255, 150⟩

def least (l : Layout) : Int := 1 - l.bias

def leadingBit (l : Layout) : Nat := 1 <<< l.fractionBits

theorem leadingBit_pos (l : Layout) : 0 < l.leadingBit := by
  rw [leadingBit, Nat.one_shiftLeft]
  exact Nat.two_pow_pos _

end Layout

/-- The sign, the exponent code and the fraction of a finite number. -/
structure Binary (l : Layout) where
  negative : Bool
  exponent : Fin l.exponents
  fraction : Fin l.leadingBit
  deriving DecidableEq, Repr

abbrev Double := Binary .double
abbrev Single := Binary .single

/-- `⌊log₂ (num / den)⌋` for positive arguments. -/
def ratioLog (num den : Nat) : Int :=
  let k : Int := num.log2 - den.log2
  if den <<< k.toNat ≤ num <<< (-k).toNat then k else k - 1

/-- `n / d` to the nearest integer, a tie to the even one. -/
def nearest (n d : Nat) : Nat :=
  let q := n / d
  let r := n % d
  if d < 2 * r ∨ 2 * r = d ∧ q % 2 = 1 then q + 1 else q

namespace Binary
variable {l : Layout}

/-- The integer significand: the absolute value is `significand * 2 ^ scale`. -/
def significand (x : Binary l) : Nat :=
  if x.exponent.val = 0 then x.fraction else l.leadingBit + x.fraction

def scale (x : Binary l) : Int := max x.exponent.val 1 - l.bias

def isZero (x : Binary l) : Bool := x.significand == 0

def isPositive (x : Binary l) : Bool := !x.negative && !x.isZero

def neg (x : Binary l) : Binary l := { x with negative := !x.negative }

/-- The number with a significand `m` below twice the leading bit and scale `e`; `none` above the
largest exponent. -/
def pack (l : Layout) (negative : Bool) (m : Nat) (e : Int) : Option (Binary l) :=
  let code := if m < l.leadingBit then 0 else (e + l.bias).toNat
  if h : code < l.exponents then
    some ⟨negative, ⟨code, h⟩, ⟨m % l.leadingBit, Nat.mod_lt _ l.leadingBit_pos⟩⟩
  else none

/-- The number nearest to `num / den`; `none` if that is beyond the largest one. -/
def ofRatio (l : Layout) (negative : Bool) (num den : Nat) : Option (Binary l) :=
  let e := max l.least (ratioLog num den - l.fractionBits)
  let m := nearest (num <<< (-e).toNat) (den <<< e.toNat)
  if m = 2 * l.leadingBit then pack l negative l.leadingBit (e + 1)
  else pack l negative m e

def ratio (x : Binary l) : Nat × Nat :=
  (x.significand <<< x.scale.toNat, 1 <<< (-x.scale).toNat)

def convert (l' : Layout) (x : Binary l) : Option (Binary l') :=
  ofRatio l' x.negative x.ratio.1 x.ratio.2

def mul (x y : Binary l) : Option (Binary l) :=
  ofRatio l (x.negative != y.negative) (x.ratio.1 * y.ratio.1) (x.ratio.2 * y.ratio.2)

def div (x y : Binary l) : Option (Binary l) :=
  ofRatio l (x.negative != y.negative) (x.ratio.1 * y.ratio.2) (x.ratio.2 * y.ratio.1)

def same (x y : Binary l) : Bool := x.isZero && y.isZero || x == y

end Binary

namespace Double

def ofNat (n : Nat) : Option Double := Binary.ofRatio .double false n 1

def ofInt (i : Int) : Option Double := Binary.ofRatio .double (i < 0) i.natAbs 1

def zero (negative : Bool) : Double := ⟨negative, ⟨0, by decide⟩, ⟨0, Layout.double.leadingBit_pos⟩⟩

/-- Multiplies `x` by the double nearest to `10 ^ e`, dividing where `e` is negative. Below
`-308` it first divides by `10 ^ 308`, at most `rounds` times; a zero stays a zero. -/
def scaleByTen (x : Double) (e : Int) : Nat → Option Double
  | 0 => if e < -308 then some (zero x.negative) else step x e
  | rounds + 1 =>
    if x.isZero then some x
    else if e < -308 then
      (ofNat (Nat.pow 10 308)).bind fun p => (x.div p).bind fun y => scaleByTen y (e + 308) rounds
    else step x e
where
  step (x : Double) (e : Int) : Option Double :=
    if x.isZero then some x
    else if 308 < e then none
    else (ofNat (Nat.pow 10 e.natAbs)).bind fun p => if e < 0 then x.div p else x.mul p

/-- The double read from the decimal `significand * 10 ^ exponent`: the significand is rounded
first and then scaled, each step rounding once. `none` if it is out of range. Two divisions by
`10 ^ 308` turn every significand below `2 ^ 64` into zero. -/
def ofDecimal (significand : Nat) (exponent : Int) : Option Double :=
  (ofNat significand).bind fun x => x.scaleByTen exponent 3

end Double

end DocQuery.Json

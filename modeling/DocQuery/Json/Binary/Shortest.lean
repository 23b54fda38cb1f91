import DocQuery.Json.Binary

/-! # The shortest decimal that reads back

A finite binary number is the nearest one for every decimal in an interval around it. Among the
decimals of that interval `shortest` takes one on the coarsest grid of powers of ten, and on that
grid the one nearest to the number, a tie going to the even last digit.
-/
namespace DocQuery.Json

/-- The decimal number `digits * 10 ^ exponent`. -/
structure Decimal where
  digits : Nat
  exponent : Int
  deriving DecidableEq, Repr

namespace Decimal

def trim : Nat → Decimal → Decimal
  | 0, d => d
  | n + 1, d => if d.digits % 10 = 0 then trim n ⟨d.digits / 10, d.exponent + 1⟩ else d

end Decimal

namespace Binary
variable {l : Layout}

/-- The distances to the ends of the rounding interval, in quarters of the unit: it is half as
wide below a power of two whose lower neighbour has a finer unit. -/
def margins (x : Binary l) : Nat × Nat :=
  (if x.fraction.val = 0 ∧ 1 < x.exponent.val then 1 else 2, 2)

/-- `n * 2 ^ (scale - 2)` and `10 ^ k`, brought to one denominator. -/
def onGrid (x : Binary l) (k : Int) (n : Nat) : Nat × Nat :=
  (Nat.pow 10 (-k).toNat * n <<< (x.scale - 2).toNat, Nat.pow 10 k.toNat <<< (2 - x.scale).toNat)

/-- Whether `c * 10 ^ k` rounds to `x`; the ends of the interval do iff the significand is even. -/
def reads (x : Binary l) (k : Int) (c : Nat) : Bool :=
  let low := x.onGrid k (4 * x.significand - x.margins.1)
  let high := x.onGrid k (4 * x.significand + x.margins.2)
  if x.significand % 2 = 0 then low.1 ≤ c * low.2 && c * high.2 ≤ high.1
  else low.1 < c * low.2 && c * high.2 < high.1

/-- The multiple of `10 ^ k` nearest to `x` among its two neighbours that read back as `x`. -/
def onGrid? (x : Binary l) (k : Int) : Option Nat :=
  let (n, d) := x.onGrid k (4 * x.significand)
  let c := n / d
  match x.reads k c, x.reads k (c + 1) with
  | true, true => some (nearest n d)
  | true, false => some c
  | false, true => some (c + 1)
  | false, false => none

/-- Tries `steps` grids, from `10 ^ k` to finer ones. -/
def search (x : Binary l) : Nat → Int → Option Decimal
  | 0, _ => none
  | steps + 1, k => match x.onGrid? k with
    | some c => some ⟨c, k⟩
    | none => search x steps (k - 1)

/-- The number of grids that are tried; the last of them is finer than the unit. -/
def grids (l : Layout) : Nat := l.fractionBits / 3 + 8

/-- Starts above the number's own power of ten. -/
def shortest (x : Binary l) : Decimal :=
  if x.isZero then ⟨0, 0⟩ else
  let log := ratioLog x.ratio.1 x.ratio.2
  match x.search (grids l) (log * 77 / 256 + 2) with
  | some d => d.trim (grids l)
  | none => ⟨0, 0⟩

end Binary

/-- Which exponents are written positionally: those of `least ≤ e ≤ most`, `e` being the exponent
of the first digit. -/
structure DecimalStyle where
  least : Int
  most : Int

def DecimalStyle.double : DecimalStyle := ⟨-5, 15⟩
def DecimalStyle.single : DecimalStyle := ⟨-6, 12⟩

/-- Positional text always has a point with a digit on both sides; scientific text has one digit
before the point and a signed exponent, and no point if there is but one digit. -/
def Decimal.chars (style : DecimalStyle) (d : Decimal) : List Char :=
  let ds := Nat.toDigits 10 d.digits
  let e : Int := d.exponent + ds.length - 1
  if d.digits = 0 then ['0', '.', '0']
  else if style.least ≤ e ∧ e ≤ style.most then
    if e < 0 then ['0', '.'] ++ List.replicate (-e - 1).toNat '0' ++ ds
    else
      let whole := (e + 1).toNat
      if ds.length ≤ whole then ds ++ List.replicate (whole - ds.length) '0' ++ ['.', '0']
      else ds.take whole ++ '.' :: ds.drop whole
  else
    ds.take 1 ++ (if ds.length = 1 then [] else '.' :: ds.drop 1)
      ++ 'e' :: (if e < 0 then '-' else '+') :: Nat.toDigits 10 e.natAbs

def Binary.chars {l : Layout} (style : DecimalStyle) (x : Binary l) : List Char :=
  (if x.negative then ['-'] else []) ++ x.shortest.chars style

end DocQuery.Json

import DocQuery.Json.Binary.Shortest

/-! # JSON numbers

An integer between `-2 ^ 63` and `2 ^ 64 - 1` or a finite double. The two kinds never mix: the
integer `1` and the double `1.0` are different numbers with different texts.
-/
namespace DocQuery.Json

inductive Number where
  | integer (i : Int) (lower : -0x8000000000000000 ≤ i) (upper : i < 0x10000000000000000)
  | double (d : Double)
  deriving DecidableEq

namespace Number

instance : Inhabited Number := ⟨.integer 0 (by decide) (by decide)⟩

def ofInt? (i : Int) : Option Number :=
  if h : -0x8000000000000000 ≤ i ∧ i < 0x10000000000000000 then some (.integer i h.1 h.2) else none

def ofFin {n : Nat} (i : Fin n) (h : n ≤ 0x10000000000000000 := by decide) : Number :=
  .integer i.val (by omega) (by have := i.isLt; omega)

/-- The nearest double; `none` only if there is no finite one. -/
def toDouble : Number → Option Double
  | integer i _ _ => Double.ofInt i
  | double d => some d

/-- Equality of numbers of one kind, doubles by value. -/
def same : Number → Number → Bool
  | integer i _ _, integer j _ _ => i == j
  | double x, double y => x.same y
  | _, _ => false

def chars : Number → List Char
  | integer i _ _ => (if i < 0 then ['-'] else []) ++ Nat.toDigits 10 i.natAbs
  | double d => d.chars .double

def text (n : Number) : String := String.ofList n.chars

end Number

end DocQuery.Json

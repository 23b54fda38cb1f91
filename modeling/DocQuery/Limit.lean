import DocQuery.Error
import DocQuery.Json.Printer

/-! # Result limits

A limit is a number whose nearest double is finite and greater than zero. It is kept as it was
given.
-/
namespace DocQuery

/-- Judged by the nearest double. -/
def Json.Number.isPositive (n : Json.Number) : Bool :=
  match n.toDouble with
  | some d => d.isPositive
  | none => false

structure Limit where
  number : Json.Number
  positive : number.isPositive = true
  deriving DecidableEq

namespace Limit

def refusal (given : String) : Error :=
  .invalidLimit s!"the argument of limit() must be a number greater than zero, got {given}"

def ofNumber (n : Json.Number) : Except Error Limit :=
  if h : n.isPositive = true then .ok ⟨n, h⟩ else .error (refusal n.text)

def ofValue (v : Value) : Except Error Limit :=
  match v.tree with
  | .number n => ofNumber n
  | j => .error (refusal j.text)

@[simp] theorem ofNumber_number (l : Limit) : ofNumber l.number = .ok l := by
  simp [ofNumber, l.positive]

end Limit

end DocQuery

import DocQuery.Json.Message
import DocQuery.Text.Digits

/-! # Host values

The values a caller may hand over to be written as JSON. A number that is not finite becomes null,
but cannot be a key; an integer must fit into a JSON number, unless it is a key.
-/
namespace DocQuery

inductive Source where
  | value (v : Value)
  /-- `none` is a number that is not finite. -/
  | double (d : Option Json.Double)
  | single (s : Option Json.Single)
  | integer (i : Int)
  | string (s : String)
  | bytes (bs : List UInt8)
  /-- The unit, and the absent optional value. -/
  | unit
  | present (s : Source)
  | bare (label : String)
  | tagged (label : String) (s : Source)
  | sequence (items : List Source)
  | map (entries : List (Source × Source))
  /-- Refuses to be written. -/
  | failure (reason : String)

namespace Source

open Json (Cause)

/-- What follows the last occurrence of `pat`, and what precedes it. -/
def splitLast (pat : List Char) : List Char → Option (List Char × List Char)
  | [] => if pat.isEmpty then some ([], []) else none
  | c :: cs =>
    match splitLast pat cs with
    | some (p, r) => some (c :: p, r)
    | none =>
      if pat.isPrefixOf (c :: cs) then some ([], (c :: cs).drop pat.length) else none

def natBelow (limit : Nat) (ds : List Char) : Option Nat :=
  if !ds.isEmpty && Text.decimalValue ds < limit then some (Text.decimalValue ds) else none

/-- A position at the end of a reason: the reason before it, the line and the column. -/
def splitPosition (reason : String) : Option (String × Nat × Nat) := do
  let (p, r) ← splitLast " at line ".toList reason.toList
  let line ← natBelow 0x10000000000000000 (r.takeWhile Char.isDigit)
  let r := r.dropWhile Char.isDigit
  let r ← if " column ".toList.isPrefixOf r then some (r.drop 8) else none
  let column ← natBelow 0x10000000000000000 (r.takeWhile Char.isDigit)
  if (r.dropWhile Char.isDigit).isEmpty then some (String.ofList p, line, column) else none

/-- A reason that ends in a position is understood as such: its numbers are written anew, and a
position in line 0 is none at all. -/
def refusal (reason : String) : Cause :=
  match splitPosition reason with
  | none => .refused reason
  | some (p, line, column) =>
    .refused (if line = 0 then p else s!"{p} at line {line} column {column}")

def ofNumber? (n : Option Json.Number) : Json :=
  match n with
  | none => .null
  | some n => .number n

def doubleTree (d : Option Json.Double) : Json := ofNumber? (d.map .double)

def integerTree (i : Int) : Except Cause Json :=
  match Json.Number.ofInt? i with
  | none => .error .numberOutOfRange
  | some n => .ok (.number n)

/-- The key that a tree stands for. -/
def keyOfTree : Json → Except Cause String
  | .bool b => .ok (if b then "true" else "false")
  | .number n => .ok n.text
  | .string s => .ok s
  | _ => .error .keyNotString

def key : Source → Except Cause String
  | value v => keyOfTree v.tree
  | double none => .error .keyNotFinite
  | double (some d) => .ok (Json.Number.double d).text
  | single none => .error .keyNotFinite
  | single (some s) => .ok (String.ofList (s.chars .single))
  | integer i => .ok (toString i)
  | string s => .ok s
  | bare label => .ok label
  | failure reason => .error (refusal reason)
  | _ => .error .keyNotString

mutual
/-- Written in order; the first fault ends it. -/
def tree : Source → Except Cause Json
  | value v => .ok v.tree
  | double d => .ok (doubleTree d)
  | single s => .ok (doubleTree (s.bind (·.convert .double)))
  | integer i => integerTree i
  | string s => .ok (.string s)
  | bytes bs => .ok (.array (bs.map fun b => .number (.ofFin b.toFin)))
  | unit => .ok .null
  | present s => s.tree
  | bare label => .ok (.string label)
  | tagged label s => match s.tree with
    | .error c => .error c
    | .ok j => .ok (.object [(label, j)])
  | sequence items => match treeItems items with
    | .error c => .error c
    | .ok xs => .ok (.array xs)
  | map entries => match treeEntries entries with
    | .error c => .error c
    | .ok ms => .ok (.object ms)
  | failure reason => .error (refusal reason)
termination_by structural s => s
def treeItems : List Source → Except Cause (List Json)
  | [] => .ok []
  | s :: ss => match s.tree with
    | .error c => .error c
    | .ok x => match treeItems ss with
      | .error c => .error c
      | .ok xs => .ok (x :: xs)
termination_by structural ss => ss
def treeEntries : List (Source × Source) → Except Cause (List (String × Json))
  | [] => .ok []
  | (k, s) :: es => match k.key with
    | .error c => .error c
    | .ok k => match s.tree with
      | .error c => .error c
      | .ok x => match treeEntries es with
        | .error c => .error c
        | .ok ms => .ok ((k, x) :: ms)
termination_by structural es => es
end

def toValue (s : Source) : Except Cause Value :=
  match s.tree with
  | .error c => .error c
  | .ok j => .ok (Value.ofTree j)

end Source

end DocQuery

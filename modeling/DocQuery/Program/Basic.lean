import DocQuery.Chain
import DocQuery.Comparator
import DocQuery.Limit

/-! # Query programs

A program is a list of operations in the order in which they run.
-/
namespace DocQuery

inductive Operation where
  /-- Projects every value onto a property. -/
  | mapAttrs (path : Chain)
  /-- Looks the ids up in another collection. -/
  | mapIds (collection : String)
  /-- Keeps the values whose property compares true. -/
  | filter (path : Chain) (comparator : Comparator) (value : Value)
  | flatten
  | limit (limit : Limit)
  /-- Pairs every value with the id of its document. -/
  | withId
  deriving DecidableEq

namespace Operation

inductive Kind where
  | mapAttrs
  | mapIds
  | filter
  | flatten
  | limit
  | withId
  deriving DecidableEq, Repr

namespace Kind

def all : List Kind := [mapAttrs, mapIds, filter, flatten, limit, withId]

def name : Kind → String
  | mapAttrs => "mapAttrs"
  | mapIds => "mapIDToCollection"
  | filter => "where"
  | flatten => "flatMapArr"
  | limit => "limit"
  | withId => "withID"

def names : List String := all.map name

def ofName? (s : String) : Option Kind := all.find? fun k => k.name = s

@[simp] theorem ofName?_name (k : Kind) : ofName? k.name = some k := by cases k <;> decide

theorem name_of_ofName? {s : String} {k : Kind} (h : ofName? s = some k) : k.name = s := by
  simpa using List.find?_some h

end Kind

def kind : Operation → Kind
  | mapAttrs _ => .mapAttrs
  | mapIds _ => .mapIds
  | filter _ _ _ => .filter
  | flatten => .flatten
  | limit _ => .limit
  | withId => .withId

def same : Operation → Operation → Bool
  | filter p c v, filter p' c' v' => p == p' && c == c' && v.same v'
  | limit l, limit l' => l.number.same l'.number
  | a, b => a == b

end Operation

structure Program where
  operations : List Operation
  deriving DecidableEq

namespace Program

def empty : Program := ⟨[]⟩

def length (p : Program) : Nat := p.operations.length

def append (p : Program) (op : Operation) : Program := ⟨p.operations ++ [op]⟩

def same (p q : Program) : Bool :=
  go p.operations q.operations
where
  go : List Operation → List Operation → Bool
    | [], [] => true
    | a :: as, b :: bs => a.same b && go as bs
    | _, _ => false

end Program

end DocQuery

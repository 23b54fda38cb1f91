import DocQuery.Program.Basic

/-! # Programs on the wire

An operation is an object of its name and its payload, without a payload where it takes none.
-/
namespace DocQuery

def Chain.tree (c : Chain) : Json := .array (c.tokens.map .string)

def Comparator.tree (c : Comparator) : Json := .string c.token

def Limit.tree (l : Limit) : Json := .number l.number

namespace Operation

def payload : Operation → Option Json
  | mapAttrs path => some path.tree
  | mapIds collection => some (.string collection)
  | filter path comparator value =>
    some (.object [("attrs", path.tree), ("cmp", comparator.tree), ("val", value.tree)])
  | flatten => none
  | limit l => some l.tree
  | withId => none

def tree (op : Operation) : Json :=
  .object (("op", .string op.kind.name) :: (op.payload.map fun data => ("data", data)).toList)

end Operation

def Program.tree (p : Program) : Json := .object [("operations", .array (p.operations.map (·.tree)))]

end DocQuery

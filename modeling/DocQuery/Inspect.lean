import DocQuery.Query
import DocQuery.Text.Quoted

/-! # Inspection texts

Every constructor by name with its fields, for reading by people.
-/
namespace DocQuery

open Text (literal)

def listed (items : List String) : String := "[" ++ String.intercalate ", " items ++ "]"

def record (name : String) (fields : List (String × String)) : String :=
  name ++ " \x7b " ++ String.intercalate ", " (fields.map fun f => f.1 ++ ": " ++ f.2) ++ " \x7d"

def wrapped (name field : String) : String := name ++ "(" ++ field ++ ")"

namespace Json

def Number.inspect (n : Number) : String := wrapped "Number" n.text

mutual
def inspect : Json → String
  | null => "Null"
  | bool b => wrapped "Bool" (if b then "true" else "false")
  | number n => n.inspect
  | string s => wrapped "String" (literal s)
  | array xs => "Array " ++ listed (inspectItems xs)
  | object ms => "Object \x7b" ++ String.intercalate ", " (inspectMembers ms) ++ "\x7d"
termination_by structural j => j
def inspectItems : List Json → List String
  | [] => []
  | x :: xs => x.inspect :: inspectItems xs
termination_by structural xs => xs
def inspectMembers : List (String × Json) → List String
  | [] => []
  | (k, x) :: ms => (literal k ++ ": " ++ x.inspect) :: inspectMembers ms
termination_by structural ms => ms
end

end Json

def Chain.inspect (c : Chain) : String := wrapped "AttributeChain" (listed (c.tokens.map literal))

def Comparator.inspect : Comparator → String
  | equal => "Eq"
  | less => "Lt"
  | lessOrEqual => "Lte"
  | greater => "Gt"
  | greaterOrEqual => "Gte"

def Limit.inspect (l : Limit) : String := wrapped "ResultLimit" l.number.inspect

def Operation.inspect : Operation → String
  | mapAttrs path => wrapped "MapAttrs" path.inspect
  | mapIds collection => wrapped "MapIdToCollection" (literal collection)
  | filter path comparator value => record "Where"
      [("attrs", path.inspect), ("cmp", comparator.inspect), ("val", value.tree.inspect)]
  | flatten => "FlatMapArr"
  | limit l => wrapped "Limit" l.inspect
  | withId => "WithId"

def Program.inspect (p : Program) : String :=
  record "Program" [("operations", listed (p.operations.map (·.inspect)))]

def Query.inspect (q : Query) : String :=
  record "Monad" [("target", literal q.target.url.text), ("program", q.program.inspect)]

def Collection.inspect (c : Collection) : String :=
  record "Collection" [("name", literal c.name), ("url", literal c.target.url.text)]

def Error.inspect : Error → String
  | missingArgument what => wrapped "MissingArgument" (literal what)
  | malformedChain reason => wrapped "MalformedChain" (literal reason)
  | unknownComparator reason => wrapped "UnknownComparator" (literal reason)
  | invalidLimit reason => wrapped "InvalidLimit" (literal reason)
  | missingCollectionName => "MissingCollectionName"
  | invalidUrl reason => wrapped "InvalidUrl" (literal reason)
  | serialization reason => wrapped "Serialization" (literal reason)
  | malformedResponse reason => wrapped "MalformedResponse" (literal reason)
  | transport reason => wrapped "Transport" (literal reason)
  | remote status reason => record "Remote" [("status", toString status), ("message", literal reason)]

end DocQuery

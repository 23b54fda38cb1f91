import DocQuery.Json.Decode.Tree
import DocQuery.Program.Basic

/-! # Programs from trees

An operation is an object with a name `op` and a payload `data` in either order, or an array of the
two. The payload of a comparison is an object. Other members are passed over, repeated ones refused.
A payload that comes before its name is kept and decoded on the buffered route.
-/
namespace DocQuery

open Json (Cause Route)

def refused (e : Error) : Cause := .refused e.message

def Chain.judge (tokens : List String) : Except Cause Chain :=
  match Chain.ofTokens tokens with
  | .ok c => .ok c
  | .error f => .error (refused f.toError)

def Chain.ofTree (j : Json) : Except Cause Chain :=
  match Json.listOfTree Json.stringOfTree j with
  | .error c => .error c
  | .ok tokens => Chain.judge tokens

def Comparator.ofTree (route : Route) : Json → Except Cause Comparator :=
  Json.variantOfTree ofToken? tokens route

def Limit.judge (n : Json.Number) : Except Cause Limit :=
  match Limit.ofNumber n with
  | .ok l => .ok l
  | .error e => .error (refused e)

def Limit.ofTree : Json → Except Cause Limit
  | .number n => Limit.judge n
  | j => Json.mistypedTree "a JSON number" j

/-- The fields of a comparison that have been read. -/
structure FilterDraft where
  path : Option Chain
  comparator : Option Comparator
  value : Option Value

namespace FilterDraft

def expected : String := "struct variant Operation::Where"

def start : FilterDraft := ⟨none, none, none⟩

def finish (d : FilterDraft) : Except Cause Operation :=
  match d.path with
  | none => .error (.missingField "attrs")
  | some path => match d.comparator with
    | none => .error (.missingField "cmp")
    | some comparator => match d.value with
      | none => .error (.missingField "val")
      | some value => .ok (.filter path comparator value)

def addTree (route : Route) (d : FilterDraft) (key : String) (j : Json) :
    Except Cause FilterDraft :=
  if key = "attrs" then
    if d.path.isSome then .error (.duplicateField key)
    else match Chain.ofTree j with
    | .error c => .error c
    | .ok path => .ok { d with path := some path }
  else if key = "cmp" then
    if d.comparator.isSome then .error (.duplicateField key)
    else match Comparator.ofTree route j with
    | .error c => .error c
    | .ok comparator => .ok { d with comparator := some comparator }
  else if key = "val" then
    if d.value.isSome then .error (.duplicateField key)
    else .ok { d with value := some (Value.ofTree j) }
  else .ok d

end FilterDraft

namespace Operation

def filterOfTree (route : Route) : Json → Except Cause Operation
  | .object ms =>
    match Json.foldMembers (FilterDraft.addTree route) .start ms with
    | .error c => .error c
    | .ok d => d.finish
  | j => Json.mistypedTree FilterDraft.expected j

/-- The words for an operation without a payload. -/
def unitName : Kind → String
  | .withId => "unit variant Operation::WithId"
  | _ => "unit variant Operation::FlatMapArr"

def noPayload (kind : Kind) (op : Operation) : Json → Except Cause Operation
  | .null => .ok op
  | j => Json.mistypedTree (unitName kind) j

def ofPayload (route : Route) (kind : Kind) (j : Json) : Except Cause Operation :=
  match kind with
  | .mapAttrs => (Chain.ofTree j).map .mapAttrs
  | .mapIds => (Json.stringOfTree j).map .mapIds
  | .filter => filterOfTree route j
  | .flatten => noPayload kind .flatten j
  | .limit => (Limit.ofTree j).map .limit
  | .withId => noPayload kind .withId j

def ofKind : Kind → Except Cause Operation
  | .flatten => .ok .flatten
  | .withId => .ok .withId
  | _ => .error (.missingField "data")

/-- How much of an operation has been read. -/
inductive Draft where
  | start
  | named (kind : Kind)
  | buffered (data : Json)
  | complete (op : Operation)

namespace Draft

def finish : Draft → Except Cause Operation
  | start => .error (.missingField "op")
  | named kind => ofKind kind
  | buffered _ => .error (.missingField "op")
  | complete op => .ok op

end Draft

def kindOfTree : Json → Except Cause Kind := Json.variantOfTree Kind.ofName? Kind.names .direct

def Draft.addTree (d : Draft) (key : String) (j : Json) : Except Cause Draft :=
  if key = "op" then
    match d with
    | start => (kindOfTree j).map named
    | buffered data =>
      match kindOfTree j with
      | .error c => .error c
      | .ok kind => (ofPayload .buffered kind data).map complete
    | named _ | complete _ => .error (.duplicateField key)
  else if key = "data" then
    match d with
    | start => .ok (buffered j)
    | named kind => (ofPayload .direct kind j).map complete
    | buffered _ | complete _ => .error (.duplicateField key)
  else .ok d

def expected : String := "adjacently tagged enum Operation"

def ofItems (xs : List Json) : Except Cause Operation :=
  match xs with
  | [] => .error (.invalidLength 0 expected)
  | op :: xs' => match Json.nameOfTree Kind.ofName? Kind.names op with
    | .error c => .error c
    | .ok kind => match xs' with
      | [] => .error (.invalidLength 1 expected)
      | data :: xs' => match ofPayload .direct kind data with
        | .error c => .error c
        | .ok op => if xs'.isEmpty then .ok op else .error (Json.surplus xs.length)

def ofTree : Json → Except Cause Operation :=
  Json.structOfTree expected .start Draft.addTree Draft.finish ofItems

end Operation

namespace Program

def expected : String := "struct Program"

def expectedItems : String := "struct Program with 1 element"

def addTree (d : Option (List Operation)) (key : String) (j : Json) :
    Except Cause (Option (List Operation)) :=
  if key = "operations" then
    if d.isSome then .error (.duplicateField key)
    else (Json.listOfTree Operation.ofTree j).map some
  else .ok d

def finish : Option (List Operation) → Except Cause Program
  | none => .error (.missingField "operations")
  | some ops => .ok ⟨ops⟩

def ofItems (xs : List Json) : Except Cause Program :=
  match xs with
  | [] => .error (.invalidLength 0 expectedItems)
  | ops :: xs' => match Json.listOfTree Operation.ofTree ops with
    | .error c => .error c
    | .ok ops => if xs'.isEmpty then .ok ⟨ops⟩ else .error (Json.surplus xs.length)

def ofTree : Json → Except Cause Program :=
  Json.structOfTree expected none addTree finish ofItems

end Program

end DocQuery

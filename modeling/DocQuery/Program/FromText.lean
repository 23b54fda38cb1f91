import DocQuery.Json.Decode.Text
import DocQuery.Program.FromTree

/-! # Programs from texts

The same forms as from trees, read as the text goes: a payload after its name is decoded in place,
one before it is kept as a tree first. `n` is the number of levels that may still be opened.
-/
namespace DocQuery

open Json (Cause Fault Reader)

def Chain.ofText (n : Nat) : Reader Chain := fun s =>
  Json.judge Chain.judge (Json.listOfText (fun _ => Json.stringOfText) n s)

def Comparator.ofText (n : Nat) : Reader Comparator := Json.variantOfText ofToken? tokens n

def Limit.ofText (n : Nat) : Reader Limit := fun s =>
  match Json.skipBlanks s with
  | [] => .error (.next [] .endInValue)
  | c :: r =>
    if c = '-' then Json.judge Limit.judge (Json.readNumber true r)
    else if c.isDigit then Json.judge Limit.judge (Json.readNumber false (c :: r))
    else .error (Json.turnedDown "a JSON number" n (c :: r))

def FilterDraft.addText (n : Nat) (d : FilterDraft) (key : String) : Reader FilterDraft := fun s =>
  if key = "attrs" then
    if d.path.isSome then .error (.pending s (.duplicateField key))
    else Json.mapRead (fun path => { d with path := some path }) (Json.readField (Chain.ofText n) s)
  else if key = "cmp" then
    if d.comparator.isSome then .error (.pending s (.duplicateField key))
    else Json.mapRead (fun comparator => { d with comparator := some comparator })
      (Json.readField (Comparator.ofText n) s)
  else if key = "val" then
    if d.value.isSome then .error (.pending s (.duplicateField key))
    else Json.mapRead (fun j => { d with value := some (Value.ofTree j) })
      (Json.readField (Json.readTree n) s)
  else Json.skipField d s

namespace Operation

def filterOfText (n : Nat) : Reader Operation := fun s =>
  match Json.skipBlanks s with
  | '\x7b' :: r => match n with
    | 0 => .error (.next ('\x7b' :: r) .recursionLimit)
    | n + 1 => Json.closeObject (Json.judge FilterDraft.finish
        (Json.members (FilterDraft.addText n) (r.length + 1) true .start r))
  | s => .error (Json.turnedDown FilterDraft.expected n s)

def noPayloadText (kind : Kind) (op : Operation) (n : Nat) : Reader Operation := fun s =>
  Json.mapRead (fun _ => op) (Json.unitOfAnyText (unitName kind) n s)

def ofPayloadText (kind : Kind) (n : Nat) : Reader Operation := fun s =>
  match kind with
  | .mapAttrs => Json.mapRead .mapAttrs (Chain.ofText n s)
  | .mapIds => Json.mapRead .mapIds (Json.stringOfText s)
  | .filter => filterOfText n s
  | .flatten => noPayloadText kind .flatten n s
  | .limit => Json.mapRead .limit (Limit.ofText n s)
  | .withId => noPayloadText kind .withId n s

def kindOfText (n : Nat) : Reader Kind := Json.variantOfText Kind.ofName? Kind.names n

def Draft.addText (n : Nat) (d : Draft) (key : String) : Reader Draft := fun s =>
  if key = "op" then
    match d with
    | start => Json.mapRead named (Json.readField (kindOfText n) s)
    | buffered data => Json.judge (fun kind => (ofPayload .buffered kind data).map complete)
        (Json.readField (kindOfText n) s)
    | named _ | complete _ => .error (.pending s (.duplicateField key))
  else if key = "data" then
    match d with
    | start => Json.mapRead buffered (Json.readField (Json.readTree n) s)
    | named kind => Json.mapRead complete (Json.readField (ofPayloadText kind n) s)
    | buffered _ | complete _ => .error (.pending s (.duplicateField key))
  else Json.skipField d s

def ofTextItems (n : Nat) : Reader Operation := fun s =>
  match Json.readItem 0 expected (Json.nameOfText Kind.ofName? Kind.names) s with
  | .error f => .error f
  | .ok (kind, s) => Json.readItem 1 expected (ofPayloadText kind n) s

def ofText : Nat → Reader Operation :=
  Json.readStruct expected .start Draft.addText Draft.finish ofTextItems

end Operation

namespace Program

def operationsOfText : Nat → Reader (List Operation) := Json.listOfText Operation.ofText

def addText (n : Nat) (d : Option (List Operation)) (key : String) :
    Reader (Option (List Operation)) := fun s =>
  if key = "operations" then
    if d.isSome then .error (.pending s (.duplicateField key))
    else Json.mapRead some (Json.readField (operationsOfText n) s)
  else Json.skipField d s

def ofTextItems (n : Nat) : Reader Program := fun s =>
  Json.mapRead Program.mk (Json.readItem 0 expectedItems (operationsOfText n) s)

def ofText : Nat → Reader Program := Json.readStruct expected none addText finish ofTextItems

end Program

end DocQuery

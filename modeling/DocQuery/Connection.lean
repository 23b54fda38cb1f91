import DocQuery.Json.Decode.Text
import DocQuery.Program.FromText
import DocQuery.Request

/-! # Connections and collections

A connection has a base text and the target it stands for. A collection's address is parsed anew
from the base, a slash and the collection's name.
-/
namespace DocQuery

open Json (Cause Reader)

structure ConnectionConfig where
  url : String
  apiKey : String
  deriving DecidableEq

namespace ConnectionConfig

def expected : String := "struct ConnectionConfig"

def expectedItems : String := "struct ConnectionConfig with 2 elements"

def tree (c : ConnectionConfig) : Json :=
  .object [("url", .string c.url), ("api_key", .string c.apiKey)]

structure Draft where
  url : Option String
  apiKey : Option String

def Draft.finish (d : Draft) : Except Cause ConnectionConfig :=
  match d.url with
  | none => .error (.missingField "url")
  | some url => match d.apiKey with
    | none => .error (.missingField "api_key")
    | some apiKey => .ok ⟨url, apiKey⟩

def Draft.addTree (d : Draft) (key : String) (j : Json) : Except Cause Draft :=
  if key = "url" then
    if d.url.isSome then .error (.duplicateField key)
    else (Json.stringOfTree j).map fun url => { d with url := some url }
  else if key = "api_key" then
    if d.apiKey.isSome then .error (.duplicateField key)
    else (Json.stringOfTree j).map fun apiKey => { d with apiKey := some apiKey }
  else .ok d

def ofItems (xs : List Json) : Except Cause ConnectionConfig :=
  match xs with
  | [] => .error (.invalidLength 0 expectedItems)
  | url :: xs' => match Json.stringOfTree url with
    | .error c => .error c
    | .ok url => match xs' with
      | [] => .error (.invalidLength 1 expectedItems)
      | apiKey :: xs' => match Json.stringOfTree apiKey with
        | .error c => .error c
        | .ok apiKey =>
          if xs'.isEmpty then .ok ⟨url, apiKey⟩ else .error (Json.surplus xs.length)

def ofTree : Json → Except Cause ConnectionConfig :=
  Json.structOfTree expected ⟨none, none⟩ Draft.addTree Draft.finish ofItems

def Draft.addText (_ : Nat) (d : Draft) (key : String) : Reader Draft := fun s =>
  if key = "url" then
    if d.url.isSome then .error (.pending s (.duplicateField key))
    else Json.mapRead (fun url => { d with url := some url }) (Json.readField Json.stringOfText s)
  else if key = "api_key" then
    if d.apiKey.isSome then .error (.pending s (.duplicateField key))
    else Json.mapRead (fun apiKey => { d with apiKey := some apiKey })
      (Json.readField Json.stringOfText s)
  else Json.skipField d s

def ofTextItems (_ : Nat) : Reader ConnectionConfig := fun s =>
  match Json.readItem 0 expectedItems Json.stringOfText s with
  | .error f => .error f
  | .ok (url, s) =>
    Json.mapRead (fun apiKey => ⟨url, apiKey⟩) (Json.readItem 1 expectedItems Json.stringOfText s)

def ofText : Nat → Reader ConnectionConfig :=
  Json.readStruct expected ⟨none, none⟩ Draft.addText Draft.finish ofTextItems

end ConnectionConfig

/-- A connection without its transport. -/
structure Connection where
  /-- The text the connection was made from. -/
  base : String
  target : Target
  deriving DecidableEq

structure Collection where
  name : String
  target : Target
  deriving DecidableEq

namespace Connection

def build (config : ConnectionConfig) : Except Error Connection :=
  if config.url.isEmpty || config.apiKey.isEmpty then
    .error (.missingArgument "a connection needs a URL and an API key")
  else match Target.parse config.url config.apiKey with
  | .error e => .error e
  | .ok target => .ok ⟨config.url, target⟩

/-- A text without one slash at its end. -/
def dropFinalSlash (s : List Char) : List Char := if s.getLast? = some '/' then s.dropLast else s

def collectionAddress (base name : String) : String :=
  String.ofList (dropFinalSlash base.toList ++ '/' :: name.toList)

def collection (c : Connection) (name : String) : Except Error Collection :=
  if name.isEmpty then .error .missingCollectionName
  else match validateUrl (collectionAddress c.base name) with
  | .error e => .error e
  | .ok url => .ok ⟨name, url, c.target.credential⟩

end Connection

end DocQuery

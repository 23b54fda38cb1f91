import DocQuery.Action
import DocQuery.Json.Decode.Text
import DocQuery.Url.Parser

/-! # Requests

An envelope is a target, an action and a flag. Its body is one object of the action's name, the
action's data and the flag; `Envelope.toHttp` sends its text, `Envelope.body` is its value.
-/
namespace DocQuery

def validateUrl (s : String) : Except Error Url :=
  match Url.parse s with
  | .ok u => .ok u
  | .error f => .error (.invalidUrl s!"{s} is not a valid URL: {f.message}")

structure Target where
  url : Url
  credential : String
  deriving DecidableEq

namespace Target

def parse (url credential : String) : Except Error Target :=
  match validateUrl url with
  | .ok u => .ok ⟨u, credential⟩
  | .error e => .error e

def same (s t : Target) : Bool := s.url.same t.url && s.credential == t.credential

end Target

structure HttpRequest where
  url : Url
  method : Method
  /-- The verb the action stands for; the request itself always posts. -/
  advisoryMethod : Method
  headers : List (String × String)
  body : String
  deriving DecidableEq

namespace HttpRequest

/-- The first header of a name, in any ASCII case. -/
def header (r : HttpRequest) (name : String) : Option String :=
  (r.headers.find? fun h => h.1.toList.map Char.toLower = name.toList.map Char.toLower).map (·.2)

def jsonBody (r : HttpRequest) : Except Error Value :=
  match Value.parse r.body with
  | .ok v => .ok v
  | .error f => .error (.ofFault r.body f)

/-- Equality, URLs by their texts. -/
def same (r s : HttpRequest) : Bool :=
  r.url.same s.url && r.method == s.method && r.advisoryMethod == s.advisoryMethod &&
    r.headers == s.headers && r.body == s.body

end HttpRequest

def contentType : String := "application/json;charset=utf-8"

structure Envelope where
  target : Target
  action : Action
  debug : Bool
  deriving DecidableEq

namespace Envelope

def tree (e : Envelope) : Json :=
  .object [("action", .string e.action.name), ("action_body", e.action.body), ("debug", .bool e.debug)]

def body (e : Envelope) : Value := Value.ofTree e.tree

def toHttp (e : Envelope) : HttpRequest where
  url := e.target.url
  method := .post
  advisoryMethod := e.action.method
  headers := [("Content-Type", contentType), ("Authorization", e.target.credential)]
  body := e.tree.text

def same (e f : Envelope) : Bool :=
  e.target.same f.target && e.action.same f.action && e.debug == f.debug

end Envelope

end DocQuery

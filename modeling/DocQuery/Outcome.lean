import DocQuery.Error
import DocQuery.Json.Printer

/-! # Outcomes

The mode a caller asks for decides alone whether an answer is a final value or a trace.
-/
namespace DocQuery

inductive Mode where
  | normal
  | debug
  deriving DecidableEq, Repr

namespace Mode

def isDebug : Mode → Bool
  | normal => false
  | debug => true

def ofFlag (debug : Bool) : Mode := if debug then .debug else .normal

end Mode

inductive Outcome (α : Type) where
  | final (result : α)
  /-- The states the interpreter recorded, as they came. -/
  | trace (states : Value)

namespace Outcome
variable {α : Type}

def isTrace : Outcome α → Bool
  | final _ => false
  | trace _ => true

def final? : Outcome α → Option α
  | final a => some a
  | trace _ => none

def trace? : Outcome α → Option Value
  | final _ => none
  | trace v => some v

def decode (raw : Value) (mode : Mode) (shape : Value → Except Error α) :
    Except Error (Outcome α) :=
  match mode with
  | .debug => .ok (trace raw)
  | .normal => match shape raw with
    | .ok a => .ok (final a)
    | .error e => .error e

end Outcome

/-- Documents in the order of their ids. -/
abbrev Documents := List (String × Value)

namespace Documents

inductive Fault where
  | notArray (raw : Json)
  | notPair (item : Json)
  | idNotString (id : Json)

def Fault.toError : Fault → Error
  | notArray raw =>
    .malformedResponse s!"expected an array of [id, document] pairs, got {raw.text}"
  | notPair item => .malformedResponse s!"expected an [id, document] pair, got {item.text}"
  | idNotString id => .malformedResponse s!"document id must be a string, got {id.text}"

def ofPair : Json → Except Fault (String × Value)
  | .array [.string id, data] => .ok (id, Value.ofTree data)
  | .array [id, _] => .error (.idNotString id)
  | item => .error (.notPair item)

/-- Collects pairs; the last of equal ids stays, the first fault ends it. -/
def collect (docs : Documents) : List Json → Except Fault Documents
  | [] => .ok docs
  | item :: items =>
    match ofPair item with
    | .error f => .error f
    | .ok (id, data) => collect (Members.insert id data docs) items

def ofTree : Json → Except Fault Documents
  | .array items => collect [] items
  | raw => .error (.notArray raw)

def shape (raw : Value) : Except Error Documents :=
  match ofTree raw.tree with
  | .ok docs => .ok docs
  | .error f => .error f.toError

end Documents

def shapeAllDocuments (raw : Value) (debug : Bool) : Except Error (Outcome Documents) :=
  Outcome.decode raw (.ofFlag debug) Documents.shape

end DocQuery

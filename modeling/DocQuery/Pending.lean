import DocQuery.Query
import DocQuery.Transport

/-! # Requests waiting to be sent

Each stands for one action on one target. Reads take a mode, writes and the listing are always sent
without the debug flag.
-/
namespace DocQuery

inductive Pending where
  | document (target : Target) (id : String)
  | allDocuments (target : Target)
  | insert (target : Target) (data : Value)
  | update (target : Target) (id : String) (data : Value)
  | collectionList (target : Target)
  | collectionCreate (target : Target) (name : String)
  | query (q : Query)

inductive Result where
  | raw (v : Value)
  | value (o : Outcome Value)
  | documents (o : Outcome Documents)

namespace Pending

def target : Pending → Target
  | document t _ | allDocuments t | insert t _ | update t _ _ | collectionList t
  | collectionCreate t _ => t
  | query q => q.target

def action : Pending → Action
  | document _ id => .document id
  | allDocuments _ => .allDocuments
  | insert _ data => .insert data
  | update _ id data => .update id data
  | collectionList _ => .collectionList
  | collectionCreate _ name => .collectionCreate name
  | query q => .program q.program

/-- Whether the request is sent in the mode the caller asks for. -/
def takesMode : Pending → Bool
  | document _ _ | allDocuments _ | query _ => true
  | _ => false

def envelope (p : Pending) (mode : Mode) : Envelope :=
  ⟨p.target, p.action, p.takesMode && mode.isDebug⟩

def shape (p : Pending) (mode : Mode) (raw : Value) : Except Error Result :=
  match p with
  | document _ _ | query _ => (Outcome.decode raw mode .ok).map .value
  | allDocuments _ => (shapeAllDocuments raw mode.isDebug).map .documents
  | insert _ _ | update _ _ _ | collectionList _ | collectionCreate _ _ => .ok (.raw raw)

def send (p : Pending) (mode : Mode) (t : Transport) (holder : List Pointer := []) :
    Except Error Result × Transport × List Event :=
  let (answer, t, events) := t.dispatch (p.envelope mode) holder
  match answer with
  | .error e => (.error e, t, events)
  | .ok raw => (p.shape mode raw, t, events)

end Pending

namespace Connection

def collectionList (c : Connection) : Pending := .collectionList c.target

def createCollection (c : Connection) (name : String) : Except Error Pending :=
  if name.isEmpty then .error .missingCollectionName else .ok (.collectionCreate c.target name)

end Connection

namespace Collection

def write (source : Source) : Except Error Value :=
  match source.toValue with
  | .ok v => .ok v
  | .error c => .error (.ofCause c)

def document (c : Collection) (id : String) : Except Error Pending :=
  if id.isEmpty then .error (.missingArgument "the document id of the document to fetch")
  else .ok (.document c.target id)

def allDocuments (c : Collection) : Pending := .allDocuments c.target

def insert (c : Collection) (source : Source) : Except Error Pending :=
  match write source with
  | .error e => .error e
  | .ok data => .ok (.insert c.target data)

def update (c : Collection) (id : String) (source : Source) : Except Error Pending :=
  if id.isEmpty then .error (.missingArgument "the document id of the document to update")
  else match write source with
  | .error e => .error e
  | .ok data => .ok (.update c.target id data)

end Collection

end DocQuery

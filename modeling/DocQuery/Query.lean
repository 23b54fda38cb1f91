import DocQuery.Connection
import DocQuery.Json.Source
import DocQuery.Outcome

/-! # Queries

A query is a program under construction and the target it is for. Whether a builder call is
accepted, and which operation it stands for, depends on its arguments alone; an accepted call
appends that operation.
-/
namespace DocQuery

structure Query where
  target : Target
  program : Program
  deriving DecidableEq

/-- A builder call with its arguments. -/
inductive Clause where
  | mapAttrs (chain : String)
  | filter (chain comparator : String) (value : Source)
  | limit (n : Value)
  | mapIds (collection : Collection)
  | flatten
  | withId

namespace Clause

def path (chain : String) : Except Error Chain :=
  match Chain.parsePath chain with
  | .ok c => .ok c
  | .error f => .error f.toError

/-- Checked in the order of the arguments. -/
def operation : Clause → Except Error Operation
  | mapAttrs chain => match path chain with
    | .error e => .error e
    | .ok p => .ok (.mapAttrs p)
  | filter chain comparator value => match path chain with
    | .error e => .error e
    | .ok p => match Comparator.parse comparator with
      | .error e => .error e
      | .ok c => match value.toValue with
        | .error cause => .error (.ofCause cause)
        | .ok v => .ok (.filter p c v)
  | limit n => match Limit.ofValue n with
    | .error e => .error e
    | .ok l => .ok (.limit l)
  | mapIds collection => .ok (.mapIds collection.name)
  | flatten => .ok .flatten
  | withId => .ok .withId

end Clause

namespace Query

def start (c : Collection) : Query := ⟨c.target, .empty⟩

def append (q : Query) (op : Operation) : Query := { q with program := q.program.append op }

def add (q : Query) (clause : Clause) : Except Error Query :=
  match clause.operation with
  | .error e => .error e
  | .ok op => .ok (q.append op)

def envelope (q : Query) (mode : Mode) : Envelope := ⟨q.target, .program q.program, mode.isDebug⟩

end Query

end DocQuery

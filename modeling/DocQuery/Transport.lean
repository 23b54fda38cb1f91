import DocQuery.Outcome
import DocQuery.Request

/-! # The recording transport

It keeps every request it is given and answers from a queue; an empty queue answers null. Sending
is the only thing that changes the log.
-/
namespace DocQuery

abbrev Answer := Except Error Value

structure Transport where
  requests : List HttpRequest
  /-- The next answer first. -/
  answers : List Answer

/-- What a transport that is not owned may be held by. -/
inductive Pointer where
  | reference
  | box
  | counted
  deriving DecidableEq, Repr

inductive Event where
  | appending (op : Operation.Kind) (position : Nat)
  | dispatching (action : String) (url : Url) (traceMode : Bool)
  | recording (url : Url) (method : Method)
  | failed (action : String) (error : Error)

namespace Event

inductive Level where
  | trace
  | debug
  | warn
  deriving DecidableEq, Repr

inductive Field where
  | text (s : String)
  | count (n : Nat)
  | flag (b : Bool)
  deriving DecidableEq, Repr

structure Record where
  level : Level
  message : String
  fields : List (String × Field)
  deriving DecidableEq

def record : Event → Record
  | appending op position =>
    ⟨.trace, "appending operation", [("op", .text op.name), ("position", .count position)]⟩
  | dispatching action url traceMode => ⟨.debug, "dispatching request",
      [("action", .text action), ("url", .text url.text), ("trace_mode", .flag traceMode)]⟩
  | recording url method =>
    ⟨.trace, "recording request", [("url", .text url.text), ("method", .text method.text)]⟩
  | failed action error =>
    ⟨.warn, "request failed", [("action", .text action), ("error", .text error.message)]⟩

end Event

namespace Transport

def ofScript (script : List Answer) : Transport := ⟨[], script⟩

def enqueue (t : Transport) (a : Answer) : Transport := { t with answers := t.answers ++ [a] }

def bodies (t : Transport) : Except Error (List Value) :=
  go t.requests
where
  go : List HttpRequest → Except Error (List Value)
    | [] => .ok []
    | r :: rs => match r.jsonBody with
      | .error e => .error e
      | .ok v => match go rs with
        | .error e => .error e
        | .ok vs => .ok (v :: vs)

/-- The answer to a request and the transport after it. -/
def send (t : Transport) (r : HttpRequest) : Answer × Transport :=
  match t.answers with
  | [] => (.ok Value.null, { t with requests := t.requests ++ [r] })
  | a :: as => (a, ⟨t.requests ++ [r], as⟩)

/-- Sends through pointers: each passes the request on to what it points to. -/
def sendThrough (t : Transport) (r : HttpRequest) : List Pointer → Answer × Transport
  | [] => t.send r
  | _ :: holder => t.sendThrough r holder

@[simp] theorem sendThrough_eq (t : Transport) (r : HttpRequest) (holder : List Pointer) :
    t.sendThrough r holder = t.send r := by
  induction holder with
  | nil => rfl
  | cons _ holder ih => exact ih

/-- Sends an envelope once; a failure is passed on as it is. -/
def dispatch (t : Transport) (e : Envelope) (holder : List Pointer := []) :
    Answer × Transport × List Event :=
  let request := e.toHttp
  let (answer, t) := t.sendThrough request holder
  let failure := match answer with
    | .ok _ => []
    | .error error => [.failed e.action.name error]
  (answer, t,
    .dispatching e.action.name request.url e.debug :: .recording request.url request.method ::
      failure)

end Transport

end DocQuery

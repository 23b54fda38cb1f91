import DocQuery.Inspect
import DocQuery.Pending

/-! # Sessions

A session is a connection over a recording transport, owned or held by pointers, and the handles
obtained so far, each under a name. A call gives a reply, the events it caused and the session after
it. Only `dispatch` and `send` reach the transport's log.
-/
namespace DocQuery

inductive Handle where
  | collection (c : Collection)
  | query (q : Query)
  | pending (p : Pending)

structure Session where
  connection : Connection
  transport : Transport
  /-- The pointers the connection holds the transport by, the outermost first. -/
  holder : List Pointer
  /-- The newest of a name stands first. -/
  handles : List (String × Handle)

/-- A call. `out` names the handle it stores, if any. -/
inductive Call where
  | enqueue (answer : Answer)
  | connection
  | collection (name : String) (out : Option String)
  | list (out : Option String)
  | create (name : String) (out : Option String)
  | document (collection id : String) (out : Option String)
  | all (collection : String) (out : Option String)
  | insert (collection : String) (data : Source) (out : Option String)
  | update (collection id : String) (data : Source) (out : Option String)
  | start (collection : String) (out : Option String)
  | mapAttrs (query chain : String) (out : Option String)
  | filter (query chain comparator : String) (value : Source) (out : Option String)
  | limit (query : String) (n : Value) (out : Option String)
  | mapIds (query collection : String) (out : Option String)
  | flatten (query : String) (out : Option String)
  | withId (query : String) (out : Option String)
  | copy (query : String) (out : Option String)
  | program (query : String)
  | inspect (handle : String)
  | compare (query other : String) (mode : Mode)
  | envelope (query : String) (mode : Mode)
  | dispatch (query : String) (mode : Mode)
  | send (handle : String) (mode : Mode)
  | count
  | last
  | requests
  | bodies

inductive Reply where
  | done
  | target (t : Target)
  | collection (c : Collection)
  | name (s : String)
  | id (s : String)
  | query (q : Query)
  | program (p : Program)
  | text (s : String)
  | comparison (programs requests : Bool)
  | envelope (e : Envelope)
  | result (r : Result)
  | count (n : Nat)
  | request (r : Option HttpRequest)
  | requests (rs : List HttpRequest)
  | bodies (vs : List Value)

inductive Refusal where
  /-- A name stands for no handle, or for one of another sort. -/
  | noSuchHandle
  | failed (e : Error)

structure Turn where
  reply : Except Refusal Reply
  events : List Event
  session : Session

namespace Session

def open? (config : ConnectionConfig) (script : List Answer) (holder : List Pointer := []) :
    Except Error Session :=
  match Connection.build config with
  | .error e => .error e
  | .ok c => .ok ⟨c, .ofScript script, holder, []⟩

def handle? (s : Session) (name : String) : Option Handle := Members.find? name s.handles

def collection? (s : Session) (name : String) : Option Collection :=
  match s.handle? name with
  | some (.collection c) => some c
  | _ => none

def query? (s : Session) (name : String) : Option Query :=
  match s.handle? name with
  | some (.query q) => some q
  | _ => none

/-- The request a handle stands for; a collection stands for none. -/
def pending? (s : Session) (name : String) : Option Pending :=
  match s.handle? name with
  | some (.query q) => some (.query q)
  | some (.pending p) => some p
  | _ => none

def store (s : Session) (out : Option String) (h : Handle) : Session :=
  match out with
  | none => s
  | some name => { s with handles := (name, h) :: s.handles }

def quiet (s : Session) (reply : Reply) : Turn := ⟨.ok reply, [], s⟩

def refuse (s : Session) (r : Refusal) : Turn := ⟨.error r, [], s⟩

def withHandle {α : Type} (s : Session) (h : Option α) (run : α → Turn) : Turn :=
  match h with
  | none => s.refuse .noSuchHandle
  | some a => run a

def obtain {α : Type} (s : Session) (r : Except Error α) (out : Option String) (handle : α → Handle)
    (reply : α → Reply) : Turn :=
  match r with
  | .error e => s.refuse (.failed e)
  | .ok a => (s.store out (handle a)).quiet (reply a)

def build (s : Session) (name : String) (clause : Clause) (out : Option String) : Turn :=
  s.withHandle (s.query? name) fun q =>
    match clause.operation with
    | .error e => s.refuse (.failed e)
    | .ok op => ⟨.ok (.query (q.append op)), [.appending op.kind q.program.length],
        s.store out (.query (q.append op))⟩

def sendPending (s : Session) (p : Pending) (mode : Mode) : Turn :=
  let (result, t, events) := p.send mode s.transport s.holder
  ⟨match result with
    | .error e => .error (.failed e)
    | .ok r => .ok (.result r), events, { s with transport := t }⟩

def dispatchQuery (s : Session) (q : Query) (mode : Mode) : Turn :=
  let (answer, t, events) := s.transport.dispatch (q.envelope mode) s.holder
  ⟨match answer with
    | .error e => .error (.failed e)
    | .ok v => .ok (.result (.raw v)), events, { s with transport := t }⟩

def step (s : Session) : Call → Turn
  | .enqueue answer => { s with transport := s.transport.enqueue answer }.quiet .done
  | .connection => s.quiet (.target s.connection.target)
  | .collection name out => s.obtain (s.connection.collection name) out .collection .collection
  | .list out => s.obtain (.ok s.connection.collectionList) out .pending fun _ => .done
  | .create name out =>
    s.obtain (s.connection.createCollection name) out .pending fun _ => .name name
  | .document c id out => s.withHandle (s.collection? c) fun c =>
    s.obtain (c.document id) out .pending fun _ => .id id
  | .all c out => s.withHandle (s.collection? c) fun c =>
    s.obtain (.ok c.allDocuments) out .pending fun _ => .done
  | .insert c data out => s.withHandle (s.collection? c) fun c =>
    s.obtain (c.insert data) out .pending fun _ => .done
  | .update c id data out => s.withHandle (s.collection? c) fun c =>
    s.obtain (c.update id data) out .pending fun _ => .done
  | .start c out => s.withHandle (s.collection? c) fun c =>
    s.obtain (.ok (Query.start c)) out .query .query
  | .mapAttrs q chain out => s.build q (.mapAttrs chain) out
  | .filter q chain comparator value out => s.build q (.filter chain comparator value) out
  | .limit q n out => s.build q (.limit n) out
  | .mapIds q c out => s.withHandle (s.query? q) fun _ => s.withHandle (s.collection? c) fun c =>
    s.build q (.mapIds c) out
  | .flatten q out => s.build q .flatten out
  | .withId q out => s.build q .withId out
  | .copy q out => s.withHandle (s.query? q) fun q => s.obtain (.ok q) out .query .query
  | .program q => s.withHandle (s.query? q) fun q => s.quiet (.program q.program)
  | .inspect h => s.withHandle (s.handle? h) fun
    | .query q => s.quiet (.text q.inspect)
    | .collection c => s.quiet (.text c.inspect)
    | .pending _ => s.refuse .noSuchHandle
  | .compare q r mode => s.withHandle (s.query? q) fun q => s.withHandle (s.query? r) fun r =>
    s.quiet (.comparison (q.program.same r.program) ((q.envelope mode).same (r.envelope mode)))
  | .envelope q mode => s.withHandle (s.query? q) fun q => s.quiet (.envelope (q.envelope mode))
  | .dispatch q mode => s.withHandle (s.query? q) fun q => s.dispatchQuery q mode
  | .send h mode => s.withHandle (s.pending? h) fun p => s.sendPending p mode
  | .count => s.quiet (.count s.transport.requests.length)
  | .last => s.quiet (.request s.transport.requests.getLast?)
  | .requests => s.quiet (.requests s.transport.requests)
  | .bodies => match s.transport.bodies with
    | .error e => s.refuse (.failed e)
    | .ok vs => s.quiet (.bodies vs)

def run (s : Session) : List Call → List Turn
  | [] => []
  | c :: cs => s.step c :: (s.step c).session.run cs

def after (s : Session) : List Call → Session
  | [] => s
  | c :: cs => (s.step c).session.after cs

end Session

end DocQuery

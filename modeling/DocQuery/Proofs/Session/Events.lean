import DocQuery.Proofs.Session.Requests

/-! # The events of a run

What a call tells follows from the book and from the answer the transport is about to give: an accepted
builder call tells what it appends, a terminal call what it sends and whether that failed, and every
other call nothing. Along a run the events are therefore a second account of the log and of the queue.
-/
namespace DocQuery

namespace Book

/-- The query a builder call is made on, and what the call asks for. -/
def clause? (b : Book) : Call → Option (String × Clause)
  | .mapAttrs q chain _ => some (q, .mapAttrs chain)
  | .filter q chain comparator value _ => some (q, .filter chain comparator value)
  | .limit q n _ => some (q, .limit n)
  | .mapIds q c _ => (b.collection? c).map fun c => (q, .mapIds c)
  | .flatten q _ => some (q, .flatten)
  | .withId q _ => some (q, .withId)
  | _ => none

def addition? (b : Book) (name : String) (clause : Clause) : Option (Operation × Nat) :=
  match b.query? name, clause.operation with
  | some (_, operations), .ok op => some (op, operations.length)
  | _, _ => none

def appended? (b : Book) (c : Call) : Option (Operation × Nat) :=
  (b.clause? c).bind fun (name, clause) => b.addition? name clause

def dispatched (conn : Connection) (p : Purpose) (mode : Mode) : Event.Record where
  level := .debug
  message := "dispatching request"
  fields := [("action", .text p.action.name), ("url", .text (p.target conn).url.text),
    ("trace_mode", .flag (p.debug mode))]

def recorded (conn : Connection) (p : Purpose) : Event.Record where
  level := .trace
  message := "recording request"
  fields := [("url", .text (p.target conn).url.text), ("method", .text "POST")]

/-- What is told of a request that gets this answer. -/
def account (conn : Connection) (p : Purpose) (mode : Mode) (a : Answer) : List Event.Record :=
  dispatched conn p mode :: recorded conn p :: match a with
    | .ok _ => []
    | .error e =>
      [⟨.warn, "request failed", [("action", .text p.action.name), ("error", .text e.message)]⟩]

/-- What a call tells when the transport is about to give this answer. -/
def told (conn : Connection) (b : Book) (a : Answer) (c : Call) : List Event.Record :=
  match b.appended? c with
  | some (op, position) =>
    [⟨.trace, "appending operation", [("op", .text op.kind.name), ("position", .count position)]⟩]
  | none => match b.terminal? c with
    | some (p, mode) => account conn p mode a
    | none => []

end Book

def Turn.records (t : Turn) : List Event.Record := t.events.map Event.record

theorem Transport.dispatch_events (t : Transport) (e : Envelope) (holder : List Pointer) :
    (t.dispatch e holder).2.2 =
      .dispatching e.action.name e.target.url e.debug :: .recording e.target.url .post ::
        match t.reply with
        | .ok _ => []
        | .error error => [.failed e.action.name error] := by
  simp only [dispatch, sendThrough_eq, send_eq]
  rfl

theorem Pending.send_events (p : Pending) (mode : Mode) (t : Transport) (holder : List Pointer) :
    (p.send mode t holder).2.2 = (t.dispatch (p.envelope mode) holder).2.2 := by
  unfold send
  split
  rename_i answer t' events h
  rw [h]
  cases answer <;> rfl

theorem Purpose.account_eq (conn : Connection) (p : Purpose) (mode : Mode) (t : Transport)
    (holder : List Pointer) :
    (t.dispatch (p.envelope conn mode) holder).2.2.map Event.record =
      Book.account conn p mode t.reply := by
  rw [t.dispatch_events]
  cases t.reply <;> rfl

namespace Session
variable {s : Session} {b : Book}

theorem records_withHandle {α : Type} (h : Option α) {run : α → Turn}
    (hrun : ∀ a, (run a).records = []) : (s.withHandle h run).records = [] := by
  cases h with
  | none => rfl
  | some a => exact hrun a

theorem records_obtain {α : Type} (r : Except Error α) (out : Option String) (handle : α → Handle)
    (reply : α → Reply) : (s.obtain r out handle reply).records = [] := by
  cases r <;> rfl

theorem records_build (h : s.Follows b) (name : String) (clause : Clause) (out : Option String) :
    (s.build name clause out).records = match b.addition? name clause with
      | some (op, position) =>
        [⟨.trace, "appending operation", [("op", .text op.kind.name), ("position", .count position)]⟩]
      | none => [] := by
  rw [build, h.query?, Book.addition?]
  cases b.query? name with
  | none => rfl
  | some q =>
    simp only [Option.map_some, withHandle]
    cases clause.operation <;> rfl

theorem records_sendPending (p : Purpose) (mode : Mode) :
    (s.sendPending (p.pending s.connection) mode).records =
      Book.account s.connection p mode s.transport.reply := by
  rw [← p.account_eq s.connection mode s.transport s.holder, ← p.envelope_pending,
    ← Pending.send_events]
  rfl

theorem step_records (h : s.Follows b) (c : Call) :
    (s.step c).records = b.told s.connection s.transport.reply c := by
  cases c with
  | enqueue answer => rfl
  | connection => rfl
  | collection name out => exact records_obtain ..
  | list out => rfl
  | create name out => exact records_obtain ..
  | document c id out => exact records_withHandle _ fun c => records_obtain ..
  | all c out => exact records_withHandle _ fun c => records_obtain ..
  | insert c data out => exact records_withHandle _ fun c => records_obtain ..
  | update c id data out => exact records_withHandle _ fun c => records_obtain ..
  | start c out => exact records_withHandle _ fun c => records_obtain ..
  | mapAttrs q chain out => exact records_build h q (.mapAttrs chain) out
  | filter q chain comparator value out => exact records_build h q (.filter chain comparator value) out
  | limit q n out => exact records_build h q (.limit n) out
  | mapIds q c out =>
    simp only [step, h.query?, h.collection?, Book.told, Book.appended?, Book.clause?]
    cases b.collection? c with
    | none => cases b.query? q <;> rfl
    | some c =>
      have hbuild := records_build h q (.mapIds c) out
      cases hq : b.query? q with
      | none =>
        have hnone : b.addition? q (.mapIds c) = none := by rw [Book.addition?, hq]
        simp only [Option.map_some, Option.bind_some, hnone]
        rfl
      | some _ => exact hbuild
  | flatten q out => exact records_build h q .flatten out
  | withId q out => exact records_build h q .withId out
  | copy q out => exact records_withHandle _ fun q => records_obtain ..
  | program q => exact records_withHandle _ fun q => rfl
  | inspect name =>
    refine records_withHandle _ fun a => ?_
    cases a <;> rfl
  | compare q r mode => exact records_withHandle _ fun q => records_withHandle _ fun r => rfl
  | envelope q mode => exact records_withHandle _ fun q => rfl
  | dispatch q mode =>
    simp only [step, h.query?, Book.told, Book.appended?, Book.clause?, Book.terminal?]
    cases b.query? q with
    | none => rfl
    | some q => exact Purpose.account_eq s.connection (.query q.1 q.2) mode s.transport s.holder
  | send name mode =>
    simp only [step, h.pending?, Book.told, Book.appended?, Book.clause?, Book.terminal?]
    cases b.purpose? name with
    | none => rfl
    | some p => exact records_sendPending p mode
  | count => rfl
  | last => rfl
  | requests => rfl
  | bodies =>
    simp only [step]
    cases s.transport.bodies <;> rfl

end Session

def Event.Record.field? (r : Event.Record) (name : String) : Option Event.Field :=
  Members.find? name r.fields

/-- The error of an answer that is a failure. -/
def Answer.failure? : Answer → Option Error
  | .ok _ => none
  | .error e => some e

def Call.scripted? : Call → Option Answer
  | .enqueue answer => some answer
  | _ => none

def Call.isBuilder : Call → Bool
  | .mapAttrs _ _ _ | .filter _ _ _ _ _ | .limit _ _ _ | .mapIds _ _ _ | .flatten _ _
  | .withId _ _ => true
  | _ => false

namespace Book
variable {b : Book}

theorem terminal?_of_appended? {c : Call} {x : Operation × Nat} (h : b.appended? c = some x) :
    b.terminal? c = none := by
  cases c with
  | dispatch q mode => cases h
  | send name mode => cases h
  | _ => rfl

/-- Appending aside, what a call tells is what it tells of its request. -/
theorem filter_told (conn : Connection) (a : Answer) (c : Call) {p : Event.Record → Bool}
    (hp : ∀ fields, p ⟨.trace, "appending operation", fields⟩ = false) :
    (b.told conn a c).filter p =
      (b.terminal? c).toList.flatMap fun t => (account conn t.1 t.2 a).filter p := by
  unfold told
  cases happ : b.appended? c with
  | some x => simp [terminal?_of_appended? happ, hp]
  | none => cases b.terminal? c <;> simp

end Book

namespace Session
variable {s : Session} {b : Book}

def told (s : Session) (cs : List Call) : List Event.Record := (s.run cs).flatMap (·.records)

theorem told_cons (s : Session) (c : Call) (cs : List Call) :
    s.told (c :: cs) = (s.step c).records ++ (s.step c).session.told cs := rfl

theorem told_append (s : Session) (cs cs' : List Call) :
    s.told (cs ++ cs') = s.told cs ++ (s.after cs).told cs' := by
  induction cs generalizing s with
  | nil => rfl
  | cons c cs ih => rw [List.cons_append, told_cons, told_cons, ih, List.append_assoc, after]

theorem filter_told (h : s.Follows b) (cs : List Call) {p : Event.Record → Bool}
    {x : Purpose × Mode → Event.Record}
    (hp : ∀ fields, p ⟨.trace, "appending operation", fields⟩ = false)
    (hx : ∀ t a, (Book.account s.connection t.1 t.2 a).filter p = [x t]) :
    (s.told cs).filter p = (b.terminals s.connection cs).map x := by
  induction cs generalizing s b with
  | nil => rfl
  | cons c cs ih =>
    obtain ⟨hconn, hf, -⟩ := step_follows h c
    rw [told_cons, List.filter_append, step_records h, Book.filter_told _ _ _ hp,
      ih hf (by rwa [hconn]), hconn, Book.terminals, List.map_append]
    cases b.terminal? c <;> simp [hx]

/-- A call takes the answers it uses up from the front of the queue and puts what it scripts at the end;
it warns of the failures among those it took. -/
theorem step_taken (h : s.Follows b) (c : Call) : ∃ taken : List Answer,
    taken ++ (s.step c).session.transport.answers =
      s.transport.answers ++ c.scripted?.toList ∧
    ((s.step c).records.filter (·.level = .warn)).map (·.field? "error") =
      (taken.filterMap (·.failure?)).map fun e => some (.text e.message) := by
  rw [step_records h, Book.filter_told _ _ _ fun _ => rfl]
  cases ht : b.terminal? c with
  | none =>
    refine ⟨[], ?_, rfl⟩
    cases hs : c.isScripting with
    | true =>
      obtain ⟨answer, rfl⟩ := Call.exists_of_isScripting hs
      rfl
    | false =>
      have hnone : c.scripted? = none := by
        cases c with
        | enqueue answer => cases hs
        | _ => rfl
      rw [step_quiet h ht hs, transport_put, hnone]
      exact (List.append_nil _).symm
  | some t =>
    have hnone : c.scripted? = none := by
      cases c with
      | enqueue answer => cases ht
      | _ => rfl
    rw [step_terminal h ht, hnone]
    cases ha : s.transport.answers with
    | nil =>
      have hreply : s.transport.reply = .ok Value.null := by rw [Transport.reply, ha]; rfl
      exact ⟨[], by simp [Transport.record, ha], by rw [hreply]; rfl⟩
    | cons a rest =>
      have hreply : s.transport.reply = a := by rw [Transport.reply, ha]; rfl
      refine ⟨[a], by simp [Transport.record, ha], ?_⟩
      rw [hreply]
      cases a <;> rfl

theorem warnings_taken (h : s.Follows b) (cs : List Call) : ∃ taken : List Answer,
    taken ++ (s.after cs).transport.answers = s.transport.answers ++ cs.filterMap (·.scripted?) ∧
    ((s.told cs).filter (·.level = .warn)).map (·.field? "error") =
      (taken.filterMap (·.failure?)).map fun e => some (.text e.message) := by
  induction cs generalizing s b with
  | nil => exact ⟨[], by simp [after], rfl⟩
  | cons c cs ih =>
    obtain ⟨first, hqueue, hwarn⟩ := step_taken h c
    obtain ⟨-, hf, -⟩ := step_follows h c
    obtain ⟨others, hqueue', hwarn'⟩ := ih hf
    -- What is scripted goes to the end, so the others take from behind what the first call took.
    refine ⟨first ++ others, ?_, ?_⟩
    · have hscript : (c :: cs).filterMap (·.scripted?) =
          c.scripted?.toList ++ cs.filterMap (·.scripted?) := by
        cases hc : c.scripted? <;> simp [hc]
      rw [after, List.append_assoc, hqueue', ← List.append_assoc, hqueue, hscript, List.append_assoc]
    · rw [told_cons, List.filter_append, List.map_append, hwarn, hwarn', List.filterMap_append,
        List.map_append]

theorem build_accepted (h : s.Follows b) (name : String) (clause : Clause) (out : Option String) :
    (∃ r, (s.build name clause out).reply = .ok r) ↔ (b.addition? name clause).isSome = true := by
  rw [build, h.query?, Book.addition?]
  cases b.query? name with
  | none => simp [withHandle, refuse]
  | some q =>
    simp only [Option.map_some, withHandle]
    cases clause.operation <;> simp [refuse]

theorem step_accepted (h : s.Follows b) {c : Call} (hc : c.isBuilder = true) :
    (∃ r, (s.step c).reply = .ok r) ↔ (b.appended? c).isSome = true := by
  cases c with
  | mapAttrs q chain out => exact build_accepted h q (.mapAttrs chain) out
  | filter q chain comparator value out => exact build_accepted h q (.filter chain comparator value) out
  | limit q n out => exact build_accepted h q (.limit n) out
  | mapIds q c out =>
    simp only [step, h.query?, h.collection?, Book.appended?, Book.clause?]
    cases b.collection? c with
    | none => cases b.query? q <;> simp [withHandle, refuse]
    | some c =>
      have hbuild := build_accepted h q (.mapIds c) out
      cases hq : b.query? q with
      | none => simp [withHandle, refuse, Book.addition?, hq]
      | some _ => exact hbuild
  | flatten q out => exact build_accepted h q .flatten out
  | withId q out => exact build_accepted h q .withId out
  | _ => cases hc

/-- Each call adds to the events of a run what the book and the answer it gets say of it, which for a
builder call is something exactly if it is accepted. So there is one dispatch for each request of the log;
the addresses recorded are those of the log, in order; the warnings are those of the failures among the
answers that were used up, in order; and no call warns of an answer that is a value, whatever it makes
of it. -/
theorem told_after {config : ConnectionConfig} {script : List Answer} {holder : List Pointer}
    (h : open? config script holder = .ok s) (cs : List Call) :
    (∀ c, s.told (cs ++ [c]) = s.told cs ++
      (Book.after s.connection [] cs).told s.connection (s.after cs).transport.reply c) ∧
    (∀ c, c.isBuilder = true → ((∃ r, ((s.after cs).step c).reply = .ok r) ↔
      ((Book.after s.connection [] cs).appended? c).isSome = true)) ∧
    ((s.told cs).filter (·.level = .debug)).length = (s.after cs).transport.requests.length ∧
    ((s.told cs).filter (·.message = "recording request")).map (·.field? "url") =
      (s.after cs).transport.requests.map (fun r => some (.text r.url.text)) ∧
    (∃ taken : List Answer,
      taken ++ (s.after cs).transport.answers = script ++ cs.filterMap (·.scripted?) ∧
      ((s.told cs).filter (·.level = .warn)).map (·.field? "error") =
        (taken.filterMap (·.failure?)).map fun e => some (.text e.message)) ∧
    (∀ c raw, (s.after cs).transport.reply = .ok raw →
      ∀ r ∈ ((s.after cs).step c).records, r.level ≠ .warn) := by
  obtain ⟨-, ht, hf⟩ := open?_follows h
  obtain ⟨hconn, hafter, hlog⟩ := after_follows hf cs
  have hstep : ∀ c, ((s.after cs).step c).records =
      (Book.after s.connection [] cs).told s.connection (s.after cs).transport.reply c := by
    intro c
    rw [step_records hafter c, hconn]
  have hempty : s.transport.requests = [] := by rw [ht]; rfl
  rw [hempty, List.nil_append] at hlog
  refine ⟨?_, ?_, ?_, ?_, ?_, ?_⟩
  · intro c
    rw [told_append, ← hstep c]
    exact congrArg (s.told cs ++ ·) (List.append_nil _)
  · exact fun c hc => step_accepted hafter hc
  · have hdebug : (s.told cs).filter (·.level = .debug) = (Book.terminals s.connection [] cs).map
        fun t => Book.dispatched s.connection t.1 t.2 :=
      filter_told hf cs (fun _ => rfl) fun t a => by cases a <;> rfl
    rw [hdebug, hlog, List.length_map, List.length_map]
  · have hrecorded : (s.told cs).filter (·.message = "recording request") =
        (Book.terminals s.connection [] cs).map fun t => Book.recorded s.connection t.1 :=
      filter_told hf cs (fun _ => rfl) fun t a => by cases a <;> rfl
    rw [hrecorded, hlog, List.map_map, List.map_map]
    rfl
  · obtain ⟨taken, hqueue, hwarn⟩ := warnings_taken hf cs
    rw [ht] at hqueue
    exact ⟨taken, hqueue, hwarn⟩
  · intro c raw hraw r hr hwarn
    have hnone : ((s.after cs).step c).records.filter (·.level = .warn) = [] := by
      rw [hstep, hraw, Book.filter_told _ _ _ fun _ => rfl]
      cases (Book.after s.connection [] cs).terminal? c <;> rfl
    exact List.filter_eq_nil_iff.1 hnone r hr (by simp [hwarn])

/-- Three requests: one fails, one is answered by what are no documents, one by nothing scripted. One
builder call is rejected, one accepted. -/
def oneFailureInThree : List Call := [.collection "users" (some "u"), .all "u" (some "a"),
  .send "a" .normal, .enqueue (.ok (Value.ofTree (.string "none"))), .send "a" .normal,
  .start "u" (some "q"), .limit "q" Value.null (some "q"), .withId "q" (some "q"), .send "q" .debug]

theorem told_after_one_failure :
    open? ⟨"http://h", "key"⟩ [.error (.transport "down")] [.box, .reference] = .ok opened ∧
      ((opened.told oneFailureInThree).filter (·.level = .debug)).length = 3 ∧
      ((opened.told oneFailureInThree).filter (·.level = .warn)).map (·.field? "error") =
        [some (.text (Error.transport "down").message)] := by
  have hopen : open? ⟨"http://h", "key"⟩ [.error (.transport "down")] [.box, .reference] =
      .ok opened := by rfl
  obtain ⟨-, -, hdebug, -, ⟨taken, hqueue, hwarn⟩, -⟩ := told_after hopen oneFailureInThree
  have hleft : (opened.after oneFailureInThree).transport.answers = [] := by rfl
  rw [hleft, List.append_nil] at hqueue
  rw [hqueue] at hwarn
  exact ⟨hopen, hdebug.trans (by rfl), hwarn⟩

end Session

end DocQuery

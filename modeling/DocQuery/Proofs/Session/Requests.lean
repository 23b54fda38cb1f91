import DocQuery.Proofs.Session.Book
import DocQuery.Proofs.Transport.Answers

/-! # The requests of a run

A session follows its book: the handles under its names are those the book speaks of. From that, one
step adds the request of a terminal call to the log and nothing else, and a whole run has the log its
book foretells.
-/
namespace DocQuery

theorem Pending.send_transport (p : Pending) (mode : Mode) (t : Transport) (holder : List Pointer) :
    (p.send mode t holder).2.1 = t.record (p.envelope mode).toHttp := by
  rw [← Transport.dispatch_transport t (p.envelope mode) holder]
  unfold send
  split
  rename_i answer t' events h
  rw [h]
  cases answer <;> rfl

namespace Session

/-- The handles of a session are those its book speaks of. -/
structure Follows (s : Session) (b : Book) : Prop where
  handles : s.handles = b.map fun m => (m.1, m.2.handle s.connection)
  sound : b.Sound s.connection

namespace Follows
variable {s : Session} {b : Book}

theorem handle? (h : s.Follows b) (name : String) :
    s.handle? name = (Members.find? name b).map (·.handle s.connection) := by
  rw [Session.handle?, h.handles, Members.find?_map]

theorem collection? (h : s.Follows b) (name : String) : s.collection? name = b.collection? name := by
  rw [Session.collection?, h.handle?, Book.collection?]
  cases Members.find? name b with
  | none => rfl
  | some e =>
    cases e with
    | collection c => rfl
    | request p => cases p <;> rfl

theorem pending? (h : s.Follows b) (name : String) :
    s.pending? name = (b.purpose? name).map (·.pending s.connection) := by
  rw [Session.pending?, h.handle?, Book.purpose?]
  cases Members.find? name b with
  | none => rfl
  | some e =>
    cases e with
    | collection c => rfl
    | request p => cases p <;> rfl

theorem query? (h : s.Follows b) (name : String) :
    s.query? name = (b.query? name).map fun (c, operations) => ⟨c.target, ⟨operations⟩⟩ := by
  rw [Session.query?, h.handle?, Book.query?, Book.purpose?]
  cases Members.find? name b with
  | none => rfl
  | some e =>
    cases e with
    | collection c => rfl
    | request p => cases p <;> rfl

end Follows

/-- The handle of an accepted call is stored, a refused call leaves the session as it is. -/
def put (s : Session) (out : Option String) : Option Entry → Session
  | none => s
  | some e => s.store out (e.handle s.connection)

variable {s : Session} {b : Book}

theorem obtain_session {α : Type} {handle : α → Handle} (e : α → Entry) (r : Except Error α)
    (out : Option String) (reply : α → Reply)
    (he : ∀ a, r = .ok a → (e a).handle s.connection = handle a) :
    (s.obtain r out handle reply).session = s.put out (r.toOption.map e) := by
  cases r with
  | error f => rfl
  | ok a =>
    have ha := he a rfl
    simp [obtain, put, quiet, Except.toOption, ha]

theorem build_session (h : s.Follows b) (name : String) (clause : Clause) (out : Option String) :
    (s.build name clause out).session = s.put out (b.extended? name clause) := by
  rw [build, h.query?, Book.extended?]
  cases b.query? name with
  | none => rfl
  | some q =>
    simp only [Option.map_some, withHandle]
    cases clause.operation with
    | error e => rfl
    | ok op => rfl

theorem sendPending_session (s : Session) (p : Pending) (mode : Mode) :
    (s.sendPending p mode).session =
      { s with transport := s.transport.record (p.envelope mode).toHttp } := by
  rw [← p.send_transport mode s.transport s.holder]
  rfl

theorem dispatchQuery_session (s : Session) (q : Query) (mode : Mode) :
    (s.dispatchQuery q mode).session =
      { s with transport := s.transport.record (q.envelope mode).toHttp } := by
  rw [← s.transport.dispatch_transport (q.envelope mode) s.holder]
  rfl

theorem step_quiet (h : s.Follows b) {c : Call} (ht : b.terminal? c = none)
    (hs : c.isScripting = false) :
    (s.step c).session = s.put c.out? (b.made? s.connection c) := by
  cases c with
  | enqueue answer => cases hs
  | connection => rfl
  | collection name out =>
    exact obtain_session Entry.collection (s.connection.collection name) out _ fun _ _ => rfl
  | list out => rfl
  | create name out =>
    simp only [step, Connection.createCollection, Book.made?]
    split <;> rfl
  | document c id out =>
    simp only [step, h.collection?, Book.made?, Collection.document]
    cases b.collection? c with
    | none => rfl
    | some c => simp only [withHandle, Option.bind_some]; split <;> rfl
  | all c out =>
    simp only [step, h.collection?, Book.made?]
    cases b.collection? c <;> rfl
  | insert c data out =>
    simp only [step, h.collection?, Book.made?, Collection.insert, Collection.write]
    cases b.collection? c with
    | none => rfl
    | some c => cases hd : data.toValue <;> rfl
  | update c id data out =>
    simp only [step, h.collection?, Book.made?, Collection.update, Collection.write]
    cases b.collection? c with
    | none => rfl
    | some c =>
      simp only [withHandle, Option.bind_some]
      split
      · rfl
      · cases hd : data.toValue <;> rfl
  | start c out =>
    simp only [step, h.collection?, Book.made?]
    cases b.collection? c <;> rfl
  | mapAttrs q chain out => exact build_session h q _ out
  | filter q chain comparator value out => exact build_session h q _ out
  | limit q n out => exact build_session h q _ out
  | mapIds q c out =>
    simp only [step, h.query?, h.collection?, Book.made?]
    cases b.collection? c with
    | none => cases b.query? q <;> rfl
    | some c =>
      have hbuild := build_session h q (.mapIds c) out
      cases hq : b.query? q with
      | none => simp [withHandle, Book.extended?, hq, refuse, put]
      | some _ => exact hbuild
  | flatten q out => exact build_session h q _ out
  | withId q out => exact build_session h q _ out
  | copy q out =>
    simp only [step, h.query?, Book.made?]
    cases b.query? q <;> rfl
  | program q =>
    simp only [step, h.query?]
    cases b.query? q <;> rfl
  | inspect name =>
    simp only [step]
    cases s.handle? name with
    | none => rfl
    | some a => cases a <;> rfl
  | compare q r mode =>
    simp only [step, h.query?]
    cases b.query? q with
    | none => rfl
    | some q => cases b.query? r <;> rfl
  | envelope q mode =>
    simp only [step, h.query?]
    cases b.query? q <;> rfl
  | dispatch q mode =>
    have hq : b.query? q = none := by simpa [Book.terminal?] using ht
    simp only [step, h.query?, hq]
    rfl
  | send name mode =>
    have hp : b.purpose? name = none := by simpa [Book.terminal?] using ht
    simp only [step, h.pending?, hp]
    rfl
  | count => rfl
  | last => rfl
  | requests => rfl
  | bodies =>
    simp only [step]
    cases s.transport.bodies <;> rfl

/-- A terminal call records its request, whatever the answer, and does nothing else. -/
theorem step_terminal (h : s.Follows b) {c : Call} {p : Purpose} {mode : Mode}
    (ht : b.terminal? c = some (p, mode)) :
    (s.step c).session =
      { s with transport := s.transport.record (p.envelope s.connection mode).toHttp } := by
  cases c with
  | dispatch q mode' =>
    obtain ⟨⟨c, operations⟩, hq, heq⟩ := Option.map_eq_some_iff.1 ht
    cases heq
    simp only [step, h.query?, hq, Option.map_some, withHandle, dispatchQuery_session]
    rfl
  | send name mode' =>
    obtain ⟨p', hp, heq⟩ := Option.map_eq_some_iff.1 ht
    cases heq
    simp only [step, h.pending?, hp, Option.map_some, withHandle, sendPending_session,
      Purpose.envelope_pending]
  | _ => cases ht

@[simp] theorem connection_put (s : Session) (out : Option String) (e : Option Entry) :
    (s.put out e).connection = s.connection := by
  cases e <;> cases out <;> rfl

@[simp] theorem transport_put (s : Session) (out : Option String) (e : Option Entry) :
    (s.put out e).transport = s.transport := by
  cases e <;> cases out <;> rfl

theorem Follows.put (h : s.Follows b) (out : Option String) {e : Entry}
    (he : e.Sound s.connection) : (s.put out (some e)).Follows (b.put out e) := by
  cases out with
  | none => exact h
  | some name =>
    constructor
    · simp [Session.put, store, Book.put, h.handles]
    · simpa [Session.put, store] using h.sound.put (some name) he

/-- One call keeps the connection and the book, and sends what the book says. -/
theorem step_follows (h : s.Follows b) (c : Call) :
    (s.step c).session.connection = s.connection ∧
    (s.step c).session.Follows (b.next s.connection c) ∧
    (s.step c).session.transport.requests = s.transport.requests ++
      (b.terminal? c).toList.map fun t => (t.1.envelope s.connection t.2).toHttp := by
  cases ht : b.terminal? c with
  | some t =>
    rw [step_terminal h ht, Book.next_of_terminal ht]
    exact ⟨rfl, ⟨h.handles, h.sound⟩, rfl⟩
  | none =>
    cases hs : c.isScripting with
    | true =>
      obtain ⟨answer, rfl⟩ := Call.exists_of_isScripting hs
      exact ⟨rfl, ⟨h.handles, h.sound⟩, (List.append_nil _).symm⟩
    | false =>
      -- At most a handle is stored, and it is the one the book has for the call.
      rw [step_quiet h ht hs, Book.next]
      refine ⟨connection_put s _ _, ?_, by simp⟩
      cases hm : b.made? s.connection c with
      | none => exact h
      | some e => exact h.put c.out? (h.sound.made? hm)

theorem after_append (s : Session) (cs cs' : List Call) :
    s.after (cs ++ cs') = (s.after cs).after cs' := by
  induction cs generalizing s with
  | nil => rfl
  | cons c cs ih => exact ih (s.step c).session

theorem after_follows (h : s.Follows b) (cs : List Call) :
    (s.after cs).connection = s.connection ∧
    (s.after cs).Follows (b.after s.connection cs) ∧
    (s.after cs).transport.requests = s.transport.requests ++
      (b.terminals s.connection cs).map fun t => (t.1.envelope s.connection t.2).toHttp := by
  induction cs generalizing s b with
  | nil => exact ⟨rfl, h, (List.append_nil _).symm⟩
  | cons c cs ih =>
    obtain ⟨hconn, hf, hlog⟩ := step_follows h c
    obtain ⟨hconn', hf', hlog'⟩ := ih hf
    rw [hconn] at hconn' hf' hlog'
    refine ⟨hconn', hf', ?_⟩
    rw [after, hlog', hlog, Book.terminals, List.map_append, List.append_assoc]

theorem open?_follows {config : ConnectionConfig} {script : List Answer} {holder : List Pointer}
    (h : open? config script holder = .ok s) :
    Connection.build config = .ok s.connection ∧ s.transport = .ofScript script ∧ s.Follows [] := by
  unfold open? at h
  cases hc : Connection.build config with
  | error e => simp [hc] at h
  | ok conn =>
    simp only [hc, Except.ok.injEq] at h
    subst h
    exact ⟨rfl, rfl, rfl, fun m hm => absurd hm (List.not_mem_nil)⟩

/-- The log of a run is the requests of its terminal calls, in order, each to the address of its
collection or of the database. Any other call leaves the log and the queue as they are, and a
terminal call uses up one answer. Another script, another holder and other scripting on the way
leave the same log. -/
theorem requests_after {config : ConnectionConfig} {script : List Answer} {holder : List Pointer}
    (h : open? config script holder = .ok s) (cs : List Call) :
    (s.after cs).transport.requests = (Book.terminals s.connection [] cs).map
      (fun t => (t.1.envelope s.connection t.2).toHttp) ∧
    (∀ t ∈ Book.terminals s.connection [] cs, ∀ c ∈ t.1.collection?,
      s.connection.collection c.name = .ok c) ∧
    (∀ c : Call, c.isScripting = false →
      (Book.after s.connection [] cs).terminal? c = none →
      ((s.after cs).step c).session.transport = (s.after cs).transport) ∧
    (∀ c t, (Book.after s.connection [] cs).terminal? c = some t →
      ((s.after cs).step c).session.transport =
        (s.after cs).transport.record (t.1.envelope s.connection t.2).toHttp) ∧
    (∀ script' holder' s' cs', open? config script' holder' = .ok s' →
      cs'.filter (fun c => !c.isScripting) = cs.filter (fun c => !c.isScripting) →
      (s'.after cs').transport.requests = (s.after cs).transport.requests) := by
  have hlog : ∀ {script holder s} (_ : open? config script holder = .ok s) (cs : List Call),
      (s.after cs).transport.requests = (Book.terminals s.connection [] cs).map
        (fun t => (t.1.envelope s.connection t.2).toHttp) := by
    intro script holder s h cs
    obtain ⟨-, ht, hf⟩ := open?_follows h
    obtain ⟨-, -, hreqs⟩ := after_follows hf cs
    rw [hreqs, ht]
    rfl
  obtain ⟨hbuild, -, hf⟩ := open?_follows h
  obtain ⟨hconn, hafter, -⟩ := after_follows hf cs
  refine ⟨hlog h cs, ?_, ?_, ?_, ?_⟩
  · exact Book.terminals_sound hf.sound cs
  · intro c hs ht
    rw [step_quiet hafter ht hs, transport_put]
  · intro c t ht
    rw [step_terminal hafter ht, hconn]
  · intro script' holder' s' cs' h' hcs
    obtain ⟨hbuild', -⟩ := open?_follows h'
    have hsame : s'.connection = s.connection := by
      rw [hbuild'] at hbuild
      exact Except.ok.inj hbuild
    rw [hlog h', hlog h, hsame, ← Book.terminals_filter _ _ cs, ← hcs, Book.terminals_filter]

def opened : Session where
  connection := ⟨"http://h", ⟨⟨['h', 't', 't', 'p'], some ⟨[], [], .name ['h'], none⟩,
    .segments [[]], none, none⟩, "key"⟩⟩
  transport := .ofScript [.error (.transport "down")]
  holder := [.box, .reference]
  handles := []

def users : Collection := ⟨"users", ⟨⟨['h', 't', 't', 'p'], some ⟨[], [], .name ['h'], none⟩,
  .segments [['u', 's', 'e', 'r', 's']], none, none⟩, "key"⟩⟩

/-- Three terminal calls among refused ones, reads of the log and scripting. -/
def sendsAmongRefusals : List Call := [.collection "users" (some "u"), .start "u" (some "q"),
  .flatten "q" (some "q"), .limit "q" Value.null (some "q"), .send "q" .debug,
  .enqueue (.ok Value.null), .document "u" "" (some "d"), .create "new" (some "n"),
  .dispatch "n" .debug, .send "n" .debug, .requests, .dispatch "q" .normal]

theorem requests_after_refusals :
    open? ⟨"http://h", "key"⟩ [.error (.transport "down")] [.box, .reference] = .ok opened ∧
      (opened.after sendsAmongRefusals).transport.requests =
        [(Purpose.query users [.flatten]).envelope opened.connection .debug,
          (Purpose.creation "new").envelope opened.connection .debug,
          (Purpose.query users [.flatten]).envelope opened.connection .normal].map (·.toHttp) := by
  have hopen : open? ⟨"http://h", "key"⟩ [.error (.transport "down")] [.box, .reference] =
      .ok opened := by rfl
  have hterminals : Book.terminals opened.connection [] sendsAmongRefusals =
      [(.query users [.flatten], .debug), (.creation "new", .debug),
        (.query users [.flatten], .normal)] := by rfl
  obtain ⟨hlog, -⟩ := requests_after hopen sendsAmongRefusals
  rw [hterminals] at hlog
  exact ⟨hopen, hlog⟩

end Session

end DocQuery

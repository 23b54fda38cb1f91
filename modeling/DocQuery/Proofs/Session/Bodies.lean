import DocQuery.Proofs.Program.RoundTrip
import DocQuery.Proofs.Session.Requests

/-! # Reading the recorded bodies back

A body stands two levels around a document and five around a value that a program compares with, so
a log can be read back as long as neither nests too deep. One request that does spoils the reading
for good, and nothing else: no other call looks at the log.
-/
namespace DocQuery

namespace Action

/-- The document an action writes. -/
def document? : Action → Option Value
  | insert data | update _ data => some data
  | document _ | allDocuments | collectionList | collectionCreate _ | program _ => none

def values : Action → List Value
  | program p => p.values
  | document _ | insert _ | update _ _ | allDocuments | collectionList | collectionCreate _ => []

theorem depth_body_le {n : Nat} (a : Action) :
    a.body.depth ≤ n + 5 ↔ (∀ v ∈ a.document?, v.depth ≤ n + 4) ∧ ∀ v ∈ a.values, v.depth ≤ n + 1 := by
  cases a with
  | program p => simp [body, document?, values, p.depth_tree_le]
  | _ => simp [body, document?, values, Json.depth, Json.depthMembers, Value.depth]

end Action

/-- What an action holds nests so little that its request can be read back. -/
structure Action.Shallow (a : Action) : Prop where
  document : ∀ v ∈ a.document?, v.depth ≤ 125
  values : ∀ v ∈ a.values, v.depth ≤ 122

theorem Envelope.depth_tree_le (e : Envelope) :
    e.tree.depth ≤ Json.depthLimit ↔ e.action.Shallow := by
  have hbody : e.tree.depth ≤ Json.depthLimit ↔ e.action.body.depth ≤ 121 + 5 := by
    simp only [tree, Json.depth, Json.depthMembers, Json.depthLimit]
    omega
  rw [hbody, e.action.depth_body_le]
  exact ⟨fun h => ⟨h.1, h.2⟩, fun h => ⟨h.document, h.values⟩⟩

/-- Every double of the body is read back from its own text. -/
def Envelope.ReadsBack (e : Envelope) : Prop :=
  ∀ d, Json.Number.double d ∈ e.body.tree.numbers → d.ReadsBack

theorem Envelope.jsonBody_of_readsBack {e : Envelope} (h : e.ReadsBack) :
    (e.action.Shallow → e.toHttp.jsonBody = .ok e.body) ∧
      (¬ e.action.Shallow → ∃ reason, e.toHttp.jsonBody = .error (.serialization reason)) := by
  have hnumbers : ∀ x ∈ e.tree.numbers, x.ReadsBack := by
    intro x hx
    refine Json.Number.readsBack fun d hxd => h d ?_
    rw [mem_numbers_body]
    exact hxd ▸ hx
  rw [← e.depth_tree_le]
  exact jsonBody_toHttp hnumbers

namespace Transport

/-- The first body that cannot be read decides, whatever is recorded behind it. -/
theorem bodies_append_of_error {rs : List HttpRequest} {e : Error} (h : bodies.go rs = .error e)
    (rs' : List HttpRequest) : bodies.go (rs ++ rs') = .error e := by
  induction rs with
  | nil => cases h
  | cons r rs ih =>
    simp only [List.cons_append, bodies.go] at h ⊢
    cases hr : r.jsonBody with
    | error f => simpa only [hr] using h
    | ok v =>
      simp only [hr] at h ⊢
      cases hrs : bodies.go rs with
      | ok vs => simp only [hrs] at h; cases h
      | error f =>
        simp only [hrs] at h
        cases h
        rw [ih hrs]

theorem bodies_of_shallow {es : List Envelope} (hd : ∀ e ∈ es, e.ReadsBack)
    (h : ∀ e ∈ es, e.action.Shallow) :
    bodies.go (es.map (·.toHttp)) = .ok (es.map (·.body)) := by
  induction es with
  | nil => rfl
  | cons e es ih =>
    rw [List.forall_mem_cons] at hd h
    have hread := (Envelope.jsonBody_of_readsBack hd.1).1 h.1
    simp only [List.map_cons, bodies.go, hread, ih hd.2 h.2]

theorem bodies_of_deep {es : List Envelope} (hd : ∀ e ∈ es, e.ReadsBack)
    (h : ∃ e ∈ es, ¬ e.action.Shallow) :
    ∃ reason, bodies.go (es.map (·.toHttp)) = .error (.serialization reason) := by
  induction es with
  | nil => simp at h
  | cons e es ih =>
    rw [List.forall_mem_cons] at hd
    obtain ⟨hok, hdeep⟩ := Envelope.jsonBody_of_readsBack hd.1
    by_cases he : e.action.Shallow
    · obtain ⟨reason, hr⟩ := ih hd.2 (by simpa [he] using h)
      exact ⟨reason, by simp only [List.map_cons, bodies.go, hok he, hr]⟩
    · obtain ⟨reason, hr⟩ := hdeep he
      exact ⟨reason, by simp only [List.map_cons, bodies.go, hr]⟩

end Transport

/-- Whether a call is answered from the log. -/
def Call.readsLog : Call → Bool
  | .count | .last | .requests | .bodies => true
  | _ => false

/-- The transport with a log in front of its own. -/
def Transport.behind (t : Transport) (log : List HttpRequest) : Transport :=
  { t with requests := log ++ t.requests }

theorem Transport.dispatch_behind (t : Transport) (log : List HttpRequest) (e : Envelope)
    (holder : List Pointer) :
    (t.behind log).dispatch e holder =
      ((t.dispatch e holder).1, (t.dispatch e holder).2.1.behind log, (t.dispatch e holder).2.2) := by
  simp only [dispatch, sendThrough_eq, send_eq, record, reply, behind, List.append_assoc]

theorem Pending.send_behind (p : Pending) (mode : Mode) (t : Transport) (log : List HttpRequest)
    (holder : List Pointer) :
    p.send mode (t.behind log) holder =
      ((p.send mode t holder).1, (p.send mode t holder).2.1.behind log, (p.send mode t holder).2.2) := by
  simp only [send, t.dispatch_behind log]
  cases (t.dispatch (p.envelope mode) holder).1 <;> rfl

namespace Session

def behind (s : Session) (log : List HttpRequest) : Session :=
  { s with transport := s.transport.behind log }

end Session

def Turn.behind (t : Turn) (log : List HttpRequest) : Turn := { t with session := t.session.behind log }

namespace Session
variable {s : Session} {log : List HttpRequest}

theorem withHandle_behind {α : Type} (h : Option α) {run run' : α → Turn}
    (hrun : ∀ a, run' a = (run a).behind log) :
    (s.behind log).withHandle h run' = (s.withHandle h run).behind log := by
  cases h with
  | none => rfl
  | some a => exact hrun a

theorem obtain_behind {α : Type} (r : Except Error α) (out : Option String) (handle : α → Handle)
    (reply : α → Reply) :
    (s.behind log).obtain r out handle reply = (s.obtain r out handle reply).behind log := by
  cases r with
  | error e => rfl
  | ok a => cases out <;> rfl

theorem build_behind (name : String) (clause : Clause) (out : Option String) :
    (s.behind log).build name clause out = (s.build name clause out).behind log := by
  refine withHandle_behind (s.query? name) fun q => ?_
  cases clause.operation with
  | error e => rfl
  | ok op => cases out <;> rfl

/-- What has been recorded before is no concern of a call that is not answered from the log. -/
theorem step_behind {c : Call} (h : c.readsLog = false) :
    (s.behind log).step c = (s.step c).behind log := by
  cases c with
  | enqueue answer => rfl
  | connection => rfl
  | collection name out => exact obtain_behind ..
  | list out => cases out <;> rfl
  | create name out => exact obtain_behind ..
  | document c id out => exact withHandle_behind _ fun c => obtain_behind ..
  | all c out => exact withHandle_behind _ fun c => obtain_behind ..
  | insert c data out => exact withHandle_behind _ fun c => obtain_behind ..
  | update c id data out => exact withHandle_behind _ fun c => obtain_behind ..
  | start c out => exact withHandle_behind _ fun c => obtain_behind ..
  | mapAttrs q chain out => exact build_behind ..
  | filter q chain comparator value out => exact build_behind ..
  | limit q n out => exact build_behind ..
  | mapIds q c out =>
    exact withHandle_behind _ fun _ => withHandle_behind _ fun c => build_behind ..
  | flatten q out => exact build_behind q .flatten out
  | withId q out => exact build_behind q .withId out
  | copy q out => exact withHandle_behind _ fun q => obtain_behind ..
  | program q => exact withHandle_behind _ fun q => rfl
  | inspect name =>
    refine withHandle_behind _ fun a => ?_
    cases a <;> rfl
  | compare q r mode => exact withHandle_behind _ fun q => withHandle_behind _ fun r => rfl
  | envelope q mode => exact withHandle_behind _ fun q => rfl
  | dispatch q mode =>
    refine withHandle_behind _ fun q => ?_
    simp only [dispatchQuery, behind, Transport.dispatch_behind]
    rfl
  | send name mode =>
    refine withHandle_behind _ fun p => ?_
    simp only [sendPending, behind, Pending.send_behind]
    rfl
  | _ => cases h

end Session

/-- The envelopes of the terminal calls of a run, in order. -/
def Book.sent (conn : Connection) (b : Book) (cs : List Call) : List Envelope :=
  (b.terminals conn cs).map fun t => t.1.envelope conn t.2

namespace Session
variable {s : Session}

theorem requests_sent {b : Book} (h : s.Follows b) (hlog : s.transport.requests = [])
    (cs : List Call) :
    (s.after cs).transport.requests = (b.sent s.connection cs).map (·.toHttp) := by
  obtain ⟨-, -, hafter⟩ := after_follows h cs
  rw [hafter, hlog, List.nil_append, Book.sent, List.map_map]
  rfl

/-- The recorded bodies can be read back exactly if every document sent nests at most 125 levels and
every value compared with at most 122; they are then the bodies of what was sent, in order. One deeper
request, and they cannot be read at any later point; what was sent is reported all the same, and a
call that is not answered from the log does the same behind any log. Doubles are assumed to be read
back from their own texts. -/
theorem bodies_after {config : ConnectionConfig} {script : List Answer} {holder : List Pointer}
    (h : open? config script holder = .ok s) (cs : List Call)
    (hd : ∀ e ∈ Book.sent s.connection [] cs, e.ReadsBack) :
    ((∃ vs, (s.after cs).transport.bodies = .ok vs) ↔
      ∀ e ∈ Book.sent s.connection [] cs, e.action.Shallow) ∧
    (∀ vs, (s.after cs).transport.bodies = .ok vs →
      vs = (Book.sent s.connection [] cs).map (·.body)) ∧
    ((∃ e ∈ Book.sent s.connection [] cs, ¬ e.action.Shallow) →
      ∃ reason, ∀ cs', (s.after (cs ++ cs')).transport.bodies = .error (.serialization reason)) ∧
    (∀ cs', ((s.after cs').step .requests).reply =
        .ok (.requests ((Book.sent s.connection [] cs').map (·.toHttp))) ∧
      ((s.after cs').step .last).reply =
        .ok (.request ((Book.sent s.connection [] cs').getLast?.map (·.toHttp))) ∧
      ((s.after cs').step .count).reply = .ok (.count (Book.sent s.connection [] cs').length)) ∧
    (∀ (s' : Session) log c, c.readsLog = false →
      (s'.behind log).step c = (s'.step c).behind log) := by
  obtain ⟨-, ht, hf⟩ := open?_follows h
  have hempty : s.transport.requests = [] := by rw [ht]; rfl
  have hlog := requests_sent hf hempty
  have hshallow : (∀ e ∈ Book.sent s.connection [] cs, e.action.Shallow) →
      (s.after cs).transport.bodies = .ok ((Book.sent s.connection [] cs).map (·.body)) := by
    intro hs
    rw [Transport.bodies, hlog]
    exact Transport.bodies_of_shallow hd hs
  have hdeep : (∃ e ∈ Book.sent s.connection [] cs, ¬ e.action.Shallow) →
      ∃ reason, Transport.bodies.go (s.after cs).transport.requests =
        .error (.serialization reason) := by
    intro hs
    rw [hlog]
    exact Transport.bodies_of_deep hd hs
  -- A log is readable or holds a deep request, so each of the two facts has a converse.
  have hcases : ∀ vs, (s.after cs).transport.bodies = .ok vs →
      ∀ e ∈ Book.sent s.connection [] cs, e.action.Shallow := by
    intro vs hvs
    by_contra hnot
    obtain ⟨reason, hr⟩ := hdeep (by simpa using hnot)
    rw [Transport.bodies, hr] at hvs
    cases hvs
  refine ⟨⟨fun ⟨vs, hvs⟩ => hcases vs hvs, fun hs => ⟨_, hshallow hs⟩⟩, ?_, ?_, ?_, ?_⟩
  · intro vs hvs
    rw [hshallow (hcases vs hvs)] at hvs
    exact (Except.ok.inj hvs).symm
  · intro hs
    obtain ⟨reason, hr⟩ := hdeep hs
    refine ⟨reason, fun cs' => ?_⟩
    obtain ⟨-, hf', -⟩ := after_follows hf cs
    obtain ⟨-, -, hlog'⟩ := after_follows hf' cs'
    rw [after_append, Transport.bodies, hlog']
    exact Transport.bodies_append_of_error hr _
  · intro cs'
    simp only [step, quiet, hlog cs', List.getLast?_map, List.length_map, and_self]
  · exact fun s' log c hc => step_behind hc

def nest : Nat → Json
  | 0 => .null
  | n + 1 => .array [nest n]

theorem depth_nest (n : Nat) : (nest n).depth = n := by
  induction n with
  | zero => rfl
  | succ n ih => simp [nest, Json.depth, Json.depthItems, ih]

theorem normalize_nest (n : Nat) : (nest n).normalize = nest n := by
  induction n with
  | zero => rfl
  | succ n ih => simp [nest, Json.normalize, Json.normalizeItems, ih]

theorem numbers_nest (n : Nat) : (nest n).numbers = [] := by
  induction n with
  | zero => rfl
  | succ n ih => simp [nest, Json.numbers, Json.numbersItems, ih]

def insertNested (n : Nat) : List Call := [.collection "users" (some "u"),
  .insert "u" (.value (Value.ofTree (nest n))) (some "i"), .send "i" .normal,
  .list (some "l"), .send "l" .debug]

theorem sent_insertNested (n : Nat) : Book.sent opened.connection [] (insertNested n) =
    [(Purpose.insertion users (Value.ofTree (nest n))).envelope opened.connection .normal,
      Purpose.listing.envelope opened.connection .debug] := by
  rw [← (Value.ofTree (nest n)).ofTree_tree]
  rfl

theorem readsBack_insertNested (n : Nat) :
    ∀ e ∈ Book.sent opened.connection [] (insertNested n), e.ReadsBack := by
  intro e he d hd
  rw [Envelope.mem_numbers_body] at hd
  rw [sent_insertNested] at he
  simp only [List.mem_cons, List.not_mem_nil, or_false] at he
  rcases he with rfl | rfl
  · simp [Envelope.tree, Purpose.envelope, Purpose.action, Action.body, Json.numbers,
      Json.numbersMembers, normalize_nest, numbers_nest] at hd
  · simp [Envelope.tree, Purpose.envelope, Purpose.action, Action.body, Json.numbers,
      Json.numbersMembers] at hd

theorem shallow_insertNested {n : Nat} :
    (∀ e ∈ Book.sent opened.connection [] (insertNested n), e.action.Shallow) ↔ n ≤ 125 := by
  have hdepth : (Value.ofTree (nest n)).depth = n := by
    rw [Value.depth, Value.tree_ofTree, normalize_nest, depth_nest]
  have hinsert : (Action.insert (Value.ofTree (nest n))).Shallow ↔ n ≤ 125 := by
    constructor
    · intro h
      simpa only [hdepth] using h.document _ rfl
    · intro hn
      refine ⟨fun v hv => ?_, fun v hv => by cases hv⟩
      cases hv
      rwa [hdepth]
  have hlist : Action.collectionList.Shallow := by
    constructor <;> (intro v hv; cases hv)
  rw [sent_insertNested]
  simp only [List.forall_mem_cons, Purpose.envelope, Purpose.action, hinsert, hlist, List.not_mem_nil,
    false_implies, implies_true, and_true]

theorem bodies_after_insertNested :
    open? ⟨"http://h", "key"⟩ [.error (.transport "down")] [.box, .reference] = .ok opened ∧
      (∃ vs, (opened.after (insertNested 125)).transport.bodies = .ok vs) ∧
      ∃ reason, ∀ cs', (opened.after (insertNested 126 ++ cs')).transport.bodies =
        .error (.serialization reason) := by
  have hopen : open? ⟨"http://h", "key"⟩ [.error (.transport "down")] [.box, .reference] =
      .ok opened := by rfl
  obtain ⟨hok, -⟩ := bodies_after hopen (insertNested 125) (readsBack_insertNested 125)
  obtain ⟨-, -, hdeep, -⟩ := bodies_after hopen (insertNested 126) (readsBack_insertNested 126)
  have hnot : ¬ ∀ e ∈ Book.sent opened.connection [] (insertNested 126), e.action.Shallow := by
    rw [shallow_insertNested]
    decide
  exact ⟨hopen, hok.2 (shallow_insertNested.2 (Nat.le_refl 125)), hdeep (by simpa using hnot)⟩

end Session

end DocQuery

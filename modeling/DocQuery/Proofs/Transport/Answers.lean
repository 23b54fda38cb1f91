import DocQuery.Transport

/-! # Scripted answers

A transport, its clones and whatever points to them share one log and one queue, so what is done
through any of them is one list of uses of one state. Along such a list no answer is lost, doubled
or overtaken: `after_answers`. The queue goes its way whatever the log holds, which tells what a
send that finds no answer costs, namely nothing.
-/
namespace DocQuery

namespace Transport

def record (t : Transport) (r : HttpRequest) : Transport := ⟨t.requests ++ [r], t.answers.tail⟩

/-- The answer of a transport that is sent a request. -/
def reply (t : Transport) : Answer := t.answers.head?.getD (.ok Value.null)

theorem send_eq (t : Transport) (r : HttpRequest) : t.send r = (t.reply, t.record r) := by
  unfold send reply record
  cases h : t.answers <;> rfl

theorem dispatch_transport (t : Transport) (e : Envelope) (holder : List Pointer) :
    (t.dispatch e holder).2.1 = t.record e.toHttp := by
  simp only [dispatch, sendThrough_eq, send_eq]

theorem dispatch_answer (t : Transport) (e : Envelope) (holder : List Pointer) :
    (t.dispatch e holder).1 = t.reply := by
  simp only [dispatch, sendThrough_eq, send_eq]

/-- What is done to a transport through one of its handles: the transport itself, a clone, or
something that points to either. -/
inductive Use where
  /-- Another handle on the same log and the same queue. -/
  | clone
  | respond (v : Value)
  | fail (e : Error)
  | send (r : HttpRequest) (holder : List Pointer)
  | requests
  | last
  | count
  | bodies

/-- What the user gets to see. -/
inductive Report where
  | done
  | answer (a : Answer)
  | requests (rs : List HttpRequest)
  | last (r : Option HttpRequest)
  | count (n : Nat)
  | bodies (vs : Except Error (List Value))

def use (t : Transport) : Use → Report × Transport
  | .clone => (.done, t)
  | .respond v => (.done, t.enqueue (.ok v))
  | .fail e => (.done, t.enqueue (.error e))
  | .send r holder => let (a, t) := t.sendThrough r holder; (.answer a, t)
  | .requests => (.requests t.requests, t)
  | .last => (.last t.requests.getLast?, t)
  | .count => (.count t.requests.length, t)
  | .bodies => (.bodies t.bodies, t)

def reports (t : Transport) : List Use → List Report
  | [] => []
  | u :: us => (t.use u).1 :: (t.use u).2.reports us

def after (t : Transport) : List Use → Transport
  | [] => t
  | u :: us => (t.use u).2.after us

def Use.ofAnswer : Answer → Use
  | .ok v => .respond v
  | .error e => .fail e

def Use.scripted? : Use → Option Answer
  | respond v => some (.ok v)
  | fail e => some (.error e)
  | clone | send _ _ | requests | last | count | bodies => none

def scripted (us : List Use) : List Answer := us.filterMap Use.scripted?

/-- The answer that a use returns, if there was a scripted one for it to return. -/
def taken? (t : Transport) (u : Use) : Option Answer :=
  match (t.use u).1 with
  | .answer a => if t.answers.isEmpty then none else some a
  | _ => none

def handedOut (t : Transport) : List Use → List Answer
  | [] => []
  | u :: us => (t.taken? u).toList ++ (t.use u).2.handedOut us

theorem reports_append (t : Transport) (us vs : List Use) :
    t.reports (us ++ vs) = t.reports us ++ (t.after us).reports vs := by
  induction us generalizing t with
  | nil => rfl
  | cons u us ih => exact congrArg ((t.use u).1 :: ·) (ih (t.use u).2)

/-- One use takes its answer from the front of the queue and puts what it scripts at the end. -/
theorem use_answers (t : Transport) (u : Use) :
    (t.taken? u).toList ++ (t.use u).2.answers = t.answers ++ u.scripted?.toList := by
  cases u with
  | clone => exact (List.append_nil _).symm
  | respond v => rfl
  | fail e => rfl
  | send r holder =>
    simp only [taken?, use, sendThrough_eq, send_eq, Use.scripted?, record, reply]
    cases t.answers <;> simp
  | requests => exact (List.append_nil _).symm
  | last => exact (List.append_nil _).symm
  | count => exact (List.append_nil _).symm
  | bodies => exact (List.append_nil _).symm

/-- What has been handed out and what is still queued is what was queued and what was scripted. -/
theorem after_answers (t : Transport) (us : List Use) :
    t.handedOut us ++ (t.after us).answers = t.answers ++ scripted us := by
  induction us generalizing t with
  | nil => simp [handedOut, after, scripted]
  | cons u us ih =>
    have hstep := t.use_answers u
    have hrest := ih (t.use u).2
    have hscript : scripted (u :: us) = u.scripted?.toList ++ scripted us := by
      cases hu : u.scripted? <;> simp [scripted, hu]
    calc t.handedOut (u :: us) ++ (t.after (u :: us)).answers
        = (t.taken? u).toList ++ ((t.use u).2.handedOut us ++ ((t.use u).2.after us).answers) := by
          simp only [handedOut, after, List.append_assoc]
      _ = ((t.taken? u).toList ++ (t.use u).2.answers) ++ scripted us := by
          rw [hrest, List.append_assoc]
      _ = t.answers ++ scripted (u :: us) := by rw [hstep, hscript, List.append_assoc]

/-- The log has no part in which answers are handed out. -/
theorem use_congr {t t' : Transport} (h : t.answers = t'.answers) (u : Use) :
    t.taken? u = t'.taken? u ∧ (t.use u).2.answers = (t'.use u).2.answers := by
  cases u <;> simp [taken?, use, enqueue, send_eq, record, reply, h]

theorem handedOut_congr {t t' : Transport} (h : t.answers = t'.answers) (us : List Use) :
    t.handedOut us = t'.handedOut us ∧ (t.after us).answers = (t'.after us).answers := by
  induction us generalizing t t' with
  | nil => exact ⟨rfl, h⟩
  | cons u us ih =>
    obtain ⟨htaken, hqueue⟩ := use_congr h u
    obtain ⟨hout, hafter⟩ := ih hqueue
    exact ⟨by simp only [handedOut, htaken, hout], hafter⟩

/-- A script that is put together before there is a transport. -/
structure Builder where
  answers : List Answer

namespace Builder

def start : Builder := ⟨[]⟩

def respondWith (b : Builder) (v : Value) : Builder := ⟨b.answers ++ [.ok v]⟩

def failWith (b : Builder) (e : Error) : Builder := ⟨b.answers ++ [.error e]⟩

def queue (b : Builder) : Answer → Builder
  | .ok v => b.respondWith v
  | .error e => b.failWith e

def build (b : Builder) : Transport := ofScript b.answers

theorem answers_foldl_queue (b : Builder) (script : List Answer) :
    (script.foldl queue b).answers = b.answers ++ script := by
  induction script generalizing b with
  | nil => exact (List.append_nil _).symm
  | cons a script ih =>
    rw [List.foldl_cons, ih]
    cases a <;> simp [queue, respondWith, failWith]

end Builder

def built (script : List Answer) : Transport := (script.foldl Builder.queue .start).build

theorem built_eq (script : List Answer) : built script = ofScript script := by
  have h := Builder.answers_foldl_queue .start script
  rw [built, Builder.build, h]
  rfl

theorem use_ofAnswer (t : Transport) (a : Answer) : t.use (.ofAnswer a) = (.done, t.enqueue a) := by
  cases a <;> rfl

/-- Scripting call by call on a new transport leads to the transport that is built. -/
theorem after_ofAnswer (t : Transport) (script : List Answer) :
    t.after (script.map .ofAnswer) = { t with answers := t.answers ++ script } ∧
      t.reports (script.map .ofAnswer) = script.map fun _ => .done := by
  induction script generalizing t with
  | nil => exact ⟨by simp [after], rfl⟩
  | cons a script ih =>
    obtain ⟨hafter, hreports⟩ := ih (t.enqueue a)
    constructor
    · rw [List.map_cons, after, use_ofAnswer, hafter, enqueue, List.append_assoc, List.singleton_append]
    · rw [List.map_cons, reports, use_ofAnswer, hreports, List.map_cons]

/-- Whatever is done to a transport that was built from a script: the answers handed out, and then
those still queued, are the script and what was scripted since, in order. In every state a send and
a dispatch return the front of the queue, be it a value or an error, and take it off; with nothing
queued they return null, and all that is scripted later is handed out as if the send had not been.
A script queued on a new transport shows from there on what one shows that is built from it. -/
theorem answers_in_order (script : List Answer) (us : List Use) :
    (built script).handedOut us ++ ((built script).after us).answers = script ++ scripted us ∧
    (∀ (t : Transport) r holder a rest, t.answers = a :: rest →
      t.sendThrough r holder = (a, ⟨t.requests ++ [r], rest⟩)) ∧
    (∀ (t : Transport) r holder, t.answers = [] →
      t.sendThrough r holder = (.ok Value.null, ⟨t.requests ++ [r], []⟩) ∧
      ∀ vs, t.handedOut (.send r holder :: vs) = t.handedOut vs ∧
        (t.after (.send r holder :: vs)).answers = (t.after vs).answers) ∧
    (∀ (t : Transport) e holder,
      (t.dispatch e holder).1 = (t.sendThrough e.toHttp holder).1 ∧
        (t.dispatch e holder).2.1 = (t.sendThrough e.toHttp holder).2) ∧
    (built []).reports (script.map .ofAnswer ++ us) =
      script.map (fun _ => .done) ++ (built script).reports us := by
  refine ⟨?_, ?_, ?_, ?_, ?_⟩
  · rw [built_eq]
    exact after_answers (ofScript script) us
  · intro t r holder a rest h
    simp [send_eq, reply, record, h]
  · intro t r holder h
    have hsend : t.sendThrough r holder = (.ok Value.null, ⟨t.requests ++ [r], []⟩) := by
      simp [send_eq, reply, record, h]
    refine ⟨hsend, fun vs => ?_⟩
    have hqueue : (t.use (.send r holder)).2.answers = t.answers := by simp only [use, hsend, h]
    have htaken : t.taken? (.send r holder) = none := by simp [taken?, use, h]
    obtain ⟨hout, hafter⟩ := handedOut_congr hqueue vs
    exact ⟨by simp only [handedOut, htaken, hout, Option.toList_none, List.nil_append], hafter⟩
  · intro t e holder
    rw [dispatch_answer, dispatch_transport, sendThrough_eq, send_eq]
    exact ⟨rfl, rfl⟩
  · obtain ⟨hafter, hreports⟩ := after_ofAnswer (built []) script
    have hbuilt : (built []).after (script.map .ofAnswer) = built script := by
      rw [hafter, built_eq, built_eq]
      rfl
    rw [reports_append, hreports, hbuilt]

def ping : HttpRequest :=
  ⟨⟨['h', 't', 't', 'p'], some ⟨[], [], .name ['h'], none⟩, .segments [[]], none, none⟩, .post, .get,
    [], "null"⟩

/-- Through a clone and pointers: two sends that take a failure and a scripted null, two that come too
early, and one that takes what is scripted after them. -/
def sendsAheadOfScript : List Use :=
  [.clone, .send ping [.counted], .send ping [.reference, .box], .send ping [], .count,
    .send ping [.box], .respond (Value.ofTree (.string "late")), .fail .missingCollectionName,
    .send ping []]

theorem answers_in_order_ahead_of_script :
    (built [.error (.transport "down"), .ok Value.null]).handedOut sendsAheadOfScript =
        [.error (.transport "down"), .ok Value.null, .ok (Value.ofTree (.string "late"))] ∧
      ((built [.error (.transport "down"), .ok Value.null]).after sendsAheadOfScript).sendThrough
          ping [.box] =
        (.error .missingCollectionName,
          ⟨((built [.error (.transport "down"), .ok Value.null]).after sendsAheadOfScript).requests ++
            [ping], []⟩) := by
  obtain ⟨-, hfront, -⟩ :=
    answers_in_order [.error (.transport "down"), .ok Value.null] sendsAheadOfScript
  exact ⟨by rfl, hfront _ ping [.box] (.error .missingCollectionName) [] (by rfl)⟩

end Transport

end DocQuery

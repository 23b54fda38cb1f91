import DocQuery.Proofs.Program.RoundTrip
import DocQuery.Proofs.Session.Requests

/-! # What a read gives back

A query, a document and the documents of a collection are read in a mode. The mode alone sets the flag
of the request and tells a trace from a final value; what the answer looks like has no say in it.
-/
namespace DocQuery

theorem Documents.shape_eq_error {raw : Value} {e : Error} (h : shape raw = .error e) :
    ∃ reason, e = .malformedResponse reason := by
  unfold shape at h
  split at h
  · cases h
  · rename_i f hf
    cases h
    cases f <;> exact ⟨_, rfl⟩

namespace Result

def isTrace : Result → Bool
  | raw _ => false
  | value o => o.isTrace
  | documents o => o.isTrace

def trace? : Result → Option Value
  | raw _ => none
  | value o => o.trace?
  | documents o => o.trace?

end Result

namespace Pending

/-- The object that is written for a flag. -/
def flagged (p : Pending) (debug : Bool) : Json :=
  .object [("action", .string p.action.name), ("action_body", p.action.body), ("debug", .bool debug)]

theorem flagged_text_inj {p : Pending} {b c : Bool} (h : (p.flagged b).text = (p.flagged c).text) :
    b = c := by
  have hchars : (p.flagged b).chars = (p.flagged c).chars := String.ofList_injective h
  cases b <;> cases c <;>
    first
    | rfl
    | simp [flagged, Json.chars, Json.charsMembers] at hchars

theorem body_toHttp_eq_flagged {p : Pending} (hp : p.takesMode = true) (mode : Mode) (debug : Bool) :
    (p.envelope mode).toHttp.body = (p.flagged debug).text ↔ debug = mode.isDebug := by
  have htext : (p.envelope mode).toHttp.body = (p.flagged mode.isDebug).text := by
    simp [envelope, Envelope.toHttp, Envelope.tree, flagged, hp]
  rw [htext]
  constructor
  · intro h
    exact (flagged_text_inj h).symm
  · rintro rfl
    rfl

theorem send_result (p : Pending) (mode : Mode) (t : Transport) (holder : List Pointer) :
    (p.send mode t holder).1 = t.reply.bind (p.shape mode) := by
  rw [← t.dispatch_answer (p.envelope mode) holder]
  unfold send
  split
  rename_i answer t' events h
  rw [h]
  cases answer <;> rfl

theorem shape_debug {p : Pending} (hp : p.takesMode = true) (raw : Value) :
    ∃ r, p.shape .debug raw = .ok r ∧ r.trace? = some raw := by
  cases p with
  | document target id => exact ⟨.value (.trace raw), rfl, rfl⟩
  | allDocuments target => exact ⟨.documents (.trace raw), rfl, rfl⟩
  | query q => exact ⟨.value (.trace raw), rfl, rfl⟩
  | _ => cases hp

theorem shape_allDocuments (target : Target) (raw : Value) :
    (allDocuments target).shape .normal raw = match Documents.shape raw with
      | .ok docs => .ok (.documents (.final docs))
      | .error e => .error e := by
  have hmode : Mode.ofFlag Mode.normal.isDebug = .normal := rfl
  simp only [shape, shapeAllDocuments, hmode, Outcome.decode]
  cases Documents.shape raw <;> rfl

theorem isTrace_of_shape {p : Pending} (hp : p.takesMode = true) {mode : Mode} {raw : Value} {r : Result}
    (h : p.shape mode raw = .ok r) : r.isTrace = mode.isDebug := by
  cases p with
  | document target id => cases mode <;> cases h <;> rfl
  | query q => cases mode <;> cases h <;> rfl
  | allDocuments target =>
    cases mode with
    | debug => cases h; rfl
    | normal =>
      rw [shape_allDocuments] at h
      split at h <;> cases h
      rfl
  | _ => cases hp

/-- Only the documents of a collection can be refused, and only when they are to be told by their ids. -/
theorem shape_eq_error {p : Pending} {mode : Mode} {raw : Value} {e : Error}
    (h : p.shape mode raw = .error e) :
    mode = .normal ∧ (∃ target, p = .allDocuments target) ∧ ∃ reason, e = .malformedResponse reason := by
  cases p with
  | document target id => cases mode <;> cases h
  | query q => cases mode <;> cases h
  | allDocuments target =>
    cases mode with
    | debug => cases h
    | normal =>
      rw [shape_allDocuments] at h
      split at h
      · cases h
      · rename_i e' hshape
        cases h
        exact ⟨rfl, ⟨target, rfl⟩, Documents.shape_eq_error hshape⟩
  | _ => cases h

/-- A read sends one request, flagged as its mode says in the value of its body and in the text that is
sent, and uses up one answer. A failure comes back as it is; a value comes back as a trace in debug mode
and as a final value in normal mode, the documents of a collection by their ids. So the result is a trace
exactly if the request asked for one, and the only error that did not come from the transport is that
documents were malformed. -/
theorem send_read {p : Pending} (hp : p.takesMode = true) (mode : Mode) (t : Transport)
    (holder : List Pointer) :
    (p.send mode t holder).2.1 =
      ⟨t.requests ++ [(p.envelope mode).toHttp], t.answers.tail⟩ ∧
    (p.envelope mode).debug = mode.isDebug ∧
    (p.envelope mode).body.tree.member? "debug" = some (.bool mode.isDebug) ∧
    (∀ debug, (p.envelope mode).toHttp.body = (p.flagged debug).text ↔ debug = mode.isDebug) ∧
    (∀ e, t.reply = .error e → (p.send mode t holder).1 = .error e) ∧
    (∀ raw, t.reply = .ok raw →
      (mode = .debug → ∃ r, (p.send mode t holder).1 = .ok r ∧ r.trace? = some raw) ∧
      (mode = .normal → ((∃ q, p = .query q) ∨ ∃ target id, p = .document target id) →
        (p.send mode t holder).1 = .ok (.value (.final raw))) ∧
      (mode = .normal → (∃ target, p = .allDocuments target) →
        (p.send mode t holder).1 = (shapeAllDocuments raw false).map .documents)) ∧
    (∀ r, (p.send mode t holder).1 = .ok r →
      (p.envelope mode).body.tree.member? "debug" = some (.bool r.isTrace) ∧
      (p.envelope mode).toHttp.body = (p.flagged r.isTrace).text) ∧
    (∀ e, (p.send mode t holder).1 = .error e → t.reply = .error e ∨
      mode = .normal ∧ (∃ target, p = .allDocuments target) ∧
        ∃ reason, e = .malformedResponse reason) := by
  have hdebug : (p.envelope mode).debug = mode.isDebug := by simp [envelope, hp]
  have hbody : (p.envelope mode).body.tree.member? "debug" = some (.bool mode.isDebug) := by
    rw [Envelope.tree_body, hdebug]
    rfl
  rw [p.send_result, p.send_transport]
  refine ⟨rfl, hdebug, hbody, body_toHttp_eq_flagged hp mode, ?_, ?_, ?_, ?_⟩
  · intro e he
    rw [he]
    rfl
  · intro raw hraw
    rw [hraw]
    refine ⟨?_, ?_, ?_⟩
    · rintro rfl
      exact shape_debug hp raw
    · rintro rfl (⟨q, rfl⟩ | ⟨target, id, rfl⟩) <;> rfl
    · rintro rfl ⟨target, rfl⟩
      rfl
  · intro r hr
    cases ht : t.reply with
    | error e => rw [ht] at hr; cases hr
    | ok raw =>
      rw [ht] at hr
      have htrace := isTrace_of_shape hp hr
      exact ⟨by rw [hbody, htrace], (body_toHttp_eq_flagged hp mode _).2 htrace⟩
  · intro e he
    cases ht : t.reply with
    | error e' => rw [ht] at he; cases he; exact .inl rfl
    | ok raw => rw [ht] at he; exact .inr (shape_eq_error he)

/-- Documents that are none, read by their ids from a transport with one more answer. -/
theorem send_read_malformed :
    (Pending.allDocuments Session.users.target).takesMode = true ∧
      (∃ reason, ((Pending.allDocuments Session.users.target).send .normal
        (.ofScript [.ok (Value.ofTree (.string "none")), .ok Value.null])).1 =
          .error (.malformedResponse reason)) ∧
      ((Pending.allDocuments Session.users.target).envelope .normal).toHttp.body =
        ((Pending.allDocuments Session.users.target).flagged false).text ∧
      ((Pending.allDocuments Session.users.target).send .normal
        (.ofScript [.ok (Value.ofTree (.string "none")), .ok Value.null])).2.1 =
          ⟨[((Pending.allDocuments Session.users.target).envelope .normal).toHttp],
            [.ok Value.null]⟩ := by
  have hp : (Pending.allDocuments Session.users.target).takesMode = true := rfl
  obtain ⟨hsent, -, -, htext, -, hok, -⟩ := send_read hp .normal
    (.ofScript [.ok (Value.ofTree (.string "none")), .ok Value.null]) []
  obtain ⟨-, -, hshape⟩ := hok (Value.ofTree (.string "none")) rfl
  exact ⟨hp, ⟨_, hshape rfl ⟨_, rfl⟩⟩, (htext false).2 rfl, hsent⟩

end Pending

end DocQuery

import DocQuery.Json.Source
import DocQuery.Request
import DocQuery.Proofs.Json.Decode
import DocQuery.Proofs.Json.Distinct
import DocQuery.Proofs.Program.FromTree

/-! # The two renderings of a request

An envelope is written twice, as the value of its body and as the text that is sent. Both come from
the same host value, whose writing never fails, and the text is read back as the body as deep as
texts may nest.
-/
namespace DocQuery

def Source.toText (s : Source) : Except Json.Cause String :=
  match s.tree with
  | .error c => .error c
  | .ok j => .ok j.text

def Chain.source (c : Chain) : Source := .sequence (c.tokens.map .string)

namespace Operation

def payloadSource : Operation → List (Source × Source)
  | mapAttrs path => [(.string "data", path.source)]
  | mapIds collection => [(.string "data", .string collection)]
  | filter path comparator value => [(.string "data", .map
      [(.string "attrs", path.source), (.string "cmp", .bare comparator.token),
        (.string "val", .value value)])]
  | flatten | withId => []
  | limit l => [(.string "data", .value ⟨.number l.number, trivial⟩)]

def source (op : Operation) : Source :=
  .map ((.string "op", .bare op.kind.name) :: op.payloadSource)

end Operation

def Program.source (p : Program) : Source :=
  .map [(.string "operations", .sequence (p.operations.map (·.source)))]

def Action.source : Action → Source
  | document id => .map [(.string "doc_id", .string id)]
  | insert data => .map [(.string "doc_data", .value data)]
  | update id data => .map [(.string "doc_id", .string id), (.string "doc_data", .value data)]
  | allDocuments | collectionList => .map []
  | collectionCreate name => .map [(.string "name", .string name)]
  | program p => p.source

def Envelope.source (e : Envelope) : Source :=
  .map [(.string "action", .bare e.action.name), (.string "action_body", e.action.source),
    (.string "debug", .value ⟨.bool e.debug, trivial⟩)]

namespace Source
variable {α : Type} {tree : α → Json} {source : α → Source}

theorem treeItems_map (h : ∀ a, (source a).tree = .ok (tree a)) (as : List α) :
    treeItems (as.map source) = .ok (as.map tree) := by
  induction as with
  | nil => rfl
  | cons a as ih => simp [treeItems, h a, ih]

theorem tree_sequence_map (h : ∀ a, (source a).tree = .ok (tree a)) (as : List α) :
    (sequence (as.map source)).tree = .ok (.array (as.map tree)) := by
  simp [Source.tree, treeItems_map h as]

end Source

theorem Chain.tree_source (c : Chain) : c.source.tree = .ok c.tree :=
  Source.tree_sequence_map (fun _ => rfl) c.tokens

theorem Operation.tree_source (op : Operation) : op.source.tree = .ok op.tree := by
  cases op <;>
    simp [source, payloadSource, tree, payload, Source.tree, Source.treeEntries, Source.key,
      Chain.tree_source, Comparator.tree, Limit.tree]

theorem Program.tree_source (p : Program) : p.source.tree = .ok p.tree := by
  have hops := Source.tree_sequence_map Operation.tree_source p.operations
  simp [source, tree, Source.tree, Source.treeEntries, Source.key] at hops ⊢
  simp [hops]

theorem Action.tree_source (a : Action) : a.source.tree = .ok a.body := by
  cases a <;>
    simp [source, body, Source.tree, Source.treeEntries, Source.key, Program.tree_source]

theorem Envelope.tree_source (e : Envelope) : e.source.tree = .ok e.tree := by
  simp [source, tree, Source.tree, Source.treeEntries, Source.key, Action.tree_source]

namespace Action

/-- The members of an action's data, in key order. -/
def fields : Action → List (String × Json)
  | document id => [("doc_id", .string id)]
  | insert data => [("doc_data", data.tree)]
  | update id data => [("doc_data", data.tree), ("doc_id", .string id)]
  | allDocuments | collectionList => []
  | collectionCreate name => [("name", .string name)]
  | program p => [("operations", .array (p.operations.map (·.normalTree)))]

theorem normalize_body (a : Action) : a.body.normalize = .object a.fields := by
  have hvalue : ∀ v : Value, v.tree.normalize = v.tree := fun v => Json.normalize_eq_self _ v.normal
  cases a with
  | document id => rfl
  | insert data => simp [body, fields, Json.normalize, Json.normalizeMembers, hvalue, Members.sort,
      Members.insert]
  | update id data =>
    have hlt : "doc_data" < "doc_id" := by decide
    simp [body, fields, Json.normalize, Json.normalizeMembers, hvalue, Members.sort, Members.insert,
      hlt]
  | allDocuments => rfl
  | collectionList => rfl
  | collectionCreate name => rfl
  | program p => exact Program.normalize_tree p

end Action

namespace Envelope

theorem tree_body (e : Envelope) :
    e.body.tree = .object [("action", .string e.action.name),
      ("action_body", .object e.action.fields), ("debug", .bool e.debug)] := by
  have hsorted : Members.Sorted [("action", Json.string e.action.name),
      ("action_body", .object e.action.fields), ("debug", .bool e.debug)] := by
    change ["action", "action_body", "debug"].Pairwise (· < ·)
    decide
  simp only [body, Value.tree_ofTree, tree, Json.normalize, Json.normalizeMembers,
    Action.normalize_body, Members.sort_eq_self hsorted]

end Envelope

theorem Chain.distinct_tree (c : Chain) : c.tree.Distinct := by
  simp only [tree, Json.Distinct, Json.distinctItems_iff, List.forall_mem_map]
  intro t _
  trivial

theorem Value.distinct_tree (v : Value) : v.tree.Distinct := Json.distinct_of_normal v.tree v.normal

theorem Operation.distinct_tree (op : Operation) : op.tree.Distinct := by
  cases op <;>
    simp [tree, payload, Json.Distinct, Json.DistinctMembers, Chain.distinct_tree,
      Value.distinct_tree, Comparator.tree, Limit.tree]

theorem Program.distinct_tree (p : Program) : p.tree.Distinct := by
  simp only [tree, Json.Distinct, Json.DistinctMembers, Json.distinctItems_iff, List.forall_mem_map]
  exact ⟨by simp, fun op _ => op.distinct_tree, trivial⟩

theorem Action.distinct_body (a : Action) : a.body.Distinct := by
  cases a <;>
    simp [body, Json.Distinct, Json.DistinctMembers, Value.distinct_tree, Program.distinct_tree]

namespace Envelope

theorem distinct_tree (e : Envelope) : e.tree.Distinct := by
  simp [tree, Json.Distinct, Json.DistinctMembers, Action.distinct_body]

theorem depth_body (e : Envelope) : e.body.depth = e.tree.depth :=
  Json.depth_normalize e.tree e.distinct_tree

theorem mem_numbers_body {e : Envelope} {x : Json.Number} :
    x ∈ e.body.tree.numbers ↔ x ∈ e.tree.numbers :=
  Json.mem_numbers_normalize e.tree e.distinct_tree

/-- The text that is sent is read back as the body, down to the levels a text may nest. -/
theorem jsonBody_toHttp {e : Envelope} (h : ∀ x ∈ e.tree.numbers, x.ReadsBack) :
    (e.tree.depth ≤ Json.depthLimit → e.toHttp.jsonBody = .ok e.body) ∧
      (¬ e.tree.depth ≤ Json.depthLimit →
        ∃ reason, e.toHttp.jsonBody = .error (.serialization reason)) := by
  obtain ⟨hok, hdeep⟩ := Json.parse_text h
  constructor
  · intro hd
    simp [HttpRequest.jsonBody, toHttp, Value.parse, hok hd, body]
  · intro hd
    obtain ⟨f, hf, -⟩ := hdeep hd
    refine ⟨f.message e.tree.text.toList, ?_⟩
    simp [HttpRequest.jsonBody, toHttp, Value.parse, hf, Error.ofFault]

/-- An envelope can always be written, as a value and as a text; the value has the action's name,
its data and the flag as its only members; and the text is read back as the value exactly where it
does not nest too deep. Doubles are assumed to be read back from their own texts. -/
theorem renderings_agree (e : Envelope) :
    e.source.toValue = .ok e.body ∧ e.source.toText = .ok e.toHttp.body ∧
    e.body.tree = .object [("action", .string e.action.name),
      ("action_body", .object e.action.fields), ("debug", .bool e.debug)] ∧
    ((∀ d, Json.Number.double d ∈ e.body.tree.numbers → d.ReadsBack) →
      (e.toHttp.jsonBody = .ok e.body ↔ e.body.depth ≤ 127) ∧
      (127 < e.body.depth → ∃ reason, e.toHttp.jsonBody = .error (.serialization reason))) := by
  refine ⟨?_, ?_, e.tree_body, fun hd => ?_⟩
  · simp [Source.toValue, tree_source, body]
  · simp [Source.toText, tree_source, toHttp]
  · have hnumbers : ∀ x ∈ e.tree.numbers, x.ReadsBack := by
      intro x hx
      refine Json.Number.readsBack fun d hxd => hd d ?_
      rw [mem_numbers_body]
      exact hxd ▸ hx
    obtain ⟨hok, hdeep⟩ := jsonBody_toHttp hnumbers
    rw [depth_body]
    refine ⟨⟨fun h => ?_, hok⟩, fun h => hdeep (Nat.not_le.2 h)⟩
    by_cases hle : e.tree.depth ≤ Json.depthLimit
    · exact hle
    · obtain ⟨reason, hr⟩ := hdeep hle
      rw [hr] at h
      cases h

def nested : Envelope where
  target := ⟨⟨['h', 't', 't', 'p'], some ⟨[], [], .name ['h'], none⟩, .segments [[]], none, none⟩,
    "key"⟩
  action := .update "\"id\"\n" (Value.ofTree (.object [
    ("debug", .number (.double Json.twoAndHalf)), ("action_body", .array [.null]),
    ("action", .object [])]))
  debug := true

theorem jsonBody_toHttp_nested :
    (∀ d, Json.Number.double d ∈ nested.body.tree.numbers → d.ReadsBack) ∧
      nested.toHttp.jsonBody = .ok nested.body := by
  have hd : ∀ d, Json.Number.double d ∈ nested.body.tree.numbers → d.ReadsBack := by
    have hnumbers : nested.body.tree.numbers = [.double Json.twoAndHalf] := by decide
    intro d hd
    rw [hnumbers, List.mem_singleton] at hd
    cases hd
    exact Json.twoAndHalf_readsBack
  have hdepth : nested.body.depth ≤ 127 := by decide
  obtain ⟨-, -, -, hread⟩ := renderings_agree nested
  exact ⟨hd, (hread hd).1.2 hdepth⟩

end Envelope

end DocQuery

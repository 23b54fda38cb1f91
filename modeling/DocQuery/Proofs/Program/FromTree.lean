import DocQuery.Program.FromTree
import DocQuery.Program.Wire

/-! # Programs come back from their trees

A program is decoded from its tree, and from the normal form of its tree, in which the payload of an
operation precedes its name and takes the buffered route.
-/
namespace DocQuery

open Json (Route)

@[simp] theorem Chain.ofTokens_tokens (c : Chain) : Chain.ofTokens c.tokens = .ok c := by
  have hbad : Chain.firstBad c.tokens = none := by
    rw [Chain.firstBad, List.find?_eq_none]
    intro t ht
    simp [c.idents t ht]
  unfold Chain.ofTokens
  rw [dif_neg c.nonempty]
  split
  · rename_i bad h
    rw [hbad] at h
    cases h
  · rfl

@[simp] theorem Chain.judge_tokens (c : Chain) : Chain.judge c.tokens = .ok c := by
  simp [Chain.judge]

theorem Json.listOfTrees_map {α : Type} {item : Json → Except Json.Cause α} (tree : α → Json)
    (h : ∀ a, item (tree a) = .ok a) (as : List α) :
    Json.listOfTrees item (as.map tree) = .ok as := by
  induction as with
  | nil => rfl
  | cons a as ih => simp [Json.listOfTrees, h a, ih]

@[simp] theorem Chain.ofTree_tree (c : Chain) : Chain.ofTree c.tree = .ok c := by
  have htokens : Json.listOfTree Json.stringOfTree c.tree = .ok c.tokens :=
    Json.listOfTrees_map Json.string (fun _ => rfl) c.tokens
  simp [Chain.ofTree, htokens]

@[simp] theorem Comparator.ofTree_tree (route : Route) (c : Comparator) :
    Comparator.ofTree route c.tree = .ok c := by
  simp [Comparator.ofTree, Comparator.tree, Json.variantOfTree, Json.variant]

@[simp] theorem Limit.judge_number (l : Limit) : Limit.judge l.number = .ok l := by
  simp [Limit.judge]

@[simp] theorem Limit.ofTree_tree (l : Limit) : Limit.ofTree l.tree = .ok l := by
  simp [Limit.ofTree, Limit.tree]

@[simp] theorem Chain.normalize_tree (c : Chain) : c.tree.normalize = c.tree := by
  have hitems : ∀ ts : List String, Json.normalizeItems (ts.map .string) = ts.map .string := by
    intro ts
    induction ts with
    | nil => rfl
    | cons t ts ih => simp [Json.normalizeItems, Json.normalize, ih]
  simp [Chain.tree, Json.normalize, hitems]

namespace Operation

/-- The members of a filter's payload stand in key order already. -/
@[simp] theorem normalize_payload {op : Operation} {data : Json} (h : op.payload = some data) :
    data.normalize = data := by
  cases op with
  | mapAttrs path =>
    cases h
    simp
  | mapIds collection => cases h; rfl
  | filter path comparator value =>
    cases h
    have hsorted : Members.Sorted
        [("attrs", path.tree), ("cmp", comparator.tree), ("val", value.tree)] := by
      change ["attrs", "cmp", "val"].Pairwise (· < ·)
      decide
    have hcmp : comparator.tree.normalize = comparator.tree := rfl
    simp only [Json.normalize, Json.normalizeMembers, Chain.normalize_tree, hcmp,
      Json.normalize_eq_self value.tree value.normal, Members.sort_eq_self hsorted]
  | flatten => cases h
  | limit l => cases h; rfl
  | withId => cases h

/-- In a normal tree the payload comes first. -/
def normalTree (op : Operation) : Json :=
  .object ((op.payload.map fun data => ("data", data)).toList ++ [("op", .string op.kind.name)])

theorem normalize_tree (op : Operation) : op.tree.normalize = op.normalTree := by
  cases hp : op.payload with
  | none =>
    simp [tree, normalTree, hp, Json.normalize, Json.normalizeMembers, Members.sort, Members.insert]
  | some data =>
    have hlt : "data" < "op" := by decide
    simp [tree, normalTree, hp, Json.normalize, Json.normalizeMembers, normalize_payload hp,
      Members.sort, Members.insert, hlt]

theorem ofPayload_payload (route : Route) {op : Operation} {data : Json}
    (h : op.payload = some data) : ofPayload route op.kind data = .ok op := by
  cases op with
  | mapAttrs path =>
    cases h
    simp [ofPayload, kind, Except.map]
  | mapIds collection => cases h; rfl
  | filter path comparator value =>
    cases h
    simp [ofPayload, kind, filterOfTree, Json.foldMembers, FilterDraft.addTree, FilterDraft.start,
      FilterDraft.finish]
  | flatten => cases h
  | limit l =>
    cases h
    simp [ofPayload, kind, Except.map]
  | withId => cases h

theorem ofKind_kind {op : Operation} (h : op.payload = none) : ofKind op.kind = .ok op := by
  cases op <;> first | rfl | cases h

theorem kindOfTree_name (k : Kind) : kindOfTree (.string k.name) = .ok k := by
  simp [kindOfTree, Json.variantOfTree, Json.variant]

theorem ofTree_normalTree (op : Operation) : ofTree op.normalTree = .ok op := by
  cases hp : op.payload with
  | none =>
    simp [normalTree, hp, ofTree, Json.structOfTree, Json.foldMembers, Draft.addTree,
      kindOfTree_name, Except.map, Draft.finish, ofKind_kind hp]
  | some data =>
    simp [normalTree, hp, ofTree, Json.structOfTree, Json.foldMembers, Draft.addTree,
      kindOfTree_name, Except.map, Draft.finish, ofPayload_payload .buffered hp]

end Operation

namespace Program

theorem normalize_tree (p : Program) :
    p.tree.normalize = .object [("operations", .array (p.operations.map (·.normalTree)))] := by
  have hitems : ∀ ops : List Operation,
      Json.normalizeItems (ops.map (·.tree)) = ops.map (·.normalTree) := by
    intro ops
    induction ops with
    | nil => rfl
    | cons op ops ih => simp [Json.normalizeItems, Operation.normalize_tree, ih]
  simp [tree, Json.normalize, Json.normalizeMembers, hitems, Members.sort, Members.insert]

theorem ofTree_normalize_tree (p : Program) : ofTree p.tree.normalize = .ok p := by
  have hops := Json.listOfTrees_map Operation.normalTree Operation.ofTree_normalTree p.operations
  simp [normalize_tree, ofTree, Json.structOfTree, Json.foldMembers, addTree, Json.listOfTree, hops,
    Except.map, finish]

end Program

end DocQuery

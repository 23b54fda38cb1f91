import DocQuery.Proofs.Json.Members
import DocQuery.Proofs.Program.FromText
import DocQuery.Proofs.Request.Rendering

/-! # Programs survive the wire

A program comes back from the data of the request that carries it, whatever it holds. From its own
text it comes back as long as none of the values it compares with nests more than 123 levels: the
program, its list, the comparison and its payload are the other four.
-/
namespace DocQuery

def Operation.value? : Operation → Option Value
  | .filter _ _ value => some value
  | _ => none

theorem Chain.depth_tree_le {n : Nat} (c : Chain) : c.tree.depth ≤ n + 1 := by
  simp only [tree, Json.depth, Nat.add_le_add_iff_right, Json.depthItems_le, List.forall_mem_map]
  intro t _
  exact Nat.zero_le n

namespace Operation

theorem depth_tree_le {n : Nat} (op : Operation) :
    op.tree.depth ≤ n + 3 ↔ ∀ v ∈ op.value?, v.depth ≤ n + 1 := by
  cases op with
  | mapAttrs path =>
    have hpath : path.tree.depth ≤ n + 2 := path.depth_tree_le
    simp [tree, payload, value?, Json.depth, Json.depthMembers, hpath]
  | mapIds collection => simp [tree, payload, value?, Json.depth, Json.depthMembers]
  | filter path comparator value =>
    have hpath : path.tree.depth ≤ n + 1 := path.depth_tree_le
    have hcmp : comparator.tree.depth = 0 := rfl
    simp only [tree, payload, value?, Option.map_some, Option.toList_some, Json.depth,
      Json.depthMembers, hcmp, Option.mem_def, Option.some.injEq, forall_eq', Value.depth]
    omega
  | flatten => simp [tree, payload, value?, Json.depth, Json.depthMembers]
  | limit l => simp [tree, payload, value?, Limit.tree, Json.depth, Json.depthMembers]
  | withId => simp [tree, payload, value?, Json.depth, Json.depthMembers]

end Operation

namespace Program

/-- The values a program compares with, in order. -/
def values (p : Program) : List Value := p.operations.filterMap (·.value?)

theorem depth_tree_le {n : Nat} (p : Program) :
    p.tree.depth ≤ n + 5 ↔ ∀ v ∈ p.values, v.depth ≤ n + 1 := by
  have hops : p.tree.depth ≤ n + 5 ↔ ∀ op ∈ p.operations, op.tree.depth ≤ n + 3 := by
    simp [tree, Json.depth, Json.depthMembers, Json.depthItems_le]
  rw [hops]
  constructor
  · intro h v hv
    obtain ⟨op, hop, hval⟩ := List.mem_filterMap.1 hv
    exact (op.depth_tree_le.1 (h op hop)) v hval
  · intro h op hop
    exact op.depth_tree_le.2 fun v hval => h v (List.mem_filterMap.2 ⟨op, hop, hval⟩)

theorem member?_body (p : Program) (target : Target) (debug : Bool) :
    (Envelope.mk target (.program p) debug).body.tree.member? "action_body" =
      some p.tree.normalize := by
  rw [Envelope.tree_body, normalize_tree]
  simp [Json.member?, Members.find?, Action.fields]

/-- Every program comes back from the data of a request that carries it, and from its text exactly
if what it compares with nests at most 123 levels. Doubles are assumed to be read back from their
own texts. -/
theorem survives_wire (p : Program) :
    (∀ target debug, ∃ data,
      (Envelope.mk target (.program p) debug).body.tree.member? "action_body" = some data ∧
        ofTree data = .ok p) ∧
    p.source.toText = .ok p.tree.text ∧
    ((∀ d, Json.Number.double d ∈ p.tree.numbers → d.ReadsBack) →
      (Json.decodeText ofText p.tree.text = .ok p ↔ ∀ v ∈ p.values, v.depth ≤ 123) ∧
      ((∃ v ∈ p.values, 123 < v.depth) →
        ∃ f, Json.decodeText ofText p.tree.text = .error f)) := by
  refine ⟨fun target debug => ?_, ?_, fun hd => ?_⟩
  · exact ⟨p.tree.normalize, p.member?_body target debug, p.ofTree_normalize_tree⟩
  · simp [Source.toText, tree_source]
  · have hnumbers : ∀ x ∈ p.tree.numbers, x.ReadsBack := by
      intro x hx
      exact Json.Number.readsBack fun d hxd => hd d (hxd ▸ hx)
    have hdepth : p.tree.depth ≤ Json.depthLimit ↔ ∀ v ∈ p.values, v.depth ≤ 123 :=
      p.depth_tree_le
    obtain ⟨hok, hdeep⟩ := Json.decodeText_text (p.ofText_text hnumbers Json.depthLimit)
    rw [hdepth] at hok hdeep
    refine ⟨⟨fun h => ?_, hok⟩, ?_⟩
    · by_cases hv : ∀ v ∈ p.values, v.depth ≤ 123
      · exact hv
      · obtain ⟨f, hf, -⟩ := hdeep hv
        rw [hf] at h
        cases h
    · rintro ⟨v, hv, hlt⟩
      obtain ⟨f, hf, -⟩ := hdeep fun h => absurd (h v hv) (Nat.not_le.2 hlt)
      exact ⟨f, hf⟩

def mixed : Program where
  operations := [
    .mapAttrs ⟨["a", "b"], by decide, by decide⟩,
    .filter ⟨["x"], by decide, by decide⟩ .equal (Value.ofTree .null),
    .filter ⟨["$y"], by decide, by decide⟩ .less
      (Value.ofTree (.object [("k", .array [.number (.double Json.twoAndHalf)])])),
    .mapIds "other", .flatten, .limit ⟨.integer 3 (by decide) (by decide), by rfl⟩, .withId]

theorem decodeText_mixed :
    (∀ d, Json.Number.double d ∈ mixed.tree.numbers → d.ReadsBack) ∧
      Json.decodeText ofText mixed.tree.text = .ok mixed := by
  have hd : ∀ d, Json.Number.double d ∈ mixed.tree.numbers → d.ReadsBack := by
    have hnumbers : mixed.tree.numbers =
        [.double Json.twoAndHalf, .integer 3 (by decide) (by decide)] := by rfl
    intro d hd
    rw [hnumbers] at hd
    obtain rfl : d = Json.twoAndHalf := by simpa using hd
    exact Json.twoAndHalf_readsBack
  have hdepth : ∀ v ∈ mixed.values, v.depth ≤ 123 := by decide
  obtain ⟨-, -, hread⟩ := survives_wire mixed
  exact ⟨hd, (hread hd).1.2 hdepth⟩

end Program

end DocQuery

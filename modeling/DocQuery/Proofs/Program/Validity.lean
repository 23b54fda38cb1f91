import DocQuery.Proofs.Chain.Grammar
import DocQuery.Proofs.Limit
import DocQuery.Proofs.Program.FromTree

/-! # What programs are made of

The chains of a program are lists of identifiers and its limits are positive, however the program
was come by: a text, a list, a number and a tree are each judged by the grammar and kept as they
are, and every other way goes through one of these.
-/
namespace DocQuery

namespace Chain

theorem ofTokens_eq_ok {ts : List String} {c : Chain} : ofTokens ts = .ok c ↔ c.tokens = ts := by
  constructor
  · intro h
    unfold ofTokens at h
    split at h
    · cases h
    · split at h <;> cases h
      rfl
  · rintro rfl
    exact ofTokens_tokens c

theorem judge_eq_ok {ts : List String} {c : Chain} : judge ts = .ok c ↔ c.tokens = ts := by
  rw [← ofTokens_eq_ok, judge]
  cases h : ofTokens ts <;> simp

end Chain

theorem Json.listOfTrees_string {xs : List Json} {ts : List String} :
    Json.listOfTrees Json.stringOfTree xs = .ok ts ↔ xs = ts.map .string := by
  constructor
  · intro h
    induction xs generalizing ts with
    | nil =>
      cases h
      rfl
    | cons x xs ih =>
      cases x with
      | string s =>
        simp only [Json.listOfTrees, Json.stringOfTree] at h
        split at h
        · cases h
        · rename_i ts' htail
          cases h
          rw [ih htail, List.map_cons]
      | _ => cases h
  · rintro rfl
    exact Json.listOfTrees_map Json.string (fun _ => rfl) ts

/-- Only a list of strings is decoded as a chain, and then as that list. -/
theorem Chain.ofTree_eq_ok {j : Json} {c : Chain} : Chain.ofTree j = .ok c ↔ j = c.tree := by
  constructor
  · intro h
    unfold Chain.ofTree at h
    split at h
    · cases h
    · rename_i ts hlist
      rw [judge_eq_ok] at h
      cases j with
      | array xs => rw [Json.listOfTrees_string.1 hlist, tree, h]
      | _ => cases hlist
  · rintro rfl
    exact ofTree_tree c

namespace Limit

theorem ofNumber_eq_ok {n : Json.Number} {l : Limit} : ofNumber n = .ok l ↔ l.number = n := by
  constructor
  · intro h
    unfold ofNumber at h
    split at h <;> cases h
    rfl
  · rintro rfl
    exact ofNumber_number l

theorem ofValue_eq_ok {v : Value} {l : Limit} : ofValue v = .ok l ↔ v.tree = .number l.number := by
  unfold ofValue
  split
  · rename_i n hv
    rw [hv, ofNumber_eq_ok, Json.number.injEq, eq_comm]
  · rename_i hv
    exact iff_of_false nofun fun h => hv _ h

theorem judge_eq_ok {n : Json.Number} {l : Limit} : judge n = .ok l ↔ l.number = n := by
  rw [← ofNumber_eq_ok, judge]
  cases h : ofNumber n <;> simp

theorem ofTree_eq_ok {j : Json} {l : Limit} : Limit.ofTree j = .ok l ↔ j = l.tree := by
  constructor
  · intro h
    cases j with
    | number n => rw [tree, judge_eq_ok.1 h]
    | _ => cases h
  · rintro rfl
    exact ofTree_tree l

end Limit

/-- A list of tokens that is a chain. -/
structure Chain.Valid (ts : List String) : Prop where
  nonempty : ts ≠ []
  idents : ∀ t ∈ ts, t.toList ∈ Chain.identifier

theorem Chain.valid (c : Chain) : Valid c.tokens :=
  ⟨c.nonempty, c.toList_mem_identifier⟩

namespace Operation

def chain? : Operation → Option Chain
  | mapAttrs path | filter path _ _ => some path
  | mapIds _ | flatten | limit _ | withId => none

def limit? : Operation → Option Limit
  | limit l => some l
  | mapAttrs _ | mapIds _ | filter _ _ _ | flatten | withId => none

end Operation

/-- Chains and limits are valid wherever they stand: what is built, listed or decoded as an operation
or a program, from a tree or from a text, has no others. Each way to come by one keeps what it was
given, or refuses it. -/
theorem Program.parts_valid :
    (∀ c : Chain, Chain.Valid c.tokens) ∧ (∀ l : Limit, 0 < l.number.exact) ∧
    (∀ p : Program, ∀ op ∈ p.operations,
      (∀ c ∈ op.chain?, Chain.Valid c.tokens) ∧ ∀ l ∈ op.limit?, 0 < l.number.exact) ∧
    (∀ s c, Chain.parse s = .ok c ↔
      s.toList ∈ Chain.single ∧ c.tokens = Chain.pieceStrings s) ∧
    (∀ s c, Chain.parsePath s = .ok c ↔
      s.toList ∈ Chain.multi ∧ c.tokens = (Chain.pieceStrings s).tail) ∧
    (∀ s c, Chain.parse? s = .ok c ↔ ∃ t, s = some t ∧ Chain.parse t = .ok c) ∧
    (∀ s c, Chain.parsePath? s = .ok c ↔ ∃ t, s = some t ∧ Chain.parsePath t = .ok c) ∧
    (∀ ts c, Chain.ofTokens ts = .ok c ↔ c.tokens = ts) ∧
    (∀ j c, Chain.ofTree j = .ok c ↔ j = .array (c.tokens.map .string)) ∧
    (∀ n l, Limit.ofNumber n = .ok l ↔ l.number = n) ∧
    (∀ v l, Limit.ofValue v = .ok l ↔ v.tree = .number l.number) ∧
    (∀ j l, Limit.ofTree j = .ok l ↔ j = .number l.number) := by
  refine ⟨Chain.valid, Limit.exact_pos, fun p op _ => ⟨fun c _ => c.valid, fun l _ => l.exact_pos⟩,
    fun s c => Chain.parse_eq_ok, fun s c => Chain.parsePath_eq_ok, fun s c => ?_, fun s c => ?_,
    fun ts c => Chain.ofTokens_eq_ok, fun j c => Chain.ofTree_eq_ok, fun n l => Limit.ofNumber_eq_ok,
    fun v l => Limit.ofValue_eq_ok, fun j l => Limit.ofTree_eq_ok⟩
  · cases s <;> simp [Chain.parse?]
  · cases s <;> simp [Chain.parsePath?]

end DocQuery

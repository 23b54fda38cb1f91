import DocQuery.Proofs.Json.Decode
import DocQuery.Proofs.Program.Normalized

/-! # Texts and values are decoded alike

A text is decoded as it goes, in the order in which its members are written; a value is decoded in the
order of its keys, with the payload of every operation before its name. Both come to the same result,
or both to none, as neither the order nor members of unknown keys have a say: `core` leaves both out.
-/
namespace DocQuery

open Json (Cause Reader Route toOption_bind toOption_map)

def Json.keep (keys : List String) : Json → Json
  | .object ms => .object (Members.pick keys ms)
  | j => j

namespace Operation

/-- What an operation is decoded from: its name, and of its payload the fields of a comparison. -/
def core : Json → Json
  | .object ms => .object (fields (Members.find? "op" ms)
      ((Members.find? "data" ms).map (Json.keep FilterDraft.keys)))
  | .array xs => .array (xs.map (Json.keep FilterDraft.keys))
  | j => j

theorem ofPayload_keep (route : Route) (kind : Kind) {data : Json} (hd : data.Distinct) :
    (ofPayload route kind (data.keep FilterDraft.keys)).toOption =
      (ofPayload route kind data).toOption := by
  cases data with
  | object ms =>
    cases kind with
    | filter => exact (filterOfTree_pick route hd.1).symm
    | _ => rfl
  | _ => rfl

theorem ofTree_core {j : Json} (hd : j.Distinct) (h : Plain j) :
    (ofTree (core j)).toOption = (ofTree j).toOption := by
  cases j with
  | object ms =>
    rw [core, ofTree_fields, ofTree_members hd h]
    have hdata : ∀ data ∈ Members.find? "data" ms, ∀ kind,
        (ofPayload .direct kind (data.keep FilterDraft.keys)).toOption =
          (ofPayload .direct kind data).toOption := by
      intro data hdata kind
      exact ofPayload_keep .direct kind (Json.distinct_of_mem hd.2 (Members.mem_of_find? hdata))
    simpa using ofMembers?_congr id (Json.keep FilterDraft.keys) (fun _ _ => rfl) hdata
  | array xs =>
    apply ofItems_congr
    · intro x _
      cases x <;> rfl
    · intro x hx kind
      exact ofPayload_keep .direct kind (Json.distinctItems_iff.1 hd x hx)
  | _ => rfl

end Operation

namespace Program

/-- What a program is decoded from: the list of its operations, and the core of each. -/
def core : Json → Json
  | .object ms => .object ((Members.find? "operations" ms).map fun ops =>
      ("operations", ops.mapItems Operation.core)).toList
  | .array xs => .array (xs.map (Json.mapItems Operation.core))
  | j => j

theorem ofTree_core {j : Json} (hd : j.Distinct) (h : Plain j) :
    (ofTree (core j)).toOption = (ofTree j).toOption := by
  have hlist : ∀ ops, operations? j = some ops →
      (Json.listOfTree Operation.ofTree (ops.mapItems Operation.core)).toOption =
        (Json.listOfTree Operation.ofTree ops).toOption := by
    intro ops hops
    have hdo : ops.Distinct := distinct_operations hd hops
    refine Json.listOfTree_mapItems Operation.core fun op hop => ?_
    cases ops with
    | array xs =>
      exact Operation.ofTree_core (Json.distinctItems_iff.1 hdo op hop) (h _ hops op hop)
    | _ => cases hop
  cases j with
  | object ms =>
    rw [ofTree_member hd.1, core]
    cases hops : Members.find? "operations" ms with
    | none => rfl
    | some ops =>
      have hone : ∀ ops : Json, ([("operations", ops)].map (·.1)).Nodup := fun _ => List.nodup_singleton _
      rw [Option.map_some, Option.toList_some, ofTree_member (hone _)]
      simp only [Members.find?, if_true, Option.bind_some, hlist ops hops]
  | array xs =>
    apply ofItems_congr
    · rw [List.length_map]
    · cases xs with
      | nil => rfl
      | cons ops xs => exact hlist ops rfl
  | _ => rfl

end Program

namespace ConnectionConfig

def core : Json → Json := Json.keep keys

theorem ofTree_core {j : Json} (hd : j.Distinct) :
    (ofTree (core j)).toOption = (ofTree j).toOption := by
  cases j with
  | object ms =>
    have hnodup : ((Members.pick keys ms).map (·.1)).Nodup := Members.nodup_pick (by decide)
    have hurl : "url" ∈ keys := by decide
    have hkey : "api_key" ∈ keys := by decide
    rw [core, Json.keep, ofTree_members hnodup, ofTree_members hd.1, Members.find?_pick,
      Members.find?_pick, if_pos hurl, if_pos hkey]
  | _ => rfl

end ConnectionConfig

/-- A text holds a value, and no object in it repeats a key. -/
def Value.HeldBy (v : Value) (t : String) : Prop :=
  ∃ j, Json.parse t = .ok j ∧ j.Distinct ∧ v = Value.ofTree j

theorem Value.parse_of_heldBy {v : Value} {t : String} (h : v.HeldBy t) : Value.parse t = .ok v := by
  obtain ⟨j, hj, -, rfl⟩ := h
  simp only [Value.parse, hj]

theorem Value.heldBy_text {j : Json} (hn : ∀ x ∈ j.numbers, x.ReadsBack)
    (hdepth : j.depth ≤ Json.depthLimit) (hd : j.Distinct) : (Value.ofTree j).HeldBy j.text :=
  ⟨j, (Json.parse_text hn).1 hdepth, hd, rfl⟩

theorem Value.distinct (v : Value) : v.tree.Distinct := Json.distinct_of_normal _ v.normal

section
variable {α : Type} {read : Nat → Reader α} {decode : Json → Except Cause α} {p : Json → Prop}
variable {t t' : String} {v v' : Value}

theorem Value.HeldBy.decodeText (h : v.HeldBy t) (hread : ∀ n, Json.Mirrors n (read n) decode)
    (hnormal : ∀ j : Json, j.Distinct → p j.normalize →
      (decode j.normalize).toOption = (decode j).toOption) (hv : p v.tree) :
    (Json.decodeText read t).toOption = (decode v.tree).toOption := by
  obtain ⟨j, hj, hd, rfl⟩ := h
  have htext : (Json.decodeText read t).toOption = (decode j).toOption :=
    Json.Agree.readAll hj (hread Json.depthLimit)
  rw [htext]
  exact (hnormal j hd hv).symm

/-- Values of one core are decoded alike, whatever texts hold them. -/
theorem Value.HeldBy.decodeText_core {core : Json → Json} (h : v.HeldBy t) (h' : v'.HeldBy t')
    (hread : ∀ n, Json.Mirrors n (read n) decode)
    (hnormal : ∀ j : Json, j.Distinct → p j.normalize →
      (decode j.normalize).toOption = (decode j).toOption)
    (hcore : ∀ j : Json, j.Distinct → p j → (decode (core j)).toOption = (decode j).toOption)
    (hv : p v.tree) (hv' : p v'.tree) (heq : core v'.tree = core v.tree) :
    (Json.decodeText read t').toOption = (Json.decodeText read t).toOption :=
  calc (Json.decodeText read t').toOption
      = (decode v'.tree).toOption := h'.decodeText hread hnormal hv'
    _ = (decode (core v'.tree)).toOption := (hcore _ v'.distinct hv').symm
    _ = (decode (core v.tree)).toOption := by rw [heq]
    _ = (decode v.tree).toOption := hcore _ v.distinct hv
    _ = (Json.decodeText read t).toOption := (h.decodeText hread hnormal hv).symm

end

/-- From a text and from its value a decoder comes to equal results, or to none; and neither the order
of members nor members of unknown keys change what an operation, a program or a configuration is
decoded to. -/
theorem decodings_agree {t : String} {v : Value} (h : v.HeldBy t) :
    Value.parse t = .ok v ∧
    (Json.decodeText Chain.ofText t).toOption = (Chain.ofTree v.tree).toOption ∧
    (Json.decodeText Comparator.ofText t).toOption = (Comparator.ofTree .direct v.tree).toOption ∧
    (Json.decodeText Limit.ofText t).toOption = (Limit.ofTree v.tree).toOption ∧
    (Operation.Plain v.tree →
      (Json.decodeText Operation.ofText t).toOption = (Operation.ofTree v.tree).toOption ∧
      ∀ t' v', Value.HeldBy v' t' → Operation.Plain v'.tree →
        Operation.core v'.tree = Operation.core v.tree →
        (Json.decodeText Operation.ofText t').toOption =
          (Json.decodeText Operation.ofText t).toOption) ∧
    (Program.Plain v.tree →
      (Json.decodeText Program.ofText t).toOption = (Program.ofTree v.tree).toOption ∧
      ∀ t' v', Value.HeldBy v' t' → Program.Plain v'.tree →
        Program.core v'.tree = Program.core v.tree →
        (Json.decodeText Program.ofText t').toOption =
          (Json.decodeText Program.ofText t).toOption) ∧
    (Json.decodeText ConnectionConfig.ofText t).toOption =
      (ConnectionConfig.ofTree v.tree).toOption ∧
    ∀ t' v', Value.HeldBy v' t' → ConnectionConfig.core v'.tree = ConnectionConfig.core v.tree →
      (Json.decodeText ConnectionConfig.ofText t').toOption =
        (Json.decodeText ConnectionConfig.ofText t).toOption := by
  have hchain := h.decodeText (p := fun _ => True) Chain.ofText_mirrors
    (fun j _ _ => Chain.ofTree_normalize j) trivial
  have hcomparator := h.decodeText (p := fun _ => True) Comparator.ofText_mirrors
    (fun j hd _ => Comparator.ofTree_normalize .direct hd) trivial
  have hlimit := h.decodeText (p := fun _ => True) Limit.ofText_mirrors
    (fun j _ _ => Limit.ofTree_normalize j) trivial
  have hconfig : ∀ j : Json, j.Distinct → True → (ConnectionConfig.ofTree j.normalize).toOption =
      (ConnectionConfig.ofTree j).toOption :=
    fun j hd _ => ConnectionConfig.ofTree_normalize hd
  refine ⟨Value.parse_of_heldBy h, hchain, hcomparator, hlimit, fun hp => ?_, fun hp => ?_, ?_, ?_⟩
  · have hnormal := fun j hd hp => Operation.ofTree_normalize (j := j) hd hp
    refine ⟨h.decodeText Operation.ofText_mirrors hnormal hp, ?_⟩
    intro t' v' h' hp' heq
    exact h.decodeText_core h' Operation.ofText_mirrors hnormal
      (fun j hd hp => Operation.ofTree_core hd hp) hp hp' heq
  · have hnormal := fun j hd hp => Program.ofTree_normalize (j := j) hd hp
    refine ⟨h.decodeText Program.ofText_mirrors hnormal hp, ?_⟩
    intro t' v' h' hp' heq
    exact h.decodeText_core h' Program.ofText_mirrors hnormal
      (fun j hd hp => Program.ofTree_core hd hp) hp hp' heq
  · exact h.decodeText (p := fun _ => True) ConnectionConfig.ofText_mirrors hconfig trivial
  · intro t' v' h' heq
    exact h.decodeText_core (p := fun _ => True) h' ConnectionConfig.ofText_mirrors hconfig
      (fun j hd _ => ConnectionConfig.ofTree_core hd) trivial trivial heq

namespace Program

/-- A program with every payload before its name, and with members nothing is decoded from. -/
def scrambled : Json := .object [("note", .null), ("operations", .array [.object [
  ("data", .object [("val", .null), ("cmp", .string "<"), ("note", .bool true),
    ("attrs", .array [.string "a"])]), ("op", .string "where")]])]

def orderly : Json := .object [("operations", .array [.object [("op", .string "where"),
  ("data", .object [("attrs", .array [.string "a"]), ("cmp", .string "<"), ("val", .null)])]])]

theorem decodeText_scrambled :
    (Value.ofTree scrambled).HeldBy scrambled.text ∧ (Value.ofTree orderly).HeldBy orderly.text ∧
    (Json.decodeText ofText scrambled.text).toOption =
      some ⟨[.filter ⟨["a"], by decide, by decide⟩ .less (Value.ofTree .null)]⟩ ∧
    (Json.decodeText ofText orderly.text).toOption =
      (Json.decodeText ofText scrambled.text).toOption := by
  have hheld : (Value.ofTree scrambled).HeldBy scrambled.text := by
    refine Value.heldBy_text (fun x hx => ?_) (by decide) ?_
    · cases hx
    · simp [scrambled, Json.Distinct, Json.DistinctMembers, Json.DistinctItems]
  have hheld' : (Value.ofTree orderly).HeldBy orderly.text := by
    refine Value.heldBy_text (fun x hx => ?_) (by decide) ?_
    · cases hx
    · simp [orderly, Json.Distinct, Json.DistinctMembers, Json.DistinctItems]
  have hplain : Plain (Value.ofTree scrambled).tree := by decide
  have hplain' : Plain (Value.ofTree orderly).tree := by decide
  obtain ⟨-, -, -, -, -, hprogram, -⟩ := decodings_agree hheld
  obtain ⟨htext, hcore⟩ := hprogram hplain
  refine ⟨hheld, hheld', ?_, hcore _ _ hheld' hplain' (by decide)⟩
  rw [htext]
  rfl

end Program

end DocQuery

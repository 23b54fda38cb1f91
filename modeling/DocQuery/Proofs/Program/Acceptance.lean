import DocQuery.Proofs.Program.Agreement
import DocQuery.Proofs.Program.Validity

/-! # What operations are decoded from

The decoder of operations and the validators of the builder accept the same: an object with the name
of an operation, and a payload of which each part passes the validator that stands for it. What the
validators return is what the operation holds, and no other member is looked at.
-/
namespace DocQuery

open Json (toOption_bind toOption_map)

theorem toOption_eq_some {ε α : Type} {x : Except ε α} {a : α} : x.toOption = some a ↔ x = .ok a := by
  cases x <;> simp [Except.toOption]

theorem Json.normal_of_member? {j x : Json} {key : String} (hn : j.Normal)
    (h : j.member? key = some x) : x.Normal := by
  cases j with
  | object ms => exact Json.normalMembers_iff.1 hn.2 _ (Members.mem_of_find? h)
  | _ => cases h

theorem Chain.ofTree_tokens {tokens : List String} {path : Chain} (h : ofTokens tokens = .ok path) :
    ofTree (.array (tokens.map .string)) = .ok path := by
  rw [ofTokens_eq_ok] at h
  subst h
  exact ofTree_tree path

namespace Comparator

theorem parse_eq_ok {s : String} {c : Comparator} : parse s = .ok c ↔ ofToken? s = some c := by
  unfold parse
  cases ofToken? s <;> simp

theorem ofTree_eq_ok {route : Json.Route} {j : Json} {c : Comparator} (h : j.isObject = false) :
    ofTree route j = .ok c ↔ ∃ token, j = .string token ∧ parse token = .ok c := by
  cases j with
  | string token =>
    simp only [ofTree, Json.variantOfTree, Json.variant, Json.string.injEq, exists_eq_left',
      parse_eq_ok]
    cases ofToken? token <;> simp
  | object ms => cases h
  | _ => simp [ofTree, Json.variantOfTree, Json.mistypedTree]

end Comparator

namespace Operation

theorem filterOfTree_fields (route : Json.Route) {fs : List (String × Json)}
    (hn : (fs.map (·.1)).Nodup) :
    (filterOfTree route (.object fs)).toOption =
      (Members.find? "attrs" fs).bind fun attrs => (Members.find? "cmp" fs).bind fun cmp =>
        (Members.find? "val" fs).bind fun val => (Chain.ofTree attrs).toOption.bind fun path =>
          (Comparator.ofTree route cmp).toOption.map fun comparator =>
            .filter path comparator (Value.ofTree val) := by
  have hcmp : ∀ (path : Option Chain) (j : Json),
      FilterDraft.addTree route ⟨path, none, none⟩ "cmp" j =
        (Comparator.ofTree route j).map fun comparator => ⟨path, some comparator, none⟩ :=
    fun path => FilterDraft.addTree_cmp route ⟨path, none, none⟩
  have hattrs : ∀ j, FilterDraft.addTree route ⟨none, none, none⟩ "attrs" j =
      (Chain.ofTree j).map fun path => ⟨some path, none, none⟩ :=
    FilterDraft.addTree_attrs route ⟨none, none, none⟩
  -- A field that does not fit ends the fold, one that is missing is missed only by `finish`.
  rw [filterOfTree_pick route hn, filterOfTree_object, FilterDraft.start]
  simp only [Members.pick, FilterDraft.keys, List.filterMap_cons, List.filterMap_nil]
  cases Members.find? "attrs" fs with
  | none =>
    cases Members.find? "cmp" fs with
    | none => cases Members.find? "val" fs <;> rfl
    | some cmp =>
      simp only [Option.map_none, Option.map_some, Json.foldMembers_cons, hcmp]
      cases Comparator.ofTree route cmp <;> cases Members.find? "val" fs <;> rfl
  | some attrs =>
    simp only [Option.map_some, Option.bind_some, Json.foldMembers_cons, hattrs]
    cases Chain.ofTree attrs with
    | error e => cases Members.find? "cmp" fs <;> cases Members.find? "val" fs <;> rfl
    | ok path =>
      cases Members.find? "cmp" fs with
      | none => cases Members.find? "val" fs <;> rfl
      | some cmp =>
        simp only [Except.map, Except.bind, Option.map_some, Option.bind_some, Json.foldMembers_cons,
          hcmp]
        cases Comparator.ofTree route cmp <;> cases Members.find? "val" fs <;> rfl

/-- A name and a payload that the validators of the builder accept, and the operation that holds what
they return. -/
inductive Accepts (name : String) (data : Option Json) : Operation → Prop
  | mapAttrs {tokens : List String} {path : Chain} (hname : name = "mapAttrs")
      (hdata : data = some (.array (tokens.map .string))) (hpath : Chain.ofTokens tokens = .ok path) :
      Accepts name data (.mapAttrs path)
  | mapIds {collection : String} (hname : name = "mapIDToCollection")
      (hdata : data = some (.string collection)) : Accepts name data (.mapIds collection)
  | filter {fields : List (String × Json)} {tokens : List String} {token : String} {path : Chain}
      {comparator : Comparator} {value : Value} (hname : name = "where")
      (hdata : data = some (.object fields))
      (hattrs : Members.find? "attrs" fields = some (.array (tokens.map .string)))
      (hpath : Chain.ofTokens tokens = .ok path)
      (hcmp : Members.find? "cmp" fields = some (.string token))
      (hcomparator : Comparator.parse token = .ok comparator)
      (hval : Members.find? "val" fields = some value.tree) :
      Accepts name data (.filter path comparator value)
  | flatten (hname : name = "flatMapArr") (hdata : data = none ∨ data = some .null) :
      Accepts name data .flatten
  | limit {value : Value} {limit : Limit} (hname : name = "limit") (hdata : data = some value.tree)
      (hlimit : Limit.ofValue value = .ok limit) : Accepts name data (.limit limit)
  | withId (hname : name = "withID") (hdata : data = none ∨ data = some .null) :
      Accepts name data .withId

theorem toOption_kindOfTree (name : String) :
    (kindOfTree (.string name)).toOption = Kind.ofName? name := by
  simp only [kindOfTree, Json.variantOfTree, Json.variant]
  cases Kind.ofName? name <;> rfl

theorem ofMembers?_string (name : String) (data : Option Json) :
    ofMembers? (some (.string name)) data = (Kind.ofName? name).bind fun kind =>
      match data with
      | none => (ofKind kind).toOption
      | some data => (ofPayload .direct kind data).toOption := by
  cases data <;> simp only [ofMembers?, Option.bind_some, toOption_kindOfTree]

theorem noPayload_eq_ok {kind : Kind} {op op' : Operation} {j : Json} :
    noPayload kind op j = .ok op' ↔ j = .null ∧ op = op' := by
  cases j <;> simp [noPayload, Json.mistypedTree]

variable {name : String} {data : Option Json} {op : Operation}

theorem accepts_of_filterOfTree {j : Json} (hn : j.Normal) (hplain : PlainComparator j)
    (h : (filterOfTree .direct j).toOption = some op) : Accepts "where" (some j) op := by
  cases j with
  | object fs =>
    rw [filterOfTree_fields .direct (Members.Sorted.nodup hn.1)] at h
    obtain ⟨attrs, hattrs, h⟩ := Option.bind_eq_some_iff.1 h
    obtain ⟨cmp, hcmp, h⟩ := Option.bind_eq_some_iff.1 h
    obtain ⟨val, hval, h⟩ := Option.bind_eq_some_iff.1 h
    obtain ⟨path, hpath, h⟩ := Option.bind_eq_some_iff.1 h
    obtain ⟨comparator, hcomparator, rfl⟩ := Option.map_eq_some_iff.1 h
    have hpath : attrs = path.tree := Chain.ofTree_eq_ok.1 (toOption_eq_some.1 hpath)
    obtain ⟨token, rfl, hparse⟩ :=
      (Comparator.ofTree_eq_ok (hplain cmp hcmp)).1 (toOption_eq_some.1 hcomparator)
    have hnormal : val.Normal := Json.normal_of_member? hn hval
    have hvalue : Members.find? "val" fs = some (Value.ofTree val).tree := by
      rw [hval, Value.tree_ofTree, Json.normalize_eq_self val hnormal]
    exact .filter rfl rfl (hattrs.trans (congrArg some hpath)) (Chain.ofTokens_tokens path) hcmp hparse
      hvalue
  | _ => cases h

theorem accepts_of_ofPayload {kind : Kind} {j : Json} (hn : j.Normal)
    (hplain : kind = .filter → PlainComparator j)
    (h : (ofPayload .direct kind j).toOption = some op) : Accepts kind.name (some j) op := by
  cases kind with
  | mapAttrs =>
    rw [ofPayload, toOption_map] at h
    obtain ⟨path, hpath, rfl⟩ := Option.map_eq_some_iff.1 h
    rw [Chain.ofTree_eq_ok.1 (toOption_eq_some.1 hpath)]
    exact .mapAttrs rfl rfl (Chain.ofTokens_tokens path)
  | mapIds =>
    cases j with
    | string collection =>
      cases h
      exact .mapIds rfl rfl
    | _ => cases h
  | filter => exact accepts_of_filterOfTree hn (hplain rfl) h
  | flatten =>
    obtain ⟨rfl, rfl⟩ := noPayload_eq_ok.1 (toOption_eq_some.1 h)
    exact .flatten rfl (.inr rfl)
  | limit =>
    rw [ofPayload, toOption_map] at h
    obtain ⟨l, hl, rfl⟩ := Option.map_eq_some_iff.1 h
    have hj : j = l.tree := Limit.ofTree_eq_ok.1 (toOption_eq_some.1 hl)
    exact @Accepts.limit _ _ ⟨j, hn⟩ l rfl rfl (Limit.ofValue_eq_ok.2 hj)
  | withId =>
    obtain ⟨rfl, rfl⟩ := noPayload_eq_ok.1 (toOption_eq_some.1 h)
    exact .withId rfl (.inr rfl)

theorem accepts_of_ofKind {kind : Kind} (h : (ofKind kind).toOption = some op) :
    Accepts kind.name none op := by
  cases kind with
  | flatten =>
    cases h
    exact .flatten rfl (.inl rfl)
  | withId =>
    cases h
    exact .withId rfl (.inl rfl)
  | _ => cases h

theorem ofMembers?_of_accepts (hd : ∀ j ∈ data, j.Distinct) (h : Accepts name data op) :
    ofMembers? (some (.string name)) data = some op := by
  rw [ofMembers?_string]
  cases h with
  | mapAttrs hname hdata hpath =>
    subst hname hdata
    change ((Chain.ofTree _).map mapAttrs).toOption = _
    rw [Chain.ofTree_tokens hpath]
    rfl
  | mapIds hname hdata =>
    subst hname hdata
    rfl
  | @filter fields tokens token path comparator value hname hdata hattrs hpath hcmp hcomparator hval =>
    subst hname hdata
    have htoken : Comparator.ofTree .direct (.string token) = .ok comparator :=
      (Comparator.ofTree_eq_ok rfl).2 ⟨token, rfl, hcomparator⟩
    change (filterOfTree .direct (.object fields)).toOption = _
    rw [filterOfTree_fields .direct (hd _ rfl).1, hattrs, hcmp, hval, Option.bind_some,
      Option.bind_some, Option.bind_some, Chain.ofTree_tokens hpath, htoken, Value.ofTree_tree]
    rfl
  | flatten hname hdata =>
    subst hname
    obtain rfl | rfl := hdata <;> rfl
  | limit hname hdata hlimit =>
    subst hname hdata
    change ((Limit.ofTree _).map limit).toOption = _
    rw [Limit.ofTree_eq_ok.2 (Limit.ofValue_eq_ok.1 hlimit)]
    rfl
  | withId hname hdata =>
    subst hname
    obtain rfl | rfl := hdata <;> rfl

/-- What is decoded has passed the validators. -/
theorem accepts_of_ofMembers? (hn : ∀ j ∈ data, j.Normal)
    (hplain : name = "where" → ∀ j ∈ data, PlainComparator j)
    (h : ofMembers? (some (.string name)) data = some op) : Accepts name data op := by
  rw [ofMembers?_string] at h
  obtain ⟨kind, hkind, hop⟩ := Option.bind_eq_some_iff.1 h
  obtain rfl := Kind.name_of_ofName? hkind
  cases data with
  | none => exact accepts_of_ofKind hop
  | some j =>
    refine accepts_of_ofPayload (hn j rfl) ?_ hop
    rintro rfl
    exact hplain rfl j rfl

theorem plain_of_string {j : Json} (hname : j.member? "op" = some (.string name))
    (h : name = "where" → ∀ data ∈ j.member? "data", PlainComparator data) : Plain j := by
  intro o ho hkind
  rw [hname] at ho
  cases ho
  rw [toOption_kindOfTree] at hkind
  exact h (Kind.name_of_ofName? hkind).symm

theorem ofTree_of_string {j : Json} (hd : j.Distinct) (hp : Plain j)
    (hname : j.member? "op" = some (.string name)) :
    (ofTree j).toOption = ofMembers? (some (.string name)) (j.member? "data") := by
  cases j with
  | object ms => rw [ofTree_members hd hp, ← hname, Json.member?, Json.member?]
  | _ => cases hname

theorem core_of_string {j : Json} (hname : j.member? "op" = some (.string name)) :
    core j = .object (fields (some (.string name))
      ((j.member? "data").map (Json.keep FilterDraft.keys))) := by
  cases j with
  | object ms => exact congrArg (fun o => Json.object (fields o _)) hname
  | _ => cases hname

theorem plainComparator_keep {data : Json} :
    PlainComparator (data.keep FilterDraft.keys) ↔ PlainComparator data := by
  cases data with
  | object ms =>
    have hcmp : "cmp" ∈ FilterDraft.keys := by decide
    simp only [PlainComparator, Json.keep, Json.member?, Members.find?_pick, if_pos hcmp]
  | _ => rfl

/-- An object with a name is decoded as an operation exactly if the validators accept its name and its
payload, and the operation holds what they return. Other members of the object, and of the payload
of a comparison, do not matter. -/
theorem ofTree_accepts {v : Value} (hname : v.tree.member? "op" = some (.string name))
    (hplain : name = "where" → ∀ data ∈ v.tree.member? "data", PlainComparator data) :
    (∀ op, ofTree v.tree = .ok op ↔ Accepts name (v.tree.member? "data") op) ∧
    ∀ w : Value, w.tree.member? "op" = some (.string name) →
      (w.tree.member? "data").map (Json.keep FilterDraft.keys) =
        (v.tree.member? "data").map (Json.keep FilterDraft.keys) →
      (ofTree w.tree).toOption = (ofTree v.tree).toOption := by
  have hv : Plain v.tree := plain_of_string hname hplain
  refine ⟨fun op => ?_, fun w hw heq => ?_⟩
  · have hn : ∀ data ∈ v.tree.member? "data", data.Normal := fun _ => Json.normal_of_member? v.normal
    rw [← toOption_eq_some, ofTree_of_string v.distinct hv hname]
    exact ⟨accepts_of_ofMembers? hn hplain,
      ofMembers?_of_accepts fun data hdata => Json.distinct_of_normal data (hn data hdata)⟩
  · have hplain' : name = "where" → ∀ data ∈ w.tree.member? "data", PlainComparator data := by
      intro hwhere data hdata
      rw [Option.mem_def.1 hdata, Option.map_some] at heq
      obtain ⟨data', hdata', hkeep⟩ := Option.map_eq_some_iff.1 heq.symm
      rw [← plainComparator_keep, ← hkeep, plainComparator_keep]
      exact hplain hwhere data' hdata'
    -- The two values have one core.
    calc (ofTree w.tree).toOption
        = (ofTree (core w.tree)).toOption := (ofTree_core w.distinct (plain_of_string hw hplain')).symm
      _ = (ofTree (core v.tree)).toOption := by rw [core_of_string hw, core_of_string hname, heq]
      _ = (ofTree v.tree).toOption := ofTree_core v.distinct hv

def annotated : Value := Value.ofTree (.object [("op", .string "where"), ("note", .string "op"),
  ("data", .object [("val", .null), ("note", .array []), ("cmp", .string "<="),
    ("attrs", .array [.string "a", .string "b"])])])

def bare : Value := Value.ofTree (.object [("op", .string "where"),
  ("data", .object [("attrs", .array [.string "a", .string "b"]), ("cmp", .string "<="),
    ("val", .null)])])

theorem ofTree_accepts_annotated :
    annotated.tree.member? "op" = some (.string "where") ∧
    (∀ data ∈ annotated.tree.member? "data", PlainComparator data) ∧
    ofTree annotated.tree = .ok (.filter ⟨["a", "b"], by decide, by decide⟩ .lessOrEqual .null) ∧
    (ofTree bare.tree).toOption = (ofTree annotated.tree).toOption := by
  have hname : annotated.tree.member? "op" = some (.string "where") := by decide
  have hplain : ∀ data ∈ annotated.tree.member? "data", PlainComparator data := by decide
  obtain ⟨haccepts, hignored⟩ := ofTree_accepts hname fun _ => hplain
  refine ⟨hname, hplain, (haccepts _).2 ?_, hignored bare (by decide) (by decide)⟩
  exact @Accepts.filter _ _ _ ["a", "b"] "<=" _ _ _ rfl rfl rfl rfl rfl rfl rfl

end Operation

end DocQuery

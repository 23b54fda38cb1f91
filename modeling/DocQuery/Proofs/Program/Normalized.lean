import DocQuery.Proofs.Program.Members

/-! # Decoding normal trees

Normalizing a tree that repeats no key changes neither the result of a decoder nor whether there is
one. Only the fault may be another, as another member may be the first at fault.
-/
namespace DocQuery

open Json (Cause Route toOption_bind toOption_map)

namespace Json
variable {α : Type} {item item' : Json → Except Cause α}

theorem listOfTrees_congr {xs : List Json} (g : Json → Json)
    (h : ∀ x ∈ xs, (item' (g x)).toOption = (item x).toOption) :
    (listOfTrees item' (xs.map g)).toOption = (listOfTrees item xs).toOption := by
  have hcons : ∀ (item : Json → Except Cause α) x xs, listOfTrees item (x :: xs) =
      (item x).bind fun a => (listOfTrees item xs).map (a :: ·) := by
    intro item x xs
    simp only [listOfTrees]
    cases item x with
    | error c => rfl
    | ok a => cases listOfTrees item xs <;> rfl
  induction xs with
  | nil => rfl
  | cons x xs ih =>
    have hx := h x List.mem_cons_self
    have hxs := ih fun x hx => h x (List.mem_cons_of_mem _ hx)
    rw [List.map_cons, hcons, hcons, toOption_bind, toOption_bind, hx]
    simp only [toOption_map, hxs]

def elements : Json → List Json
  | .array xs => xs
  | _ => []

def mapItems (g : Json → Json) : Json → Json
  | .array xs => .array (xs.map g)
  | j => j

theorem listOfTree_mapItems {j : Json} (g : Json → Json)
    (h : ∀ x ∈ j.elements, (item' (g x)).toOption = (item x).toOption) :
    (listOfTree item' (j.mapItems g)).toOption = (listOfTree item j).toOption := by
  cases j with
  | array xs => exact listOfTrees_congr g h
  | _ => rfl

theorem listOfTree_normalize {j : Json}
    (h : ∀ x ∈ j.elements, (item x.normalize).toOption = (item x).toOption) :
    (listOfTree item j.normalize).toOption = (listOfTree item j).toOption := by
  have hitems := listOfTree_mapItems normalize h
  cases j with
  | array xs => rwa [normalize, normalizeItems_eq_map]
  | _ => rfl

/-- A decoder of two items, and no more, depends on what those two are decoded to. -/
theorem twoItems_congr {β : Type} {ofItems : List Json → Except Cause α}
    {first : Json → Except Cause β} {second : β → Json → Except Cause α}
    (hone : ∀ x, ∃ c, ofItems [x] = .error c)
    (hcons : ∀ x y xs, ofItems (x :: y :: xs) = (first x).bind fun b => (second b y).bind fun a =>
      if xs.isEmpty then .ok a else .error (surplus (x :: y :: xs).length))
    {xs : List Json} (g : Json → Json)
    (hfirst : ∀ x ∈ xs, (first (g x)).toOption = (first x).toOption)
    (hsecond : ∀ x ∈ xs, ∀ b, (second b (g x)).toOption = (second b x).toOption) :
    (ofItems (xs.map g)).toOption = (ofItems xs).toOption := by
  match xs with
  | [] => rfl
  | [x] =>
    obtain ⟨c, hc⟩ := hone x
    obtain ⟨c', hc'⟩ := hone (g x)
    rw [List.map_singleton, hc, hc']
    rfl
  | x :: y :: xs =>
    have hx := hfirst x List.mem_cons_self
    have hy := hsecond y (List.mem_cons_of_mem _ List.mem_cons_self)
    simp only [List.map_cons, hcons, toOption_bind, hx, hy, List.isEmpty_map, List.length_cons,
      List.length_map]

theorem stringOfTree_normalize (j : Json) :
    (stringOfTree j.normalize).toOption = (stringOfTree j).toOption := by
  cases j <;> rfl

theorem length_sort_normalizeMembers {ms : List (String × Json)} (hn : (ms.map (·.1)).Nodup) :
    (Members.sort (normalizeMembers ms)).length = ms.length := by
  rw [(sort_normalizeMembers_perm hn).length_eq, normalizeMembers_eq_map, List.length_map]

theorem unitOfTree_normalize (route : Route) {j : Json} (hd : j.Distinct) :
    (unitOfTree route j.normalize).toOption = (unitOfTree route j).toOption := by
  have hsome : ∀ ms : List (String × Json), ms.length ≠ 0 →
      (unitOfTree route (.object ms)).toOption = none := by
    intro ms h
    cases ms with
    | nil => exact absurd rfl h
    | cons m ms => rfl
  cases j with
  | object ms =>
    by_cases h : ms.length = 0
    · rw [List.length_eq_zero_iff.1 h]
      rfl
    · rw [hsome ms h]
      exact hsome _ (by rwa [length_sort_normalizeMembers hd.1])
  | _ => rfl

theorem variantOfTree_normalize (find : String → Option α) (known : List String) (route : Route)
    {j : Json} (hd : j.Distinct) :
    (variantOfTree find known route j.normalize).toOption =
      (variantOfTree find known route j).toOption := by
  have hmany : ∀ ms : List (String × Json), ms.length ≠ 1 →
      (variantOfTree find known route (.object ms)).toOption = none := by
    intro ms h
    match ms with
    | [] => rfl
    | [m] => exact absurd rfl h
    | _ :: _ :: _ => rfl
  cases j with
  | object ms =>
    by_cases h : ms.length = 1
    · obtain ⟨⟨name, data⟩, rfl⟩ := List.length_eq_one_iff.1 h
      have hunit := unitOfTree_normalize route hd.2.1
      have hone : ∀ data, variantOfTree find known route (.object [(name, data)]) =
          (variant find known name).bind fun a => (unitOfTree route data).map fun _ => a := by
        intro data
        simp only [variantOfTree]
        cases variant find known name with
        | error c => rfl
        | ok a => cases unitOfTree route data <;> rfl
      change (variantOfTree find known route (.object [(name, data.normalize)])).toOption = _
      rw [hone, hone, toOption_bind, toOption_bind]
      simp only [toOption_map, hunit]
    · rw [hmany ms h]
      exact hmany _ (by rwa [length_sort_normalizeMembers hd.1])
  | _ => rfl

end Json

theorem Chain.ofTree_normalize (j : Json) :
    (Chain.ofTree j.normalize).toOption = (Chain.ofTree j).toOption := by
  have htokens : (Json.listOfTree Json.stringOfTree j.normalize).toOption =
      (Json.listOfTree Json.stringOfTree j).toOption :=
    Json.listOfTree_normalize fun x _ => Json.stringOfTree_normalize x
  rw [ofTree_eq, ofTree_eq, toOption_bind, toOption_bind, htokens]

theorem Comparator.ofTree_normalize (route : Route) {j : Json} (hd : j.Distinct) :
    (Comparator.ofTree route j.normalize).toOption = (Comparator.ofTree route j).toOption :=
  Json.variantOfTree_normalize ofToken? tokens route hd

theorem Limit.ofTree_normalize (j : Json) :
    (Limit.ofTree j.normalize).toOption = (Limit.ofTree j).toOption := by
  cases j <;> rfl

theorem FilterDraft.addTree_normalize (route : Route) (d : FilterDraft) (k : String) {j : Json}
    (hd : j.Distinct) :
    (d.addTree route k j.normalize).toOption = (d.addTree route k j).toOption := by
  by_cases hattrs : k = "attrs"
  · subst hattrs
    rw [addTree_attrs, addTree_attrs]
    split
    · rfl
    · rw [toOption_map, toOption_map, Chain.ofTree_normalize]
  by_cases hcmp : k = "cmp"
  · subst hcmp
    rw [addTree_cmp, addTree_cmp]
    split
    · rfl
    · rw [toOption_map, toOption_map, Comparator.ofTree_normalize route hd]
  by_cases hval : k = "val"
  · subst hval
    have hvalue : Value.ofTree j.normalize = Value.ofTree j := Value.ext j.normalize_normalize
    rw [addTree_val, addTree_val, hvalue]
  · rw [addTree_other _ _ _ hattrs hcmp hval, addTree_other _ _ _ hattrs hcmp hval]

namespace Operation

theorem filterOfTree_normalize (route : Route) {j : Json} (hd : j.Distinct) :
    (filterOfTree route j.normalize).toOption = (filterOfTree route j).toOption := by
  cases j with
  | object ms =>
    have hsorted : ((Members.sort (Json.normalizeMembers ms)).map (·.1)).Nodup :=
      (Members.sorted_sort _).nodup
    have hstep : ∀ m ∈ Members.pick FilterDraft.keys ms, ∀ d,
        (FilterDraft.addTree route d m.1 m.2.normalize).toOption =
          (FilterDraft.addTree route d m.1 m.2).toOption := by
      intro m hm d
      have hmem : m ∈ ms := Members.mem_of_find? (Members.mem_pick.1 hm).2
      exact d.addTree_normalize route m.1 (Json.distinct_of_mem hd.2 hmem)
    rw [Json.normalize, filterOfTree_pick route hsorted, filterOfTree_pick route hd.1,
      Json.pick_normalized hd.1, filterOfTree_object, filterOfTree_object, toOption_bind,
      toOption_bind, Json.foldMembers_congr Json.normalize hstep]
  | _ => rfl

theorem ofPayload_normalize (route : Route) (kind : Kind) {j : Json} (hd : j.Distinct) :
    (ofPayload route kind j.normalize).toOption = (ofPayload route kind j).toOption := by
  have hunit : ∀ kind op, (noPayload kind op j.normalize).toOption =
      (noPayload kind op j).toOption := by
    intro kind op
    cases j <;> rfl
  cases kind with
  | mapAttrs => simp only [ofPayload, toOption_map, Chain.ofTree_normalize]
  | mapIds => simp only [ofPayload, toOption_map, Json.stringOfTree_normalize]
  | filter => exact filterOfTree_normalize route hd
  | flatten => exact hunit .flatten .flatten
  | limit => simp only [ofPayload, toOption_map, Limit.ofTree_normalize]
  | withId => exact hunit .withId .withId

theorem ofMembers?_congr {op data : Option Json} (f g : Json → Json)
    (hop : ∀ o ∈ op, (kindOfTree (f o)).toOption = (kindOfTree o).toOption)
    (hdata : ∀ data' ∈ data, ∀ kind,
      (ofPayload .direct kind (g data')).toOption = (ofPayload .direct kind data').toOption) :
    ofMembers? (op.map f) (data.map g) = ofMembers? op data := by
  cases op with
  | none => rfl
  | some o =>
    simp only [ofMembers?, Option.map_some, Option.bind_some, hop o rfl]
    cases data with
    | none => rfl
    | some data => simp only [Option.map_some, hdata data rfl]

theorem ofItems_congr {xs : List Json} (g : Json → Json)
    (hname : ∀ x ∈ xs, (Json.nameOfTree Kind.ofName? Kind.names (g x)).toOption =
      (Json.nameOfTree Kind.ofName? Kind.names x).toOption)
    (hdata : ∀ x ∈ xs, ∀ kind,
      (ofPayload .direct kind (g x)).toOption = (ofPayload .direct kind x).toOption) :
    (ofItems (xs.map g)).toOption = (ofItems xs).toOption :=
  Json.twoItems_congr ofItems_singleton ofItems_cons g hname hdata

/-- What is plain about a normal tree is plain about the tree it comes from. -/
theorem plain_of_normalize {j : Json} (hd : j.Distinct) (h : Plain j.normalize) : Plain j := by
  intro o ho hk data hdata c hc
  cases j with
  | object members =>
    have hdo : o.Distinct := Json.distinct_of_mem hd.2 (Members.mem_of_find? ho)
    have hdd : data.Distinct := Json.distinct_of_mem hd.2 (Members.mem_of_find? hdata)
    have ho' : o.normalize ∈ (Json.object members).normalize.member? "op" := by
      rw [Json.member?_normalize hd]
      exact Option.mem_map_of_mem Json.normalize ho
    have hdata' : data.normalize ∈ (Json.object members).normalize.member? "data" := by
      rw [Json.member?_normalize hd]
      exact Option.mem_map_of_mem Json.normalize hdata
    have hc' : c.normalize ∈ data.normalize.member? "cmp" := by
      rw [Json.member?_normalize hdd]
      exact Option.mem_map_of_mem Json.normalize hc
    have hkind : (kindOfTree o.normalize).toOption = some .filter := by
      rw [kindOfTree, Json.variantOfTree_normalize _ _ _ hdo]
      exact hk
    have hplain : c.normalize.isObject = false := h _ ho' hkind _ hdata' _ hc'
    cases c with
    | object ms => cases hplain
    | _ => rfl
  | _ => cases ho

theorem ofTree_normalize {j : Json} (hd : j.Distinct) (h : Plain j.normalize) :
    (ofTree j.normalize).toOption = (ofTree j).toOption := by
  have hdistinct : j.normalize.Distinct := Json.distinct_of_normal _ j.normal_normalize
  cases j with
  | object ms =>
    rw [ofTree_members hd (plain_of_normalize hd h)]
    rw [Json.normalize] at hdistinct h ⊢
    rw [ofTree_members hdistinct h, Json.find?_normalized hd.1, Json.find?_normalized hd.1]
    apply ofMembers?_congr
    · intro o ho
      exact Json.variantOfTree_normalize _ _ _ (Json.distinct_of_mem hd.2 (Members.mem_of_find? ho))
    · intro data hdata kind
      exact ofPayload_normalize .direct kind
        (Json.distinct_of_mem hd.2 (Members.mem_of_find? hdata))
  | array xs =>
    rw [Json.normalize, Json.normalizeItems_eq_map]
    apply ofItems_congr
    · intro x _
      cases x <;> rfl
    · intro x hx kind
      exact ofPayload_normalize .direct kind (Json.distinctItems_iff.1 hd x hx)
  | _ => rfl

end Operation

namespace Program

def operations? : Json → Option Json
  | .object ms => Members.find? "operations" ms
  | .array xs => xs.head?
  | _ => none

def Plain (j : Json) : Prop := ∀ ops ∈ operations? j, ∀ op ∈ ops.elements, Operation.Plain op

instance : DecidablePred Plain := fun j =>
  inferInstanceAs (Decidable (∀ ops ∈ operations? j, ∀ op ∈ ops.elements, Operation.Plain op))

theorem operations?_normalize {j : Json} (hd : j.Distinct) :
    operations? j.normalize = (operations? j).map Json.normalize := by
  cases j with
  | object ms => exact Json.find?_normalized hd.1 "operations"
  | array xs => cases xs <;> rfl
  | _ => rfl

theorem distinct_operations {j ops : Json} (hd : j.Distinct) (h : operations? j = some ops) :
    ops.Distinct := by
  cases j with
  | object ms => exact Json.distinct_of_mem hd.2 (Members.mem_of_find? h)
  | array xs => exact Json.distinctItems_iff.1 hd ops (List.mem_of_mem_head? h)
  | _ => cases h

theorem ofItems_congr {xs ys : List Json} (hlength : ys.length = xs.length)
    (h : (ys.head?.bind fun ops => (Json.listOfTree Operation.ofTree ops).toOption) =
      xs.head?.bind fun ops => (Json.listOfTree Operation.ofTree ops).toOption) :
    (ofItems ys).toOption = (ofItems xs).toOption := by
  match xs, ys with
  | [], [] => rfl
  | x :: xs, y :: ys =>
    simp only [List.head?_cons, Option.bind_some] at h
    have hempty : ys.isEmpty = xs.isEmpty := by
      simp only [List.length_cons, Nat.add_right_cancel_iff] at hlength
      cases xs <;> cases ys <;> simp_all
    simp only [ofItems_cons, toOption_bind, toOption_map, h, hempty, hlength]

theorem ofTree_normalize {j : Json} (hd : j.Distinct) (h : Plain j.normalize) :
    (ofTree j.normalize).toOption = (ofTree j).toOption := by
  have hlist : ∀ ops, operations? j = some ops →
      (Json.listOfTree Operation.ofTree ops.normalize).toOption =
        (Json.listOfTree Operation.ofTree ops).toOption := by
    intro ops hops
    have hdo : ops.Distinct := distinct_operations hd hops
    have hops' := operations?_normalize hd
    rw [hops, Option.map_some] at hops'
    refine Json.listOfTree_normalize fun op hop => ?_
    cases ops with
    | array xs =>
      have hmem : op.normalize ∈ (Json.array xs).normalize.elements := by
        rw [Json.normalize, Json.normalizeItems_eq_map]
        exact List.mem_map_of_mem hop
      exact Operation.ofTree_normalize (Json.distinctItems_iff.1 hdo op hop) (h _ hops' _ hmem)
    | _ => cases hop
  cases j with
  | object ms =>
    rw [Json.normalize, ofTree_member (Members.sorted_sort _).nodup, ofTree_member hd.1,
      Json.find?_normalized hd.1]
    cases hops : Members.find? "operations" ms with
    | none => rfl
    | some ops => simp only [Option.map_some, Option.bind_some, hlist ops hops]
  | array xs =>
    rw [Json.normalize, Json.normalizeItems_eq_map]
    apply ofItems_congr
    · rw [List.length_map]
    · cases xs with
      | nil => rfl
      | cons ops xs => exact hlist ops rfl
  | _ => rfl

end Program

namespace ConnectionConfig

theorem ofTree_normalize {j : Json} (hd : j.Distinct) :
    (ofTree j.normalize).toOption = (ofTree j).toOption := by
  cases j with
  | object ms =>
    rw [Json.normalize, ofTree_members (Members.sorted_sort _).nodup, ofTree_members hd.1,
      Json.find?_normalized hd.1, Json.find?_normalized hd.1]
    simp only [Option.bind_map, Function.comp_def, Json.stringOfTree_normalize]
  | array xs =>
    rw [Json.normalize, Json.normalizeItems_eq_map]
    refine Json.twoItems_congr ofItems_singleton ofItems_cons Json.normalize (fun x _ => ?_)
      fun x _ url => ?_
    · exact Json.stringOfTree_normalize x
    · rw [toOption_map, toOption_map, Json.stringOfTree_normalize]
  | _ => rfl

end ConnectionConfig

end DocQuery

import DocQuery.Proofs.Json.Members
import DocQuery.Proofs.Program.Streaming

/-! # What a decoder makes of an object

Each decoder of an object looks at the members of a few keys, and the order in which it meets them has
no say in its result. One order matters on the way: a payload that comes before its name is decoded
on the buffered route, and there a comparator may be an object that is refused on the direct one.
-/
namespace DocQuery

open Json (Cause Commute Route toOption_bind toOption_map)

def Json.isObject : Json → Bool
  | .object _ => true
  | _ => false

theorem Comparator.ofTree_buffered {j : Json} (h : j.isObject = false) :
    Comparator.ofTree .buffered j = Comparator.ofTree .direct j := by
  cases j with
  | object ms => cases h
  | _ => rfl

example : let j := Json.object [("<", .object [])]
    (Comparator.ofTree .buffered j).toOption = some .less ∧
      (Comparator.ofTree .direct j).toOption = none := by decide

namespace FilterDraft

def keys : List String := ["attrs", "cmp", "val"]

theorem nodup_keys : keys.Nodup := by decide

theorem addTree_ignored (route : Route) (d : FilterDraft) (k : String) (j : Json) (h : k ∉ keys) :
    addTree route d k j = .ok d := by
  simp only [keys, List.mem_cons, List.not_mem_nil, or_false, not_or] at h
  exact addTree_other route d j h.1 h.2.1 h.2.2

theorem addTree_commute (route : Route) :
    keys.Pairwise fun k k' => ∀ j j', Commute (addTree route) (k, j) (k', j') := by
  have hattrs : ∀ j j', Commute (addTree route) ("attrs", j) ("cmp", j') := fun j j' =>
    Json.commute_fields path (fun d path => { d with path := some path }) comparator
      (fun d comparator => { d with comparator := some comparator })
      (fun d => addTree_attrs route d j) (fun d => addTree_cmp route d j') (fun _ _ => rfl)
      (fun _ _ => rfl) fun _ _ _ => rfl
  have hval : ∀ d j', addTree route d "val" j' = if d.value.isSome then .error (.duplicateField "val")
      else (Except.ok (Value.ofTree j')).map fun v => { d with value := some v } :=
    fun d j' => addTree_val route d j'
  have hattrs' : ∀ j j', Commute (addTree route) ("attrs", j) ("val", j') := fun j j' =>
    Json.commute_fields path (fun d path => { d with path := some path }) value
      (fun d value => { d with value := some value })
      (fun d => addTree_attrs route d j) (fun d => hval d j') (fun _ _ => rfl)
      (fun _ _ => rfl) fun _ _ _ => rfl
  have hcmp : ∀ j j', Commute (addTree route) ("cmp", j) ("val", j') := fun j j' =>
    Json.commute_fields comparator (fun d comparator => { d with comparator := some comparator }) value
      (fun d value => { d with value := some value })
      (fun d => addTree_cmp route d j) (fun d => hval d j') (fun _ _ => rfl)
      (fun _ _ => rfl) fun _ _ _ => rfl
  simp only [keys, List.pairwise_cons, List.mem_cons, List.not_mem_nil, or_false]
  refine ⟨?_, ?_, fun _ h => h.elim, .nil⟩
  · rintro k (rfl | rfl)
    · exact hattrs
    · exact hattrs'
  · rintro k rfl
    exact hcmp

end FilterDraft

namespace Operation

theorem filterOfTree_pick (route : Route) {ms : List (String × Json)} (hn : (ms.map (·.1)).Nodup) :
    (filterOfTree route (.object ms)).toOption =
      (filterOfTree route (.object (Members.pick FilterDraft.keys ms))).toOption := by
  rw [filterOfTree_object, filterOfTree_object, toOption_bind, toOption_bind]
  rw [Json.foldMembers_pick hn FilterDraft.nodup_keys (FilterDraft.addTree_ignored route)
    ((FilterDraft.addTree_commute route).imp fun h j j' _ _ => h j j')]

/-- No object stands for the comparator of a comparison's payload. -/
def PlainComparator (data : Json) : Prop := ∀ c ∈ data.member? "cmp", c.isObject = false

instance : DecidablePred PlainComparator := fun data =>
  inferInstanceAs (Decidable (∀ c ∈ data.member? "cmp", c.isObject = false))

theorem filterOfTree_buffered {data : Json} (hd : data.Distinct) (h : PlainComparator data) :
    (filterOfTree .buffered data).toOption = (filterOfTree .direct data).toOption := by
  cases data with
  | object ms =>
    have hstep : ∀ m ∈ ms, ∀ d, (FilterDraft.addTree .buffered d m.1 (id m.2)).toOption =
        (FilterDraft.addTree .direct d m.1 m.2).toOption := by
      rintro ⟨k, j⟩ hm d
      by_cases hk : k = "cmp"
      · subst hk
        have hj : j.isObject = false := h j (Members.find?_of_mem hd.1 hm)
        simp only [id_eq, FilterDraft.addTree_cmp, Comparator.ofTree_buffered hj]
      · simp only [id_eq, FilterDraft.addTree, hk, if_false]
    have hfold := Json.foldMembers_congr id hstep .start
    simp only [id_eq, List.map_id'] at hfold
    rw [filterOfTree_object, filterOfTree_object, toOption_bind, toOption_bind, hfold]
  | _ => rfl

def keys : List String := ["op", "data"]

theorem nodup_keys : keys.Nodup := by decide

/-- The payload of a comparison has a plain comparator. -/
def Plain (j : Json) : Prop :=
  ∀ o ∈ j.member? "op", (kindOfTree o).toOption = some .filter →
    ∀ data ∈ j.member? "data", PlainComparator data

instance : DecidablePred Plain := fun j =>
  inferInstanceAs (Decidable (∀ o ∈ j.member? "op", (kindOfTree o).toOption = some .filter →
    ∀ data ∈ j.member? "data", PlainComparator data))

theorem ofPayload_buffered (kind : Kind) {data : Json} (hd : data.Distinct)
    (h : kind = .filter → PlainComparator data) :
    (ofPayload .buffered kind data).toOption = (ofPayload .direct kind data).toOption := by
  cases kind with
  | filter => exact filterOfTree_buffered hd (h rfl)
  | _ => rfl

theorem addTree_ignored (d : Draft) (k : String) (j : Json) (h : k ∉ keys) : d.addTree k j = .ok d := by
  simp only [keys, List.mem_cons, List.not_mem_nil, or_false, not_or] at h
  simp only [Draft.addTree, h.1, h.2, if_false]

theorem addTree_commute {o data : Json} (hd : data.Distinct)
    (h : (kindOfTree o).toOption = some .filter → PlainComparator data) :
    Commute Draft.addTree ("op", o) ("data", data) := by
  intro d
  cases d with
  | start =>
    cases hk : kindOfTree o with
    | error c =>
      change ((kindOfTree o).map Draft.named |>.bind _).toOption =
        ((Draft.buffered data).addTree "op" o).toOption
      rw [Draft.addTree_buffered, hk]
      rfl
    | ok kind =>
      have hplain : kind = .filter → PlainComparator data := by
        rintro rfl
        exact h (by rw [hk]; rfl)
      have hroute := ofPayload_buffered kind hd hplain
      change ((kindOfTree o).map Draft.named |>.bind _).toOption =
        ((Draft.buffered data).addTree "op" o).toOption
      rw [Draft.addTree_buffered, hk]
      change ((ofPayload .direct kind data).map Draft.complete).toOption =
        ((ofPayload .buffered kind data).map Draft.complete).toOption
      rw [toOption_map, toOption_map, hroute]
  | named kind =>
    change none = ((ofPayload .direct kind data).map Draft.complete |>.bind _).toOption
    cases ofPayload .direct kind data <;> rfl
  | buffered data' =>
    change ((Draft.buffered data').addTree "op" o |>.bind _).toOption = none
    rw [Draft.addTree_buffered]
    cases kindOfTree o with
    | error c => rfl
    | ok kind =>
      change ((ofPayload .buffered kind data').map Draft.complete |>.bind _).toOption = none
      cases ofPayload .buffered kind data' <;> rfl
  | complete op => rfl

def fields (op data : Option Json) : List (String × Json) :=
  (op.map fun o => ("op", o)).toList ++ (data.map fun data => ("data", data)).toList

theorem pick_keys (ms : List (String × Json)) :
    Members.pick keys ms = fields (Members.find? "op" ms) (Members.find? "data" ms) := by
  cases hop : Members.find? "op" ms <;> cases hdata : Members.find? "data" ms <;>
    simp [Members.pick, keys, fields, hop, hdata]

/-- The operation of a name and a payload, if there are any and they fit. -/
def ofMembers? (op data : Option Json) : Option Operation :=
  op.bind fun o => (kindOfTree o).toOption.bind fun kind =>
    match data with
    | none => (ofKind kind).toOption
    | some data => (ofPayload .direct kind data).toOption

theorem ofTree_fields (op data : Option Json) :
    (ofTree (.object (fields op data))).toOption = ofMembers? op data := by
  rw [ofTree_object]
  cases op with
  | none => cases data <;> rfl
  | some o =>
    have hop : Draft.start.addTree "op" o = (kindOfTree o).map .named := rfl
    cases data with
    | none =>
      simp only [fields, ofMembers?, Option.map_some, Option.map_none, Option.toList_some,
        Option.toList_none, List.append_nil, Json.foldMembers_cons, hop, Option.bind_some]
      cases kindOfTree o <;> rfl
    | some data =>
      simp only [fields, ofMembers?, Option.map_some, Option.toList_some, List.singleton_append,
        Json.foldMembers_cons, hop, Option.bind_some]
      cases kindOfTree o with
      | error c => rfl
      | ok kind =>
        change (((ofPayload .direct kind data).map Draft.complete).bind Except.ok |>.bind
          Draft.finish).toOption = (ofPayload .direct kind data).toOption
        cases ofPayload .direct kind data <;> rfl

/-- An object is decoded by its name and its payload, wherever they stand. -/
theorem ofTree_members {ms : List (String × Json)} (hd : (Json.object ms).Distinct)
    (h : Plain (.object ms)) :
    (ofTree (.object ms)).toOption =
      ofMembers? (Members.find? "op" ms) (Members.find? "data" ms) := by
  have hcommute : keys.Pairwise fun k k' => ∀ j j', (k, j) ∈ ms → (k', j') ∈ ms →
      Commute Draft.addTree (k, j) (k', j') := by
    simp only [keys, List.pairwise_cons, List.mem_cons, List.not_mem_nil, or_false]
    refine ⟨?_, fun _ h => h.elim, .nil⟩
    rintro k rfl o data ho hdata
    have hdistinct : data.Distinct := Json.distinct_of_mem hd.2 hdata
    exact addTree_commute hdistinct fun hk =>
      h o (Members.find?_of_mem hd.1 ho) hk data (Members.find?_of_mem hd.1 hdata)
  rw [← ofTree_fields, ← pick_keys, ofTree_object, ofTree_object, toOption_bind, toOption_bind,
    Json.foldMembers_pick hd.1 nodup_keys addTree_ignored hcommute]

end Operation

namespace Program

def keys : List String := ["operations"]

theorem ofTree_member {ms : List (String × Json)} (hn : (ms.map (·.1)).Nodup) :
    (ofTree (.object ms)).toOption = (Members.find? "operations" ms).bind fun ops =>
      (Json.listOfTree Operation.ofTree ops).toOption.map mk := by
  have hother : ∀ d k j, k ∉ keys → addTree d k j = .ok d := by
    intro d k j hk
    simp only [keys, List.mem_singleton] at hk
    simp only [addTree, hk, if_false]
  rw [ofTree_object, toOption_bind, Json.foldMembers_pick hn (List.nodup_singleton _) hother
    (List.pairwise_singleton _ _)]
  cases hops : Members.find? "operations" ms with
  | none =>
    have hpick : Members.pick ["operations"] ms = [] := by simp [Members.pick, hops]
    rw [hpick]
    rfl
  | some ops =>
    have hpick : Members.pick ["operations"] ms = [("operations", ops)] := by
      simp [Members.pick, hops]
    have hadd : addTree none "operations" ops = (Json.listOfTree Operation.ofTree ops).map some := rfl
    rw [hpick, Json.foldMembers_cons, hadd, Option.bind_some]
    cases Json.listOfTree Operation.ofTree ops <;> rfl

end Program

namespace ConnectionConfig

def keys : List String := ["url", "api_key"]

theorem addTree_commute (j j' : Json) : Commute Draft.addTree ("url", j) ("api_key", j') :=
  Json.commute_fields Draft.url (fun d url => { d with url := some url }) Draft.apiKey
    (fun d apiKey => { d with apiKey := some apiKey }) (fun _ => rfl) (fun _ => rfl)
    (fun _ _ => rfl) (fun _ _ => rfl) fun _ _ _ => rfl

theorem ofTree_members {ms : List (String × Json)} (hn : (ms.map (·.1)).Nodup) :
    (ofTree (.object ms)).toOption = (Members.find? "url" ms).bind fun url =>
      (Members.find? "api_key" ms).bind fun apiKey =>
        (Json.stringOfTree url).toOption.bind fun url =>
          (Json.stringOfTree apiKey).toOption.map (mk url) := by
  have hother : ∀ d k j, k ∉ keys → Draft.addTree d k j = .ok d := by
    intro d k j hk
    simp only [keys, List.mem_cons, List.not_mem_nil, or_false, not_or] at hk
    simp only [Draft.addTree, hk.1, hk.2, if_false]
  have hcommute : keys.Pairwise fun k k' => ∀ j j', (k, j) ∈ ms → (k', j') ∈ ms →
      Commute Draft.addTree (k, j) (k', j') := by
    simp only [keys, List.pairwise_cons, List.mem_cons, List.not_mem_nil, or_false]
    refine ⟨?_, fun _ h => h.elim, .nil⟩
    rintro k rfl j j' - -
    exact addTree_commute j j'
  rw [ofTree_object, toOption_bind, Json.foldMembers_pick hn (by decide) hother hcommute]
  have hurl : ∀ d j, Draft.addTree ⟨none, d⟩ "url" j =
      (Json.stringOfTree j).map fun url => ⟨some url, d⟩ := fun _ _ => rfl
  have hkey : ∀ d j, Draft.addTree ⟨d, none⟩ "api_key" j =
      (Json.stringOfTree j).map fun apiKey => ⟨d, some apiKey⟩ := fun _ _ => rfl
  simp only [Members.pick, keys, List.filterMap_cons, List.filterMap_nil]
  cases Members.find? "url" ms with
  | none =>
    cases Members.find? "api_key" ms with
    | none => rfl
    | some key =>
      simp only [Option.map_none, Option.map_some, Json.foldMembers_cons, hkey, Option.bind_none]
      cases Json.stringOfTree key <;> rfl
  | some url =>
    cases Members.find? "api_key" ms with
    | none =>
      simp only [Option.map_none, Option.map_some, Json.foldMembers_cons, hurl, Option.bind_some]
      cases Json.stringOfTree url <;> rfl
    | some key =>
      simp only [Option.map_some, Json.foldMembers_cons, hurl, Option.bind_some]
      cases Json.stringOfTree url with
      | error c => rfl
      | ok url =>
        change ((((Json.stringOfTree key).map fun apiKey => Draft.mk (some url) (some apiKey)).bind
          Except.ok).toOption.bind fun d => d.finish.toOption) =
            (Json.stringOfTree key).toOption.map (mk url)
        cases Json.stringOfTree key <;> rfl

end ConnectionConfig

end DocQuery

import DocQuery.Connection
import DocQuery.Proofs.Json.Mirror

/-! # Decoding a text as it goes

A chain, a comparator, a limit, an operation, a program and a configuration are decoded from a text as
from the tree the text holds, with the members in the order in which they are written.
-/
namespace DocQuery

open Json (Agree Mirrors StepMirrors Cause Reader)

theorem Chain.ofTree_eq (j : Json) :
    Chain.ofTree j = (Json.listOfTree Json.stringOfTree j).bind Chain.judge := by
  unfold ofTree
  cases Json.listOfTree Json.stringOfTree j <;> rfl

namespace FilterDraft
variable (route : Json.Route) (d : FilterDraft) (j : Json)

theorem addTree_attrs : d.addTree route "attrs" j =
    if d.path.isSome then .error (.duplicateField "attrs")
    else (Chain.ofTree j).map fun path => { d with path := some path } := by
  simp only [addTree, if_true]
  cases Chain.ofTree j <;> rfl

theorem addTree_cmp : d.addTree route "cmp" j =
    if d.comparator.isSome then .error (.duplicateField "cmp")
    else (Comparator.ofTree route j).map fun comparator => { d with comparator := some comparator } := by
  have hne : "cmp" ≠ "attrs" := by decide
  simp only [addTree, hne, if_false, if_true]
  cases Comparator.ofTree route j <;> rfl

theorem addTree_val : d.addTree route "val" j =
    if d.value.isSome then .error (.duplicateField "val")
    else .ok { d with value := some (Value.ofTree j) } := by
  have hattrs : "val" ≠ "attrs" := by decide
  have hcmp : "val" ≠ "cmp" := by decide
  simp only [addTree, hattrs, hcmp, if_false, if_true]

theorem addTree_other {k : String} (hattrs : k ≠ "attrs") (hcmp : k ≠ "cmp") (hval : k ≠ "val") :
    d.addTree route k j = .ok d := by
  simp only [addTree, hattrs, hcmp, hval, if_false]

end FilterDraft

namespace Operation

theorem filterOfTree_object (route : Json.Route) (ms : List (String × Json)) :
    filterOfTree route (.object ms) =
      (Json.foldMembers (FilterDraft.addTree route) .start ms).bind FilterDraft.finish := by
  simp only [filterOfTree]
  cases Json.foldMembers (FilterDraft.addTree route) .start ms <;> rfl

theorem Draft.addTree_buffered (data j : Json) :
    (buffered data).addTree "op" j =
      (kindOfTree j).bind fun kind => (ofPayload .buffered kind data).map complete := by
  simp only [addTree, if_true]
  cases kindOfTree j <;> rfl

theorem ofItems_singleton (x : Json) : ∃ c, ofItems [x] = .error c := by
  simp only [ofItems]
  cases Json.nameOfTree Kind.ofName? Kind.names x <;> exact ⟨_, rfl⟩

theorem ofItems_cons (x y : Json) (xs : List Json) :
    ofItems (x :: y :: xs) = (Json.nameOfTree Kind.ofName? Kind.names x).bind fun kind =>
      (ofPayload .direct kind y).bind fun op =>
        if xs.isEmpty then .ok op else .error (Json.surplus (x :: y :: xs).length) := by
  simp only [ofItems]
  cases Json.nameOfTree Kind.ofName? Kind.names x with
  | error c => rfl
  | ok kind => cases h : ofPayload .direct kind y <;> simp [Except.bind, h]

theorem ofTree_object (ms : List (String × Json)) :
    ofTree (.object ms) = (Json.foldMembers Draft.addTree .start ms).bind Draft.finish :=
  Json.structOfTree_object _ _ _ _ _ ms

end Operation

namespace Program

theorem ofTree_object (ms : List (String × Json)) :
    ofTree (.object ms) = (Json.foldMembers addTree none ms).bind finish :=
  Json.structOfTree_object _ _ _ _ _ ms

theorem ofItems_cons (ops : Json) (xs : List Json) :
    ofItems (ops :: xs) = ((Json.listOfTree Operation.ofTree ops).map mk).bind fun p =>
      if xs.isEmpty then .ok p else .error (Json.surplus (ops :: xs).length) := by
  simp only [ofItems]
  cases Json.listOfTree Operation.ofTree ops <;> rfl

end Program

namespace ConnectionConfig

theorem ofTree_object (ms : List (String × Json)) :
    ofTree (.object ms) = (Json.foldMembers Draft.addTree ⟨none, none⟩ ms).bind Draft.finish :=
  Json.structOfTree_object _ _ _ _ _ ms

theorem ofItems_singleton (x : Json) : ∃ c, ofItems [x] = .error c := by
  simp only [ofItems]
  cases Json.stringOfTree x <;> exact ⟨_, rfl⟩

theorem ofItems_cons (x y : Json) (xs : List Json) :
    ofItems (x :: y :: xs) = (Json.stringOfTree x).bind fun url =>
      ((Json.stringOfTree y).map (mk url)).bind fun config =>
        if xs.isEmpty then .ok config else .error (Json.surplus (x :: y :: xs).length) := by
  simp only [ofItems]
  cases Json.stringOfTree x with
  | error c => rfl
  | ok url => cases Json.stringOfTree y <;> simp [Except.bind, Except.map]

end ConnectionConfig

theorem Chain.ofText_mirrors (n : Nat) : Mirrors n (Chain.ofText n) Chain.ofTree := by
  intro s j r h
  have htokens := Json.listOfText_mirrors (fun n => Json.stringOfText_mirrors n) n s j r h
  rw [ofTree_eq]
  exact htokens.judge Chain.judge

theorem Comparator.ofText_mirrors (n : Nat) :
    Mirrors n (Comparator.ofText n) (Comparator.ofTree .direct) :=
  Json.variantOfText_mirrors ofToken? tokens n

theorem Limit.ofText_mirrors (n : Nat) : Mirrors n (Limit.ofText n) Limit.ofTree := by
  intro s j r h
  have hread := Json.readAs_of_readTree h
  unfold Limit.ofText
  generalize Json.skipBlanks s = t at hread ⊢
  cases hread with
  | @negative _ t r x hx =>
    simpa [hx, ofTree, Except.bind] using (Agree.ok (r := r) x).judge Limit.judge
  | @number _ c t r x hc hx =>
    have hminus : c ≠ '-' := Json.digit_ne hc rfl
    simpa [hminus, hc, hx, ofTree, Except.bind] using (Agree.ok (r := r) x).judge Limit.judge
  | _ => exact .error _ _

theorem FilterDraft.addText_mirrors (n : Nat) :
    StepMirrors n (FilterDraft.addText n) (FilterDraft.addTree .direct) := by
  intro d k s w j r hcolon hj
  by_cases hattrs : k = "attrs"
  · subst hattrs
    rw [addTree_attrs]
    simp only [addText, if_true]
    split
    · exact .error _ _
    · exact (Json.readField_agree (Chain.ofText_mirrors n) hcolon hj).map _
  by_cases hcmp : k = "cmp"
  · subst hcmp
    rw [addTree_cmp]
    simp only [addText, hattrs, if_false, if_true]
    split
    · exact .error _ _
    · exact (Json.readField_agree (Comparator.ofText_mirrors n) hcolon hj).map _
  by_cases hval : k = "val"
  · subst hval
    rw [addTree_val]
    simp only [addText, hattrs, hcmp, if_false, if_true]
    split
    · exact .error _ _
    · exact (Json.readField_agree (Json.readTree_mirrors n) hcolon hj).map _
  · rw [addTree_other _ _ _ hattrs hcmp hval]
    simp only [addText, hattrs, hcmp, hval, if_false]
    exact Json.skipField_agree d hcolon hj

namespace Operation

theorem filterOfText_mirrors (n : Nat) : Mirrors n (filterOfText n) (filterOfTree .direct) := by
  intro s j r h
  have hread := Json.readAs_of_readTree h
  unfold filterOfText
  generalize Json.skipBlanks s = t at hread ⊢
  cases hread with
  | @number _ c t r x hc hx =>
    have hbrace : c ≠ '\x7b' := Json.digit_ne hc rfl
    simpa [hbrace, filterOfTree] using Agree.mistyped _ _ _
  | @object m t u r ms hmembers hend =>
    obtain ⟨ms', hms, hagree⟩ := Json.members_agree (FilterDraft.addText_mirrors m) hmembers
    rw [List.nil_append] at hms
    subst hms
    rw [filterOfTree_object]
    exact ((hagree .start).judge FilterDraft.finish).closeBy hend
  | _ => exact .error _ _

theorem noPayloadText_mirrors (kind : Kind) (op : Operation) (n : Nat) :
    Mirrors n (noPayloadText kind op n) (noPayload kind op) := by
  refine Json.unitOfAnyText_mirrors (a := op) rfl (fun j hj => ?_) (unitName kind) n
  cases j with
  | null => exact absurd rfl hj
  | _ => exact ⟨_, rfl⟩

theorem ofPayloadText_mirrors (kind : Kind) (n : Nat) :
    Mirrors n (ofPayloadText kind n) (ofPayload .direct kind) := by
  intro s j r h
  cases kind with
  | mapAttrs => exact (Chain.ofText_mirrors n s j r h).map mapAttrs
  | mapIds => exact (Json.stringOfText_mirrors n s j r h).map mapIds
  | filter => exact filterOfText_mirrors n s j r h
  | flatten => exact noPayloadText_mirrors .flatten .flatten n s j r h
  | limit => exact (Limit.ofText_mirrors n s j r h).map limit
  | withId => exact noPayloadText_mirrors .withId .withId n s j r h

theorem kindOfText_mirrors (n : Nat) : Mirrors n (kindOfText n) kindOfTree :=
  Json.variantOfText_mirrors Kind.ofName? Kind.names n

theorem Draft.addText_mirrors (n : Nat) : StepMirrors n (Draft.addText n) Draft.addTree := by
  intro d k s w j r hcolon hj
  by_cases hop : k = "op"
  · subst hop
    have hkind := Json.readField_agree (kindOfText_mirrors n) hcolon hj
    cases d with
    | start => exact hkind.map named
    | buffered data =>
      rw [addTree_buffered]
      exact hkind.judge _
    | named kind => exact .error _ _
    | complete op => exact .error _ _
  · by_cases hdata : k = "data"
    · subst hdata
      cases d with
      | start => exact (Json.readField_agree (Json.readTree_mirrors n) hcolon hj).map buffered
      | named kind =>
        exact (Json.readField_agree (ofPayloadText_mirrors kind n) hcolon hj).map complete
      | buffered data => exact .error _ _
      | complete op => exact .error _ _
    · simp only [addText, addTree, hop, hdata, if_false]
      exact Json.skipField_agree d hcolon hj

theorem ofTextItems_agree {n fuel : Nat} {s u r : List Char} {xs : List Json}
    (h : Json.items (Json.readTree n) fuel true s = .ok (xs, u)) (hend : Json.endArray u = .ok r) :
    Agree r (Json.closeArray (ofTextItems n s)) (ofItems xs) := by
  have hname := Json.nameOfText_mirrors Kind.ofName? Kind.names n
  refine Json.twoFields_agree expected hname (fun kind => ofPayloadText_mirrors kind n) (fun f hf => ?_)
    (fun kind v hk => ?_) ⟨_, rfl⟩ ofItems_singleton ofItems_cons h hend
  · simp only [ofTextItems, hf]
  · simp only [ofTextItems, hk]

theorem ofText_mirrors (n : Nat) : Mirrors n (ofText n) ofTree :=
  Json.readStruct_mirrors Draft.addText_mirrors ofTextItems_agree n

end Operation

namespace Program

theorem operationsOfText_mirrors (n : Nat) :
    Mirrors n (operationsOfText n) (Json.listOfTree Operation.ofTree) :=
  Json.listOfText_mirrors Operation.ofText_mirrors n

theorem addText_mirrors (n : Nat) : StepMirrors n (addText n) addTree := by
  intro d k s w j r hcolon hj
  unfold addText addTree
  split
  · split
    · exact .error _ _
    · exact (Json.readField_agree (operationsOfText_mirrors n) hcolon hj).map some
  · exact Json.skipField_agree d hcolon hj

theorem ofTextItems_agree {n fuel : Nat} {s u r : List Char} {xs : List Json}
    (h : Json.items (Json.readTree n) fuel true s = .ok (xs, u)) (hend : Json.endArray u = .ok r) :
    Agree r (Json.closeArray (ofTextItems n s)) (ofItems xs) := by
  unfold ofTextItems
  rcases Json.readItem_agree (operationsOfText_mirrors n) 0 expectedItems h with
    ⟨rfl, f, hf⟩ | ⟨ops, xs', v, fuel', rfl, hops, hrest⟩
  · rw [hf]
    exact .error _ _
  · rw [ofItems_cons]
    exact Json.closeArray_agree (hops.map mk) hrest hend _

theorem ofText_mirrors (n : Nat) : Mirrors n (ofText n) ofTree :=
  Json.readStruct_mirrors addText_mirrors ofTextItems_agree n

end Program

namespace ConnectionConfig

theorem Draft.addText_mirrors (n : Nat) : StepMirrors n (Draft.addText n) Draft.addTree := by
  intro d k s w j r hcolon hj
  have hstring := Json.readField_agree (Json.stringOfText_mirrors n) hcolon hj
  unfold addText addTree
  split
  · split
    · exact .error _ _
    · exact hstring.map _
  · split
    · split
      · exact .error _ _
      · exact hstring.map _
    · exact Json.skipField_agree d hcolon hj

theorem ofTextItems_agree {n fuel : Nat} {s u r : List Char} {xs : List Json}
    (h : Json.items (Json.readTree n) fuel true s = .ok (xs, u)) (hend : Json.endArray u = .ok r) :
    Agree r (Json.closeArray (ofTextItems n s)) (ofItems xs) := by
  have hstring := Json.stringOfText_mirrors n
  refine Json.twoFields_agree expectedItems hstring (fun url s j r h => (hstring s j r h).map (mk url))
    (fun f hf => ?_) (fun url v hurl => ?_) ⟨_, rfl⟩ ofItems_singleton ofItems_cons h hend
  · simp only [ofTextItems, hf]
  · simp only [ofTextItems, hurl]
    exact (Json.readItem_mapRead 1 expectedItems (mk url) v).symm

theorem ofText_mirrors (n : Nat) : Mirrors n (ofText n) ofTree :=
  Json.readStruct_mirrors Draft.addText_mirrors ofTextItems_agree n

end ConnectionConfig

end DocQuery

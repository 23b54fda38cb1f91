import DocQuery.Program.FromText
import DocQuery.Proofs.Json.Decode
import DocQuery.Proofs.Json.Distinct
import DocQuery.Proofs.Program.FromTree

/-! # Programs come back from their texts

The text of a program is decoded as it goes: the name of an operation comes first and its payload is
decoded in place. Each decoder undoes the printing of its kind of value as deep as it may go.
-/
namespace DocQuery

open Json (Undoes Reads members_cons members_nil)

theorem Chain.ofText_text (c : Chain) (n : Nat) : Undoes (Chain.ofText n) c.tree c n := by
  intro t ht
  have htokens := Json.listOfText_written c.tokens
    (fun s _ n => Json.stringOfText_written s n) n
  exact (htokens t ht).judge (Chain.judge_tokens c)

theorem Comparator.ofText_text (c : Comparator) (n : Nat) :
    Undoes (Comparator.ofText n) c.tree c n :=
  Json.variantOfText_written (ofToken?_token c) n

theorem Limit.ofText_text (l : Limit) (h : l.number.ReadsBack) (n : Nat) :
    Undoes (Limit.ofText n) l.tree l n := by
  intro t ht
  obtain ⟨c, s, hx, hblank, hread⟩ := h
  refine .of_ok (by simp [Limit.tree, Json.depth]) ?_
  rw [Limit.tree, Json.chars, hx]
  unfold Limit.ofText
  simp only [List.cons_append, Json.skipBlanks, hblank, Bool.false_eq_true, ↓reduceIte]
  rcases hread t ht with ⟨rfl, h⟩ | ⟨hd, h⟩
  · simp [h, Json.judge]
  · have hminus : c ≠ '-' := by rintro rfl; exact absurd hd (by decide)
    simp only [List.cons_append] at h
    simp [hminus, hd, h, Json.judge]

namespace FilterDraft
variable {n : Nat} {t : List Char} {d : FilterDraft}

theorem addText_path (path : Chain) (hd : d.path = none) (ht : Json.Delimited t) :
    Reads (path.tree.depth ≤ n) { d with path := some path } t
      (addText n d "attrs" (':' :: (path.tree.chars ++ t))) := by
  have hread := (Json.readField_written (Chain.ofText_text path n) ht).map
    fun path => { d with path := some path }
  simpa [addText, hd] using hread

theorem addText_comparator (comparator : Comparator) (hd : d.comparator = none)
    (ht : Json.Delimited t) :
    Reads (comparator.tree.depth ≤ n) { d with comparator := some comparator } t
      (addText n d "cmp" (':' :: (comparator.tree.chars ++ t))) := by
  have hread := (Json.readField_written (Comparator.ofText_text comparator n) ht).map
    fun comparator => { d with comparator := some comparator }
  simpa [addText, hd] using hread

theorem addText_value {value : Value} (hv : ∀ x ∈ value.tree.numbers, x.ReadsBack)
    (hd : d.value = none) (ht : Json.Delimited t) :
    Reads (value.tree.depth ≤ n) { d with value := some value } t
      (addText n d "val" (':' :: (value.tree.chars ++ t))) := by
  have hread := (Json.readField_written (Json.reads_tree value.tree hv n) ht).map
    fun j => { d with value := some (Value.ofTree j) }
  rw [Value.ofTree_tree] at hread
  simpa [addText, hd] using hread

end FilterDraft

namespace Operation

theorem filterOfText_text (path : Chain) (comparator : Comparator) {value : Value}
    (hv : ∀ x ∈ value.tree.numbers, x.ReadsBack) (n : Nat) :
    Undoes (filterOfText n)
      (.object [("attrs", path.tree), ("cmp", comparator.tree), ("val", value.tree)])
      (.filter path comparator value) n := by
  intro t _
  rw [Json.chars]
  cases n with
  | zero => exact .of_deep (by simp [Json.depth]) rfl rfl
  | succ n =>
    have hread := Json.object_written (n := n) (t := t) (a := .filter path comparator value)
      (show FilterDraft.finish ⟨some path, some comparator, some value⟩ = _ from rfl)
      fun fuel => by
        have hpath : ∀ t, Json.Delimited t → _ := fun t ht =>
          FilterDraft.addText_path (n := n) (t := t) (d := .start) path rfl ht
        have hcomparator : ∀ t, Json.Delimited t → _ := fun t ht =>
          FilterDraft.addText_comparator (n := n) (t := t) (d := ⟨some path, none, none⟩)
            comparator rfl ht
        have hvalue : ∀ t, Json.Delimited t → _ := fun t ht =>
          FilterDraft.addText_value (n := n) (t := t) (d := ⟨some path, some comparator, none⟩)
            hv rfl ht
        apply Reads.congr
        · apply members_cons hpath
          apply members_cons hcomparator
          apply members_cons hvalue
          apply members_nil
        · simp
    simpa [filterOfText, Json.skipBlanks, Json.isBlank] using hread

theorem ofPayloadText_payload {op : Operation} {data : Json} (h : op.payload = some data)
    (hx : ∀ x ∈ data.numbers, x.ReadsBack) (n : Nat) :
    Undoes (ofPayloadText op.kind n) data op n := by
  intro t ht
  cases op with
  | mapAttrs path =>
    cases h
    exact (Chain.ofText_text path n t ht).map mapAttrs
  | mapIds collection =>
    cases h
    exact (Json.stringOfText_written collection n t ht).map mapIds
  | filter path comparator value =>
    cases h
    have hv : ∀ x ∈ value.tree.numbers, x.ReadsBack := fun x hm =>
      hx x (by simp [Json.numbers, Json.numbersMembers, hm])
    exact filterOfText_text path comparator hv n t ht
  | flatten => cases h
  | limit l =>
    cases h
    have hl : l.number.ReadsBack := hx _ (by simp [Limit.tree, Json.numbers])
    exact (Limit.ofText_text l hl n t ht).map limit
  | withId => cases h

namespace Draft
variable {n : Nat} {t : List Char}

theorem addText_name (k : Kind) (ht : Json.Delimited t) :
    Reads ((Json.string k.name).depth ≤ n) (named k) t
      (addText n start "op" (':' :: ((Json.string k.name).chars ++ t))) := by
  have hkind : Undoes (kindOfText n) (.string k.name) k n :=
    Json.variantOfText_written (Kind.ofName?_name k) n
  simpa [addText] using (Json.readField_written hkind ht).map named

theorem addText_data {op : Operation} {data : Json} (h : op.payload = some data)
    (hx : ∀ x ∈ data.numbers, x.ReadsBack) (ht : Json.Delimited t) :
    Reads (data.depth ≤ n) (complete op) t
      (addText n (named op.kind) "data" (':' :: (data.chars ++ t))) := by
  have hdata := ofPayloadText_payload h hx n
  simpa [addText] using (Json.readField_written hdata ht).map complete

end Draft

theorem ofText_text (op : Operation) (hx : ∀ x ∈ op.tree.numbers, x.ReadsBack) (n : Nat) :
    Undoes (ofText n) op.tree op n := by
  have hname : ∀ n t, Json.Delimited t → _ := fun n t ht =>
    Draft.addText_name (n := n) (t := t) op.kind ht
  cases hp : op.payload with
  | none =>
    have htree : op.tree = .object [("op", .string op.kind.name)] := by simp [tree, hp]
    have hfinish : Draft.finish (.named op.kind) = .ok op := ofKind_kind hp
    rw [htree]
    refine Json.readStruct_written hfinish (fun n t fuel => ?_) n
    apply Reads.congr
    · apply members_cons (hname n)
      apply members_nil
    · simp
  | some data =>
    have htree : op.tree = .object [("op", .string op.kind.name), ("data", data)] := by
      simp [tree, hp]
    have hdata : ∀ n t, Json.Delimited t → _ := fun n t ht =>
      Draft.addText_data (n := n) (t := t) hp
        (fun x hm => hx x (by simp [htree, Json.numbers, Json.numbersMembers, hm])) ht
    have hfinish : Draft.finish (.complete op) = .ok op := rfl
    rw [htree]
    refine Json.readStruct_written hfinish (fun n t fuel => ?_) n
    apply Reads.congr
    · apply members_cons (hname n)
      apply members_cons (hdata n)
      apply members_nil
    · simp

end Operation

namespace Program

theorem mem_numbers_tree {p : Program} {x : Json.Number} :
    x ∈ p.tree.numbers ↔ ∃ op ∈ p.operations, x ∈ op.tree.numbers := by
  simp only [tree, Json.numbers, Json.numbersMembers, Json.mem_numbersItems, List.append_nil]
  constructor
  · rintro ⟨j, hj, hx⟩
    obtain ⟨op, hop, rfl⟩ := List.mem_map.1 hj
    exact ⟨op, hop, hx⟩
  · rintro ⟨op, hop, hx⟩
    exact ⟨op.tree, List.mem_map_of_mem hop, hx⟩

theorem ofText_text (p : Program) (hx : ∀ x ∈ p.tree.numbers, x.ReadsBack) (n : Nat) :
    Undoes (ofText n) p.tree p n := by
  have hops : ∀ n, Undoes (operationsOfText n) (.array (p.operations.map (·.tree))) p.operations n :=
    Json.listOfText_written p.operations fun op hop n =>
      Operation.ofText_text op (fun x hm => hx x (mem_numbers_tree.2 ⟨op, hop, hm⟩)) n
  have hadd : ∀ n t, Json.Delimited t →
      Reads ((Json.array (p.operations.map (·.tree))).depth ≤ n) (some p.operations) t
        (addText n none "operations"
          (':' :: ((Json.array (p.operations.map (·.tree))).chars ++ t))) := by
    intro n t ht
    simpa [addText] using (Json.readField_written (hops n) ht).map some
  have hfinish : finish (some p.operations) = .ok p := rfl
  refine Json.readStruct_written hfinish (fun n t fuel => ?_) n
  apply Reads.congr
  · apply members_cons (hadd n)
    apply members_nil
  · simp

end Program

end DocQuery

import DocQuery.Outcome
import DocQuery.Proofs.Json.Members

/-! # Documents by their ids

An answer that lists pairs of an id and a document is read pair by pair. What has been read so far holds
under each id the document of the last pair with it. The first item that is no such pair ends the
reading; what the fault says depends on that item alone.
-/
namespace DocQuery

namespace Members
variable {α : Type}

theorem find?_insert (key k : String) (a : α) (ms : List (String × α)) :
    find? k (insert key a ms) = if key = k then some a else find? k ms := by
  induction ms with
  | nil => rfl
  | cons m ms ih =>
    obtain ⟨l, b⟩ := m
    simp only [insert]
    split
    · rfl
    · split
      · rename_i heq
        subst heq
        by_cases hk : key = k <;> simp [find?, hk]
      · rename_i hne
        by_cases hl : l = k
        · have hkey : key ≠ k := hl ▸ hne
          simp [find?, hl, hkey]
        · simp only [find?, hl, if_false, ih]

theorem mem_keys_insert (key k : String) (a : α) (ms : List (String × α)) :
    k ∈ (insert key a ms).map (·.1) ↔ k = key ∨ k ∈ ms.map (·.1) := by
  induction ms with
  | nil => simp [insert]
  | cons m ms ih =>
    obtain ⟨l, b⟩ := m
    simp only [insert]
    split
    · simp
    · split
      · rename_i heq
        simp [heq]
      · rw [List.map_cons, List.mem_cons, ih, List.map_cons, List.mem_cons]
        exact or_left_comm

end Members

namespace Documents

def pairTree (p : String × Value) : Json := .array [.string p.1, p.2.tree]

/-- Two items, the first of them a string. -/
def IsPair (item : Json) : Prop := ∃ id data, item = .array [.string id, data]

/-- What there is to say about an item that is no pair. -/
inductive Offends : Json → String → Prop
  | notPair {item : Json} (h : ∀ id data, item ≠ .array [id, data]) :
      Offends item s!"expected an [id, document] pair, got {item.text}"
  | idNotString {id data : Json} (h : ∀ s, id ≠ .string s) :
      Offends (.array [id, data]) s!"document id must be a string, got {id.text}"

@[simp] theorem ofPair_pairTree (p : String × Value) : ofPair (pairTree p) = .ok p := by
  simp [ofPair, pairTree]

theorem isPair_pairTree (p : String × Value) : IsPair (pairTree p) := ⟨p.1, p.2.tree, rfl⟩

theorem exists_pairTree {item : Json} (hn : item.Normal) (h : IsPair item) :
    ∃ p, item = pairTree p := by
  obtain ⟨id, data, rfl⟩ := h
  simp only [Json.Normal, Json.NormalItems] at hn
  exact ⟨(id, ⟨data, hn.2.1⟩), rfl⟩

theorem ofPair_of_offends {item : Json} {reason : String} (h : Offends item reason) :
    ∃ f, ofPair item = .error f ∧ f.toError = .malformedResponse reason := by
  cases h with
  | notPair h =>
    refine ⟨.notPair item, ?_, rfl⟩
    unfold ofPair
    split
    · exact absurd rfl (h _ _)
    · exact absurd rfl (h _ _)
    · rfl
  | idNotString h =>
    rename_i id data
    refine ⟨.idNotString id, ?_, rfl⟩
    cases id with
    | string s => exact absurd rfl (h s)
    | _ => rfl

theorem isPair_or_offends (item : Json) : IsPair item ∨ ∃ reason, Offends item reason := by
  by_cases htwo : ∃ id data, item = .array [id, data]
  · obtain ⟨id, data, rfl⟩ := htwo
    by_cases hid : ∃ s, id = .string s
    · obtain ⟨s, rfl⟩ := hid
      exact .inl ⟨s, data, rfl⟩
    · exact .inr ⟨_, .idNotString (not_exists.1 hid)⟩
  · exact .inr ⟨_, .notPair fun id data h => htwo ⟨id, data, h⟩⟩

theorem not_isPair_of_offends {item : Json} {reason : String} (h : Offends item reason) :
    ¬ IsPair item := by
  rintro ⟨s, data, rfl⟩
  cases h with
  | notPair h => exact h _ _ rfl
  | idNotString h => exact h s rfl

theorem pairs_or_offends {items : List Json} (hn : Json.NormalItems items) :
    (∃ pairs : List (String × Value), items = pairs.map pairTree) ∨
      ∃ (pairs : List (String × Value)) (bad : Json) (after : List Json) (reason : String),
        items = pairs.map pairTree ++ bad :: after ∧ Offends bad reason := by
  induction items with
  | nil => exact .inl ⟨[], rfl⟩
  | cons item items ih =>
    simp only [Json.NormalItems] at hn
    rcases isPair_or_offends item with hpair | ⟨reason, hbad⟩
    · obtain ⟨p, rfl⟩ := exists_pairTree hn.1 hpair
      rcases ih hn.2 with ⟨pairs, rfl⟩ | ⟨pairs, bad, after, reason, rfl, hbad⟩
      · exact .inl ⟨p :: pairs, rfl⟩
      · exact .inr ⟨p :: pairs, bad, after, reason, rfl, hbad⟩
    · exact .inr ⟨[], item, items, reason, rfl, hbad⟩

/-- The document of the last pair with an id. -/
def LastOf (id : String) (data : Value) (pairs : List (String × Value)) : Prop :=
  ∃ before after, pairs = before ++ (id, data) :: after ∧ id ∉ after.map (·.1)

theorem lastOf_concat {id : String} {data : Value} {pairs : List (String × Value)}
    {p : String × Value} :
    LastOf id data (pairs ++ [p]) ↔ p = (id, data) ∨ p.1 ≠ id ∧ LastOf id data pairs := by
  constructor
  · rintro ⟨before, after, heq, hafter⟩
    rcases List.eq_nil_or_concat after with rfl | ⟨after, q, rfl⟩
    · exact .inl (List.append_singleton_inj.1 heq).2
    · rw [List.concat_eq_append] at heq hafter
      rw [← List.cons_append, ← List.append_assoc, List.append_singleton_inj] at heq
      obtain ⟨rfl, rfl⟩ := heq
      simp only [List.map_append, List.map_singleton, List.mem_append, List.mem_singleton,
        not_or] at hafter
      exact .inr ⟨Ne.symm hafter.2, before, after, rfl, hafter.1⟩
  · rintro (rfl | ⟨hne, before, after, rfl, hafter⟩)
    · exact ⟨pairs, [], rfl, List.not_mem_nil⟩
    · refine ⟨before, after ++ [p], by simp, ?_⟩
      simp only [List.map_append, List.map_singleton, List.mem_append, List.mem_singleton, not_or]
      exact ⟨hafter, Ne.symm hne⟩

/-- What the documents are once pairs have been read: one under each id that occurred, its last. -/
structure Holds (docs : Documents) (pairs : List (String × Value)) : Prop where
  sorted : Members.Sorted docs
  ids : ∀ id, id ∈ docs.map (·.1) ↔ id ∈ pairs.map (·.1)
  last : ∀ id data, Members.find? id docs = some data ↔ LastOf id data pairs

theorem holds_nil : Holds [] [] where
  sorted := by simp [Members.Sorted]
  ids id := Iff.rfl
  last id data := by simp [Members.find?, LastOf]

theorem Holds.insert {docs : Documents} {pairs : List (String × Value)} (h : Holds docs pairs)
    (p : String × Value) : Holds (Members.insert p.1 p.2 docs) (pairs ++ [p]) where
  sorted := Members.sorted_insert h.sorted
  ids id := by
    rw [Members.mem_keys_insert, h.ids, List.map_append, List.mem_append, List.map_singleton,
      List.mem_singleton]
    exact or_comm
  last id data := by
    rw [Members.find?_insert, lastOf_concat]
    obtain ⟨key, value⟩ := p
    by_cases hkey : key = id
    · simp [hkey]
    · simp [hkey, h.last]

/-- Induction on the pairs: what was held before them and they themselves are held behind them. -/
theorem Holds.read {docs : Documents} {before : List (String × Value)} (h : Holds docs before)
    (pairs : List (String × Value)) (rest : List Json) :
    ∃ docs', Holds docs' (before ++ pairs) ∧
      collect docs (pairs.map pairTree ++ rest) = collect docs' rest := by
  induction pairs generalizing docs before with
  | nil => exact ⟨docs, by simpa using h, rfl⟩
  | cons p pairs ih =>
    obtain ⟨docs', hholds, hcollect⟩ := ih (h.insert p)
    refine ⟨docs', by simpa using hholds, ?_⟩
    rw [← hcollect, List.map_cons, List.cons_append, collect, ofPair_pairTree]

variable {raw : Value}

theorem shape_pairs {pairs : List (String × Value)} (h : raw.tree = .array (pairs.map pairTree)) :
    ∃ docs, shape raw = .ok docs ∧ Holds docs pairs := by
  obtain ⟨docs, hholds, hcollect⟩ := holds_nil.read pairs []
  rw [List.append_nil] at hcollect
  refine ⟨docs, ?_, hholds⟩
  simp only [shape, h, ofTree, hcollect, collect]

theorem shape_offends {pairs : List (String × Value)} {bad : Json} {after : List Json} {reason : String}
    (h : raw.tree = .array (pairs.map pairTree ++ bad :: after)) (hbad : Offends bad reason) :
    shape raw = .error (.malformedResponse reason) := by
  obtain ⟨docs, -, hcollect⟩ := holds_nil.read pairs (bad :: after)
  obtain ⟨f, hf, hreason⟩ := ofPair_of_offends hbad
  simp only [shape, h, ofTree, hcollect, collect, hf, hreason]

theorem shape_of_not_array (h : ∀ items, raw.tree ≠ .array items) :
    shape raw = .error
      (.malformedResponse s!"expected an array of [id, document] pairs, got {raw.tree.text}") := by
  cases htree : raw.tree with
  | array items => exact absurd htree (h items)
  | _ => simp only [shape, htree, ofTree, Fault.toError]

/-- Where a malformed answer is at fault. -/
inductive Malformed (raw : Value) : String → Prop
  | notArray (h : ∀ items, raw.tree ≠ .array items) :
      Malformed raw s!"expected an array of [id, document] pairs, got {raw.tree.text}"
  | item {pairs : List (String × Value)} {bad : Json} {after : List Json} {reason : String}
      (h : raw.tree = .array (pairs.map pairTree ++ bad :: after)) (hbad : Offends bad reason) :
      Malformed raw reason

theorem shape_malformed {reason : String} (h : Malformed raw reason) :
    shape raw = .error (.malformedResponse reason) := by
  cases h with
  | notArray h => exact shape_of_not_array h
  | item h hbad => exact shape_offends h hbad

theorem shape_cases (raw : Value) :
    (∃ docs pairs, raw.tree = .array (pairs.map pairTree) ∧ shape raw = .ok docs ∧ Holds docs pairs) ∨
      ∃ reason, Malformed raw reason ∧ shape raw = .error (.malformedResponse reason) := by
  have hmalformed : ∀ reason, Malformed raw reason →
      ∃ reason, Malformed raw reason ∧ shape raw = .error (.malformedResponse reason) :=
    fun reason h => ⟨reason, h, shape_malformed h⟩
  cases htree : raw.tree with
  | array items =>
    have hn : Json.NormalItems items := by
      have hnormal := raw.normal
      rwa [htree, Json.Normal] at hnormal
    rcases pairs_or_offends hn with ⟨pairs, rfl⟩ | ⟨pairs, bad, after, reason, rfl, hbad⟩
    · obtain ⟨docs, hdocs, hholds⟩ := shape_pairs htree
      exact .inl ⟨docs, pairs, rfl, hdocs, hholds⟩
    · exact .inr (hmalformed reason (.item htree hbad))
  | _ => exact .inr (hmalformed _ (.notArray fun items h => by rw [htree] at h; cases h))

theorem exists_shape : (∃ docs, shape raw = .ok docs) ↔
    ∃ items, raw.tree = .array items ∧ ∀ item ∈ items, IsPair item := by
  rcases shape_cases raw with ⟨docs, pairs, hpairs, hshape, -⟩ | ⟨reason, hbad, hshape⟩
  · exact iff_of_true ⟨docs, hshape⟩ ⟨_, hpairs, List.forall_mem_map.2 fun p _ => isPair_pairTree p⟩
  · refine iff_of_false (fun ⟨docs, hdocs⟩ => by rw [hshape] at hdocs; cases hdocs) ?_
    rintro ⟨items, hitems, hall⟩
    cases hbad with
    | notArray h => exact h items hitems
    | item h hbad =>
      rw [hitems, Json.array.injEq] at h
      exact not_isPair_of_offends hbad (hall _ (by simp [h]))

theorem holds_of_shape {docs : Documents} (h : shape raw = .ok docs) :
    ∃ pairs, raw.tree = .array (pairs.map pairTree) ∧ Holds docs pairs := by
  rcases shape_cases raw with ⟨docs', pairs, hpairs, hshape, hholds⟩ | ⟨reason, -, hshape⟩
  · cases h.symm.trans hshape
    exact ⟨pairs, hpairs, hholds⟩
  · cases h.symm.trans hshape

theorem shape_eq_error_iff {e : Error} :
    shape raw = .error e ↔ ∃ reason, e = .malformedResponse reason ∧ Malformed raw reason := by
  constructor
  · intro h
    rcases shape_cases raw with ⟨docs, pairs, -, hshape, -⟩ | ⟨reason, hbad, hshape⟩
    · cases h.symm.trans hshape
    · cases h.symm.trans hshape
      exact ⟨reason, rfl, hbad⟩
  · rintro ⟨reason, rfl, hbad⟩
    exact shape_malformed hbad

theorem shapeAllDocuments_eq_ok {o : Outcome Documents} :
    shapeAllDocuments raw false = .ok o ↔ ∃ docs, shape raw = .ok docs ∧ .final docs = o := by
  have hmode : Mode.ofFlag false = .normal := rfl
  simp only [shapeAllDocuments, hmode, Outcome.decode]
  cases shape raw <;> simp

theorem shapeAllDocuments_eq_error {e : Error} :
    shapeAllDocuments raw false = .error e ↔ shape raw = .error e := by
  have hmode : Mode.ofFlag false = .normal := rfl
  simp only [shapeAllDocuments, hmode, Outcome.decode]
  cases shape raw <;> simp

/-- The documents of a collection, as they are shaped. A trace is passed on. Otherwise the answer must
be an array of pairs alone, and then each id that occurs stands for the document of its last pair.
Any other answer is malformed, which is told of the answer itself if it is no array, and else of the
first item that is no pair; two answers with one such item are refused alike, whatever stands before
it and after. -/
theorem shapeAllDocuments_told (raw : Value) :
    shapeAllDocuments raw true = .ok (.trace raw) ∧
    ((∃ o, shapeAllDocuments raw false = .ok o) ↔
      ∃ items, raw.tree = .array items ∧ ∀ item ∈ items, IsPair item) ∧
    (∀ o, shapeAllDocuments raw false = .ok o → ∃ docs pairs,
      o = .final docs ∧ raw.tree = .array (pairs.map pairTree) ∧ Holds docs pairs) ∧
    (∀ e, shapeAllDocuments raw false = .error e ↔
      ∃ reason, e = .malformedResponse reason ∧ Malformed raw reason) ∧
    ∀ (raw' : Value) (pairs pairs' : List (String × Value)) (bad : Json) (after after' : List Json),
      raw.tree = .array (pairs.map pairTree ++ bad :: after) →
      raw'.tree = .array (pairs'.map pairTree ++ bad :: after') → ¬ IsPair bad →
      shapeAllDocuments raw' false = shapeAllDocuments raw false := by
  refine ⟨rfl, ?_, fun o ho => ?_, fun e => ?_, ?_⟩
  · rw [← exists_shape]
    simp only [shapeAllDocuments_eq_ok]
    exact ⟨fun ⟨_, docs, hdocs, _⟩ => ⟨docs, hdocs⟩, fun ⟨docs, hdocs⟩ => ⟨_, docs, hdocs, rfl⟩⟩
  · obtain ⟨docs, hdocs, rfl⟩ := shapeAllDocuments_eq_ok.1 ho
    obtain ⟨pairs, hpairs, hholds⟩ := holds_of_shape hdocs
    exact ⟨docs, pairs, rfl, hpairs, hholds⟩
  · rw [shapeAllDocuments_eq_error, shape_eq_error_iff]
  · intro raw' pairs pairs' bad after after' h h' hbad
    obtain ⟨reason, hreason⟩ := (isPair_or_offends bad).resolve_left hbad
    rw [shapeAllDocuments_eq_error.2 (shape_offends h hreason),
      shapeAllDocuments_eq_error.2 (shape_offends h' hreason)]

/-- One id twice, the second time with a pair for its document. -/
def repeated : Value := Value.ofTree (.array [.array [.string "a", .null],
  .array [.string "b", .bool true], .array [.string "a", .array [.string "x", .null]]])

/-- Two items that are no pairs, behind one that is. -/
def spoilt : Value :=
  Value.ofTree (.array [.array [.string "a", .null], .array [.null, .null], .string "b"])

theorem shapeAllDocuments_told_repeated :
    (∃ docs pairs, shapeAllDocuments repeated false = .ok (.final docs) ∧
      repeated.tree = .array (pairs.map pairTree) ∧ Holds docs pairs) ∧
    shapeAllDocuments spoilt false =
      .error (.malformedResponse "document id must be a string, got null") ∧
    shapeAllDocuments (Value.ofTree (.array [.array [.null, .null]])) false =
      shapeAllDocuments spoilt false := by
  obtain ⟨-, hok, hfinal, -, -⟩ := shapeAllDocuments_told repeated
  obtain ⟨-, -, -, herror, halone⟩ := shapeAllDocuments_told spoilt
  have hpairs : ∀ item ∈ [Json.array [.string "a", .null], .array [.string "b", .bool true],
      .array [.string "a", .array [.string "x", .null]]], IsPair item := by
    simp [IsPair]
  obtain ⟨o, ho⟩ := hok.2 ⟨_, rfl, hpairs⟩
  obtain ⟨docs, pairs, rfl, htree, hholds⟩ := hfinal o ho
  have hspoilt : spoilt.tree = .array ([("a", Value.null)].map pairTree ++
      .array [.null, .null] :: [.string "b"]) := by rfl
  have hid : Offends (.array [.null, .null]) "document id must be a string, got null" :=
    .idNotString nofun
  exact ⟨⟨docs, pairs, ho, htree, hholds⟩, (herror _).2 ⟨_, rfl, .item hspoilt hid⟩,
    halone _ _ [] _ _ [] hspoilt rfl (not_isPair_of_offends hid)⟩

end Documents

end DocQuery

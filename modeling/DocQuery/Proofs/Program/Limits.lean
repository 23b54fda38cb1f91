import DocQuery.Proofs.Program.Acceptance
import DocQuery.Proofs.Query

/-! # Limits are taken as given

A limit is handed to a query, converted from a value or decoded as part of an operation. All three ways
take the positive numbers and nothing else, and what they keep, and what is sent of it, is the number
they were given.
-/
namespace DocQuery

/-- Positive are the integers from one on and the doubles that are neither negative nor a zero. -/
theorem Json.Number.exact_pos_iff (n : Json.Number) : 0 < n.exact ↔
    match n with
    | .integer i _ _ => 1 ≤ i
    | .double d => d.negative = false ∧ (d.exponent.val ≠ 0 ∨ d.fraction.val ≠ 0) := by
  cases n with
  | integer i lower upper => exact Int.cast_pos
  | double d =>
    have hunit : 0 < Json.Layout.double.leadingBit := Json.Layout.leadingBit_pos _
    rw [Json.Number.exact, ← d.isPositive_iff]
    simp only [Json.Binary.isPositive, Json.Binary.isZero, Json.Binary.significand, Bool.and_eq_true,
      Bool.not_eq_true', beq_eq_false_iff_ne, ne_eq]
    split <;> rename_i hexponent
    · simp [hexponent]
    · simp only [hexponent, not_false_eq_true, true_or, and_true, and_iff_left_iff_imp]
      omega

namespace Limit

/-- A payload as the entry of a limit. -/
def entry (data : Json) : Json := .object [("op", .string "limit"), ("data", data)]

/-- The same entry with its payload in front. -/
def reversedEntry (data : Json) : Json := .object [("data", data), ("op", .string "limit")]

theorem normalize_entry (data : Json) : (entry data).normalize = reversedEntry data.normalize := by
  have hlt : "data" < "op" := by decide
  simp [entry, reversedEntry, Json.normalize, Json.normalizeMembers, Members.sort, Members.insert, hlt]

/-- A text holds the entry of a limit of a value, its members in either order. -/
def AskedIn (v : Value) (t : String) : Prop :=
  ∃ data, Value.ofTree data = v ∧
    (Json.parse t = .ok (entry data) ∨ Json.parse t = .ok (reversedEntry data))

end Limit

namespace Operation

theorem ofTree_entry {j data : Json} (hj : j = Limit.entry data ∨ j = Limit.reversedEntry data) :
    ofTree j = (Limit.ofTree data).map .limit := by
  have hkind : kindOfTree (.string "limit") = .ok .limit := by rfl
  have hkey : "data" ≠ "op" := by decide
  rcases hj with rfl | rfl <;>
    simp only [Limit.entry, Limit.reversedEntry, ofTree_object, Json.foldMembers, Draft.addTree, hkind,
      if_true, if_neg hkey, Except.map, ofPayload] <;>
    cases Limit.ofTree data <;>
    rfl

/-- An entry is decoded from a text as its payload is from its value. -/
theorem toOption_decodeText_limit {v : Value} {t : String} (h : Limit.AskedIn v t) :
    (Json.decodeText ofText t).toOption = ((Limit.ofTree v.tree).map Operation.limit).toOption := by
  obtain ⟨data, rfl, ht⟩ := h
  have hdata : ((Limit.ofTree data).map Operation.limit).toOption =
      ((Limit.ofTree data.normalize).map Operation.limit).toOption := by
    rw [Json.toOption_map, Json.toOption_map, Limit.ofTree_normalize]
  have hread : ∀ j, Json.parse t = .ok j →
      (Json.decodeText ofText t).toOption = (ofTree j).toOption :=
    fun j hj => Json.Agree.readAll hj (ofText_mirrors Json.depthLimit)
  rcases ht with ht | ht
  · rw [hread _ ht, ofTree_entry (.inl rfl), hdata, Value.tree_ofTree]
  · rw [hread _ ht, ofTree_entry (.inr rfl), hdata, Value.tree_ofTree]

end Operation

namespace Query

/-- The body of a query's request with one entry more. -/
def bodyWith (q : Query) (entry : Json) (mode : Mode) : Json :=
  .object [("action", .string "Monadic"),
    ("action_body", .object [("operations", .array (q.entries ++ [entry]))]),
    ("debug", .bool mode.isDebug)]

theorem tree_append_limit (q : Query) (l : Limit) (mode : Mode) :
    ((q.append (.limit l)).envelope mode).tree = q.bodyWith (Limit.entry l.tree) mode := by
  rw [tree_envelope, entries, append, Program.append, List.map_append]
  rfl

end Query

namespace Limit
variable {v : Value}

theorem ofValue_of_not_pos (h : ∀ n, v.tree = .number n → ¬ 0 < n.exact) :
    ofValue v = .error (refusal v.tree.text) := by
  unfold ofValue
  split
  · rename_i n hv
    rw [ofNumber, dif_neg (mt n.isPositive_iff.1 (h n hv)), hv]
    rfl
  · rfl

theorem exists_ofTree_error (h : ∀ n, v.tree = .number n → ¬ 0 < n.exact) :
    ∃ c, ofTree v.tree = .error c := by
  cases htree : ofTree v.tree with
  | error c => exact ⟨c, rfl⟩
  | ok l => exact absurd l.exact_pos (h _ (ofTree_eq_ok.1 htree))

/-- A positive number is taken by a query, by conversion and by decoding, and kept and sent as it is;
anything else is refused by all of them. -/
theorem taken_as_given (v : Value) :
    (∀ n : Json.Number, 0 < n.exact ↔
      match n with
      | .integer i _ _ => 1 ≤ i
      | .double d => d.negative = false ∧ (d.exponent.val ≠ 0 ∨ d.fraction.val ≠ 0)) ∧
    (∀ n, v.tree = .number n → 0 < n.exact → ∃ l : Limit, l.number = n ∧
      ofValue v = .ok l ∧
      Operation.ofTree (Value.ofTree (entry v.tree)).tree = .ok (.limit l) ∧
      (∀ t, AskedIn v t → Json.decodeText Operation.ofText t = .ok (.limit l)) ∧
      ∀ q : Query, q.add (.limit v) = .ok (q.append (.limit l)) ∧ ∀ mode,
        ((q.append (.limit l)).envelope mode).body =
          Value.ofTree (q.bodyWith (entry (.number n)) mode) ∧
        ((q.append (.limit l)).envelope mode).toHttp.body =
          (q.bodyWith (entry (.number n)) mode).text) ∧
    ((∀ n, v.tree = .number n → ¬ 0 < n.exact) →
      ofValue v = .error (refusal v.tree.text) ∧
      (∃ c, Operation.ofTree (Value.ofTree (entry v.tree)).tree = .error c) ∧
      (∀ t, AskedIn v t → ∃ f, Json.decodeText Operation.ofText t = .error f) ∧
      ∀ q : Query, q.add (.limit v) = .error (refusal v.tree.text)) := by
  have hentry : Operation.ofTree (Value.ofTree (entry v.tree)).tree =
      (Limit.ofTree v.tree).map .limit := by
    rw [Value.tree_ofTree, normalize_entry, Json.normalize_eq_self _ v.normal,
      Operation.ofTree_entry (.inr rfl)]
  refine ⟨Json.Number.exact_pos_iff, fun n hv hn => ?_, fun h => ?_⟩
  · let l : Limit := ⟨n, n.isPositive_iff.2 hn⟩
    have hvalue : ofValue v = .ok l := ofValue_eq_ok.2 hv
    have htree : Limit.ofTree v.tree = .ok l := ofTree_eq_ok.2 hv
    refine ⟨l, rfl, hvalue, by rw [hentry, htree]; rfl, fun t ht => ?_, fun q => ⟨?_, fun mode => ?_⟩⟩
    · rw [← toOption_eq_some, Operation.toOption_decodeText_limit ht, htree]
      rfl
    · simp only [Query.add, Clause.operation, hvalue]
    · have hsent := q.tree_append_limit l mode
      exact ⟨congrArg Value.ofTree hsent, congrArg Json.text hsent⟩
  · have hvalue := ofValue_of_not_pos h
    obtain ⟨c, hc⟩ := exists_ofTree_error h
    refine ⟨hvalue, ⟨c, by rw [hentry, hc]; rfl⟩, fun t ht => ?_, fun q => ?_⟩
    · have hnone := Operation.toOption_decodeText_limit ht
      rw [hc] at hnone
      cases hread : Json.decodeText Operation.ofText t with
      | error f => exact ⟨f, rfl⟩
      | ok op =>
        rw [hread] at hnone
        cases hnone
    · simp only [Query.add, Clause.operation, hvalue]

/-- An integer that no double is equal to. -/
def oddInteger : Json.Number := .integer 9007199254740993 (by decide) (by decide)

def leastDouble : Json.Number :=
  .double ⟨false, ⟨0, Nat.zero_lt_succ 2046⟩, ⟨1, by decide⟩⟩

/-- The entry of that integer as a text, its members the other way round. -/
def oddText : String := "\x7b\"data\":9007199254740993,\"op\":\"limit\"\x7d"

theorem taken_as_given_extremes :
    (∃ l : Limit, l.number = oddInteger ∧
      ofValue (Value.ofTree (.number oddInteger)) = .ok l ∧
      Json.decodeText Operation.ofText oddText = .ok (.limit l) ∧
      (((Query.start Session.users).append (.limit l)).envelope .normal).toHttp.body =
        "\x7b\"action\":\"Monadic\",\"action_body\":\x7b\"operations\":" ++
        "[\x7b\"op\":\"limit\",\"data\":9007199254740993\x7d]\x7d,\"debug\":false\x7d") ∧
    (∃ l : Limit, l.number = leastDouble ∧ ofValue (Value.ofTree (.number leastDouble)) = .ok l) ∧
    ofValue (Value.ofTree (.number (.double (Json.Double.zero true)))) = .error (refusal "-0.0") := by
  have hodd : 0 < oddInteger.exact :=
    oddInteger.exact_pos_iff.2 (show (1 : Int) ≤ 9007199254740993 by decide)
  have hleast : 0 < leastDouble.exact :=
    leastDouble.exact_pos_iff.2 ⟨rfl, .inr Nat.one_ne_zero⟩
  have hzero : ∀ n, (Value.ofTree (.number (.double (Json.Double.zero true)))).tree = .number n →
      ¬ 0 < n.exact := by
    rintro n ⟨⟩
    rw [Json.Number.exact_pos_iff]
    decide
  have hparse : Json.parse oddText = .ok (reversedEntry (.number oddInteger)) :=
    toOption_eq_some.1 (by decide +kernel)
  have htext : (Json.number (.double (Json.Double.zero true))).text = "-0.0" := by decide +kernel
  obtain ⟨-, htaken, -⟩ := taken_as_given (Value.ofTree (.number oddInteger))
  obtain ⟨l, hl, hvalue, -, hread, hquery⟩ := htaken oddInteger rfl hodd
  obtain ⟨-, htaken', -⟩ := taken_as_given (Value.ofTree (.number leastDouble))
  obtain ⟨l', hl', hvalue', -⟩ := htaken' leastDouble rfl hleast
  obtain ⟨-, -, hrefused⟩ := taken_as_given (Value.ofTree (.number (.double (Json.Double.zero true))))
  refine ⟨⟨l, hl, hvalue, hread _ ⟨_, rfl, .inr hparse⟩, ?_⟩, ⟨l', hl', hvalue'⟩, ?_⟩
  · rw [((hquery (Query.start Session.users)).2 .normal).2]
    decide +kernel
  · rw [← htext]
    exact (hrefused hzero).1

end Limit

end DocQuery

import DocQuery.Proofs.Chain.Tokens
import DocQuery.Proofs.Session.Requests

/-! # What a chain of builder calls means

Each call makes an entry in the program or fails, by its arguments alone. A chain of calls, in which
those that fail are passed over, makes the program of the entries in order.
-/
namespace DocQuery

namespace Chain

instance (w : List Char) : Decidable (w ∈ multi) :=
  decidable_of_iff ((∀ p ∈ pieces w, isIdentChars p = true) ∧ 2 ≤ (pieces w).length)
    (by simp only [mem_multi, mem_single, mem_identifier])

def suffix (s : String) : Json := .array ((pieceStrings s).tail.map .string)

end Chain

namespace Clause

/-- The entry a call makes, or its error; a comparison is checked from its path to its value. -/
def verdict : Clause → Except Error Json
  | mapAttrs chain =>
    if chain.toList ∈ Chain.multi then
      .ok (.object [("op", .string "mapAttrs"), ("data", Chain.suffix chain)])
    else .error (Chain.Fault.notPath chain).toError
  | filter chain comparator value =>
    if chain.toList ∉ Chain.multi then .error (Chain.Fault.notPath chain).toError
    else if comparator ∉ ["==", "<", "<=", ">", ">="] then
      .error (.unknownComparator s!"the valid comparators are ==, <, <=, >, >=; got `{comparator}`")
    else match value.toValue with
    | .error cause => .error (.serialization cause.message)
    | .ok v => .ok (.object [("op", .string "where"), ("data", .object
        [("attrs", Chain.suffix chain), ("cmp", .string comparator), ("val", v.tree)])])
  | limit n => match n.tree with
    | .number x =>
      if 0 < x.exact then .ok (.object [("op", .string "limit"), ("data", .number x)])
      else .error (Limit.refusal x.text)
    | j => .error (Limit.refusal j.text)
  | mapIds collection =>
    .ok (.object [("op", .string "mapIDToCollection"), ("data", .string collection.name)])
  | flatten => .ok (.object [("op", .string "flatMapArr")])
  | withId => .ok (.object [("op", .string "withID")])

def entry? (clause : Clause) : Option Json := clause.verdict.toOption

def request (clauses : List Clause) (mode : Mode) : Json :=
  .object [("action", .string "Monadic"),
    ("action_body", .object [("operations", .array (clauses.filterMap entry?))]),
    ("debug", .bool mode.isDebug)]

end Clause

namespace Chain

theorem exists_parsePath_of_mem {s : String} (hs : s.toList ∈ multi) :
    ∃ c, parsePath s = .ok c ∧ c.tree = suffix s := by
  obtain ⟨c, hc⟩ := exists_parsePath.2 hs
  exact ⟨c, hc, by rw [tree, suffix, (parsePath_eq_ok.1 hc).2]⟩

end Chain

namespace Comparator

theorem parse_of_not_mem {s : String} (hs : s ∉ tokens) :
    parse s = .error (.unknownComparator s!"the valid comparators are ==, <, <=, >, >=; got `{s}`") := by
  have hnone : ofToken? s = none := by
    rw [ofToken?, List.find?_eq_none]
    intro c hc hcs
    exact hs (List.mem_map.2 ⟨c, hc, of_decide_eq_true hcs⟩)
  rw [parse, hnone]

theorem exists_parse_of_mem {s : String} (hs : s ∈ tokens) : ∃ c, parse s = .ok c ∧ c.token = s := by
  obtain ⟨c, -, rfl⟩ := List.mem_map.1 hs
  exact ⟨c, by rw [parse, ofToken?_token], rfl⟩

end Comparator

namespace Clause

theorem path_of_not_mem {chain : String} (hs : chain.toList ∉ Chain.multi) :
    path chain = .error (Chain.Fault.notPath chain).toError := by
  rw [path, Chain.parsePath_of_not_mem hs]

theorem exists_path_of_mem {chain : String} (hs : chain.toList ∈ Chain.multi) :
    ∃ p, path chain = .ok p ∧ p.tree = Chain.suffix chain := by
  obtain ⟨p, hp, htree⟩ := Chain.exists_parsePath_of_mem hs
  exact ⟨p, by rw [path, hp], htree⟩

theorem operation_tree (clause : Clause) : clause.operation.map (·.tree) = clause.verdict := by
  cases clause with
  | mapAttrs chain =>
    by_cases hchain : chain.toList ∈ Chain.multi
    · obtain ⟨p, hp, htree⟩ := exists_path_of_mem hchain
      simp only [operation, hp, verdict, if_pos hchain, ← htree]
      rfl
    · simp only [operation, path_of_not_mem hchain, verdict, if_neg hchain]
      rfl
  | filter chain comparator value =>
    by_cases hchain : chain.toList ∈ Chain.multi
    · obtain ⟨p, hp, htree⟩ := exists_path_of_mem hchain
      by_cases hcomparator : comparator ∈ Comparator.tokens
      · obtain ⟨c, hc, rfl⟩ := Comparator.exists_parse_of_mem hcomparator
        have hlisted : c.token ∈ ["==", "<", "<=", ">", ">="] := hcomparator
        simp only [operation, hp, hc, verdict, not_not.2 hchain, not_not.2 hlisted, if_false, ← htree]
        cases value.toValue <;> rfl
      · have hlisted : comparator ∉ ["==", "<", "<=", ">", ">="] := hcomparator
        simp only [operation, hp, Comparator.parse_of_not_mem hcomparator, verdict, not_not.2 hchain,
          hlisted, if_false, not_false_eq_true, if_true]
        rfl
    · simp only [operation, path_of_not_mem hchain, verdict, hchain, not_false_eq_true, if_true]
      rfl
  | limit n =>
    simp only [operation, Limit.ofValue, verdict]
    cases n.tree with
    | number x =>
      by_cases hx : 0 < x.exact
      · simp only [Limit.ofNumber, dif_pos (x.isPositive_iff.2 hx), if_pos hx]
        rfl
      · simp only [Limit.ofNumber, dif_neg (mt x.isPositive_iff.1 hx), if_neg hx]
        rfl
    | _ => rfl
  | mapIds collection => rfl
  | flatten => rfl
  | withId => rfl

theorem verdict_filter (chain comparator : String) (value : Source) :
    ((∃ reason, (filter chain comparator value).verdict = .error (.malformedChain reason)) ↔
      chain.toList ∉ Chain.multi) ∧
    ((∃ reason, (filter chain comparator value).verdict = .error (.unknownComparator reason)) ↔
      chain.toList ∈ Chain.multi ∧ comparator ∉ ["==", "<", "<=", ">", ">="]) ∧
    ((∃ reason, (filter chain comparator value).verdict = .error (.serialization reason)) ↔
      chain.toList ∈ Chain.multi ∧ comparator ∈ ["==", "<", "<=", ">", ">="] ∧
        ∃ cause, value.toValue = .error cause) := by
  rw [verdict]
  by_cases hchain : chain.toList ∈ Chain.multi
  · rw [if_neg (not_not.2 hchain)]
    by_cases hcomparator : comparator ∈ ["==", "<", "<=", ">", ">="]
    · rw [if_neg (not_not.2 hcomparator)]
      cases value.toValue <;> simp [hchain, hcomparator]
    · simp [hchain, hcomparator]
  · simp [hchain, Chain.Fault.toError]

end Clause

namespace Query

/-- The query a call leaves: what it gives, or the query it was made on if it fails. -/
def take (q : Query) (clause : Clause) : Query :=
  match q.add clause with
  | .ok q' => q'
  | .error _ => q

def extend (q : Query) (clauses : List Clause) : Query := clauses.foldl take q

/-- The entries of the program. -/
def entries (q : Query) : List Json := q.program.operations.map (·.tree)

theorem add_eq_error {q : Query} {clause : Clause} {e : Error} :
    q.add clause = .error e ↔ clause.verdict = .error e := by
  rw [add, ← clause.operation_tree]
  cases clause.operation <;> simp [Except.map]

theorem exists_add_of_verdict (q : Query) {clause : Clause} {entry : Json}
    (h : clause.verdict = .ok entry) :
    ∃ q', q.add clause = .ok q' ∧ q'.target = q.target ∧ q'.entries = q.entries ++ [entry] := by
  rw [← clause.operation_tree] at h
  rw [add]
  cases hop : clause.operation with
  | error e =>
    rw [hop] at h
    cases h
  | ok op =>
    rw [hop] at h
    cases h
    exact ⟨q.append op, rfl, rfl, List.map_append⟩

theorem take_entries (q : Query) (clause : Clause) :
    (q.take clause).target = q.target ∧ (q.take clause).entries = q.entries ++ clause.entry?.toList := by
  cases h : clause.verdict with
  | error e =>
    have hentry : clause.entry? = none := by rw [Clause.entry?, h]; rfl
    simp [take, add_eq_error.2 h, hentry]
  | ok entry =>
    have hentry : clause.entry? = some entry := by rw [Clause.entry?, h]; rfl
    obtain ⟨q', hadd, htarget, hentries⟩ := q.exists_add_of_verdict h
    simp only [take, hadd, hentry]
    exact ⟨htarget, hentries⟩

/-- Induction on the calls: the target stays, and the entries made are those before them and theirs. -/
theorem extend_entries (q : Query) (clauses : List Clause) :
    (q.extend clauses).target = q.target ∧
      (q.extend clauses).entries = q.entries ++ clauses.filterMap Clause.entry? := by
  induction clauses generalizing q with
  | nil => simp [extend]
  | cons clause clauses ih =>
    obtain ⟨htarget, hentries⟩ := q.take_entries clause
    obtain ⟨htargets, hrest⟩ := ih (q.take clause)
    refine ⟨htargets.trans htarget, ?_⟩
    have hcons : q.extend (clause :: clauses) = (q.take clause).extend clauses := rfl
    rw [hcons, hrest, hentries, List.append_assoc, List.filterMap_cons]
    cases clause.entry? <;> rfl

theorem tree_envelope (q : Query) (mode : Mode) :
    (q.envelope mode).tree = .object [("action", .string "Monadic"),
      ("action_body", .object [("operations", .array q.entries)]), ("debug", .bool mode.isDebug)] :=
  rfl

end Query

namespace Session
variable {s : Session} {name : String} {q : Query}

/-- Calls made one after another on the query of a name, each of which stores what it gives there. -/
def chain (s : Session) (name : String) (clauses : List Clause) : Session :=
  clauses.foldl (fun s clause => (s.build name clause (some name)).session) s

theorem query?_store (s : Session) (name : String) (q : Query) :
    (s.store (some name) (.query q)).query? name = some q := by
  simp [query?, handle?, store, Members.find?]

theorem build_take (hq : s.query? name = some q) (clause : Clause) :
    (s.build name clause (some name)).session.query? name = some (q.take clause) := by
  simp only [build, hq, withHandle, Query.take, Query.add]
  cases clause.operation with
  | error e => exact hq
  | ok op => exact s.query?_store name (q.append op)

theorem chain_extend (hq : s.query? name = some q) (clauses : List Clause) :
    (s.chain name clauses).query? name = some (q.extend clauses) := by
  induction clauses generalizing s q with
  | nil => exact hq
  | cons clause clauses ih => exact ih (build_take hq clause)

theorem build_reply (hq : s.query? name = some q) (clause : Clause) (out : Option String) (e : Error) :
    (s.build name clause out).reply = .error (.failed e) ↔ clause.verdict = .error e := by
  simp only [build, hq, withHandle, ← clause.operation_tree]
  cases clause.operation <;> simp [refuse, Except.map]

end Session

namespace Query

/-- Calls on a new query of a collection. Whether one is accepted and how it fails is told by its
arguments, whatever the calls before it; a comparison fails first for its path, then for its comparator,
then for its value. The query left in the end is for the collection and sends the entries of the accepted
calls, in order; and it is the one a session keeps that makes the calls on the query of a name. -/
theorem extend_start (c : Collection) (clauses : List Clause) :
    (∀ (q : Query) (clause : Clause),
      (∀ e, q.add clause = .error e ↔ clause.verdict = .error e) ∧
      ((∃ q', q.add clause = .ok q') ↔ ∃ entry, clause.verdict = .ok entry)) ∧
    (∀ (q : Query) (chain comparator : String) (value : Source),
      ((∃ reason, q.add (.filter chain comparator value) = .error (.malformedChain reason)) ↔
        chain.toList ∉ Chain.multi) ∧
      ((∃ reason, q.add (.filter chain comparator value) = .error (.unknownComparator reason)) ↔
        chain.toList ∈ Chain.multi ∧ comparator ∉ ["==", "<", "<=", ">", ">="]) ∧
      ((∃ reason, q.add (.filter chain comparator value) = .error (.serialization reason)) ↔
        chain.toList ∈ Chain.multi ∧ comparator ∈ ["==", "<", "<=", ">", ">="] ∧
          ∃ cause, value.toValue = .error cause)) ∧
    ((start c).extend clauses).target = c.target ∧
    (∀ mode,
      (((start c).extend clauses).envelope mode).toHttp.body = (Clause.request clauses mode).text ∧
      (((start c).extend clauses).envelope mode).body = Value.ofTree (Clause.request clauses mode)) ∧
    (∀ (s : Session) (name : String), s.query? name = some (start c) →
      (s.chain name clauses).query? name = some ((start c).extend clauses) ∧
      ∀ clause out e, ((s.chain name clauses).build name clause out).reply = .error (.failed e) ↔
        clause.verdict = .error e) := by
  obtain ⟨htarget, hentries⟩ := (start c).extend_entries clauses
  refine ⟨fun q clause => ⟨fun e => add_eq_error, ?_⟩, ?_, htarget, fun mode => ?_, ?_⟩
  · constructor
    · rintro ⟨q', hq'⟩
      cases h : clause.verdict with
      | error e => rw [add_eq_error.2 h] at hq'; cases hq'
      | ok entry => exact ⟨entry, rfl⟩
    · rintro ⟨entry, h⟩
      obtain ⟨q', hadd, -⟩ := q.exists_add_of_verdict h
      exact ⟨q', hadd⟩
  · intro q chain comparator value
    simp only [add_eq_error]
    exact Clause.verdict_filter chain comparator value
  · have htree : (((start c).extend clauses).envelope mode).tree = Clause.request clauses mode := by
      rw [tree_envelope, hentries]
      rfl
    exact ⟨congrArg Json.text htree, congrArg Value.ofTree htree⟩
  · intro s name hq
    have hchain := Session.chain_extend hq clauses
    exact ⟨hchain, fun clause out e => Session.build_reply hchain clause out e⟩

/-- Six calls that are accepted and five that fail, two of them for more than one argument. -/
def partlyRefused : List Clause := [.mapAttrs "doc.a.b", .mapAttrs "doc",
  .filter "doc" "=>" (.failure "no"), .filter "doc.a" "=>" (.failure "no"),
  .filter "doc.a" "<=" (.failure "no"), .filter "doc.a" "<=" (.string "x"), .limit Value.null,
  .limit (Value.ofTree (.number (.ofFin (3 : Fin 4)))), .mapIds Session.users, .flatten, .withId]

theorem extend_start_partly_refused :
    (Session.opened.after [.collection "users" (some "u"), .start "u" (some "q")]).query? "q" =
        some (start Session.users) ∧
      (((Session.opened.after [.collection "users" (some "u"), .start "u" (some "q")]).chain "q"
          partlyRefused).query? "q").map (fun q => (q.target, (q.envelope .debug).toHttp.body)) =
        some (Session.users.target, (Clause.request partlyRefused .debug).text) ∧
      partlyRefused.filterMap Clause.entry? = [
        .object [("op", .string "mapAttrs"), ("data", .array [.string "a", .string "b"])],
        .object [("op", .string "where"), ("data", .object
          [("attrs", .array [.string "a"]), ("cmp", .string "<="), ("val", .string "x")])],
        .object [("op", .string "limit"), ("data", .number (.ofFin (3 : Fin 4)))],
        .object [("op", .string "mapIDToCollection"), ("data", .string "users")],
        .object [("op", .string "flatMapArr")], .object [("op", .string "withID")]] := by
  have hq : (Session.opened.after [.collection "users" (some "u"), .start "u" (some "q")]).query? "q" =
      some (start Session.users) := by rfl
  obtain ⟨-, -, htarget, hsent, hsession⟩ := extend_start Session.users partlyRefused
  refine ⟨hq, ?_, ?_⟩
  · rw [(hsession _ "q" hq).1, Option.map_some, htarget, (hsent .debug).1]
  · have hentry : Clause.entry? = fun clause => (clause.operation.map (·.tree)).toOption := by
      funext clause
      rw [Clause.operation_tree, Clause.entry?]
    rw [hentry]
    rfl

end Query

end DocQuery

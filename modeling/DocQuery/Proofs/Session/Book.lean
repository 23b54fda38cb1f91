import DocQuery.Proofs.Json.Members
import DocQuery.Session

/-! # The book of a run

What the handles of a session are for follows from its connection and the calls alone. The book
keeps it by name; a transport, its holders and its answers have no part in it.
-/
namespace DocQuery

inductive Purpose where
  | listing
  | creation (name : String)
  | document (c : Collection) (id : String)
  | documents (c : Collection)
  | insertion (c : Collection) (data : Value)
  | replacement (c : Collection) (id : String) (data : Value)
  | query (c : Collection) (operations : List Operation)

namespace Purpose

/-- The collection it is about; the listing and a creation are about the database. -/
def collection? : Purpose → Option Collection
  | listing | creation _ => none
  | document c _ | documents c | insertion c _ | replacement c _ _ | query c _ => some c

def target (conn : Connection) (p : Purpose) : Target :=
  match p.collection? with
  | none => conn.target
  | some c => c.target

def action : Purpose → Action
  | listing => .collectionList
  | creation name => .collectionCreate name
  | document _ id => .document id
  | documents _ => .allDocuments
  | insertion _ data => .insert data
  | replacement _ id data => .update id data
  | query _ operations => .program ⟨operations⟩

/-- The mode is sent along by queries and reads of documents only. -/
def debug (mode : Mode) : Purpose → Bool
  | document _ _ | documents _ | query _ _ => mode.isDebug
  | listing | creation _ | insertion _ _ | replacement _ _ _ => false

def envelope (conn : Connection) (mode : Mode) (p : Purpose) : Envelope :=
  ⟨p.target conn, p.action, p.debug mode⟩

def pending (conn : Connection) : Purpose → Pending
  | listing => .collectionList conn.target
  | creation name => .collectionCreate conn.target name
  | document c id => .document c.target id
  | documents c => .allDocuments c.target
  | insertion c data => .insert c.target data
  | replacement c id data => .update c.target id data
  | query c operations => .query ⟨c.target, ⟨operations⟩⟩

theorem envelope_pending (conn : Connection) (mode : Mode) (p : Purpose) :
    (p.pending conn).envelope mode = p.envelope conn mode := by
  cases p <;> rfl

end Purpose

inductive Entry where
  | collection (c : Collection)
  | request (p : Purpose)

namespace Entry

def handle (conn : Connection) : Entry → Handle
  | collection c => .collection c
  | request p => match p.pending conn with
    | .query q => .query q
    | p => .pending p

def collection? : Entry → Option Collection
  | collection c => some c
  | request p => p.collection?

end Entry

/-- The newest of a name stands first. -/
abbrev Book := List (String × Entry)

namespace Book

def collection? (b : Book) (name : String) : Option Collection :=
  match Members.find? name b with
  | some (.collection c) => some c
  | _ => none

def purpose? (b : Book) (name : String) : Option Purpose :=
  match Members.find? name b with
  | some (.request p) => some p
  | _ => none

def query? (b : Book) (name : String) : Option (Collection × List Operation) :=
  match b.purpose? name with
  | some (.query c operations) => some (c, operations)
  | _ => none

/-- The query of a name with one more operation, if its arguments are accepted. -/
def extended? (b : Book) (name : String) (clause : Clause) : Option Entry :=
  match b.query? name, clause.operation with
  | some (c, operations), .ok op => some (.request (.query c (operations ++ [op])))
  | _, _ => none

/-- What an accepted call gives a handle for. -/
def made? (conn : Connection) (b : Book) : Call → Option Entry
  | .collection name _ => (conn.collection name).toOption.map .collection
  | .list _ => some (.request .listing)
  | .create name _ => if name.isEmpty then none else some (.request (.creation name))
  | .document c id _ => (b.collection? c).bind fun c =>
    if id.isEmpty then none else some (.request (.document c id))
  | .all c _ => (b.collection? c).map fun c => .request (.documents c)
  | .insert c data _ => (b.collection? c).bind fun c =>
    data.toValue.toOption.map fun v => .request (.insertion c v)
  | .update c id data _ => (b.collection? c).bind fun c =>
    if id.isEmpty then none
    else data.toValue.toOption.map fun v => .request (.replacement c id v)
  | .start c _ => (b.collection? c).map fun c => .request (.query c [])
  | .mapAttrs q chain _ => b.extended? q (.mapAttrs chain)
  | .filter q chain comparator value _ => b.extended? q (.filter chain comparator value)
  | .limit q n _ => b.extended? q (.limit n)
  | .mapIds q c _ => (b.collection? c).bind fun c => b.extended? q (.mapIds c)
  | .flatten q _ => b.extended? q .flatten
  | .withId q _ => b.extended? q .withId
  | .copy q _ => (b.query? q).map fun (c, operations) => .request (.query c operations)
  | _ => none

end Book

def Call.out? : Call → Option String
  | .collection _ out | .list out | .create _ out | .document _ _ out | .all _ out
  | .insert _ _ out | .update _ _ _ out | .start _ out | .mapAttrs _ _ out | .filter _ _ _ _ out
  | .limit _ _ out | .mapIds _ _ out | .flatten _ out | .withId _ out | .copy _ out => out
  | _ => none

def Call.isScripting : Call → Bool
  | .enqueue _ => true
  | _ => false

theorem Call.exists_of_isScripting {c : Call} (h : c.isScripting = true) :
    ∃ answer, c = .enqueue answer := by
  cases c with
  | enqueue answer => exact ⟨answer, rfl⟩
  | _ => cases h

namespace Book

def put (b : Book) (out : Option String) (e : Entry) : Book :=
  match out with
  | none => b
  | some name => (name, e) :: b

def next (conn : Connection) (b : Book) (c : Call) : Book :=
  match b.made? conn c with
  | none => b
  | some e => b.put c.out? e

def after (conn : Connection) (b : Book) : List Call → Book
  | [] => b
  | c :: cs => (b.next conn c).after conn cs

/-- The request a terminal call is made for, in the mode it is made in. -/
def terminal? (b : Book) : Call → Option (Purpose × Mode)
  | .dispatch q mode => (b.query? q).map fun (c, operations) => (.query c operations, mode)
  | .send h mode => (b.purpose? h).map fun p => (p, mode)
  | _ => none

/-- The terminal calls of a run, in order. -/
def terminals (conn : Connection) (b : Book) : List Call → List (Purpose × Mode)
  | [] => []
  | c :: cs => (b.terminal? c).toList ++ (b.next conn c).terminals conn cs

theorem terminals_filter (conn : Connection) (b : Book) (cs : List Call) :
    b.terminals conn (cs.filter fun c => !c.isScripting) = b.terminals conn cs := by
  induction cs generalizing b with
  | nil => rfl
  | cons c cs ih =>
    cases hc : c.isScripting with
    | false => simp [hc, terminals, ih]
    | true =>
      obtain ⟨answer, rfl⟩ := Call.exists_of_isScripting hc
      simpa [hc, terminals, terminal?, next, made?] using ih b

theorem next_of_terminal {conn : Connection} {b : Book} {c : Call} {t : Purpose × Mode}
    (h : b.terminal? c = some t) : b.next conn c = b := by
  cases c with
  | dispatch q mode => rfl
  | send name mode => rfl
  | _ => cases h

end Book

/-- The collection of an entry is the one the connection gives out under its name. -/
def Entry.Sound (conn : Connection) (e : Entry) : Prop :=
  ∀ c ∈ e.collection?, conn.collection c.name = .ok c

theorem Connection.collection_name {conn : Connection} {name : String} {c : Collection}
    (h : conn.collection name = .ok c) : c.name = name := by
  unfold collection at h
  split at h
  · cases h
  · split at h <;> cases h
    rfl

namespace Book
variable {conn : Connection} {b : Book}

def Sound (conn : Connection) (b : Book) : Prop := ∀ m ∈ b, m.2.Sound conn

namespace Sound

theorem collection? (h : b.Sound conn) {name : String} {c : Collection}
    (hc : b.collection? name = some c) : conn.collection c.name = .ok c := by
  unfold Book.collection? at hc
  split at hc
  · rename_i c' hm
    cases hc
    exact h _ (Members.mem_of_find? hm) c rfl
  · cases hc

theorem purpose? (h : b.Sound conn) {name : String} {p : Purpose}
    (hp : b.purpose? name = some p) : (Entry.request p).Sound conn := by
  unfold Book.purpose? at hp
  split at hp
  · rename_i p' hm
    cases hp
    exact h _ (Members.mem_of_find? hm)
  · cases hp

theorem query? (h : b.Sound conn) {name : String} {c : Collection} {operations : List Operation}
    (hq : b.query? name = some (c, operations)) : conn.collection c.name = .ok c := by
  unfold Book.query? at hq
  split at hq
  · rename_i c' operations' hp
    cases hq
    exact h.purpose? hp c rfl
  · cases hq

theorem extended? (h : b.Sound conn) {name : String} {clause : Clause} {e : Entry}
    (he : b.extended? name clause = some e) : e.Sound conn := by
  unfold Book.extended? at he
  split at he
  · rename_i c operations op hq hop
    cases he
    rintro _ ⟨⟩
    exact h.query? hq
  · cases he

theorem made? (h : b.Sound conn) {c : Call} {e : Entry} (he : b.made? conn c = some e) :
    e.Sound conn := by
  -- Purposes about a collection are made from one that was looked up.
  have hlookup : ∀ {name : String} {f : Collection → Option Entry},
      (∀ c e, f c = some e → e.collection? = some c) →
      (b.collection? name).bind f = some e → e.Sound conn := by
    intro name f hf hbind
    obtain ⟨c, hc, hfc⟩ := Option.bind_eq_some_iff.1 hbind
    rw [Entry.Sound, hf c e hfc]
    rintro _ ⟨⟩
    exact h.collection? hc
  cases c with
  | collection name out =>
    obtain ⟨c, hc, rfl⟩ := Option.map_eq_some_iff.1 he
    have hok : conn.collection name = .ok c := by
      cases hcoll : conn.collection name with
      | error f => simp [hcoll, Except.toOption] at hc
      | ok c' => simpa [hcoll, Except.toOption] using hc
    rintro _ ⟨⟩
    rwa [Connection.collection_name hok]
  | list out => cases he; rintro _ ⟨⟩
  | create name out =>
    simp only [Book.made?] at he
    split at he
    · cases he
    · cases he; rintro _ ⟨⟩
  | document c id out =>
    refine hlookup (fun c e hce => ?_) he
    split at hce <;> cases hce
    rfl
  | all c out =>
    obtain ⟨c, hc, rfl⟩ := Option.map_eq_some_iff.1 he
    rintro _ ⟨⟩
    exact h.collection? hc
  | insert c data out =>
    refine hlookup (fun c e hce => ?_) he
    obtain ⟨v, -, rfl⟩ := Option.map_eq_some_iff.1 hce
    rfl
  | update c id data out =>
    refine hlookup (fun c e hce => ?_) he
    split at hce
    · cases hce
    · obtain ⟨v, -, rfl⟩ := Option.map_eq_some_iff.1 hce
      rfl
  | start c out =>
    obtain ⟨c, hc, rfl⟩ := Option.map_eq_some_iff.1 he
    rintro _ ⟨⟩
    exact h.collection? hc
  | mapIds q c out =>
    obtain ⟨c, -, hext⟩ := Option.bind_eq_some_iff.1 he
    exact h.extended? hext
  | mapAttrs q chain out => exact h.extended? he
  | filter q chain comparator value out => exact h.extended? he
  | limit q n out => exact h.extended? he
  | flatten q out => exact h.extended? he
  | withId q out => exact h.extended? he
  | copy q out =>
    obtain ⟨⟨c, operations⟩, hq, rfl⟩ := Option.map_eq_some_iff.1 he
    rintro _ ⟨⟩
    exact h.query? hq
  | _ => cases he

theorem put (h : b.Sound conn) (out : Option String) {e : Entry} (he : e.Sound conn) :
    (b.put out e).Sound conn := by
  cases out with
  | none => exact h
  | some name =>
    intro m hm
    rcases List.mem_cons.1 hm with rfl | hm
    · exact he
    · exact h m hm

theorem next (h : b.Sound conn) (c : Call) : (b.next conn c).Sound conn := by
  unfold Book.next
  cases he : b.made? conn c with
  | none => exact h
  | some e => exact h.put c.out? (h.made? he)

theorem terminal? (h : b.Sound conn) {c : Call} {t : Purpose × Mode} (ht : b.terminal? c = some t) :
    (Entry.request t.1).Sound conn := by
  cases c with
  | dispatch q mode =>
    obtain ⟨⟨c, operations⟩, hq, rfl⟩ := Option.map_eq_some_iff.1 ht
    rintro _ ⟨⟩
    exact h.query? hq
  | send name mode =>
    obtain ⟨p, hp, rfl⟩ := Option.map_eq_some_iff.1 ht
    exact h.purpose? hp
  | _ => cases ht

end Sound

theorem terminals_sound (h : b.Sound conn) (cs : List Call) :
    ∀ t ∈ b.terminals conn cs, ∀ c ∈ t.1.collection?, conn.collection c.name = .ok c := by
  induction cs generalizing b with
  | nil => intro t ht; cases ht
  | cons c cs ih =>
    intro t ht
    rcases List.mem_append.1 ht with ht | ht
    · exact h.terminal? (Option.mem_toList.1 ht)
    · exact ih (h.next c) t ht

end Book

end DocQuery

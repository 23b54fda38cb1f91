import DocQuery.Proofs.Connection.Place
import DocQuery.Proofs.Query
import DocQuery.Proofs.Url.Names

/-! # Which collections share an address

The name of a collection is not in the requests that are made from it: only their address tells them
apart from those of another collection. Names are put into the address as they are, so two of them share
it just if they are read alike.
-/
namespace DocQuery

inductive Ask where
  | document (id : String)
  | allDocuments
  | insert (data : Source)
  | update (id : String) (data : Source)
  | program (clauses : List Clause)

/-- The calls on a new query are accepted alike for all collections, and so it has one program. -/
theorem Query.extend_moved (c c' : Collection) (h : c.target.credential = c'.target.credential)
    (clauses : List Clause) (mode : Mode) :
    (((start c').extend clauses).envelope mode).toHttp =
      { (((start c).extend clauses).envelope mode).toHttp with url := c'.target.url } := by
  obtain ⟨htarget, hentries⟩ := (start c).extend_entries clauses
  obtain ⟨htarget', hentries'⟩ := (start c').extend_entries clauses
  have htree : (((start c').extend clauses).envelope mode).tree =
      (((start c).extend clauses).envelope mode).tree := by
    rw [tree_envelope, tree_envelope, hentries, hentries']
    rfl
  have hurl : (((start c').extend clauses).envelope mode).target.url = c'.target.url :=
    congrArg Target.url htarget'
  have hcredential : (((start c').extend clauses).envelope mode).target.credential =
      (((start c).extend clauses).envelope mode).target.credential := by
    have hleft := congrArg Target.credential htarget'
    have hright := congrArg Target.credential htarget
    exact hleft.trans (h.symm.trans hright.symm)
  simp only [Envelope.toHttp, htree, hurl, hcredential]
  rfl

namespace Collection

def ask (c : Collection) : Ask → Except Error Pending
  | .document id => c.document id
  | .allDocuments => .ok c.allDocuments
  | .insert data => c.insert data
  | .update id data => c.update id data
  | .program clauses => .ok (.query ((Query.start c).extend clauses))

def request (c : Collection) (a : Ask) (mode : Mode) : Except Error HttpRequest :=
  (c.ask a).map fun p => (p.envelope mode).toHttp

/-- The request of one collection is that of another of the same credential, sent elsewhere. -/
theorem request_moved {c c' : Collection} (h : c.target.credential = c'.target.credential) (a : Ask)
    (mode : Mode) :
    c'.request a mode = (c.request a mode).map fun r => { r with url := c'.target.url } := by
  obtain ⟨name, url, credential⟩ := c
  obtain ⟨name', url', credential'⟩ := c'
  obtain rfl : credential = credential' := h
  cases a with
  | document id =>
    simp only [request, ask, document]
    cases id.isEmpty <;> rfl
  | allDocuments => rfl
  | insert data =>
    simp only [request, ask, insert]
    cases write data <;> rfl
  | update id data =>
    simp only [request, ask, update]
    cases id.isEmpty with
    | true => rfl
    | false => cases write data <;> rfl
  | program clauses =>
    exact congrArg Except.ok
      (Query.extend_moved ⟨name, url, credential⟩ ⟨name', url', credential⟩ rfl clauses mode)

end Collection

namespace Connection

/-- Two collections have one address just if their names are read alike. -/
theorem text_eq_iff {base credential : String} {u : Url} {place : List Url.Segment}
    (hplace : Url.ReadFrom base u place) (hscheme : Url.schemeKind u.scheme = .special)
    {a b : String} {c c' : Collection} (hc : collection ⟨base, u, credential⟩ a = .ok c)
    (hc' : collection ⟨base, u, credential⟩ b = .ok c') :
    c.target.url.text = c'.target.url.text ↔
      Url.reading place a.toList = Url.reading place b.toList := by
  obtain ⟨f, hf⟩ := hplace
  obtain ⟨-, v, hv, rfl⟩ := collection_eq_ok.1 hc
  obtain ⟨-, w, hw, rfl⟩ := collection_eq_ok.1 hc'
  obtain ⟨s, hs, rfl⟩ := hf a v hv
  obtain ⟨t, ht, rfl⟩ := hf b w hw
  -- One server is read for both.
  obtain rfl : s = t := by
    rw [hs] at ht
    cases ht
    rfl
  constructor
  · intro htext
    have hchars := String.ofList_injective htext
    obtain ⟨-, -, hpath, hquery, hfragment⟩ :=
      Url.eq_parts (Url.regular_parse hv hscheme) (Url.regular_parse hw hscheme) hchars
    exact Url.Reading.ext (Url.Path.segments.inj hpath) hquery hfragment
  · intro hread
    simp only [hread]

/-- Over a base without query and fragment: two collections have one address just if their names are
read alike on top of one place, which for a tidy base is that of its URL; different faithful names have
different addresses; and the requests made from two collections differ in nothing but the address. -/
theorem collections_told_apart {config : ConnectionConfig} {conn : Connection}
    (hbuild : build config = .ok conn)
    (hscheme : conn.target.url.scheme = "http".toList ∨ conn.target.url.scheme = "https".toList)
    (hquery : conn.target.url.query = none) (hfragment : conn.target.url.fragment = none) :
    (∃ place, (∀ ss, Url.Tidy config.url.toList conn.target.url →
        conn.target.url.path = .segments ss → place = Url.stem ss) ∧
      ∀ a b c c', conn.collection a = .ok c → conn.collection b = .ok c' →
        (c.target.url.text = c'.target.url.text ↔
          Url.reading place a.toList = Url.reading place b.toList)) ∧
    (∀ a b c c', conn.collection a = .ok c → conn.collection b = .ok c' →
      Url.Faithful a.toList → Url.Faithful b.toList → a ≠ b →
      c.target.url.text ≠ c'.target.url.text) ∧
    ∀ a b c c', conn.collection a = .ok c → conn.collection b = .ok c' → ∀ ask mode,
      c'.request ask mode = (c.request ask mode).map fun r => { r with url := c'.target.url } := by
  have hspecial := Url.schemeKind_web hscheme
  obtain ⟨-, u, hu, rfl⟩ := build_eq_ok.1 hbuild
  obtain ⟨place, hplace⟩ := Url.exists_place hu hspecial hquery hfragment
  refine ⟨⟨place, fun ss ht hpath => ?_, fun a b c c' hc hc' => text_eq_iff hplace hspecial hc hc'⟩,
    fun a b c c' hc hc' ha hb hne htext => ?_, fun a b c c' hc hc' ask mode => ?_⟩
  · exact hplace.eq_stem hu hspecial hquery hfragment ht hpath
  · have hread := (text_eq_iff hplace hspecial hc hc').1 htext
    exact hne (String.toList_inj.1 (Url.reading_inj ha hb hread))
  · have hcredential := (collection_target hc).2.trans (collection_target hc').2.symm
    exact Collection.request_moved hcredential ask mode

def local3000 : Connection := ⟨"http://localhost:3000", ⟨⟨"http".toList,
  some ⟨[], [], .name "localhost".toList, some 3000⟩, .segments [[]], none, none⟩, "K"⟩⟩

theorem collections_told_apart_local3000 :
    build ⟨"http://localhost:3000", "K"⟩ = .ok local3000 ∧
      ∃ c c', local3000.collection "Us ers/ü?v#" = .ok c ∧ local3000.collection "Us ers/ü?v" = .ok c' ∧
        c.target.url.text ≠ c'.target.url.text ∧
        c'.request (.document "7") .debug =
          (c.request (.document "7") .debug).map fun r => { r with url := c'.target.url } := by
  have hbuild : build ⟨"http://localhost:3000", "K"⟩ = .ok local3000 := by rfl
  obtain ⟨-, hdiffer, hmoved⟩ := collections_told_apart hbuild (.inl rfl) rfl rfl
  obtain ⟨c, hc⟩ : ∃ c, local3000.collection "Us ers/ü?v#" = .ok c := ⟨_, rfl⟩
  obtain ⟨c', hc'⟩ : ∃ c, local3000.collection "Us ers/ü?v" = .ok c := ⟨_, rfl⟩
  exact ⟨hbuild, c, c', hc, hc', hdiffer _ _ c c' hc hc' (by decide) (by decide) (by decide),
    hmoved _ _ c c' hc hc' _ _⟩

/-- Names are not escaped: a blank at the end of one is dropped, and dots in it are resolved. -/
theorem names_share_address :
    build ⟨"http://localhost:3000", "K"⟩ = .ok local3000 ∧
      local3000.target.url.scheme = "http".toList ∧ local3000.target.url.query = none ∧
      local3000.target.url.fragment = none ∧
      ∃ c c' c'', local3000.collection "Users" = .ok c ∧ local3000.collection "Users " = .ok c' ∧
        local3000.collection "Posts/../Users" = .ok c'' ∧
        c.target.url.text = c'.target.url.text ∧ c.target.url.text = c''.target.url.text := by
  refine ⟨by rfl, rfl, rfl, rfl, _, _, _, rfl, rfl, rfl, ?_, ?_⟩ <;> decide

end Connection

end DocQuery

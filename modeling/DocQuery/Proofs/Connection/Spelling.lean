import DocQuery.Proofs.Connection.Place

/-! # Spellings of one address

Connections over tidy spellings of one URL have the same collections. A spelling that is not tidy is
accepted as well, but not as a place to put names behind: its blanks become part of the address, and so
does a slash in front of breaks.
-/
namespace DocQuery.Connection

/-- Connections over tidy spellings of one URL have, for every name, collections at one URL, or none
because the name is empty. -/
theorem collections_of_one_url {config config' : ConnectionConfig} {conn conn' : Connection}
    (hbuild : build config = .ok conn) (hbuild' : build config' = .ok conn')
    (hscheme : conn.target.url.scheme = "http".toList ∨ conn.target.url.scheme = "https".toList)
    (hscheme' : conn'.target.url.scheme = "http".toList ∨ conn'.target.url.scheme = "https".toList)
    (ht : Url.Tidy config.url.toList conn.target.url)
    (ht' : Url.Tidy config'.url.toList conn'.target.url)
    (hsame : conn.target.url.same conn'.target.url = true) (name : String) :
    (name = "" ∧ conn.collection name = .error .missingCollectionName ∧
      conn'.collection name = .error .missingCollectionName) ∨
    ∃ c c', conn.collection name = .ok c ∧ conn'.collection name = .ok c' ∧
      c.target.url.same c'.target.url = true := by
  obtain ⟨-, u, hu, rfl⟩ := build_eq_ok.1 hbuild
  obtain ⟨-, u', hu', rfl⟩ := build_eq_ok.1 hbuild'
  have hspecial : Url.schemeKind u.scheme = .special := Url.schemeKind_web hscheme
  have hspecial' : Url.schemeKind u'.scheme = .special := Url.schemeKind_web hscheme'
  have hchars : u.chars = u'.chars := String.ofList_injective (beq_iff_eq.1 hsame)
  rw [collection_of_tidy hu hspecial ht, collection_of_tidy hu' hspecial' ht']
  by_cases hempty : name.isEmpty = true
  · rw [if_pos hempty, if_pos hempty]
    exact .inl ⟨String.isEmpty_iff.1 hempty, rfl, rfl⟩
  · rw [if_neg hempty, if_neg hempty]
    refine .inr ⟨_, _, rfl, rfl, beq_iff_eq.2 (congrArg String.ofList ?_)⟩
    exact Url.chars_below (Url.regular_parse hu hspecial)
      (Url.regular_parse hu' hspecial') hchars _

/-- A connection over a database of a local server, spelled as it is printed. -/
def orderly : Connection := ⟨"http://localhost:3000/db/", ⟨⟨"http".toList,
  some ⟨[], [], .name "localhost".toList, some 3000⟩, .segments ["db".toList, []], none, none⟩, "K"⟩⟩

/-- The same database, spelled with blanks in front and with a backslash, a break and dots inside. -/
def loose : Connection :=
  { orderly with base := "\t HTTP:/\\local\nhost:03000/./db/x/%2e./" }

theorem collections_of_one_url_loose :
    build ⟨orderly.base, "K"⟩ = .ok orderly ∧ build ⟨loose.base, "K"⟩ = .ok loose ∧
      ∃ c c', orderly.collection "Users?v=1" = .ok c ∧ loose.collection "Users?v=1" = .ok c' ∧
        c.target.url.same c'.target.url = true := by
  have horderly : build ⟨orderly.base, "K"⟩ = .ok orderly := by rfl
  have hloose : build ⟨loose.base, "K"⟩ = .ok loose := by rfl
  refine ⟨horderly, hloose, ?_⟩
  have hall := collections_of_one_url horderly hloose (.inl rfl) (.inl rfl) (by decide) (by decide)
    (by decide) "Users?v=1"
  exact hall.resolve_left fun h => absurd h.1 (by decide)

/-- A base with a line end behind its slash is accepted as the same URL, and the collection is put
elsewhere; one with a blank behind its server is accepted too, and refuses the collection. -/
theorem address_depends_on_spelling :
    (∃ conn conn' c c', build ⟨"http://localhost:3000/db/\n", "K"⟩ = .ok conn ∧
      build ⟨"http://localhost:3000/db/", "K"⟩ = .ok conn' ∧
      conn.target.url.scheme = "http".toList ∧ conn.target.url.same conn'.target.url = true ∧
      conn.collection "Users" = .ok c ∧ conn'.collection "Users" = .ok c' ∧
      c.target.url.text = "http://localhost:3000/db//Users" ∧
      c'.target.url.text = "http://localhost:3000/db/Users") ∧
    ∃ conn conn' e c', build ⟨"http://localhost:3000 ", "K"⟩ = .ok conn ∧
      build ⟨"http://localhost:3000", "K"⟩ = .ok conn' ∧
      conn.target.url.scheme = "http".toList ∧ conn.target.url.same conn'.target.url = true ∧
      conn.collection "Users" = .error e ∧ conn'.collection "Users" = .ok c' := by
  refine ⟨⟨_, _, _, _, rfl, rfl, rfl, ?_, rfl, rfl, ?_, ?_⟩, _, _, _, _, rfl, rfl, rfl, ?_, rfl, rfl⟩ <;>
    decide

end DocQuery.Connection

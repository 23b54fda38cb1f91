import DocQuery.Proofs.Session.Requests
import DocQuery.Proofs.Url.Server

/-! # Where the requests of a run go

The database and every collection of a connection are on one server, and a request carries the API key
of the connection's configuration. So the key never leaves that server.
-/
namespace DocQuery

namespace Connection
variable {conn : Connection}

theorem build_eq_ok {config : ConnectionConfig} :
    build config = .ok conn ↔
      (config.url.isEmpty || config.apiKey.isEmpty) = false ∧
        ∃ u, Url.parse config.url = .ok u ∧ conn = ⟨config.url, u, config.apiKey⟩ := by
  unfold build Target.parse validateUrl
  cases hempty : config.url.isEmpty || config.apiKey.isEmpty with
  | true => simp
  | false => cases Url.parse config.url <;> simp [eq_comm]

theorem build_target {config : ConnectionConfig} (h : build config = .ok conn) :
    Url.parse conn.base = .ok conn.target.url ∧ conn.target.credential = config.apiKey := by
  obtain ⟨-, u, hu, rfl⟩ := build_eq_ok.1 h
  exact ⟨hu, rfl⟩

theorem collection_eq_ok {name : String} {c : Collection} :
    conn.collection name = .ok c ↔
      name.isEmpty = false ∧ ∃ v, Url.parse (collectionAddress conn.base name) = .ok v ∧
        c = ⟨name, v, conn.target.credential⟩ := by
  unfold collection validateUrl
  cases hempty : name.isEmpty with
  | true => simp
  | false => cases Url.parse (collectionAddress conn.base name) <;> simp [eq_comm]

theorem collection_target {name : String} {c : Collection} (h : conn.collection name = .ok c) :
    Url.parse (collectionAddress conn.base name) = .ok c.target.url ∧
      c.target.credential = conn.target.credential := by
  obtain ⟨-, v, hv, rfl⟩ := collection_eq_ok.1 h
  exact ⟨hv, rfl⟩

end Connection

/-- A target on the server of another, with the same credential. -/
structure Target.Shares (t t' : Target) : Prop where
  scheme : t.url.scheme = t'.url.scheme
  authority : ∃ a, t'.url.authority = some a ∧ t.url.authority = some a
  credential : t.credential = t'.credential

namespace Connection
variable {conn : Connection} {config : ConnectionConfig} (hbuild : build config = .ok conn)
  (hscheme : Url.schemeKind conn.target.url.scheme = .special)
include hbuild hscheme

theorem target_shares : conn.target.Shares conn.target := by
  obtain ⟨hu, -⟩ := build_target hbuild
  obtain ⟨r, -, a, ha, -⟩ := Url.parseChars_eq_ok hu hscheme
  exact ⟨rfl, ⟨a, ha, ha⟩, rfl⟩

theorem collection_shares {name : String} {c : Collection} (h : conn.collection name = .ok c) :
    c.target.Shares conn.target := by
  obtain ⟨hu, -⟩ := build_target hbuild
  obtain ⟨hv, hcredential⟩ := collection_target h
  obtain ⟨hsame, hauthority⟩ := join_server hu hscheme hv
  exact ⟨hsame, hauthority, hcredential⟩

theorem purpose_shares {p : Purpose}
    (hp : ∀ c ∈ p.collection?, conn.collection c.name = .ok c) :
    (p.target conn).Shares conn.target := by
  unfold Purpose.target
  cases hc : p.collection? with
  | none => exact target_shares hbuild hscheme
  | some c => exact collection_shares hbuild hscheme (hp c hc)

end Connection

namespace Session
variable {s : Session}

/-- Every request of a run goes to the scheme, the credentials, the host and the port of the
connection's own target, is a post, and carries the fixed content type and the configured key. -/
theorem requests_on_server {config : ConnectionConfig} {script : List Answer}
    {holder : List Pointer} (h : open? config script holder = .ok s)
    (hscheme : s.connection.target.url.scheme = "http".toList ∨
      s.connection.target.url.scheme = "https".toList) (cs : List Call) :
    ∀ r ∈ (s.after cs).transport.requests,
      r.url.scheme = s.connection.target.url.scheme ∧
      (∃ a, s.connection.target.url.authority = some a ∧ r.url.authority = some a) ∧
      r.method = .post ∧
      r.headers = [("Content-Type", contentType), ("Authorization", config.apiKey)] := by
  obtain ⟨hbuild, ht, hf⟩ := open?_follows h
  obtain ⟨-, -, hlog⟩ := after_follows hf cs
  have hspecial : Url.schemeKind s.connection.target.url.scheme = .special := by
    rcases hscheme with hscheme | hscheme <;> rw [hscheme] <;> decide
  have hkey : s.connection.target.credential = config.apiKey := (Connection.build_target hbuild).2
  intro r hr
  rw [hlog, ht] at hr
  obtain ⟨⟨p, mode⟩, hmem, rfl⟩ := List.mem_map.1 hr
  have hshares : (p.target s.connection).Shares s.connection.target :=
    Connection.purpose_shares hbuild hspecial (Book.terminals_sound hf.sound cs _ hmem)
  refine ⟨hshares.scheme, hshares.authority, rfl, ?_⟩
  rw [← hkey, ← hshares.credential]
  rfl

def guarded : Session where
  connection := ⟨" HTTPS:/\\u:p@h\t:81/db", ⟨⟨['h', 't', 't', 'p', 's'],
    some ⟨['u'], ['p'], .name ['h'], some 81⟩, .segments [['d', 'b']], none, none⟩, "key"⟩⟩
  transport := .ofScript []
  holder := []
  handles := []

def foreignNameReads : List Call := [.collection "//v@elsewhere:99/..\\?#\x00" (some "c"),
  .all "c" (some "d"), .send "d" .debug, .list (some "l"), .send "l" .normal]

theorem requests_on_server_foreign_name :
    open? ⟨guarded.connection.base, "key"⟩ [] = .ok guarded ∧
      guarded.connection.target.url.scheme = "https".toList ∧
      (guarded.after foreignNameReads).transport.requests.length = 2 ∧
      ∀ r ∈ (guarded.after foreignNameReads).transport.requests,
        r.url.scheme = "https".toList ∧
        (∃ a, some ⟨['u'], ['p'], .name ['h'], some 81⟩ = some a ∧ r.url.authority = some a) ∧
        r.method = .post ∧
        r.headers = [("Content-Type", contentType), ("Authorization", "key")] := by
  have hopen : open? ⟨guarded.connection.base, "key"⟩ [] = .ok guarded := by rfl
  have hscheme : guarded.connection.target.url.scheme = "https".toList := by rfl
  refine ⟨hopen, hscheme, by rfl, ?_⟩
  exact requests_on_server hopen (.inr hscheme) foreignNameReads

end Session

end DocQuery

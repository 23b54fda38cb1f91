import DocQuery.Proofs.Session.Server
import DocQuery.Proofs.Url.Below
import DocQuery.Proofs.Url.Encoding

/-! # Where collections live

A base of ordinary characters has its collections right below its URL: the text of a collection's URL is
that of the base, a slash and the name, if the name is one that a URL keeps as it is written.
-/
namespace DocQuery

namespace Url

open Connection (dropFinalSlash dropFinalSlash_concat)

theorem schemeKind_web {scheme : List Char} (h : scheme = "http".toList ∨ scheme = "https".toList) :
    schemeKind scheme = .special := by
  rcases h with rfl | rfl <;> decide

/-- Letters, digits and the four marks that are written as they are everywhere in a URL. -/
def isLiteral (c : Char) : Bool := c.isAlphanum || c = '-' || c = '_' || c = '.' || c = '~'

theorem forall_isLiteral {P : Char → Prop}
    (h : ∀ n < 128, isLiteral (Char.ofNat n) = true → P (Char.ofNat n)) {c : Char}
    (hc : isLiteral c = true) : P c := by
  have hlt : c.toNat < 128 := by
    have hupper : c.isUpper = decide ('A'.val ≤ c.val ∧ c.val ≤ 'Z'.val) := rfl
    have hlower : c.isLower = (decide ('a'.val ≤ c.val) && decide (c.val ≤ 'z'.val)) := rfl
    have hdigit : c.isDigit = (decide ('0'.val ≤ c.val) && decide (c.val ≤ '9'.val)) := rfl
    have halphanum : c.isAlphanum = (c.isUpper || c.isLower || c.isDigit) := rfl
    simp only [isLiteral, halphanum, hupper, hlower, hdigit, Bool.or_eq_true, Bool.and_eq_true,
      decide_eq_true_eq, UInt32.le_iff_toNat_le] at hc
    rcases hc with (((((hc | hc) | hc) | rfl) | rfl) | rfl) | rfl
    · exact Nat.lt_of_le_of_lt hc.2 (by decide)
    · exact Nat.lt_of_le_of_lt hc.2 (by decide)
    · exact Nat.lt_of_le_of_lt hc.2 (by decide)
    all_goals decide
  have hchar := h c.toNat hlt
  rw [Char.ofNat_toNat] at hchar
  exact hchar hc

/-- A name that a URL keeps as it is written: literal characters, and no dot segment. -/
structure Literal (n : List Char) : Prop where
  chars : ∀ c ∈ n, isLiteral c = true
  nonempty : n ≠ []
  oneDot : n ≠ ['.']
  twoDots : n ≠ ['.', '.']

instance (n : List Char) : Decidable (Literal n) :=
  decidable_of_iff (n.all isLiteral = true ∧ n ≠ [] ∧ n ≠ ['.'] ∧ n ≠ ['.', '.'])
    ⟨fun ⟨hchars, hnonempty, hone, htwo⟩ => ⟨List.all_eq_true.1 hchars, hnonempty, hone, htwo⟩,
      fun h => ⟨List.all_eq_true.2 h.chars, h.nonempty, h.oneDot, h.twoDots⟩⟩

section
variable {n : List Char} (hn : Literal n)
include hn

theorem Literal.plain : Plain n where
  percent := fun h => absurd (hn.chars _ h) (by decide)
  oneDot := hn.oneDot
  twoDots := hn.twoDots

theorem Literal.forall_mem {P : Char → Prop}
    (h : ∀ n < 128, isLiteral (Char.ofNat n) = true → P (Char.ofNat n)) : ∀ c ∈ n, P c :=
  fun c hc => forall_isLiteral h (hn.chars c hc)

theorem Literal.nameText_eq : nameText n = n := by
  have htrim : ∀ c ∈ n, isTrimmed c = false := hn.forall_mem (by decide +kernel)
  have hbreak : ∀ c ∈ n, isBreak c = false := hn.forall_mem (by decide +kernel)
  exact nameText_of_forall hbreak fun c hc => htrim c (List.mem_of_getLast? hc)

theorem Literal.parts : splitPath n = (n, []) ∧ rawSegments true n = [n] ∧ encode inPathSet n = n := by
  have hmark : ∀ c ∈ n, endsPath c = false := hn.forall_mem (by decide +kernel)
  have hslash : ∀ c ∈ n, isSlash true c = false := hn.forall_mem (by decide +kernel)
  have hset : ∀ c ∈ n, inPathSet c = false := hn.forall_mem (by decide +kernel)
  exact ⟨splitPath_of_forall hmark, List.splitOnP_eq_singleton hslash, encode_of_forall hset⟩

theorem below_literal {u : Url} {ss : List Segment} (hpath : u.path = .segments ss)
    (hquery : u.query = none) (hfragment : u.fragment = none) :
    u.below n = { u with path := .segments (stem ss ++ [n]) } := by
  obtain ⟨hsplit, hraw, hencode⟩ := hn.parts
  have hresolve : resolve (stem ss) [n] = stem ss ++ [n] := by
    have hplain : ∀ s ∈ [n], Plain s := by simpa using hn.plain
    rw [resolve_of_plain hplain, List.map_singleton, hencode]
  simp only [below, hpath, hquery, hfragment, hsplit, hraw, hresolve]
  rfl

end

theorem segmentChars_concat (ss : List Segment) (s : Segment) :
    segmentChars (ss ++ [s]) = segmentChars ss ++ '/' :: s := by
  simp [segmentChars]

/-- The slash that is dropped is the one of an empty last segment. -/
theorem dropFinalSlash_segmentChars (f : List Char) {ss : List Segment} (hne : ss ≠ [])
    (hclean : ∀ s ∈ ss, Clean s) :
    dropFinalSlash (f ++ segmentChars ss) = f ++ segmentChars (stem ss) := by
  obtain ⟨front, s, rfl⟩ := (List.eq_nil_or_concat' ss).resolve_left hne
  rw [stem_concat, segmentChars_concat, ← List.append_assoc]
  cases s using List.reverseRecOn with
  | nil => rw [if_pos rfl, dropFinalSlash_concat, if_pos rfl]
  | append_singleton s c =>
    have hc : c ≠ '/' := (hclean (s ++ [c]) (by simp) c (by simp)).1
    rw [if_neg (by simp), segmentChars_concat, ← List.cons_append, ← List.append_assoc,
      dropFinalSlash_concat, if_neg hc]
    simp

theorem chars_below_literal {u : Url} (hu : u.Regular) (hquery : u.query = none)
    (hfragment : u.fragment = none) {n : List Char} (hn : Literal n) :
    (u.below n).chars = dropFinalSlash u.chars ++ '/' :: n := by
  obtain ⟨ss, hne, hpath, hsome, hclean⟩ := hu.path
  have hchars : u.chars = (u.scheme ++ ':' :: u.authorityChars) ++ segmentChars ss := by
    simp [chars, hpath, hsome, hquery, hfragment, Path.chars_segments, optionalChars]
  rw [hchars, dropFinalSlash_segmentChars _ hne hclean, below_literal hn hpath hquery hfragment]
  simp [chars, authorityChars, hsome, hquery, hfragment, Path.chars_segments, optionalChars,
    segmentChars_concat]

/-- A character that is neither dropped from a URL nor a mark in it, nor read as a slash. -/
def isOrdinary (c : Char) : Bool := c ≠ '?' && c ≠ '#' && c ≠ '\\' && !isTrimmed c

theorem isOrdinary_iff {c : Char} :
    isOrdinary c = true ↔ endsPath c = false ∧ c ≠ '\\' ∧ isTrimmed c = false := by
  simp [isOrdinary, endsPath, and_assoc]

theorem isTrimmed_of_isBreak {c : Char} (hc : isBreak c = true) : isTrimmed c = true := by
  simp only [isBreak, Bool.or_eq_true, decide_eq_true_eq] at hc
  rcases hc with (rfl | rfl) | rfl <;> rfl

section
variable {base : String} {u : Url} (hbase : ∀ c ∈ base.toList, isOrdinary c = true)
include hbase

theorem tidy_of_ordinary : Tidy base.toList u := by
  have hbreaks : dropBreaks base.toList = base.toList := by
    refine List.filter_eq_self.2 fun c hc => ?_
    have hbreak : isBreak c = false := Bool.eq_false_iff.2 fun h => by
      have htrim := isTrimmed_of_isBreak h
      rw [(isOrdinary_iff.1 (hbase c hc)).2.2] at htrim
      cases htrim
    rw [hbreak]
    rfl
  refine ⟨?_, ?_, ?_⟩
  · rw [hbreaks]
    exact fun c hc => (isOrdinary_iff.1 (hbase c (List.mem_of_getLast? hc))).2.2
  · rw [hbreaks]
    exact id
  · rw [hbreaks]
    exact fun h => absurd rfl (isOrdinary_iff.1 (hbase _ (List.mem_of_getLast? h))).2.1

theorem parse_ordinary (hu : Url.parse base = .ok u) (hscheme : schemeKind u.scheme = .special) :
    u.Regular ∧ u.query = none ∧ u.fragment = none := by
  obtain ⟨p, x, a, hp, -, -, hu', -⟩ := exists_join hu hscheme
  have hmark : ∀ c ∈ pathText (x.rdropWhile isTrimmed), endsPath c = false := by
    intro c hc
    have hx : c ∈ x := (List.rdropWhile_prefix _ _).subset
      (List.mem_of_mem_filter ((pathText_suffix _).subset hc))
    exact (isOrdinary_iff.1 (hbase c (by rw [hp]; simp [hx]))).1
  refine ⟨regular_parse hu hscheme, ?_, ?_⟩ <;> rw [hu', ofPathText, splitPath_of_forall hmark] <;> rfl

end

end Url

namespace Connection

/-- The collections of a connection over a tidy base, by their names. -/
theorem collection_of_tidy {base : String} {u : Url} (hu : Url.parse base = .ok u)
    (hscheme : Url.schemeKind u.scheme = .special) (ht : Url.Tidy base.toList u)
    (credential name : String) :
    collection ⟨base, u, credential⟩ name =
      if name.isEmpty then .error .missingCollectionName
      else .ok ⟨name, u.below (Url.nameText name.toList), credential⟩ := by
  simp only [collection, validateUrl, Url.parse_collectionAddress hu hscheme ht]

/-- A second slash at the end of a base is the one that is dropped. -/
theorem collectionAddress_append_slash {base : String} (h : base.toList.getLast? ≠ some '/')
    (name : String) : collectionAddress (base ++ "/") name = collectionAddress base name := by
  have hslash : (base ++ "/").toList = base.toList ++ ['/'] := String.toList_append
  have hdrop : dropFinalSlash base.toList = base.toList := by simp [dropFinalSlash, h]
  rw [collectionAddress, hslash, dropFinalSlash_concat, if_pos rfl, collectionAddress, hdrop]

/-- A tidy base with a slash put behind it is a base too, of the same collections. -/
theorem exists_build_append_slash {base credential : String} {u : Url} (hkey : credential.isEmpty = false)
    (hu : Url.parse base = .ok u) (hscheme : Url.schemeKind u.scheme = .special)
    (ht : Url.Tidy base.toList u) (hlast : base.toList.getLast? ≠ some '/') :
    ∃ conn', build ⟨base ++ "/", credential⟩ = .ok conn' ∧
      ∀ name, conn'.collection name = collection ⟨base, u, credential⟩ name := by
  have haddress : collectionAddress base "" = base ++ "/" := by
    simp [collectionAddress, dropFinalSlash, hlast]
  have hparse := Url.parse_collectionAddress hu hscheme ht ""
  rw [haddress] at hparse
  have hgiven : ((base ++ "/").isEmpty || credential.isEmpty) = false := by simp [hkey]
  refine ⟨_, build_eq_ok.2 ⟨hgiven, _, hparse, rfl⟩, fun name => ?_⟩
  simp only [collection, collectionAddress_append_slash hlast]

/-- A base of ordinary characters has the collections of literal names right below its URL, and one
more slash at its end is no change to any collection. -/
theorem collection_right_below {config : ConnectionConfig} {conn : Connection}
    (hbuild : build config = .ok conn)
    (hscheme : conn.target.url.scheme = "http".toList ∨ conn.target.url.scheme = "https".toList)
    (hbase : ∀ c ∈ config.url.toList, Url.isOrdinary c = true) :
    (∀ name : String, Url.Literal name.toList → ∃ c, conn.collection name = .ok c ∧
      c.target.url.text =
        String.ofList (dropFinalSlash conn.target.url.text.toList) ++ "/" ++ name) ∧
    (config.url.toList.getLast? ≠ some '/' →
      ∃ conn', build ⟨config.url ++ "/", config.apiKey⟩ = .ok conn' ∧
        ∀ name, conn'.collection name = conn.collection name) := by
  obtain ⟨hgiven, u, hu, rfl⟩ := build_eq_ok.1 hbuild
  have hspecial := Url.schemeKind_web hscheme
  obtain ⟨hregular, hquery, hfragment⟩ := Url.parse_ordinary hbase hu hspecial
  have htidy : Url.Tidy config.url.toList u := Url.tidy_of_ordinary hbase
  refine ⟨fun name hname => ?_, ?_⟩
  · have hempty : ¬ name.isEmpty = true := by
      simpa [String.isEmpty_iff, ← String.toList_eq_nil_iff] using hname.nonempty
    refine ⟨_, (collection_of_tidy hu hspecial htidy config.apiKey name).trans (if_neg hempty), ?_⟩
    simp [Url.text, hname.nameText_eq, Url.chars_below_literal hregular hquery hfragment hname,
      ← String.toList_inj]
  · exact exists_build_append_slash (Bool.or_eq_false_iff.1 hgiven).2 hu hspecial htidy

/-- A connection over an address of which no part is spelled as it is printed. -/
def shouted : Connection := ⟨"HTTPS:h:443/a/%2e/ü", ⟨⟨"https".toList,
  some ⟨[], [], .name ['h'], none⟩, .segments [['a'], "%C3%BC".toList], none, none⟩, "key"⟩⟩

theorem collection_right_below_shouted :
    build ⟨shouted.base, "key"⟩ = .ok shouted ∧
      (∃ c, shouted.collection "Users.v2" = .ok c ∧
        c.target.url.text = "https://h/a/%C3%BC/Users.v2") ∧
      ∃ conn', build ⟨"HTTPS:h:443/a/%2e/ü/", "key"⟩ = .ok conn' ∧
        ∀ name, conn'.collection name = shouted.collection name := by
  have hbuild : build ⟨shouted.base, "key"⟩ = .ok shouted := by rfl
  obtain ⟨hplace, hslash⟩ := collection_right_below hbuild (.inr rfl) (List.all_eq_true.1 (by decide))
  obtain ⟨c, hc, htext⟩ := hplace "Users.v2" (by decide)
  exact ⟨hbuild, ⟨c, hc, htext.trans (by rfl)⟩, hslash (by decide)⟩

end Connection

end DocQuery

import DocQuery.Proofs.Url.Below
import DocQuery.Proofs.Url.Encoding

/-! # Names behind a base

A name behind a slash is read as segments on top of the place of its base, a query and a fragment. Behind
one base without query and fragment, names have one URL just if they are read alike, and a name that is
read as it is written is told apart from every other such name.
-/
namespace DocQuery.Url

open Connection (dropFinalSlash dropFinalSlash_concat collectionAddress)

/-- The segments, the query and the fragment that a name is read as on top of a place. -/
@[ext]
structure Reading where
  segments : List Segment
  query : Option (List Char)
  fragment : Option (List Char)
  deriving DecidableEq

def reading (place : List Segment) (n : List Char) : Reading :=
  let (path, marks) := splitPath (nameText n)
  let (query, fragment) := queryAndFragment true marks
  ⟨resolve place (rawSegments true path), query, fragment⟩

def ofReading (scheme : List Char) (a : Authority) (r : Reading) : Url :=
  ⟨scheme, some a, .segments r.segments, r.query, r.fragment⟩

theorem mem_dropWhile {p : Char → Bool} {c : Char} (hc : p c = false) {s : List Char} (h : c ∈ s) :
    c ∈ s.dropWhile p := by
  rw [← List.takeWhile_append_dropWhile (p := p) (l := s)] at h
  rcases List.mem_append.1 h with h | h
  · rw [List.mem_takeWhile_imp h] at hc
    cases hc
  · exact h

/-- A mark of a query or a fragment stands behind the server. -/
theorem mem_pathText {c : Char} (hc : endsPath c = true) {s : List Char} :
    c ∈ pathText s ↔ c ∈ s := by
  have hclasses : isBreak c = false ∧ isSlash true c = false ∧ inAuthority c = false := by
    obtain rfl | rfl : c = '?' ∨ c = '#' := by simpa [endsPath] using hc
    · decide
    · decide
  constructor
  · exact fun h => List.mem_of_mem_filter ((pathText_suffix s).subset h)
  · intro h
    have hkept : c ∈ dropBreaks s := List.mem_filter.2 ⟨h, by simp [hclasses.1]⟩
    exact mem_dropWhile hclasses.2.2 (mem_dropWhile hclasses.2.1 hkept)

/-- Text behind a server that gives neither query nor fragment is all path. -/
theorem endsPath_of_no_marks {scheme t : List Char} {a : Authority} (hs : schemeKind scheme = .special)
    (hquery : (ofPathText scheme a t).query = none)
    (hfragment : (ofPathText scheme a t).fragment = none) : ∀ c ∈ t, endsPath c = false := by
  obtain ⟨hparts, hfront, hback⟩ := splitPath_parts t
  have hmarks : queryAndFragment true (splitPath t).2 = (none, none) := by
    rw [← isSpecial_of_special hs]
    exact Prod.ext hquery hfragment
  cases hr : (splitPath t).2 with
  | nil =>
    rw [hr, List.append_nil] at hparts
    rwa [← hparts]
  | cons c r =>
    rw [hr] at hmarks hback
    obtain rfl | rfl : c = '?' ∨ c = '#' := by simpa [endsPath] using hback c rfl
    · rw [queryAndFragment_query] at hmarks
      cases hmarks
    · cases hmarks

theorem mem_rdropWhile_of_endsPath {c : Char} (hc : endsPath c = true) {s : List Char} (h : c ∈ s) :
    c ∈ s.rdropWhile isTrimmed := by
  rw [← List.rdropWhile_append_rtakeWhile (p := isTrimmed) (l := s)] at h
  rcases List.mem_append.1 h with h | h
  · exact h
  · have htrim := List.mem_rtakeWhile_imp h
    obtain rfl | rfl : c = '?' ∨ c = '#' := by simpa [endsPath] using hc
    · cases htrim
    · cases htrim

/-- Behind a base all names that make a URL are read on top of one place. -/
def ReadFrom (base : String) (u : Url) (place : List Segment) : Prop :=
  ∃ f, ∀ name v, Url.parse (collectionAddress base name) = .ok v →
    ∃ a, splitAuthority u.scheme f = .ok (a, []) ∧
      v = ofReading u.scheme a (reading place name.toList)

section
variable {base : String} {u : Url} (hu : Url.parse base = .ok u)
  (hscheme : schemeKind u.scheme = .special) (hquery : u.query = none) (hfragment : u.fragment = none)
include hu hscheme hquery hfragment

theorem exists_place : ∃ place, ReadFrom base u place := by
  obtain ⟨-, x, a, -, -, -, hu', hjoin⟩ := exists_join hu hscheme
  rw [hu'] at hquery hfragment
  have hclean := endsPath_of_no_marks hscheme hquery hfragment
  have hpath : ∀ c ∈ pathText (dropFinalSlash x), endsPath c = false := by
    intro c hc
    refine Bool.eq_false_iff.2 fun hmark => ?_
    have hx : c ∈ x := (prefix_dropFinalSlash x).subset ((mem_pathText hmark).1 hc)
    have hend := hclean c ((mem_pathText hmark).2 (mem_rdropWhile_of_endsPath hmark hx))
    rw [hend] at hmark
    cases hmark
  refine ⟨place (pathText (dropFinalSlash x)), serverText (dropFinalSlash x), fun name v hv => ?_⟩
  obtain ⟨b, hb, rfl⟩ := (hjoin name v).1 hv
  refine ⟨b, hb, ?_⟩
  rw [ofPathText_append_slash b (ended_pathText _) hpath, assemble, isSpecial_of_special hscheme]
  rfl

theorem ReadFrom.eq_stem {place : List Segment} (h : ReadFrom base u place)
    (ht : Tidy base.toList u) {ss : List Segment} (hpath : u.path = .segments ss) :
    place = stem ss := by
  obtain ⟨f, hf⟩ := h
  obtain ⟨a, -, hempty⟩ := hf "" _ (parse_collectionAddress hu hscheme ht "")
  have hbelow : (u.below (nameText "".toList)).path = .segments (stem ss ++ [[]]) := by
    simp only [below, hpath, hquery, hfragment]
    rfl
  have hread : (ofReading u.scheme a (reading place "".toList)).path = .segments (place ++ [[]]) := rfl
  rw [hempty, hread] at hbelow
  exact List.append_cancel_right (Path.segments.inj hbelow)

end

/-- A name of which nothing is dropped, decoded or resolved: it holds no breaks and no percent sign, does
not end in a blank or a control, and has neither backslashes nor dot segments before its query. -/
structure Faithful (n : List Char) : Prop where
  breaks : ∀ c ∈ n, isBreak c = false
  blank : ∀ c ∈ n.getLast?, isTrimmed c = false
  percent : '%' ∉ n
  backslash : '\\' ∉ (splitPath n).1
  dots : ∀ s ∈ rawSegments true (splitPath n).1, s ≠ ['.'] ∧ s ≠ ['.', '.']

instance (n : List Char) : Decidable (Faithful n) :=
  decidable_of_iff
    (n.all (!isBreak ·) = true ∧ n.getLast?.all (!isTrimmed ·) = true ∧ '%' ∉ n ∧
      '\\' ∉ (splitPath n).1 ∧
      (rawSegments true (splitPath n).1).all (fun s => s ≠ ['.'] ∧ s ≠ ['.', '.']) = true)
    ⟨fun ⟨hbreaks, hblank, hpercent, hbackslash, hdots⟩ =>
        ⟨by simpa using hbreaks, fun c hc => by simpa [Option.mem_def.1 hc] using hblank, hpercent,
          hbackslash, by simpa using hdots⟩,
      fun h => ⟨by simpa using h.breaks, by simpa [Option.all_eq_true] using h.blank, h.percent,
        h.backslash, by simpa using h.dots⟩⟩

theorem Faithful.nameText_eq {n : List Char} (h : Faithful n) : nameText n = n :=
  nameText_of_forall h.breaks h.blank

theorem segmentChars_rawSegments {s : List Char} (h : '\\' ∉ s) :
    segmentChars (rawSegments true s) = '/' :: s := by
  induction s with
  | nil => rfl
  | cons c s ih =>
    have hrest := ih fun hmem => h (List.mem_cons_of_mem c hmem)
    rw [rawSegments] at hrest
    rw [rawSegments, List.splitOnP_cons_eq_if_modifyHead]
    split
    · rename_i hc
      have hback : c ≠ '\\' := fun heq => h (heq ▸ List.mem_cons_self)
      obtain rfl : c = '/' := by simpa [isSlash, hback] using hc
      exact congrArg ('/' :: ·) hrest
    · obtain ⟨q, qs, hs⟩ := List.exists_cons_of_ne_nil (List.splitOnP_ne_nil (isSlash true) s)
      rw [hs] at hrest
      have htail : q ++ segmentChars qs = s := List.tail_eq_of_cons_eq hrest
      rw [hs, ← htail]
      rfl

theorem map_encode_inj {ss ts : List Segment} (hs : ∀ s ∈ ss, '%' ∉ s) (ht : ∀ t ∈ ts, '%' ∉ t)
    (h : ss.map (encode inPathSet) = ts.map (encode inPathSet)) : ss = ts := by
  have hdecode : ∀ qs : List Segment, (∀ q ∈ qs, '%' ∉ q) →
      (qs.map (encode inPathSet)).map decodeBytes = qs.map fun q => (bytes q).map byteChar := by
    intro qs hqs
    rw [List.map_map]
    exact List.map_congr_left fun q hq => decodeBytes_encode (fun _ => inPathSet_of_isControl) (hqs q hq)
  have hbytes := congrArg (List.map decodeBytes) h
  rw [hdecode ss hs, hdecode ts ht] at hbytes
  refine List.map_injective_iff.2 (fun p q hpq => ?_) hbytes
  exact bytes_inj (List.map_injective_iff.2 (fun _ _ => byteChar_inj) hpq)

theorem fragment?_inj {f g : List Char} (hf : '%' ∉ f) (hg : '%' ∉ g)
    (hfirst : ∀ c ∈ f.head?, c = '#') (hfirst' : ∀ c ∈ g.head?, c = '#')
    (h : fragment? f = fragment? g) : f = g := by
  cases f with
  | nil => cases g with
    | nil => rfl
    | cons d g => cases h
  | cons c f => cases g with
    | nil => cases h
    | cons d g =>
      obtain rfl := hfirst c rfl
      obtain rfl := hfirst' d rfl
      rw [encode_inj (fun _ => inFragmentSet_of_isControl) (fun hmem => hf (List.mem_cons_of_mem _ hmem))
        (fun hmem => hg (List.mem_cons_of_mem _ hmem)) (Option.some.inj h)]

theorem head?_dropWhile_ne (m : Char) (s : List Char) : ∀ c ∈ (s.dropWhile (· ≠ m)).head?, c = m := by
  intro c hc
  simpa using head?_dropWhile _ s c hc

/-- Query and fragment tell the texts apart that they are read from. -/
theorem queryAndFragment_inj {r r' : List Char} (hr : '%' ∉ r) (hr' : '%' ∉ r')
    (hmark : ∀ c ∈ r.head?, endsPath c = true) (hmark' : ∀ c ∈ r'.head?, endsPath c = true)
    (h : queryAndFragment true r = queryAndFragment true r') : r = r' := by
  have hcases : ∀ w : List Char, (∀ c ∈ w.head?, endsPath c = true) →
      w = [] ∨ (∃ q, w = '?' :: q) ∨ ∃ f, w = '#' :: f := by
    intro w hw
    cases w with
    | nil => exact .inl rfl
    | cons c w =>
      obtain rfl | rfl : c = '?' ∨ c = '#' := by simpa [endsPath] using hw c rfl
      · exact .inr (.inl ⟨w, rfl⟩)
      · exact .inr (.inr ⟨w, rfl⟩)
  have htail : ∀ {c : Char} {w : List Char}, '%' ∉ c :: w → '%' ∉ w :=
    fun h hmem => h (List.mem_cons_of_mem _ hmem)
  -- Which mark comes first is told by what there is of query and fragment.
  rcases hcases r hmark with rfl | ⟨q, rfl⟩ | ⟨f, rfl⟩
  · rcases hcases r' hmark' with rfl | ⟨q', rfl⟩ | ⟨f', rfl⟩
    · rfl
    · cases h
    · cases h
  · rcases hcases r' hmark' with rfl | ⟨q', rfl⟩ | ⟨f', rfl⟩
    · cases h
    · simp only [queryAndFragment_query, Prod.mk.injEq, Option.some.injEq] at h
      have hfront := encode_inj (fun _ => inSpecialQuerySet_of_isControl)
        (fun hmem => htail hr (List.takeWhile_subset _ hmem))
        (fun hmem => htail hr' (List.takeWhile_subset _ hmem)) h.1
      have hback := fragment?_inj (fun hmem => htail hr (List.dropWhile_subset _ hmem))
        (fun hmem => htail hr' (List.dropWhile_subset _ hmem)) (head?_dropWhile_ne '#' q)
        (head?_dropWhile_ne '#' q') h.2
      rw [← List.takeWhile_append_dropWhile (p := (· ≠ '#')) (l := q), hfront, hback,
        List.takeWhile_append_dropWhile]
    · cases h
  · rcases hcases r' hmark' with rfl | ⟨q', rfl⟩ | ⟨f', rfl⟩
    · cases h
    · cases h
    · have hfragment : encode inFragmentSet f = encode inFragmentSet f' :=
        Option.some.inj (congrArg Prod.snd h)
      rw [encode_inj (fun _ => inFragmentSet_of_isControl) (htail hr) (htail hr') hfragment]

/-- On top of one place, faithful names are told apart by what they are read as. -/
theorem reading_inj {place : List Segment} {n m : List Char} (hn : Faithful n) (hm : Faithful m)
    (h : reading place n = reading place m) : n = m := by
  obtain ⟨hparts, -, hback⟩ := splitPath_parts n
  obtain ⟨hparts', -, hback'⟩ := splitPath_parts m
  have hplain : ∀ {w : List Char}, Faithful w → ∀ s ∈ rawSegments true (splitPath w).1, Plain s := by
    intro w hw s hs
    refine ⟨fun hmem => hw.percent ?_, (hw.dots s hs).1, (hw.dots s hs).2⟩
    exact List.takeWhile_subset _ (of_mem_splitOnP hs hmem).1
  simp only [reading, hn.nameText_eq, hm.nameText_eq, Reading.mk.injEq,
    resolve_of_plain (hplain hn), resolve_of_plain (hplain hm)] at h
  obtain ⟨hsegments, hquery, hfragment⟩ := h
  have hraw := map_encode_inj (fun s hs => (hplain hn s hs).percent)
    (fun s hs => (hplain hm s hs).percent) (List.append_cancel_left hsegments)
  have hpath : (splitPath n).1 = (splitPath m).1 := by
    have hchars := congrArg segmentChars hraw
    rw [segmentChars_rawSegments hn.backslash, segmentChars_rawSegments hm.backslash] at hchars
    exact List.tail_eq_of_cons_eq hchars
  have hmarks : (splitPath n).2 = (splitPath m).2 :=
    queryAndFragment_inj (fun hmem => hn.percent (List.dropWhile_subset _ hmem))
      (fun hmem => hm.percent (List.dropWhile_subset _ hmem)) hback hback' (Prod.ext hquery hfragment)
  rw [← hparts, ← hparts', hpath, hmarks]

end DocQuery.Url

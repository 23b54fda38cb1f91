import DocQuery.Proofs.Url.Parts

/-! # URLs below a URL

A name put behind a slash at the end of a URL is read on top of it: behind a path as further segments,
behind a query or a fragment as more of that. A tidy text is one whose end the parser leaves alone, and
a collection of a tidy base lives below the URL of its base.
-/
namespace DocQuery.Url

open Connection (dropFinalSlash dropFinalSlash_concat dropFinalSlash_append parts_dropFinalSlash
  collectionAddress)

theorem prefix_dropFinalSlash (s : List Char) : dropFinalSlash s <+: s := by
  unfold dropFinalSlash
  split
  · exact List.dropLast_prefix s
  · exact List.prefix_rfl

theorem encode_append (set : Char → Bool) (s t : List Char) :
    encode set (s ++ t) = encode set s ++ encode set t :=
  List.flatMap_append

theorem encode_slash {set : Char → Bool} (h : set '/' = false) (t : List Char) :
    encode set ('/' :: t) = '/' :: encode set t := by
  simp [encode, encodeChar, h]

theorem encode_dropFinalSlash {set : Char → Bool} (h : set '/' = false) (s : List Char) :
    encode set (dropFinalSlash s) = dropFinalSlash (encode set s) := by
  cases s using List.reverseRecOn with
  | nil => rfl
  | append_singleton s c =>
    rw [dropFinalSlash_concat]
    by_cases hc : c = '/'
    · rw [if_pos hc, hc, encode_append, encode_slash h]
      exact (dropFinalSlash_concat (encode set s) '/').symm
    · have hlast : (encode set (s ++ [c])).getLast? ≠ some '/' := by
        have hslash : '/' ∉ encode set [c] :=
          not_mem_encode (by decide) (by decide) fun hmem => absurd (List.mem_singleton.1 hmem).symm hc
        have hne : encode set [c] ≠ [] := fun hnil => nomatch encode_eq_nil.1 hnil
        rw [encode_append, List.getLast?_append_of_ne_nil _ hne]
        exact fun hmem => hslash (List.mem_of_getLast? hmem)
      rw [if_neg hc, dropFinalSlash, if_neg hlast]

def fragment? : List Char → Option (List Char)
  | [] => none
  | _ :: f => some (encode inFragmentSet f)

theorem queryAndFragment_query (q : List Char) :
    queryAndFragment true ('?' :: q) =
      (some (encode inSpecialQuerySet (q.takeWhile (· ≠ '#'))), fragment? (q.dropWhile (· ≠ '#'))) := by
  simp only [queryAndFragment, if_true]
  cases q.dropWhile (· ≠ '#') <;> rfl

/-- The URL of a name behind a slash at the end of a URL. -/
def below (u : Url) (n : List Char) : Url :=
  match u.fragment with
  | some f => { u with fragment := some (dropFinalSlash f ++ '/' :: encode inFragmentSet n) }
  | none => match u.query with
    | some q => { u with
        query := some (dropFinalSlash q ++ '/' :: encode inSpecialQuerySet (n.takeWhile (· ≠ '#')))
        fragment := fragment? (n.dropWhile (· ≠ '#')) }
    | none => match u.path with
      | .flat _ => u
      | .segments ss =>
        assemble u.scheme u.authority
          (.segments (resolve (stem ss) (rawSegments true (splitPath n).1))) (splitPath n).2

theorem below_parts (u : Url) (n : List Char) :
    (u.below n).scheme = u.scheme ∧ (u.below n).authority = u.authority ∧
      ∀ v : Url, u.scheme = v.scheme → u.path = v.path → u.query = v.query →
        u.fragment = v.fragment → (u.below n).path = (v.below n).path ∧
          (u.below n).query = (v.below n).query ∧ (u.below n).fragment = (v.below n).fragment := by
  obtain ⟨scheme, authority, path, query, fragment⟩ := u
  refine ⟨?_, ?_, ?_⟩
  · cases fragment <;> cases query <;> cases path <;> rfl
  · cases fragment <;> cases query <;> cases path <;> rfl
  · rintro ⟨_, _, _, _, _⟩ rfl rfl rfl rfl
    cases fragment <;> cases query <;> cases path <;> exact ⟨rfl, rfl, rfl⟩

/-- URLs of one text have one text below them. -/
theorem chars_below {u v : Url} (hu : u.Regular) (hv : v.Regular) (h : u.chars = v.chars)
    (n : List Char) : (u.below n).chars = (v.below n).chars := by
  obtain ⟨hscheme, hauthority, hpath, hquery, hfragment⟩ := eq_parts hu hv h
  obtain ⟨hsu, hau, hrest⟩ := u.below_parts n
  obtain ⟨hsv, hav, -⟩ := v.below_parts n
  obtain ⟨hpath', hquery', hfragment'⟩ := hrest v hscheme hpath hquery hfragment
  obtain ⟨-, -, -, hsome, -⟩ := hu.path
  obtain ⟨-, -, -, hsome', -⟩ := hv.path
  have hauthority' : (u.below n).authorityChars = (v.below n).authorityChars := by
    rw [authorityChars, hau, authorityChars, hav]
    exact hauthority
  simp only [chars, hauthority', hsu, hsv, hau, hav, hsome, hsome', hscheme, hpath', hquery',
    hfragment']

theorem splitPath_parts (s : List Char) :
    (splitPath s).1 ++ (splitPath s).2 = s ∧ (∀ c ∈ (splitPath s).1, endsPath c = false) ∧
      ∀ c ∈ (splitPath s).2.head?, endsPath c = true := by
  refine ⟨List.takeWhile_append_dropWhile, fun c hc => ?_, fun c hc => ?_⟩
  · have hpos := List.mem_takeWhile_imp hc
    simpa using hpos
  · have hneg := head?_dropWhile (fun c => !endsPath c) s c hc
    simpa using hneg

theorem splitPath_append {s r : List Char} (hs : ∀ c ∈ s, endsPath c = false)
    (hr : ∀ c ∈ r.head?, endsPath c = true) : splitPath (s ++ r) = (s, r) := by
  obtain ⟨hparts, hfront, hback⟩ := splitPath_parts (s ++ r)
  obtain ⟨hpath, hrest⟩ := append_inj_of_ended (p := fun c => !endsPath c)
    (fun c hc => congrArg not (hfront c hc)) (fun c hc => congrArg not (hs c hc))
    (fun c hc => congrArg not (hback c hc)) (fun c hc => congrArg not (hr c hc)) hparts
  exact Prod.ext hpath hrest

theorem isSlash_of_ended {t : List Char} (ht : Ended t) (hpath : ∀ c ∈ t, endsPath c = false) :
    ∀ c ∈ t.head?, isSlash true c = true := by
  intro c hc
  have hmark : endsPath c = false := hpath c (List.mem_of_mem_head? hc)
  simpa [inAuthority, endsAuthority, hmark] using ht c hc

/-- Behind text of a path a slash leads to the place of the text, and what follows is read on top. -/
theorem ofPathText_append_slash {scheme t : List Char} (a : Authority) (ht : Ended t)
    (hpath : ∀ c ∈ t, endsPath c = false) (n : List Char) :
    ofPathText scheme a (t ++ '/' :: n) =
      assemble scheme (some a) (.segments (resolve (place t) (rawSegments true (splitPath n).1)))
        (splitPath n).2 := by
  obtain ⟨hparts, hfront, hback⟩ := splitPath_parts n
  have hmarks : ∀ c ∈ t ++ '/' :: (splitPath n).1, endsPath c = false := by
    intro c hc
    rcases List.mem_append.1 hc with hc | hc
    · exact hpath c hc
    · rcases List.mem_cons.1 hc with rfl | hc
      · rfl
      · exact hfront c hc
  have hsplit : splitPath (t ++ '/' :: n) = (t ++ '/' :: (splitPath n).1, (splitPath n).2) := by
    rw [← splitPath_append hmarks hback, List.append_assoc, List.cons_append, hparts]
  simp only [ofPathText, hsplit, specialPath_append_slash (isSlash_of_ended ht hpath)]

theorem splitPath_of_forall {t : List Char} (h : ∀ c ∈ t, endsPath c = false) :
    splitPath t = (t, []) := by
  simpa using splitPath_append h (r := []) fun c hc => nomatch hc

theorem ofPathText_below_path {scheme t : List Char} (a : Authority) (ht : Ended t)
    (hpath : ∀ c ∈ t, endsPath c = false) (hlast : t.getLast? ≠ some '\\') (n : List Char) :
    ofPathText scheme a (dropFinalSlash t ++ '/' :: n) = (ofPathText scheme a t).below n := by
  have hfront := prefix_dropFinalSlash t
  have hended : Ended (dropFinalSlash t) := by
    intro c hc
    obtain ⟨w, hw⟩ := hfront
    have hhead : (dropFinalSlash t ++ w).head? = (dropFinalSlash t).head?.or w.head? := List.head?_append
    rw [hw, hc] at hhead
    exact ht c hhead
  rw [ofPathText_append_slash a hended fun c hc => hpath c (hfront.subset hc),
    place_dropFinalSlash (isSlash_of_ended ht hpath) hlast]
  simp only [ofPathText, splitPath_of_forall hpath]
  rfl

theorem ofPathText_below_mark {scheme s r : List Char} {c : Char} (a : Authority)
    (hs : schemeKind scheme = .special) (hpath : ∀ c ∈ s, endsPath c = false) (hc : endsPath c = true)
    (n : List Char) :
    ofPathText scheme a (dropFinalSlash (s ++ c :: r) ++ '/' :: n) =
      (ofPathText scheme a (s ++ c :: r)).below n := by
  have hne : c ≠ '/' := by rintro rfl; cases hc
  have hspecial := isSpecial_of_special hs
  have hsplit : ∀ w, splitPath (s ++ c :: w) = (s, c :: w) := fun w =>
    splitPath_append hpath fun d hd => by
      obtain rfl : c = d := by simpa using hd
      exact hc
  have hquery : inSpecialQuerySet '/' = false := by decide
  have hfragment : inFragmentSet '/' = false := by decide
  rw [dropFinalSlash_append hne, List.append_assoc, List.cons_append]
  simp only [ofPathText, hsplit, assemble, hspecial]
  obtain rfl | rfl : c = '?' ∨ c = '#' := by simpa [endsPath] using hc
  · have hin : ∀ {w : List Char}, '#' ∉ w → ∀ d ∈ w, decide (d ≠ '#') = true :=
      fun hw d hd => decide_eq_true fun heq => hw (heq ▸ hd)
    simp only [queryAndFragment_query]
    by_cases hhash : '#' ∈ r
    · -- The hash stays where it is, and the name goes to the fragment.
      obtain ⟨q, f, rfl, hq⟩ := List.eq_append_cons_of_mem hhash
      have hcut : ∀ w, (q ++ '#' :: w).takeWhile (· ≠ '#') = q ∧
          (q ++ '#' :: w).dropWhile (· ≠ '#') = '#' :: w := by
        intro w
        rw [List.takeWhile_append_of_pos (hin hq), List.dropWhile_append_of_pos (hin hq)]
        simp
      rw [dropFinalSlash_append (by decide : '#' ≠ '/'), List.append_assoc, List.cons_append]
      simp only [(hcut _).1, (hcut _).2, fragment?, below, encode_append, encode_slash hfragment,
        encode_dropFinalSlash hfragment]
    · have hdrop : '#' ∉ dropFinalSlash r := by
        unfold dropFinalSlash
        split
        · exact fun hmem => hhash (List.dropLast_subset r hmem)
        · exact hhash
      have hwhole : r.takeWhile (· ≠ '#') = r ∧ r.dropWhile (· ≠ '#') = [] :=
        ⟨List.takeWhile_eq_self_iff.2 (hin hhash), List.dropWhile_eq_nil_iff.2 (hin hhash)⟩
      rw [List.takeWhile_append_of_pos (hin hdrop), List.dropWhile_append_of_pos (hin hdrop),
        hwhole.1, hwhole.2]
      simp [below, fragment?, encode_append, encode_slash hquery, encode_dropFinalSlash hquery]
  · simp only [below, queryAndFragment, encode_append, encode_slash hfragment,
      encode_dropFinalSlash hfragment]

theorem ofPathText_below {scheme t : List Char} (a : Authority) (hs : schemeKind scheme = .special)
    (ht : Ended t) (hlast : t.getLast? = some '\\' → (splitPath t).2 ≠ []) (n : List Char) :
    ofPathText scheme a (dropFinalSlash t ++ '/' :: n) = (ofPathText scheme a t).below n := by
  obtain ⟨hparts, hfront, hback⟩ := splitPath_parts t
  cases hr : (splitPath t).2 with
  | nil =>
    have hpath : ∀ c ∈ t, endsPath c = false := by
      rw [← hparts, hr, List.append_nil]
      exact hfront
    exact ofPathText_below_path a ht hpath (fun h => hlast h hr) n
  | cons c r =>
    have hc : endsPath c = true := hback c (by rw [hr]; rfl)
    rw [hr] at hparts
    rw [← hparts]
    exact ofPathText_below_mark a hs hfront hc n

/-- What is read of a name: not the blanks and controls at its end, and no breaks. -/
def nameText (name : List Char) : List Char := dropBreaks (name.rdropWhile isTrimmed)

theorem nameText_of_forall {n : List Char} (hbreak : ∀ c ∈ n, isBreak c = false)
    (hlast : ∀ c ∈ n.getLast?, isTrimmed c = false) : nameText n = n := by
  have htrim : n.rdropWhile isTrimmed = n := by
    refine List.rdropWhile_eq_self_iff.2 fun hne => ?_
    simp [hlast _ (List.getLast_mem_getLast? hne)]
  rw [nameText, htrim, dropBreaks, List.filter_eq_self.2 fun c hc => by simp [hbreak c hc]]

/-- A server that is read is not empty. -/
theorem ne_nil_of_splitAuthority {scheme s r : List Char} {a : Authority}
    (hs : schemeKind scheme = .special) (h : splitAuthority scheme s = .ok (a, r)) : s ≠ [] := by
  rintro rfl
  rw [splitAuthority_nil (isSpecial_of_special hs)] at h
  cases h

theorem serverText_dropFinalSlash_ne_nil {x : List Char} (h : serverText x ≠ []) :
    serverText (dropFinalSlash x) ≠ [] := by
  unfold dropFinalSlash
  split
  · rename_i hlast
    intro hnil
    have hx : x.dropLast ++ ['/'] = x := List.dropLast_append_getLast? _ hlast
    exact h (by rw [← hx]; exact serverText_eq_nil_of_append_slash hnil)
  · exact h

/-- The URL of a base, and those of the names put behind it, are read from the same text behind the
scheme; one slash at its end makes no difference to names. -/
theorem exists_join {base : String} {u : Url} (hu : Url.parse base = .ok u)
    (hscheme : schemeKind u.scheme = .special) :
    ∃ p x a, base.toList = p ++ ':' :: x ∧ x ≠ [] ∧
      splitAuthority u.scheme (serverText (x.rdropWhile isTrimmed)) = .ok (a, []) ∧
      u = ofPathText u.scheme a (pathText (x.rdropWhile isTrimmed)) ∧
      ∀ name v, Url.parse (collectionAddress base name) = .ok v ↔
        ∃ b, splitAuthority u.scheme (serverText (dropFinalSlash x)) = .ok (b, []) ∧
          v = ofPathText u.scheme b (pathText (dropFinalSlash x) ++ '/' :: nameText name.toList) := by
  obtain ⟨r, hsplit⟩ := exists_splitScheme hu hscheme
  obtain ⟨p, x, hbase, hkeep⟩ := splitScheme_trim hsplit
  have hread := fun y {w} => parseChars_iff (u := w) (hkeep y) hscheme
  obtain ⟨a, ha, hu'⟩ := (hread x).1 (by rw [← hbase]; exact hu)
  have hserver := ne_nil_of_splitAuthority hscheme ha
  have hx : serverText x ≠ [] := by
    have htrim : ∀ c ∈ x.rtakeWhile isTrimmed, isTrimmed c = true :=
      fun c hc => List.mem_rtakeWhile_imp hc
    obtain ⟨w, hw, -⟩ := serverText_append_trimmed hserver htrim
    rw [List.rdropWhile_append_rtakeWhile] at hw
    simp [hw, hserver]
  have hne : serverText (dropFinalSlash x) ≠ [] := serverText_dropFinalSlash_ne_nil hx
  refine ⟨p, x, a, hbase, by rintro rfl; exact hx rfl, ha, hu', fun name v => ?_⟩
  have htext : (collectionAddress base name).toList =
      p ++ ':' :: (dropFinalSlash x ++ '/' :: name.toList) := by
    simp [collectionAddress, hbase, dropFinalSlash_append (show ':' ≠ '/' by decide)]
  have hname : (dropFinalSlash x ++ '/' :: name.toList).rdropWhile isTrimmed =
      dropFinalSlash x ++ '/' :: name.toList.rdropWhile isTrimmed :=
    rdropWhile_append_cons (by decide) _ _
  rw [Url.parse, htext, hread, hname, serverText_append_slash hne, pathText_append_slash hne]
  rfl

/-- A text of a special scheme is read as a regular URL. -/
theorem regular_parse {base : String} {u : Url} (hu : Url.parse base = .ok u)
    (hscheme : schemeKind u.scheme = .special) : u.Regular := by
  obtain ⟨-, x, a, -, -, ha, hu', -⟩ := exists_join hu hscheme
  have hregular := regular_ofPathText hscheme ha (pathText (x.rdropWhile isTrimmed))
  rwa [← hu'] at hregular

/-- A text of a URL whose end is kept as it stands: it does not end in a blank or a control, a slash at
its end is not hidden by breaks, and there is no backslash for a slash. -/
structure Tidy (base : List Char) (u : Url) : Prop where
  blank : ∀ c ∈ (dropBreaks base).getLast?, isTrimmed c = false
  slash : (dropBreaks base).getLast? = some '/' → base.getLast? = some '/'
  backslash : (dropBreaks base).getLast? = some '\\' → u.query.isSome = true ∨ u.fragment.isSome = true

instance (base : List Char) (u : Url) : Decidable (Tidy base u) :=
  decidable_of_iff
    ((dropBreaks base).getLast?.all (!isTrimmed ·) = true ∧
      ((dropBreaks base).getLast? = some '/' → base.getLast? = some '/') ∧
      ((dropBreaks base).getLast? = some '\\' → u.query.isSome = true ∨ u.fragment.isSome = true))
    ⟨fun ⟨hblank, hslash, hbackslash⟩ =>
        ⟨fun c hc => by simpa [Option.mem_def.1 hc] using hblank, hslash, hbackslash⟩,
      fun h => ⟨by simpa [Option.all_eq_true] using h.blank, h.slash, h.backslash⟩⟩

theorem serverText_dropBreaks (s : List Char) : serverText (dropBreaks s) = serverText s := by
  rw [serverText, dropBreaks_idem, serverText]

theorem pathText_dropBreaks (s : List Char) : pathText (dropBreaks s) = pathText s := by
  rw [pathText, dropBreaks_idem, pathText]

theorem getLast?_append_cons {s t : List Char} (c : Char) (ht : t ≠ []) :
    (s ++ c :: t).getLast? = t.getLast? := by
  rw [List.getLast?_append_of_ne_nil _ (List.cons_ne_nil c t), List.getLast?_cons_of_ne_nil ht]

section
variable {p x : List Char} (hx : dropBreaks x ≠ [])
include hx

theorem getLast?_dropBreaks : (dropBreaks (p ++ ':' :: x)).getLast? = (dropBreaks x).getLast? := by
  rw [dropBreaks_append_cons (by decide), getLast?_append_cons ':' hx]

variable {u : Url} (ht : Tidy (p ++ ':' :: x) u)
include ht

theorem dropBreaks_trimmed : dropBreaks (x.rdropWhile isTrimmed) = dropBreaks x := by
  have hparts : dropBreaks x =
      dropBreaks (x.rdropWhile isTrimmed) ++ dropBreaks (x.rtakeWhile isTrimmed) := by
    rw [← dropBreaks_append, List.rdropWhile_append_rtakeWhile]
  cases hw : dropBreaks (x.rtakeWhile isTrimmed) with
  | nil => rw [hparts, hw, List.append_nil]
  | cons d w =>
    -- The last of what is trimmed would be the last of the text.
    have hne : dropBreaks (x.rtakeWhile isTrimmed) ≠ [] := by rw [hw]; exact List.cons_ne_nil d w
    have hlast : (dropBreaks x).getLast? = some ((dropBreaks (x.rtakeWhile isTrimmed)).getLast hne) := by
      rw [hparts, List.getLast?_append_of_ne_nil _ hne, List.getLast?_eq_some_getLast hne]
    have hmem := List.mem_of_mem_filter (List.getLast_mem hne)
    have htrim : isTrimmed _ = true := List.mem_rtakeWhile_imp hmem
    rw [ht.blank _ (by rw [getLast?_dropBreaks hx, hlast]; rfl)] at htrim
    cases htrim

theorem dropBreaks_dropFinalSlash : dropBreaks (dropFinalSlash x) = dropFinalSlash (dropBreaks x) := by
  by_cases hlast : x.getLast? = some '/'
  · obtain ⟨y, rfl⟩ : ∃ y, x = y ++ ['/'] :=
      ⟨x.dropLast, (List.dropLast_append_getLast? _ hlast).symm⟩
    have hbreaks : dropBreaks (y ++ ['/']) = dropBreaks y ++ ['/'] :=
      dropBreaks_append_cons (by decide) y []
    rw [hbreaks, dropFinalSlash_concat, dropFinalSlash_concat, if_pos rfl, if_pos rfl]
  · have hne : x ≠ [] := by
      rintro rfl
      exact hx rfl
    have hlast' : (dropBreaks x).getLast? ≠ some '/' := by
      intro h
      rw [← getLast?_dropBreaks hx] at h
      exact hlast (by rw [← ht.slash h, getLast?_append_cons ':' hne])
    simp [dropFinalSlash, hlast, hlast']

end

/-- A name put behind a tidy base is read below the URL of the base. -/
theorem parse_collectionAddress {base : String} {u : Url} (hu : Url.parse base = .ok u)
    (hscheme : schemeKind u.scheme = .special) (ht : Tidy base.toList u) (name : String) :
    Url.parse (collectionAddress base name) = .ok (u.below (nameText name.toList)) := by
  obtain ⟨p, x, a, hbase, -, ha, hu', hjoin⟩ := exists_join hu hscheme
  rw [hbase] at ht
  have hserver := ne_nil_of_splitAuthority hscheme ha
  have hx : dropBreaks x ≠ [] := by
    intro hnil
    have hfront : dropBreaks (x.rdropWhile isTrimmed) = [] := by
      rw [← List.rdropWhile_append_rtakeWhile (p := isTrimmed) (l := x), dropBreaks_append] at hnil
      exact (List.append_eq_nil_iff.1 hnil).1
    exact hserver (by rw [serverText, hfront]; rfl)
  rw [← serverText_dropBreaks, dropBreaks_trimmed hx ht] at ha hserver
  rw [← pathText_dropBreaks, dropBreaks_trimmed hx ht] at hu'
  obtain ⟨hserver', hpath'⟩ := parts_dropFinalSlash (dropBreaks_idem x) hserver
  have hlast : (pathText (dropBreaks x)).getLast? = some '\\' →
      (splitPath (pathText (dropBreaks x))).2 ≠ [] := by
    intro hback hnil
    have hwhole : (dropBreaks x).getLast? = some '\\' := by
      obtain ⟨w, hw⟩ := pathText_suffix x
      rw [pathText_dropBreaks] at hback
      rw [← hw, List.getLast?_append, hback]
      rfl
    have hmark := ht.backslash (by rw [getLast?_dropBreaks hx, hwhole])
    rw [hu'] at hmark
    simp only [ofPathText, hnil, assemble] at hmark
    rcases hmark with hmark | hmark <;> cases hmark
  have hbelow := ofPathText_below a hscheme (ended_pathText _) hlast (nameText name.toList)
  rw [← hu'] at hbelow
  rw [hjoin, ← serverText_dropBreaks, ← pathText_dropBreaks, dropBreaks_dropFinalSlash hx ht, hserver',
    hpath']
  exact ⟨a, ha, hbelow.symm⟩

end DocQuery.Url

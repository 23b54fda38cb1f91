import DocQuery.Connection
import DocQuery.Proofs.Url.Authority

/-! # The server a text names

A text is read as a scheme and, behind the slashes after it, the text of the server up to the next
end of an authority. What is written behind a slash leaves both as they are, and so a collection
lives on the server of its base.
-/
namespace DocQuery.Url

theorem trim_eq (s : List Char) : trim s = (s.dropWhile isTrimmed).rdropWhile isTrimmed := rfl

theorem rdropWhile_append_cons {p : Char → Bool} {c : Char} (hc : p c = false) (s t : List Char) :
    (s ++ c :: t).rdropWhile p = s ++ c :: t.rdropWhile p := by
  have hfirst : ∀ d ∈ (c :: s.reverse).head?, p d = false := by simpa using hc
  have hreverse : (s ++ c :: t).reverse = t.reverse ++ c :: s.reverse := by simp
  simp [List.rdropWhile, hreverse, dropWhile_append_of_head hfirst]

theorem splitScheme_parts {s scheme r : List Char} (h : splitScheme s = some (scheme, r)) :
    ∃ k, s = k ++ ':' :: r ∧ (∀ c ∈ k, inScheme c = true) ∧ k ≠ [] ∧
      ∀ y, splitScheme (k ++ ':' :: y) = some (scheme, y) := by
  have hin : ∀ c ∈ s.takeWhile inScheme, inScheme c = true := fun c hc => List.mem_takeWhile_imp hc
  have hsplit : s.takeWhile inScheme ++ s.dropWhile inScheme = s := List.takeWhile_append_dropWhile
  unfold splitScheme at h
  generalize s.takeWhile inScheme = k at *
  generalize s.dropWhile inScheme = t at *
  split at h
  · rename_i c cs r' hk
    split at h
    · rename_i hc
      cases h
      refine ⟨k, hsplit.symm, hin, ?_, ?_⟩
      · rintro rfl
        cases hk
      · intro y
        have hcolon : inScheme ':' = false := by decide
        have htake : (k ++ ':' :: y).takeWhile inScheme = k := by
          rw [List.takeWhile_append_of_pos hin, List.takeWhile_cons_of_neg (by simp [hcolon]),
            List.append_nil]
        have hdrop : (k ++ ':' :: y).dropWhile inScheme = ':' :: y := by
          rw [List.dropWhile_append_of_pos hin, List.dropWhile_cons_of_neg (by simp [hcolon])]
        simp [splitScheme, htake, hdrop, hk, hc]
    · cases h
  · cases h

/-- A text keeps its scheme when what stands behind the colon is changed. -/
theorem splitScheme_trim {s scheme r : List Char} (h : splitScheme (trim s) = some (scheme, r)) :
    ∃ p x, s = p ++ ':' :: x ∧
      ∀ y, splitScheme (trim (p ++ ':' :: y)) = some (scheme, y.rdropWhile isTrimmed) := by
  obtain ⟨k, hk, -, hne, hkeep⟩ := splitScheme_parts h
  have hcolon : isTrimmed ':' = false := by decide
  -- What was trimmed stands in front of the scheme and behind the rest.
  have hlead : s.takeWhile isTrimmed ++ s.dropWhile isTrimmed = s := List.takeWhile_append_dropWhile
  have htail : trim s ++ (s.dropWhile isTrimmed).rtakeWhile isTrimmed = s.dropWhile isTrimmed :=
    List.rdropWhile_append_rtakeWhile
  have hhead : ∀ c ∈ k.head?, isTrimmed c = false := by
    intro c hc
    have hfirst := List.head?_dropWhile_not isTrimmed s
    rw [← htail, hk, List.append_assoc, List.head?_append_of_ne_nil _ hne, hc] at hfirst
    exact hfirst
  refine ⟨s.takeWhile isTrimmed ++ k, r ++ (s.dropWhile isTrimmed).rtakeWhile isTrimmed, ?_, ?_⟩
  · calc s = s.takeWhile isTrimmed ++ s.dropWhile isTrimmed := hlead.symm
      _ = s.takeWhile isTrimmed ++ (k ++ ':' :: r ++
          (s.dropWhile isTrimmed).rtakeWhile isTrimmed) := by rw [← hk, htail]
      _ = _ := by simp
  · intro y
    have hlead' : ∀ c ∈ s.takeWhile isTrimmed, isTrimmed c = true :=
      fun c hc => List.mem_takeWhile_imp hc
    have hdrop : (k ++ ':' :: y).dropWhile isTrimmed = k ++ ':' :: y := by
      cases k with
      | nil => exact absurd rfl hne
      | cons c k => simp [hhead c rfl]
    rw [trim_eq, List.append_assoc, List.dropWhile_append_of_pos hlead', hdrop,
      rdropWhile_append_cons hcolon, hkeep]

/-- The text of the server behind a special scheme and its colon. -/
def serverText (s : List Char) : List Char :=
  ((dropBreaks s).dropWhile (isSlash true)).takeWhile inAuthority

/-- The text behind the server of a special scheme: path, query and fragment. -/
def pathText (s : List Char) : List Char :=
  ((dropBreaks s).dropWhile (isSlash true)).dropWhile inAuthority

theorem serverText_append_pathText (s : List Char) :
    serverText s ++ pathText s = (dropBreaks s).dropWhile (isSlash true) :=
  List.takeWhile_append_dropWhile

theorem inAuthority_of_mem_serverText (s : List Char) : ∀ c ∈ serverText s, inAuthority c = true :=
  fun _ hc => List.mem_takeWhile_imp hc

theorem ended_pathText (s : List Char) : Ended (pathText s) := ended_dropWhile _

theorem pathText_suffix (s : List Char) : pathText s <:+ dropBreaks s :=
  (List.dropWhile_suffix _).trans (List.dropWhile_suffix _)

theorem dropBreaks_append (s t : List Char) :
    dropBreaks (s ++ t) = dropBreaks s ++ dropBreaks t := by
  simp [dropBreaks]

theorem dropBreaks_append_cons {c : Char} (hc : isBreak c = false) (s t : List Char) :
    dropBreaks (s ++ c :: t) = dropBreaks s ++ c :: dropBreaks t := by
  simp [dropBreaks, hc]

theorem not_inAuthority_slash (t : List Char) : ∀ c ∈ ('/' :: t).head?, inAuthority c = false := by
  rintro _ ⟨⟩
  rfl

theorem dropWhile_isSlash_append {s : List Char} (h : serverText s ≠ []) (t : List Char) :
    (dropBreaks s ++ t).dropWhile (isSlash true) = (dropBreaks s).dropWhile (isSlash true) ++ t := by
  have hne : (dropBreaks s).dropWhile (isSlash true) ≠ [] := by
    intro hnil
    exact h (by rw [serverText, hnil]; rfl)
  rw [List.dropWhile_append, if_neg (by simpa using hne)]

section
variable {s : List Char} (h : serverText s ≠ [])
include h

theorem serverText_append_slash (t : List Char) : serverText (s ++ '/' :: t) = serverText s := by
  rw [serverText, dropBreaks_append_cons (by decide), dropWhile_isSlash_append h,
    takeWhile_append_of_head (not_inAuthority_slash _), serverText]

theorem pathText_append_slash (t : List Char) :
    pathText (s ++ '/' :: t) = pathText s ++ '/' :: dropBreaks t := by
  rw [pathText, dropBreaks_append_cons (by decide), dropWhile_isSlash_append h,
    dropWhile_append_of_head (not_inAuthority_slash _), pathText]

end

theorem serverText_eq_nil_of_append_slash {s : List Char} (h : serverText s = []) :
    serverText (s ++ ['/']) = [] := by
  rw [serverText, dropBreaks_append_cons (by decide), List.dropWhile_append]
  split
  · rfl
  · rw [takeWhile_append_of_head (not_inAuthority_slash _)]
    exact h

/-- Trimmed characters behind a server become part of it, but for the breaks among them. -/
theorem serverText_append_trimmed {s w : List Char} (h : serverText s ≠ [])
    (hw : ∀ c ∈ w, isTrimmed c = true) :
    ∃ w', serverText (s ++ w) = serverText s ++ w' ∧ ∀ c ∈ w', isTrimmed c = true := by
  have hbreaks : ∀ c ∈ dropBreaks w, isTrimmed c = true := fun c hc => hw c (List.mem_of_mem_filter hc)
  rw [serverText, dropBreaks_append, dropWhile_isSlash_append h, List.takeWhile_append]
  split
  · rename_i hwhole
    refine ⟨dropBreaks w, ?_, hbreaks⟩
    have hall : (dropBreaks w).takeWhile inAuthority = dropBreaks w :=
      List.takeWhile_eq_self_iff.2 fun c hc => inAuthority_of_isTrimmed (hbreaks c hc)
    have hserver : serverText s = (dropBreaks s).dropWhile (isSlash true) :=
      (List.takeWhile_prefix _).eq_of_length hwhole
    rw [hall, hserver]
  · exact ⟨[], by simp [serverText], by simp⟩

def ofPathText (scheme : List Char) (a : Authority) (t : List Char) : Url :=
  assemble scheme (some a) (.segments (specialPath (splitPath t).1)) (splitPath t).2

/-- A special scheme reads its server, and what is behind it apart from it. -/
theorem parseSpecial_iff {scheme s : List Char} {u : Url} (hs : (schemeKind scheme).isSpecial = true) :
    parseSpecial scheme (dropBreaks s) = .ok u ↔
      ∃ a, splitAuthority scheme (serverText s) = .ok (a, []) ∧ u = ofPathText scheme a (pathText s) := by
  have hread := fun {a r} =>
    splitAuthority_append_eq_ok (a := a) (r := r) hs (inAuthority_of_mem_serverText s) (ended_pathText s)
  unfold parseSpecial
  rw [← serverText_append_pathText]
  constructor
  · intro h
    cases ha : splitAuthority scheme (serverText s ++ pathText s) with
    | error e => simp [ha] at h
    | ok x =>
      obtain ⟨a, r⟩ := x
      obtain ⟨hserver, rfl⟩ := hread.1 ha
      rw [ha] at h
      exact ⟨a, hserver, (Except.ok.inj h).symm⟩
  · rintro ⟨a, ha, rfl⟩
    rw [hread.2 ⟨ha, rfl⟩]
    rfl

theorem parsePlain_scheme {scheme s : List Char} {u : Url} (h : parsePlain scheme s = .ok u) :
    u.scheme = scheme := by
  unfold parsePlain at h
  split at h
  · split at h
    · cases h
    · cases h
      rfl
  · cases h
    rfl
  · cases h
    rfl

theorem parseFile_scheme {scheme s : List Char} {u : Url} (h : parseFile scheme s = .ok u) :
    u.scheme = scheme := by
  unfold parseFile at h
  split at h
  · cases h
    rfl
  · split at h
    · cases h
      rfl
    · simp only at h
      split at h
      · cases h
        rfl
      · split at h
        · cases h
        · cases h
          rfl

theorem isSpecial_of_special {scheme : List Char} (h : schemeKind scheme = .special) :
    (schemeKind scheme).isSpecial = true := by
  rw [h]
  rfl

theorem parseChars_iff {s scheme r : List Char} {u : Url} (hs : splitScheme (trim s) = some (scheme, r))
    (hscheme : schemeKind scheme = .special) :
    parseChars s = .ok u ↔
      ∃ a, splitAuthority scheme (serverText r) = .ok (a, []) ∧ u = ofPathText scheme a (pathText r) := by
  have hparse : parseChars s = parseSpecial scheme (dropBreaks r) := by
    simp only [parseChars, hs, hscheme]
  rw [hparse, parseSpecial_iff (isSpecial_of_special hscheme)]

theorem exists_splitScheme {s : List Char} {u : Url} (h : parseChars s = .ok u)
    (hu : schemeKind u.scheme = .special) : ∃ r, splitScheme (trim s) = some (u.scheme, r) := by
  unfold parseChars at h
  split at h
  · cases h
  · rename_i scheme r hscheme
    split at h
    · rename_i hkind
      rw [parseFile_scheme h, hkind] at hu
      cases hu
    · rename_i hkind
      obtain ⟨a, -, rfl⟩ := (parseSpecial_iff (isSpecial_of_special hkind)).1 h
      exact ⟨r, hscheme⟩
    · rename_i hkind
      rw [parsePlain_scheme h, hkind] at hu
      cases hu

/-- What a URL of a special scheme was read from. -/
theorem parseChars_eq_ok {s : List Char} {u : Url} (h : parseChars s = .ok u)
    (hu : schemeKind u.scheme = .special) :
    ∃ r, splitScheme (trim s) = some (u.scheme, r) ∧
      ∃ a, u.authority = some a ∧ splitAuthority u.scheme (serverText r) = .ok (a, []) := by
  obtain ⟨r, hr⟩ := exists_splitScheme h hu
  obtain ⟨a, ha, hparts⟩ := (parseChars_iff hr hu).1 h
  exact ⟨r, hr, a, by rw [hparts]; rfl, ha⟩

end DocQuery.Url

namespace DocQuery.Connection

open Url

theorem dropFinalSlash_concat (s : List Char) (c : Char) :
    dropFinalSlash (s ++ [c]) = if c = '/' then s else s ++ [c] := by
  simp [dropFinalSlash]

theorem dropFinalSlash_append {c : Char} (hc : c ≠ '/') (s t : List Char) :
    dropFinalSlash (s ++ c :: t) = s ++ c :: dropFinalSlash t := by
  induction t using List.reverseRecOn with
  | nil => rw [dropFinalSlash_concat, if_neg hc]; rfl
  | append_singleton t d =>
    have hassoc : s ++ c :: (t ++ [d]) = (s ++ c :: t) ++ [d] := by simp
    rw [hassoc, dropFinalSlash_concat, dropFinalSlash_concat]
    split
    · rfl
    · simp

/-- One slash at the end of a text without breaks is no part of the server. -/
theorem parts_dropFinalSlash {s : List Char} (hs : dropBreaks s = s) (h : serverText s ≠ []) :
    serverText (dropFinalSlash s) = serverText s ∧
      pathText (dropFinalSlash s) = dropFinalSlash (pathText s) := by
  by_cases hlast : s.getLast? = some '/'
  · obtain ⟨y, rfl⟩ : ∃ y, s = y ++ ['/'] :=
      ⟨s.dropLast, (List.dropLast_append_getLast? _ hlast).symm⟩
    have hy : serverText y ≠ [] := fun hnil => h (serverText_eq_nil_of_append_slash hnil)
    have hpath : pathText (y ++ ['/']) = pathText y ++ ['/'] := pathText_append_slash hy []
    rw [dropFinalSlash_concat, if_pos rfl, serverText_append_slash hy, hpath, dropFinalSlash_concat,
      if_pos rfl]
    exact ⟨rfl, rfl⟩
  · have hpath : (pathText s).getLast? ≠ some '/' := by
      intro hslash
      obtain ⟨t, ht⟩ := pathText_suffix s
      rw [hs] at ht
      rw [← ht, List.getLast?_append, hslash] at hlast
      exact hlast rfl
    simp [dropFinalSlash, hlast, hpath]

/-- The joined text names the server of its base, with the blanks behind the base at most. -/
theorem serverText_join {x : List Char} (h : serverText (x.rdropWhile isTrimmed) ≠ [])
    (name : List Char) :
    ∃ w, serverText (dropFinalSlash x ++ '/' :: name) =
        serverText (x.rdropWhile isTrimmed) ++ w ∧ ∀ c ∈ w, isTrimmed c = true := by
  by_cases hlast : x.getLast? = some '/'
  · -- The base ends in a slash: nothing is trimmed.
    obtain ⟨y, rfl⟩ : ∃ y, x = y ++ ['/'] :=
      ⟨x.dropLast, (List.dropLast_append_getLast? _ hlast).symm⟩
    have hkept : (y ++ ['/']).rdropWhile isTrimmed = y ++ ['/'] := by
      rw [List.rdropWhile_concat_neg _ _ _ (by decide)]
    have hdrop : dropFinalSlash (y ++ ['/']) = y := by rw [dropFinalSlash_concat, if_pos rfl]
    rw [hkept] at h ⊢
    have hy : serverText y ≠ [] := fun hnil => h (serverText_eq_nil_of_append_slash hnil)
    refine ⟨[], ?_, by simp⟩
    rw [hdrop, serverText_append_slash hy, serverText_append_slash hy, List.append_nil]
  · have hdrop : dropFinalSlash x = x := by simp [dropFinalSlash, hlast]
    have hparts : x.rdropWhile isTrimmed ++ x.rtakeWhile isTrimmed = x :=
      List.rdropWhile_append_rtakeWhile
    have hblank : ∀ c ∈ x.rtakeWhile isTrimmed, isTrimmed c = true :=
      fun c hc => List.mem_rtakeWhile_imp hc
    obtain ⟨w, hw, hwtrim⟩ := serverText_append_trimmed h hblank
    rw [hparts] at hw
    have hx : serverText x ≠ [] := by
      rw [hw]
      simp [h]
    refine ⟨w, ?_, hwtrim⟩
    rw [hdrop, serverText_append_slash hx, hw]

/-- A collection lives on the server of its base: no name moves the end of the authority. -/
theorem join_server {base name : String} {u v : Url} (hu : Url.parse base = .ok u)
    (hscheme : schemeKind u.scheme = .special)
    (hv : Url.parse (collectionAddress base name) = .ok v) :
    v.scheme = u.scheme ∧ ∃ a, u.authority = some a ∧ v.authority = some a := by
  obtain ⟨r, hsplit, a, ha, hauthority⟩ := parseChars_eq_ok hu hscheme
  obtain ⟨p, x, hbase, hkeep⟩ := splitScheme_trim hsplit
  -- Base and joined text have one scheme; compare what stands behind it.
  have hr : r = x.rdropWhile isTrimmed := by
    have h := hkeep x
    rw [← hbase, hsplit] at h
    simpa using h
  have hjoined : splitScheme (trim (collectionAddress base name).toList) =
      some (u.scheme, dropFinalSlash x ++ '/' :: name.toList.rdropWhile isTrimmed) := by
    have htext : (collectionAddress base name).toList =
        p ++ ':' :: (dropFinalSlash x ++ '/' :: name.toList) := by
      simp [collectionAddress, hbase, dropFinalSlash_append (show ':' ≠ '/' by decide)]
    rw [htext, hkeep, rdropWhile_append_cons (by decide)]
  obtain ⟨b, hauthority', rfl⟩ := (parseChars_iff hjoined hscheme).1 hv
  have hspecial := isSpecial_of_special hscheme
  have hne : serverText r ≠ [] := by
    intro hnil
    rw [hnil, splitAuthority_nil hspecial] at hauthority
    cases hauthority
  rw [hr] at hauthority hne
  obtain ⟨w, hw, htrim⟩ := serverText_join hne (name.toList.rdropWhile isTrimmed)
  rw [hw] at hauthority'
  refine ⟨rfl, a, ha, ?_⟩
  cases w using List.reverseRecOn with
  | nil =>
    rw [List.append_nil, hauthority] at hauthority'
    cases hauthority'
    rfl
  | append_singleton w c =>
    -- A blank would end the authority.
    have hin : ∀ d ∈ serverText (x.rdropWhile isTrimmed) ++ (w ++ [c]), inAuthority d = true := by
      intro d hd
      rcases List.mem_append.1 hd with hd | hd
      · exact List.mem_takeWhile_imp hd
      · exact inAuthority_of_isTrimmed (htrim d hd)
    have hlast : (serverText (x.rdropWhile isTrimmed) ++ (w ++ [c])).getLast? = some c := by simp
    exact absurd hauthority'
      (splitAuthority_blank hspecial hin hlast (htrim c (by simp)) _)

end DocQuery.Connection

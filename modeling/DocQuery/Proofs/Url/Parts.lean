import DocQuery.Proofs.Url.Segments

/-! # The parts of the text of a URL

No part of a URL of a special scheme holds the mark that ends it: the scheme no colon, the authority no
slash, a segment no mark at all, the query no hash. So two URLs of one text agree part by part.
-/
namespace DocQuery.Url

theorem isSome_hexDigit?_upperHex : ∀ n < 16, (Text.hexDigit? (upperHex n)).isSome = true := by decide

/-- A character that is neither a percent sign nor a digit comes into encoded text only as it is. -/
theorem not_mem_encode {set : Char → Bool} {c : Char} (hpercent : c ≠ '%')
    (hhex : Text.hexDigit? c = none) {s : List Char} (h : c ∈ s → set c = true) :
    c ∉ encode set s := by
  intro hc
  obtain ⟨d, hd, hcd⟩ := List.mem_flatMap.1 hc
  unfold encodeChar at hcd
  split at hcd
  · obtain ⟨b, -, hb⟩ := List.mem_flatMap.1 hcd
    have hdigit : ∀ n < 16, c ≠ upperHex n := by
      rintro n hn rfl
      have hsome := isSome_hexDigit?_upperHex n hn
      rw [hhex] at hsome
      cases hsome
    have hlt : b.toNat < 256 := b.toNat_lt
    simp only [encodeByte, List.mem_cons, List.not_mem_nil, or_false] at hb
    rcases hb with rfl | hb | hb
    · exact hpercent rfl
    · exact hdigit _ (by omega) hb
    · exact hdigit _ (by omega) hb
  · rename_i hset
    obtain rfl := List.mem_singleton.1 hcd
    exact hset (h hd)

theorem slash_not_mem_toDigits {b : Nat} (hb : 1 < b) (hle : b ≤ 16) (n : Nat) :
    '/' ∉ Nat.toDigits b n := by
  have hdigit : ∀ k < 16, '/' ≠ Nat.digitChar k := by decide
  induction n using Nat.strongRecOn with
  | ind n ih =>
    rw [Nat.toDigits_eq_if hb]
    split
    · rename_i hn
      exact fun h => hdigit n (by omega) (List.mem_singleton.1 h)
    · have hlt : n / b < n := Nat.div_lt_self (by omega) hb
      have hmod : n % b < b := Nat.mod_lt n (by omega)
      have hlast : '/' ≠ Nat.digitChar (n % b) := hdigit _ (by omega)
      rw [List.mem_append, List.mem_singleton, not_or]
      exact ⟨ih _ hlt, hlast⟩

theorem slash_not_mem_colonSeparated (ps : List Nat) : '/' ∉ colonSeparated ps := by
  induction ps with
  | nil => exact List.not_mem_nil
  | cons p ps ih =>
    have hp : '/' ∉ Nat.toDigits 16 p := slash_not_mem_toDigits (by decide) (by decide) p
    cases ps with
    | nil => exact hp
    | cons q ps => simp [colonSeparated, hp, ih]

theorem slash_not_mem_host {s : List Char} {host : Host} (h : parseHost true s = .ok host) :
    '/' ∉ host.chars := by
  have hdec : ∀ n, '/' ∉ Nat.toDigits 10 n := slash_not_mem_toDigits (by decide) (by decide)
  cases host with
  | address4 n => simp [Host.chars, address4Chars, hdec]
  | address6 ps =>
    simp only [Host.chars, address6Chars]
    split <;> simp [slash_not_mem_colonSeparated]
  | name cs =>
    simp only [parseHost, specialHost, bracketed, if_true] at h
    split at h
    · cases h
    · split at h
      · split at h
        · split at h <;> cases h
        · cases h
      · split at h
        · cases h
        · rename_i hforbidden
          have hcs : cs = (decodeBytes s).map Char.toLower := by
            split at h
            · cases h
            · split at h
              · split at h <;> cases h
              · cases h
                rfl
          rintro hslash
          refine hforbidden (List.any_eq_true.2 ⟨'/', ?_, rfl⟩)
          rw [← hcs]
          exact hslash

theorem exists_parseHost {scheme s r : List Char} {named : Bool} {host : Host} {p : Option Nat}
    (hs : (schemeKind scheme).isSpecial = true) (h : hostAndPort scheme named s = .ok (host, p, r)) :
    ∃ x, parseHost true x = .ok host := by
  unfold hostAndPort at h
  simp only [hs] at h
  cases hx : parseHost true (splitHost true false s).1 with
  | error e => simp [hx] at h
  | ok host' =>
    simp only [hx] at h
    refine ⟨_, hx.trans (congrArg Except.ok ?_)⟩
    split at h
    · split at h
      · cases h
      · split at h <;> cases h
        rfl
    · split at h <;> cases h
      rfl

theorem slash_not_mem_authority {scheme s r : List Char} {a : Authority}
    (hs : (schemeKind scheme).isSpecial = true) (h : splitAuthority scheme s = .ok (a, r)) :
    ∃ t, a.chars = '/' :: '/' :: t ∧ '/' ∉ t := by
  refine ⟨a.userinfoChars ++ a.host.chars ++ a.portChars, rfl, ?_⟩
  have hport : '/' ∉ a.portChars := by
    have hdec : ∀ n, '/' ∉ Nat.toDigits 10 n := slash_not_mem_toDigits (by decide) (by decide)
    unfold Authority.portChars
    split <;> simp [hdec]
  have hparts : '/' ∉ a.userinfoChars ∧ '/' ∉ a.host.chars := by
    unfold splitAuthority at h
    simp only [hs] at h
    split at h
    · split at h
      · cases h
      · rename_i hhost
        obtain ⟨x, hx⟩ := exists_parseHost hs hhost
        cases h
        exact ⟨List.not_mem_nil, slash_not_mem_host hx⟩
    · rename_i u y _
      split at h
      · cases h
      · split at h
        · cases h
        · rename_i hhost
          obtain ⟨x, hx⟩ := exists_parseHost hs hhost
          cases h
          refine ⟨?_, slash_not_mem_host hx⟩
          have hencoded : ∀ w, '/' ∉ encode inUserinfoSet w :=
            fun w => not_mem_encode (by decide) (by decide) fun _ => by decide
          unfold Authority.userinfoChars
          split
          · exact List.not_mem_nil
          · split <;> simp [credentials, hencoded]
  simp [hparts, hport]

/-- A segment that holds no mark. -/
def Clean (s : Segment) : Prop := ∀ c ∈ s, c ≠ '/' ∧ endsPath c = false

theorem clean_nil : Clean [] := fun _ h => nomatch h

theorem clean_encode {s : Segment} (h : '/' ∉ s) : Clean (encode inPathSet s) := by
  have hmark : ∀ c, c ∈ encode inPathSet s → c ≠ '/' ∧ c ≠ '?' ∧ c ≠ '#' := by
    intro c hc
    refine ⟨?_, ?_, ?_⟩
    · rintro rfl
      exact not_mem_encode (by decide) (by decide) (fun hmem => absurd hmem h) hc
    · rintro rfl
      exact not_mem_encode (by decide) (by decide) (fun _ => by decide) hc
    · rintro rfl
      exact not_mem_encode (by decide) (by decide) (fun _ => by decide) hc
  intro c hc
  obtain ⟨hslash, hquery, hhash⟩ := hmark c hc
  exact ⟨hslash, by simp [endsPath, hquery, hhash]⟩

section
variable {P : Segment → Prop} {done : List Segment} (hdone : ∀ s ∈ done, P s)
include hdone

theorem forall_mem_goUp : ∀ s ∈ goUp done, P s := by
  intro s hs
  unfold goUp at hs
  split at hs
  · split at hs
    · exact hdone s hs
    · exact hdone s (List.dropLast_subset done hs)
  · cases hs

theorem forall_mem_closeSegment {t : Segment} (ht : P t) : ∀ s ∈ closeSegment done t, P s := by
  unfold closeSegment
  cases hm : Move.of t with
  | here => exact hdone
  | up => exact forall_mem_goUp hdone
  | into t' =>
    obtain rfl := Move.eq_of_into hm
    simpa [or_imp, forall_and] using ⟨hdone, ht⟩

theorem forall_mem_closeAll {ss : List Segment} (hss : ∀ s ∈ ss, P (encode inPathSet s)) :
    ∀ s ∈ closeAll done ss, P s := by
  induction ss generalizing done with
  | nil => exact hdone
  | cons s ss ih =>
    exact ih (forall_mem_closeSegment hdone (hss s List.mem_cons_self))
      fun t ht => hss t (List.mem_cons_of_mem s ht)

theorem forall_mem_lastSegment {t : Segment} (hnil : P []) (ht : P t) :
    ∀ s ∈ lastSegment done t, P s := by
  unfold lastSegment
  cases hm : Move.of t with
  | here => simpa [or_imp, forall_and] using ⟨hdone, hnil⟩
  | up => simpa [or_imp, forall_and] using ⟨forall_mem_goUp hdone, hnil⟩
  | into t' =>
    obtain rfl := Move.eq_of_into hm
    simpa [or_imp, forall_and] using ⟨hdone, ht⟩

theorem forall_mem_resolve {ss : List Segment} (hnil : P []) (hss : ∀ s ∈ ss, P (encode inPathSet s)) :
    ∀ s ∈ resolve done ss, P s := by
  cases ss using List.reverseRecOn with
  | nil => exact hdone
  | append_singleton ss s =>
    rw [resolve_append (List.cons_ne_nil s [])]
    exact forall_mem_lastSegment
      (forall_mem_closeAll hdone fun t ht => hss t (List.mem_append_left [s] ht)) hnil
      (hss s (by simp))

end

theorem resolve_ne_nil {ss : List Segment} (h : ss ≠ []) (done : List Segment) :
    resolve done ss ≠ [] := by
  obtain ⟨front, s, rfl⟩ := (List.eq_nil_or_concat' ss).resolve_left h
  rw [resolve_append (List.cons_ne_nil s []), resolve, lastSegment]
  split <;> simp

theorem clean_rawSegments {s : List Char} : ∀ q ∈ rawSegments true s, Clean (encode inPathSet q) := by
  intro q hq
  refine clean_encode fun hslash => ?_
  have hneg := (of_mem_splitOnP hq hslash).2
  exact absurd hneg (by decide)

theorem clean_specialPath (s : List Char) : ∀ q ∈ specialPath s, Clean q := by
  have hclean : ∀ r, ∀ q ∈ segmentsOf true r, Clean q := fun r =>
    forall_mem_resolve (fun _ h => nomatch h) clean_nil clean_rawSegments
  unfold specialPath
  split
  · split <;> exact hclean _
  · exact hclean _

theorem specialPath_ne_nil (s : List Char) : specialPath s ≠ [] := by
  have hne : ∀ r, segmentsOf true r ≠ [] := fun r => resolve_ne_nil (List.splitOnP_ne_nil _ r) []
  unfold specialPath
  split
  · split <;> exact hne _
  · exact hne _

theorem append_inj_of_ended {p : Char → Bool} {s s' t t' : List Char}
    (hs : ∀ c ∈ s, p c = true) (hs' : ∀ c ∈ s', p c = true) (ht : ∀ c ∈ t.head?, p c = false)
    (ht' : ∀ c ∈ t'.head?, p c = false) (h : s ++ t = s' ++ t') : s = s' ∧ t = t' := by
  have htake : ∀ {s t : List Char}, (∀ c ∈ s, p c = true) → (∀ c ∈ t.head?, p c = false) →
      (s ++ t).takeWhile p = s := by
    intro s t hs ht
    rw [List.takeWhile_append_of_pos hs]
    cases t with
    | nil => simp
    | cons c t => simp [ht c rfl]
  have heq : s = s' := by rw [← htake hs ht, h, htake hs' ht']
  subst heq
  exact ⟨rfl, List.append_cancel_left h⟩

theorem head?_segmentChars {ss : List Segment} : ∀ c ∈ (segmentChars ss).head?, c = '/' := by
  cases ss <;> simp [segmentChars]

theorem segmentChars_inj {ss ts : List Segment} (hs : ∀ s ∈ ss, Clean s) (ht : ∀ t ∈ ts, Clean t)
    (h : segmentChars ss = segmentChars ts) : ss = ts := by
  induction ss generalizing ts with
  | nil =>
    cases ts with
    | nil => rfl
    | cons t ts => cases h
  | cons s ss ih =>
    cases ts with
    | nil => cases h
    | cons t ts =>
      have hnot : ∀ {r : Segment}, Clean r → ∀ c ∈ r, decide (c ≠ '/') = true :=
        fun hr c hc => decide_eq_true (hr c hc).1
      have hend : ∀ qs : List Segment, ∀ c ∈ (segmentChars qs).head?, decide (c ≠ '/') = false := by
        intro qs c hc
        rw [head?_segmentChars c hc]
        rfl
      have htail : s ++ segmentChars ss = t ++ segmentChars ts := List.tail_eq_of_cons_eq h
      obtain ⟨rfl, hrest⟩ := append_inj_of_ended (hnot (hs s List.mem_cons_self))
        (hnot (ht t List.mem_cons_self)) (hend ss) (hend ts) htail
      rw [ih (fun q hq => hs q (List.mem_cons_of_mem s hq))
        (fun q hq => ht q (List.mem_cons_of_mem s hq)) hrest]

/-- No part holds the mark that ends it. -/
structure Regular (u : Url) : Prop where
  scheme : ':' ∉ u.scheme
  authority : ∃ t, u.authorityChars = '/' :: '/' :: t ∧ '/' ∉ t
  path : ∃ ss, ss ≠ [] ∧ u.path = .segments ss ∧ u.authority.isSome = true ∧ ∀ s ∈ ss, Clean s
  query : ∀ q ∈ u.query, '#' ∉ q

theorem Path.chars_segments (ss : List Segment) : Path.chars true (.segments ss) = segmentChars ss := by
  unfold Path.chars
  split <;> simp_all

theorem endsPath_segmentChars {ss : List Segment} (hs : ∀ s ∈ ss, Clean s) :
    ∀ c ∈ segmentChars ss, endsPath c = false := by
  intro c hc
  obtain ⟨s, hmem, hcs⟩ := List.mem_flatMap.1 hc
  rcases List.mem_cons.1 hcs with rfl | hcs
  · rfl
  · exact (hs s hmem c hcs).2

theorem optionalChars_inj {mark : Char} {x y : Option (List Char)}
    (h : optionalChars mark x = optionalChars mark y) : x = y := by
  cases x <;> cases y <;> simp_all [optionalChars]

theorem head?_optionalChars {mark : Char} {x : Option (List Char)} :
    ∀ c ∈ (optionalChars mark x).head?, c = mark := by
  cases x <;> simp [optionalChars]

theorem ne_of_not_mem {mark : Char} {s : List Char} (h : mark ∉ s) :
    ∀ c ∈ s, decide (c ≠ mark) = true :=
  fun _ hc => decide_eq_true fun heq => h (heq ▸ hc)

theorem head?_segments {ss : List Segment} (hne : ss ≠ []) (w : List Char) :
    ∀ c ∈ (segmentChars ss ++ w).head?, decide (c ≠ '/') = false := by
  obtain ⟨s, ss, rfl⟩ := List.exists_cons_of_ne_nil hne
  intro c hc
  obtain rfl : '/' = c := by simpa [segmentChars] using hc
  rfl

theorem head?_marks (x y : Option (List Char)) :
    ∀ c ∈ (optionalChars '?' x ++ optionalChars '#' y).head?, (!endsPath c) = false := by
  intro c hc
  cases x with
  | some q =>
    obtain rfl : '?' = c := by simpa [optionalChars] using hc
    rfl
  | none =>
    rw [head?_optionalChars c hc]
    rfl

theorem hash_not_mem_query {x : Option (List Char)} (h : ∀ q ∈ x, '#' ∉ q) :
    '#' ∉ optionalChars '?' x := by
  cases x with
  | none => exact List.not_mem_nil
  | some q => simpa [optionalChars] using h q rfl

/-- URLs of one text agree part by part. -/
theorem eq_parts {u v : Url} (hu : u.Regular) (hv : v.Regular) (h : u.chars = v.chars) :
    u.scheme = v.scheme ∧ u.authorityChars = v.authorityChars ∧ u.path = v.path ∧
      u.query = v.query ∧ u.fragment = v.fragment := by
  obtain ⟨t, hauthority, ht⟩ := hu.authority
  obtain ⟨t', hauthority', ht'⟩ := hv.authority
  obtain ⟨ss, hne, hpath, hsome, hss⟩ := hu.path
  obtain ⟨ss', hne', hpath', hsome', hss'⟩ := hv.path
  have hclean : ∀ {qs : List Segment}, (∀ s ∈ qs, Clean s) →
      ∀ c ∈ segmentChars qs, (!endsPath c) = true := by
    intro qs hqs c hc
    rw [endsPath_segmentChars hqs c hc]
    rfl
  have hhash : ∀ y : Option (List Char), ∀ c ∈ (optionalChars '#' y).head?, decide (c ≠ '#') = false := by
    intro y c hc
    rw [head?_optionalChars c hc]
    rfl
  simp only [chars, hauthority, hauthority', hpath, hpath', hsome, hsome', Path.chars_segments,
    List.append_assoc, List.cons_append] at h
  -- The scheme ends at its colon, the authority at the first slash behind its two.
  obtain ⟨hscheme, h⟩ := append_inj_of_ended (ne_of_not_mem hu.scheme) (ne_of_not_mem hv.scheme)
    (by simp) (by simp) h
  simp only [List.cons.injEq, true_and] at h
  obtain ⟨htext, h⟩ := append_inj_of_ended (ne_of_not_mem ht) (ne_of_not_mem ht')
    (head?_segments hne _) (head?_segments hne' _) h
  obtain ⟨hsegments, h⟩ := append_inj_of_ended (hclean hss) (hclean hss') (head?_marks _ _)
    (head?_marks _ _) h
  obtain ⟨hq, hf⟩ := append_inj_of_ended (ne_of_not_mem (hash_not_mem_query hu.query))
    (ne_of_not_mem (hash_not_mem_query hv.query)) (hhash _) (hhash _) h
  refine ⟨hscheme, ?_, ?_, optionalChars_inj hq, optionalChars_inj hf⟩
  · rw [hauthority, hauthority', htext]
  · rw [hpath, hpath', segmentChars_inj hss hss' hsegments]

theorem colon_not_mem_of_special {scheme : List Char} (h : schemeKind scheme = .special) :
    ':' ∉ scheme := by
  have hdefault : (defaultPort scheme).isSome = true := by
    unfold schemeKind at h
    split at h
    · cases h
    · split at h
      · assumption
      · cases h
  have hlisted : ∀ p ∈ defaultPorts, ':' ∉ p.1.toList := by decide
  obtain ⟨port, hport⟩ := Option.isSome_iff_exists.1 hdefault
  obtain ⟨p, hp, -⟩ := Option.map_eq_some_iff.1 hport
  have heq : p.1.toList = scheme := by simpa using List.find?_some hp
  rw [← heq]
  exact hlisted p (List.mem_of_find?_eq_some hp)

/-- URLs that a special scheme is read as are regular. -/
theorem regular_ofPathText {scheme f r : List Char} {a : Authority} (hs : schemeKind scheme = .special)
    (ha : splitAuthority scheme f = .ok (a, r)) (t : List Char) : (ofPathText scheme a t).Regular where
  scheme := colon_not_mem_of_special hs
  authority := slash_not_mem_authority (isSpecial_of_special hs) ha
  path := ⟨_, specialPath_ne_nil _, rfl, rfl, clean_specialPath _⟩
  query := by
    have hencoded : ∀ w, '#' ∉ encode inSpecialQuerySet w :=
      fun w => not_mem_encode (by decide) (by decide) fun _ => by decide
    intro q hq
    have hq' : (queryAndFragment true (splitPath t).2).1 = some q := by
      rw [← isSpecial_of_special hs]
      exact hq
    simp only [queryAndFragment, if_true] at hq'
    split at hq' <;> cases hq'
    exact hencoded _

end DocQuery.Url

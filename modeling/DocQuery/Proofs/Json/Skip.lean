import DocQuery.Proofs.Json.Number
import DocQuery.Proofs.Json.Reading

/-! # Values that were read can be passed over

Passing over a value ends where reading it as a tree ends, whenever the tree can be read at all:
`skipValue_of_readTree`.
-/
namespace DocQuery.Json

theorem readName_suffix {cs s r : List Char} (h : readName cs s = .ok r) : r <:+ s := by
  induction cs generalizing s with
  | nil =>
    cases h
    exact List.suffix_refl _
  | cons c cs ih =>
    cases s with
    | nil => cases h
    | cons x s =>
      simp only [readName] at h
      split at h
      · exact (ih h).trans (List.suffix_cons x s)
      · cases h

theorem push_eq_ok {c : Char} {x : Except Fault (List Char × List Char)} {cs r : List Char}
    (h : push c x = .ok (cs, r)) : ∃ cs', x = .ok (cs', r) := by
  cases x with
  | error f => cases h
  | ok y =>
    cases h
    exact ⟨y.1, rfl⟩

theorem skipQuoted_of_readQuoted {s cs r : List Char} (h : readQuoted s = .ok (cs, r)) :
    skipQuoted s = .ok r ∧ r <:+ s := by
  fun_induction readQuoted s generalizing cs with
  | case2 s =>
    cases h
    exact ⟨by rw [skipQuoted.eq_def]; rfl, List.suffix_cons _ _⟩
  | case11 a b c d n hn _ _ x hx y hy a' b' c' d' s m hm _ _ ih =>
    obtain ⟨cs', hs⟩ := push_eq_ok h
    obtain ⟨hskip, hsuffix⟩ := ih hs
    obtain rfl : x = '\\' := by simpa using hx
    obtain rfl : y = 'u' := by simpa using hy
    refine ⟨by simp [skipQuoted, hn, hm, hskip], ?_⟩
    exact hsuffix.trans ⟨['\\', 'u', a, b, c, d, '\\', 'u', a', b', c', d'], rfl⟩
  | case14 a b c d s n hn _ _ _ ih =>
    obtain ⟨cs', hs⟩ := push_eq_ok h
    obtain ⟨hskip, hsuffix⟩ := ih hs
    refine ⟨by simp [skipQuoted, hn, hskip], ?_⟩
    exact hsuffix.trans ⟨['\\', 'u', a, b, c, d], rfl⟩
  | case16 e s he x hx _ ih =>
    obtain ⟨cs', hs⟩ := push_eq_ok h
    obtain ⟨hskip, hsuffix⟩ := ih hs
    refine ⟨by rw [skipQuoted.eq_def]; simp [he, hx, hskip], ?_⟩
    exact hsuffix.trans ⟨['\\', e], rfl⟩
  | case19 c s hquote hslash hcontrol ih =>
    obtain ⟨cs', hs⟩ := push_eq_ok h
    obtain ⟨hskip, hsuffix⟩ := ih hs
    refine ⟨by rw [skipQuoted.eq_def]; simp [hquote, hslash, hcontrol, hskip], ?_⟩
    exact hsuffix.trans (List.suffix_cons c s)
  | _ => cases h

theorem skipQuoted_of_readString {s r : List Char} {x : String} (h : readString s = .ok (x, r)) :
    skipQuoted s = .ok r ∧ r <:+ s := by
  unfold readString at h
  split at h
  · rename_i hs
    cases h
    exact skipQuoted_of_readQuoted hs
  · cases h

theorem dropWhile_of_readExponentDigits {n k : Nat} {s r : List Char}
    (h : readExponentDigits n s = .ok (k, r)) : r = s.dropWhile Char.isDigit := by
  induction s generalizing n with
  | nil =>
    cases h
    rfl
  | cons c s ih =>
    simp only [readExponentDigits] at h
    split at h
    · rename_i hc
      split at h
      · rw [List.dropWhile_cons_of_pos hc]
        exact ih h
      · cases h
    · rename_i hc
      cases h
      rw [List.dropWhile_cons_of_neg hc]

theorem dropWhile_of_readExponentDigits_error {n : Nat} {s r : List Char}
    (h : readExponentDigits n s = .error r) :
    r.dropWhile Char.isDigit = s.dropWhile Char.isDigit := by
  induction s generalizing n with
  | nil => cases h
  | cons c s ih =>
    simp only [readExponentDigits] at h
    split at h
    · rename_i hc
      rw [List.dropWhile_cons_of_pos hc]
      split at h
      · exact ih h
      · cases h
        rfl
    · cases h

theorem eq_of_readDouble {negative : Bool} {n : Nat} {e : Int} {s r : List Char} {x : Number}
    (h : readDouble negative n e s = .ok (x, r)) : r = s := by
  unfold readDouble at h
  split at h
  · cases h
    rfl
  · cases h

theorem readPower_eq_ok {negative minus : Bool} {n : Nat} {e : Int} {s r : List Char} {x : Number}
    (h : readPower negative n e minus s = .ok (x, r)) :
    ∃ c t, s = c :: t ∧ c.isDigit = true ∧ r = t.dropWhile Char.isDigit := by
  unfold readPower at h
  split at h
  · cases h
  · rename_i c t
    split at h
    · rename_i hc
      split at h
      · rename_i k u hdigits
        rw [eq_of_readDouble h, dropWhile_of_readExponentDigits hdigits]
        exact ⟨c, t, rfl, hc, rfl⟩
      · rename_i u hdigits
        split at h
        · cases h
        · cases h
          exact ⟨c, t, rfl, hc, dropWhile_of_readExponentDigits_error hdigits⟩
    · cases h

theorem skipExponent_of_readExponent {negative : Bool} {n : Nat} {e : Int} {s r : List Char}
    {x : Number} (h : readExponent negative n e s = .ok (x, r)) : skipExponent s = .ok r := by
  unfold readExponent at h
  cases s with
  | nil => cases h
  | cons c t =>
    -- A sign is passed over by both; after it stands a digit.
    by_cases hplus : c = '+'
    · subst hplus
      obtain ⟨d, t, rfl, hd, rfl⟩ := readPower_eq_ok h
      simp [skipExponent, hd]
    · by_cases hminus : c = '-'
      · subst hminus
        obtain ⟨d, t, rfl, hd, rfl⟩ := readPower_eq_ok h
        simp [skipExponent, hd]
      · simp only [atHead, hplus, hminus, decide_false, Bool.false_eq_true, if_false] at h
        obtain ⟨d, t, heq, hd, rfl⟩ := readPower_eq_ok h
        cases heq
        simp [skipExponent, hplus, hminus, hd]

theorem isExponentMark_iff {c : Char} : isExponentMark c = true ↔ c = 'e' ∨ c = 'E' := by
  simp [isExponentMark]

theorem skipFraction_of_readFraction {negative : Bool} {n : Nat} {e : Int} {s r : List Char}
    {x : Number} (h : readFraction negative n e s = .ok (x, r)) : skipFraction s = .ok r := by
  unfold readFraction at h
  unfold skipFraction
  simp only at h ⊢
  split at h
  · cases h
  · rename_i hempty
    rw [if_neg hempty]
    generalize (splitDigits s).2 = u at h ⊢
    unfold readScaled at h
    cases u with
    | nil =>
      simp only [atHead] at h
      rw [eq_of_readDouble h]
    | cons c u =>
      by_cases hc : isExponentMark c = true
      · simp only [atHead, hc, if_true] at h
        rcases isExponentMark_iff.1 hc with rfl | rfl
        · exact skipExponent_of_readExponent h
        · exact skipExponent_of_readExponent h
      · simp only [atHead, hc] at h
        rw [eq_of_readDouble h]
        rw [isExponentMark_iff, not_or] at hc
        split
        · rename_i heq
          cases heq
          exact absurd rfl hc.1
        · rename_i heq
          cases heq
          exact absurd rfl hc.2
        · rfl

theorem eq_of_readWhole {negative : Bool} {n left : Nat} {s r : List Char} {x : Number}
    (h : readWhole negative n left s = .ok (x, r)) : r = s := by
  unfold readWhole at h
  split at h
  · exact eq_of_readDouble h
  · split at h
    · cases h
      rfl
    · split at h
      · cases h
        rfl
      · exact eq_of_readDouble h

theorem skipTail_of_readTail {negative : Bool} {n left : Nat} {s r : List Char} {x : Number}
    (h : readTail negative n left s = .ok (x, r)) : skipTail s = .ok r := by
  unfold readTail at h
  cases s with
  | nil =>
    simp only [atHead] at h
    rw [eq_of_readWhole h]
    rfl
  | cons c t =>
    by_cases hpoint : c = '.'
    · subst hpoint
      exact skipFraction_of_readFraction h
    · by_cases hc : isExponentMark c = true
      · simp only [atHead, hpoint, decide_false, Bool.false_eq_true, if_false, hc, if_true] at h
        rcases isExponentMark_iff.1 hc with rfl | rfl
        · exact skipExponent_of_readExponent h
        · exact skipExponent_of_readExponent h
      · simp only [atHead, hpoint, decide_false, Bool.false_eq_true, if_false, hc] at h
        rw [eq_of_readWhole h]
        rw [isExponentMark_iff, not_or] at hc
        simp [skipTail, hpoint, hc.1, hc.2]

theorem skipNumber_of_readNumber {negative : Bool} {s r : List Char} {x : Number}
    (h : readNumber negative s = .ok (x, r)) : skipNumber s = .ok r := by
  unfold readNumber at h
  unfold skipNumber
  split at h
  · cases h
  · rename_i c t
    split at h
    · rename_i hc
      simp only [hc, if_true]
      split at h
      · rename_i d t
        split at h
        · cases h
        · rename_i hd
          simp only [hd]
          exact skipTail_of_readTail h
      · exact skipTail_of_readTail h
    · rename_i hzero
      split at h
      · rename_i hc
        simp only [hzero, hc, if_false, if_true]
        have hrest : (splitDigits (c :: t)).2 = t.dropWhile Char.isDigit := by
          simp [splitDigits, hc]
        simp only at h
        rw [hrest] at h
        exact skipTail_of_readTail h
      · cases h

theorem readColon_suffix {s r : List Char} (h : readColon s = .ok r) : r <:+ s := by
  unfold readColon at h
  cases hs : skipBlanks s with
  | nil => simp [hs] at h
  | cons c t =>
    simp only [hs] at h
    split at h
    · cases h
      exact (List.suffix_cons c _).trans (hs ▸ skipBlanks_suffix s)
    · cases h

section
variable {read : Reader Json} {skip : List Char → Except Fault (List Char)} {k : Nat}
  (hskip : ∀ s j r, s.length ≤ k → read s = .ok (j, r) → skip s = .ok r ∧ r <:+ s)
include hskip

theorem skipItems_of_items (hblanks : ∀ s, skip (skipBlanks s) = skip s) {fuel : Nat} {first : Bool}
    {s u : List Char} {xs : List Json} (hs : s.length ≤ k) (h : items read fuel first s = .ok (xs, u)) :
    u <:+ s ∧ ∃ r, u = ']' :: r ∧ skipItems skip fuel first s = .ok r := by
  induction fuel generalizing first s xs with
  | zero => cases h
  | succ fuel ih =>
    rcases items_eq_ok h with ⟨-, hnext⟩ | ⟨fuel', j, xs', t, v, hfuel, -, hnext, hitem, hrest⟩
    · obtain ⟨c, v, hst, ⟨-, rfl, rfl⟩ | ⟨hmore, -⟩⟩ := nextItem_eq_ok hnext
      · refine ⟨hst ▸ skipBlanks_suffix s, v, rfl, ?_⟩
        simp [skipItems, hst]
      · cases hmore
    · cases hfuel
      obtain ⟨c, t', hst, ⟨hmore, -⟩ | ⟨-, hc, hstart⟩⟩ := nextItem_eq_ok hnext
      · cases hmore
      · have hsuffix : c :: t' <:+ s := hst ▸ skipBlanks_suffix s
        have hts : t <:+ s := by
          rcases hstart with ⟨-, rfl⟩ | ⟨-, -, rfl⟩
          · exact hsuffix
          · exact (skipBlanks_suffix t').trans ((List.suffix_cons c t').trans hsuffix)
        obtain ⟨hv, hvt⟩ := hskip t j v (Nat.le_trans hts.length_le hs) hitem
        have hvs : v <:+ s := hvt.trans hts
        obtain ⟨hus, r, rfl, hr⟩ := ih (Nat.le_trans hvs.length_le hs) hrest
        refine ⟨hus.trans hvs, r, rfl, ?_⟩
        rcases hstart with ⟨rfl, rfl⟩ | ⟨rfl, rfl, rfl⟩
        · simp [skipItems, hst, hc, hv, hr]
        · rw [hblanks] at hv
          simp [skipItems, hst, hv, hr]

theorem skipMembers_of_members {fuel : Nat} {first : Bool} {s u : List Char}
    {acc ms : List (String × Json)} (hs : s.length ≤ k)
    (h : members (readMember read) fuel first acc s = .ok (ms, u)) :
    u <:+ s ∧ ∃ r, u = '\x7d' :: r ∧ skipMembers skip fuel first s = .ok r := by
  induction fuel generalizing first s acc with
  | zero => cases h
  | succ fuel ih =>
    rcases members_eq_ok h with ⟨-, hnext⟩ | ⟨fuel', key, t, w, j, v, hfuel, hnext, hcolon, hj, hrest⟩
    · obtain ⟨c, v, hst, ⟨-, rfl, rfl⟩ | ⟨-, key, q, hkey, -⟩⟩ := nextKey_eq_ok hnext
      · refine ⟨hst ▸ skipBlanks_suffix s, v, rfl, ?_⟩
        simp [skipMembers, hst]
      · cases hkey
    · cases hfuel
      obtain ⟨c, t', hst, ⟨hnone, -⟩ | ⟨hc, key', q, -, hq, hstart⟩⟩ := nextKey_eq_ok hnext
      · cases hnone
      · have hsuffix : c :: t' <:+ s := hst ▸ skipBlanks_suffix s
        obtain ⟨hquoted, htq⟩ := skipQuoted_of_readString hq
        have hqs : '"' :: q <:+ s := by
          rcases hstart with ⟨-, heq⟩ | ⟨-, -, heq⟩
          · exact heq ▸ hsuffix
          · exact (heq ▸ skipBlanks_suffix t').trans ((List.suffix_cons c t').trans hsuffix)
        have hws : w <:+ s :=
          (readColon_suffix hcolon).trans (htq.trans ((List.suffix_cons _ q).trans hqs))
        obtain ⟨hv, hvw⟩ := hskip w j v (Nat.le_trans hws.length_le hs) hj
        have hvs : v <:+ s := hvw.trans hws
        obtain ⟨hus, r, rfl, hr⟩ := ih (Nat.le_trans hvs.length_le hs) hrest
        refine ⟨hus.trans hvs, r, rfl, ?_⟩
        have hmember : ∀ x, skipBlanks x = '"' :: q → skipMember skip x = .ok v := by
          intro x hx
          simp [skipMember, hx, hquoted, hcolon, hv]
        rcases hstart with ⟨rfl, heq⟩ | ⟨rfl, rfl, heq⟩
        · have hfirst := hmember (c :: t') (by rw [← hst, skipBlanks_idem, hst, heq])
          simp [skipMembers, hst, hc, hfirst, hr]
        · simp [skipMembers, hst, hmember t' heq, hr]

end

theorem skipLevels_skipBlanks (k : Nat) (s : List Char) :
    skipLevels k (skipBlanks s) = skipLevels k s := by
  rw [skipLevels.eq_def, skipLevels.eq_def k s]
  simp only [skipBlanks_idem]

theorem skipScalar_of_isDigit {c : Char} (h : c.isDigit = true) (s : List Char) :
    skipScalar c s = skipNumber (c :: s) := by
  have hne : c ≠ 'n' ∧ c ≠ 't' ∧ c ≠ 'f' ∧ c ≠ '-' :=
    ⟨digit_ne h rfl, digit_ne h rfl, digit_ne h rfl, digit_ne h rfl⟩
  simp [skipScalar, hne, h]

/-- Behind an opening bracket both end where the loop over what stands in it does, at the closing one. -/
theorem skipLevels_of_loop {c d : Char} {s t u r : List Char} {loop : Nat → Except Fault (List Char)}
    {close : List Char → Except Fault (List Char)} (hs : skipBlanks s = c :: t)
    (hopen : ∀ k, skipLevels (k + 1) s = loop k) (hclose : ∀ v, close (d :: v) = .ok v)
    (hend : close u = .ok r)
    (hloop : ∀ k, t.length ≤ k → u <:+ t ∧ ∃ v, u = d :: v ∧ loop k = .ok v) :
    r <:+ s ∧ ∀ k, s.length ≤ k → skipLevels k s = .ok r := by
  have hsuffix : c :: t <:+ s := hs ▸ skipBlanks_suffix s
  have hr : ∀ v, u = d :: v → v = r := by
    rintro v rfl
    rw [hclose] at hend
    exact Except.ok.inj hend
  refine ⟨?_, fun k hk => ?_⟩
  · obtain ⟨hut, v, hu, -⟩ := hloop t.length (Nat.le_refl _)
    obtain rfl := hr v hu
    rw [hu] at hut
    exact (List.suffix_cons d v).trans (hut.trans ((List.suffix_cons c t).trans hsuffix))
  · have hlength : t.length + 1 ≤ k := Nat.le_trans hsuffix.length_le hk
    obtain ⟨k, rfl⟩ : ∃ k', k = k' + 1 := ⟨k - 1, by omega⟩
    obtain ⟨-, v, hu, hskip⟩ := hloop k (by omega)
    rw [hopen, hskip, hr v hu]

theorem skipLevels_of_readTree {n : Nat} {s r : List Char} {j : Json}
    (h : readTree n s = .ok (j, r)) :
    r <:+ s ∧ ∀ k, s.length ≤ k → skipLevels k s = .ok r := by
  -- `ReadAs` tells how many levels are left for the values inside only when it is taken apart.
  induction n using Nat.strongRecOn generalizing s j r with
  | ind n ih =>
    have hvalue : ∀ m < n, ∀ k s j r, s.length ≤ k → readTree m s = .ok (j, r) →
        skipLevels k s = .ok r ∧ r <:+ s := fun m hm k s j r hs h => ⟨(ih m hm h).2 k hs, (ih m hm h).1⟩
    have hread := readAs_of_readTree h
    cases hs : skipBlanks s with
    | nil => rw [hs] at hread; cases hread
    | cons c t =>
      rw [hs] at hread
      have hsuffix : c :: t <:+ s := hs ▸ skipBlanks_suffix s
      have hts : t <:+ s := (List.suffix_cons c t).trans hsuffix
      have hscalar : c ≠ '[' → c ≠ '\x7b' → ∀ k, skipLevels k s = skipScalar c t := by
        intro hopen hbrace k
        rw [skipLevels.eq_def]
        simp [hs, hopen, hbrace]
      have hnamed : ∀ {cs}, readName cs t = .ok r → c ≠ '[' → c ≠ '\x7b' →
          skipScalar c t = readName cs t → r <:+ s ∧ ∀ k, s.length ≤ k → skipLevels k s = .ok r := by
        intro cs hname hopen hbrace hskip
        exact ⟨(readName_suffix hname).trans hts, fun k _ => by rw [hscalar hopen hbrace, hskip, hname]⟩
      cases hread with
      | null hname => exact hnamed hname (by decide) (by decide) rfl
      | yes hname => exact hnamed hname (by decide) (by decide) rfl
      | no hname => exact hnamed hname (by decide) (by decide) rfl
      | negative hx =>
        refine ⟨(local_readNumber _ _ _ _ hx).1.trans hts, fun k _ => ?_⟩
        rw [hscalar (by decide) (by decide)]
        exact skipNumber_of_readNumber hx
      | number hc hx =>
        have hopen : c ≠ '[' := digit_ne hc rfl
        have hbrace : c ≠ '\x7b' := digit_ne hc rfl
        refine ⟨(local_readNumber _ _ _ _ hx).1.trans hsuffix, fun k _ => ?_⟩
        rw [hscalar hopen hbrace, skipScalar_of_isDigit hc]
        exact skipNumber_of_readNumber hx
      | string hx =>
        obtain ⟨hquoted, hr⟩ := skipQuoted_of_readString hx
        refine ⟨hr.trans hts, fun k _ => ?_⟩
        rw [hscalar (by decide) (by decide)]
        exact hquoted
      | @array m t u r xs hitems hend =>
        have hopen : ∀ k, skipLevels (k + 1) s = skipItems (skipLevels k) (t.length + 1) true t := by
          intro k
          rw [skipLevels.eq_def]
          simp [hs]
        exact skipLevels_of_loop hs hopen (fun v => rfl) hend fun k hk =>
          skipItems_of_items (hvalue m (Nat.lt_succ_self m) k) (skipLevels_skipBlanks k) hk hitems
      | @object m t u r ms hmembers hend =>
        have hopen : ∀ k, skipLevels (k + 1) s = skipMembers (skipLevels k) (t.length + 1) true t := by
          intro k
          rw [skipLevels.eq_def]
          simp [hs]
        exact skipLevels_of_loop hs hopen (fun v => rfl) hend fun k hk =>
          skipMembers_of_members (hvalue m (Nat.lt_succ_self m) k) hk hmembers

/-- A value that can be read as a tree is passed over to the same place. -/
theorem skipValue_of_readTree {n : Nat} {s r : List Char} {j : Json}
    (h : readTree n s = .ok (j, r)) : skipValue s = .ok r :=
  (skipLevels_of_readTree h).2 s.length (Nat.le_refl _)

end DocQuery.Json

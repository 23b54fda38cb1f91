import DocQuery.Json.Reader.Tree

/-! # Numbers are read back

A number is read up to where it is delimited: a reader that is done at the end of a text is done at
the same place when a delimited text follows. For integers reading back is proved from their digits;
of a double it is a property, `Double.ReadsBack`, that speaks of its text alone.
-/
namespace DocQuery.Json

/-- A text that does not go on with a number before it. -/
def Delimited : List Char → Prop
  | [] => True
  | c :: _ => c.isDigit = false ∧ c ≠ '.' ∧ isExponentMark c = false

theorem dropWhile_isDigit_append (s : List Char) {t : List Char} (ht : Delimited t) :
    (s ++ t).dropWhile Char.isDigit = s.dropWhile Char.isDigit ++ t := by
  induction s with
  | nil =>
    cases t with
    | nil => rfl
    | cons c t => simp [List.dropWhile, ht.1]
  | cons c s ih => cases hc : c.isDigit <;> simp [List.dropWhile, hc, ih]

theorem takeWhile_isDigit_append (s : List Char) {t : List Char} (ht : Delimited t) :
    (s ++ t).takeWhile Char.isDigit = s.takeWhile Char.isDigit := by
  induction s with
  | nil =>
    cases t with
    | nil => rfl
    | cons c t => simp [List.takeWhile, ht.1]
  | cons c s ih => cases hc : c.isDigit <;> simp [List.takeWhile, hc, ih]

theorem splitDigits_append (s : List Char) {t : List Char} (ht : Delimited t) :
    splitDigits (s ++ t) = ((splitDigits s).1, (splitDigits s).2 ++ t) := by
  simp [splitDigits, dropWhile_isDigit_append s ht, takeWhile_isDigit_append s ht]

/-- What is read of a text is read of it too when a delimited text follows. -/
def Local {α : Type} (read : Reader α) : Prop :=
  ∀ s a r, read s = .ok (a, r) →
    r <:+ s ∧ ∀ t, Delimited t → read (s ++ t) = .ok (a, r ++ t)

theorem local_ok {α : Type} (a : α) : Local fun s => .ok (a, s) := by
  intro s b r h
  cases h
  exact ⟨List.suffix_refl _, fun _ _ => rfl⟩

theorem local_atHead {α : Type} {p : Char → Bool} {f g : Reader α} (hf : Local f) (hg : Local g)
    (hp : ∀ c t x, p c = true → g [] = .ok x → ¬ Delimited (c :: t)) : Local (atHead p f g) := by
  intro s a r h
  cases s with
  | nil =>
    obtain ⟨hs, ha⟩ := hg [] a r h
    refine ⟨hs, fun t ht => ?_⟩
    rw [← ha t ht]
    cases t with
    | nil => rfl
    | cons c t =>
      have hc : ¬ p c = true := fun hc => hp c t (a, r) hc h ht
      simp [atHead, hc]
  | cons c s =>
    simp only [atHead] at h
    split at h
    · rename_i hc
      obtain ⟨hs, ha⟩ := hf s a r h
      exact ⟨hs.trans (List.suffix_cons c s), fun t ht => by simpa [atHead, hc] using ha t ht⟩
    · rename_i hc
      obtain ⟨hs, ha⟩ := hg (c :: s) a r h
      exact ⟨hs, fun t ht => by simpa [atHead, hc] using ha t ht⟩

theorem local_readDouble (negative : Bool) (n : Nat) (e : Int) :
    Local (readDouble negative n e) := by
  intro s a r h
  unfold readDouble at h ⊢
  cases hd : Double.ofDecimal n e with
  | none => simp [hd] at h
  | some d =>
    simp only [hd, Except.ok.injEq, Prod.mk.injEq] at h
    obtain ⟨rfl, rfl⟩ := h
    exact ⟨List.suffix_refl _, fun t _ => rfl⟩

theorem readExponentDigits_ok {n k : Nat} {s r : List Char}
    (h : readExponentDigits n s = .ok (k, r)) :
    r <:+ s ∧ ∀ t, Delimited t → readExponentDigits n (s ++ t) = .ok (k, r ++ t) := by
  induction s generalizing n with
  | nil =>
    simp only [readExponentDigits, Except.ok.injEq, Prod.mk.injEq] at h
    obtain ⟨rfl, rfl⟩ := h
    refine ⟨List.suffix_refl _, fun t ht => ?_⟩
    cases t with
    | nil => rfl
    | cons c t => simp [readExponentDigits, ht.1]
  | cons c s ih =>
    simp only [readExponentDigits] at h
    split at h
    · rename_i hc
      split at h
      · rename_i hlt
        obtain ⟨hs, ha⟩ := ih h
        exact ⟨hs.trans (List.suffix_cons c s), fun t ht => by
          simp only [List.cons_append, readExponentDigits, if_pos hc, if_pos hlt, ha t ht]⟩
      · cases h
    · rename_i hc
      simp only [Except.ok.injEq, Prod.mk.injEq] at h
      obtain ⟨rfl, rfl⟩ := h
      exact ⟨List.suffix_refl _, fun t _ => by simp [readExponentDigits, hc]⟩

theorem readExponentDigits_error {n : Nat} {s r : List Char}
    (h : readExponentDigits n s = .error r) :
    r <:+ s ∧ ∀ t, readExponentDigits n (s ++ t) = .error (r ++ t) := by
  induction s generalizing n with
  | nil => simp [readExponentDigits] at h
  | cons c s ih =>
    simp only [readExponentDigits] at h
    split at h
    · rename_i hc
      split at h
      · rename_i hlt
        obtain ⟨hs, ha⟩ := ih h
        exact ⟨hs.trans (List.suffix_cons c s), fun t => by
          simp only [List.cons_append, readExponentDigits, if_pos hc, if_pos hlt, ha t]⟩
      · rename_i hlt
        cases h
        exact ⟨List.suffix_cons c _, fun t => by
          simp only [List.cons_append, readExponentDigits, if_pos hc, if_neg hlt]⟩
    · cases h

theorem readPower_nil (negative : Bool) (n : Nat) (e : Int) (minus : Bool)
    (x : Number × List Char) : readPower negative n e minus [] ≠ .ok x := by
  simp [readPower]

theorem local_readPower (negative : Bool) (n : Nat) (e : Int) (minus : Bool) :
    Local (readPower negative n e minus) := by
  intro s a r h
  cases s with
  | nil => exact absurd h (readPower_nil negative n e minus (a, r))
  | cons c s =>
    simp only [readPower] at h
    split at h
    · rename_i hc
      cases hd : readExponentDigits (Text.digitValue c) s with
      | ok p =>
        obtain ⟨k, r'⟩ := p
        simp only [hd] at h
        obtain ⟨hs, ha⟩ := readExponentDigits_ok hd
        obtain ⟨hs', ha'⟩ := local_readDouble _ _ _ _ _ _ h
        refine ⟨(hs'.trans hs).trans (List.suffix_cons c s), fun t ht => ?_⟩
        simp only [List.cons_append, readPower, hc, ↓reduceIte, ha t ht]
        exact ha' t ht
      | error r' =>
        simp only [hd] at h
        obtain ⟨hs, ha⟩ := readExponentDigits_error hd
        split at h
        · cases h
        · rename_i hz
          cases h
          refine ⟨((List.dropWhile_suffix _).trans hs).trans (List.suffix_cons c s), fun t ht => ?_⟩
          simp only [List.cons_append, readPower, hc, ↓reduceIte, ha t, hz,
            dropWhile_isDigit_append _ ht]
    · cases h

theorem local_readExponent (negative : Bool) (n : Nat) (e : Int) :
    Local (readExponent negative n e) := by
  refine local_atHead (local_readPower _ _ _ _)
    (local_atHead (local_readPower _ _ _ _) (local_readPower _ _ _ _) ?_) ?_
  · intro c t x _ hx
    exact absurd hx (readPower_nil _ _ _ _ x)
  · intro c t x _ hx
    exact absurd hx (readPower_nil negative n e false x)

theorem local_readScaled (negative : Bool) (n : Nat) (e : Int) :
    Local (readScaled negative n e) := by
  refine local_atHead (local_readExponent _ _ _) (local_readDouble _ _ _) ?_
  intro c t x hc _ ht
  simp [Delimited, hc] at ht

theorem local_readFraction (negative : Bool) (n : Nat) (e : Int) :
    Local (readFraction negative n e) := by
  intro s a r h
  simp only [readFraction] at h
  split at h
  · cases h
  · rename_i hne
    obtain ⟨hs, ha⟩ := local_readScaled _ _ _ _ _ _ h
    refine ⟨hs.trans (List.dropWhile_suffix _), fun t ht => ?_⟩
    simp only [readFraction, splitDigits_append s ht, hne, Bool.false_eq_true, ↓reduceIte]
    exact ha t ht

theorem local_readWhole (negative : Bool) (n left : Nat) : Local (readWhole negative n left) := by
  unfold readWhole
  by_cases hl : left ≠ 0
  · simpa only [if_pos hl] using local_readDouble negative n left
  · by_cases hz : negative = true ∧ n = 0
    · simpa only [if_neg hl, if_pos hz] using local_ok (Number.double (Double.zero true))
    · simp only [if_neg hl, if_neg hz]
      cases Number.ofInt? (if negative then -n else n) with
      | none => exact local_readDouble negative n 0
      | some i => exact local_ok i

theorem local_readTail (negative : Bool) (n left : Nat) : Local (readTail negative n left) := by
  refine local_atHead (local_readFraction _ _ _)
    (local_atHead (local_readExponent _ _ _) (local_readWhole _ _ _) ?_) ?_
  · intro c t x hc _ ht
    simp [Delimited, hc] at ht
  · intro c t x hc _ ht
    simp only [decide_eq_true_eq] at hc
    exact ht.2.1 hc

theorem local_readNumber (negative : Bool) : Local (readNumber negative) := by
  intro s a r h
  cases s with
  | nil => simp [readNumber] at h
  | cons c s =>
    simp only [readNumber] at h
    split at h
    · rename_i hc
      -- After a leading zero no digit may follow, neither in `s` nor in the text behind it.
      have hread : readTail negative 0 0 s = .ok (a, r) := by
        cases s with
        | nil => exact h
        | cons d s =>
          simp only at h
          split at h
          · cases h
          · exact h
      obtain ⟨hs, ha⟩ := local_readTail _ _ _ _ _ _ hread
      refine ⟨hs.trans (List.suffix_cons c s), fun t ht => ?_⟩
      rw [← ha t ht, List.cons_append]
      simp only [readNumber, if_pos hc]
      have hd : ∀ d u, s ++ t = d :: u → d.isDigit = false := by
        intro d u hu
        cases s with
        | nil => subst hu; exact ht.1
        | cons d' s =>
          cases hu
          simp only at h
          split at h
          · cases h
          · rename_i hd
            simpa using hd
      split
      · rename_i d u hu
        simp [hd d u hu]
      · rfl
    · rename_i hc
      split at h
      · rename_i hdig
        obtain ⟨hs, ha⟩ := local_readTail _ _ _ _ _ _ h
        refine ⟨hs.trans (List.dropWhile_suffix _), fun t ht => ?_⟩
        have hsplit := splitDigits_append (c :: s) ht
        simp only [List.cons_append] at hsplit
        simp only [List.cons_append, readNumber, if_neg hc, if_pos hdig, hsplit]
        exact ha t ht
      · cases h

theorem le_ofDigitChars (ds : List Char) (n : Nat) : n ≤ Nat.ofDigitChars 10 ds n := by
  induction ds generalizing n with
  | nil => simp
  | cons d ds ih =>
    rw [Nat.ofDigitChars_cons]
    exact Nat.le_trans (by omega) (ih _)

theorem absorb_of_lt {ds : List Char} {n : Nat} (h : Nat.ofDigitChars 10 ds n < 0x10000000000000000) :
    absorb n ds = (Nat.ofDigitChars 10 ds n, 0) := by
  induction ds generalizing n with
  | nil => simp [absorb]
  | cons d ds ih =>
    have hv : 10 * n + (d.toNat - '0'.toNat) = n * 10 + Text.digitValue d := by
      simp only [Text.digitValue]; omega
    rw [Nat.ofDigitChars_cons, hv] at h ⊢
    have hle := le_ofDigitChars ds (n * 10 + Text.digitValue d)
    simp only [absorb, if_pos (Nat.lt_of_le_of_lt hle h), ih h]

theorem isDigit_of_mem_decimal {n : Nat} {c : Char} (h : c ∈ Nat.toDigits 10 n) :
    c.isDigit = true :=
  Nat.isDigit_of_mem_toDigits (by decide) (by decide) h

theorem splitDigits_of_forall {s : List Char} (h : ∀ c ∈ s, c.isDigit = true) :
    splitDigits s = (s, []) := by
  have htake : (s ++ []).takeWhile Char.isDigit = s ++ [].takeWhile Char.isDigit :=
    List.takeWhile_append_of_pos h
  have hdrop : (s ++ []).dropWhile Char.isDigit = [].dropWhile Char.isDigit :=
    List.dropWhile_append_of_pos h
  simp only [List.append_nil, List.takeWhile_nil, List.dropWhile_nil] at htake hdrop
  rw [splitDigits, htake, hdrop]

theorem head_toDigits {n : Nat} (h : 0 < n) : (Nat.toDigits 10 n).head? ≠ some '0' := by
  induction n using Nat.strongRecOn with
  | ind n ih =>
    by_cases hn : n < 10
    · rw [Nat.toDigits_of_lt_base hn]
      have hdigit : ∀ m < 10, 0 < m → [m.digitChar].head? ≠ some '0' := by decide
      exact hdigit n hn h
    · have hhead := ih (n / 10) (by omega) (by omega)
      rw [Nat.toDigits_of_base_le (by decide) (by omega)]
      cases hds : Nat.toDigits 10 (n / 10) with
      | nil => exact absurd hds Nat.toDigits_ne_nil
      | cons d ds => simpa [hds] using hhead

theorem readTail_delimited (negative : Bool) (n left : Nat) {t : List Char} (ht : Delimited t) :
    readTail negative n left t = readWhole negative n left t := by
  cases t with
  | nil => rfl
  | cons c t => simp [readTail, atHead, ht.2.1, ht.2.2]

theorem readNumber_toDigits (negative : Bool) {n : Nat} (hn : n < 0x10000000000000000) {t : List Char}
    (ht : Delimited t) :
    readNumber negative (Nat.toDigits 10 n ++ t) = readWhole negative n 0 t := by
  by_cases hz : n = 0
  · subst hz
    rw [← readTail_delimited negative 0 0 ht]
    cases t with
    | nil => rfl
    | cons c t => simp [readNumber, ht.1]
  · have hdigits := splitDigits_append (Nat.toDigits 10 n) ht
    have hvalue : Nat.ofDigitChars 10 (Nat.toDigits 10 n) 0 = n := by simp
    have habsorb : absorb 0 (Nat.toDigits 10 n) = (n, 0) := by
      rw [absorb_of_lt (by rw [hvalue]; exact hn), hvalue]
    have hhead := head_toDigits (Nat.pos_of_ne_zero hz)
    have hisDigit : ∀ c ∈ Nat.toDigits 10 n, c.isDigit = true := fun c hc =>
      isDigit_of_mem_decimal hc
    rw [splitDigits_of_forall hisDigit] at hdigits
    cases hds : Nat.toDigits 10 n with
    | nil => exact absurd hds Nat.toDigits_ne_nil
    | cons c ds =>
      rw [hds] at hdigits habsorb hhead hisDigit
      have hc₀ : c ≠ '0' := by simpa using hhead
      have hc : c.isDigit = true := hisDigit c (by simp)
      simp only [List.cons_append, List.nil_append] at hdigits ⊢
      simp only [readNumber, if_neg hc₀, if_pos hc, hdigits, habsorb]
      exact readTail_delimited negative n 0 ht

/-- An integer is read from the digits after its sign. -/
theorem readNumber_integer {i : Int} (l : -0x8000000000000000 ≤ i) (u : i < 0x10000000000000000)
    {t : List Char} (ht : Delimited t) :
    readNumber (i < 0) (Nat.toDigits 10 i.natAbs ++ t) = .ok (.integer i l u, t) := by
  have hi : Number.ofInt? i = some (.integer i l u) := by
    simp only [Number.ofInt?]
    rw [dif_pos ⟨l, u⟩]
  rw [readNumber_toDigits _ (by omega) ht]
  unfold readWhole
  by_cases hneg : i < 0
  · have habs : -(i.natAbs : Int) = i := by omega
    have hz : i.natAbs ≠ 0 := by omega
    simp only [hneg, hz, decide_true, if_true, ne_eq, not_true_eq_false, if_false, and_false, habs, hi]
  · have habs : (i.natAbs : Int) = i := by omega
    simp only [hneg, decide_false, Bool.false_eq_true, ne_eq, not_true_eq_false, if_false, false_and,
      habs, hi]

/-- The text of a double is read as that same double. -/
def Double.ReadsBack (d : Double) : Prop :=
  parse (Json.number (.double d)).text = .ok (.number (.double d))

def twoAndHalf : Double := ⟨false, ⟨1024, by decide⟩, ⟨1 <<< 50, by decide⟩⟩

theorem twoAndHalf_readsBack : twoAndHalf.ReadsBack := by rfl

theorem not_blank_of_isDigit {c : Char} (h : c.isDigit = true) : isBlank c = false := by
  cases hb : isBlank c with
  | false => rfl
  | true =>
    simp only [isBlank, Bool.or_eq_true, decide_eq_true_eq] at hb
    rcases hb with ((rfl | rfl) | rfl) | rfl <;> exact absurd h (by decide)

theorem forall_mem_decimalChars {p : Char → Prop} (hd : ∀ c, c.isDigit = true → p c)
    (hm : ∀ c ∈ ['.', 'e', '-', '+'], p c) (style : DecimalStyle) (d : Decimal) :
    ∀ c ∈ d.chars style, p c := by
  have hdigits : ∀ n, ∀ c ∈ Nat.toDigits 10 n, p c := fun n c hc => hd c (isDigit_of_mem_decimal hc)
  have hzero : p '0' := hd _ (by decide)
  have hzeros : ∀ n, ∀ c ∈ List.replicate n '0', p c := fun n c hc => List.eq_of_mem_replicate hc ▸ hzero
  have htake : ∀ k, ∀ c ∈ (Nat.toDigits 10 d.digits).take k, p c := fun k c hc =>
    hdigits _ c (List.mem_of_mem_take hc)
  have hdrop : ∀ k, ∀ c ∈ (Nat.toDigits 10 d.digits).drop k, p c := fun k c hc =>
    hdigits _ c (List.mem_of_mem_drop hc)
  simp only [List.forall_mem_cons, List.not_mem_nil, false_implies, implies_true, and_true] at hm
  obtain ⟨hpoint, he, hminus, hplus⟩ := hm
  unfold Decimal.chars
  simp only
  split
  · simp [hzero, hpoint]
  split
  · split
    · simp only [List.forall_mem_append, List.forall_mem_cons]
      exact ⟨⟨⟨hzero, hpoint, by simp⟩, hzeros _⟩, hdigits _⟩
    split
    · simp only [List.forall_mem_append, List.forall_mem_cons]
      exact ⟨⟨hdigits _, hzeros _⟩, hpoint, hzero, by simp⟩
    · simp only [List.forall_mem_append, List.forall_mem_cons]
      exact ⟨htake _, hpoint, hdrop _⟩
  · simp only [List.forall_mem_append, List.forall_mem_cons]
    refine ⟨⟨htake _, ?_⟩, he, by split <;> assumption, hdigits _⟩
    split
    · simp
    · simp only [List.forall_mem_cons]
      exact ⟨hpoint, hdrop _⟩

theorem forall_mem_numberChars {p : Char → Prop} (hd : ∀ c, c.isDigit = true → p c)
    (hm : ∀ c ∈ ['.', 'e', '-', '+'], p c) (x : Number) : ∀ c ∈ x.chars, p c := by
  have hminus : p '-' := hm '-' (by simp)
  cases x with
  | integer i l u =>
    simp only [Number.chars, List.forall_mem_append]
    exact ⟨by split <;> simp [hminus], fun c hc => hd c (isDigit_of_mem_decimal hc)⟩
  | double d =>
    simp only [Number.chars, Binary.chars, List.forall_mem_append]
    exact ⟨by split <;> simp [hminus], forall_mem_decimalChars hd hm _ _⟩

theorem decimalChars_ne_nil (style : DecimalStyle) (d : Decimal) : d.chars style ≠ [] := by
  unfold Decimal.chars
  simp only
  repeat' split
  all_goals simp [Nat.toDigits_ne_nil]

theorem numberChars_ne_nil (x : Number) : x.chars ≠ [] := by
  cases x with
  | integer i l u => simp [Number.chars, Nat.toDigits_ne_nil]
  | double d => simp [Number.chars, Binary.chars, decimalChars_ne_nil]

theorem not_blank_of_mem_numberChars (x : Number) : ∀ c ∈ x.chars, isBlank c = false :=
  forall_mem_numberChars (fun _ => not_blank_of_isDigit) (by simp [isBlank]) x

theorem skipBlanks_of_forall {s : List Char} (h : ∀ c ∈ s, isBlank c = false) :
    skipBlanks s = s := by
  cases s with
  | nil => rfl
  | cons c s => simp [skipBlanks, h c (by simp)]

theorem mapRead_ok {α β : Type} {f : α → β} {x : Except Fault (α × List Char)} {b : β} {r : List Char}
    (h : mapRead f x = .ok (b, r)) : ∃ a, x = .ok (a, r) ∧ f a = b := by
  cases x with
  | error e => simp [mapRead] at h
  | ok p =>
    obtain ⟨a, r'⟩ := p
    simp only [mapRead, Except.ok.injEq, Prod.mk.injEq] at h
    obtain ⟨rfl, rfl⟩ := h
    exact ⟨a, rfl, rfl⟩

theorem readNumber_of_readScalar {c : Char} {s r : List Char} {x : Number}
    (h : readScalar c s = .ok (.number x, r)) :
    c = '-' ∧ readNumber true s = .ok (x, r) ∨
      c.isDigit = true ∧ readNumber false (c :: s) = .ok (x, r) := by
  unfold readScalar at h
  split at h
  · split at h <;> simp at h
  split at h
  · split at h <;> simp at h
  split at h
  · split at h <;> simp at h
  split at h
  · rename_i hc
    obtain ⟨y, hy, hxy⟩ := mapRead_ok h
    cases hxy
    exact .inl ⟨hc, hy⟩
  split at h
  · rename_i hc
    obtain ⟨y, hy, hxy⟩ := mapRead_ok h
    cases hxy
    exact .inr ⟨hc, hy⟩
  split at h
  · obtain ⟨y, _, hxy⟩ := mapRead_ok h
    cases hxy
  · cases h

theorem readScalar_of_readTree {n : Nat} {c : Char} {s r : List Char} {x : Number}
    (hc : isBlank c = false) (h : readTree n (c :: s) = .ok (.number x, r)) :
    readScalar c s = .ok (.number x, r) := by
  rw [readTree.eq_def] at h
  simp only [skipBlanks, hc, Bool.false_eq_true, ↓reduceIte] at h
  split at h
  · cases n with
    | zero => cases h
    | succ n =>
      obtain ⟨y, _, hxy⟩ := mapRead_ok h
      cases hxy
  split at h
  · cases n with
    | zero => cases h
    | succ n =>
      obtain ⟨y, _, hxy⟩ := mapRead_ok h
      cases hxy
  · exact h

/-- `x` is read from its text, its sign apart, up to where that is delimited. -/
def Number.ReadsBack (x : Number) : Prop :=
  ∃ c s, x.chars = c :: s ∧ isBlank c = false ∧ ∀ t, Delimited t →
    (c = '-' ∧ readNumber true (s ++ t) = .ok (x, t) ∨
      c.isDigit = true ∧ readNumber false (c :: s ++ t) = .ok (x, t))

theorem Number.readsBack_integer {i : Int} (l : -0x8000000000000000 ≤ i) (u : i < 0x10000000000000000) :
    (Number.integer i l u).ReadsBack := by
  have hread := fun t (ht : Delimited t) => readNumber_integer l u ht
  by_cases hneg : i < 0
  · refine ⟨'-', Nat.toDigits 10 i.natAbs, by simp [chars, hneg], by decide, fun t ht => ?_⟩
    exact .inl ⟨rfl, by simpa [hneg] using hread t ht⟩
  · cases hds : Nat.toDigits 10 i.natAbs with
    | nil => exact absurd hds Nat.toDigits_ne_nil
    | cons c ds =>
      have hc : c.isDigit = true := isDigit_of_mem_decimal (n := i.natAbs) (by simp [hds])
      refine ⟨c, ds, by simp [chars, hneg, hds], not_blank_of_isDigit hc, fun t ht => ?_⟩
      exact .inr ⟨hc, by simpa [hneg, hds] using hread t ht⟩

theorem Number.readsBack_double {d : Double} (h : d.ReadsBack) : (Number.double d).ReadsBack := by
  have hblank := not_blank_of_mem_numberChars (.double d)
  have htext : (Json.number (.double d)).text.toList = (Number.double d).chars := by
    simp [Json.text, Json.chars]
  simp only [Double.ReadsBack, parse, htext, readAll] at h
  cases hs : (Number.double d).chars with
  | nil => simp [hs, readTree, skipBlanks] at h
  | cons c s =>
    rw [hs] at h hblank
    have hc := hblank c (by simp)
    cases hread : readTree depthLimit (c :: s) with
    | error f => simp [hread] at h
    | ok p =>
      obtain ⟨j, r⟩ := p
      simp only [hread] at h
      cases hr : skipBlanks r with
      | cons b r' => simp [hr] at h
      | nil =>
        simp only [hr, Except.ok.injEq] at h
        subst h
        have hnum := readNumber_of_readScalar (readScalar_of_readTree hc hread)
        have hsuf : r <:+ c :: s := by
          rcases hnum with ⟨_, h⟩ | ⟨_, h⟩
          · exact (local_readNumber _ _ _ _ h).1.trans (List.suffix_cons c s)
          · exact (local_readNumber _ _ _ _ h).1
        have hnil : r = [] := by
          rw [← hr]
          exact (skipBlanks_of_forall fun b hb => hblank b (hsuf.subset hb)).symm
        subst hnil
        refine ⟨c, s, hs, hc, fun t ht => ?_⟩
        rcases hnum with ⟨hm, h⟩ | ⟨hd, h⟩
        · exact .inl ⟨hm, (local_readNumber _ _ _ _ h).2 t ht⟩
        · exact .inr ⟨hd, (local_readNumber _ _ _ _ h).2 t ht⟩

theorem Number.readsBack {x : Number} (h : ∀ d, x = .double d → d.ReadsBack) : x.ReadsBack :=
  match x with
  | .integer _ l u => readsBack_integer l u
  | .double d => readsBack_double (h d rfl)

end DocQuery.Json

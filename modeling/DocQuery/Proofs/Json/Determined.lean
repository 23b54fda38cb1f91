import DocQuery.Proofs.Json.Tree

/-! # A text determines its tree

Two trees with one text are the same, however deep they nest and whatever text follows each:
`chars_inj`. No reading is involved. Strings and brackets end by themselves, a number ends where its
characters do; of doubles it is assumed that those of the two trees are told apart by their texts.
-/
namespace DocQuery.Json

/-- A text after a value: its first character is in no number. -/
def Closed : List Char → Prop
  | [] => True
  | c :: _ => c = ',' ∨ c = ']' ∨ c = '\x7d'

theorem closed_items (xs : List Json) (t : List Char) : Closed (charsItems false xs ++ ']' :: t) := by
  cases xs with
  | nil => exact .inr (.inl rfl)
  | cons x xs => exact .inl rfl

theorem closed_members (ms : List (String × Json)) (t : List Char) :
    Closed (charsMembers false ms ++ '\x7d' :: t) := by
  cases ms with
  | nil => exact .inr (.inr rfl)
  | cons m ms => exact .inl rfl

theorem not_closed_of_mem_numberChars (x : Number) {c : Char} (hc : c ∈ x.chars) (t : List Char) :
    ¬ Closed (c :: t) := by
  have hdigit : ∀ c : Char, c.isDigit = true → ¬ Closed (c :: t) := by
    rintro c hc (rfl | rfl | rfl) <;> exact absurd hc (by decide)
  exact forall_mem_numberChars hdigit (by simp [Closed]) x c hc

/-- Of two numbers with closed texts after them neither goes on where the other ends. -/
theorem numberChars_append_inj {x y : Number} {s t : List Char} (hs : Closed s) (ht : Closed t)
    (h : x.chars ++ s = y.chars ++ t) : x.chars = y.chars ∧ s = t := by
  rcases List.append_eq_append_iff.1 h with ⟨u, hy, hst⟩ | ⟨u, hx, hts⟩
  · cases u with
    | nil => exact ⟨by simpa using hy.symm, by simpa using hst⟩
    | cons c u =>
      have hmem : c ∈ y.chars := by rw [hy]; simp
      rw [hst] at hs
      exact absurd hs (not_closed_of_mem_numberChars y hmem _)
  · cases u with
    | nil => exact ⟨by simpa using hx, by simpa using hts.symm⟩
    | cons c u =>
      have hmem : c ∈ x.chars := by rw [hx]; simp
      rw [hts] at ht
      exact absurd ht (not_closed_of_mem_numberChars x hmem _)

theorem quote_append_inj {k l : String} {s t : List Char} (h : quote k ++ s = quote l ++ t) :
    k = l ∧ s = t := by
  rw [quote_append, quote_append, List.cons_inj_right] at h
  have hread := congrArg readString h
  rw [readString_quoted, readString_quoted] at hread
  simpa using hread

theorem toDigits_inj {m n : Nat} (h : Nat.toDigits 10 m = Nat.toDigits 10 n) : m = n := by
  calc m = Nat.ofDigitChars 10 (Nat.toDigits 10 m) 0 := Nat.ofDigitChars_ten_toDigits.symm
    _ = Nat.ofDigitChars 10 (Nat.toDigits 10 n) 0 := by rw [h]
    _ = n := Nat.ofDigitChars_ten_toDigits

theorem not_minus_of_mem_decimal {n : Nat} {t : List Char} : Nat.toDigits 10 n ≠ '-' :: t := by
  intro h
  have hmem : '-' ∈ Nat.toDigits 10 n := by rw [h]; simp
  exact absurd (isDigit_of_mem_decimal hmem) (by decide)

theorem exists_mark_mem_decimalChars (style : DecimalStyle) (d : Decimal) :
    ∃ c ∈ d.chars style, c = '.' ∨ c = 'e' := by
  unfold Decimal.chars
  dsimp only
  split
  · exact ⟨'.', by simp, .inl rfl⟩
  split
  · split
    · exact ⟨'.', by simp, .inl rfl⟩
    split
    · exact ⟨'.', by simp, .inl rfl⟩
    · exact ⟨'.', by simp, .inl rfl⟩
  · exact ⟨'e', by simp, .inr rfl⟩

namespace Number

theorem integerChars_inj {i j : Int}
    (h : (if i < 0 then ['-'] else []) ++ Nat.toDigits 10 i.natAbs =
      (if j < 0 then ['-'] else []) ++ Nat.toDigits 10 j.natAbs) : i = j := by
  by_cases hi : i < 0 <;> by_cases hj : j < 0 <;>
    simp only [hi, hj, if_true, if_false, List.singleton_append, List.nil_append] at h
  · have habs := toDigits_inj (List.cons.inj h).2
    omega
  · exact absurd h.symm not_minus_of_mem_decimal
  · exact absurd h not_minus_of_mem_decimal
  · have habs := toDigits_inj h
    omega

/-- No double is written like an integer. -/
theorem integerChars_ne_doubleChars {i : Int} {l : -0x8000000000000000 ≤ i}
    {u : i < 0x10000000000000000} {d : Double} :
    (integer i l u).chars ≠ (double d).chars := by
  intro h
  obtain ⟨c, hc, hmark⟩ := exists_mark_mem_decimalChars .double d.shortest
  have hmem : c ∈ (integer i l u).chars := by
    rw [h]
    exact List.mem_append_right _ hc
  have hint : c = '-' ∨ c.isDigit = true := by
    rcases List.mem_append.1 hmem with hsign | hdigits
    · split at hsign <;> simp_all
    · exact .inr (isDigit_of_mem_decimal hdigits)
  rcases hmark with rfl | rfl <;> exact absurd hint (by decide)

end Number

/-- Doubles of two lists are the same if their texts are. -/
def ToldApart (xs ys : List Number) : Prop :=
  ∀ d, Number.double d ∈ xs → ∀ d', Number.double d' ∈ ys →
    (Number.double d).text = (Number.double d').text → d = d'

theorem ToldApart.mono {xs xs' ys ys' : List Number} (h : ToldApart xs ys) (hx : xs' ⊆ xs)
    (hy : ys' ⊆ ys) : ToldApart xs' ys' :=
  fun d hd d' hd' ht => h d (hx hd) d' (hy hd') ht

theorem eq_of_numberChars {x y : Number} (hd : ToldApart [x] [y]) (h : x.chars = y.chars) : x = y := by
  cases x with
  | integer i l u =>
    cases y with
    | integer j l' u' =>
      cases Number.integerChars_inj h
      rfl
    | double d => exact absurd h Number.integerChars_ne_doubleChars
  | double d =>
    cases y with
    | integer j l' u' => exact absurd h.symm Number.integerChars_ne_doubleChars
    | double d' =>
      have htext : (Number.double d).text = (Number.double d').text := congrArg String.ofList h
      rw [hd d (by simp) d' (by simp) htext]

def rank : Json → Nat
  | null => 0
  | bool _ => 1
  | number _ => 2
  | string _ => 3
  | array _ => 4
  | object _ => 5

def rankOf (c : Char) : Nat :=
  if c = 'n' then 0 else if c = 't' ∨ c = 'f' then 1 else if c = '"' then 3
  else if c = '[' then 4 else if c = '\x7b' then 5 else 2

theorem exists_head (a : Json) : ∃ c s, a.chars = c :: s ∧ rankOf c = a.rank := by
  cases a with
  | null => exact ⟨_, _, rfl, rfl⟩
  | bool b => cases b <;> exact ⟨_, _, rfl, rfl⟩
  | number x =>
    have hdigit : ∀ c : Char, c.isDigit = true → rankOf c = 2 := by
      intro c hc
      have hne : ∀ d : Char, d.isDigit = false → c ≠ d := by
        rintro d hd rfl
        rw [hd] at hc
        cases hc
      simp only [rankOf, hne 'n' (by decide), hne 't' (by decide), hne 'f' (by decide),
        hne '"' (by decide), hne '[' (by decide), hne '\x7b' (by decide), or_self, if_false]
    have hrank := forall_mem_numberChars hdigit (by simp [rankOf]) x
    cases hx : x.chars with
    | nil => exact absurd hx (numberChars_ne_nil x)
    | cons c s =>
      rw [hx] at hrank
      exact ⟨c, s, by rw [chars, hx], hrank c (by simp)⟩
  | string s => exact ⟨_, _, rfl, rfl⟩
  | array xs => exact ⟨_, _, rfl, rfl⟩
  | object ms => exact ⟨_, _, rfl, rfl⟩

theorem rank_eq {a b : Json} {s t : List Char} (h : a.chars ++ s = b.chars ++ t) :
    a.rank = b.rank := by
  obtain ⟨c, u, ha, hc⟩ := exists_head a
  obtain ⟨d, v, hb, hd⟩ := exists_head b
  rw [ha, hb] at h
  rw [← hc, ← hd, (List.cons.inj h).1]

mutual
/-- A text and where it ends determine the tree that was written. -/
theorem chars_inj : (a b : Json) → ToldApart a.numbers b.numbers → ∀ {s t : List Char}, Closed s →
    Closed t → a.chars ++ s = b.chars ++ t → a = b ∧ s = t
  | null, b, _, s, t, _, _, h => by
    have hr := rank_eq h
    cases b with
    | null => exact ⟨rfl, List.append_cancel_left h⟩
    | _ => cases hr
  | bool p, b, _, s, t, _, _, h => by
    have hr := rank_eq h
    cases b with
    | bool q => cases p <;> cases q <;> simp [chars] at h ⊢ <;> exact h
    | _ => cases hr
  | number x, b, hd, s, t, hs, ht, h => by
    have hr := rank_eq h
    cases b with
    | number y =>
      obtain ⟨hxy, hst⟩ := numberChars_append_inj hs ht h
      rw [eq_of_numberChars hd hxy]
      exact ⟨rfl, hst⟩
    | _ => cases hr
  | string k, b, _, s, t, _, _, h => by
    have hr := rank_eq h
    cases b with
    | string l =>
      obtain ⟨hkl, hst⟩ := quote_append_inj h
      rw [hkl]
      exact ⟨rfl, hst⟩
    | _ => cases hr
  | array xs, b, hd, s, t, _, _, h => by
    have hr := rank_eq h
    cases b with
    | array ys =>
      simp only [chars, List.cons_append, List.append_assoc, List.nil_append, List.cons.injEq,
        true_and] at h
      obtain ⟨hxy, hst⟩ := charsItems_inj xs ys hd true h
      rw [hxy]
      exact ⟨rfl, hst⟩
    | _ => cases hr
  | object ms, b, hd, s, t, _, _, h => by
    have hr := rank_eq h
    cases b with
    | object ns =>
      simp only [chars, List.cons_append, List.append_assoc, List.nil_append, List.cons.injEq,
        true_and] at h
      obtain ⟨hmn, hst⟩ := charsMembers_inj ms ns hd true h
      rw [hmn]
      exact ⟨rfl, hst⟩
    | _ => cases hr
theorem charsItems_inj : (xs ys : List Json) → ToldApart (numbersItems xs) (numbersItems ys) →
    (first : Bool) → ∀ {s t : List Char},
    charsItems first xs ++ ']' :: s = charsItems first ys ++ ']' :: t → xs = ys ∧ s = t
  | [], [], _, _, s, t, h => ⟨rfl, by simpa [charsItems] using h⟩
  | [], y :: ys, _, first, s, t, h => by
    -- No value begins with the bracket that ends the other list.
    obtain ⟨c, u, hy, -, hc⟩ := chars_cons y
    cases first <;> simp [charsItems, hy] at h
    exact absurd h.1.symm hc
  | x :: xs, [], _, first, s, t, h => by
    obtain ⟨c, u, hx, -, hc⟩ := chars_cons x
    cases first <;> simp [charsItems, hx] at h
    exact absurd h.1 hc
  | x :: xs, y :: ys, hd, first, s, t, h => by
    simp only [charsItems, List.append_assoc, List.append_cancel_left_eq] at h
    obtain ⟨hxy, hrest⟩ := chars_inj x y
      (hd.mono (List.subset_append_left _ _) (List.subset_append_left _ _))
      (closed_items xs s) (closed_items ys t) h
    obtain ⟨hxs, hst⟩ := charsItems_inj xs ys
      (hd.mono (List.subset_append_right _ _) (List.subset_append_right _ _)) false hrest
    exact ⟨by rw [hxy, hxs], hst⟩
theorem charsMembers_inj : (ms ns : List (String × Json)) →
    ToldApart (numbersMembers ms) (numbersMembers ns) → (first : Bool) → ∀ {s t : List Char},
    charsMembers first ms ++ '\x7d' :: s = charsMembers first ns ++ '\x7d' :: t → ms = ns ∧ s = t
  | [], [], _, _, s, t, h => ⟨rfl, by simpa [charsMembers] using h⟩
  | [], (l, y) :: ns, _, first, s, t, h => by
    cases first <;> simp [charsMembers, quote] at h
  | (k, x) :: ms, [], _, first, s, t, h => by
    cases first <;> simp [charsMembers, quote] at h
  | (k, x) :: ms, (l, y) :: ns, hd, first, s, t, h => by
    simp only [charsMembers, List.append_assoc, List.append_cancel_left_eq, List.cons_append] at h
    obtain ⟨hkl, hvalue⟩ := quote_append_inj h
    obtain ⟨hxy, hrest⟩ := chars_inj x y
      (hd.mono (List.subset_append_left _ _) (List.subset_append_left _ _))
      (closed_members ms s) (closed_members ns t) (List.cons.inj hvalue).2
    obtain ⟨hms, hst⟩ := charsMembers_inj ms ns
      (hd.mono (List.subset_append_right _ _) (List.subset_append_right _ _)) false hrest
    exact ⟨by rw [hkl, hxy, hms], hst⟩
end

theorem text_inj {a b : Json} (hd : ToldApart a.numbers b.numbers) (h : a.text = b.text) : a = b := by
  have hchars : a.chars ++ [] = b.chars ++ [] := by
    rw [List.append_nil, List.append_nil]
    exact String.ofList_injective h
  exact (chars_inj a b hd (s := []) (t := []) trivial trivial hchars).1

end DocQuery.Json

import DocQuery.Json.Reader.Skip
import DocQuery.Json.Reader.Tree

/-! # How a tree was read

A successful reading of a tree is taken apart by the first character: `ReadAs` has one case for each
kind of value and says which token or loop succeeded. Other readers of the same text are compared
with the tree through it.
-/
namespace DocQuery.Json

theorem skipBlanks_idem (s : List Char) : skipBlanks (skipBlanks s) = skipBlanks s := by
  induction s with
  | nil => rfl
  | cons c s ih =>
    by_cases hc : isBlank c = true
    · simpa [skipBlanks, hc] using ih
    · simp [skipBlanks, hc]

theorem skipBlanks_suffix (s : List Char) : skipBlanks s <:+ s := by
  induction s with
  | nil => exact List.suffix_refl _
  | cons c s ih =>
    simp only [skipBlanks]
    split
    · exact ih.trans (List.suffix_cons c s)
    · exact List.suffix_refl _

theorem digit_ne {c d : Char} (hc : c.isDigit = true) (hd : d.isDigit = false) : c ≠ d := by
  rintro rfl
  rw [hc] at hd
  cases hd

/-- What stands before the rest of an array, up to a next item or the closing bracket. -/
theorem nextItem_eq_ok {first more : Bool} {s r : List Char}
    (h : nextItem first s = .ok (more, r)) :
    ∃ c t, skipBlanks s = c :: t ∧
      ((more = false ∧ c = ']' ∧ r = c :: t) ∨
        (more = true ∧ c ≠ ']' ∧
          ((first = true ∧ r = c :: t) ∨ (first = false ∧ c = ',' ∧ r = skipBlanks t)))) := by
  unfold nextItem at h
  cases hs : skipBlanks s with
  | nil => simp [hs] at h
  | cons c t =>
    simp only [hs] at h
    refine ⟨c, t, rfl, ?_⟩
    split at h
    · rename_i hc
      cases h
      exact .inl ⟨rfl, hc, rfl⟩
    · rename_i hc
      refine .inr ?_
      split at h
      · rename_i hfirst
        cases h
        exact ⟨rfl, hc, .inl ⟨hfirst, rfl⟩⟩
      · rename_i hfirst
        split at h
        · rename_i hcomma
          cases ht : skipBlanks t with
          | nil => simp [ht] at h
          | cons d t' =>
            simp only [ht] at h
            split at h
            · cases h
            · cases h
              exact ⟨rfl, hc, .inr ⟨by simpa using hfirst, hcomma, rfl⟩⟩
        · cases h

theorem keyAt_eq_ok {s r : List Char} {key : Option String} (h : keyAt s = .ok (key, r)) :
    ∃ k q, key = some k ∧ s = '"' :: q ∧ readString q = .ok (k, r) := by
  unfold keyAt at h
  split at h
  · rename_i q
    cases hq : readString q with
    | error f => simp [hq] at h
    | ok x =>
      obtain ⟨k, r'⟩ := x
      simp only [hq] at h
      cases h
      exact ⟨k, q, rfl, rfl, hq⟩
  · cases h

/-- What stands before the rest of an object, up to the colon after a key or the closing bracket. -/
theorem nextKey_eq_ok {first : Bool} {s r : List Char} {key : Option String}
    (h : nextKey first s = .ok (key, r)) :
    ∃ c t, skipBlanks s = c :: t ∧
      ((key = none ∧ c = '\x7d' ∧ r = c :: t) ∨
        (c ≠ '\x7d' ∧ ∃ k q, key = some k ∧ readString q = .ok (k, r) ∧
          ((first = true ∧ c :: t = '"' :: q) ∨
            (first = false ∧ c = ',' ∧ skipBlanks t = '"' :: q)))) := by
  unfold nextKey at h
  cases hs : skipBlanks s with
  | nil => simp [hs] at h
  | cons c t =>
    simp only [hs] at h
    refine ⟨c, t, rfl, ?_⟩
    split at h
    · rename_i hc
      cases h
      exact .inl ⟨rfl, hc, rfl⟩
    · rename_i hc
      refine .inr ⟨hc, ?_⟩
      split at h
      · rename_i hfirst
        obtain ⟨k, q, hk, hq, hread⟩ := keyAt_eq_ok h
        exact ⟨k, q, hk, hread, .inl ⟨hfirst, hq⟩⟩
      · rename_i hfirst
        split at h
        · rename_i hcomma
          cases ht : skipBlanks t with
          | nil => simp [ht] at h
          | cons d t' =>
            simp only [ht] at h
            split at h
            · cases h
            · obtain ⟨k, q, hk, hq, hread⟩ := keyAt_eq_ok h
              exact ⟨k, q, hk, hread, .inr ⟨by simpa using hfirst, hcomma, hq⟩⟩
        · cases h

theorem mapRead_eq_ok {α β : Type} {f : α → β} {x : Except Fault (α × List Char)} {b : β}
    {r : List Char} (h : mapRead f x = .ok (b, r)) : ∃ a, x = .ok (a, r) ∧ f a = b := by
  cases x with
  | error e => cases h
  | ok a =>
    cases h
    exact ⟨a.1, rfl, rfl⟩

theorem items_eq_ok {α : Type} {item : Reader α} {fuel : Nat} {first : Bool} {s u : List Char}
    {xs : List α} (h : items item fuel first s = .ok (xs, u)) :
    (xs = [] ∧ nextItem first s = .ok (false, u)) ∨
      ∃ fuel' x xs' t r, fuel = fuel' + 1 ∧ xs = x :: xs' ∧ nextItem first s = .ok (true, t) ∧
        item t = .ok (x, r) ∧ items item fuel' false r = .ok (xs', u) := by
  cases fuel with
  | zero => cases h
  | succ fuel =>
    simp only [items] at h
    split at h
    · cases h
    · rename_i hnext
      cases h
      exact .inl ⟨rfl, hnext⟩
    · rename_i t hnext
      cases hitem : item t with
      | error f => simp [hitem] at h
      | ok x =>
        obtain ⟨x, r⟩ := x
        simp only [hitem] at h
        cases hrest : items item fuel false r with
        | error f => simp [hrest] at h
        | ok y =>
          obtain ⟨xs', u'⟩ := y
          simp only [hrest] at h
          cases h
          exact .inr ⟨fuel, x, xs', t, r, rfl, rfl, hnext, hitem, hrest⟩

/-- The members of an object end at once, or there is a first one. -/
theorem members_eq_ok {read : Reader Json} {fuel : Nat} {first : Bool} {s u : List Char}
    {acc out : List (String × Json)}
    (h : members (readMember read) fuel first acc s = .ok (out, u)) :
    (out = acc ∧ nextKey first s = .ok (none, u)) ∨
      ∃ fuel' k t w j r, fuel = fuel' + 1 ∧ nextKey first s = .ok (some k, t) ∧
        readColon t = .ok w ∧ read w = .ok (j, r) ∧
        members (readMember read) fuel' false (acc ++ [(k, j)]) r = .ok (out, u) := by
  cases fuel with
  | zero => cases h
  | succ fuel =>
    simp only [members] at h
    split at h
    · cases h
    · rename_i hnext
      cases h
      exact .inl ⟨rfl, hnext⟩
    · rename_i k t hnext
      cases hstep : readMember read acc k t with
      | error f => simp [hstep] at h
      | ok x =>
        obtain ⟨acc', r⟩ := x
        simp only [hstep] at h
        unfold readMember at hstep
        cases hcolon : readColon t with
        | error f => simp [hcolon] at hstep
        | ok w =>
          simp only [hcolon] at hstep
          obtain ⟨j, hj, rfl⟩ := mapRead_eq_ok hstep
          exact .inr ⟨fuel, k, t, w, j, r, rfl, hnext, hcolon, hj, h⟩

/-- The reading of a value of at most `n` levels from a text that does not begin with a blank. -/
inductive ReadAs : Nat → List Char → Json → List Char → Prop where
  | null {n : Nat} {t r : List Char} (h : readName ['u', 'l', 'l'] t = .ok r) :
    ReadAs n ('n' :: t) .null r
  | yes {n : Nat} {t r : List Char} (h : readName ['r', 'u', 'e'] t = .ok r) :
    ReadAs n ('t' :: t) (.bool true) r
  | no {n : Nat} {t r : List Char} (h : readName ['a', 'l', 's', 'e'] t = .ok r) :
    ReadAs n ('f' :: t) (.bool false) r
  | negative {n : Nat} {t r : List Char} {x : Number} (h : readNumber true t = .ok (x, r)) :
    ReadAs n ('-' :: t) (.number x) r
  | number {n : Nat} {c : Char} {t r : List Char} {x : Number} (hc : c.isDigit = true)
      (h : readNumber false (c :: t) = .ok (x, r)) :
    ReadAs n (c :: t) (.number x) r
  | string {n : Nat} {t r : List Char} {s : String} (h : readString t = .ok (s, r)) :
    ReadAs n ('"' :: t) (.string s) r
  | array {n : Nat} {t u r : List Char} {xs : List Json}
      (h : items (readTree n) (t.length + 1) true t = .ok (xs, u)) (hend : endArray u = .ok r) :
    ReadAs (n + 1) ('[' :: t) (.array xs) r
  | object {n : Nat} {t u r : List Char} {ms : List (String × Json)}
      (h : members (readMember (readTree n)) (t.length + 1) true [] t = .ok (ms, u))
      (hend : endObject u = .ok r) :
    ReadAs (n + 1) ('\x7b' :: t) (.object ms) r

theorem closeBy_eq_ok {α : Type} {past : List Char → List Char}
    {close : List Char → Except Fault (List Char)} {x : Except Fault (α × List Char)} {a : α}
    {r : List Char} (h : closeBy past close x = .ok (a, r)) :
    ∃ u, x = .ok (a, u) ∧ close u = .ok r := by
  unfold closeBy at h
  split at h
  · cases h
  · rename_i a' u
    cases hu : close u with
    | error f => simp [hu] at h
    | ok r' =>
      simp only [hu] at h
      cases h
      exact ⟨u, rfl, hu⟩

theorem readAs_of_readScalar {n : Nat} {c : Char} {t r : List Char} {j : Json}
    (h : readScalar c t = .ok (j, r)) : ReadAs n (c :: t) j r := by
  unfold readScalar at h
  split at h
  · rename_i hc
    subst hc
    split at h
    · rename_i hname
      cases h
      exact .null hname
    · cases h
  · split at h
    · rename_i hc
      subst hc
      split at h
      · rename_i hname
        cases h
        exact .yes hname
      · cases h
    · split at h
      · rename_i hc
        subst hc
        split at h
        · rename_i hname
          cases h
          exact .no hname
        · cases h
      · split at h
        · rename_i hc
          obtain ⟨x, hx, rfl⟩ := mapRead_eq_ok h
          subst hc
          exact .negative hx
        · split at h
          · rename_i hc
            obtain ⟨x, hx, rfl⟩ := mapRead_eq_ok h
            exact .number hc hx
          · split at h
            · rename_i hc
              obtain ⟨s, hs, rfl⟩ := mapRead_eq_ok h
              subst hc
              exact .string hs
            · cases h

theorem readAs_of_readTree {n : Nat} {s r : List Char} {j : Json}
    (h : readTree n s = .ok (j, r)) : ReadAs n (skipBlanks s) j r := by
  unfold readTree at h
  cases hs : skipBlanks s with
  | nil => simp [hs] at h
  | cons c t =>
    simp only [hs] at h
    split at h
    · rename_i hc
      subst hc
      cases n with
      | zero => cases h
      | succ n =>
        obtain ⟨xs, hx, rfl⟩ := mapRead_eq_ok h
        obtain ⟨u, hu, hend⟩ := closeBy_eq_ok hx
        exact .array hu hend
    · split at h
      · rename_i hc
        subst hc
        cases n with
        | zero => cases h
        | succ n =>
          obtain ⟨ms, hms, rfl⟩ := mapRead_eq_ok h
          obtain ⟨u, hu, hend⟩ := closeBy_eq_ok hms
          exact .object hu hend
      · exact readAs_of_readScalar h

end DocQuery.Json

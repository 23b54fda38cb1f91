import DocQuery.Json.Decode.Text
import DocQuery.Proofs.Json.Number
import DocQuery.Proofs.Json.Quoted

/-! # Written trees are read back

The text of a tree is read back as that tree as deep as the reader goes, and is refused for its
nesting beyond that: `reads_tree`. `Reads` keeps both halves together, so that the loops over items
and members and the decoders built on them carry one statement each.
-/
namespace DocQuery.Json

/-- A reader's result on a text that holds `a` and then `rest`: it gives `a` back if `a` fits into
the levels that are left, and finds the nesting too deep if it does not. -/
structure Reads {α : Type} (fits : Prop) (a : α) (rest : List Char)
    (r : Except Fault (α × List Char)) : Prop where
  ok : fits → r = .ok (a, rest)
  deep : ¬ fits → ∃ f, r = .error f ∧ f.cause = .recursionLimit

namespace Reads
variable {α β : Type} {fits : Prop} {a : α} {t : List Char} {r : Except Fault (α × List Char)}

theorem congr {fits' : Prop} (h : Reads fits a t r) (hf : fits ↔ fits') : Reads fits' a t r := by
  cases propext hf
  exact h

theorem of_ok (hf : fits) (h : r = .ok (a, t)) : Reads fits a t r :=
  ⟨fun _ => h, fun hn => absurd hf hn⟩

theorem of_deep {f : Fault} (hf : ¬ fits) (h : r = .error f) (hc : f.cause = .recursionLimit) :
    Reads fits a t r :=
  ⟨fun h => absurd h hf, fun _ => ⟨f, h, hc⟩⟩

theorem map (h : Reads fits a t r) (g : α → β) : Reads fits (g a) t (mapRead g r) := by
  constructor
  · intro hf
    rw [h.ok hf]
    rfl
  · intro hf
    obtain ⟨f, hr, hc⟩ := h.deep hf
    exact ⟨f, by rw [hr]; rfl, hc⟩

theorem judge {g : α → Except Cause β} {b : β} (h : Reads fits a t r) (hg : g a = .ok b) :
    Reads fits b t (Json.judge g r) := by
  constructor
  · intro hf
    simp only [h.ok hf, Json.judge, hg]
  · intro hf
    obtain ⟨f, hr, hc⟩ := h.deep hf
    exact ⟨f, by rw [hr]; rfl, hc⟩

theorem close_cause (skip : List Char → List Char) (f : Fault) : (f.close skip).cause = f.cause := by
  unfold Fault.close
  split <;> rfl

theorem closeBy {past : List Char → List Char} {close : List Char → Except Fault (List Char)} {c : Char}
    (h : Reads fits a (c :: t) r) (hclose : close (c :: t) = .ok t) :
    Reads fits a t (Json.closeBy past close r) := by
  constructor
  · intro hf
    simp only [h.ok hf, Json.closeBy, hclose]
  · intro hf
    obtain ⟨f, hr, hc⟩ := h.deep hf
    exact ⟨f.close past, by rw [hr]; rfl, by rw [close_cause, hc]⟩

end Reads

theorem chars_cons (j : Json) :
    ∃ c s, j.chars = c :: s ∧ isBlank c = false ∧ c ≠ ']' := by
  cases j with
  | null => exact ⟨_, _, rfl, by decide, by decide⟩
  | bool b => cases b <;> exact ⟨_, _, rfl, by decide, by decide⟩
  | number x =>
    have hblank := not_blank_of_mem_numberChars x
    have hclose : ∀ c ∈ x.chars, c ≠ ']' :=
      forall_mem_numberChars (by rintro c hc rfl; exact absurd hc (by decide)) (by simp) x
    cases hx : x.chars with
    | nil => exact absurd hx (numberChars_ne_nil x)
    | cons c s =>
      rw [hx] at hblank hclose
      exact ⟨c, s, by simpa [chars] using hx, hblank c (by simp), hclose c (by simp)⟩
  | string s => exact ⟨_, _, rfl, by decide, by decide⟩
  | array xs => exact ⟨_, _, rfl, by decide, by decide⟩
  | object ms => exact ⟨_, _, rfl, by decide, by decide⟩

theorem delimited_items (xs : List Json) (t : List Char) :
    Delimited (charsItems false xs ++ ']' :: t) := by
  cases xs with
  | nil => exact ⟨by decide, by decide, by decide⟩
  | cons x xs => exact ⟨by decide, by decide, by decide⟩

theorem nextItem_written (first : Bool) (x : Json) (s : List Char) :
    nextItem first ((if first then [] else [',']) ++ x.chars ++ s) = .ok (true, x.chars ++ s) := by
  obtain ⟨c, u, hx, hblank, hclose⟩ := chars_cons x
  have hcomma : isBlank ',' = false := by decide
  rw [hx]
  cases first with
  | true => simp [nextItem, skipBlanks, hblank, hclose]
  | false => simp [nextItem, skipBlanks, hblank, hclose, hcomma]

theorem length_le_charsItems (xs : List Json) (first : Bool) :
    xs.length ≤ (charsItems first xs).length := by
  induction xs generalizing first with
  | nil => simp
  | cons x xs ih =>
    obtain ⟨c, s, hx, -, -⟩ := chars_cons x
    have hrest := ih false
    simp only [charsItems, hx, List.length_append, List.length_cons]
    omega

variable {α : Type} {item : Reader α} {fits : α → Prop}

theorem items_written (tree : α → Json) (xs : List α) (first : Bool) (fuel : Nat)
    (hfuel : xs.length < fuel) (t : List Char)
    (h : ∀ a ∈ xs, ∀ t, Delimited t → Reads (fits a) a t (item ((tree a).chars ++ t))) :
    Reads (∀ a ∈ xs, fits a) xs (']' :: t)
      (items item fuel first (charsItems first (xs.map tree) ++ ']' :: t)) := by
  induction xs generalizing first fuel with
  | nil =>
    obtain ⟨fuel, rfl⟩ : ∃ k, fuel = k + 1 := ⟨fuel - 1, by simp at hfuel; omega⟩
    have hclose : isBlank ']' = false := by decide
    exact .of_ok (by simp) (by simp [charsItems, items, nextItem, skipBlanks, hclose])
  | cons a xs ih =>
    obtain ⟨fuel, rfl⟩ : ∃ k, fuel = k + 1 := ⟨fuel - 1, by simp at hfuel; omega⟩
    have hrest := ih false fuel (by simpa using hfuel) fun b hb => h b (List.mem_cons_of_mem a hb)
    have hitem := h a (by simp) _ (delimited_items (xs.map tree) t)
    have hnext := nextItem_written first (tree a) (charsItems false (xs.map tree) ++ ']' :: t)
    have htext : charsItems first ((a :: xs).map tree) ++ ']' :: t =
        (if first then [] else [',']) ++ (tree a).chars ++
          (charsItems false (xs.map tree) ++ ']' :: t) := by
      simp [charsItems]
    rw [htext]
    constructor
    · intro hf
      have ha := hitem.ok (hf a (by simp))
      have hxs := hrest.ok fun b hb => hf b (List.mem_cons_of_mem a hb)
      simp only [items, hnext, ha, hxs]
    · intro hf
      by_cases ha : fits a
      · have hxs : ¬ ∀ b ∈ xs, fits b := fun hxs => hf (List.forall_mem_cons.2 ⟨ha, hxs⟩)
        obtain ⟨f, hr, hc⟩ := hrest.deep hxs
        exact ⟨f, by simp only [items, hnext, hitem.ok ha, hr], hc⟩
      · obtain ⟨f, hr, hc⟩ := hitem.deep ha
        exact ⟨f, by simp only [items, hnext, hr], hc⟩

theorem delimited_members (ms : List (String × Json)) (t : List Char) :
    Delimited (charsMembers false ms ++ '\x7d' :: t) := by
  cases ms with
  | nil => exact ⟨by decide, by decide, by decide⟩
  | cons m ms => exact ⟨by decide, by decide, by decide⟩

theorem nextKey_written (first : Bool) (k : String) (s : List Char) :
    nextKey first ((if first then [] else [',']) ++ quote k ++ s) = .ok (some k, s) := by
  have hcomma : isBlank ',' = false := by decide
  have hquote : isBlank '"' = false := by decide
  rw [List.append_assoc, quote_append]
  cases first with
  | true => simp [nextKey, skipBlanks, hquote, keyAt, readString_quoted]
  | false => simp [nextKey, skipBlanks, hquote, hcomma, keyAt, readString_quoted]

theorem length_le_charsMembers (ms : List (String × Json)) (first : Bool) :
    ms.length ≤ (charsMembers first ms).length := by
  induction ms generalizing first with
  | nil => simp
  | cons m ms ih =>
    obtain ⟨k, x⟩ := m
    have hrest := ih false
    simp only [charsMembers, List.length_append, List.length_cons]
    omega

variable {σ : Type} {step : σ → String → Reader σ} {st st' r : σ}

theorem members_nil (fuel : Nat) (first : Bool) (t : List Char) :
    Reads True st ('\x7d' :: t)
      (members step (fuel + 1) first st (charsMembers first [] ++ '\x7d' :: t)) := by
  have hclose : isBlank '\x7d' = false := by decide
  exact .of_ok trivial (by simp [charsMembers, members, nextKey, skipBlanks, hclose])

theorem members_cons {fits fits' : Prop} {k : String} {j : Json} {ms : List (String × Json)}
    {fuel : Nat} {first : Bool} {t : List Char}
    (h : ∀ t, Delimited t → Reads fits st' t (step st k (':' :: (j.chars ++ t))))
    (hms : Reads fits' r ('\x7d' :: t)
      (members step fuel false st' (charsMembers false ms ++ '\x7d' :: t))) :
    Reads (fits ∧ fits') r ('\x7d' :: t)
      (members step (fuel + 1) first st (charsMembers first ((k, j) :: ms) ++ '\x7d' :: t)) := by
  have hnext := nextKey_written first k
    (':' :: (j.chars ++ (charsMembers false ms ++ '\x7d' :: t)))
  have hstep := h _ (delimited_members ms t)
  have htext : charsMembers first ((k, j) :: ms) ++ '\x7d' :: t =
      (if first then [] else [',']) ++ quote k ++
        (':' :: (j.chars ++ (charsMembers false ms ++ '\x7d' :: t))) := by
    simp [charsMembers]
  rw [htext]
  constructor
  · intro hf
    simp only [members, hnext, hstep.ok hf.1, hms.ok hf.2]
  · intro hf
    by_cases hj : fits
    · obtain ⟨f, hr, hc⟩ := hms.deep fun h' => hf ⟨hj, h'⟩
      exact ⟨f, by simp only [members, hnext, hstep.ok hj, hr], hc⟩
    · obtain ⟨f, hr, hc⟩ := hstep.deep hj
      exact ⟨f, by simp only [members, hnext, hr], hc⟩

theorem readColon_written (s : List Char) : readColon (':' :: s) = .ok s := by
  have hcolon : isBlank ':' = false := by decide
  simp [readColon, skipBlanks, hcolon]

mutual
/-- The numbers among the leaves. -/
def numbers : Json → List Number
  | number x => [x]
  | array xs => numbersItems xs
  | object ms => numbersMembers ms
  | _ => []
termination_by structural j => j
def numbersItems : List Json → List Number
  | [] => []
  | x :: xs => x.numbers ++ numbersItems xs
termination_by structural xs => xs
def numbersMembers : List (String × Json) → List Number
  | [] => []
  | (_, x) :: ms => x.numbers ++ numbersMembers ms
termination_by structural ms => ms
end

theorem depthItems_le {xs : List Json} {n : Nat} : depthItems xs ≤ n ↔ ∀ x ∈ xs, x.depth ≤ n := by
  induction xs with
  | nil => simp [depthItems]
  | cons x xs ih => rw [depthItems, Nat.max_le, ih, List.forall_mem_cons]

theorem depthMembers_le {ms : List (String × Json)} {n : Nat} :
    depthMembers ms ≤ n ↔ ∀ m ∈ ms, m.2.depth ≤ n := by
  induction ms with
  | nil => simp [depthMembers]
  | cons m ms ih =>
    obtain ⟨k, x⟩ := m
    rw [depthMembers, Nat.max_le, ih, List.forall_mem_cons]

/-- A reader undoes the printing of a tree that nests at most `n` levels. -/
def Undoes (read : Reader α) (j : Json) (a : α) (n : Nat) : Prop :=
  ∀ t, Delimited t → Reads (j.depth ≤ n) a t (read (j.chars ++ t))

theorem readScalar_number {x : Number} (h : x.ReadsBack) (n : Nat) :
    Undoes (readTree n) (number x) (number x) n := by
  intro t ht
  obtain ⟨c, s, hx, hblank, hread⟩ := h
  refine .of_ok (by simp [depth]) ?_
  have hne : c ≠ '[' ∧ c ≠ '\x7b' ∧ c ≠ 'n' ∧ c ≠ 't' ∧ c ≠ 'f' := by
    refine ⟨?_, ?_, ?_, ?_, ?_⟩ <;> rintro rfl <;> rcases hread t ht with ⟨h, _⟩ | ⟨h, _⟩ <;>
      exact absurd h (by decide)
  rw [chars, hx, readTree.eq_def]
  simp only [List.cons_append, skipBlanks, hblank, Bool.false_eq_true, ↓reduceIte, hne, readScalar]
  rcases hread t ht with ⟨rfl, h⟩ | ⟨hd, h⟩
  · simp only [↓reduceIte, h, mapRead]
  · have hminus : c ≠ '-' := by rintro rfl; exact absurd hd (by decide)
    simp only [List.cons_append] at h
    simp only [hminus, hd, ↓reduceIte, h, mapRead]

theorem readMember_written {x : Json} {n : Nat} (h : Undoes (readTree n) x x n)
    (ms : List (String × Json)) (k : String) {t : List Char} (ht : Delimited t) :
    Reads (x.depth ≤ n) (ms ++ [(k, x)]) t
      (readMember (readTree n) ms k (':' :: (x.chars ++ t))) := by
  simp only [readMember, readColon_written]
  exact (h t ht).map fun v => ms ++ [(k, v)]

theorem members_written {n : Nat} (ms acc : List (String × Json)) (first : Bool) (fuel : Nat)
    (hfuel : ms.length < fuel) (t : List Char)
    (h : ∀ m ∈ ms, Undoes (readTree n) m.2 m.2 n) :
    Reads (∀ m ∈ ms, m.2.depth ≤ n) (acc ++ ms) ('\x7d' :: t)
      (members (readMember (readTree n)) fuel first acc (charsMembers first ms ++ '\x7d' :: t)) := by
  induction ms generalizing acc first fuel with
  | nil =>
    obtain ⟨fuel, rfl⟩ : ∃ k, fuel = k + 1 := ⟨fuel - 1, by simp at hfuel; omega⟩
    rw [List.append_nil]
    exact (members_nil fuel first t).congr (by simp)
  | cons m ms ih =>
    obtain ⟨fuel, rfl⟩ : ∃ k, fuel = k + 1 := ⟨fuel - 1, by simp at hfuel; omega⟩
    obtain ⟨k, x⟩ := m
    have hrest := ih (acc ++ [(k, x)]) false fuel (by simpa using hfuel)
      fun m hm => h m (List.mem_cons_of_mem _ hm)
    rw [List.append_assoc, List.singleton_append] at hrest
    have hx : Undoes (readTree n) x x n := h (k, x) (by simp)
    refine (members_cons (fun t ht => readMember_written hx acc k ht) hrest).congr ?_
    simp

mutual
/-- The text of a tree whose numbers read back is read as that tree. -/
theorem reads_tree : (j : Json) → (∀ x ∈ j.numbers, x.ReadsBack) → (n : Nat) →
    Undoes (readTree n) j j n
  | null, _, n => fun t _ => .of_ok (by simp [depth]) (by rw [readTree.eq_def]; rfl)
  | bool true, _, n => fun t _ => .of_ok (by simp [depth]) (by rw [readTree.eq_def]; rfl)
  | bool false, _, n => fun t _ => .of_ok (by simp [depth]) (by rw [readTree.eq_def]; rfl)
  | number x, h, n => readScalar_number (h x (by simp [numbers])) n
  | string s, _, n => by
    intro t _
    refine .of_ok (by simp [depth]) ?_
    rw [chars, quote_append, readTree.eq_def]
    simp [skipBlanks, isBlank, readScalar, readString_quoted, mapRead]
  | array xs, h, n => by
    have hxs := reads_items xs (by simpa [numbers] using h)
    intro t _
    rw [chars, readTree.eq_def]
    cases n with
    | zero => exact .of_deep (by simp [depth]) rfl rfl
    | succ n =>
      -- Every item takes a character, so the fuel of the loop lasts to the bracket.
      have hfuel := length_le_charsItems xs true
      have hread := items_written id xs true
        ((charsItems true xs ++ ']' :: t).length + 1) (by simp; omega) t fun x hx => hxs x hx n
      rw [List.map_id] at hread
      have hfits : (∀ x ∈ xs, x.depth ≤ n) ↔ (array xs).depth ≤ n + 1 := by
        simp [depth, depthItems_le]
      simpa [skipBlanks, isBlank, closeArray] using ((hread.closeBy rfl).map array).congr hfits
  | object ms, h, n => by
    have hms := reads_members ms (by simpa [numbers] using h)
    intro t _
    rw [chars, readTree.eq_def]
    cases n with
    | zero => exact .of_deep (by simp [depth]) rfl rfl
    | succ n =>
      have hfuel := length_le_charsMembers ms true
      have hread := members_written ms [] true
        ((charsMembers true ms ++ '\x7d' :: t).length + 1) (by simp; omega) t
        fun m hm => hms m hm n
      have hfits : (∀ m ∈ ms, m.2.depth ≤ n) ↔ (object ms).depth ≤ n + 1 := by
        simp [depth, depthMembers_le]
      simpa [skipBlanks, isBlank, closeObject] using ((hread.closeBy rfl).map object).congr hfits
theorem reads_items : (xs : List Json) → (∀ x ∈ numbersItems xs, x.ReadsBack) →
    ∀ j ∈ xs, ∀ n, Undoes (readTree n) j j n
  | [], _ => by simp
  | x :: xs, h => by
    simp only [numbersItems, List.forall_mem_append] at h
    intro j hj n
    rcases List.mem_cons.1 hj with hj | hj
    · exact hj ▸ reads_tree x h.1 n
    · exact reads_items xs h.2 j hj n
theorem reads_members : (ms : List (String × Json)) → (∀ x ∈ numbersMembers ms, x.ReadsBack) →
    ∀ m ∈ ms, ∀ n, Undoes (readTree n) m.2 m.2 n
  | [], _ => by simp
  | (k, x) :: ms, h => by
    simp only [numbersMembers, List.forall_mem_append] at h
    intro m hm n
    rcases List.mem_cons.1 hm with hm | hm
    · exact hm ▸ reads_tree x h.1 n
    · exact reads_members ms h.2 m hm n
end

end DocQuery.Json

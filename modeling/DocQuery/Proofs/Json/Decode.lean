import DocQuery.Proofs.Json.Tree

/-! # Decoders of written shapes

What the decoders of strings, names, lists and structures make of texts that were written, with the
depth at which they give up.
-/
namespace DocQuery.Json
variable {α σ : Type}

theorem readAll_reads {fits : Prop} {a : α} {read : Reader α} {s : List Char}
    (h : Reads fits a [] (read s)) :
    (fits → readAll read s = .ok a) ∧
      (¬ fits → ∃ f, readAll read s = .error f ∧ f.cause = .recursionLimit) := by
  constructor
  · intro hf
    simp [readAll, h.ok hf, skipBlanks]
  · intro hf
    obtain ⟨f, hr, hc⟩ := h.deep hf
    exact ⟨f, by simp [readAll, hr], hc⟩

theorem toList_text (j : Json) : j.text.toList = j.chars := by simp [text]

/-- Decoding the text of a tree: what a reader undoes is decoded, what is too deep is refused. -/
theorem decodeText_text {read : Nat → Reader α} {j : Json} {a : α}
    (h : Undoes (read depthLimit) j a depthLimit) :
    (j.depth ≤ depthLimit → decodeText read j.text = .ok a) ∧
      (¬ j.depth ≤ depthLimit →
        ∃ f, decodeText read j.text = .error f ∧ f.cause = .recursionLimit) := by
  have hread := h [] trivial
  rw [List.append_nil, ← toList_text] at hread
  exact readAll_reads hread

theorem parse_text {j : Json} (h : ∀ x ∈ j.numbers, x.ReadsBack) :
    (j.depth ≤ depthLimit → parse j.text = .ok j) ∧
      (¬ j.depth ≤ depthLimit → ∃ f, parse j.text = .error f ∧ f.cause = .recursionLimit) :=
  decodeText_text (reads_tree j h depthLimit)

theorem stringOfText_written (s : String) (n : Nat) : Undoes stringOfText (string s) s n := by
  intro t _
  refine .of_ok (by simp [depth]) ?_
  rw [chars, quote_append]
  exact readString_quoted s t

theorem nameOfText_written {find : String → Option α} (known : List String) {name : String} {a : α}
    (h : find name = some a) (t : List Char) :
    nameOfText find known (quote name ++ t) = .ok (a, t) := by
  rw [quote_append]
  simp [nameOfText, skipBlanks, isBlank, readString_quoted, variant, h]

theorem variantOfText_written {find : String → Option α} {known : List String} {name : String}
    {a : α} (h : find name = some a) (n : Nat) :
    Undoes (variantOfText find known n) (string name) a n := by
  intro t _
  refine .of_ok (by simp [depth]) ?_
  have hname := nameOfText_written known h t
  rw [chars]
  rw [quote_append] at hname ⊢
  simp [variantOfText, skipBlanks, isBlank, hname]

theorem listOfText_written {item : Nat → Reader α} {tree : α → Json} (xs : List α)
    (h : ∀ a ∈ xs, ∀ n, Undoes (item n) (tree a) a n) (n : Nat) :
    Undoes (listOfText item n) (array (xs.map tree)) xs n := by
  intro t _
  rw [chars]
  cases n with
  | zero => exact .of_deep (by simp [depth]) rfl rfl
  | succ n =>
    have hfuel := length_le_charsItems (xs.map tree) true
    rw [List.length_map] at hfuel
    have hread := items_written tree xs true
      ((charsItems true (xs.map tree) ++ ']' :: t).length + 1) (by simp; omega) t
      fun a ha => h a ha n
    have hfits : (∀ a ∈ xs, (tree a).depth ≤ n) ↔ (array (xs.map tree)).depth ≤ n + 1 := by
      simp [depth, depthItems_le]
    simpa [listOfText, skipBlanks, isBlank, closeArray] using (hread.closeBy rfl).congr hfits

variable {start st : σ} {finish : σ → Except Cause α} {a : α}

/-- An object whose members take `start` to a state that is judged to be `a`. -/
theorem object_written {step : σ → String → Reader σ} {ms : List (String × Json)} {n : Nat}
    {t : List Char} (hf : finish st = .ok a)
    (h : ∀ fuel, Reads (∀ m ∈ ms, m.2.depth ≤ n) st ('\x7d' :: t)
      (members step (fuel + ms.length + 1) true start (charsMembers true ms ++ '\x7d' :: t))) :
    Reads ((object ms).depth ≤ n + 1) a t
      (closeObject (judge finish (members step ((charsMembers true ms ++ '\x7d' :: t).length + 1)
        true start (charsMembers true ms ++ '\x7d' :: t)))) := by
  have hlength := length_le_charsMembers ms true
  have hfuel : (charsMembers true ms ++ '\x7d' :: t).length + 1 =
      ((charsMembers true ms ++ '\x7d' :: t).length - ms.length) + ms.length + 1 := by
    rw [List.length_append]
    omega
  have hfits : (∀ m ∈ ms, m.2.depth ≤ n) ↔ (object ms).depth ≤ n + 1 := by
    simp [depth, depthMembers_le]
  rw [hfuel]
  exact (((h _).judge hf).closeBy rfl).congr hfits

theorem readStruct_written {expected : String} {step : Nat → σ → String → Reader σ}
    {fields : Nat → Reader α} {ms : List (String × Json)} (hf : finish st = .ok a)
    (h : ∀ n t fuel, Reads (∀ m ∈ ms, m.2.depth ≤ n) st ('\x7d' :: t)
      (members (step n) (fuel + ms.length + 1) true start (charsMembers true ms ++ '\x7d' :: t)))
    (n : Nat) :
    Undoes (readStruct expected start step finish fields n) (object ms) a n := by
  intro t _
  rw [chars]
  cases n with
  | zero => exact .of_deep (by simp [depth]) rfl rfl
  | succ n =>
    have hread := object_written hf (h n t)
    simpa [readStruct, skipBlanks, isBlank] using hread

theorem readField_written {value : Reader α} {j : Json} {n : Nat} (h : Undoes value j a n)
    {t : List Char} (ht : Delimited t) :
    Reads (j.depth ≤ n) a t (readField value (':' :: (j.chars ++ t))) := by
  simp only [readField, readColon_written]
  exact h t ht

end DocQuery.Json

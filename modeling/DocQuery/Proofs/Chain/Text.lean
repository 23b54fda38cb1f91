import DocQuery.Proofs.Chain.Tokens

/-! # Chains and their texts

Reading a chain and writing it are inverse to each other. This rests on the identifiers: none of them
has a dot, so that the pieces of a text are the tokens it was written from. A path is read from its text
behind an identifier, any one, and from no other text.
-/
namespace DocQuery.Chain

/-- The pieces of a chain's text are its tokens. -/
theorem pieceStrings_text (c : Chain) : pieceStrings c.text = c.tokens := by
  have hdot : ∀ p ∈ c.tokens.map String.toList, '.' ∉ p :=
    List.forall_mem_map.2 fun t ht => not_dot_of_mem_identifier (c.toList_mem_identifier t ht)
  have hne : c.tokens.map String.toList ≠ [] := mt List.map_eq_nil_iff.1 c.nonempty
  rw [pieceStrings, text, String.toList_ofList, chars, dotted, pieces,
    List.splitOn_intercalate '.' hdot hne]
  simp

theorem dotted_pieceStrings (s : String) : dotted (pieceStrings s) = s.toList := by
  have hpieces : (pieceStrings s).map String.toList = pieces s.toList := by
    simp [pieceStrings, Function.comp_def]
  rw [dotted, hpieces, pieces, List.intercalate_splitOn]

theorem pieceStrings_inj {s t : String} (h : pieceStrings s = pieceStrings t) : s = t :=
  String.toList_inj.1 (by rw [← dotted_pieceStrings, h, dotted_pieceStrings])

theorem text_inj {c d : Chain} (h : c.text = d.text) : c = d :=
  eq_of_tokens (by rw [← pieceStrings_text, h, pieceStrings_text])

theorem parse_iff_text {s : String} {c : Chain} : parse s = .ok c ↔ s = c.text := by
  constructor
  · intro h
    rw [text, chars, (parse_eq_ok.1 h).2, dotted_pieceStrings, String.ofList_toList]
  · rintro rfl
    rw [parse_iff_ofTokens, pieceStrings_text, ofTokens_tokens]

theorem pieceStrings_append_dot {h : String} (hh : h.toList ∈ identifier) (r : String) :
    pieceStrings (h ++ "." ++ r) = h :: pieceStrings r := by
  have hlist : (h ++ "." ++ r).toList = h.toList ++ '.' :: r.toList := by simp
  rw [pieceStrings, hlist, pieces,
    List.splitOn_append_cons_self_of_not_mem (not_dot_of_mem_identifier hh)]
  simp [pieceStrings, pieces]

/-- What stands in front of the first dot is no part of what stands behind it. -/
theorem eq_of_append_dot {h k r r' : String} (hh : h.toList ∈ identifier) (hk : k.toList ∈ identifier)
    (heq : h ++ "." ++ r = k ++ "." ++ r') : h = k ∧ r = r' := by
  have hpieces := congrArg pieceStrings heq
  rw [pieceStrings_append_dot hh, pieceStrings_append_dot hk, List.cons.injEq] at hpieces
  exact ⟨hpieces.1, pieceStrings_inj hpieces.2⟩

theorem dotted_cons_tokens (h : String) (c : Chain) :
    dotted (h :: c.tokens) = h.toList ++ '.' :: c.chars := by
  have hne : c.tokens.map String.toList ≠ [] := mt List.map_eq_nil_iff.1 c.nonempty
  rw [chars, dotted, List.map_cons, List.intercalate_cons_of_ne_nil hne]
  simp [dotted]

theorem parsePath_iff_text {s : String} {c : Chain} :
    parsePath s = .ok c ↔ ∃ h : String, h.toList ∈ identifier ∧ s = h ++ "." ++ c.text := by
  rw [parsePath_eq_ok, mem_multi, ← forall_mem_pieceStrings]
  have hlength : (pieces s.toList).length = (pieceStrings s).length := by
    rw [pieceStrings, List.length_map]
  rw [hlength]
  constructor
  · rintro ⟨⟨hidents, hlen⟩, hc⟩
    cases hs : pieceStrings s with
    | nil => exact absurd hs (pieceStrings_ne_nil s)
    | cons h rest =>
      rw [hs, List.tail_cons] at hc
      refine ⟨h, hidents h (by simp [hs]), String.toList_inj.1 ?_⟩
      rw [← dotted_pieceStrings, hs, ← hc, dotted_cons_tokens]
      simp [text]
  · rintro ⟨h, hh, rfl⟩
    have hpos : 0 < c.tokens.length := List.length_pos_iff.2 c.nonempty
    rw [pieceStrings_append_dot hh, pieceStrings_text, List.forall_mem_cons, List.length_cons]
    exact ⟨⟨⟨hh, c.toList_mem_identifier⟩, by omega⟩, rfl⟩

/-- A chain is read from its text, and a path from its text behind any identifier; nothing else is read
as either. So the identifier in front of a path is all that two texts of one path can differ in, and
different chains have different texts. -/
theorem text_inverse :
    (∀ c : Chain, parse c.text = .ok c) ∧
    (∀ (c : Chain) (h : String), h.toList ∈ identifier → parsePath (h ++ "." ++ c.text) = .ok c) ∧
    (∀ s c, parse s = .ok c → c.text = s) ∧
    (∀ s c, parsePath s = .ok c → ∃! h : String, h.toList ∈ identifier ∧ s = h ++ "." ++ c.text) ∧
    (∀ s t c d, parsePath s = .ok c → parsePath t = .ok d →
      (c = d ↔ ∃ h k rest : String, h.toList ∈ identifier ∧ k.toList ∈ identifier ∧
        s = h ++ "." ++ rest ∧ t = k ++ "." ++ rest)) ∧
    ∀ c d : Chain, c.text = d.text → c = d := by
  refine ⟨fun c => parse_iff_text.2 rfl, fun c h hh => parsePath_iff_text.2 ⟨h, hh, rfl⟩,
    fun s c hc => (parse_iff_text.1 hc).symm, ?_, ?_, fun c d => text_inj⟩
  · intro s c hc
    obtain ⟨h, hh, rfl⟩ := parsePath_iff_text.1 hc
    exact ⟨h, ⟨hh, rfl⟩, fun k hk => (eq_of_append_dot hk.1 hh hk.2.symm).1⟩
  · intro s t c d hc hd
    obtain ⟨h, hh, rfl⟩ := parsePath_iff_text.1 hc
    obtain ⟨k, hk, rfl⟩ := parsePath_iff_text.1 hd
    constructor
    · rintro rfl
      exact ⟨h, k, c.text, hh, hk, rfl, rfl⟩
    · rintro ⟨h', k', rest, hh', hk', hs, ht⟩
      have hc : c.text = rest := (eq_of_append_dot hh hh' hs).2
      have hd : d.text = rest := (eq_of_append_dot hk hk' ht).2
      exact text_inj (hc.trans hd.symm)

theorem text_inverse_address :
    "x".toList ∈ identifier ∧ "$y".toList ∈ identifier ∧
      parsePath "x.doc.$a.b2" = .ok address ∧ parsePath "$y.doc.$a.b2" = .ok address ∧
      (∃! h : String, h.toList ∈ identifier ∧ "x.doc.$a.b2" = h ++ "." ++ address.text) ∧
      ∃ h k rest : String, h.toList ∈ identifier ∧ k.toList ∈ identifier ∧
        "x.doc.$a.b2" = h ++ "." ++ rest ∧ "$y.doc.$a.b2" = k ++ "." ++ rest := by
  have hx : "x".toList ∈ identifier := mem_identifier.2 (by decide)
  have hy : "$y".toList ∈ identifier := mem_identifier.2 (by decide)
  obtain ⟨-, hpath, -, hone, hsame, -⟩ := text_inverse
  have hpx : parsePath "x.doc.$a.b2" = .ok address := hpath address "x" hx
  have hpy : parsePath "$y.doc.$a.b2" = .ok address := hpath address "$y" hy
  exact ⟨hx, hy, hpx, hpy, hone _ _ hpx, (hsame _ _ _ _ hpx hpy).1 rfl⟩

end DocQuery.Chain

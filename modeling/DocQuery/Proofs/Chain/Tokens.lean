import DocQuery.Proofs.Program.Validity

/-! # Texts and lists of tokens

A text and the list of its pieces are judged alike. The list is judged token by token, and the first
that is no identifier is to blame; the text is judged by a scan that never looks at the pieces.
-/
namespace DocQuery.Chain

theorem isIdent_iff {t : String} : isIdent t = true ↔ t.toList ∈ identifier := mem_identifier.symm

/-- A list is accepted exactly if it is not empty and has identifiers alone. -/
theorem exists_ofTokens {ts : List String} :
    (∃ c, ofTokens ts = .ok c) ↔ ts ≠ [] ∧ ∀ t ∈ ts, t.toList ∈ identifier := by
  constructor
  · rintro ⟨c, hc⟩
    rw [ofTokens_eq_ok] at hc
    subst hc
    exact ⟨c.nonempty, c.toList_mem_identifier⟩
  · rintro ⟨hne, hts⟩
    exact ⟨⟨ts, hne, fun t ht => isIdent_iff.2 (hts t ht)⟩, ofTokens_eq_ok.2 rfl⟩

theorem firstBad_eq_some {ts : List String} {bad : String} :
    firstBad ts = some bad ↔ ∃ before after, ts = before ++ bad :: after ∧
      (∀ t ∈ before, t.toList ∈ identifier) ∧ bad.toList ∉ identifier := by
  simp only [firstBad, List.find?_eq_some_iff_append, ← isIdent_iff, Bool.not_not, Bool.not_eq_true',
    Bool.not_eq_true]
  constructor
  · rintro ⟨hbad, before, after, hts, hbefore⟩
    exact ⟨before, after, hts, hbefore, hbad⟩
  · rintro ⟨before, after, hts, hbefore, hbad⟩
    exact ⟨hbad, before, after, hts, hbefore⟩

theorem ofTokens_eq_error {ts : List String} {f : Fault} :
    ofTokens ts = .error f ↔ ts = [] ∧ f = .empty ∨
      ∃ before bad after, ts = before ++ bad :: after ∧ (∀ t ∈ before, t.toList ∈ identifier) ∧
        bad.toList ∉ identifier ∧ f = .badToken bad := by
  have hfault : ofTokens ts = .error f ↔
      ts = [] ∧ f = .empty ∨ ∃ bad, firstBad ts = some bad ∧ f = .badToken bad := by
    unfold ofTokens
    split
    · rename_i hnil
      simp [hnil, firstBad, eq_comm]
    · rename_i hne
      split
      · rename_i bad hbad
        simp [hne, hbad, eq_comm]
      · rename_i hnone
        simp [hne, hnone]
  rw [hfault]
  refine or_congr_right ⟨?_, ?_⟩
  · rintro ⟨bad, hbad, hf⟩
    obtain ⟨before, after, hts, hbefore, hbad⟩ := firstBad_eq_some.1 hbad
    exact ⟨before, bad, after, hts, hbefore, hbad, hf⟩
  · rintro ⟨before, bad, after, hts, hbefore, hbad, hf⟩
    exact ⟨bad, firstBad_eq_some.2 ⟨before, after, hts, hbefore, hbad⟩, hf⟩

theorem pieceStrings_ne_nil (s : String) : pieceStrings s ≠ [] := by
  obtain ⟨p, ps, hp, -⟩ := exists_pieces s.toList
  simp [pieceStrings, hp]

theorem forall_mem_pieceStrings {s : String} :
    (∀ t ∈ pieceStrings s, t.toList ∈ identifier) ↔ s.toList ∈ single := by
  simp only [pieceStrings, List.forall_mem_map, String.toList_ofList, mem_single]

theorem parse_iff_ofTokens {s : String} {c : Chain} :
    parse s = .ok c ↔ ofTokens (pieceStrings s) = .ok c := by
  rw [parse_eq_ok, ofTokens_eq_ok, and_iff_right_iff_imp]
  intro h
  rw [← forall_mem_pieceStrings, ← h]
  exact c.toList_mem_identifier

theorem length_of_parse {s : String} {c : Chain} (h : parse s = .ok c) :
    c.length = (pieces s.toList).length := by
  rw [length, (parse_eq_ok.1 h).2, pieceStrings, List.length_map]

theorem exists_parse {s : String} : (∃ c, parse s = .ok c) ↔ s.toList ∈ single := by
  simp only [parse_iff_ofTokens, exists_ofTokens, forall_mem_pieceStrings, ne_eq,
    pieceStrings_ne_nil, not_false_eq_true, true_and]

theorem exists_parsePath {s : String} : (∃ c, parsePath s = .ok c) ↔ s.toList ∈ multi := by
  constructor
  · rintro ⟨c, hc⟩
    exact (parsePath_eq_ok.1 hc).1
  · intro hs
    obtain ⟨hsingle, hlen⟩ := mem_multi.1 hs
    have hne : (pieceStrings s).tail ≠ [] := by
      intro hnil
      have hlength := congrArg List.length hnil
      simp only [pieceStrings, List.length_tail, List.length_map, List.length_nil] at hlength
      omega
    obtain ⟨c, hc⟩ := exists_ofTokens.2
      ⟨hne, fun t ht => forall_mem_pieceStrings.2 hsingle t (List.mem_of_mem_tail ht)⟩
    exact ⟨c, parsePath_eq_ok.2 ⟨hs, ofTokens_eq_ok.1 hc⟩⟩

theorem parse_of_not_mem {s : String} (hs : s.toList ∉ single) : parse s = .error (.notChain s) := by
  cases h : parse s with
  | ok c => exact absurd (exists_parse.1 ⟨c, h⟩) hs
  | error f =>
    unfold parse at h
    split at h
    · exact h.symm
    · cases h

theorem parsePath_of_not_mem {s : String} (hs : s.toList ∉ multi) :
    parsePath s = .error (.notPath s) := by
  cases h : parsePath s with
  | ok c => exact absurd (exists_parsePath.1 ⟨c, h⟩) hs
  | error f =>
    unfold parsePath at h
    split at h
    · exact h.symm
    · exact h.symm
    · cases h

theorem exists_parsePath_iff_parse {s : String} :
    (∃ c, parsePath s = .ok c) ↔ ∃ d, parse s = .ok d ∧ 2 ≤ d.length := by
  rw [exists_parsePath, mem_multi, ← exists_parse]
  constructor
  · rintro ⟨⟨d, hd⟩, hlen⟩
    exact ⟨d, hd, by rwa [length_of_parse hd]⟩
  · rintro ⟨d, hd, hlen⟩
    exact ⟨⟨d, hd⟩, by rwa [← length_of_parse hd]⟩

/-- The scans of a text and the check of its pieces, one by one, know one grammar. A text is a chain
exactly if its pieces are, and these are its tokens; it is a path exactly if it is a chain of two tokens
or more, and all but the first are kept; any other text is malformed. A list is accepted as it is if it
has one token or more and identifiers alone; else the first that is none is named. -/
theorem recognised_alike (s : String) (ts : List String) :
    pieceStrings s = (s.toList.splitOn '.').map String.ofList ∧
    ((∃ c, parse s = .ok c) ↔ s.toList ∈ single) ∧
    (∀ c, parse s = .ok c ↔ ofTokens (pieceStrings s) = .ok c) ∧
    (∀ c, parse s = .ok c → c.tokens = pieceStrings s) ∧
    ((∃ c, parsePath s = .ok c) ↔ s.toList ∈ multi) ∧
    ((∃ c, parsePath s = .ok c) ↔ ∃ d, parse s = .ok d ∧ 2 ≤ d.length) ∧
    (∀ c d, parsePath s = .ok c → parse s = .ok d → c.tokens = d.tokens.tail) ∧
    ((∃ c, parse s = .ok c) ∨ ∃ f reason, parse s = .error f ∧ f.toError = .malformedChain reason) ∧
    ((∃ c, parsePath s = .ok c) ∨
      ∃ f reason, parsePath s = .error f ∧ f.toError = .malformedChain reason) ∧
    ((∃ c, ofTokens ts = .ok c) ↔ ts ≠ [] ∧ ∀ t ∈ ts, t.toList ∈ identifier) ∧
    (∀ c, ofTokens ts = .ok c → c.tokens = ts) ∧
    (∀ f, ofTokens ts = .error f ↔ ts = [] ∧ f = .empty ∨
      ∃ before bad after, ts = before ++ bad :: after ∧ (∀ t ∈ before, t.toList ∈ identifier) ∧
        bad.toList ∉ identifier ∧ f = .badToken bad) ∧
    ∀ bad, (Fault.badToken bad).toError = .malformedChain s!"`{bad}` is not a valid identifier" := by
  refine ⟨rfl, exists_parse, fun c => parse_iff_ofTokens,
    fun c hc => (parse_eq_ok.1 hc).2, exists_parsePath, exists_parsePath_iff_parse, ?_, ?_, ?_,
    exists_ofTokens, fun c => ofTokens_eq_ok.1, fun f => ofTokens_eq_error, fun bad => rfl⟩
  · intro c d hc hd
    rw [(parsePath_eq_ok.1 hc).2, (parse_eq_ok.1 hd).2]
  · exact (em (s.toList ∈ single)).imp exists_parse.2 fun hs => ⟨_, _, parse_of_not_mem hs, rfl⟩
  · exact (em (s.toList ∈ multi)).imp exists_parsePath.2 fun hs => ⟨_, _, parsePath_of_not_mem hs, rfl⟩

def address : Chain := ⟨["doc", "$a", "b2"], by decide, by decide⟩

theorem recognised_alike_address :
    parse "doc.$a.b2" = .ok address ∧ address.tokens = pieceStrings "doc.$a.b2" ∧
      (∃ c, parsePath "doc.$a.b2" = .ok c ∧ c.tokens = ["$a", "b2"]) ∧
      ofTokens ["ok", "1st", "2nd"] = .error (.badToken "1st") := by
  obtain ⟨-, -, -, htokens, -, hpath, htail, -, -, -, -, herror, -⟩ :=
    recognised_alike "doc.$a.b2" ["ok", "1st", "2nd"]
  have hparse : parse "doc.$a.b2" = .ok address := by rfl
  obtain ⟨c, hc⟩ := hpath.2 ⟨address, hparse, by decide⟩
  have hok : ∀ t ∈ ["ok"], t.toList ∈ identifier := by
    simp only [List.forall_mem_singleton, mem_identifier]
    decide
  have hbad : "1st".toList ∉ identifier := by
    rw [mem_identifier]
    decide
  exact ⟨hparse, htokens _ hparse, ⟨c, hc, htail c address hc hparse⟩,
    (herror _).2 (.inr ⟨["ok"], "1st", ["2nd"], rfl, hok, hbad, rfl⟩)⟩

end DocQuery.Chain

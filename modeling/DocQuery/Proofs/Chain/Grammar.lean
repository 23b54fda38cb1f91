import Mathlib.Computability.Language
import DocQuery.Chain

/-! # The grammar of chains

Identifiers and chains as languages: an identifier is an initial character and any number of
following ones, a chain is an identifier and any number of others, each after a dot. The scan of a
text accepts exactly the chains, and the pieces of a chain are its identifiers.
-/
namespace DocQuery.Chain

open Computability

/-- One character of a class. -/
def one (p : Char → Prop) : Language Char := {w | ∃ c, p c ∧ w = [c]}

def Initial (c : Char) : Prop := 'A' ≤ c ∧ c ≤ 'Z' ∨ 'a' ≤ c ∧ c ≤ 'z' ∨ c = '_' ∨ c = '$'

def Following (c : Char) : Prop := Initial c ∨ '0' ≤ c ∧ c ≤ '9'

def identifier : Language Char := one Initial * (one Following)∗

def property : Language Char := one (· = '.') * identifier

/-- One or more identifiers. -/
def single : Language Char := identifier * property∗

/-- Two or more identifiers. -/
def multi : Language Char := identifier * (property * property∗)

theorem isAlpha_iff {c : Char} :
    c.isAlpha = true ↔ 'A' ≤ c ∧ c ≤ 'Z' ∨ 'a' ≤ c ∧ c ≤ 'z' := by
  have hupper : c.isUpper = decide ('A'.val ≤ c.val ∧ c.val ≤ 'Z'.val) := rfl
  have hlower : c.isLower = (decide ('a'.val ≤ c.val) && decide (c.val ≤ 'z'.val)) := rfl
  have halpha : c.isAlpha = (c.isUpper || c.isLower) := rfl
  simp only [halpha, hupper, hlower, Char.le_def, Bool.or_eq_true, Bool.and_eq_true,
    decide_eq_true_eq]

theorem isIdentStart_iff {c : Char} : isIdentStart c = true ↔ Initial c := by
  simp only [isIdentStart, Initial, isAlpha_iff, Bool.or_eq_true, decide_eq_true_eq, or_assoc]

theorem isIdentRest_iff {c : Char} : isIdentRest c = true ↔ Following c := by
  have hdigit : c.isDigit = (decide ('0'.val ≤ c.val) && decide (c.val ≤ '9'.val)) := rfl
  have halphanum : c.isAlphanum = (c.isAlpha || c.isDigit) := rfl
  simp only [isIdentRest, Following, Initial, halphanum, hdigit, isAlpha_iff, Char.le_def,
    Bool.or_eq_true, Bool.and_eq_true, decide_eq_true_eq]
  tauto

theorem mem_one_kstar {p : Char → Prop} {w : List Char} : w ∈ (one p)∗ ↔ ∀ c ∈ w, p c := by
  rw [Language.mem_kstar]
  constructor
  · rintro ⟨parts, rfl, hparts⟩ c hc
    obtain ⟨part, hpart, hmem⟩ := List.mem_flatten.1 hc
    obtain ⟨d, hd, rfl⟩ := hparts part hpart
    rwa [List.mem_singleton.1 hmem]
  · intro h
    refine ⟨w.map fun c => [c], ?_, fun part hpart => ?_⟩
    · rw [← List.flatMap_def, List.flatMap_singleton']
    obtain ⟨c, hc, rfl⟩ := List.mem_map.1 hpart
    exact ⟨c, h c hc, rfl⟩

theorem mem_identifier {w : List Char} : w ∈ identifier ↔ isIdentChars w = true := by
  rw [identifier, Language.mem_mul]
  constructor
  · rintro ⟨_, ⟨c, hc, rfl⟩, rest, hrest, rfl⟩
    rw [mem_one_kstar] at hrest
    simp only [List.singleton_append, isIdentChars, Bool.and_eq_true, List.all_eq_true]
    exact ⟨isIdentStart_iff.2 hc, fun d hd => isIdentRest_iff.2 (hrest d hd)⟩
  · intro h
    cases w with
    | nil => cases h
    | cons c rest =>
      simp only [isIdentChars, Bool.and_eq_true, List.all_eq_true] at h
      refine ⟨[c], ⟨c, isIdentStart_iff.1 h.1, rfl⟩, rest, ?_, rfl⟩
      rw [mem_one_kstar]
      exact fun d hd => isIdentRest_iff.1 (h.2 d hd)

/-- Pieces written with a dot before each. -/
def trail (ps : List (List Char)) : List Char := (ps.map ('.' :: ·)).flatten

theorem mem_property_kstar {w : List Char} :
    w ∈ property∗ ↔ ∃ ps, w = trail ps ∧ ∀ p ∈ ps, p ∈ identifier := by
  rw [Language.mem_kstar]
  constructor
  · rintro ⟨parts, rfl, hparts⟩
    induction parts with
    | nil => exact ⟨[], rfl, by simp⟩
    | cons part parts ih =>
      obtain ⟨ps, hw, hps⟩ := ih fun p hp => hparts p (List.mem_cons_of_mem _ hp)
      obtain ⟨_, ⟨_, rfl, rfl⟩, p, hp, rfl⟩ := Language.mem_mul.1 (hparts _ List.mem_cons_self)
      refine ⟨p :: ps, by simp [hw, trail], fun q hq => ?_⟩
      rcases List.mem_cons.1 hq with rfl | hq
      · exact hp
      · exact hps q hq
  · rintro ⟨ps, rfl, hps⟩
    refine ⟨ps.map ('.' :: ·), rfl, fun part hpart => ?_⟩
    obtain ⟨p, hp, rfl⟩ := List.mem_map.1 hpart
    exact Language.mem_mul.2 ⟨['.'], ⟨'.', rfl, rfl⟩, p, hps p hp, rfl⟩

theorem not_dot_of_mem_identifier {p : List Char} (h : p ∈ identifier) : '.' ∉ p := by
  intro hdot
  rw [mem_identifier] at h
  cases p with
  | nil => cases hdot
  | cons c rest =>
    simp only [isIdentChars, Bool.and_eq_true, List.all_eq_true] at h
    rcases List.mem_cons.1 hdot with rfl | hdot
    · exact absurd h.1 (by decide)
    · exact absurd (h.2 _ hdot) (by decide)

theorem intercalate_dot_cons (p : List Char) (ps : List (List Char)) :
    ['.'].intercalate (p :: ps) = p ++ trail ps := by
  induction ps generalizing p with
  | nil => simp [trail]
  | cons q qs ih =>
    rw [List.intercalate_cons_cons, ih]
    simp [trail]

theorem pieces_append_trail {p : List Char} {ps : List (List Char)} (hp : '.' ∉ p)
    (hps : ∀ q ∈ ps, '.' ∉ q) : pieces (p ++ trail ps) = p :: ps := by
  rw [← intercalate_dot_cons]
  exact List.splitOn_intercalate '.' (List.forall_mem_cons.2 ⟨hp, hps⟩) (List.cons_ne_nil p ps)

theorem exists_pieces (w : List Char) : ∃ p ps, pieces w = p :: ps ∧ w = p ++ trail ps := by
  obtain ⟨p, ps, h⟩ := List.exists_cons_of_ne_nil (List.splitOn_ne_nil '.' w)
  refine ⟨p, ps, h, ?_⟩
  rw [← intercalate_dot_cons, ← h, List.intercalate_splitOn]

theorem mem_single {w : List Char} : w ∈ single ↔ ∀ p ∈ pieces w, p ∈ identifier := by
  rw [single, Language.mem_mul]
  constructor
  · rintro ⟨p, hp, v, hv, rfl⟩
    obtain ⟨ps, rfl, hps⟩ := mem_property_kstar.1 hv
    rw [pieces_append_trail (not_dot_of_mem_identifier hp)
      fun q hq => not_dot_of_mem_identifier (hps q hq)]
    exact List.forall_mem_cons.2 ⟨hp, hps⟩
  · intro h
    obtain ⟨p, ps, hw, rfl⟩ := exists_pieces w
    rw [hw, List.forall_mem_cons] at h
    exact ⟨p, h.1, trail ps, mem_property_kstar.2 ⟨ps, rfl, h.2⟩, rfl⟩

theorem mem_multi {w : List Char} : w ∈ multi ↔ w ∈ single ∧ 2 ≤ (pieces w).length := by
  have hplus : ∀ {v : List Char}, v ∈ property * property∗ ↔
      ∃ p ps, v = trail (p :: ps) ∧ ∀ q ∈ p :: ps, q ∈ identifier := by
    intro v
    rw [Language.mem_mul]
    constructor
    · rintro ⟨u, hu, t, ht, rfl⟩
      obtain ⟨_, ⟨_, rfl, rfl⟩, p, hp, rfl⟩ := Language.mem_mul.1 hu
      obtain ⟨ps, rfl, hps⟩ := mem_property_kstar.1 ht
      exact ⟨p, ps, by simp [trail], List.forall_mem_cons.2 ⟨hp, hps⟩⟩
    · rintro ⟨p, ps, rfl, h⟩
      rw [List.forall_mem_cons] at h
      exact ⟨'.' :: p, Language.mem_mul.2 ⟨['.'], ⟨'.', rfl, rfl⟩, p, h.1, rfl⟩, trail ps,
        mem_property_kstar.2 ⟨ps, rfl, h.2⟩, by simp [trail]⟩
  rw [mem_single, multi, Language.mem_mul]
  constructor
  · rintro ⟨p, hp, v, hv, rfl⟩
    obtain ⟨q, qs, rfl, hqs⟩ := hplus.1 hv
    rw [pieces_append_trail (not_dot_of_mem_identifier hp)
      fun r hr => not_dot_of_mem_identifier (hqs r hr)]
    exact ⟨List.forall_mem_cons.2 ⟨hp, hqs⟩, by simp⟩
  · rintro ⟨h, hlen⟩
    obtain ⟨p, ps, hw, rfl⟩ := exists_pieces w
    rw [hw] at h hlen
    rw [List.forall_mem_cons] at h
    cases ps with
    | nil => simp at hlen
    | cons q qs => exact ⟨p, h.1, _, hplus.2 ⟨q, qs, rfl, h.2⟩, rfl⟩

/-- What the scan finds once it has covered the pieces; the converse of `covers_of_scan`. -/
theorem scan_of_covers {cs : List Char} {st : Scan} {n : Nat} (h : st.Covers n (pieces cs)) :
    scan st cs = some n := by
  induction cs generalizing st with
  | nil =>
    cases st with
    | start k => exact absurd (h.1 [] List.mem_cons_self) (by decide)
    | inside k =>
      obtain ⟨p, qs, hp, -, -, hn⟩ := h
      cases hp
      simp [scan, hn]
  | cons c cs ih =>
    obtain ⟨p, ps, hp, -⟩ := exists_pieces cs
    by_cases hdot : c = '.'
    · subst hdot
      rw [pieces_cons_dot] at h
      cases st with
      | start k => exact absurd (h.1 [] List.mem_cons_self) (by decide)
      | inside k =>
        -- The dot ends the piece the scan is in, and the next one has yet to begin.
        obtain ⟨q, qs, hq, -, hqs, hn⟩ := h
        cases hq
        have hrest : isIdentRest '.' = false := by decide
        have hcovers : (Scan.start (k + 1)).Covers n (pieces cs) := ⟨hqs, by omega⟩
        simpa [scan, Scan.step, hrest] using ih hcovers
    · rw [pieces_cons hdot hp] at h
      cases st with
      | start k =>
        obtain ⟨hall, hn⟩ := h
        rw [List.forall_mem_cons] at hall
        obtain ⟨hfirst, hps⟩ := hall
        simp only [isIdentChars, Bool.and_eq_true] at hfirst
        have hcovers : (Scan.inside k).Covers n (pieces cs) :=
          ⟨p, ps, hp, hfirst.2, hps, by simp at hn; omega⟩
        simpa [scan, Scan.step, hfirst.1] using ih hcovers
      | inside k =>
        obtain ⟨q, qs, hq, hrest, hqs, hn⟩ := h
        cases hq
        simp only [List.all_cons, Bool.and_eq_true] at hrest
        have hcovers : (Scan.inside k).Covers n (pieces cs) := ⟨p, ps, hp, hrest.2, hqs, hn⟩
        simpa [scan, Scan.step, hrest.1] using ih hcovers

theorem dots?_eq_some {s : String} {n : Nat} :
    dots? s = some n ↔ s.toList ∈ single ∧ (pieces s.toList).length = n + 1 := by
  rw [mem_single]
  simp only [mem_identifier]
  constructor
  · intro h
    obtain ⟨hq, hn⟩ := covers_of_scan h
    exact ⟨hq, by omega⟩
  · rintro ⟨hq, hn⟩
    exact scan_of_covers ⟨hq, by omega⟩

theorem dots?_eq_none {s : String} : dots? s = none ↔ s.toList ∉ single := by
  constructor
  · intro h hs
    obtain ⟨p, ps, hp, -⟩ := exists_pieces s.toList
    have hlen : (pieces s.toList).length = ps.length + 1 := by simp [hp]
    rw [dots?_eq_some.2 ⟨hs, hlen⟩] at h
    cases h
  · intro hs
    cases h : dots? s with
    | none => rfl
    | some n => exact absurd (dots?_eq_some.1 h).1 hs

theorem eq_of_tokens {c c' : Chain} (h : c.tokens = c'.tokens) : c = c' := by
  cases c
  cases c'
  cases h
  rfl

/-- A text is accepted exactly if it is a chain; all its pieces are kept. -/
theorem parse_eq_ok {s : String} {c : Chain} :
    parse s = .ok c ↔ s.toList ∈ single ∧ c.tokens = pieceStrings s := by
  unfold parse
  split
  · rename_i hdots
    have hs := dots?_eq_none.1 hdots
    exact iff_of_false nofun fun h => hs h.1
  · rename_i n hdots
    have hs := (dots?_eq_some.1 hdots).1
    constructor
    · intro h
      cases h
      exact ⟨hs, rfl⟩
    · rintro ⟨-, htokens⟩
      exact congrArg Except.ok (eq_of_tokens htokens.symm)

/-- A path is accepted exactly if it has a property; the first piece is dropped. -/
theorem parsePath_eq_ok {s : String} {c : Chain} :
    parsePath s = .ok c ↔ s.toList ∈ multi ∧ c.tokens = (pieceStrings s).tail := by
  unfold parsePath
  rw [mem_multi]
  split
  · rename_i hdots
    have hs := dots?_eq_none.1 hdots
    exact iff_of_false nofun fun h => hs h.1.1
  · rename_i hdots
    have hlen := (dots?_eq_some.1 hdots).2
    refine iff_of_false nofun fun h => ?_
    have htwo := h.1.2
    omega
  · rename_i n hdots
    obtain ⟨hs, hlen⟩ := dots?_eq_some.1 hdots
    constructor
    · intro h
      cases h
      exact ⟨⟨hs, by omega⟩, rfl⟩
    · rintro ⟨-, htokens⟩
      exact congrArg Except.ok (eq_of_tokens htokens.symm)

theorem toList_mem_identifier (c : Chain) : ∀ t ∈ c.tokens, t.toList ∈ identifier :=
  fun t ht => mem_identifier.2 (c.idents t ht)

end DocQuery.Chain

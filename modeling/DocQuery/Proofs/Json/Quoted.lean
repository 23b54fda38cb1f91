import DocQuery.Json.Reader.Token
import DocQuery.Json.Printer

/-! # Quoted strings are read back

A quoted string is read up to its closing quote, whatever follows.
-/
namespace DocQuery.Json

theorem hexDigit?_hexDigit : ∀ n < 16, Text.hexDigit? (hexDigit n) = some n := by decide

theorem hexUnit_control {n : Nat} (h : n < 0x20) :
    hexUnit '0' '0' (hexDigit (n / 16)) (hexDigit (n % 16)) = some n := by
  have h₁ := hexDigit?_hexDigit (n / 16) (by omega)
  have h₂ := hexDigit?_hexDigit (n % 16) (by omega)
  have h₀ : Text.hexDigit? '0' = some 0 := by decide
  simp only [hexUnit, h₀, h₁, h₂, Option.bind_eq_bind, Option.bind_some, Option.pure_def]
  congr 1
  omega

/-- A character is written as its letter after a backslash, as its code, or as itself. -/
theorem escape_cases (c : Char) :
    (∃ e, escape c = ['\\', e] ∧ e ≠ 'u' ∧ unescape e = some c) ∨
    (c.toNat < 0x20 ∧ escape c =
      ['\\', 'u', '0', '0', hexDigit (c.toNat / 16), hexDigit (c.toNat % 16)]) ∨
    (escape c = [c] ∧ c ≠ '"' ∧ c ≠ '\\' ∧ ¬ c.val < 0x20) := by
  unfold escape
  repeat' split
  all_goals try (subst_vars; exact .inl ⟨_, rfl, by decide, rfl⟩)
  · rename_i h
    exact .inr (.inl ⟨by simpa [Char.lt_def, UInt32.lt_iff_toNat_lt] using h, rfl⟩)
  · exact .inr (.inr ⟨rfl, by assumption, by assumption, by assumption⟩)

theorem readQuoted_escape (c : Char) (s : List Char) :
    readQuoted (escape c ++ s) = push c (readQuoted s) := by
  rcases escape_cases c with ⟨e, he, hu, hc⟩ | ⟨hc, he⟩ | ⟨he, hq, hb, hc⟩
  · rw [he, List.cons_append, List.cons_append, List.nil_append, readQuoted.eq_def]
    simp [hu, hc]
  · have ht : isTrailing c.toNat = false := by simp [isTrailing]; omega
    have hl : isLeading c.toNat = false := by simp [isLeading]; omega
    rw [he]
    simp only [List.cons_append, List.nil_append]
    rw [readQuoted]
    simp [hexUnit_control hc, ht, hl]
  · rw [he, List.cons_append, List.nil_append, readQuoted.eq_def]
    simp [hq, hb, hc]

theorem readQuoted_quoted (cs s : List Char) :
    readQuoted (cs.flatMap escape ++ '"' :: s) = .ok (cs, s) := by
  induction cs with
  | nil => rw [readQuoted.eq_def]; rfl
  | cons c cs ih =>
    rw [List.flatMap_cons, List.append_assoc, readQuoted_escape, ih]
    rfl

theorem readString_quoted (t : String) (s : List Char) :
    readString (t.toList.flatMap escape ++ '"' :: s) = .ok (t, s) := by
  simp [readString, readQuoted_quoted]

theorem quote_append (t : String) (s : List Char) :
    quote t ++ s = '"' :: (t.toList.flatMap escape ++ '"' :: s) := by
  simp [quote]

end DocQuery.Json

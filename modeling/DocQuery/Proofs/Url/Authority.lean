import Mathlib.Data.List.DropRight
import DocQuery.Url.Parser

/-! # What decides an authority

In a special scheme an authority ends before a slash, a backslash, a question mark or a hash. What
stands behind that has no say in it, and a text that ends in a blank or a control is no authority.
-/
namespace DocQuery.Url

def inAuthority (c : Char) : Bool := !endsAuthority true c

theorem eq_of_not_inAuthority {c : Char} (h : inAuthority c = false) :
    c = '/' ∨ c = '\\' ∨ c = '?' ∨ c = '#' := by
  simp only [inAuthority, endsAuthority, isSlash, endsPath, Bool.not_eq_false', Bool.or_eq_true,
    Bool.true_and, decide_eq_true_eq] at h
  rwa [or_assoc] at h

theorem not_isDigit_of_not_inAuthority {c : Char} (h : inAuthority c = false) :
    c.isDigit = false := by
  rcases eq_of_not_inAuthority h with rfl | rfl | rfl | rfl <;> rfl

theorem forall_isTrimmed {P : Char → Prop} (h : ∀ n < 33, P (Char.ofNat n)) {c : Char}
    (hc : isTrimmed c = true) : P c := by
  have hval : c.val ≤ 0x20 := by simpa [isTrimmed] using hc
  have hle : c.toNat ≤ 0x20 := UInt32.le_iff_toNat_le.1 hval
  have hlt : c.toNat < 33 := by omega
  simpa using h c.toNat hlt

theorem inAuthority_of_isTrimmed {c : Char} (h : isTrimmed c = true) : inAuthority c = true :=
  forall_isTrimmed (P := fun c => inAuthority c = true) (by decide) h

theorem not_isDigit_of_isTrimmed {c : Char} (h : isTrimmed c = true) : c.isDigit = false :=
  forall_isTrimmed (P := fun c => c.isDigit = false) (by decide) h

theorem hexDigit?_of_isTrimmed {c : Char} (h : isTrimmed c = true) : Text.hexDigit? c = none :=
  forall_isTrimmed (P := fun c => Text.hexDigit? c = none) (by decide) h

theorem isForbiddenDomain_of_isTrimmed {c : Char} (h : isTrimmed c = true) :
    isForbiddenDomain c.toLower = true :=
  forall_isTrimmed (P := fun c => isForbiddenDomain c.toLower = true) (by decide) h

theorem ne_of_isTrimmed {c d : Char} (h : isTrimmed c = true) (hd : isTrimmed d = false) : c ≠ d := by
  rintro rfl
  rw [h] at hd
  cases hd

theorem head?_dropWhile (p : Char → Bool) (s : List Char) :
    ∀ c ∈ (s.dropWhile p).head?, p c = false := by
  intro c hc
  have hfirst := List.head?_dropWhile_not p s
  rw [hc] at hfirst
  exact hfirst

section
variable {p : Char → Bool} {b : List Char} (hb : ∀ c ∈ b.head?, p c = false)
include hb

theorem takeWhile_append_of_head (s : List Char) : (s ++ b).takeWhile p = s.takeWhile p := by
  have hback : b.takeWhile p = [] := by
    cases b with
    | nil => rfl
    | cons c b => simp [hb c rfl]
  rw [List.takeWhile_append, hback, List.append_nil]
  split
  · rename_i hwhole
    exact ((List.takeWhile_prefix p).eq_of_length hwhole).symm
  · rfl

theorem dropWhile_append_of_head (s : List Char) : (s ++ b).dropWhile p = s.dropWhile p ++ b := by
  have hback : b.dropWhile p = b := by
    cases b with
    | nil => rfl
    | cons c b => simp [hb c rfl]
  rw [List.dropWhile_append, hback]
  split
  · rename_i hwhole
    rw [List.isEmpty_iff.1 hwhole, List.nil_append]
  · rfl

end

/-- What may follow an authority. -/
def Ended (s : List Char) : Prop := ∀ c ∈ s.head?, inAuthority c = false

theorem ended_nil : Ended [] := nofun

theorem ended_dropWhile (s : List Char) : Ended (s.dropWhile inAuthority) :=
  head?_dropWhile inAuthority s

section
variable {f b : List Char} (hf : ∀ c ∈ f, inAuthority c = true) (hb : Ended b)
include hf hb

theorem takeWhile_inAuthority : (f ++ b).takeWhile inAuthority = f :=
  (takeWhile_append_of_head hb f).trans (List.takeWhile_eq_self_iff.2 hf)

theorem dropWhile_inAuthority : (f ++ b).dropWhile inAuthority = b := by
  rw [dropWhile_append_of_head hb, List.dropWhile_eq_nil_iff.2 hf, List.nil_append]

theorem splitHost_append (inside : Bool) :
    splitHost true inside (f ++ b) =
      ((splitHost true inside f).1, (splitHost true inside f).2 ++ b) := by
  induction f generalizing inside with
  | nil =>
    cases b with
    | nil => rfl
    | cons c b =>
      have hc : endsAuthority true c = true := by simpa [inAuthority] using hb c rfl
      simp [splitHost, hc]
  | cons c f ih =>
    have hrest := ih fun d hd => hf d (List.mem_cons_of_mem c hd)
    simp only [List.cons_append, splitHost]
    split
    · rfl
    · simp only [hrest]

end

/-- A host and what is left of it make up the text; what is left begins with a colon if no end of the
authority stands in the text. -/
theorem splitHost_parts {s : List Char} (hs : ∀ c ∈ s, inAuthority c = true) (inside : Bool) :
    (splitHost true inside s).1 ++ (splitHost true inside s).2 = s ∧
      ∀ c ∈ (splitHost true inside s).2.head?, c = ':' := by
  induction s generalizing inside with
  | nil => simp [splitHost]
  | cons c s ih =>
    have hrest := ih fun d hd => hs d (List.mem_cons_of_mem c hd)
    have hc : endsAuthority true c = false := by simpa [inAuthority] using hs c List.mem_cons_self
    simp only [splitHost, hc, Bool.or_false, Bool.and_eq_true, decide_eq_true_eq]
    split
    · rename_i hcolon
      simp [hcolon.1]
    · exact ⟨by simp [hrest], (hrest _).2⟩

section
variable {f b : List Char} (hf : ∀ c ∈ f, inAuthority c = true) (hb : Ended b)
include hf hb

/-- A port takes all the text up to the end of the authority. -/
theorem splitPort_append (d : Option Nat) :
    splitPort d (f ++ b) = (splitPort d f).map fun x => (x.1, b) := by
  have hdigit : ∀ c ∈ b.head?, c.isDigit = false := fun c hc => not_isDigit_of_not_inAuthority (hb c hc)
  have hend : b.head?.all (endsAuthority true) = true := by
    cases b with
    | nil => rfl
    | cons c b => simpa [inAuthority] using hb c rfl
  have hsub : f.dropWhile Char.isDigit ⊆ f := (List.dropWhile_sublist _).subset
  unfold splitPort
  simp only [takeWhile_append_of_head hdigit, dropWhile_append_of_head hdigit]
  generalize f.dropWhile Char.isDigit = r at *
  split
  · rfl
  · cases r with
    | nil =>
      rw [List.nil_append, if_pos hend]
      rfl
    | cons c r =>
      have hc : endsAuthority true c = false := by
        simpa [inAuthority] using hf c (hsub List.mem_cons_self)
      simp [hc, Except.map]

theorem hostAndPort_append {scheme : List Char} (hs : (schemeKind scheme).isSpecial = true)
    (named : Bool) : hostAndPort scheme named (f ++ b) =
      (hostAndPort scheme named f).map fun x => (x.1, x.2.1, b) := by
  obtain ⟨hparts, hcolon⟩ := splitHost_parts hf false
  unfold hostAndPort
  simp only [hs, splitHost_append hf hb]
  generalize splitHost true false f = parts at *
  obtain ⟨x, y⟩ := parts
  cases parseHost true x with
  | error e => rfl
  | ok host =>
    cases y with
    | nil =>
      -- Without a colon in `f` the rest is `b`, which does not begin with one.
      have hne : ∀ r, b ≠ ':' :: r := by
        rintro r rfl
        exact absurd (hb ':' rfl) (by decide)
      simp only [List.nil_append]
      split <;> rfl
    | cons c y =>
      obtain rfl := hcolon c rfl
      have hy : ∀ c ∈ y, inAuthority c = true := fun c hc => hf c (by rw [← hparts]; simp [hc])
      simp only [List.cons_append, splitPort_append hy hb]
      split
      · rfl
      · cases splitPort (defaultPort scheme) y <;> rfl

end

theorem hostAndPort_nil {scheme : List Char} (hs : (schemeKind scheme).isSpecial = true) (named : Bool) :
    hostAndPort scheme named [] = .error .emptyHost := by
  simp [hostAndPort, splitHost, parseHost, hs]

theorem exists_of_map_eq_ok {ε α β : Type} {g : α → β} {x : Except ε α} {b : β}
    (h : x.map g = .ok b) : ∃ a, x = .ok a ∧ g a = b := by
  cases x with
  | error e => cases h
  | ok a => exact ⟨a, rfl, Except.ok.inj h⟩

theorem splitLastAt_eq {s u h : List Char} (hs : splitLastAt s = some (u, h)) : s = u ++ '@' :: h := by
  induction s generalizing u h with
  | nil => cases hs
  | cons c s ih =>
    simp only [splitLastAt] at hs
    split at hs
    · rename_i u' h' hrest
      cases hs
      simp [ih hrest]
    · split at hs
      · rename_i hc
        cases hs
        simp [hc]
      · cases hs

theorem splitAuthority_eq {scheme f b : List Char} (hs : (schemeKind scheme).isSpecial = true)
    (hf : ∀ c ∈ f, inAuthority c = true) (hb : Ended b) :
    splitAuthority scheme (f ++ b) =
      match splitLastAt f with
      | none => (hostAndPort scheme false (f ++ b)).map fun (host, port, r) =>
        (⟨[], [], host, port⟩, r)
      | some (u, h) =>
        if u.isEmpty && h.isEmpty && !b.isEmpty then .error .emptyHost
        else
          let named := !((credentials u).1.isEmpty && (credentials u).2.isEmpty)
          (hostAndPort scheme named (h ++ b)).map fun (host, port, r) =>
            (⟨(credentials u).1, (credentials u).2, host, port⟩, r) := by
  have hfront : (f ++ b).takeWhile (fun c => !endsAuthority true c) = f := takeWhile_inAuthority hf hb
  have hback : (f ++ b).dropWhile (fun c => !endsAuthority true c) = b := dropWhile_inAuthority hf hb
  unfold splitAuthority
  simp only [hs, hfront, hback]
  cases splitLastAt f with
  | none => cases hostAndPort scheme false (f ++ b) <;> rfl
  | some x =>
    simp only
    split
    · rfl
    · cases hostAndPort scheme _ (x.2 ++ b) <;> rfl

section
variable {scheme f b : List Char} (hs : (schemeKind scheme).isSpecial = true)
variable (hf : ∀ c ∈ f, inAuthority c = true)
include hs hf

/-- An authority is read alike with a text behind it. -/
theorem splitAuthority_append (hb : Ended b) :
    splitAuthority scheme (f ++ b) = (splitAuthority scheme f).map fun x => (x.1, b) := by
  have hwhole := splitAuthority_eq hs hf ended_nil
  rw [List.append_nil] at hwhole
  rw [hwhole, splitAuthority_eq hs hf hb]
  cases hat : splitLastAt f with
  | none =>
    simp only [hostAndPort_append hf hb hs]
    cases hostAndPort scheme false f <;> rfl
  | some x =>
    obtain ⟨u, y⟩ := x
    have hy : ∀ c ∈ y, inAuthority c = true := fun c hc => hf c (by simp [splitLastAt_eq hat, hc])
    simp only [List.append_nil, hostAndPort_append hy hb hs]
    by_cases hempty : y = []
    · -- There is no host either way.
      subst hempty
      simp [hostAndPort_nil hs, Except.map]
    · have hguard : ∀ b : List Char, (u.isEmpty && y.isEmpty && !b.isEmpty) = false := by
        simp [hempty]
      simp only [hguard, Bool.false_eq_true, if_false]
      cases hostAndPort scheme _ y <;> rfl

/-- An authority that is read leaves what stands behind it, and it is decided by what stands before. -/
theorem splitAuthority_append_eq_ok (hb : Ended b) {a : Authority} {r : List Char} :
    splitAuthority scheme (f ++ b) = .ok (a, r) ↔ splitAuthority scheme f = .ok (a, []) ∧ r = b := by
  have hwhole := splitAuthority_append hs hf ended_nil
  rw [List.append_nil] at hwhole
  rw [splitAuthority_append hs hf hb]
  cases h : splitAuthority scheme f with
  | error e => exact iff_of_false nofun nofun
  | ok x =>
    have hrest : x = (x.1, []) := by
      rw [h] at hwhole
      exact Except.ok.inj hwhole
    rw [hrest]
    simp [Except.map, eq_comm]

end

theorem splitAuthority_nil {scheme : List Char} (hs : (schemeKind scheme).isSpecial = true) :
    splitAuthority scheme [] = .error .emptyHost := by
  simp [splitAuthority, splitLastAt, hostAndPort_nil hs]

/-- Percent-decoding keeps a character that takes no part in an encoded byte. -/
theorem mem_decodeBytes {c : Char} {s : List Char} (hhex : Text.hexDigit? c = none) (hc : c ≠ '%')
    (h : c ∈ s) : c ∈ decodeBytes s := by
  fun_induction decodeBytes s with
  | case1 hi lo r b hb ih =>
    simp only [hexByte] at hb
    obtain ⟨x, hx, hb⟩ := Option.bind_eq_some_iff.1 hb
    obtain ⟨y, hy, -⟩ := Option.bind_eq_some_iff.1 hb
    have hhi : c ≠ hi := by rintro rfl; simp [hx] at hhex
    have hlo : c ≠ lo := by rintro rfl; simp [hy] at hhex
    have hr : c ∈ r := by simpa [hc, hhi, hlo] using h
    exact List.mem_cons_of_mem _ (ih hr)
  | case2 hi lo r hb ih =>
    have hr : c ∈ hi :: lo :: r := by simpa [hc] using h
    exact List.mem_cons_of_mem _ (ih hr)
  | case3 d s hd ih =>
    rcases List.mem_cons.1 h with rfl | h
    · exact List.mem_cons_self
    · exact List.mem_cons_of_mem _ (ih h)
  | case4 => exact h

section
variable {s : List Char} {c : Char} (hlast : s.getLast? = some c) (hc : isTrimmed c = true)
include hlast hc

theorem specialHost_blank (host : Host) : specialHost s ≠ .ok host := by
  unfold specialHost
  split
  · have hclose : c ≠ ']' := ne_of_isTrimmed hc rfl
    simp [bracketed, hlast, hclose]
  · have hpercent : c ≠ '%' := ne_of_isTrimmed hc rfl
    have hmem : c ∈ decodeBytes s :=
      mem_decodeBytes (hexDigit?_of_isTrimmed hc) hpercent (List.mem_of_getLast? hlast)
    have hbad : ((decodeBytes s).map Char.toLower).any isForbiddenDomain = true :=
      List.any_eq_true.2
        ⟨c.toLower, List.mem_map.2 ⟨c, hmem, rfl⟩, isForbiddenDomain_of_isTrimmed hc⟩
    simp [hbad]

variable (hs : ∀ c ∈ s, inAuthority c = true)
include hs

theorem splitPort_blank (d : Option Nat) (x : Option Nat × List Char) : splitPort d s ≠ .ok x := by
  unfold splitPort
  have hmem : c ∈ s.dropWhile Char.isDigit := by
    have hsplit : s.takeWhile Char.isDigit ++ s.dropWhile Char.isDigit = s :=
      List.takeWhile_append_dropWhile
    have hin := List.mem_of_getLast? hlast
    rw [← hsplit] at hin
    rcases List.mem_append.1 hin with htake | hdrop
    · have hdigit : c.isDigit = true := List.mem_takeWhile_imp htake
      simp [not_isDigit_of_isTrimmed hc] at hdigit
    · exact hdrop
  have hsub : s.dropWhile Char.isDigit ⊆ s := (List.dropWhile_sublist _).subset
  generalize s.dropWhile Char.isDigit = r at *
  cases r with
  | nil => cases hmem
  | cons y r =>
    have hy : endsAuthority true y = false := by
      simpa [inAuthority] using hs y (hsub List.mem_cons_self)
    simp only [List.head?_cons, Option.all_some, hy]
    split <;> simp

end

theorem hostAndPort_blank {scheme s : List Char} {c : Char} {named : Bool}
    (hscheme : (schemeKind scheme).isSpecial = true) (hs : ∀ c ∈ s, inAuthority c = true)
    (hlast : s.getLast? = some c) (hc : isTrimmed c = true) (x : Host × Option Nat × List Char) :
    hostAndPort scheme named s ≠ .ok x := by
  obtain ⟨hparts, hcolon⟩ := splitHost_parts hs false
  unfold hostAndPort
  simp only [hscheme]
  generalize splitHost true false s = parts at *
  obtain ⟨h, r⟩ := parts
  cases r with
  | nil =>
    -- The blank ends the host.
    obtain rfl : h = s := by simpa using hparts
    have hne : h.isEmpty = false := by
      cases h with
      | nil => cases hlast
      | cons d h => rfl
    cases hhost : specialHost h with
    | error e => simp [parseHost, hne, hhost]
    | ok host => exact absurd hhost (specialHost_blank hlast hc host)
  | cons d r =>
    -- The blank ends the port.
    obtain rfl := hcolon d rfl
    have hr : r.getLast? = some c := by
      have hne : c ≠ ':' := ne_of_isTrimmed hc rfl
      cases r with
      | nil =>
        rw [← hparts] at hlast
        simp [hne.symm] at hlast
      | cons e r =>
        rw [← hparts] at hlast
        simpa using hlast
    have hin : ∀ c ∈ r, inAuthority c = true := fun c hc => hs c (by rw [← hparts]; simp [hc])
    cases hhost : parseHost true h with
    | error e => simp
    | ok host =>
      simp only
      split
      · simp
      · cases hp : splitPort (defaultPort scheme) r with
        | error e => simp
        | ok y => exact absurd hp (splitPort_blank hr hc hin _ y)

theorem splitAuthority_blank {scheme s : List Char} {c : Char}
    (hscheme : (schemeKind scheme).isSpecial = true) (hs : ∀ c ∈ s, inAuthority c = true)
    (hlast : s.getLast? = some c) (hc : isTrimmed c = true) (x : Authority × List Char) :
    splitAuthority scheme s ≠ .ok x := by
  have hwhole := splitAuthority_eq hscheme hs ended_nil
  rw [List.append_nil] at hwhole
  rw [hwhole]
  cases hat : splitLastAt s with
  | none =>
    intro h
    obtain ⟨y, hy, -⟩ := exists_of_map_eq_ok h
    exact hostAndPort_blank hscheme hs hlast hc y hy
  | some y =>
    obtain ⟨u, h⟩ := y
    have heq := splitLastAt_eq hat
    have hin : ∀ c ∈ h, inAuthority c = true := fun c hc => hs c (by simp [heq, hc])
    have hh : h.getLast? = some c := by
      have hne : c ≠ '@' := ne_of_isTrimmed hc rfl
      rw [heq] at hlast
      cases h with
      | nil => simp [hne.symm] at hlast
      | cons d h => simpa using hlast
    simp only [List.append_nil]
    split
    · simp
    · intro h
      obtain ⟨z, hz, -⟩ := exists_of_map_eq_ok h
      exact hostAndPort_blank hscheme hin hh hc z hz

end DocQuery.Url

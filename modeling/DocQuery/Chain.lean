import DocQuery.Error

/-! # Attribute chains

An identifier is an ASCII letter, `_` or `$`, followed by letters, digits, `_` and `$`. A chain is a
non-empty list of identifiers, written with dots between them.
-/
namespace DocQuery

def isIdentStart (c : Char) : Bool := c.isAlpha || c = '_' || c = '$'

def isIdentRest (c : Char) : Bool := c.isAlphanum || c = '_' || c = '$'

def isIdentChars : List Char → Bool
  | [] => false
  | c :: cs => isIdentStart c && cs.all isIdentRest

def isIdent (s : String) : Bool := isIdentChars s.toList

/-- A property path. -/
structure Chain where
  tokens : List String
  nonempty : tokens ≠ []
  idents : ∀ t ∈ tokens, isIdent t = true
  deriving DecidableEq

namespace Chain

inductive Fault where
  | undefined
  | empty
  | badToken (token : String)
  | notChain (input : String)
  | notPath (input : String)
  deriving DecidableEq

def Fault.toError : Fault → Error
  | undefined => .missingArgument "the attribute chain must be defined"
  | empty => .malformedChain "an attribute chain needs at least one token"
  | badToken token => .malformedChain s!"`{token}` is not a valid identifier"
  | notChain input =>
    .malformedChain s!"expected one or more dot-separated identifiers, got `{input}`"
  | notPath input => .malformedChain
      s!"expected the active value followed by at least one property, got `{input}`"

def length (c : Chain) : Nat := c.tokens.length

def firstBad (tokens : List String) : Option String := tokens.find? fun t => !isIdent t

theorem idents_of_firstBad {tokens : List String} (h : firstBad tokens = none) :
    ∀ t ∈ tokens, isIdent t = true := by
  intro t ht
  simpa using List.find?_eq_none.1 h t ht

def ofTokens (tokens : List String) : Except Fault Chain :=
  if h : tokens = [] then .error .empty
  else match hb : firstBad tokens with
  | some bad => .error (.badToken bad)
  | none => .ok ⟨tokens, h, idents_of_firstBad hb⟩

def dotted (ts : List String) : List Char := ['.'].intercalate (ts.map String.toList)

def chars (c : Chain) : List Char := dotted c.tokens

def text (c : Chain) : String := String.ofList c.chars

/-- The pieces between the dots; there is always one. -/
def pieces (s : List Char) : List (List Char) := s.splitOn '.'

theorem pieces_cons_dot (cs : List Char) : pieces ('.' :: cs) = [] :: pieces cs :=
  (List.splitOn_cons_eq_if_modifyHead '.' cs).trans (if_pos rfl)

theorem pieces_cons {c : Char} (hc : c ≠ '.') {cs p : List Char} {ps : List (List Char)}
    (h : pieces cs = p :: ps) : pieces (c :: cs) = (c :: p) :: ps := by
  simp only [pieces] at h ⊢
  simp [List.splitOn_cons_eq_if_modifyHead, hc, h]

/-- Where a reader of a chain stands: at the start of an identifier or inside one, with the number
of dots passed. A character that fits nowhere ends in `none`. -/
inductive Scan where
  | start (dots : Nat)
  | inside (dots : Nat)
  deriving DecidableEq

def Scan.step : Scan → Char → Option Scan
  | start n, c => if isIdentStart c then some (inside n) else none
  | inside n, c =>
    if isIdentRest c then some (inside n) else if c = '.' then some (start (n + 1)) else none

/-- The dots of a text of identifiers and single dots between them, `none` for any other text. -/
def scan (st : Scan) : List Char → Option Nat
  | [] => match st with
    | .start _ => none
    | .inside n => some n
  | c :: cs => (st.step c).bind fun st => scan st cs

/-- What a finished scan says about the pieces: those begun after `st` are identifiers, and there
is one more of them than dots. -/
def Scan.Covers (n : Nat) (ps : List (List Char)) : Scan → Prop
  | start k => (∀ q ∈ ps, isIdentChars q = true) ∧ n + 1 = k + ps.length
  | inside k => ∃ p qs, ps = p :: qs ∧ p.all isIdentRest = true ∧
      (∀ q ∈ qs, isIdentChars q = true) ∧ n = k + qs.length

theorem covers_of_scan {cs : List Char} {st : Scan} {n : Nat} (h : scan st cs = some n) :
    st.Covers n (pieces cs) := by
  induction cs generalizing st with
  | nil =>
    cases st with
    | start k => simp [scan] at h
    | inside k =>
      simp only [scan, Option.some.injEq] at h
      exact ⟨[], [], rfl, rfl, by simp, by simp [h]⟩
  | cons c cs ih =>
    cases st with
    | start k =>
      by_cases hc : isIdentStart c = true
      · have hdot : c ≠ '.' := by rintro rfl; exact absurd hc (by decide)
        obtain ⟨p, qs, hp, hrest, hqs, hn⟩ := @ih (.inside k) (by simpa [scan, Scan.step, hc] using h)
        rw [pieces_cons hdot hp]
        refine ⟨fun q hq => ?_, by simp only [List.length_cons]; omega⟩
        rcases List.mem_cons.1 hq with rfl | hq
        · simpa [isIdentChars, hc] using hrest
        · exact hqs q hq
      · simp [scan, Scan.step, hc] at h
    | inside k =>
      by_cases hc : isIdentRest c = true
      · have hdot : c ≠ '.' := by rintro rfl; exact absurd hc (by decide)
        obtain ⟨p, qs, hp, hrest, hqs, hn⟩ := @ih (.inside k) (by simpa [scan, Scan.step, hc] using h)
        exact ⟨c :: p, qs, pieces_cons hdot hp, by simpa [hc] using hrest, hqs, hn⟩
      · by_cases hdot : c = '.'
        · obtain ⟨hqs, hn⟩ := @ih (.start (k + 1)) (by simpa [scan, Scan.step, hc, if_pos hdot] using h)
          subst hdot
          exact ⟨[], pieces cs, pieces_cons_dot cs, rfl, hqs, by omega⟩
        · simp [scan, Scan.step, hc, hdot] at h

/-- The dots of a chain's text; `none` for a text that is no chain. -/
def dots? (s : String) : Option Nat := scan (.start 0) s.toList

def pieceStrings (s : String) : List String := (pieces s.toList).map String.ofList

theorem pieceStrings_of_dots {s : String} {n : Nat} (h : dots? s = some n) :
    (∀ t ∈ pieceStrings s, isIdent t = true) ∧ (pieceStrings s).length = n + 1 := by
  obtain ⟨hq, hn⟩ := covers_of_scan h
  refine ⟨fun t ht => ?_, by simp only [pieceStrings, List.length_map]; omega⟩
  obtain ⟨q, hqm, rfl⟩ := List.mem_map.1 ht
  simpa [isIdent] using hq q hqm

/-- A chain of one or more identifiers, all kept. -/
def parse (s : String) : Except Fault Chain :=
  match h : dots? s with
  | none => .error (.notChain s)
  | some n =>
    have hp := pieceStrings_of_dots h
    .ok ⟨pieceStrings s, by intro hn; simp [hn] at hp, hp.1⟩

/-- A chain whose first identifier names the active value: the others are kept, at least one. -/
def parsePath (s : String) : Except Fault Chain :=
  match h : dots? s with
  | none => .error (.notPath s)
  | some 0 => .error (.notPath s)
  | some (n + 1) =>
    have hp := pieceStrings_of_dots h
    .ok ⟨(pieceStrings s).tail, by intro hn; have := congrArg List.length hn; simp [hp.2] at this,
      fun t ht => hp.1 t (List.mem_of_mem_tail ht)⟩

def parse? (s : Option String) : Except Fault Chain :=
  match s with
  | none => .error .undefined
  | some s => parse s

def parsePath? (s : Option String) : Except Fault Chain :=
  match s with
  | none => .error .undefined
  | some s => parsePath s

end Chain

end DocQuery

import DocQuery.Url.Path

/-! # Drives

The first segment of the path of a file may name a drive. A drive is written with a colon and is on
no host. Tabs and line ends are breaks: they are no part of a URL, but one of them right behind a
drive ends the segment of the drive.
-/
namespace DocQuery.Url

def isBreak (c : Char) : Bool := c = '\t' || c = '\n' || c = '\r'

def dropBreaks (s : List Char) : List Char := s.filter fun c => !isBreak c

theorem dropBreaks_idem (s : List Char) : dropBreaks (dropBreaks s) = dropBreaks s := by
  simp [dropBreaks]

/-- Whether a break follows the first `n` characters that are none. -/
def breaksAfter : Nat → List Char → Bool
  | _, [] => false
  | 0, c :: _ => isBreak c
  | n + 1, c :: cs => if isBreak c then breaksAfter (n + 1) cs else breaksAfter n cs

/-- The drive that a raw segment names, and the rest of the segment where a break cuts it off. -/
def drive? (s : Segment) : Option (Segment × Option Segment) :=
  match dropBreaks s with
  | [a, b] => if isDrive [a, b] then some ([a, ':'], none) else none
  | a :: ':' :: r =>
    if a.isAlpha && breaksAfter 2 s then some ([a, ':'], some (encode inPathSet r)) else none
  | _ => none

/-- The segments of the path of a file, and whether they make it a path on no host. -/
structure FileSegments where
  segments : List Segment
  isLocal : Bool
  deriving DecidableEq, Repr

/-- Resolves raw segments of a file on top of finished ones. Where a break cuts a drive off, the rest
of its segment is taken as it is, and the host stays. -/
def resolveFile (done : List Segment) : List Segment → FileSegments
  | [] => ⟨done, false⟩
  | s :: ss =>
    match if done.isEmpty then drive? s else none with
    | some (d, none) => ⟨resolve [d] (ss.map dropBreaks), true⟩
    | some (d, some t) => ⟨resolve [d, t] (ss.map dropBreaks), false⟩
    | none =>
      let s := encode inPathSet (dropBreaks s)
      if ss.isEmpty then ⟨lastSegment done s, false⟩ else resolveFile (closeSegment done s) ss

def fileSegments (s : List Char) : FileSegments := resolveFile [] (rawSegments true s)

def dropEmpty : List Segment → List Segment
  | [] :: s :: ss => dropEmpty (s :: ss)
  | ss => ss

end DocQuery.Url

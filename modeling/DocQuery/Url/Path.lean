import DocQuery.Url.Encoding

/-! # Paths

The path of a URL with a hierarchy is a list of segments, each written after a slash. Dot segments
are resolved as the segments are read: one dot keeps the place, two go up.
-/
namespace DocQuery.Url

abbrev Segment := List Char

def isSlash (special : Bool) (c : Char) : Bool := c = '/' || special && c = '\\'

def endsPath (c : Char) : Bool := c = '?' || c = '#'

/-- What one segment asks for; a percent-encoded dot counts as a dot. -/
inductive Move where
  | here
  | up
  | into (segment : Segment)
  deriving DecidableEq

/-- A dot in front, plain or percent-encoded, and what follows it. -/
def dropDot : List Char → Option (List Char)
  | '.' :: r => some r
  | '%' :: '2' :: 'e' :: r => some r
  | '%' :: '2' :: 'E' :: r => some r
  | _ => none

def isOneDot (s : Segment) : Bool := dropDot s = some []

def isTwoDots (s : Segment) : Bool := (dropDot s).any isOneDot

def Move.of (s : Segment) : Move :=
  if isTwoDots s then .up else if isOneDot s then .here else .into s

/-- A letter and a colon or a bar name a drive. -/
def isDrive : Segment → Bool
  | [a, b] => a.isAlpha && (b = ':' || b = '|')
  | _ => false

/-- Two dots do not leave a drive, also with a backslash behind it. -/
def isAnchored : Segment → Bool
  | a :: b :: r => isDrive [a, b] && r.head?.all (· = '\\')
  | _ => false

/-- The finished segments without the last one. -/
def goUp (done : List Segment) : List Segment :=
  match done.getLast? with
  | some s => if isAnchored s then done else done.dropLast
  | none => []

/-- The segments after one that a slash ends. -/
def closeSegment (done : List Segment) (s : Segment) : List Segment :=
  match Move.of s with
  | .here => done
  | .up => goUp done
  | .into s => done ++ [s]

/-- The segments after the last one; after dots there is an empty one. -/
def lastSegment (done : List Segment) (s : Segment) : List Segment :=
  match Move.of s with
  | .here => done ++ [[]]
  | .up => goUp done ++ [[]]
  | .into s => done ++ [s]

def resolve (done : List Segment) : List Segment → List Segment
  | [] => done
  | [s] => lastSegment done (encode inPathSet s)
  | s :: ss => resolve (closeSegment done (encode inPathSet s)) ss

def rawSegments (special : Bool) (s : List Char) : List Segment := s.splitOnP (isSlash special)

/-- The segments of the text after the first slash of a path. -/
def segmentsOf (special : Bool) (s : List Char) : List Segment := resolve [] (rawSegments special s)

def segmentChars (ss : List Segment) : List Char := ss.flatMap fun s => '/' :: s

end DocQuery.Url

import DocQuery.Url.Basic
import DocQuery.Url.Drive

/-! # Parsing URLs

The text is trimmed of blanks and controls at both ends, and breaks are dropped everywhere. What is
left is a scheme and, after its colon, an authority where there is one, a path, a query and a
fragment. Only absolute URLs are accepted.
-/
namespace DocQuery.Url

def isTrimmed (c : Char) : Bool := c.val ≤ 0x20

def trim (s : List Char) : List Char :=
  ((s.dropWhile isTrimmed).reverse.dropWhile isTrimmed).reverse

def isSchemeChar (c : Char) : Bool := c.isAlphanum || c = '+' || c = '-' || c = '.'

def inScheme (c : Char) : Bool := isSchemeChar c || isBreak c

/-- The scheme in lower case and what follows its colon. -/
def splitScheme (s : List Char) : Option (List Char × List Char) :=
  match dropBreaks (s.takeWhile inScheme), s.dropWhile inScheme with
  | c :: cs, ':' :: r => if c.isAlpha then some ((c :: cs).map Char.toLower, r) else none
  | _, _ => none

/-- Whether an authority ends before this character. -/
def endsAuthority (special : Bool) (c : Char) : Bool := isSlash special c || endsPath c

def splitLastAt : List Char → Option (List Char × List Char)
  | [] => none
  | c :: cs =>
    match splitLastAt cs with
    | some (u, h) => some (c :: u, h)
    | none => if c = '@' then some ([], cs) else none

def credentials (s : List Char) : List Char × List Char :=
  (encode inUserinfoSet (s.takeWhile (· ≠ ':')), encode inUserinfoSet ((s.dropWhile (· ≠ ':')).drop 1))

/-- The host and what follows it: a colon ends it outside brackets. -/
def splitHost (special : Bool) : Bool → List Char → List Char × List Char
  | _, [] => ([], [])
  | inside, c :: cs =>
    if c = ':' && !inside || endsAuthority special c then ([], c :: cs)
    else
      let inside := if c = '[' then true else if c = ']' then false else inside
      let (h, r) := splitHost special inside cs
      (c :: h, r)

/-- The port after its colon, without the default one, and what follows it. -/
def splitPort (default : Option Nat) (s : List Char) : Except Fault (Option Nat × List Char) :=
  let ds := s.takeWhile Char.isDigit
  let r := s.dropWhile Char.isDigit
  let n := Text.decimalValue ds
  if 65535 < n then .error .port
  else if r.head?.all (endsAuthority true) then
    .ok (if ds.isEmpty || some n = default then none else some n, r)
  else .error .port

def parseHost (special : Bool) (s : List Char) : Except Fault Host :=
  if special then if s.isEmpty then .error .emptyHost else specialHost s
  else plainHost s

/-- A host and a port; `named` says that credentials stand before them. -/
def hostAndPort (scheme : List Char) (named : Bool) (s : List Char) :
    Except Fault (Host × Option Nat × List Char) :=
  let special := (schemeKind scheme).isSpecial
  let (h, r) := splitHost special false s
  match parseHost special h with
  | .error f => .error f
  | .ok host =>
    match r with
    | ':' :: r =>
      if host = Host.none then .error .emptyHost
      else match splitPort (defaultPort scheme) r with
      | .error f => .error f
      | .ok (port, r) => .ok (host, port, r)
    | r => if host = Host.none && named then .error .emptyHost else .ok (host, none, r)

def splitAuthority (scheme s : List Char) : Except Fault (Authority × List Char) :=
  let special := (schemeKind scheme).isSpecial
  let front := s.takeWhile fun c => !endsAuthority special c
  let back := s.dropWhile fun c => !endsAuthority special c
  match splitLastAt front with
  | none => match hostAndPort scheme false s with
    | .error f => .error f
    | .ok (host, port, r) => .ok (⟨[], [], host, port⟩, r)
  | some (userinfo, h) =>
    if userinfo.isEmpty && h.isEmpty && !back.isEmpty then .error .emptyHost
    else
      let (username, password) := credentials userinfo
      match hostAndPort scheme (!(username.isEmpty && password.isEmpty)) (h ++ back) with
      | .error f => .error f
      | .ok (host, port, r) => .ok (⟨username, password, host, port⟩, r)

def splitPath (s : List Char) : List Char × List Char :=
  (s.takeWhile fun c => !endsPath c, s.dropWhile fun c => !endsPath c)

/-- The segments after an authority of a special scheme: there is always one. -/
def specialPath (s : List Char) : List Segment :=
  match s with
  | c :: r => if isSlash true c then segmentsOf true r else segmentsOf true (c :: r)
  | [] => segmentsOf true []

def plainPath (s : List Char) : List Segment :=
  match s with
  | [] => []
  | '/' :: r => segmentsOf false r
  | s => segmentsOf false s

def queryAndFragment (special : Bool) (s : List Char) : Option (List Char) × Option (List Char) :=
  let set := if special then inSpecialQuerySet else inQuerySet
  match s with
  | '?' :: r =>
    (some (encode set (r.takeWhile (· ≠ '#'))),
      match r.dropWhile (· ≠ '#') with
      | [] => none
      | _ :: f => some (encode inFragmentSet f))
  | '#' :: f => (none, some (encode inFragmentSet f))
  | _ => (none, none)

/-- Puts a URL together from its first parts and the text of its query and fragment. -/
def assemble (scheme : List Char) (authority : Option Authority) (path : Path) (s : List Char) : Url :=
  let (query, fragment) := queryAndFragment (schemeKind scheme).isSpecial s
  ⟨scheme, authority, path, query, fragment⟩

def parseSpecial (scheme s : List Char) : Except Fault Url :=
  match splitAuthority scheme (s.dropWhile (isSlash true)) with
  | .error f => .error f
  | .ok (authority, r) =>
    let (p, r) := splitPath r
    .ok (assemble scheme (some authority) (.segments (specialPath p)) r)

def parsePlain (scheme s : List Char) : Except Fault Url :=
  match s with
  | '/' :: '/' :: s =>
    match splitAuthority scheme s with
    | .error f => .error f
    | .ok (authority, r) =>
      let (p, r) := splitPath r
      .ok (assemble scheme (some authority) (.segments (plainPath p)) r)
  | '/' :: s =>
    let (p, r) := splitPath s
    .ok (assemble scheme none (.segments (segmentsOf false p)) r)
  | s =>
    let (p, r) := splitPath s
    .ok (assemble scheme none (.flat (encode isControl p)) r)

/-- The local host is no host. -/
def fileHost (s : List Char) : Except Fault Host :=
  if s.isEmpty then .ok Host.none
  else match specialHost s with
  | .error f => .error f
  | .ok host => .ok (if host = .name "localhost".toList then Host.none else host)

/-- What follows a slash; breaks may stand before the slash. -/
def afterSlash? (s : List Char) : Option (List Char) :=
  match s.dropWhile isBreak with
  | c :: r => if isSlash true c then some r else none
  | [] => none

/-- The URL of a file whose path, query and fragment are the raw text `s`. -/
def fileUrl (scheme : List Char) (host : Host) (s : List Char) : Url :=
  let (p, r) := splitPath s
  let path := fileSegments p
  let host := if path.isLocal then Host.none else host
  assemble scheme (some ⟨[], [], host, none⟩) (.segments (dropEmpty path.segments)) (dropBreaks r)

/-- The URL of a file, raw text given. Its host stands after two slashes, unless a drive does. Without
a host the slash behind it counts as an empty first segment. -/
def parseFile (scheme s : List Char) : Except Fault Url :=
  match afterSlash? s with
  | none => .ok (fileUrl scheme Host.none s)
  | some s =>
    match afterSlash? s with
    | none => .ok (fileUrl scheme Host.none s)
    | some s =>
      let h := dropBreaks (s.takeWhile fun c => !endsAuthority true c)
      let r := s.dropWhile fun c => !endsAuthority true c
      if isDrive h then .ok (fileUrl scheme Host.none s)
      else match fileHost h with
      | .error f => .error f
      | .ok host =>
        .ok (fileUrl scheme host (if host = Host.none then r else (afterSlash? r).getD r))

def parseChars (s : List Char) : Except Fault Url :=
  match splitScheme (trim s) with
  | none => .error .relative
  | some (scheme, r) =>
    match schemeKind scheme with
    | .file => parseFile scheme r
    | .special => parseSpecial scheme (dropBreaks r)
    | .plain => parsePlain scheme (dropBreaks r)

def parse (s : String) : Except Fault Url := parseChars s.toList

end DocQuery.Url

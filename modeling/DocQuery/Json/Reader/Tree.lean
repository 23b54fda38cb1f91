import DocQuery.Json.Reader.Loop

/-! # Reading a tree

`readTree n` reads a tree of at most `n` levels and keeps members as they are written.
-/
namespace DocQuery.Json

def mapRead {α β : Type} (f : α → β) : Except Fault (α × List Char) → Except Fault (β × List Char)
  | .ok (a, r) => .ok (f a, r)
  | .error e => .error e

/-- A value that is neither an array nor an object and starts at `c`. -/
def readScalar (c : Char) (s : List Char) : Except Fault (Json × List Char) :=
  if c = 'n' then match readName ['u', 'l', 'l'] s with
    | .ok r => .ok (.null, r)
    | .error f => .error f
  else if c = 't' then match readName ['r', 'u', 'e'] s with
    | .ok r => .ok (.bool true, r)
    | .error f => .error f
  else if c = 'f' then match readName ['a', 'l', 's', 'e'] s with
    | .ok r => .ok (.bool false, r)
    | .error f => .error f
  else if c = '-' then mapRead .number (readNumber true s)
  else if c.isDigit then mapRead .number (readNumber false (c :: s))
  else if c = '"' then mapRead .string (readString s)
  else .error (.next (c :: s) .expectedValue)

/-- The colon and the value of a member, put after the members already read. -/
def readMember (value : Reader Json) (ms : List (String × Json)) (key : String) :
    Reader (List (String × Json)) := fun s =>
  match readColon s with
  | .error f => .error f
  | .ok s => mapRead (fun v => ms ++ [(key, v)]) (value s)

def readTree : Nat → Reader Json
  | n, s =>
    match skipBlanks s with
    | [] => .error (.next [] .endInValue)
    | c :: r =>
      if c = '[' then
        match n with
        | 0 => .error (.next (c :: r) .recursionLimit)
        | n + 1 => mapRead .array (closeArray (items (readTree n) (r.length + 1) true r))
      else if c = '\x7b' then
        match n with
        | 0 => .error (.next (c :: r) .recursionLimit)
        | n + 1 =>
          mapRead .object (closeObject (members (readMember (readTree n)) (r.length + 1) true [] r))
      else readScalar c r
termination_by structural n => n

/-- The levels that a text may nest. -/
def depthLimit : Nat := 127

/-- Reads a whole text: nothing but blanks may follow. -/
def readAll {α : Type} (read : Reader α) (s : List Char) : Except Fault α :=
  match read s with
  | .error f => .error f
  | .ok (a, r) => match skipBlanks r with
    | [] => .ok a
    | c :: r => .error (.next (c :: r) .trailingCharacters)

def parse (s : String) : Except Fault Json := readAll (readTree depthLimit) s.toList

end DocQuery.Json

namespace DocQuery.Value

def parse (s : String) : Except Json.Fault Value :=
  match Json.parse s with
  | .ok j => .ok (ofTree j)
  | .error f => .error f

end DocQuery.Value

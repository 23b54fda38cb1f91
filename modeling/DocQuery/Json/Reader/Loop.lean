import DocQuery.Json.Reader.Token

/-! # Arrays and objects, item by item

`nextItem` and `nextKey` read what stands before an item, `items` and `members` run a reader on each
of them up to the closing bracket, and `closeArray` and `closeObject` read that bracket. A loop
takes the number of characters as its fuel; every item takes at least one of them.
-/
namespace DocQuery.Json

/-- Whether another item follows; the rest starts with it or with the closing bracket. -/
def nextItem (first : Bool) : Reader Bool := fun s =>
  match skipBlanks s with
  | [] => .error (.next [] .endInList)
  | c :: r =>
    if c = ']' then .ok (false, c :: r)
    else if first then .ok (true, c :: r)
    else if c = ',' then
      match skipBlanks r with
      | [] => .error (.next [] .endInValue)
      | d :: r => if d = ']' then .error (.next (d :: r) .trailingComma) else .ok (true, d :: r)
    else .error (.next (c :: r) .expectedListEnd)

def keyAt : Reader (Option String) := fun s =>
  match s with
  | '"' :: r => match readString r with
    | .ok (k, r) => .ok (some k, r)
    | .error f => .error f
  | _ => .error (.next s .keyNotString)

/-- The next key, if the rest does not start with the closing bracket. -/
def nextKey (first : Bool) : Reader (Option String) := fun s =>
  match skipBlanks s with
  | [] => .error (.next [] .endInObject)
  | c :: r =>
    if c = '\x7d' then .ok (none, c :: r)
    else if first then keyAt (c :: r)
    else if c = ',' then
      match skipBlanks r with
      | [] => .error (.next [] .endInValue)
      | d :: r => if d = '\x7d' then .error (.next (d :: r) .trailingComma) else keyAt (d :: r)
    else .error (.next (c :: r) .expectedObjectEnd)

def readColon (s : List Char) : Except Fault (List Char) :=
  match skipBlanks s with
  | [] => .error (.next [] .endInObject)
  | c :: r => if c = ':' then .ok r else .error (.next (c :: r) .expectedColon)

/-- The items up to the closing bracket. -/
def items {α : Type} (item : Reader α) : Nat → Bool → Reader (List α)
  | 0, _, s => .error (.next s .endInList)
  | fuel + 1, first, s =>
    match nextItem first s with
    | .error f => .error f
    | .ok (false, r) => .ok ([], r)
    | .ok (true, r) =>
      match item r with
      | .error f => .error f
      | .ok (x, r) => match items item fuel false r with
        | .error f => .error f
        | .ok (xs, r) => .ok (x :: xs, r)

/-- Runs `step` on every key up to the closing bracket; it reads the colon and the value. -/
def members {σ : Type} (step : σ → String → Reader σ) : Nat → Bool → σ → Reader σ
  | 0, _, _, s => .error (.next s .endInObject)
  | fuel + 1, first, st, s =>
    match nextKey first s with
    | .error f => .error f
    | .ok (none, r) => .ok (st, r)
    | .ok (some k, r) =>
      match step st k r with
      | .error f => .error f
      | .ok (st, r) => members step fuel false st r

def endArray (s : List Char) : Except Fault (List Char) :=
  match skipBlanks s with
  | [] => .error (.next [] .endInList)
  | c :: r =>
    if c = ']' then .ok r
    else if c = ',' then
      match skipBlanks r with
      | ']' :: r => .error (.next (']' :: r) .trailingComma)
      | r => .error (.next r .trailingCharacters)
    else .error (.next (c :: r) .trailingCharacters)

def endObject (s : List Char) : Except Fault (List Char) :=
  match skipBlanks s with
  | [] => .error (.next [] .endInObject)
  | c :: r =>
    if c = '\x7d' then .ok r
    else if c = ',' then .error (.next (c :: r) .trailingComma)
    else .error (.next (c :: r) .trailingCharacters)

/-- Where an open fault of an array settles. -/
def pastArray (s : List Char) : List Char :=
  match skipBlanks s with
  | ']' :: r => r
  | ',' :: r => skipBlanks r
  | r => r

def pastObject (s : List Char) : List Char :=
  match skipBlanks s with
  | '\x7d' :: r => r
  | r => r

/-- Reads the closing bracket with `close`; an open fault settles at `past`. -/
def closeBy {α : Type} (past : List Char → List Char) (close : List Char → Except Fault (List Char)) :
    Except Fault (α × List Char) → Except Fault (α × List Char)
  | .error f => .error (f.close past)
  | .ok (a, s) => match close s with
    | .error f => .error f
    | .ok r => .ok (a, r)

def closeArray {α : Type} : Except Fault (α × List Char) → Except Fault (α × List Char) :=
  closeBy pastArray endArray

def closeObject {α : Type} : Except Fault (α × List Char) → Except Fault (α × List Char) :=
  closeBy pastObject endObject

end DocQuery.Json

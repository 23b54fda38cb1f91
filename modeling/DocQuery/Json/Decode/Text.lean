import DocQuery.Error
import DocQuery.Json.Decode.Tree
import DocQuery.Json.Reader.Skip
import DocQuery.Json.Reader.Tree

/-! # Decoding texts

The same shapes as of trees, read from a text as it goes. The argument `n` is the number of levels
that may still be opened.
-/
namespace DocQuery.Json

/-- The fault of a value at the start of the rest where a shape that is tried first is expected:
an array or an object is not entered. -/
def mistyped (expected : String) : List Char → Fault
  | [] => .next [] .endInValue
  | c :: r =>
    if c = '[' then .here (c :: r) (.invalidType .sequence expected)
    else if c = '\x7b' then .here (c :: r) (.invalidType .map expected)
    else match readScalar c r with
    | .ok (j, r) => .here r (.invalidType j.found expected)
    | .error f => f

/-- The fault where any value is read first and then turned down. -/
def turnedDown (expected : String) (n : Nat) : List Char → Fault
  | [] => .next [] .endInValue
  | c :: r =>
    if c = '[' then
      if n = 0 then .next (c :: r) .recursionLimit
      else (Fault.pending r (.invalidType .sequence expected)).close pastArray
    else if c = '\x7b' then
      if n = 0 then .next (c :: r) .recursionLimit
      else (Fault.pending r (.invalidType .map expected)).close pastObject
    else mistyped expected (c :: r)

def stringOfText : Reader String := fun s =>
  match skipBlanks s with
  | '"' :: r => readString r
  | s => .error (mistyped "a string" s)

def listOfText {α : Type} (item : Nat → Reader α) (n : Nat) : Reader (List α) := fun s =>
  match skipBlanks s with
  | '[' :: r => match n with
    | 0 => .error (.next ('[' :: r) .recursionLimit)
    | n + 1 => closeArray (items (item n) (r.length + 1) true r)
  | s => .error (mistyped "a sequence" s)

def unitOfText : Reader Unit := fun s =>
  match skipBlanks s with
  | 'n' :: r => match readName ['u', 'l', 'l'] r with
    | .ok r => .ok ((), r)
    | .error f => .error f
  | s => .error (mistyped "unit" s)

def unitOfAnyText (expected : String) (n : Nat) : Reader Unit := fun s =>
  match skipBlanks s with
  | 'n' :: r => match readName ['u', 'l', 'l'] r with
    | .ok r => .ok ((), r)
    | .error f => .error f
  | s => .error (turnedDown expected n s)

def nameOfText {α : Type} (find : String → Option α) (known : List String) : Reader α := fun s =>
  match skipBlanks s with
  | '"' :: r => match readString r with
    | .error f => .error f
    | .ok (name, r) => match variant find known name with
      | .ok a => .ok (a, r)
      | .error c => .error (.here r c)
  | s => .error (mistyped "variant identifier" s)

def nameOfKey {α : Type} (find : String → Option α) (known : List String) : Reader α := fun s =>
  match skipBlanks s with
  | [] => .error (.next [] .endInObject)
  | c :: r =>
    if c = '"' then nameOfText find known (c :: r)
    else if c = '\x7d' then .error (.next (c :: r) .expectedValue)
    else .error (.next (c :: r) .keyNotString)

def readObjectEnd (s : List Char) : Except Fault (List Char) :=
  match skipBlanks s with
  | [] => .error (.here [] .endInObject)
  | c :: r => if c = '\x7d' then .ok r else .error (.here (c :: r) .expectedValue)

def variantOfText {α : Type} (find : String → Option α) (known : List String) (n : Nat) :
    Reader α := fun s =>
  match skipBlanks s with
  | [] => .error (.next [] .endInValue)
  | c :: r =>
    if c = '"' then nameOfText find known (c :: r)
    else if c = '\x7b' then
      if n = 0 then .error (.next (c :: r) .recursionLimit)
      else match nameOfKey find known r with
      | .error f => .error f
      | .ok (a, r) => match readColon r with
        | .error f => .error f
        | .ok r => match unitOfText r with
          | .error f => .error f
          | .ok (_, r) => match readObjectEnd r with
            | .error f => .error f
            | .ok r => .ok (a, r)
    else .error (.next (c :: r) .expectedValue)

/-- The value of a member after its colon. -/
def readField {α : Type} (value : Reader α) : Reader α := fun s =>
  match readColon s with
  | .error f => .error f
  | .ok s => value s

def skipField {σ : Type} (st : σ) : Reader σ := fun s =>
  match readColon s with
  | .error f => .error f
  | .ok s => match skipValue s with
    | .error f => .error f
    | .ok r => .ok (st, r)

/-- A further item of an array that must have at least `index + 1` of them. -/
def readItem {α : Type} (index : Nat) (expected : String) (item : Reader α) : Reader α := fun s =>
  match nextItem (index == 0) s with
  | .error f => .error f
  | .ok (false, r) => .error (.pending r (.invalidLength index expected))
  | .ok (true, r) => item r

/-- Judges a value that was read; a refusal stays open. -/
def judge {α β : Type} (f : α → Except Cause β) :
    Except Fault (α × List Char) → Except Fault (β × List Char)
  | .error e => .error e
  | .ok (a, r) => match f a with
    | .ok b => .ok (b, r)
    | .error c => .error (.pending r c)

/-- A structure: an object whose members are read by `step` from `start` and then judged, or an
array of its fields. -/
def readStruct {σ α : Type} (expected : String) (start : σ) (step : Nat → σ → String → Reader σ)
    (finish : σ → Except Cause α) (fields : Nat → Reader α) (n : Nat) : Reader α := fun s =>
  match skipBlanks s with
  | [] => .error (.next [] .endInValue)
  | c :: r =>
    if c = '[' then
      match n with
      | 0 => .error (.next (c :: r) .recursionLimit)
      | n + 1 => closeArray (fields n r)
    else if c = '\x7b' then
      match n with
      | 0 => .error (.next (c :: r) .recursionLimit)
      | n + 1 => closeObject (judge finish (members (step n) (r.length + 1) true start r))
    else .error (mistyped expected (c :: r))

def decodeText {α : Type} (read : Nat → Reader α) (s : String) : Except Fault α :=
  readAll (read depthLimit) s.toList

end DocQuery.Json

namespace DocQuery.Error

def ofFault (text : String) (f : Json.Fault) : Error := .serialization (f.message text.toList)

def ofCause (c : Json.Cause) : Error := .serialization c.message

end DocQuery.Error

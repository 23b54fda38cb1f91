import DocQuery.Json.Message

/-! # Decoding trees

The decoders of the primitive shapes. A payload that had to be kept until its tag was known is
decoded on the buffered route, where an empty object is a unit too.
-/
namespace DocQuery.Json

inductive Route where
  | direct
  | buffered
  deriving DecidableEq

def found : Json → Found
  | null => .null
  | bool b => .bool b
  | number n => .number n
  | string s => .string s
  | array _ => .sequence
  | object _ => .map

def mistypedTree {α : Type} (expected : String) (j : Json) : Except Cause α :=
  .error (.invalidType j.found expected)

def stringOfTree : Json → Except Cause String
  | string s => .ok s
  | j => mistypedTree "a string" j

def listOfTrees {α : Type} (item : Json → Except Cause α) : List Json → Except Cause (List α)
  | [] => .ok []
  | x :: xs =>
    match item x with
    | .error c => .error c
    | .ok a => match listOfTrees item xs with
      | .error c => .error c
      | .ok as => .ok (a :: as)

def listOfTree {α : Type} (item : Json → Except Cause α) : Json → Except Cause (List α)
  | array xs => listOfTrees item xs
  | j => mistypedTree "a sequence" j

def unitOfTree (route : Route) : Json → Except Cause Unit
  | null => .ok ()
  | object [] => if route = .buffered then .ok () else mistypedTree "unit" (object [])
  | j => mistypedTree "unit" j

def variant {α : Type} (find : String → Option α) (known : List String) (name : String) :
    Except Cause α :=
  match find name with
  | some a => .ok a
  | none => .error (.unknownVariant name known)

def nameOfTree {α : Type} (find : String → Option α) (known : List String) :
    Json → Except Cause α
  | string name => variant find known name
  | j => mistypedTree "variant identifier" j

/-- A name alone, or as the only key of an object with a unit. -/
def variantOfTree {α : Type} (find : String → Option α) (known : List String) (route : Route) :
    Json → Except Cause α
  | string name => variant find known name
  | object [(name, data)] =>
    match variant find known name with
    | .error c => .error c
    | .ok a => match unitOfTree route data with
      | .error c => .error c
      | .ok _ => .ok a
  | object _ => .error (.invalidMap "map with a single key")
  | j => mistypedTree "string or map" j

/-- The members in order; the first fault ends it. -/
def foldMembers {σ : Type} (step : σ → String → Json → Except Cause σ) (st : σ) :
    List (String × Json) → Except Cause σ
  | [] => .ok st
  | (k, v) :: ms =>
    match step st k v with
    | .error c => .error c
    | .ok st => foldMembers step st ms

/-- A structure: an object whose members are folded from `start` and then judged, or an array of its
fields. -/
def structOfTree {σ α : Type} (expected : String) (start : σ)
    (fold : σ → String → Json → Except Cause σ) (finish : σ → Except Cause α)
    (fields : List Json → Except Cause α) : Json → Except Cause α
  | object ms =>
    match foldMembers fold start ms with
    | .error c => .error c
    | .ok st => finish st
  | array xs => fields xs
  | j => mistypedTree expected j

def surplus (length : Nat) : Cause := .invalidLength length "fewer elements in array"

end DocQuery.Json

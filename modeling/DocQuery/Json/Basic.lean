import DocQuery.Json.Number

/-! # JSON trees

A tree keeps the members of an object as they were written, in order and with repetitions.
`normalize` sorts the members of every object by their keys and keeps the last of those that share
a key; a tree that it leaves alone is a `Value`.
-/
namespace DocQuery

inductive Json where
  | null
  | bool (b : Bool)
  | number (n : Json.Number)
  | string (s : String)
  | array (items : List Json)
  | object (members : List (String × Json))
  deriving Inhabited

namespace Json

/-- Compares two trees, numbers by `num`. -/
def compareBy (num : Number → Number → Bool) : Json → Json → Bool :=
  tree
where
  tree : Json → Json → Bool
    | null, null => true
    | bool a, bool b => a == b
    | number a, number b => num a b
    | string a, string b => a == b
    | array as, array bs => items as bs
    | object as, object bs => members as bs
    | _, _ => false
  termination_by structural a => a
  items : List Json → List Json → Bool
    | [], [] => true
    | a :: as, b :: bs => tree a b && items as bs
    | _, _ => false
  termination_by structural as => as
  members : List (String × Json) → List (String × Json) → Bool
    | [], [] => true
    | (k, a) :: as, (l, b) :: bs => k == l && tree a b && members as bs
    | _, _ => false
  termination_by structural as => as

def same : Json → Json → Bool := compareBy Number.same

mutual
/-- The number of arrays and objects around the innermost leaf. -/
def depth : Json → Nat
  | array xs => depthItems xs + 1
  | object ms => depthMembers ms + 1
  | _ => 0
termination_by structural j => j
def depthItems : List Json → Nat
  | [] => 0
  | x :: xs => max x.depth (depthItems xs)
termination_by structural xs => xs
def depthMembers : List (String × Json) → Nat
  | [] => 0
  | (_, x) :: ms => max x.depth (depthMembers ms)
termination_by structural ms => ms
end

end Json

namespace Members
variable {α : Type}

/-- Puts a member at its place in the order of keys, replacing one of the same key. -/
def insert (key : String) (value : α) : List (String × α) → List (String × α)
  | [] => [(key, value)]
  | (k, v) :: ms =>
    if key < k then (key, value) :: (k, v) :: ms
    else if key = k then (key, value) :: ms
    else (k, v) :: insert key value ms

/-- In key order, the last of equal keys. -/
def sort (ms : List (String × α)) : List (String × α) :=
  ms.foldl (fun acc m => insert m.1 m.2 acc) []

def find? (key : String) : List (String × α) → Option α
  | [] => none
  | (k, v) :: ms => if k = key then some v else find? key ms

def Sorted (ms : List (String × α)) : Prop := (ms.map (·.1)).Pairwise (· < ·)

instance (ms : List (String × α)) : Decidable (Sorted ms) := by unfold Sorted; infer_instance

end Members

namespace Json

mutual
def normalize : Json → Json
  | array xs => array (normalizeItems xs)
  | object ms => object (Members.sort (normalizeMembers ms))
  | j => j
termination_by structural j => j
def normalizeItems : List Json → List Json
  | [] => []
  | x :: xs => x.normalize :: normalizeItems xs
termination_by structural xs => xs
def normalizeMembers : List (String × Json) → List (String × Json)
  | [] => []
  | (k, x) :: ms => (k, x.normalize) :: normalizeMembers ms
termination_by structural ms => ms
end

mutual
def Normal : Json → Prop
  | array xs => NormalItems xs
  | object ms => Members.Sorted ms ∧ NormalMembers ms
  | _ => True
termination_by structural j => j
def NormalItems : List Json → Prop
  | [] => True
  | x :: xs => x.Normal ∧ NormalItems xs
termination_by structural xs => xs
def NormalMembers : List (String × Json) → Prop
  | [] => True
  | (_, x) :: ms => x.Normal ∧ NormalMembers ms
termination_by structural ms => ms
end

end Json

end DocQuery

import DocQuery.Error

/-! # Comparators -/
namespace DocQuery

inductive Comparator where
  | equal
  | less
  | lessOrEqual
  | greater
  | greaterOrEqual
  deriving DecidableEq, Repr

namespace Comparator

def all : List Comparator := [equal, less, lessOrEqual, greater, greaterOrEqual]

def token : Comparator → String
  | equal => "=="
  | less => "<"
  | lessOrEqual => "<="
  | greater => ">"
  | greaterOrEqual => ">="

def tokens : List String := all.map token

def ofToken? (s : String) : Option Comparator := all.find? fun c => c.token = s

@[simp] theorem ofToken?_token (c : Comparator) : ofToken? c.token = some c := by
  cases c <;> decide

def parse (s : String) : Except Error Comparator :=
  match ofToken? s with
  | some c => .ok c
  | none => .error (.unknownComparator
      s!"the valid comparators are ==, <, <=, >, >=; got `{s}`")

end Comparator

end DocQuery

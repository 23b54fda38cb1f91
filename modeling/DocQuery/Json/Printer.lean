import DocQuery.Json.Normal

/-! # The text of a tree

No blanks; members in the order of the tree; a control character is escaped, by its letter where it
has one and as `\u00xx` otherwise; every other character but the quote and the backslash stands for
itself.
-/
namespace DocQuery.Json

def hexDigit (n : Nat) : Char := Nat.digitChar n

def escape (c : Char) : List Char :=
  if c = '"' then ['\\', '"']
  else if c = '\\' then ['\\', '\\']
  else if c = '\x08' then ['\\', 'b']
  else if c = '\x0c' then ['\\', 'f']
  else if c = '\n' then ['\\', 'n']
  else if c = '\r' then ['\\', 'r']
  else if c = '\t' then ['\\', 't']
  else if c.val < 0x20 then
    ['\\', 'u', '0', '0', hexDigit (c.toNat / 16), hexDigit (c.toNat % 16)]
  else [c]

def quote (s : String) : List Char := '"' :: s.toList.flatMap escape ++ ['"']

mutual
def chars : Json → List Char
  | null => ['n', 'u', 'l', 'l']
  | bool true => ['t', 'r', 'u', 'e']
  | bool false => ['f', 'a', 'l', 's', 'e']
  | number n => n.chars
  | string s => quote s
  | array xs => '[' :: charsItems true xs ++ [']']
  | object ms => '{' :: charsMembers true ms ++ ['}']
termination_by structural j => j
/-- A comma stands before every item but the first. -/
def charsItems : Bool → List Json → List Char
  | _, [] => []
  | first, x :: xs => (if first then [] else [',']) ++ x.chars ++ charsItems false xs
termination_by structural _ xs => xs
def charsMembers : Bool → List (String × Json) → List Char
  | _, [] => []
  | first, (k, x) :: ms =>
    (if first then [] else [',']) ++ quote k ++ ':' :: x.chars ++ charsMembers false ms
termination_by structural _ ms => ms
end

def text (j : Json) : String := String.ofList j.chars

end DocQuery.Json

namespace DocQuery.Value

def text (v : Value) : String := v.tree.text

end DocQuery.Value

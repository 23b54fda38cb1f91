import DocQuery.Url.Host
import DocQuery.Url.Path

/-! # URLs and their texts -/
namespace DocQuery

namespace Url

structure Authority where
  username : List Char
  password : List Char
  host : Host
  port : Option Nat
  deriving DecidableEq, Repr

inductive Path where
  | flat (chars : List Char)
  | segments (ss : List Segment)
  deriving DecidableEq, Repr

end Url

structure Url where
  scheme : List Char
  authority : Option Url.Authority
  path : Url.Path
  query : Option (List Char)
  fragment : Option (List Char)
  deriving DecidableEq, Repr

namespace Url

def Authority.userinfoChars (a : Authority) : List Char :=
  if a.username.isEmpty && a.password.isEmpty then []
  else a.username ++ (if a.password.isEmpty then [] else ':' :: a.password) ++ ['@']

def Authority.portChars (a : Authority) : List Char :=
  match a.port with
  | none => []
  | some p => ':' :: Nat.toDigits 10 p

def Authority.chars (a : Authority) : List Char :=
  '/' :: '/' :: a.userinfoChars ++ a.host.chars ++ a.portChars

/-- Without an authority a path must not begin like one. -/
def Path.chars (hasAuthority : Bool) : Path → List Char
  | flat cs => cs
  | segments ([] :: s :: ss) =>
    (if hasAuthority then [] else ['/', '.']) ++ segmentChars ([] :: s :: ss)
  | segments ss => segmentChars ss

def optionalChars (mark : Char) : Option (List Char) → List Char
  | none => []
  | some cs => mark :: cs

def authorityChars (u : Url) : List Char :=
  match u.authority with
  | none => []
  | some a => a.chars

def chars (u : Url) : List Char :=
  u.scheme ++ ':' :: u.authorityChars ++ u.path.chars u.authority.isSome ++
    optionalChars '?' u.query ++ optionalChars '#' u.fragment

def text (u : Url) : String := String.ofList u.chars

/-- Two URLs are the same if their texts are. -/
def same (u v : Url) : Bool := u.text == v.text

end Url

end DocQuery

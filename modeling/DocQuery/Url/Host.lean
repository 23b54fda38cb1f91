import DocQuery.Url.Address
import DocQuery.Url.Encoding

/-! # Schemes and hosts -/
namespace DocQuery.Url

/-- Why a text is no URL. -/
inductive Fault where
  | emptyHost
  | domain
  | port
  | address4
  | address6
  | hostCharacter
  | relative
  deriving DecidableEq, Repr

def Fault.message : Fault → String
  | emptyHost => "empty host"
  | domain => "invalid international domain name"
  | port => "invalid port number"
  | address4 => "invalid IPv4 address"
  | address6 => "invalid IPv6 address"
  | hostCharacter => "invalid domain character"
  | relative => "relative URL without a base"

inductive SchemeKind where
  | file
  | special
  | plain
  deriving DecidableEq, Repr

def defaultPorts : List (String × Nat) :=
  [("http", 80), ("https", 443), ("ws", 80), ("wss", 443), ("ftp", 21)]

def defaultPort (scheme : List Char) : Option Nat :=
  (defaultPorts.find? fun p => p.1.toList = scheme).map (·.2)

def schemeKind (scheme : List Char) : SchemeKind :=
  if scheme = "file".toList then .file
  else if (defaultPort scheme).isSome then .special
  else .plain

def SchemeKind.isSpecial : SchemeKind → Bool
  | plain => false
  | _ => true

inductive Host where
  /-- A name, in a plain scheme kept as it is; empty if there is no host. -/
  | name (chars : List Char)
  | address4 (n : Nat)
  | address6 (pieces : List Nat)
  deriving DecidableEq, Repr

def Host.none : Host := .name []

def Host.chars : Host → List Char
  | name cs => cs
  | address4 n => address4Chars n
  | address6 ps => '[' :: address6Chars ps ++ [']']

/-- Characters that no host may hold. -/
def isForbiddenHost (c : Char) : Bool :=
  c = '\x00' || c = '\t' || c = '\n' || c = '\r' || c = ' ' || c = '#' || c = '/' || c = ':' ||
    c = '<' || c = '>' || c = '?' || c = '@' || c = '[' || c = '\\' || c = ']' || c = '^' ||
    c = '|'

/-- Characters that no ASCII domain of a special scheme may hold: beyond those also controls and the
percent sign. Domains outside ASCII are not covered: IDNA would map them first, here they are refused. -/
def isForbiddenDomain (c : Char) : Bool := isForbiddenHost c || isControl c || c = '%'

def bracketed (s : List Char) : Except Fault Host :=
  if s.getLast? = some ']' then
    match parseAddress6 (s.drop 1).dropLast with
    | some ps => .ok (.address6 ps)
    | none => .error .address6
  else .error .address6

/-- The host of a special scheme, an ASCII one: percent-decoded, in lower case, an address if it ends
in a number. IDNA is not covered, neither the mapping of other hosts nor the check of `xn--` labels. -/
def specialHost (s : List Char) : Except Fault Host :=
  if s.head? = some '[' then bracketed s
  else
    let name := (decodeBytes s).map Char.toLower
    if name.any isForbiddenDomain then .error .domain
    else if name.isEmpty then .error .emptyHost
    else if endsInNumber name then
      match parseAddress4 name with
      | some n => .ok (.address4 n)
      | none => .error .address4
    else .ok (.name name)

def plainHost (s : List Char) : Except Fault Host :=
  if s.head? = some '[' then bracketed s
  else if s.any isForbiddenHost then .error .hostCharacter
  else .ok (.name (encode isControl s))

end DocQuery.Url

import DocQuery.Json.Reader.Loop

/-! # Passing over a value

`skipValue` reads past a value of any depth without keeping it. It is laxer than reading the value:
numbers may be out of range, surrogates need no partner.
-/
namespace DocQuery.Json

def skipQuoted : List Char → Except Fault (List Char)
  | [] => .error (.here [] .endInString)
  | c :: s =>
    if c = '"' then .ok s
    else if c = '\\' then
      match s with
      | [] => .error (.here [] .endInString)
      | e :: s =>
        if e = 'u' then
          match s with
          | h₁ :: h₂ :: h₃ :: h₄ :: s' =>
            match hexUnit h₁ h₂ h₃ h₄ with
            | none => .error (hexFault s)
            | some _ => skipQuoted s'
          | _ => .error (hexFault s)
        else match unescape e with
        | some _ => skipQuoted s
        | none => .error (.next (e :: s) .invalidEscape)
    else if c.val < 0x20 then .error (.here (c :: s) .controlCharacter)
    else skipQuoted s
termination_by structural s => s

def skipExponent (s : List Char) : Except Fault (List Char) :=
  let r := match s with
    | '+' :: r => r
    | '-' :: r => r
    | _ => s
  match r with
  | [] => .error (.here [] .invalidNumber)
  | c :: r =>
    if c.isDigit then .ok (r.dropWhile Char.isDigit) else .error (.next (c :: r) .invalidNumber)

def skipFraction (s : List Char) : Except Fault (List Char) :=
  let (ds, r) := splitDigits s
  if ds.isEmpty then .error (.next r .invalidNumber)
  else match r with
  | 'e' :: r => skipExponent r
  | 'E' :: r => skipExponent r
  | r => .ok r

def skipTail (s : List Char) : Except Fault (List Char) :=
  match s with
  | '.' :: r => skipFraction r
  | 'e' :: r => skipExponent r
  | 'E' :: r => skipExponent r
  | r => .ok r

def skipNumber : List Char → Except Fault (List Char)
  | [] => .error (.here [] .invalidNumber)
  | c :: s =>
    if c = '0' then
      match s with
      | d :: _ => if d.isDigit then .error (.next s .invalidNumber) else skipTail s
      | [] => skipTail s
    else if c.isDigit then skipTail (s.dropWhile Char.isDigit)
    else .error (.next (c :: s) .invalidNumber)

def skipScalar (c : Char) (s : List Char) : Except Fault (List Char) :=
  if c = 'n' then readName ['u', 'l', 'l'] s
  else if c = 't' then readName ['r', 'u', 'e'] s
  else if c = 'f' then readName ['a', 'l', 's', 'e'] s
  else if c = '-' then skipNumber s
  else if c.isDigit then skipNumber (c :: s)
  else if c = '"' then skipQuoted s
  else .error (.next (c :: s) .expectedValue)

/-- The items of an array and its closing bracket. A comma must be followed by a value. -/
def skipItems (item : List Char → Except Fault (List Char)) :
    Nat → Bool → List Char → Except Fault (List Char)
  | 0, _, s => .error (.next s .endInList)
  | fuel + 1, first, s =>
    match skipBlanks s with
    | [] => .error (.next [] .endInList)
    | c :: r =>
      if c = ']' then .ok r
      else if first then
        match item (c :: r) with
        | .error f => .error f
        | .ok r => skipItems item fuel false r
      else if c = ',' then
        match item r with
        | .error f => .error f
        | .ok r => skipItems item fuel false r
      else .error (.next (c :: r) .expectedListEnd)

def skipMember (value : List Char → Except Fault (List Char)) (s : List Char) :
    Except Fault (List Char) :=
  match skipBlanks s with
  | [] => .error (.next [] .endInObject)
  | c :: r =>
    if c = '"' then
      match skipQuoted r with
      | .error f => .error f
      | .ok r => match readColon r with
        | .error f => .error f
        | .ok r => value r
    else .error (.next (c :: r) .keyNotString)

/-- The members of an object and its closing bracket. A comma must be followed by a key. -/
def skipMembers (value : List Char → Except Fault (List Char)) :
    Nat → Bool → List Char → Except Fault (List Char)
  | 0, _, s => .error (.next s .endInObject)
  | fuel + 1, first, s =>
    match skipBlanks s with
    | [] => .error (.next [] .endInObject)
    | c :: r =>
      if c = '\x7d' then .ok r
      else if first then
        match skipMember value (c :: r) with
        | .error f => .error f
        | .ok r => skipMembers value fuel false r
      else if c = ',' then
        match skipMember value r with
        | .error f => .error f
        | .ok r => skipMembers value fuel false r
      else .error (.next (c :: r) .expectedObjectEnd)

def skipLevels : Nat → List Char → Except Fault (List Char)
  | n, s =>
    match skipBlanks s with
    | [] => .error (.next [] .endInValue)
    | c :: r =>
      if c = '[' then
        match n with
        | 0 => .error (.next (c :: r) .endInList)
        | n + 1 => skipItems (skipLevels n) (r.length + 1) true r
      else if c = '\x7b' then
        match n with
        | 0 => .error (.next (c :: r) .endInObject)
        | n + 1 => skipMembers (skipLevels n) (r.length + 1) true r
      else skipScalar c r
termination_by structural n => n

/-- Every level takes a character. -/
def skipValue (s : List Char) : Except Fault (List Char) := skipLevels s.length s

end DocQuery.Json

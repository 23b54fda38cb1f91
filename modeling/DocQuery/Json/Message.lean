import DocQuery.Json.Fault
import DocQuery.Text.Quoted

/-! # The wording of faults -/
namespace DocQuery.Json

def Found.text : Found → String
  | null => "null"
  | bool true => "boolean `true`"
  | bool false => "boolean `false`"
  | number (.integer i l u) => s!"integer `{(Number.integer i l u).text}`"
  | number (.double d) => s!"floating point `{(Number.double d).text}`"
  | string s => s!"string {Text.literal s}"
  | sequence => "sequence"
  | map => "map"

def quotedName (name : String) : String := s!"`{name}`"

def oneOf : List String → String
  | [a] => quotedName a
  | [a, b] => quotedName a ++ " or " ++ quotedName b
  | names => "one of " ++ String.intercalate ", " (names.map quotedName)

def Cause.message : Cause → String
  | endInList => "EOF while parsing a list"
  | endInObject => "EOF while parsing an object"
  | endInString => "EOF while parsing a string"
  | endInValue => "EOF while parsing a value"
  | expectedColon => "expected `:`"
  | expectedListEnd => "expected `,` or `]`"
  | expectedObjectEnd => "expected `,` or `\x7d`"
  | expectedIdent => "expected ident"
  | expectedValue => "expected value"
  | invalidEscape => "invalid escape"
  | invalidNumber => "invalid number"
  | numberOutOfRange => "number out of range"
  | controlCharacter => "control character (\\u0000-\\u001F) found while parsing a string"
  | keyNotString => "key must be a string"
  | loneSurrogate => "lone leading surrogate in hex escape"
  | trailingComma => "trailing comma"
  | trailingCharacters => "trailing characters"
  | unfinishedSurrogate => "unexpected end of hex escape"
  | recursionLimit => "recursion limit exceeded"
  | invalidType found expected => s!"invalid type: {found.text}, expected {expected}"
  | invalidMap expected => s!"invalid value: map, expected {expected}"
  | invalidLength length expected => s!"invalid length {length}, expected {expected}"
  | missingField name => s!"missing field `{name}`"
  | duplicateField name => s!"duplicate field `{name}`"
  | unknownVariant name known => s!"unknown variant `{name}`, expected {oneOf known}"
  | refused reason => reason
  | keyNotFinite => "float key must be finite (got NaN or +/-inf)"

/-- The message of a fault met in `text`: a settled fault names its position. -/
def Fault.message (text : List Char) (f : Fault) : String :=
  match f.place with
  | .open _ => f.cause.message
  | .settled left =>
    let p := Position.ofLeft text left
    s!"{f.cause.message} at line {p.line} column {p.column}"

end DocQuery.Json

import RibMap.Reference.Json.Decimal
import RibMap.Reference.Text.Place
import RibMap.Reference.Text.Quoted

/-! # What can be wrong with a JSON text

A cause says what is wrong, either with the text as JSON or with its value as the thing asked for.
The wording is in `Cause.message` and nowhere else.
-/

namespace RibMap.Json

/-- What stands where something else was asked for. -/
inductive Found where
  | null
  | boolean (value : Bool)
  | integer (value : Int)
  | real (value : Float)
  | text (value : String)
  | sequence
  | mapping
  | bareVariant

inductive Cause where
  | endInValue
  | endInObject
  | endInList
  | endInText
  | expectedValue
  | expectedIdent
  | expectedColon
  | expectedCommaOrBrace
  | expectedCommaOrBracket
  | trailingComma
  | trailingCharacters
  | keyNotText
  | invalidNumber
  | numberOutOfRange
  | invalidEscape
  | endOfHexEscape
  | loneSurrogate
  | controlCharacter
  | missingField (name : String)
  | duplicateField (name : String)
  | unknownVariant (name : String) (known : List String)
  | invalidLength (length : Nat) (wanted : String)
  | invalidType (found : Found) (wanted : String)

/-- The digits and point of a decimal: positional from `1e-5` up to below `1e16`. -/
def decimalText (decimal : Window.Decimal) : String :=
  let digits := Nat.toDigits 10 decimal.digits
  let kept := (digits.reverse.dropWhile (· == '0')).reverse
  let exponent := decimal.exponent + (digits.length - kept.length : Nat)
  let count := (kept.length : Int)
  let point := count + exponent
  let zeros (n : Int) := List.replicate n.toNat '0'
  String.ofList <|
    if 0 ≤ exponent ∧ point ≤ 16 then kept ++ zeros exponent ++ ['.', '0']
    else if 0 < point ∧ point ≤ 16 then
      kept.take point.toNat ++ '.' :: kept.drop point.toNat
    else if -5 < point ∧ point ≤ 0 then '0' :: '.' :: (zeros (-point) ++ kept)
    else
      let sign := if 0 < point then '+' else '-'
      let fraction := if kept.length ≤ 1 then [] else '.' :: kept.drop 1
      kept.take 1 ++ fraction ++ 'e' :: sign :: Nat.toDigits 10 (point - 1).natAbs

/-- A finite double as messages show it; a whole number keeps the fraction `.0`. -/
def realText (x : Float) : String :=
  let sign := if Nat.pow 2 63 ≤ x.toBits.toNat then "-" else ""
  let size := x.toBits.toNat % Nat.pow 2 63
  if size = 0 then sign ++ "0.0" else sign ++ decimalText (Window.ofDouble x).shortest

def Found.describe : Found → String
  | null => "null"
  | boolean value => s!"boolean `{value}`"
  | integer value => s!"integer `{value}`"
  | real value => s!"floating point `{realText value}`"
  | text value => s!"string {quoted value}"
  | sequence => "sequence"
  | mapping => "map"
  | bareVariant => "unit variant"

def Cause.message : Cause → String
  | endInValue => "EOF while parsing a value"
  | endInObject => "EOF while parsing an object"
  | endInList => "EOF while parsing a list"
  | endInText => "EOF while parsing a string"
  | expectedValue => "expected value"
  | expectedIdent => "expected ident"
  | expectedColon => "expected `:`"
  | expectedCommaOrBrace => "expected `,` or `\x7d`"
  | expectedCommaOrBracket => "expected `,` or `]`"
  | trailingComma => "trailing comma"
  | trailingCharacters => "trailing characters"
  | keyNotText => "key must be a string"
  | invalidNumber => "invalid number"
  | numberOutOfRange => "number out of range"
  | invalidEscape => "invalid escape"
  | endOfHexEscape => "unexpected end of hex escape"
  | loneSurrogate => "lone leading surrogate in hex escape"
  | controlCharacter => "control character (\\u0000-\\u001F) found while parsing a string"
  | missingField name => s!"missing field `{name}`"
  | duplicateField name => s!"duplicate field `{name}`"
  | unknownVariant name known =>
    let names := String.intercalate ", " (known.map fun variant => s!"`{variant}`")
    s!"unknown variant `{name}`, expected one of {names}"
  | invalidLength length wanted => s!"invalid length {length}, expected {wanted}"
  | invalidType found wanted => s!"invalid type: {found.describe}, expected {wanted}"

/-- A cause and the place in the text to which reading had come. -/
structure Error where
  cause : Cause
  place : Place

def Error.message (error : Error) : String :=
  s!"{error.cause.message} at line {error.place.line} column {error.place.column}"

/-- A failure of a reader, which does not know the whole text.

A placed failure counts the bytes not yet read. A floating one is about a whole list or object and
gets its place from the reader of the closing bracket, which goes on from `rest`. -/
inductive Fault where
  | placed (cause : Cause) (unread : Nat)
  | floating (cause : Cause) (rest : List Char)

/-- A failure with everything before `rest` read. -/
def Fault.at (cause : Cause) (rest : List Char) : Fault :=
  .placed cause (byteLength rest)

/-- A failure about the next byte of `rest`, which counts as read; at the end there is none. -/
def Fault.on (cause : Cause) (rest : List Char) : Fault :=
  .placed cause (byteLength rest - 1)

/-- Name the place of a failure within the whole text. -/
def Fault.locate (text : List Char) : Fault → Error
  | placed cause unread => ⟨cause, Place.after (byteLength text - unread) text⟩
  | floating cause rest => ⟨cause, Place.after (byteLength text - byteLength rest) text⟩

end RibMap.Json

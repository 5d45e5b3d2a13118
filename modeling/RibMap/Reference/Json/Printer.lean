import RibMap.Json.Value

/-! # Writing JSON

A value has a compact spelling on one line and an indented one with an item or member to a line.
Both escape texts in the same way: quotes, backslashes and control characters, and nothing else.
-/

namespace RibMap.Json

def hexDigit (n : Nat) : Char :=
  Nat.digitChar n

/-- A character as it stands in a written text. -/
def escapedChar (c : Char) : List Char :=
  if c = '"' then ['\\', '"']
  else if c = '\\' then ['\\', '\\']
  else if c = '\n' then ['\\', 'n']
  else if c = '\r' then ['\\', 'r']
  else if c = '\t' then ['\\', 't']
  else if c.toNat = 8 then ['\\', 'b']
  else if c.toNat = 12 then ['\\', 'f']
  else if c.toNat < 0x20 then
    ['\\', 'u', '0', '0', hexDigit (c.toNat / 16), hexDigit (c.toNat % 16)]
  else [c]

def writtenText (value : String) : List Char :=
  '"' :: (value.toList.flatMap escapedChar ++ ['"'])

mutual

/-- The spelling of a value without any blanks. -/
def compact : Json → List Char
  | null => "null".toList
  | boolean true => "true".toList
  | boolean false => "false".toList
  | number spelling => spelling.toList
  | string value => writtenText value
  | array items => '[' :: (compactItems items ++ [']'])
  | object members => '\x7b' :: (compactMembers members ++ ['\x7d'])

def compactItems : List Json → List Char
  | [] => []
  | [item] => compact item
  | item :: items => compact item ++ ',' :: compactItems items

def compactMembers : List (String × Json) → List Char
  | [] => []
  | [(key, value)] => writtenText key ++ ':' :: compact value
  | (key, value) :: members =>
    writtenText key ++ ':' :: (compact value ++ ',' :: compactMembers members)

end

/-- A line feed and the indentation of a nesting depth, two blanks for each level. -/
def lineBreak (depth : Nat) : List Char :=
  '\n' :: List.replicate (2 * depth) ' '

mutual

/-- The spelling of a value with every item and member on a line of its own. -/
def indented (depth : Nat) : Json → List Char
  | array [] => ['[', ']']
  | array items =>
    '[' :: (indentedItems (depth + 1) items ++ lineBreak depth ++ [']'])
  | object [] => ['\x7b', '\x7d']
  | object members =>
    '\x7b' :: (indentedMembers (depth + 1) members ++ lineBreak depth ++ ['\x7d'])
  | null => "null".toList
  | boolean true => "true".toList
  | boolean false => "false".toList
  | number spelling => spelling.toList
  | string value => writtenText value

/-- Items at a nesting depth, each after a line break. -/
def indentedItems (depth : Nat) : List Json → List Char
  | [] => []
  | [item] => lineBreak depth ++ indented depth item
  | item :: items => lineBreak depth ++ indented depth item ++ ',' :: indentedItems depth items

/-- Members at a nesting depth, each after a line break. -/
def indentedMembers (depth : Nat) : List (String × Json) → List Char
  | [] => []
  | [(key, value)] => lineBreak depth ++ writtenText key ++ ':' :: ' ' :: indented depth value
  | (key, value) :: members =>
    lineBreak depth ++ writtenText key ++
      ':' :: ' ' :: (indented depth value ++ ',' :: indentedMembers depth members)

end

def render (value : Json) : String :=
  String.ofList value.compact

def renderIndented (value : Json) : String :=
  String.ofList (value.indented 0)

end RibMap.Json

import RibMap.Reference.Json.Skip

/-! # Reading values of known shape

Readers for texts, optional values, lists and records with named fields. A record may be written as
an object, whose unknown fields are skipped, or as a list of its fields in order.

A failure about a whole list or object floats until its closing bracket has been looked for, so
that a missing field is reported behind the bracket; see `closeWith`.
-/

namespace RibMap.Json

/-- A reader of one value, which always takes something from the text. -/
structure Reader (α : Type) where
  read : List Char → Reading α
  shorter : ∀ {text rest : List Char} {value : α}, read text = .ok (value, rest) →
    rest.length < text.length

/-- The failure when a value has another shape than the wanted one. A scalar is read first. -/
def mismatch (wanted : String) (text : List Char) : Fault :=
  let found (found : Found) (rest : List Char) : Fault := .at (.invalidType found wanted) rest
  let word (rest expected : List Char) (value : Found) : Fault :=
    match readWord expected rest with
    | .error fault => fault
    | .ok left => found value left
  let number (positive : Bool) (rest : List Char) : Fault :=
    match readNumber positive rest with
    | .error fault => fault
    | .ok (value, left) => found value left
  match text with
  | [] => .on .endInValue []
  | c :: rest =>
    if c = 'n' then word rest ['u', 'l', 'l'] .null
    else if c = 't' then word rest ['r', 'u', 'e'] (.boolean true)
    else if c = 'f' then word rest ['a', 'l', 's', 'e'] (.boolean false)
    else if c = '-' then number false rest
    else if (digitValue? c).isSome then number true (c :: rest)
    else if c = '"' then
      match readText [] rest with
      | .error fault => fault
      | .ok (value, left) => found (.text value) left
    else if c = '[' then found .sequence (c :: rest)
    else if c = '\x7b' then found .mapping (c :: rest)
    else .on .expectedValue (c :: rest)

/-- Read a text, or say what was wanted instead. -/
def readTextAs (wanted : String) (text : List Char) : Reading String :=
  match skipLayout text with
  | '"' :: rest => readText [] rest
  | rest => .error (mismatch wanted rest)

theorem length_readTextAs {wanted value : String} {text rest : List Char}
    (read : readTextAs wanted text = .ok (value, rest)) : rest.length < text.length := by
  have layout := length_skipLayout text
  unfold readTextAs at read
  split at read
  · rename_i shape
    simp only [shape, List.length_cons] at layout
    have := length_readText read
    omega
  · cases read

def textReader : Reader String where
  read := readTextAs "a string"
  shorter := length_readTextAs

/-- Read `null` or a value. -/
def Reader.optional (reader : Reader α) : Reader (Option α) where
  read text :=
    match skipLayout text with
    | 'n' :: rest =>
      match readWord ['u', 'l', 'l'] rest with
      | .error fault => .error fault
      | .ok left => .ok (none, left)
    | rest =>
      match reader.read rest with
      | .error fault => .error fault
      | .ok (value, left) => .ok (some value, left)
  shorter := by
    intro text rest value read
    have layout := length_skipLayout text
    split at read
    · rename_i shape
      simp only [shape, List.length_cons] at layout
      split at read
      · cases read
      · rename_i word
        cases read
        have := length_readWord word
        omega
    · split at read
      · cases read
      · rename_i found
        cases read
        have := reader.shorter found
        omega

def readNull (text : List Char) : Except Fault (List Char) :=
  match skipLayout text with
  | 'n' :: rest => readWord ['u', 'l', 'l'] rest
  | rest => .error (mismatch "unit" rest)

/-- Go to the next item of a list; nothing if the list ends here. -/
def nextItem (first : Bool) (text : List Char) : Except Fault (Option (List Char)) :=
  match skipLayout text with
  | [] => .error (.on .endInList [])
  | c :: rest =>
    if c = ']' then .ok none
    else if first then .ok (some (c :: rest))
    else if c = ',' then
      match skipLayout rest with
      | [] => .error (.on .endInValue [])
      | d :: left =>
        if d = ']' then .error (.on .trailingComma (d :: left)) else .ok (some (d :: left))
    else .error (.on .expectedCommaOrBracket (c :: rest))

theorem length_nextItem {first : Bool} {text rest : List Char}
    (next : nextItem first text = .ok (some rest)) : rest.length ≤ text.length := by
  unfold nextItem at next
  have layout := length_skipLayout text
  split at next
  · cases next
  · rename_i c left shape
    simp only [shape, List.length_cons] at layout
    split at next
    · cases next
    split at next
    · cases next
      simp only [List.length_cons]
      omega
    split at next
    · have inner := length_skipLayout left
      split at next
      · cases next
      · rename_i d more innerShape
        simp only [innerShape, List.length_cons] at inner
        split at next
        · cases next
        · cases next
          simp only [List.length_cons]
          omega
    · cases next

/-- Go to the next key of an object, behind its quote; nothing if the object ends here. -/
def nextKey (first : Bool) (text : List Char) : Except Fault (Option (List Char)) :=
  match skipLayout text with
  | [] => .error (.on .endInObject [])
  | c :: rest =>
    if c = '\x7d' then .ok none
    else if first then
      if c = '"' then .ok (some rest) else .error (.on .keyNotText (c :: rest))
    else if c = ',' then
      match skipLayout rest with
      | [] => .error (.on .endInValue [])
      | d :: left =>
        if d = '"' then .ok (some left)
        else if d = '\x7d' then .error (.on .trailingComma (d :: left))
        else .error (.on .keyNotText (d :: left))
    else .error (.on .expectedCommaOrBrace (c :: rest))

theorem length_nextKey {first : Bool} {text rest : List Char}
    (next : nextKey first text = .ok (some rest)) : rest.length < text.length := by
  unfold nextKey at next
  have layout := length_skipLayout text
  split at next
  · cases next
  · rename_i c left shape
    simp only [shape, List.length_cons] at layout
    split at next
    · cases next
    split at next
    · split at next
      · cases next
        omega
      · cases next
    split at next
    · have inner := length_skipLayout left
      split at next
      · cases next
      · rename_i d more innerShape
        simp only [innerShape, List.length_cons] at inner
        split at next
        · cases next
          omega
        split at next
        · cases next
        · cases next
    · cases next

/-- Where looking for a closing bracket ends, and what is wrong if it is not there. -/
abbrev Closing := List Char × Option Cause

/-- Look for the end of a list whose wanted items have been read. -/
def closeList (text : List Char) : Closing :=
  match skipLayout text with
  | [] => ([], some .endInList)
  | c :: rest =>
    if c = ']' then (rest, none)
    else if c = ',' then
      match skipLayout rest with
      | [] => ([], some .trailingCharacters)
      | d :: left =>
        (d :: left, some (if d = ']' then .trailingComma else .trailingCharacters))
    else (c :: rest, some .trailingCharacters)

/-- Look for the end of an object whose members have been read. -/
def closeObject (text : List Char) : Closing :=
  match skipLayout text with
  | [] => ([], some .endInObject)
  | c :: rest =>
    if c = '\x7d' then (rest, none)
    else (c :: rest, some (if c = ',' then .trailingComma else .trailingCharacters))

/-- End a list or an object; a failure about the whole of it gets its place here. -/
def closeWith (close : List Char → Closing) : Reading α → Reading α
  | .ok (value, text) =>
    match close text with
    | (rest, none) => .ok (value, rest)
    | (rest, some cause) => .error (.on cause rest)
  | .error (.floating cause text) => .error (.at cause (close text).1)
  | .error (.placed cause unread) => .error (.placed cause unread)

theorem length_closeList (text : List Char) : (closeList text).1.length ≤ text.length := by
  have layout := length_skipLayout text
  unfold closeList
  split
  · exact Nat.zero_le _
  · rename_i c rest shape
    simp only [shape, List.length_cons] at layout
    split
    · exact Nat.le_of_succ_le layout
    split
    · have inner := length_skipLayout rest
      split
      · exact Nat.zero_le _
      · rename_i d left innerShape
        simp only [innerShape, List.length_cons] at inner
        simp only [List.length_cons]
        omega
    · simpa using layout

theorem length_closeObject (text : List Char) : (closeObject text).1.length ≤ text.length := by
  have layout := length_skipLayout text
  unfold closeObject
  split
  · exact Nat.zero_le _
  · rename_i c rest shape
    simp only [shape, List.length_cons] at layout
    split
    · exact Nat.le_of_succ_le layout
    · simpa using layout

theorem closeWith_eq_ok {close : List Char → Closing} {reading : Reading α} {value : α}
    {rest : List Char} (closed : closeWith close reading = .ok (value, rest)) :
    ∃ text, reading = .ok (value, text) ∧ rest = (close text).1 := by
  unfold closeWith at closed
  split at closed
  · rename_i text
    split at closed
    · rename_i found
      cases closed
      exact ⟨text, rfl, by rw [found]⟩
    · cases closed
  · cases closed
  · cases closed

/-- Read items up to the closing bracket, which is left over. -/
def readItems (item : Reader α) (first : Bool) (text : List Char) : Reading (List α) :=
  match _next : nextItem first text with
  | .error fault => .error fault
  | .ok none => .ok ([], text)
  | .ok (some start) =>
    match _read : item.read start with
    | .error fault => .error fault
    | .ok (value, rest) =>
      match readItems item false rest with
      | .error fault => .error fault
      | .ok (values, left) => .ok (value :: values, left)
termination_by text.length
decreasing_by exact Nat.lt_of_lt_of_le (item.shorter _read) (length_nextItem _next)

theorem length_readItems {item : Reader α} {first : Bool} {text rest : List Char}
    {values : List α} :
    readItems item first text = .ok (values, rest) → rest.length ≤ text.length := by
  fun_induction readItems item first text generalizing values with
  | case1 => simp
  | case2 =>
    intro read
    cases read
    exact Nat.le_refl _
  | case3 => simp
  | case4 => simp
  | case5 first text start next value left found values' left' more ih =>
    intro read
    cases read
    have := ih more
    have := item.shorter found
    have := length_nextItem next
    omega

def Reader.list (item : Reader α) : Reader (List α) where
  read text :=
    match skipLayout text with
    | '[' :: rest => closeWith closeList (readItems item true rest)
    | rest => .error (mismatch "a sequence" rest)
  shorter := by
    intro text rest values read
    have layout := length_skipLayout text
    split at read
    · rename_i shape
      simp only [shape, List.length_cons] at layout
      obtain ⟨left, items, rfl⟩ := closeWith_eq_ok read
      have := length_readItems items
      have := length_closeList left
      omega
    · cases read

/-- What to do with a member: the fields read so far, the key, and the text behind the key. -/
structure FieldReader (σ : Type) where
  read : σ → String → List Char → Reading σ
  noLonger : ∀ {fields fields' : σ} {key : String} {text rest : List Char},
    read fields key text = .ok (fields', rest) → rest.length ≤ text.length

/-- Read members up to the closing bracket, which is left over. -/
def readMembers (member : FieldReader σ) (fields : σ) (first : Bool) (text : List Char) :
    Reading σ :=
  match _next : nextKey first text with
  | .error fault => .error fault
  | .ok none => .ok (fields, text)
  | .ok (some start) =>
    match _key : readText [] start with
    | .error fault => .error fault
    | .ok (key, value) =>
      match _read : member.read fields key value with
      | .error fault => .error fault
      | .ok (fields', rest) => readMembers member fields' false rest
termination_by text.length
decreasing_by
  have := length_nextKey _next
  have := length_readText _key
  have := member.noLonger _read
  omega

theorem length_readMembers {member : FieldReader σ} {fields fields' : σ} {first : Bool}
    {text rest : List Char} :
    readMembers member fields first text = .ok (fields', rest) → rest.length ≤ text.length := by
  fun_induction readMembers member fields first text with
  | case1 => simp
  | case2 =>
    intro read
    cases read
    exact Nat.le_refl _
  | case3 => simp
  | case4 => simp
  | case5 fields first text start next key value keyRead fields'' left found ih =>
    intro read
    have := ih read
    have := length_nextKey next
    have := length_readText keyRead
    have := member.noLonger found
    omega

/-- Read the value of a field behind its key; a field given twice is refused there. -/
def readField (name : String) (known : Option α) (reader : Reader α) (text : List Char) :
    Reading α :=
  match known with
  | some _ => .error (.floating (.duplicateField name) text)
  | none =>
    match readColon text with
    | .error fault => .error fault
    | .ok rest => reader.read rest

theorem length_readField {name : String} {known : Option α} {reader : Reader α}
    {text rest : List Char} {value : α}
    (read : readField name known reader text = .ok (value, rest)) :
    rest.length ≤ text.length := by
  unfold readField at read
  split at read
  · cases read
  · split at read
    · cases read
    · rename_i colon
      have := length_readColon colon
      have := reader.shorter read
      omega

/-- Skip the value of an unknown field behind its key. -/
def skipField (text : List Char) : Except Fault (List Char) :=
  match readColon text with
  | .error fault => .error fault
  | .ok rest => skipValue rest

theorem length_skipField {text rest : List Char} (skip : skipField text = .ok rest) :
    rest.length ≤ text.length := by
  unfold skipField at skip
  split at skip
  · cases skip
  · rename_i colon
    have := length_readColon colon
    have : rest.length ≤ _ := length_skipFrom skip
    omega

/-- Read the value of a field and store it. -/
def storeField (name : String) (known : Option α) (reader : Reader α) (store : α → σ)
    (text : List Char) : Reading σ :=
  match readField name known reader text with
  | .error fault => .error fault
  | .ok (value, rest) => .ok (store value, rest)

/-- Skip the value of an unknown field, keeping the fields as they are. -/
def ignoreField (fields : σ) (text : List Char) : Reading σ :=
  match skipField text with
  | .error fault => .error fault
  | .ok rest => .ok (fields, rest)

theorem length_storeField {name : String} {known : Option α} {reader : Reader α} {store : α → σ}
    {text rest : List Char} {fields : σ}
    (read : storeField name known reader store text = .ok (fields, rest)) :
    rest.length ≤ text.length := by
  unfold storeField at read
  split at read
  · cases read
  · rename_i found
    cases read
    exact length_readField found

theorem length_ignoreField {text rest : List Char} {fields kept : σ}
    (read : ignoreField fields text = .ok (kept, rest)) : rest.length ≤ text.length := by
  unfold ignoreField at read
  split at read
  · cases read
  · rename_i found
    cases read
    exact length_skipField found

/-- Read the next field of a record that is written as a list; nothing if the list ends before. -/
def readPosition (first : Bool) (reader : Reader α) (text : List Char) : Reading (Option α) :=
  match nextItem first text with
  | .error fault => .error fault
  | .ok none => .ok (none, text)
  | .ok (some start) =>
    match reader.read start with
    | .error fault => .error fault
    | .ok (value, rest) => .ok (some value, rest)

theorem length_readPosition {first : Bool} {reader : Reader α} {text rest : List Char}
    {value : Option α} (read : readPosition first reader text = .ok (value, rest)) :
    rest.length ≤ text.length := by
  unfold readPosition at read
  split at read
  · cases read
  · cases read
    exact Nat.le_refl _
  · rename_i next
    split at read
    · cases read
    · rename_i found
      cases read
      have := length_nextItem next
      have := reader.shorter found
      omega

/-- How a record is read, behind its opening bracket, in either of its written forms. -/
structure RecordShape (α : Type) where
  name : String
  ofList : List Char → Reading α
  ofObject : List Char → Reading α
  ofList_noLonger : ∀ {text rest : List Char} {value : α}, ofList text = .ok (value, rest) →
    rest.length ≤ text.length
  ofObject_noLonger : ∀ {text rest : List Char} {value : α}, ofObject text = .ok (value, rest) →
    rest.length ≤ text.length

def RecordShape.reader (shape : RecordShape α) : Reader α where
  read text :=
    match skipLayout text with
    | '[' :: rest => closeWith closeList (shape.ofList rest)
    | '\x7b' :: rest => closeWith closeObject (shape.ofObject rest)
    | rest => .error (mismatch s!"struct {shape.name}" rest)
  shorter := by
    intro text rest value read
    have layout := length_skipLayout text
    split at read
    · rename_i found
      simp only [found, List.length_cons] at layout
      obtain ⟨left, items, rfl⟩ := closeWith_eq_ok read
      have := shape.ofList_noLonger items
      have := length_closeList left
      omega
    · rename_i found
      simp only [found, List.length_cons] at layout
      obtain ⟨left, members, rfl⟩ := closeWith_eq_ok read
      have := shape.ofObject_noLonger members
      have := length_closeObject left
      omega
    · cases read

/-- Read a whole text as one value with nothing but blanks behind it. -/
def Reader.parse (reader : Reader α) (text : String) : Except Error α :=
  match reader.read text.toList with
  | .error fault => .error (fault.locate text.toList)
  | .ok (value, rest) =>
    match skipLayout rest with
    | [] => .ok value
    | left => .error ((Fault.on .trailingCharacters left).locate text.toList)

end RibMap.Json

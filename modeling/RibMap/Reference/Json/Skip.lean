import RibMap.Reference.Json.Number

/-! # Skipping values of no interest

Skipping checks that a value is well formed and keeps nothing of it but the brackets still open, so
values may be nested to any depth. Every step takes a character of the text or turns from the place
behind an opening bracket to the value there, which is why skipping ends.
-/

namespace RibMap.Json

/-- What an opening bracket opens. -/
inductive Bracket where
  | list
  | object
  deriving DecidableEq, Repr

/-- The bracket that ends what was opened. -/
def Bracket.closing : Bracket → Char
  | list => ']'
  | object => '\x7d'

/-- The failure when the text ends between brackets. -/
def Bracket.endCause : Bracket → Cause
  | list => .endInList
  | object => .endInObject

/-- The failure when something else follows an item or a member. -/
def Bracket.separatorCause : Bracket → Cause
  | list => .expectedCommaOrBracket
  | object => .expectedCommaOrBrace

def readColon (text : List Char) : Except Fault (List Char) :=
  match skipLayout text with
  | [] => .error (.on .endInObject [])
  | c :: rest => if c = ':' then .ok rest else .error (.on .expectedColon (c :: rest))

/-- Skip a scalar, or an opening bracket, which is then named. -/
def skipHead (text : List Char) : Except Fault (Option Bracket × List Char) :=
  match skipLayout text with
  | [] => .error (.on .endInValue [])
  | c :: rest =>
    if c = 'n' then (readWord ['u', 'l', 'l'] rest).map (none, ·)
    else if c = 't' then (readWord ['r', 'u', 'e'] rest).map (none, ·)
    else if c = 'f' then (readWord ['a', 'l', 's', 'e'] rest).map (none, ·)
    else if c = '-' then (skipNumber rest).map (none, ·)
    else if (digitValue? c).isSome then (skipNumber (c :: rest)).map (none, ·)
    else if c = '"' then (skipText rest).map (none, ·)
    else if c = '[' then .ok (some .list, rest)
    else if c = '\x7b' then .ok (some .object, rest)
    else .error (.on .expectedValue (c :: rest))

/-- Go to the value of an item or member; the key of a member is skipped. -/
def skipToValue (bracket : Bracket) (text : List Char) : Except Fault (List Char) :=
  match bracket with
  | .list => .ok text
  | .object =>
    match skipLayout text with
    | [] => .error (.on .endInObject [])
    | c :: rest =>
      if c = '"' then
        match skipText rest with
        | .error fault => .error fault
        | .ok left => readColon left
      else .error (.on .keyNotText (c :: rest))

/-- Where skipping goes on. -/
inductive Next where
  /-- The innermost bracket was closed. -/
  | closed (rest : List Char)
  /-- A value follows. -/
  | value (rest : List Char)

/-- Go on behind an opening bracket. -/
def skipOpening (bracket : Bracket) (text : List Char) : Except Fault Next :=
  match skipLayout text with
  | [] => .error (.on bracket.endCause [])
  | c :: rest =>
    if c = bracket.closing then .ok (.closed rest)
    else (skipToValue bracket (c :: rest)).map .value

/-- Go on behind a value between brackets. -/
def skipSeparator (bracket : Bracket) (text : List Char) : Except Fault Next :=
  match skipLayout text with
  | [] => .error (.on bracket.endCause [])
  | c :: rest =>
    if c = ',' then (skipToValue bracket rest).map .value
    else if c = bracket.closing then .ok (.closed rest)
    else .error (.on bracket.separatorCause (c :: rest))

theorem length_skipLayout (text : List Char) : (skipLayout text).length ≤ text.length :=
  (List.dropWhile_sublist _).length_le

theorem length_readWord {word text rest : List Char} (read : readWord word text = .ok rest) :
    rest.length ≤ text.length := by
  induction word generalizing text with
  | nil =>
    simp only [readWord, Except.ok.injEq] at read
    simp [read]
  | cons expected more ih =>
    cases text with
    | nil => simp [readWord] at read
    | cons c left =>
      simp only [readWord] at read
      split at read
      · have := ih read
        simp only [List.length_cons]
        omega
      · cases read

theorem length_readColon {text rest : List Char} (read : readColon text = .ok rest) :
    rest.length < text.length := by
  unfold readColon at read
  have layout := length_skipLayout text
  split at read
  · cases read
  · rename_i c left shape
    split at read
    · cases read
      simp only [shape, List.length_cons] at layout
      omega
    · cases read

theorem length_skipHead {text rest : List Char} {bracket : Option Bracket}
    (skip : skipHead text = .ok (bracket, rest)) : rest.length < text.length := by
  unfold skipHead at skip
  have layout := length_skipLayout text
  split at skip
  · cases skip
  · rename_i c left shape
    simp only [shape, List.length_cons] at layout
    have word (word : List Char)
        (found : (readWord word left).map (Prod.mk (none : Option Bracket)) = .ok (bracket, rest)) :
        rest.length < text.length := by
      cases read : readWord word left with
      | error fault => simp [read, Except.map] at found
      | ok more =>
        simp only [read, Except.map, Except.ok.injEq, Prod.mk.injEq] at found
        have := length_readWord read
        rw [← found.2]
        omega
    have number (start : List Char) (bound : start.length ≤ left.length + 1)
        (found : (skipNumber start).map (Prod.mk (none : Option Bracket)) = .ok (bracket, rest)) :
        rest.length < text.length := by
      cases read : skipNumber start with
      | error fault => simp [read, Except.map] at found
      | ok more =>
        simp only [read, Except.map, Except.ok.injEq, Prod.mk.injEq] at found
        have := length_skipNumber read
        rw [← found.2]
        omega
    split at skip
    · exact word _ skip
    split at skip
    · exact word _ skip
    split at skip
    · exact word _ skip
    split at skip
    · exact number _ (by omega) skip
    split at skip
    · exact number _ (by simp) skip
    split at skip
    · cases read : skipText left with
      | error fault => simp [read, Except.map] at skip
      | ok more =>
        simp only [read, Except.map, Except.ok.injEq, Prod.mk.injEq] at skip
        have := length_skipText read
        rw [← skip.2]
        omega
    split at skip
    · cases skip
      omega
    split at skip
    · cases skip
      omega
    · cases skip

theorem length_skipToValue {bracket : Bracket} {text rest : List Char}
    (skip : skipToValue bracket text = .ok rest) : rest.length ≤ text.length := by
  unfold skipToValue at skip
  have layout := length_skipLayout text
  split at skip
  · cases skip
    exact Nat.le_refl _
  · split at skip
    · cases skip
    · rename_i c left shape
      simp only [shape, List.length_cons] at layout
      split at skip
      · split at skip
        · cases skip
        · rename_i read
          have := length_skipText read
          have := length_readColon skip
          omega
      · cases skip

theorem length_skipOpening_closed {bracket : Bracket} {text rest : List Char}
    (skip : skipOpening bracket text = .ok (.closed rest)) : rest.length < text.length := by
  unfold skipOpening at skip
  have layout := length_skipLayout text
  split at skip
  · cases skip
  · rename_i c left shape
    simp only [shape, List.length_cons] at layout
    split at skip
    · cases skip
      omega
    · cases read : skipToValue bracket (c :: left) <;> simp [read, Except.map] at skip

theorem length_skipOpening_value {bracket : Bracket} {text rest : List Char}
    (skip : skipOpening bracket text = .ok (.value rest)) : rest.length ≤ text.length := by
  unfold skipOpening at skip
  have layout := length_skipLayout text
  split at skip
  · cases skip
  · rename_i c left shape
    simp only [shape, List.length_cons] at layout
    split at skip
    · cases skip
    · cases read : skipToValue bracket (c :: left) with
      | error fault => simp [read, Except.map] at skip
      | ok more =>
        simp only [read, Except.map, Except.ok.injEq, Next.value.injEq] at skip
        have := length_skipToValue read
        simp only [List.length_cons] at this
        rw [← skip]
        omega

theorem length_skipSeparator {bracket : Bracket} {text rest : List Char} {next : Next}
    (skip : skipSeparator bracket text = .ok next)
    (goesOn : next = .closed rest ∨ next = .value rest) : rest.length < text.length := by
  unfold skipSeparator at skip
  have layout := length_skipLayout text
  split at skip
  · cases skip
  · rename_i c left shape
    simp only [shape, List.length_cons] at layout
    split at skip
    · cases read : skipToValue bracket left with
      | error fault => simp [read, Except.map] at skip
      | ok more =>
        simp only [read, Except.map, Except.ok.injEq] at skip
        have := length_skipToValue read
        subst skip
        rcases goesOn with goesOn | goesOn <;> cases goesOn
        omega
    · split at skip
      · cases skip
        rcases goesOn with goesOn | goesOn <;> cases goesOn
        omega
      · cases skip

/-- A spot in a value that is being skipped. -/
inductive Spot where
  | value
  | opened (bracket : Bracket)
  | after

/-- Skip from a spot to the end of the outermost value; the brackets open there come innermost
first. -/
def skipFrom : Spot → List Bracket → List Char → Except Fault (List Char)
  | .value, around, text =>
    match _skip : skipHead text with
    | .error fault => .error fault
    | .ok (none, rest) => skipFrom .after around rest
    | .ok (some bracket, rest) => skipFrom (.opened bracket) around rest
  | .opened bracket, around, text =>
    match _skip : skipOpening bracket text with
    | .error fault => .error fault
    | .ok (.closed rest) => skipFrom .after around rest
    | .ok (.value rest) => skipFrom .value (bracket :: around) rest
  | .after, [], text => .ok text
  | .after, bracket :: around, text =>
    match _skip : skipSeparator bracket text with
    | .error fault => .error fault
    | .ok (.closed rest) => skipFrom .after around rest
    | .ok (.value rest) => skipFrom .value (bracket :: around) rest
termination_by spot _ text => (text.length, match spot with | .opened _ => 1 | _ => 0)
decreasing_by
  · exact Prod.Lex.left _ _ (length_skipHead _skip)
  · exact Prod.Lex.left _ _ (length_skipHead _skip)
  · exact Prod.Lex.left _ _ (length_skipOpening_closed _skip)
  · rcases Nat.lt_or_eq_of_le (length_skipOpening_value _skip) with shorter | same
    · exact Prod.Lex.left _ _ shorter
    · rw [same]
      exact Prod.Lex.right _ Nat.zero_lt_one
  · exact Prod.Lex.left _ _ (length_skipSeparator _skip (.inl rfl))
  · exact Prod.Lex.left _ _ (length_skipSeparator _skip (.inr rfl))

/-- Skip one value of any kind. -/
def skipValue (text : List Char) : Except Fault (List Char) :=
  skipFrom .value [] text

theorem length_skipFrom {spot : Spot} {around : List Bracket} {text rest : List Char}
    (skip : skipFrom spot around text = .ok rest) : rest.length ≤ text.length := by
  induction spot, around, text using skipFrom.induct with
  | case1 around text fault head =>
    rw [skipFrom, head] at skip
    cases skip
  | case2 around text left head ih =>
    rw [skipFrom, head] at skip
    have := ih skip
    have := length_skipHead head
    omega
  | case3 around text bracket left head ih =>
    rw [skipFrom, head] at skip
    have := ih skip
    have := length_skipHead head
    omega
  | case4 around text bracket fault opening =>
    rw [skipFrom, opening] at skip
    cases skip
  | case5 around text bracket left opening ih =>
    rw [skipFrom, opening] at skip
    have := ih skip
    have := length_skipOpening_closed opening
    omega
  | case6 around text bracket left opening ih =>
    rw [skipFrom, opening] at skip
    have := ih skip
    have := length_skipOpening_value opening
    omega
  | case7 text =>
    rw [skipFrom] at skip
    cases skip
    exact Nat.le_refl _
  | case8 text bracket around fault separator =>
    rw [skipFrom, separator] at skip
    cases skip
  | case9 text bracket around left separator ih =>
    rw [skipFrom, separator] at skip
    have := ih skip
    have := length_skipSeparator separator (.inl rfl)
    omega
  | case10 text bracket around left separator ih =>
    rw [skipFrom, separator] at skip
    have := ih skip
    have := length_skipSeparator separator (.inr rfl)
    omega

end RibMap.Json

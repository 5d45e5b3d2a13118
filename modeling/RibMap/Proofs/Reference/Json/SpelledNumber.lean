import RibMap.Reference.Json.Number
import RibMap.Proofs.Json.Spelling

/-! # Skipping spelled numbers

A number is skipped up to its last character, provided that what follows cannot be taken for more of
it. Nothing that may follow a value can.
-/

namespace RibMap.Json

/-- A text that may follow a value: the end, a blank, a comma or a closing bracket. -/
def FollowsValue (rest : List Char) : Prop :=
  ∀ c ∈ rest.head?, c ∈ [' ', '\n', '\t', '\r', ',', ']', '\x7d']

theorem isSome_digitValue? (c : Char) : (digitValue? c).isSome = c.isDigit := by
  rw [digitValue?_eq]
  cases c.isDigit <;> rfl

theorem startsWithDigit_cons (c : Char) (rest : List Char) :
    startsWithDigit (c :: rest) = c.isDigit :=
  isSome_digitValue? c

/-- No digit, point or exponent can follow a value. -/
theorem FollowsValue.cases {rest : List Char} (follows : FollowsValue rest) :
    rest = [] ∨ ∃ c left, rest = c :: left ∧ c.isDigit = false ∧ c ≠ '.' ∧ c ≠ 'e' ∧ c ≠ 'E' := by
  cases rest with
  | nil => exact .inl rfl
  | cons c left =>
    have mem := follows c rfl
    simp only [List.mem_cons, List.not_mem_nil, or_false] at mem
    refine .inr ⟨c, left, rfl, ?_⟩
    rcases mem with rfl | rfl | rfl | rfl | rfl | rfl | rfl <;> decide

/-- Digits are dropped up to something that is none. -/
theorem dropDigits_append {digits rest : List Char} (all : ∀ c ∈ digits, c.isDigit = true)
    (noDigit : startsWithDigit rest = false) : dropDigits (digits ++ rest) = rest := by
  have isDigit : ∀ c ∈ digits, (digitValue? c).isSome = true := by
    intro c mem
    rw [isSome_digitValue?, all c mem]
  rw [dropDigits, List.dropWhile_append_of_pos isDigit]
  cases rest with
  | nil => rfl
  | cons c rest => exact List.dropWhile_cons_of_neg (Bool.eq_false_iff.mp noDigit)

theorem Digits.startsWithDigit_append {digits : List Char} (spelled : Digits digits)
    (rest : List Char) : startsWithDigit (digits ++ rest) = true := by
  obtain ⟨proper, all⟩ := spelled
  obtain ⟨c, more, rfl⟩ := List.exists_cons_of_ne_nil proper
  rw [List.cons_append, startsWithDigit_cons, all c List.mem_cons_self]

theorem FollowsValue.startsWithDigit {rest : List Char} (follows : FollowsValue rest) :
    startsWithDigit rest = false := by
  rcases follows.cases with rfl | ⟨c, left, rfl, noDigit, -⟩
  · rfl
  · rw [startsWithDigit_cons, noDigit]

theorem skipExponent_of_digits {sign digits rest : List Char} (signed : sign ∈ [[], ['+'], ['-']])
    (spelled : Digits digits) (follows : FollowsValue rest) :
    skipExponent (sign ++ (digits ++ rest)) = .ok rest := by
  have unsigned : dropSign (sign ++ (digits ++ rest)) = digits ++ rest := by
    simp only [List.mem_cons, List.not_mem_nil, or_false] at signed
    rcases signed with rfl | rfl | rfl
    · obtain ⟨c, more, rfl⟩ := List.exists_cons_of_ne_nil spelled.1
      have digit := spelled.2 c List.mem_cons_self
      rw [List.nil_append, List.cons_append]
      unfold dropSign
      split
      · rename_i same
        cases same
        contradiction
      · rename_i same
        cases same
        contradiction
      · rfl
    · rfl
    · rfl
  rw [skipExponent, unsigned, if_pos (spelled.startsWithDigit_append rest),
    dropDigits_append spelled.2 follows.startsWithDigit]

theorem skipTail_of_isExponent {exponent rest : List Char} (spelled : IsExponent exponent)
    (follows : FollowsValue rest) : skipTail (exponent ++ rest) = .ok rest := by
  cases spelled with
  | none =>
    rw [List.nil_append]
    rcases follows.cases with rfl | ⟨c, left, rfl, -, -, small, capital⟩
    · rfl
    · unfold skipTail
      split
      · rename_i same
        cases same
        contradiction
      · rename_i same
        cases same
        contradiction
      · rfl
  | @letter letter sign digits mem signed digits =>
    have skip := skipExponent_of_digits signed digits follows
    simp only [List.mem_cons, List.not_mem_nil, or_false] at mem
    rcases mem with rfl | rfl
    · rw [List.cons_append, List.append_assoc, skipTail, skip]
    · rw [List.cons_append, List.append_assoc, skipTail, skip]

/-- An exponent, or what follows a number without one, starts with no digit and no point. -/
theorem startsWithDigit_exponent {exponent rest : List Char} (spelled : IsExponent exponent)
    (follows : FollowsValue rest) :
    startsWithDigit (exponent ++ rest) = false ∧ ∀ left, exponent ++ rest ≠ '.' :: left := by
  cases spelled with
  | none =>
    refine ⟨follows.startsWithDigit, fun left same => ?_⟩
    rcases follows.cases with rfl | ⟨c, more, rfl, -, noPoint, -⟩
    · contradiction
    · cases same
      contradiction
  | letter mem =>
    simp only [List.mem_cons, List.not_mem_nil, or_false] at mem
    rcases mem with rfl | rfl <;> exact ⟨rfl, fun left same => by cases same⟩

theorem skipAfterInteger_of_parts {fraction exponent rest : List Char}
    (fractional : IsFraction fraction) (exponential : IsExponent exponent)
    (follows : FollowsValue rest) :
    skipAfterInteger (fraction ++ (exponent ++ rest)) = .ok rest := by
  obtain ⟨noDigit, noPoint⟩ := startsWithDigit_exponent exponential follows
  cases fractional with
  | none =>
    rw [List.nil_append, skipAfterInteger]
    · exact skipTail_of_isExponent exponential follows
    · exact noPoint
  | point digits =>
    rw [List.cons_append, skipAfterInteger, if_pos (digits.startsWithDigit_append _),
      dropDigits_append digits.2 noDigit]
    exact skipTail_of_isExponent exponential follows

/-- What stands behind the digits of an integer starts with no digit. -/
theorem startsWithDigit_fraction {fraction exponent rest : List Char}
    (fractional : IsFraction fraction) (exponential : IsExponent exponent)
    (follows : FollowsValue rest) :
    startsWithDigit (fraction ++ (exponent ++ rest)) = false := by
  cases fractional with
  | none => exact (startsWithDigit_exponent exponential follows).1
  | point => rfl

theorem skipNumber_of_parts {whole fraction exponent rest : List Char} (integral : IsWhole whole)
    (fractional : IsFraction fraction) (exponential : IsExponent exponent)
    (follows : FollowsValue rest) :
    skipNumber (whole ++ (fraction ++ (exponent ++ rest))) = .ok rest := by
  have noDigit := startsWithDigit_fraction fractional exponential follows
  have skip := skipAfterInteger_of_parts fractional exponential follows
  cases integral with
  | zero =>
    rw [List.cons_append, List.nil_append, skipNumber, noDigit, skip]
    rfl
  | @digits first more proper digits =>
    have digit := digits.2 first List.mem_cons_self
    have all : ∀ c ∈ more, c.isDigit = true := fun c mem => digits.2 c (List.mem_cons_of_mem _ mem)
    rw [List.cons_append, skipNumber, isSome_digitValue?, if_pos digit,
      dropDigits_append all noDigit, skip]
    exact proper

end RibMap.Json

import RibMap.Proofs.Swift.Tree
import RibMap.Reference.Swift.Token

/-! # Cutting plain source text

Text of words, blanks and marks, with no comment and no literal in it, is cut into tokens at the
characters where one kind of token ends and another one starts. What a token follows decides nothing
there.
-/

namespace RibMap.Swift

/-- A text is cut into the same tokens whatever it follows and whatever follows it. -/
def Cuts (text : List Char) (tokens : List Token) : Prop :=
  ∀ before rest, tokensAfter before (text ++ rest) =
    tokens ++ tokensAfter (tokens.foldl Before.after before) rest

/-- A condition holds of the characters of a text up to its end and no further. -/
theorem run_append {p : Char → Bool} {text rest : List Char} (all : ∀ c ∈ text, p c = true)
    (ends : ∀ c ∈ rest.head?, p c = false) : run p (text ++ rest) = text.length := by
  have stops : rest.takeWhile p = [] := by
    cases rest with
    | nil => rfl
    | cons c rest => exact List.takeWhile_cons_of_neg (by simp [ends c rfl])
  rw [run, List.takeWhile_append_of_pos all, stops, List.append_nil]

/-- The token in front is as long as its extent says. -/
theorem tokensAfter_of_extent {before : Before} {c : Char} {text rest : List Char}
    {kind : TokenKind} (found : extent before (c :: (text ++ rest)) = (kind, 1 + text.length)) :
    tokensAfter before (c :: (text ++ rest)) =
      ⟨kind, c :: text⟩ :: tokensAfter (before.after ⟨kind, c :: text⟩) rest := by
  rw [tokensAfter, found]
  simp only [Nat.add_sub_cancel_left, List.take_left, List.drop_left]

/-- The characters of names have nothing to do with blanks and marks. -/
theorem isWordChar_of_isAlphanum {c : Char} (proper : c.isAlphanum = true) :
    isWordChar c = true ∧ isSpace c = false ∧ c ≠ '/' ∧ c ≠ '-' := by
  refine ⟨by simp [isWordChar, proper], ?_, ?_, ?_⟩
  · have range := toNat_of_isAlphanum proper
    simp only [isSpace, isBlank_of_isAlphanum proper, Bool.false_or, beq_eq_false_iff_ne]
    omega
  · rintro rfl
    contradiction
  · rintro rfl
    contradiction

/-- A name is one word up to its end. -/
theorem tokensAfter_word {word rest : List Char} (proper : word ≠ [])
    (all : ∀ c ∈ word, c.isAlphanum = true) (ends : ∀ c ∈ rest.head?, isWordChar c = false)
    (before : Before) :
    tokensAfter before (word ++ rest) =
      ⟨.word, word⟩ :: tokensAfter (before.after ⟨.word, word⟩) rest := by
  obtain ⟨c, word, rfl⟩ := List.exists_cons_of_ne_nil proper
  obtain ⟨isWord, noSpace, noSlash, noMinus⟩ := isWordChar_of_isAlphanum (all c List.mem_cons_self)
  have length : run isWordChar (word ++ rest) = word.length :=
    run_append (fun d mem => (isWordChar_of_isAlphanum (all d (List.mem_cons_of_mem c mem))).1) ends
  apply tokensAfter_of_extent
  unfold extent
  split
  · rename_i found
    cases found
  · rename_i found
    exact absurd (List.head_eq_of_cons_eq found) noSlash
  · rename_i found
    exact absurd (List.head_eq_of_cons_eq found) noSlash
  · rename_i found
    exact absurd (List.head_eq_of_cons_eq found) noMinus
  · rename_i found
    obtain ⟨rfl, rfl⟩ := List.cons.inj found
    rw [if_neg (by simp [noSpace]), if_pos isWord, length]

/-- White space is one blank up to its end. -/
theorem tokensAfter_blank {blank rest : List Char} (proper : blank ≠ [])
    (all : ∀ c ∈ blank, isSpace c = true) (ends : ∀ c ∈ rest.head?, isSpace c = false)
    (before : Before) :
    tokensAfter before (blank ++ rest) =
      ⟨.blank, blank⟩ :: tokensAfter (before.after ⟨.blank, blank⟩) rest := by
  obtain ⟨c, blank, rfl⟩ := List.exists_cons_of_ne_nil proper
  have here := all c List.mem_cons_self
  have length : run isSpace (blank ++ rest) = blank.length :=
    run_append (fun d mem => all d (List.mem_cons_of_mem c mem)) ends
  apply tokensAfter_of_extent
  unfold extent
  split
  · rename_i found
    cases found
  · rename_i found
    cases List.head_eq_of_cons_eq found
    contradiction
  · rename_i found
    cases List.head_eq_of_cons_eq found
    contradiction
  · rename_i found
    cases List.head_eq_of_cons_eq found
    contradiction
  · rename_i found
    obtain ⟨rfl, rfl⟩ := List.cons.inj found
    rw [if_pos here, length]

/-- The marks of a declaration with the kinds of their tokens. -/
def declarationMarks : List (Char × TokenKind) :=
  [(':', .symbol), (',', .symbol), ('\x7b', .opening), ('\x7d', .closing)]

/-- A mark is a token of its own. -/
theorem tokensAfter_mark {c : Char} {kind : TokenKind} (mark : (c, kind) ∈ declarationMarks)
    (rest : List Char) (before : Before) :
    tokensAfter before (c :: rest) =
      ⟨kind, [c]⟩ :: tokensAfter (before.after ⟨kind, [c]⟩) rest := by
  simp only [declarationMarks, List.mem_cons, Prod.mk.injEq, List.not_mem_nil, or_false] at mark
  have found : extent before (c :: ([] ++ rest)) = (kind, 1 + ([] : List Char).length) := by
    rcases mark with ⟨rfl, rfl⟩ | ⟨rfl, rfl⟩ | ⟨rfl, rfl⟩ | ⟨rfl, rfl⟩ <;> rfl
  exact tokensAfter_of_extent found

theorem Cuts.nil : Cuts [] [] := fun _ _ => rfl

theorem Cuts.append {text text' : List Char} {tokens tokens' : List Token}
    (cuts : Cuts text tokens) (cuts' : Cuts text' tokens') :
    Cuts (text ++ text') (tokens ++ tokens') := by
  intro before rest
  rw [List.append_assoc, cuts, cuts', List.foldl_append, List.append_assoc]

theorem Cuts.mark {c : Char} {kind : TokenKind} (mark : (c, kind) ∈ declarationMarks)
    {text : List Char} {tokens : List Token} (cuts : Cuts text tokens) :
    Cuts (c :: text) (⟨kind, [c]⟩ :: tokens) := by
  intro before rest
  rw [List.cons_append, tokensAfter_mark mark, cuts]
  rfl

/-- A condition fails where a text goes on. -/
def Ends (p : Char → Bool) (text : List Char) : Prop :=
  text.head?.any (fun c => !p c) = true

theorem Ends.append {p : Char → Bool} {text : List Char} (ends : Ends p text) (rest : List Char) :
    ∀ c ∈ (text ++ rest).head?, p c = false := by
  cases text with
  | nil => cases ends
  | cons d text =>
    intro c mem
    cases mem
    simpa [Ends] using ends

theorem Cuts.word {word text : List Char} {tokens : List Token} (proper : word ≠ [])
    (all : ∀ c ∈ word, c.isAlphanum = true) (ends : Ends isWordChar text)
    (cuts : Cuts text tokens) : Cuts (word ++ text) (⟨.word, word⟩ :: tokens) := by
  intro before rest
  rw [List.append_assoc, tokensAfter_word proper all (ends.append rest), cuts]
  rfl

theorem Cuts.blank {blank text : List Char} {tokens : List Token} (proper : blank ≠ [])
    (all : ∀ c ∈ blank, isSpace c = true) (ends : Ends isSpace text) (cuts : Cuts text tokens) :
    Cuts (blank ++ text) (⟨.blank, blank⟩ :: tokens) := by
  intro before rest
  rw [List.append_assoc, tokensAfter_blank proper all (ends.append rest), cuts]
  rfl

end RibMap.Swift

import TabletopDice.Text.Basic

/-!
# Tokens

A request is read as a list of tokens: words and single parentheses.  A word is a run of
characters that are neither blank nor parentheses, together with a part in parentheses right
behind it, if that part is closed and holds no parentheses itself.  Blanks separate tokens and are
dropped.
-/

namespace TabletopDice.Notation

inductive Token.Shape where
  | opening
  | closing
  | word
  deriving DecidableEq

structure Token where
  shape : Token.Shape
  text : Text
  /-- The number of characters in front of the token. -/
  position : Nat
  deriving DecidableEq

def isParenthesis (c : Char) : Bool := c == '(' || c == ')'

def isWordChar (c : Char) : Bool := !isBlank c && !isParenthesis c

/-- Splits off a part in parentheses that holds no parentheses itself. -/
def splitArguments : Text → Text × Text
  | '(' :: rest =>
      match rest.dropWhile fun c ↦ !isParenthesis c with
      | ')' :: after => ('(' :: rest.takeWhile (fun c ↦ !isParenthesis c) ++ [')'], after)
      | _ => ([], '(' :: rest)
  | rest => ([], rest)

/-- Splits off the longest word that the text begins with. -/
def splitWord (text : Text) : Text × Text :=
  let arguments := splitArguments (text.dropWhile isWordChar)
  (text.takeWhile isWordChar ++ arguments.1, arguments.2)

theorem splitArguments_append (text : Text) :
    (splitArguments text).1 ++ (splitArguments text).2 = text := by
  unfold splitArguments
  split
  · next rest =>
      have happend := List.takeWhile_append_dropWhile (p := fun c ↦ !isParenthesis c) (l := rest)
      split
      · next after h =>
          rw [h] at happend
          simpa using happend
      · rfl
  · rfl

theorem splitWord_append (text : Text) : (splitWord text).1 ++ (splitWord text).2 = text := by
  simp only [splitWord, List.append_assoc, splitArguments_append, List.takeWhile_append_dropWhile]

theorem splitWord_ne_nil {c : Char} {rest : Text} (h : isWordChar c) :
    (splitWord (c :: rest)).1 ≠ [] := by
  simp [splitWord, h]

theorem length_splitWord_lt {c : Char} {rest : Text} (h : isWordChar c) :
    (splitWord (c :: rest)).2.length < (c :: rest).length := by
  have hlen := congrArg List.length (splitWord_append (c :: rest))
  have hpos := List.length_pos_iff.2 (@splitWord_ne_nil c rest h)
  rw [List.length_append] at hlen
  omega

/-- The tokens of a text that has `position` characters in front of it. -/
def tokensFrom (position : Nat) : Text → List Token
  | [] => []
  | c :: rest =>
      if h : isWordChar c then
        let word := (splitWord (c :: rest)).1
        ⟨.word, word, position⟩ :: tokensFrom (position + word.length) (splitWord (c :: rest)).2
      else if c = '(' then ⟨.opening, [c], position⟩ :: tokensFrom (position + 1) rest
      else if c = ')' then ⟨.closing, [c], position⟩ :: tokensFrom (position + 1) rest
      else tokensFrom (position + 1) rest
termination_by text => text.length
decreasing_by
  · exact length_splitWord_lt h
  all_goals simp

def tokens (text : Text) : List Token := tokensFrom 0 text

end TabletopDice.Notation

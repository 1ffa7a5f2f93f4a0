import TabletopDice.Notation.ActionWord
import TabletopDice.Plan

/-!
# Reading requests

A request lists dice and groups, then actions, then perhaps the word `count`.  A group is a pair of
parentheses around an identifier, a dice and the actions for this dice alone.  The tokens are read
one after the other; `Place` is where in a group the reader stands.
-/

namespace TabletopDice.Notation

inductive Place where
  | outside
  | opened (opening : Token)
  | named (opening name : Token)
  | inside (opening name dice : Token) (actions : List Action)
  deriving DecidableEq

/-- What has been read so far, and where the reader stands. -/
structure Reader where
  plan : Plan
  place : Place
  deriving DecidableEq

/-- The word that asks for a count. -/
def countWord : Text := "count".toList

/-- Fails with a fault at a token. -/
def Token.blame {α : Type} (t : Token) (cause : Cause) : Except Failure α :=
  Notation.blame cause t.text (some t.position)

/-- A word begins like an action if its first character is lower-case, unless it reads as a dice,
such as `d6` or `f`. -/
def beginsLikeAction (word : Text) : Bool :=
  word.head?.any isLowercase && (DiceWord.ofText? word).isNone

namespace Reader

/-- Reads a word outside of groups. -/
def readWord (limits : Limits) (plan : Plan) (t : Token) : Except Failure Reader :=
  if t.text = countWord then return ⟨{ plan with counts := true }, .outside⟩
  else if beginsLikeAction t.text then do
    return ⟨plan.addAction (← readAction t.text (some t.position)), .outside⟩
  else if plan.actions ≠ [] then t.blame .diceAfterActions
  else do
    let request ← readRequest limits t.text (some t.position) none []
    return ⟨plan.addRequest request, .outside⟩

def readOutside (limits : Limits) (plan : Plan) (t : Token) : Except Failure Reader :=
  if plan.counts then t.blame .afterCount
  else match t.shape with
    | .closing => t.blame .unbalanced
    | .opening =>
        if plan.actions ≠ [] then t.blame .diceAfterActions else return ⟨plan, .opened t⟩
    | .word => readWord limits plan t

/-- Reads the token behind an opening parenthesis. -/
def readName (plan : Plan) (opening t : Token) : Except Failure Reader :=
  if t.shape ≠ .word then opening.blame .identifierExpected
  else if isIdentifier t.text then return ⟨plan, .named opening t⟩
  else t.blame (.invalidIdentifier t.text)

/-- Takes the word behind an identifier as the dice of the group.  It is read at the end of the
group, so that faults inside the group come first. -/
def takeDice (plan : Plan) (opening name t : Token) : Except Failure Reader :=
  if t.shape = .word then return ⟨plan, .inside opening name t []⟩
  else name.blame (.groupWithoutDice name.text)

def readInside (limits : Limits) (plan : Plan) (opening name dice : Token)
    (actions : List Action) (t : Token) : Except Failure Reader :=
  match t.shape with
  | .closing => do
      let request ←
        readRequest limits dice.text (some dice.position) (some name.text) actions
      return ⟨plan.addRequest request, .outside⟩
  | .opening => t.blame .nestedGroup
  | .word =>
      if t.text = countWord then t.blame .countInGroup
      else do
        let action ← readAction t.text (some t.position)
        return ⟨plan, .inside opening name dice (actions ++ [action])⟩

def read (limits : Limits) (r : Reader) (t : Token) : Except Failure Reader :=
  match r.place with
  | .outside => readOutside limits r.plan t
  | .opened opening => readName r.plan opening t
  | .named opening name => takeDice r.plan opening name t
  | .inside opening name dice actions => readInside limits r.plan opening name dice actions t

/-- The plan, if the text may end where the reader stands. -/
def finish (r : Reader) (text : Text) : Except Failure Plan :=
  match r.place with
  | .outside =>
      if r.plan.requests = [] then blame .noDice (stripped text) (some 0) else return r.plan
  | .opened opening => opening.blame .identifierExpected
  | .named _ name => name.blame (.groupWithoutDice name.text)
  | .inside opening name _ _ => opening.blame (.unclosedGroup name.text)

end Reader

/-- Reads a request text. -/
def readPlan (limits : Limits) (text : Text) : Except Failure Plan := do
  let reader ← (tokens text).foldlM (Reader.read limits) ⟨Plan.empty, .outside⟩
  reader.finish text

end TabletopDice.Notation

import Depfile.Text.Blank

/-!
# Tokens

A dependency file is a list of tokens. A token that ends with a colon is a target, and every
other token is a prerequisite.
-/

namespace Depfile.Token

/-- Is the token a target, which keeps its final colon? -/
def isTarget (token : Text) : Bool :=
  token.getLast? == some ':'

/-- The tokens that are not targets, in order. -/
def prerequisites (tokens : List Text) : List Text :=
  tokens.filter (fun token => !isTarget token)

/-- The number of targets among the tokens. -/
def countTargets (tokens : List Text) : Nat :=
  tokens.countP isTarget

end Depfile.Token

import LocaleLint.Json.Token

/-!
# Reading JSON

Builds the value of a list of tokens with a stack of the arrays and objects that are
open, so that depth costs no recursion. Depth is limited all the same. The members of
an object are sorted by key, and of members with one key the last counts.
-/

set_option autoImplicit false

namespace LocaleLint.Json

/-- An array or object that is open, with what it holds so far, the latest first. -/
inductive Open where
  | array (items : List Json)
  | object (members : List (String × Json)) (key : String)
deriving BEq, Repr

/-- What the next token has to be. -/
inductive Expecting where
  | value (stack : List Open)
  | firstItem (stack : List Open)
  | firstKey (stack : List Open)
  | key (members : List (String × Json)) (stack : List Open)
  | colon (members : List (String × Json)) (key : String) (stack : List Open)
  | after (value : Json) (stack : List Open)
deriving BEq, Repr

namespace Expecting

/-- A value starts inside the open containers `stack`, of which there may be at most `limit`. -/
def startValue (limit : Nat) (stack : List Open) : Token → Option Expecting
  | .scalar scalar => some (.after scalar stack)
  | .arrayStart => if stack.length < limit then some (.firstItem stack) else none
  | .objectStart => if stack.length < limit then some (.firstKey stack) else none
  | _ => none

/-- A key is read inside an object. -/
def startKey (members : List (String × Json)) (stack : List Open) : Token → Option Expecting
  | .scalar (.string name) => some (.colon members name stack)
  | _ => none

/-- A value is complete inside the open containers. -/
def afterValue (item : Json) : List Open → Token → Option Expecting
  | .array items :: stack, .comma => some (.value (.array (item :: items) :: stack))
  | .array items :: stack, .arrayEnd => some (.after (.array (item :: items).reverse) stack)
  | .object members name :: stack, .comma => some (.key ((name, item) :: members) stack)
  | .object members name :: stack, .objectEnd =>
    some (.after (.object (Entries.sorted ((name, item) :: members).reverse)) stack)
  | _, _ => none

/-- What is expected after one more token. -/
def step (limit : Nat) : Expecting → Token → Option Expecting
  | .value stack, token => startValue limit stack token
  | .firstItem stack, .arrayEnd => some (.after (.array []) stack)
  | .firstItem stack, token => startValue limit (.array [] :: stack) token
  | .firstKey stack, .objectEnd => some (.after (.object []) stack)
  | .firstKey stack, token => startKey [] stack token
  | .key members stack, token => startKey members stack token
  | .colon members name stack, .colon => some (.value (.object members name :: stack))
  | .colon _ _ _, _ => none
  | .after item stack, token => afterValue item stack token

/-- What is expected after a list of tokens. -/
def run (limit : Nat) : Expecting → List Token → Option Expecting
  | expecting, [] => some expecting
  | expecting, token :: rest =>
    match expecting.step limit token with
    | some expecting => run limit expecting rest
    | none => none

end Expecting

/-- The value of a list of tokens; containers nest at most `limit` deep. -/
def ofTokens? (limit : Nat) (tokens : List Token) : Option Json :=
  match Expecting.run limit (.value []) tokens with
  | some (.after value []) => some value
  | _ => none

/-- The value that a text spells; containers nest at most `limit` deep. -/
def parseWithin? (limit : Nat) (text : String) : Option Json :=
  (Token.ofText text.toList).bind (ofTokens? limit)

/-- The depth to which a report may nest. -/
def depthLimit : Nat := 127

/-- The value that a text spells. -/
def parse? (text : String) : Option Json :=
  parseWithin? depthLimit text

end LocaleLint.Json

/-!
# Tokens

Source text is cut into tokens: lambda signs (`λ` or a backslash), the marks that end a binder
(`.` or `->`), parentheses, and names.  A name is a longest run of letters and digits of ASCII,
underscores, apostrophes and the signs `+ - * /`, except that a minus sign before `>` belongs to
the arrow.  Every other character is skipped.  Positions count characters.
-/

namespace Tromp

/-- The kinds of tokens. -/
inductive TokenKind where
  | lambda
  | dot
  | identifier
  | opening
  | closing
  /-- The end of the text. -/
  | finish
deriving DecidableEq, Repr, Inhabited

namespace TokenKind

/-- All kinds. -/
def all : List TokenKind := [lambda, dot, identifier, opening, closing, finish]

/-- The name of a kind in messages. -/
def name : TokenKind → String
  | lambda => "lambda"
  | dot => "dot"
  | identifier => "variable"
  | opening => "lparen"
  | closing => "rparen"
  | finish => "eof"

/-- The kind of a name. -/
def ofName? (s : String) : Option TokenKind := all.find? (·.name == s)

/-- Whether an atom can begin with a token of the kind, or an abstraction can. -/
def begins : TokenKind → Bool
  | lambda | identifier | opening => true
  | dot | closing | finish => false

end TokenKind

/-- A token: its kind, its text, and the position of its first character. -/
structure Token where
  kind : TokenKind
  text : String
  position : Nat
deriving DecidableEq, Repr, Inhabited

/-- Whether names may contain a character. -/
def isNameChar (c : Char) : Bool :=
  c.isAlphanum || c == '_' || c == '\'' || c == '+' || c == '-' || c == '*' || c == '/'

/-- Whether a character signs an abstraction. -/
def isLambdaSign (c : Char) : Bool := c == 'λ' || c == '\\'

/-- Splits off the longest run of name characters, which never takes the minus sign of an arrow. -/
def nameRun : List Char → List Char × List Char
  | [] => ([], [])
  | '-' :: '>' :: rest => ([], '-' :: '>' :: rest)
  | c :: rest =>
    if isNameChar c then (c :: (nameRun rest).1, (nameRun rest).2) else ([], c :: rest)

theorem length_nameRun_le (cs : List Char) : (nameRun cs).2.length ≤ cs.length := by
  fun_induction nameRun cs with
  | case1 => simp
  | case2 => simp
  | case3 c rest _ _ ih => simpa using Nat.le_succ_of_le ih
  | case4 => simp

/-- The tokens of a text whose first character has a position. -/
def tokensFrom (position : Nat) : List Char → List Token
  | [] => []
  | '-' :: '>' :: rest => ⟨.dot, "->", position⟩ :: tokensFrom (position + 2) rest
  | c :: rest =>
    if isLambdaSign c then ⟨.lambda, c.toString, position⟩ :: tokensFrom (position + 1) rest
    else if c = '.' then ⟨.dot, c.toString, position⟩ :: tokensFrom (position + 1) rest
    else if c = '(' then ⟨.opening, c.toString, position⟩ :: tokensFrom (position + 1) rest
    else if c = ')' then ⟨.closing, c.toString, position⟩ :: tokensFrom (position + 1) rest
    else if isNameChar c then
      let name := c :: (nameRun rest).1
      ⟨.identifier, String.ofList name, position⟩ ::
        tokensFrom (position + name.length) (nameRun rest).2
    else tokensFrom (position + 1) rest
termination_by cs => cs.length
decreasing_by
  all_goals simp only [List.length_cons]
  all_goals have := length_nameRun_le rest
  all_goals omega

/-- The tokens of a source text, without the one for its end. -/
def tokens (source : String) : List Token := tokensFrom 0 source.toList

/-- The token for the end of a source text. -/
def finishToken (source : String) : Token := ⟨.finish, "", source.length⟩

/-- The tokens of a source text, the one for its end last. -/
def tokenize (source : String) : List Token := tokens source ++ [finishToken source]

end Tromp

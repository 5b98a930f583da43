import Tromp.Source.Fault
import Tromp.Term.Tree

/-!
# Parsing

A recursive-descent parser for

    expression  := abstraction | application
    abstraction := lambda name dot expression
    application := atom atom …            (to the left: a b c is (a b) c)
    atom        := name | ( expression )

A strict parser stops at the first fault.  A lenient one records it and goes on, skipping tokens
and putting the placeholder `?` where a name is missing.  Both are one parser: the only place that
looks at the mode is `Parser.complain`.

A step of the parser never gives back a token it has read.  This is part of the type of what a
step returns, and is what the recursion descends on.
-/

namespace Tromp

/-- What a parser does at a fault. -/
inductive Mode where
  /-- Stop. -/
  | strict
  /-- Record the fault and recover. -/
  | lenient
deriving DecidableEq, Repr, Inhabited

/-- A parser in the middle of its work. -/
structure Parser where
  source : String
  mode : Mode
  /-- The tokens that are still to be read, without the one for the end. -/
  rest : List Token
  /-- The faults it has recovered from, in order. -/
  faults : List SyntaxFault
deriving DecidableEq, Repr

/-- What a step returns that had at most `bound` tokens left when it began. -/
inductive Outcome (bound : Nat) (α : Type) where
  /-- A result, and the parser after the step. -/
  | done (value : α) (next : Parser) (le : next.rest.length ≤ bound)
  /-- A fault at which the parser stopped, and where it stands. -/
  | stopped (fault : SyntaxFault) (next : Parser)

/-- The name that stands for a missing one. -/
def placeholder : String := "?"

namespace Outcome

variable {m n : Nat} {α β : Type}

/-- A smaller bound is a bound. -/
def weaken (h : m ≤ n) : Outcome m α → Outcome n α
  | done value next le => done value next (Nat.le_trans le h)
  | stopped fault next => stopped fault next

/-- One step after another.  The next step gets to know that no token was given back before it,
and there is none after a fault at which the parser stopped. -/
def andThen (o : Outcome m α)
    (next : (value : α) → (q : Parser) → q.rest.length ≤ m → Outcome n β) : Outcome n β :=
  match o with
  | done value q le => next value q le
  | stopped fault q => stopped fault q

/-- The parser after a step, however it ended. -/
def parser : Outcome n α → Parser
  | done _ next _ => next
  | stopped _ next => next

/-- The value of a step, or the fault it stopped at. -/
def result : Outcome n α → Except SyntaxFault α
  | done value _ _ => .ok value
  | stopped fault _ => .error fault

end Outcome

namespace Parser

/-- A parser at the beginning of a source. -/
def start (source : String) (mode : Mode) : Parser := ⟨source, mode, tokens source, []⟩

/-- The token a parser looks at. -/
def current (p : Parser) : Token := p.rest.headD (finishToken p.source)

/-- The number of tokens a parser has read. -/
def position (p : Parser) : Nat := (tokens p.source).length - p.rest.length

/-- The parser with other tokens before it. -/
def moveTo (p : Parser) (rest : List Token) : Parser := { p with rest }

/-- The parser after the token it looks at; at the end it stays there. -/
def advance (p : Parser) : Parser := p.moveTo p.rest.tail

/-- Whether the parser looks at a token of one of some kinds. -/
def looksAt (p : Parser) (kinds : List TokenKind) : Bool := kinds.contains p.current.kind

/-- Complains about the token the parser looks at: a strict parser stops, a lenient one records
the fault. -/
def complain (complaint : Complaint) (p : Parser) : Outcome p.rest.length Unit :=
  let fault := SyntaxFault.atToken complaint p.current p.source
  match p.mode with
  | .strict => .stopped fault p
  | .lenient => .done () { p with faults := p.faults ++ [fault] } (Nat.le_refl _)

/-- Reads a token of a kind, or complains and reads nothing. -/
def expect (kind : TokenKind) (complaint : Complaint) (p : Parser) :
    Outcome p.rest.length Bool :=
  if p.current.kind = kind then .done true p.advance (by simp [advance, moveTo])
  else (p.complain complaint).andThen fun _ q hq => .done false q hq

/-- Reads the name that an abstraction binds, or complains and takes the placeholder. -/
def binder (p : Parser) : Outcome p.rest.length String :=
  if p.current.kind = .identifier then
    .done p.current.text p.advance (by simp [advance, moveTo])
  else (p.complain .expectedName).andThen fun _ q hq => .done placeholder q hq

/-- Complains that an atom is missing, reads nothing and takes the placeholder for it. -/
def missingAtom (p : Parser) : Outcome p.rest.length Term :=
  (p.complain .expectedAtom).andThen fun _ q hq => .done (.var (some placeholder) none false) q hq

mutual

/-- Reads an expression. -/
def expression (p : Parser) : Outcome p.rest.length Term :=
  match hp : p.rest with
  | [] => (application p).weaken (by simp [hp])
  | t :: rest =>
    if t.kind = .lambda then (binding (p.moveTo rest)).weaken (by simp [moveTo])
    else (application p).weaken (by simp [hp])
termination_by 8 * p.rest.length + 3
decreasing_by
  · omega
  · simp only [moveTo, hp, List.length_cons]; omega
  · omega

/-- Reads what follows the lambda sign of an abstraction. -/
def binding (p : Parser) : Outcome p.rest.length Term :=
  p.binder.andThen fun name q hq =>
    (q.expect .dot .expectedDot).andThen fun _ r hr =>
      (expression r).andThen fun body s hs => .done (.lam (some name) none body) s (by omega)
termination_by 8 * p.rest.length + 4
decreasing_by omega

/-- Reads an application: an atom, and all the atoms after it. -/
def application (p : Parser) : Outcome p.rest.length Term :=
  (atom p).andThen fun func q hq => (arguments func q).weaken hq
termination_by 8 * p.rest.length + 2
decreasing_by all_goals omega

/-- Applies a term to the atoms that follow. -/
def arguments (func : Term) (p : Parser) : Outcome p.rest.length Term :=
  match hp : p.rest with
  | [] => .done func p (by simp [hp])
  | t :: rest =>
    if t.kind.begins then
      (atomAfter t rest p).andThen fun arg q hq =>
        (arguments (.app func arg) q).weaken (Nat.le_succ_of_le hq)
    else .done func p (by simp [hp])
termination_by 8 * p.rest.length + 1
decreasing_by all_goals simp only [hp, List.length_cons]; omega

/-- Reads an atom. -/
def atom (p : Parser) : Outcome p.rest.length Term :=
  match hp : p.rest with
  | [] => p.missingAtom.weaken (by simp [hp])
  | t :: rest =>
    if t.kind = .closing then p.missingAtom.weaken (by simp [hp])
    else (atomAfter t rest p).weaken (by simp)
termination_by 8 * p.rest.length + 1
decreasing_by simp only [hp, List.length_cons]; omega

/-- Reads an atom that begins with a token, and goes on with the tokens after that one.  The
parser still looks at the token, so that it can complain about it.  An abstraction is taken as if
it stood in parentheses, and anything else is skipped. -/
def atomAfter (t : Token) (rest : List Token) (p : Parser) : Outcome rest.length Term :=
  match t.kind with
  | .identifier => .done (.var (some t.text) none false) (p.moveTo rest) (Nat.le_refl _)
  | .opening =>
    (expression (p.moveTo rest)).andThen fun term q hq =>
      (q.expect .closing .expectedClosing).andThen fun _ r hr => .done term r (Nat.le_trans hr hq)
  | .lambda => (p.complain .expectedAtom).andThen fun _ q _ => binding (q.moveTo rest)
  | _ =>
    (p.complain .expectedAtom).andThen fun _ q _ =>
      .done (.var (some placeholder) none false) (q.moveTo rest) (Nat.le_refl _)
termination_by 8 * rest.length + 5
decreasing_by all_goals simp only [moveTo]; omega

end

/-- Reads an abstraction, whose lambda sign is taken for granted. -/
def abstraction (p : Parser) : Outcome p.rest.length Term :=
  (binding p.advance).weaken (by simp [advance, moveTo])

/-- Goes on after a complete expression: complains about every token that follows it, skips it,
and applies the term to the expression after it if one can begin there. -/
def trailing (term : Term) (p : Parser) : Outcome p.rest.length Term :=
  match hp : p.rest with
  | [] => .done term p (by simp [hp])
  | _ :: rest =>
    (p.complain .trailingToken).andThen fun _ q _ =>
      if (q.moveTo rest).current.kind.begins then
        (expression (q.moveTo rest)).andThen fun arg r hr =>
          (trailing (.app term arg) r).weaken (Nat.le_succ_of_le hr)
      else (trailing term (q.moveTo rest)).weaken (Nat.le_succ _)
termination_by p.rest.length
decreasing_by
  · simp only [hp, List.length_cons]; exact Nat.lt_succ_of_le hr
  · simp only [moveTo, hp, List.length_cons]; omega

/-- Reads an expression and all that follows it. -/
def parseAll (p : Parser) : Outcome p.rest.length Term :=
  (expression p).andThen fun term q hq => (trailing term q).weaken hq

end Parser

/-- Parses a source text. -/
def parseWith (mode : Mode) (source : String) : Outcome (tokens source).length Term :=
  (Parser.start source mode).parseAll

/-- The term of a source text, or its first fault. -/
def parse (source : String) : Except SyntaxFault Term := (parseWith .strict source).result

/-- The term of a source text with all its faults mended, and the faults. -/
def recover (source : String) : Except SyntaxFault Term × List SyntaxFault :=
  ((parseWith .lenient source).result, (parseWith .lenient source).parser.faults)

end Tromp

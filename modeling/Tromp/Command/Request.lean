import Tromp.Arithmetic.Reading
import Tromp.Command.Words

/-!
# Requests

The words of a command line are read from left to right into a request.  A short switch may be
followed by more of them in the same word.  A value stands in the word of its switch or is the next
word, if that stands for itself.  The first word that stands for itself and is no value is the
expression; the pair of dashes beside it is dropped.  Words that nothing is made of are reported
when all others have been read.
-/

namespace Tromp

/-- What is asked for on the command line. -/
structure Request where
  expression : Option String
  input : Option Path
  output : Option Path
  format : Option Format
  width : Int
  height : Int
  labels : Bool
  showSymbols : Bool
  lenient : Bool
  anchor : Anchor
  background : String
  verbosity : Nat
deriving DecidableEq, Repr

/-- Why reading a command line ends early. -/
inductive Stop where
  /-- Help is asked for. -/
  | help
  | refused (fault : UsageFault)

namespace Request

/-- What is asked for when nothing is said. -/
def default : Request :=
  { expression := none, input := none, output := none, format := none, width := 1200, height := 800,
    labels := false, showSymbols := false, lenient := false, anchor := .center,
    background := "#000000", verbosity := 0 }

/-- Reads a value as an integer. -/
def integer (s : Switch) (value : String) : Except Stop Int :=
  match readInt? value with
  | some n => .ok n
  | none => .error (.refused (.noInteger s value))

/-- Reads a value as one of some choices. -/
def choice {γ : Type} (s : Switch) (all : List γ) (word : γ → String) (value : String) :
    Except Stop γ :=
  match all.find? fun c => word c == value with
  | some c => .ok c
  | none => .error (.refused (.noChoice s value (all.map word)))

/-- Takes a switch into a request, with its value if it takes one. -/
def set (r : Request) (s : Switch) (value : String) : Except Stop Request :=
  match s with
  | .help => .error .help
  | .input => .ok { r with input := some (.ofString value) }
  | .output => .ok { r with output := some (.ofString value) }
  | .format => return { r with format := some (← choice s Format.all Format.word value) }
  | .width => return { r with width := ← integer s value }
  | .height => return { r with height := ← integer s value }
  | .labels => .ok { r with labels := true }
  | .showSymbols => .ok { r with showSymbols := true }
  | .lenient => .ok { r with lenient := true }
  | .anchor => return { r with anchor := ← choice s Anchor.all Anchor.word value }
  | .background => .ok { r with background := value }
  | .verbose => .ok { r with verbosity := r.verbosity + 1 }

/-- Takes some switches into a request, one after another. -/
def setAll (r : Request) (switches : List (Switch × String)) : Except Stop Request :=
  switches.foldlM (fun r (s, value) => r.set s value) r

end Request

/-- What a word of switches says. -/
structure Cluster where
  /-- The switches that are complete, with their values. -/
  complete : List (Switch × String)
  /-- A last switch that waits for the next word. -/
  waiting : Option Switch
  /-- The rest of the word, after a dash, where it spells no switch. -/
  left : Option String
deriving DecidableEq, Repr

namespace Cluster

/-- A switch with its value. -/
def single (s : Switch) (value : String) : Cluster := ⟨[(s, value)], none, none⟩

/-- A switch with nothing written to it. -/
def bare (s : Switch) : Cluster := if s.takesValue then ⟨[], some s, none⟩ else single s ""

/-- A switch with an equals sign and a value written to it. -/
def afterEquals (s : Switch) (value : List Char) : Except UsageFault Cluster :=
  if s.takesValue then .ok (single s (String.ofList value))
  else .error (.valueIgnored s (String.ofList value))

/-- A short switch with characters written to it: its value or, where it takes none, more short
switches. -/
def direct (s : Switch) (cs : List Char) : Except UsageFault Cluster :=
  if s.takesValue then .ok (single s (String.ofList cs))
  else
    match cs with
    | [] => .error (.valueIgnored s "")
    | c :: rest =>
      if c = '-' then .error (.valueIgnored s (String.ofList (c :: rest)))
      else
        match Switch.short? c with
        | none => .ok { single s "" with left := some (String.ofList ('-' :: c :: rest)) }
        | some next => do
          let more ← match rest with
            | [] => .ok (bare next)
            | '=' :: value => afterEquals next value
            | _ => direct next rest
          return { more with complete := (s, "") :: more.complete }

/-- What a switch says with what is written to it. -/
def ofSwitch (s : Switch) : Attachment → Except UsageFault Cluster
  | .nothing => .ok (bare s)
  | .afterEquals value => afterEquals s value
  | .direct cs => direct s cs

end Cluster

/-- How far the reading of the expression is. -/
inductive Place where
  /-- Nothing of it was met. -/
  | ahead
  /-- The pair of dashes was met, and the expression is the next word. -/
  | opened
  /-- The expression was the last word. -/
  | closing
  /-- It is behind, whether there was one or not. -/
  | behind
deriving DecidableEq, Repr

/-- A command line that is being read. -/
structure WordReader where
  request : Request
  place : Place
  /-- The switches of the last word, when the last of them waits for its value. -/
  waiting : Option (List (Switch × String) × Switch)
  /-- The words that nothing was made of. -/
  left : List String
deriving DecidableEq, Repr

/-- The place after a word that is no part of the expression. -/
def Place.moveOn : Place → Place
  | closing => behind
  | place => place

namespace WordReader

/-- A command line of which nothing has been read. -/
def start : WordReader := ⟨.default, .ahead, none, []⟩

/-- Leaves a word. -/
def leave (r : WordReader) (word : String) : WordReader := { r with left := r.left ++ [word] }

/-- Takes switches in. -/
def setAll (r : WordReader) (switches : List (Switch × String)) : Except Stop WordReader := do
  return { r with request := ← r.request.setAll switches }

/-- Takes a word of switches in; it is kept until its last switch has its value. -/
def takeCluster (r : WordReader) (c : Cluster) : Except Stop WordReader :=
  match c.waiting with
  | some last => .ok { r with waiting := some (c.complete, last) }
  | none => do
    let r ← r.setAll c.complete
    return match c.left with
      | some rest => r.leave rest
      | none => r

/-- Reads a word that is not the value of a switch. -/
def read (r : WordReader) (w : Word) : Except Stop WordReader :=
  match w.role with
  | .unknown => .ok { r.leave w.text with place := r.place.moveOn }
  | .switch s value => do
    let c ← (Cluster.ofSwitch s value).mapError .refused
    { r with place := r.place.moveOn }.takeCluster c
  | .plain =>
    match r.place with
    | .ahead | .opened =>
      .ok { r with request := { r.request with expression := some w.text }, place := .closing }
    | .closing | .behind => .ok { r.leave w.text with place := .behind }
  | .separator =>
    match r.place with
    | .ahead => .ok { r with place := .opened }
    | .closing => .ok { r with place := .behind }
    | .opened | .behind => .ok (r.leave w.text)

/-- Reads the next word. -/
def step (r : WordReader) (w : Word) : Except Stop WordReader :=
  match r.waiting with
  | none => r.read w
  | some (complete, last) =>
    if w.role = .plain then { r with waiting := none }.setAll (complete ++ [(last, w.text)])
    else .error (.refused (.valueMissing last))

/-- The request, when all words have been read. -/
def finish (r : WordReader) : Except Stop Request :=
  match r.waiting with
  | some (_, last) => .error (.refused (.valueMissing last))
  | none => if r.left.isEmpty then .ok r.request else .error (.refused (.unrecognized r.left))

end WordReader

/-- The request of a command line. -/
def Request.ofArguments (arguments : List String) : Except Stop Request := do
  let words ← (Word.ofTexts arguments).mapError .refused
  (← words.foldlM WordReader.step .start).finish

end Tromp

import Tromp.Command.Request
import Tromp.Diagram.Action
import Tromp.Text.Blank

/-!
# Plans

A command line is turned into a plan: the actions to be done, and how to end.  Besides the command
line only the content of the input file has to be known.

Everything that can be refused is refused before the first action.  Each expression is drawn by
itself: one that is no expression is reported, the others are drawn, and the status tells.  A term
that breaks ends everything, and so does a diagram without a sketch.
-/

namespace Tromp

/-- What the program breaks with. -/
inductive Breakdown where
  /-- A file could not be accessed. -/
  | file (failure : FileFailure)
  /-- A term has no diagram. -/
  | term (fault : TermFault)
  /-- A diagram has no sketch. -/
  | sketch (fault : RasterFault)

/-- The text of what the program breaks with. -/
def Breakdown.message : Breakdown → String
  | file failure => failure.message
  | term fault => fault.message
  | sketch fault => fault.message

/-- What the program does. -/
structure Plan where
  /-- The least severity of the records that are reported. -/
  level : Severity
  actions : List Action
  /-- The status to end with, or what the program breaks with. -/
  ending : Except Breakdown Nat

/-- The name of the program. -/
def programName : String := "lambdiagram"

/-- How the program is called. -/
def usage : String := "usage: " ++ programName ++ " [options] [expression]\n"

/-- What the switches are for. -/
def helpText : String :=
  usage ++ "\nDraw lambda expressions as Tromp diagrams.\n\noptions:\n" ++
    String.join (Switch.all.map fun s =>
      "  " ++ ", ".intercalate s.spellings ++ "\n      " ++ s.purpose ++ "\n")

/-- The expressions in a text: its lines without the blanks at their ends, except for lines that are
blank and comments. -/
def expressionsIn (text : String) : List String :=
  ((splitLines text.toList).map stripBlanks).filterMap fun line =>
    if line.isEmpty || ['#'].isPrefixOf line || ['/', '/'].isPrefixOf line then none
    else some (String.ofList line)

/-- The text that reports why a text is no expression. -/
def SyntaxFault.report (fault : SyntaxFault) : String :=
  "error: " ++ fault.message ++ "\n" ++ fault.diagnosis ++ "\n"

namespace Request

/-- The mode to parse expressions in. -/
def mode (r : Request) : Mode := if r.lenient then .lenient else .strict

/-- The severity from which on records are reported. -/
def level (r : Request) : Severity := .ofVerbosity r.verbosity

/-- The settings that are asked for. -/
def settings (r : Request) : Except (SettingsFault Number) (RenderSettings Number) :=
  RenderSettings.build (Assignment.get?
    [(.width, .number (.whole r.width)), (.height, .number (.whole r.height)),
     (.showLabels, .flag r.labels), (.hideApplicationSymbols, .flag !r.showSymbols),
     (.anchor, .text r.anchor.word), (.backgroundColor, .text r.background)])

/-- The expressions that are asked for: those in the input file if there is one. -/
def expressions (r : Request) (read : Path → Except FileFailure String) :
    Except UsageFault (List String) := do
  let found ← match r.input, r.expression with
    | some path, _ =>
      match read path with
      | .ok text => .ok (expressionsIn text)
      | .error f => .error (.unreadable path f.fault.reason)
    | none, some e => .ok [e]
    | none, none => .error .nothingGiven
  if found.isEmpty then .error .noExpression else .ok found

/-- The format to draw in. -/
def outputFormat (r : Request) : Format := r.format.getD (.guess r.output)

/-- What is done with the diagram of an expression, of which there may be several. -/
def deliver (r : Request) (several : Bool) (number : Nat) (d : Diagram) :
    List Action × Except RasterFault Unit :=
  let f := r.outputFormat
  match r.output with
  | none =>
    let heading := if several then [Action.print ("# " ++ d.expression ++ "\n")] else []
    let (actions, result) := match f with
      | .ascii => d.useText .print
      | _ => ([.print (d.svg ++ "\n")], .ok ())
    (heading ++ actions, result)
  | some path =>
    let path := if several then path.child ("diagram_" ++ toString number ++ f.suffix) else path
    match d.write f path with
    | (actions, .ok ()) => (actions ++ [.tell (.wrote path)], .ok ())
    | (actions, .error fault) => (actions, .error fault)

/-- What is done for an expression, and whether it could be drawn. -/
def draw (r : Request) (s : RenderSettings Number) (several : Bool) (number : Nat)
    (expression : String) : List Action × Except Breakdown Bool :=
  match Diagram.generate r.mode s expression with
  | .error (.unparsed f) => ([.report f.report], .ok false)
  | .error (.broken told f) => (told.map .tell, .error (.term f))
  | .ok d =>
    let (actions, result) := r.deliver several number d
    (d.records.map .tell ++ actions, (result.mapError .sketch).map fun _ => true)

/-- What is done for expressions, one after another, and whether all of them could be drawn. -/
def drawAll (r : Request) (s : RenderSettings Number) (several : Bool) :
    Nat → List String → List Action × Except Breakdown Bool
  | _, [] => ([], .ok true)
  | number, expression :: rest =>
    match r.draw s several number expression with
    | (actions, .error f) => (actions, .error f)
    | (actions, .ok drawn) =>
      let (others, result) := drawAll r s several (number + 1) rest
      (actions ++ others, result.map (drawn && ·))

/-- The plan for a request. -/
def plan (r : Request) (read : Path → Except FileFailure String) : Except UsageFault Plan := do
  let expressions ← r.expressions read
  if r.outputFormat = .png ∧ r.output = none then throw .pathMissing
  let s ← r.settings.mapError .settings
  let several := decide (1 < expressions.length)
  let folder := match r.output with
    | some path => if several then [Action.needFolder path] else []
    | none => []
  let (actions, result) := r.drawAll s several 1 expressions
  return { level := r.level, actions := folder ++ actions,
           ending := result.map fun drawn => if drawn then 0 else 1 }

end Request

/-- The plan for a command line. -/
def Plan.ofArguments (arguments : List String) (read : Path → Except FileFailure String) : Plan :=
  let planned := do
    let r ← Request.ofArguments arguments
    (r.plan read).mapError .refused
  match planned with
  | .ok plan => plan
  | .error .help => ⟨.warning, [.print helpText], .ok 0⟩
  | .error (.refused f) =>
    ⟨.warning, [.report (usage ++ programName ++ ": error: " ++ f.message ++ "\n")], .ok 2⟩

/-- A command line carried out in memory: the session it ends with, and the status or what the
program broke with. -/
def Session.run (store : FileStore) (arguments : List String) : Session × Except Breakdown Nat :=
  let plan := Plan.ofArguments arguments store.read
  match (Session.start plan.level store).performAll plan.actions with
  | (s, none) => (s, plan.ending)
  | (s, some f) => (s, .error (.file f))

end Tromp

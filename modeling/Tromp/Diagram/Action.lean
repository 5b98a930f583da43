import Tromp.Diagram.Basic
import Tromp.Diagram.Format
import Tromp.Storage.Store

/-!
# Actions

What the program does is a list of actions, done one after another until one fails.  The list can be
made without doing any of them, and ends early where a diagram has no sketch.  A session does them in
memory: it keeps a store, what was printed and reported, and the pictures that were handed on to be
made into images.  Of the records a session reports those that matter enough.
-/

namespace Tromp

/-- Something the program does. -/
inductive Action where
  /-- Prints a text. -/
  | print (text : String)
  /-- Reports a text apart from what is printed. -/
  | report (text : String)
  /-- Reports a record, if it matters enough. -/
  | tell (record : Record)
  /-- Makes a folder, and those around it, unless they are there. -/
  | needFolder (path : Path)
  | write (path : Path) (content : String)
  /-- Makes a picture into an image. -/
  | image (picture : Picture) (path : Path)

/-- A path whose suffix tells no format. -/
structure UnknownFormat where
  path : Path
deriving DecidableEq, Repr

/-- The text of the fault that a path tells no format. -/
def UnknownFormat.message (u : UnknownFormat) : String :=
  "cannot guess the format of " ++ u.path.text ++ ", use .svg, .png or .txt"

namespace Diagram

/-- The text of a diagram outside a terminal. -/
def ascii (d : Diagram) : Except RasterFault String := (d.sketch none).map Sketch.text

/-- What is told while a diagram is sketched outside a terminal, and what is then done with its text
and a line end. -/
def useText (d : Diagram) (act : String → Action) : List Action × Except RasterFault Unit :=
  let told := (d.sketchRecords none).map Action.tell
  match d.ascii with
  | .ok text => (told ++ [act (text ++ "\n")], .ok ())
  | .error fault => (told, .error fault)

/-- Writes a diagram in a format. -/
def write (d : Diagram) (f : Format) (path : Path) : List Action × Except RasterFault Unit :=
  match f with
  | .svg => ([.write path d.svg], .ok ())
  | .png => ([.image d.picture path, .tell (.savedImage path)], .ok ())
  | .ascii => d.useText (.write path)

/-- Writes a diagram in the format that a path tells. -/
def save (d : Diagram) (path : Path) :
    Except UnknownFormat (List Action × Except RasterFault Unit) :=
  match Format.ofPath? path with
  | some f => .ok (d.write f path)
  | none => .error ⟨path⟩

end Diagram

/-- What has become of some actions. -/
structure Session where
  /-- The least severity of the records it reports. -/
  level : Severity
  store : FileStore
  printed : String
  reported : String
  /-- The pictures to be made into images, with the paths for the images. -/
  images : List (Picture × Path)

namespace Session

/-- A session with a store, before anything has happened. -/
def start (level : Severity) (store : FileStore) : Session := ⟨level, store, "", "", []⟩

/-- Does an action. -/
def perform (s : Session) : Action → Except FileFailure Session
  | .print text => .ok { s with printed := s.printed ++ text }
  | .report text => .ok { s with reported := s.reported ++ text }
  | .tell record =>
    .ok { s with reported := s.reported ++ record.linesFrom s.level }
  | .needFolder path => (s.store.needFolders path).map fun store => { s with store }
  | .write path content => (s.store.write path content).map fun store => { s with store }
  | .image picture path => .ok { s with images := s.images ++ [(picture, path)] }

/-- Does some actions until one fails. -/
def performAll (s : Session) : List Action → Session × Option FileFailure
  | [] => (s, none)
  | a :: rest =>
    match s.perform a with
    | .ok s => s.performAll rest
    | .error f => (s, some f)

end Session

end Tromp

import RoutePolicy.Command.FileTree
import RoutePolicy.Command.Options
import RoutePolicy.Document.Format
import RoutePolicy.Document.Report
import RoutePolicy.Net.Dot
import RoutePolicy.Text.Words
import RoutePolicy.Toml.Reader
import RoutePolicy.Toml.Source

set_option autoImplicit false

/-! # The command

What the command does, in terms of what its surroundings let it do. In this way the same text runs
on a disk and on a tree of files. -/

namespace RoutePolicy

/-- Surroundings in which the command can run. -/
class Host (m : Type → Type) where
  /-- There is something on the path. -/
  contains : String → m Bool
  /-- The text of a file, if it can be read. -/
  read : String → m (Option String)
  /-- Writing a text to a file, for which folders are made; whether it worked. -/
  write : String → String → m Bool
  print : String → m Unit

/-- How the command ends. -/
inductive ExitStatus where
  /-- No rule is violated. -/
  | compliant
  | violated
  /-- The command could not do what it was asked to do. -/
  | failed
  deriving DecidableEq, Repr

/-- The number that the command returns. -/
def ExitStatus.code : ExitStatus → Nat
  | .compliant => 0
  | .violated => 1
  | .failed => 2

/-- The settings that a TOML text gives. -/
def Config.ofToml? (s : String) : Option Config := do read? (← Toml.parse s)

namespace Command

variable {m : Type → Type} [Monad m] [Host m]

/-- The settings in a file, or the standard ones if there is none. -/
def loadConfig (path : String) : OptionT m Config := do
  if ← Host.contains (m := m) path then
    let text ← OptionT.mk (Host.read path)
    OptionT.mk (pure (Config.ofToml? text))
  else return .standard

/-- The request in a file. -/
def loadRequest (path : String) : OptionT m Request := do
  let text ← OptionT.mk (Host.read path)
  OptionT.mk (pure ((Format.ofPath path).read? text))

/-- Writing a file that was asked for. -/
def save (path : Option String) (text : String) : OptionT m Unit :=
  match path with
  | none => pure ()
  | some path => do if !(← Host.write (m := m) path text) then failure

/-- Writing the step graph, if that was asked for. There has to be one. -/
def saveStepGraph (path : Option String) (analysis : Analysis) : OptionT m Unit :=
  match path with
  | none => pure ()
  | some _ =>
    match analysis.stateSpace with
    | .error _ => failure
    | .ok (steps, _) => save path steps.dot

/-- Verifying a request: graphs are written first, then the report is printed, then it is written.
What was written before a failure stays. -/
def verify (options : Options) : OptionT m Bool := do
  let config ← loadConfig options.config
  let request ← loadRequest options.input
  let analysis := config.analyse request.route
  save options.dot analysis.route.net.dot
  saveStepGraph options.stepDot analysis
  let report := analysis.report config request.resources
  Host.print (m := m) report.text
  save options.output (toJsonText report)
  return report.isCompliant

/-- The command with the given arguments, before which stand those of the flags. -/
def run (flags : String) (arguments : List String) : m ExitStatus := do
  let some words := Text.words flags | return .failed
  match Options.ofArguments (words ++ arguments) with
  | .error .displayHelp => do
    Host.print Options.helpText
    return .compliant
  | .error .displayVersion => do
    Host.print Options.versionText
    return .compliant
  | .error _ => return .failed
  | .ok options => do
    match ← (verify options).run with
    | none => return .failed
    | some true => return .compliant
    | some false => return .violated

end Command

/-! ## Running on a tree of files -/

/-- A tree of files, and what has been printed. -/
structure Desk where
  tree : FileTree
  printed : String

instance : Host (StateM Desk) where
  contains path := do return (← get).tree.contains path
  read path := do return (← get).tree.read? path
  write path text := do
    let desk ← get
    match desk.tree.write? path text with
    | none => return false
    | some tree => do
      set (Desk.mk tree (if tree.prints path then desk.printed ++ text else desk.printed))
      return true
  print text := modify fun desk => { desk with printed := desk.printed ++ text }

/-- The command on a tree of files: how it ends, what it has printed, and the tree after it. -/
def FileTree.command (tree : FileTree) (flags : String) (arguments : List String) :
    ExitStatus × Desk :=
  (Command.run (m := StateM Desk) flags arguments).run ⟨tree, ""⟩

end RoutePolicy

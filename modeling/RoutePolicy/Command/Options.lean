set_option autoImplicit false

/-! # Options of the command

An option is given by its long name after two hyphens, or by its letter after one; its value
follows an equals sign, the letter, or as the next argument. -/

namespace RoutePolicy

/-- What the command is asked to do. -/
structure Options where
  /-- The request to be verified. -/
  input : String
  config : String
  output : Option String
  dot : Option String
  stepDot : Option String
  deriving DecidableEq, Repr

/-- An option with a value. -/
inductive OptionKey where
  | input
  | config
  | output
  | dot
  | stepDot
  deriving DecidableEq, Repr

/-- Why arguments give no options. -/
inductive OptionError where
  | displayHelp
  | displayVersion
  | unknownArgument
  /-- An option without its value. -/
  | invalidValue
  /-- An option that is given twice. -/
  | argumentConflict
  /-- A value for an option that has none. -/
  | tooManyValues
  | missingRequiredArgument
  deriving DecidableEq, Repr

/-- What a name of an option stands for. -/
inductive OptionMeaning where
  | value (key : OptionKey)
  | help
  | version
  deriving DecidableEq, Repr

namespace OptionMeaning

/-- The meaning of a long name. -/
def ofName? : String → Option OptionMeaning
  | "input" => some (.value .input)
  | "config" => some (.value .config)
  | "output" => some (.value .output)
  | "dot" => some (.value .dot)
  | "step-dot" => some (.value .stepDot)
  | "help" => some .help
  | "version" => some .version
  | _ => none

/-- The meaning of a letter. -/
def ofLetter? : Char → Option OptionMeaning
  | 'i' => some (.value .input)
  | 'c' => some (.value .config)
  | 'o' => some (.value .output)
  | 'h' => some .help
  | 'V' => some .version
  | _ => none

end OptionMeaning

/-- One argument by its form. -/
inductive Argument where
  /-- Two hyphens alone: no options follow. -/
  | escape
  | long (name : String) (value : Option String)
  | short (letter : Char) (value : Option String)
  | plain (text : String)
  deriving DecidableEq, Repr

/-- The form of an argument. A single hyphen is a plain text. -/
def Argument.ofString (s : String) : Argument :=
  match s.toList with
  | ['-', '-'] => .escape
  | '-' :: '-' :: cs =>
    let name := String.ofList (cs.takeWhile (· ≠ '='))
    match cs.dropWhile (· ≠ '=') with
    | _ :: value => .long name (some (String.ofList value))
    | [] => .long name none
  | '-' :: c :: cs =>
    match cs with
    | [] => .short c none
    | '=' :: value => .short c (some (String.ofList value))
    | value => .short c (some (String.ofList value))
  | _ => .plain s

/-- The options met so far. -/
structure OptionScan where
  values : List (OptionKey × String)
  /-- The last option, and its value if that has been met. It is looked at when it is known that
  no value follows any more. -/
  pending : Option (OptionKey × Option String)

namespace OptionScan

/-- The scan before the first argument. -/
def start : OptionScan := ⟨[], none⟩

/-- The scan with the last option entered. -/
def settle (s : OptionScan) : Except OptionError OptionScan :=
  match s.pending with
  | none => .ok s
  | some (_, none) => .error .invalidValue
  | some (key, some value) =>
    if (s.values.lookup key).isSome then .error .argumentConflict
    else .ok ⟨s.values ++ [(key, value)], none⟩

/-- The scan after an option, with its value if that is part of the same argument. -/
def meet (s : OptionScan) (meaning : OptionMeaning) (value : Option String) :
    Except OptionError OptionScan := do
  let s ← s.settle
  match meaning with
  | .help => throw .displayHelp
  | .version => throw .displayVersion
  | .value key =>
    let s := { s with pending := some (key, value) }
    if value.isSome then s.settle else return s

/-- The options of a scan that is complete. -/
def finish (s : OptionScan) : Except OptionError Options := do
  let s ← s.settle
  let some input := s.values.lookup .input | throw .missingRequiredArgument
  return { input
           config := (s.values.lookup .config).getD "route-verifier.toml"
           output := s.values.lookup .output
           dot := s.values.lookup .dot
           stepDot := s.values.lookup .stepDot }

/-- The options that arguments give. -/
def run (s : OptionScan) : List String → Except OptionError Options
  | [] => s.finish
  | argument :: rest =>
    match Argument.ofString argument with
    | .escape => if rest.isEmpty then s.finish else .error .unknownArgument
    | .long name value =>
      match OptionMeaning.ofName? name with
      | none => .error .unknownArgument
      | some (.value key) => do (← s.meet (.value key) value).run rest
      | some meaning =>
        if value.isSome then .error .tooManyValues else do (← s.meet meaning none).run rest
    | .short letter value =>
      match OptionMeaning.ofLetter? letter with
      | none => .error .unknownArgument
      | some meaning => do (← s.meet meaning value).run rest
    | .plain value =>
      match s.pending with
      | some (key, none) => run { s with pending := some (key, some value) } rest
      | _ => .error .unknownArgument

end OptionScan

namespace Options

/-- The options that arguments give. -/
def ofArguments (arguments : List String) : Except OptionError Options :=
  OptionScan.start.run arguments

/-- The version of the command. -/
def versionText : String := "route-verifier v0.1.0\n"

/-- What the command does, and its options. -/
def helpText : String :=
  String.intercalate "\n"
    [ "Checks usage-control policies against application data-flow routes", "",
      "Usage: route-verifier [OPTIONS] --input <FILE>", "", "Options:",
      "  -i, --input <FILE>     Verification request: a route and the resources it carries",
      "  -c, --config <FILE>    TOML file with exploration bounds and duty tags [default: route-verifier.toml]",
      "  -o, --output <FILE>    Path to file where the JSON report will be stored",
      "      --dot <FILE>       Write the route net as a DOT graph",
      "      --step-dot <FILE>  Write the step graph as a DOT graph",
      "  -h, --help             Print help", "  -V, --version          Print version", "" ]

end Options

end RoutePolicy

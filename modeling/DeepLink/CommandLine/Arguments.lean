import DeepLink.Text

/-!
# Command line arguments

    [--config FILE] decode INPUT
    [--config FILE] encode NAME [KEY=VALUE ...]
    [--config FILE] url NAME [KEY=VALUE ...] [--scheme SCHEME] [--host HOST]
    [--config FILE] normalize INPUT
    [--config FILE] routes

An option takes the text after `=`, or the next argument, which must not look like an
option; it may be given once. After `--` no argument is an option. `--help` and `-h` ask for
help; arguments are taken in order, so an earlier mistake goes before it.
-/
namespace DeepLink.CommandLine

/-! ### Invocations -/

inductive Command where
  | decode (input : Text)
  | encode (name : Text) (params : List Text)
  | url (name : Text) (params : List Text) (scheme host : Option Text)
  | normalize (input : Text)
  | routes
  deriving DecidableEq, Repr

/-- A command, and the file with the configuration. -/
structure Invocation where
  config : Option Text
  command : Command
  deriving DecidableEq, Repr

/-- Why arguments are no invocation. -/
inductive Stop where
  | help
  | misuse
  deriving DecidableEq, Repr

/-! ### Options and values -/

/-- What an argument looks like where options may stand. -/
inductive Argument where
  | endOfOptions
  | long (name : Text) (value : Option Text)
  | short (letter : Char) (rest : Text)
  | plain (text : Text)
  deriving DecidableEq, Repr

/-- Tell what an argument looks like. A single hyphen is plain. -/
def Argument.read (argument : Text) : Argument :=
  match argument with
  | ['-', '-'] => .endOfOptions
  | '-' :: '-' :: option =>
    match Text.cut? '=' option with
    | some (name, value) => .long name (some value)
    | none => .long option none
  | '-' :: letter :: rest => .short letter rest
  | _ => .plain argument

/-- The value of an option and the arguments after it. -/
def optionValue (attached : Option Text) (arguments : List Text) :
    Except Stop (Text × List Text) :=
  match attached, arguments with
  | some value, rest => .ok (value, rest)
  | none, next :: rest =>
    match Argument.read next with
    | .plain value => .ok (value, rest)
    | _ => .error .misuse
  | none, [] => .error .misuse

theorem length_of_optionValue {attached : Option Text} {arguments rest : List Text}
    {value : Text} (read : optionValue attached arguments = .ok (value, rest)) :
    rest.length ≤ arguments.length := by
  unfold optionValue at read
  split at read
  · simp_all
  · split at read
    · simp_all
    · simp at read
  · simp at read

/-- The arguments of a command, sorted into values and options. -/
structure Collected where
  values : List Text := []
  options : List (Text × Text) := []

/-- Sort the arguments of a command with the given options and at most so many values. -/
def collect (known : List Text) (most : Option Nat) (optionsEnded : Bool) (collected : Collected)
    (arguments : List Text) : Except Stop Collected := do
  match arguments with
  | [] => return collected
  | argument :: rest =>
    match if optionsEnded then .plain argument else Argument.read argument with
    | .plain value =>
      -- A value too many is a mistake before all that follows it.
      if most.any (· ≤ collected.values.length) then throw .misuse
      else
        collect known most optionsEnded
          { collected with values := collected.values ++ [value] } rest
    | .endOfOptions => collect known most true collected rest
    | .short letter _ => throw (if letter = 'h' then .help else .misuse)
    | .long name attached =>
      if name = "help".toList ∧ attached = none then throw .help
      else if !known.contains name || (collected.options.lookup name).isSome then throw .misuse
      else
        match found : optionValue attached rest with
        | .error stop => throw stop
        | .ok (value, later) =>
          have := length_of_optionValue found
          collect known most optionsEnded
            { collected with options := (name, value) :: collected.options } later
  termination_by arguments.length

/-! ### Commands -/

def inputCommand (make : Text → Command) (arguments : List Text) : Except Stop Command := do
  match (← collect [] (some 1) false {} arguments).values with
  | [input] => return make input
  | _ => throw .misuse

def readCommand (name : Text) (arguments : List Text) : Except Stop Command := do
  if name = "decode".toList then inputCommand .decode arguments
  else if name = "normalize".toList then inputCommand .normalize arguments
  else if name = "encode".toList then
    match (← collect [] none false {} arguments).values with
    | route :: params => return .encode route params
    | [] => throw .misuse
  else if name = "url".toList then
    let scheme := "scheme".toList
    let host := "host".toList
    let collected ← collect [scheme, host] none false {} arguments
    match collected.values with
    | route :: params =>
      return .url route params (collected.options.lookup scheme) (collected.options.lookup host)
    | [] => throw .misuse
  else if name = "routes".toList then
    let _ ← collect [] (some 0) false {} arguments
    return .routes
  else if name = "help".toList then throw (helpOn arguments)
  else throw .misuse
where
  helpOn (topics : List Text) : Stop :=
    let commands := ["decode", "encode", "url", "normalize", "routes", "help"].map String.toList
    match topics with
    | [] => .help
    | [topic] => if commands.contains topic then .help else .misuse
    | _ => .misuse

def readInvocation (config : Option Text) : List Text → Except Stop Invocation
  | [] => .error .misuse
  | argument :: rest =>
    match Argument.read argument with
    | .plain name => do return { config, command := ← readCommand name rest }
    | .short 'h' _ => .error .help
    | .long name none => .error (if name = "help".toList then .help else .misuse)
    | _ => .error .misuse

/-- The value attached to an argument that names the configuration file, `--config` or `-c`. -/
def configOption? (argument : Text) : Option (Option Text) :=
  match Argument.read argument with
  | .long name attached => if name = "config".toList then some attached else none
  | .short 'c' [] => some none
  | .short 'c' ('=' :: file) => some (some file)
  | .short 'c' file => some (some file)
  | _ => none

def read (arguments : List Text) : Except Stop Invocation := do
  match arguments.head?.bind configOption? with
  | some attached =>
    let (file, rest) ← optionValue attached (arguments.drop 1)
    if file = [] then throw .misuse
    -- A second configuration file is no command, hence a mistake.
    readInvocation (some file) rest
  | none => readInvocation none arguments

end DeepLink.CommandLine

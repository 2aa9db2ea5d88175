/-!
# Arguments

How the arguments of a command are told apart: options with one or two hyphens, the values
of options, and words. A value follows its option, or is attached to it by an equals sign;
one-letter options may share a hyphen. After two hyphens that stand alone, all is words.
-/

set_option autoImplicit false

namespace LocaleLint.CommandLine

/-- Why arguments are not obeyed: they ask for the version or for help, there are none, or
they are not understood. -/
inductive Stop where
  | version
  | help
  | nothing
  | misuse
deriving DecidableEq, Repr

/-- An option of a command. Some options stop the reading of arguments. -/
structure OptionSpec where
  name : String
  letter : Option Char := none
  takesValue : Bool := true
  repeatable : Bool := false
  stop : Option Stop := none
deriving DecidableEq, Repr

/-- How many words a command takes. -/
inductive WordCount where
  | none
  | one
  | many
deriving DecidableEq, Repr

/-- What a command understands. The name of a further command ends its own arguments. -/
structure Spec where
  options : List OptionSpec
  words : WordCount := .none
  commands : List String := []
deriving DecidableEq, Repr

/-- What arguments give: options with their values, and words, all in order. An option
without a value has an empty one here. -/
structure Given where
  options : List (String × String) := []
  words : List String := []
deriving DecidableEq, Repr

namespace Given

/-- Whether an option is given. -/
def has (given : Given) (name : String) : Bool :=
  given.options.any (·.1 = name)

/-- The value of an option. -/
def value? (given : Given) (name : String) : Option String :=
  given.options.lookup name

/-- The values of an option, in order. -/
def values (given : Given) (name : String) : List String :=
  (given.options.filter (·.1 = name)).map (·.2)

/-- Whether nothing is given. -/
def isEmpty (given : Given) : Bool :=
  given.options.isEmpty && given.words.isEmpty

/-- Adds an option. Only some options may be given again. -/
def addOption (given : Given) (option : OptionSpec) (value : String) : Except Stop Given :=
  match option.stop with
  | some stop => .error stop
  | none =>
    if given.has option.name && !option.repeatable then .error .misuse
    else .ok { given with options := given.options ++ [(option.name, value)] }

/-- Adds a word, if there is room for one. -/
def addWord (spec : Spec) (given : Given) (word : String) : Except Stop Given :=
  let added := { given with words := given.words ++ [word] }
  match spec.words with
  | .none => .error .misuse
  | .one => if given.words.isEmpty then .ok added else .error .misuse
  | .many => .ok added

end Given

/-- An argument by its form. -/
inductive Form where
  | separator
  | long (name : String) (value : Option String)
  | letters (letters : List Char)
  | word
deriving DecidableEq, Repr

/-- What stands after the first equals sign, if there is one. -/
def attachedValue (s : List Char) : Option String :=
  match s.dropWhile (· ≠ '=') with
  | [] => none
  | _ :: value => some (String.ofList value)

/-- The form of an argument. A single hyphen is a word. -/
def Form.ofArgument (argument : String) : Form :=
  match argument.toList with
  | ['-', '-'] => .separator
  | '-' :: '-' :: body => .long (String.ofList (body.takeWhile (· ≠ '='))) (attachedValue body)
  | '-' :: c :: rest => .letters (c :: rest)
  | _ => .word

/-- Reads options of one letter. The first that takes a value takes what is left, or else
waits for the next argument. -/
def readLetters (spec : Spec) (given : Given) :
    List Char → Except Stop (Given × Option OptionSpec)
  | [] => .ok (given, none)
  | c :: rest =>
    match spec.options.find? (·.letter = some c) with
    | none => .error .misuse
    | some option =>
      if option.takesValue then
        match rest with
        | [] => .ok (given, some option)
        | d :: value =>
          (given.addOption option (String.ofList (if d = '=' then value else rest))).map
            fun given => (given, none)
      else
        match given.addOption option "" with
        | .ok given => readLetters spec given rest
        | .error stop => .error stop

/-- Reads one argument that is no value of an option before it. Gives what is given then,
and the option that waits for its value. -/
def readArgument (spec : Spec) (given : Given) (argument : String) :
    Except Stop (Given × Option OptionSpec) :=
  match Form.ofArgument argument with
  | .long name value =>
    match spec.options.find? (·.name = name), value with
    | none, _ => .error .misuse
    | some option, some value =>
      if option.takesValue then (given.addOption option value).map fun given => (given, none)
      else .error .misuse
    | some option, none =>
      if option.takesValue then .ok (given, some option)
      else (given.addOption option "").map fun given => (given, none)
  | .letters letters => readLetters spec given letters
  | _ => (given.addWord spec argument).map fun given => (given, none)

/-- Reads arguments after an option that may wait for its value. Gives what is left from the
name of a further command on. -/
def readAll (spec : Spec) (given : Given) (waiting : Option OptionSpec) :
    List String → Except Stop (Given × List String)
  | [] => if waiting.isSome then .error .misuse else .ok (given, [])
  | argument :: rest =>
    match waiting with
    | some option =>
      if Form.ofArgument argument = .word then
        match given.addOption option argument with
        | .ok given => readAll spec given none rest
        | .error stop => .error stop
      else .error .misuse
    | none =>
      if Form.ofArgument argument = .separator then
        (rest.foldlM (Given.addWord spec) given).map fun given => (given, [])
      else if spec.commands.contains argument then .ok (given, argument :: rest)
      else
        match readArgument spec given argument with
        | .ok (given, waiting) => readAll spec given waiting rest
        | .error stop => .error stop

end LocaleLint.CommandLine

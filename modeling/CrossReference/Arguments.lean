import CrossReference.FileReport

/-!
# Command line arguments

`Arguments.read` turns the arguments of the command line into a `Request`, or says what is wrong
with them.  A value may follow its option as the next argument, behind an equals sign, or, for a
short option, directly.  The value of an option is examined only when the next option or the end is
reached, so that an unknown argument right behind a bad value is what gets reported.
-/

set_option autoImplicit false

namespace CrossReference

inductive ArgumentError where
  | unknownArgument
  | invalidValue
  | argumentConflict
  | missingRequiredArgument
  | missingSubcommand
  | invalidSubcommand
  | tooManyValues
  | displayHelp
  | displayVersion
  | displayHelpOnMissing
  deriving DecidableEq

def ArgumentError.name : ArgumentError → String
  | .unknownArgument => "UnknownArgument"
  | .invalidValue => "InvalidValue"
  | .argumentConflict => "ArgumentConflict"
  | .missingRequiredArgument => "MissingRequiredArgument"
  | .missingSubcommand => "MissingSubcommand"
  | .invalidSubcommand => "InvalidSubcommand"
  | .tooManyValues => "TooManyValues"
  | .displayHelp => "DisplayHelp"
  | .displayVersion => "DisplayVersion"
  | .displayHelpOnMissing => "DisplayHelpOnMissingArgumentOrSubcommand"

inductive Format where
  | json
  | text
  deriving DecidableEq

def Format.name : Format → String
  | .json => "json"
  | .text => "text"

def Format.ofName? (name : String) : Option Format :=
  if name = "json" then some .json else if name = "text" then some .text else none

inductive Target where
  | file (path : String)
  /-- The tables of all files that match a pattern. -/
  | glob (pattern : String)
  deriving DecidableEq

structure Request where
  target : Target
  verbose : Bool
  format : Format
  options : AnalysisOptions
  deriving DecidableEq

namespace Arguments

inductive Command where
  | table
  | scan
  deriving DecidableEq

def Command.ofName? (name : String) : Option Command :=
  if name = "table" then some .table else if name = "scan" then some .scan else none

inductive Parameter where
  | file
  | glob
  | language
  | format
  | excludeSelfReferences
  | skipInactive
  | strict
  | failFast
  | verbose
  | help
  | version
  deriving DecidableEq

namespace Parameter

def long : Parameter → String
  | .file => "file"
  | .glob => "glob"
  | .language => "language"
  | .format => "format"
  | .excludeSelfReferences => "exclude-self-references"
  | .skipInactive => "skip-inactive"
  | .strict => "strict"
  | .failFast => "fail-fast"
  | .verbose => "verbose"
  | .help => "help"
  | .version => "version"

def short : Parameter → Option Char
  | .file => some 'f'
  | .glob => some 'g'
  | .verbose => some 'v'
  | .help => some 'h'
  | .version => some 'V'
  | .language | .format | .excludeSelfReferences | .skipInactive | .strict | .failFast => none

def takesValue : Parameter → Bool
  | .file | .glob | .language | .format => true
  | .excludeSelfReferences | .skipInactive | .strict | .failFast | .verbose | .help | .version =>
      false

def accepts : Parameter → String → Bool
  | .file, value => !value.isEmpty
  | .language, value => (Language.ofName? value).isSome
  | .format, value => (Format.ofName? value).isSome
  | _, _ => true

end Parameter

def generalParameters : List Parameter := [.verbose, .help, .version]

def Command.parameters : Command → List Parameter
  | .table => [.file, .language, .format, .excludeSelfReferences, .skipInactive, .strict, .verbose,
      .help]
  | .scan => [.glob, .language, .format, .excludeSelfReferences, .skipInactive, .strict, .failFast,
      .verbose, .help]

structure Reading where
  /-- The options with their values, which have been examined. -/
  given : List (Parameter × String)
  /-- An option that is still to be examined, with its value if that has been read. -/
  pending : Option (Parameter × Option String)
  deriving DecidableEq

namespace Reading

def empty : Reading := ⟨[], none⟩

def value? (reading : Reading) (parameter : Parameter) : Option String :=
  (reading.given.find? (·.1 = parameter)).map (·.2)

def has (reading : Reading) (parameter : Parameter) : Bool :=
  (reading.value? parameter).isSome

def record (reading : Reading) (parameter : Parameter) (value : String) :
    Except ArgumentError Reading :=
  if reading.has parameter then .error .argumentConflict
  else if parameter.accepts value then
    .ok { reading with given := reading.given ++ [(parameter, value)] }
  else .error .invalidValue

def settle (reading : Reading) : Except ArgumentError Reading :=
  match reading.pending with
  | none => .ok reading
  | some (_, none) => .error .invalidValue
  | some (parameter, some value) => { reading with pending := none }.record parameter value

/-- Whether the next argument is the value of an option, unless it is itself an option. -/
def awaitsValue (reading : Reading) : Bool :=
  match reading.pending with
  | some (_, none) => true
  | _ => false

def supply (reading : Reading) (value : String) : Reading :=
  { reading with pending := reading.pending.map fun (parameter, _) => (parameter, some value) }

def raise (reading : Reading) (parameter : Parameter) : Except ArgumentError Reading := do
  let settled ← reading.settle
  match parameter with
  | .help => throw .displayHelp
  | .version => throw .displayVersion
  | _ => settled.record parameter "true"

def begin? (reading : Reading) (parameter : Parameter) (attached : Option String) :
    Except ArgumentError Reading := do
  let settled ← reading.settle
  match attached with
  | some value => settled.record parameter value
  | none => return { settled with pending := some (parameter, none) }

def readLong (available : List Parameter) (reading : Reading) (text : List Char) :
    Except ArgumentError Reading :=
  let name := String.ofList (text.takeWhile (· ≠ '='))
  let attached :=
    match text.dropWhile (· ≠ '=') with
    | [] => none
    | _ :: value => some (String.ofList value)
  match available.find? (·.long = name) with
  | none => .error .unknownArgument
  | some parameter =>
      if parameter.takesValue then reading.begin? parameter attached
      else if attached.isSome then .error .tooManyValues
      else reading.raise parameter

/-- Read the letters of short options.  The first one that has a value takes the rest for it, less
an equals sign in front. -/
def readShort (available : List Parameter) : List Char → Reading → Except ArgumentError Reading
  | [], reading => .ok reading
  | letter :: rest, reading =>
      match available.find? (·.short = some letter) with
      | none => .error .unknownArgument
      | some parameter =>
          if parameter.takesValue then
            match rest with
            | [] => reading.begin? parameter none
            | '=' :: value => reading.begin? parameter (some (String.ofList value))
            | value => reading.begin? parameter (some (String.ofList value))
          else
            match reading.raise parameter with
            | .ok raised => readShort available rest raised
            | .error error => .error error

end Reading

inductive Shape where
  /-- Two dashes alone: no options follow. -/
  | escape
  | long (text : List Char)
  | short (letters : List Char)
  | plain
  deriving DecidableEq

def shapeOf (argument : String) : Shape :=
  match argument.toList with
  | ['-', '-'] => .escape
  | '-' :: '-' :: text => .long text
  | '-' :: letter :: letters => .short (letter :: letters)
  | _ => .plain

def readOptions (available : List Parameter) :
    List String → Reading → Except ArgumentError Reading
  | [], reading => reading.settle
  | argument :: rest, reading =>
      match shapeOf argument with
      | .escape => if rest.isEmpty then reading.settle else .error .unknownArgument
      | .long text =>
          match reading.readLong available text with
          | .ok read => readOptions available rest read
          | .error error => .error error
      | .short letters =>
          match Reading.readShort available letters reading with
          | .ok read => readOptions available rest read
          | .error error => .error error
      | .plain =>
          if reading.awaitsValue then readOptions available rest (reading.supply argument)
          else .error .unknownArgument

def analysisOf (reading : Reading) : AnalysisOptions where
  language := (reading.value? .language).bind Language.ofName?
  errorRecovery := !reading.has .strict
  failFast := reading.has .failFast
  declarationsAsReferences := false
  table := {
    includeInactive := !reading.has .skipInactive
    selfReferences := if reading.has .excludeSelfReferences then .exclude else .preserve }

def targetOf? (command : Command) (reading : Reading) : Option Target :=
  match command with
  | .table => (reading.value? .file).map .file
  | .scan => (reading.value? .glob).map .glob

def readCommand (general : Reading) (command : Command) (arguments : List String) :
    Except ArgumentError Request := do
  let reading ← readOptions command.parameters arguments Reading.empty
  match targetOf? command reading with
  | none => throw .missingRequiredArgument
  | some target => return {
      target
      verbose := general.has .verbose || reading.has .verbose
      format := ((reading.value? .format).bind Format.ofName?).getD .json
      options := analysisOf reading }

def readHelp (arguments : List String) : ArgumentError :=
  match arguments with
  | [] => .displayHelp
  | [name] =>
      if (Command.ofName? name).isSome || name = "help" then .displayHelp else .invalidSubcommand
  | _ :: _ :: _ => .invalidSubcommand

/-- Read the arguments from the one on that follows the given general options. -/
def readFrom : List String → Reading → Except ArgumentError Request
  | [], general =>
      .error (if general.given.isEmpty then .displayHelpOnMissing else .missingSubcommand)
  | argument :: rest, general =>
      match shapeOf argument with
      | .escape =>
          match rest with
          | [] =>
              .error (if general.given.isEmpty then .displayHelpOnMissing else .missingSubcommand)
          | next :: _ =>
              if (Command.ofName? next).isSome || next = "help" then .error .unknownArgument
              else .error .invalidSubcommand
      | .long text =>
          match general.readLong generalParameters text with
          | .ok read => readFrom rest read
          | .error error => .error error
      | .short letters =>
          match Reading.readShort generalParameters letters general with
          | .ok read => readFrom rest read
          | .error error => .error error
      | .plain =>
          if argument = "help" then .error (readHelp rest)
          else
            match Command.ofName? argument with
            | some command => readCommand general command rest
            | none => .error .invalidSubcommand

def read (arguments : List String) : Except ArgumentError Request :=
  readFrom arguments Reading.empty

end Arguments

end CrossReference

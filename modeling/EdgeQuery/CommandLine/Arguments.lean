import EdgeQuery.CommandLine

/-!
The reader of arguments of the executable; what is proved of the command holds with any other. Two
flags may stand before or behind the name of the subcommand, or in both places, but only once in
each. The environment can ask for the relaxed dialect too; it is consulted in each of the two places
where the flag is missing, and has to make sense there.
-/

namespace EdgeQuery

/-- Why nothing is to be done. -/
inductive Refusal
  | usage
  | help
  | version
deriving DecidableEq, Repr

/-- An argument by its form. -/
inductive Argument
  /-- Two hyphens, behind which there are no options. -/
  | endOfOptions
  | long (name : String) (value : Option String)
  | short (letters : List Char)
  | plain (text : String)
deriving DecidableEq, Repr

def Argument.ofText (text : String) : Argument :=
  match text.toList with
  | ['-', '-'] => .endOfOptions
  | '-' :: '-' :: rest =>
    let name := String.ofList (rest.takeWhile (· != '='))
    match rest.dropWhile (· != '=') with
    | [] => .long name none
    | _ :: value => .long name (some (String.ofList value))
  | '-' :: letter :: letters => .short (letter :: letters)
  | _ => .plain text

/-- The flags that stand at one place. -/
structure Flags where
  ignoreCase : Bool
  verbose : Bool

inductive Flag
  | ignoreCase | verbose | help | version

def Flag.ofLong? (name : String) : Option Flag :=
  match name with
  | "case-insensitive" => some .ignoreCase
  | "verbose" => some .verbose
  | "help" => some .help
  | "version" => some .version
  | _ => none

def Flag.ofShort? (letter : Char) : Option Flag :=
  match letter with
  | 'v' => some .verbose
  | 'h' => some .help
  | 'V' => some .version
  | _ => none

namespace Flags

def none : Flags := ⟨false, false⟩

/-- Notes a flag, which must not stand twice at one place. -/
def note (flags : Flags) (flag : Option Flag) : Except Refusal Flags :=
  match flag with
  | some .ignoreCase =>
    if flags.ignoreCase then .error .usage else .ok { flags with ignoreCase := true }
  | some .verbose =>
    if flags.verbose then .error .usage else .ok { flags with verbose := true }
  | some .help => .error .help
  | some .version => .error .version
  | Option.none => .error .usage

end Flags

/-- The subcommands. -/
inductive Subcommand
  | parse | check | tokens
deriving DecidableEq, Repr

def Subcommand.ofName? (name : String) : Option Subcommand :=
  match name with
  | "parse" => some .parse
  | "check" => some .check
  | "tokens" => some .tokens
  | _ => none

/-- What has been read of the arguments of a subcommand. -/
structure Progress where
  flags : Flags
  format : Option OutputFormat
  files : List String

namespace Progress

/-- Notes a flag. There is only one version, that of the whole command. -/
def note (progress : Progress) (flag : Option Flag) : Except Refusal Progress :=
  match flag with
  | some .version => .error .usage
  | _ => (progress.flags.note flag).map fun flags => { progress with flags := flags }

/-- Notes a file. Only `check` takes more than one. -/
def addFile (subcommand : Subcommand) (progress : Progress) (file : String) :
    Except Refusal Progress :=
  if file.isEmpty || (subcommand ≠ .check && !progress.files.isEmpty) then .error .usage
  else .ok { progress with files := progress.files ++ [file] }

/-- Notes the format, which must not be given twice. -/
def setFormat (progress : Progress) (name : String) : Except Refusal Progress :=
  match progress.format, OutputFormat.ofName? name with
  | none, some format => .ok { progress with format := some format }
  | _, _ => .error .usage

/-- Reads a group of short options. The outcome says whether the value of the last one is still to
come. -/
def readLetters (subcommand : Subcommand) (progress : Progress) :
    List Char → Except Refusal (Progress × Bool)
  | [] => .ok (progress, false)
  | letter :: letters =>
    if letter = 'f' ∧ subcommand = .parse then
      match letters with
      | [] => .ok (progress, true)
      | '=' :: value => (progress.setFormat (String.ofList value)).map (·, false)
      | value => (progress.setFormat (String.ofList value)).map (·, false)
    else do readLetters subcommand (← progress.note (Flag.ofShort? letter)) letters

/-- Reads an argument. The outcome says whether it is an option whose value is still to come. -/
def readOption (subcommand : Subcommand) (progress : Progress) (argument : Argument) :
    Except Refusal (Progress × Bool) :=
  match argument with
  | .endOfOptions => .error .usage
  | .plain file => (progress.addFile subcommand file).map (·, false)
  | .short letters => progress.readLetters subcommand letters
  | .long "format" value =>
    match subcommand, value with
    | .parse, some name => (progress.setFormat name).map (·, false)
    | .parse, none => .ok (progress, true)
    | _, _ => .error .usage
  | .long name none => (progress.note (Flag.ofLong? name)).map (·, false)
  | .long _ (some _) => .error .usage

/-- Reads the value of an option that was given without one. -/
def readValue (progress : Progress) (argument : Argument) : Except Refusal Progress :=
  match argument with
  | .plain name => progress.setFormat name
  | _ => .error .usage

/-- Reads the arguments of a subcommand. -/
def readAll (subcommand : Subcommand) (progress : Progress) :
    List String → Except Refusal Progress
  | [] => .ok progress
  | text :: rest =>
    match Argument.ofText text with
    | .endOfOptions => rest.foldlM (addFile subcommand) progress
    | argument => do
      let (progress, awaitsValue) ← progress.readOption subcommand argument
      if awaitsValue then
        match rest with
        | [] => .error .usage
        | value :: rest =>
          readAll subcommand (← progress.readValue (Argument.ofText value)) rest
      else readAll subcommand progress rest

/-- The command that the arguments make up. -/
def command (subcommand : Subcommand) (progress : Progress) : Except Refusal Command :=
  match subcommand, progress.files with
  | .parse, files => .ok (.parse files.head? (progress.format.getD .canonical))
  | .check, [] => .error .usage
  | .check, files => .ok (.check files)
  | .tokens, files => .ok (.tokens files.head?)

end Progress

namespace Invocation

/-- Whether the environment asks to ignore case, where the flag is missing. -/
def caseSetting (given : Bool) (setting : Option String) : Except Refusal Bool :=
  if given then .ok true
  else match setting with
    | none => .ok false
    | some "true" => .ok true
    | some "false" => .ok false
    | some _ => .error .usage

/-- A request for help may name one subcommand. -/
def helpRefusal (rest : List String) : Refusal :=
  match rest with
  | [] => .help
  | [name] => if (Subcommand.ofName? name).isSome || name = "help" then .help else .usage
  | _ => .usage

/-- Reads the subcommand and its arguments. -/
def readSubcommand (flags : Flags) (name : String) (rest : List String)
    (setting : Option String) : Except Refusal Invocation :=
  match Subcommand.ofName? name with
  | none => .error (if name = "help" then helpRefusal rest else .usage)
  | some subcommand => do
    let progress ← Progress.readAll subcommand ⟨Flags.none, none, []⟩ rest
    let command ← progress.command subcommand
    let behind ← caseSetting progress.flags.ignoreCase setting
    let before ← caseSetting flags.ignoreCase setting
    return ⟨before || behind, flags.verbose || progress.flags.verbose, command⟩

/-- Reads the arguments from the flags before the subcommand on. -/
def read (flags : Flags) (setting : Option String) : List String → Except Refusal Invocation
  | [] => .error .usage
  | text :: rest =>
    match Argument.ofText text with
    | .endOfOptions => .error .usage
    | .plain name => readSubcommand flags name rest setting
    | .short letters => do
      read (← letters.foldlM (fun flags letter => flags.note (Flag.ofShort? letter)) flags)
        setting rest
    | .long name none => do read (← flags.note (Flag.ofLong? name)) setting rest
    | .long _ (some _) => .error .usage

/-- What the arguments and the environment's setting ask for. -/
def ofArguments (arguments : List String) (setting : Option String) :
    Except Refusal Invocation :=
  read Flags.none setting arguments

end Invocation

namespace Refusal

def usageLine : String := "Usage: surql [OPTIONS] <COMMAND>\n"

def helpText : String :=
  "Parser and checker for surql query files\n\n" ++ usageLine ++ "\nCommands:\n" ++
  "  parse   Parse a file and print its syntax tree\n" ++
  "  check   Report every syntax error in the given files\n" ++
  "  tokens  Print the token stream as JSON lines\n" ++
  "  help    Print this message or the help of the given subcommand(s)\n\nOptions:\n" ++
  "      --case-insensitive  Recognize keywords regardless of case\n" ++
  "  -v, --verbose           Enable verbose output\n" ++
  "  -h, --help              Print help\n" ++
  "  -V, --version           Print version\n"

def outcome : Refusal → Outcome
  | .usage => ⟨2, "", usageLine⟩
  | .help => ⟨0, helpText, ""⟩
  | .version => ⟨0, "surql 0.1.0\n", ""⟩

end Refusal
end EdgeQuery

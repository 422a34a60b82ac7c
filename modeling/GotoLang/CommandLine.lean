import GotoLang.Engine
import GotoLang.Grammar.Statement
import GotoLang.Program.Outline

set_option autoImplicit false

namespace GotoLang.CommandLine

/-- What the arguments have given so far. -/
structure Options where
  file : Bool
  tokens : Bool
  outline : Bool
  noPrompt : Bool
  verbosity : Nat
  contents? : Option String

def Options.none : Options := ⟨false, false, false, false, 0, Option.none⟩

/-- What ends the reading of arguments early. -/
inductive Early where
  | misuse
  | version
  | help

/-- The options with a flag set; a flag that is given twice is an error. -/
def setOnce (given : Bool) (options : Options) : Except Early Options :=
  if given then .error .misuse else .ok options

def longFlag (options : Options) : String → Except Early Options
  | "file" => setOnce options.file { options with file := true }
  | "tokens" => setOnce options.tokens { options with tokens := true }
  | "ast" => setOnce options.outline { options with outline := true }
  | "no-prompt" => setOnce options.noPrompt { options with noPrompt := true }
  | "verbose" => .ok { options with verbosity := options.verbosity + 1 }
  | "version" => .error .version
  | "help" => .error .help
  | _ => .error .misuse

def shortFlag (options : Options) : Char → Except Early Options
  | 'f' => longFlag options "file"
  | 'v' => longFlag options "verbose"
  | 'V' => longFlag options "version"
  | 'h' => longFlag options "help"
  | _ => .error .misuse

def positional (options : Options) (argument : String) : Except Early Options :=
  match options.contents? with
  | some _ => .error .misuse
  | none => .ok { options with contents? := some argument }

/-- The options with an argument. Letters after one dash are flags each; a dash alone is no
flag. -/
def readArgument (options : Options) (argument : String) : Except Early Options :=
  match argument.toList with
  | '-' :: '-' :: name => longFlag options (String.ofList name)
  | '-' :: letter :: letters => (letter :: letters).foldlM shortFlag options
  | _ => positional options argument

/-- The options that arguments give. After `--` no argument is a flag. -/
def readArguments (options : Options) : List String → Except Early Options
  | [] => .ok options
  | "--" :: rest => rest.foldlM positional options
  | argument :: rest => do readArguments (← readArgument options argument) rest

/-- What to do: execute a source given in place or in a file, or print a text and stop. -/
inductive Command where
  | source (text : String) (options : Options)
  | file (name : String) (options : Options)
  | print (text : String)
  | misuse

def versionText : String := "hopscotch 0.1.0\n"

def ofLines (lines : List String) : String :=
  String.join (lines.map (· ++ "\n"))

def usageLine : String := "Usage: hopscotch [OPTIONS] <CONTENTS>"

def helpText : String :=
  ofLines [
    usageLine,
    "",
    "Arguments:",
    "  <CONTENTS>  The program, or the name of its file",
    "",
    "Options:",
    "  -f, --file        Run the program in a file",
    "      --tokens      Print the tokens before running",
    "      --ast         Print the program tree before running",
    "      --no-prompt   Do not ask for input",
    "  -v, --verbose...  Accepted; may be repeated",
    "  -h, --help        Print help",
    "  -V, --version     Print the version"]

def misuseText : String :=
  ofLines ["error: these arguments are not understood", "", usageLine, "",
    "For more information, try '--help'."]

def Command.ofArguments (arguments : List String) : Command :=
  match readArguments .none arguments with
  | .error .misuse => .misuse
  | .error .version => .print versionText
  | .error .help => .print helpText
  | .ok options =>
    match options.contents? with
    | none => .misuse
    | some contents => if options.file then .file contents options else .source contents options

/-- How the program ends: its exit code and what it says on the error output. -/
structure Ending where
  exitCode : UInt8
  complaint : String

def Ending.success : Ending := ⟨0, ""⟩

def Ending.misuse : Ending := ⟨2, misuseText⟩

def Ending.missingFile (name : String) : Ending :=
  ⟨66, s!"Failed to read the input file '{name}'. Perhaps this file does not exist?\n"⟩

def Ending.ofSourceError (e : SourceError) : Ending := ⟨65, e.message ++ "\n"⟩

def Ending.ofRuntimeError (e : RuntimeError) : Ending := ⟨70, e.message ++ "\n"⟩

def Ending.ofOutcome : Outcome Unit → Ending
  | .ok _ _ => success
  | .error e _ => ofRuntimeError e

/-- A number in at least four columns, with blanks in front. -/
def inFourColumns (n : Nat) : String :=
  let digits := toString n
  String.ofList (List.replicate (4 - digits.length) ' ') ++ digits

def listingLine (l : Lexeme) : String :=
  inFourColumns l.line ++ "  " ++ l.token.toText ++ "\n"

def listing (source : String) : Except SourceError String := do
  return String.join ((← tokenize source).map listingLine)

def outlineText (p : Program) : String := p.outline.toText ++ "\n"

/-- What is printed before a program is executed, and whether it can be. -/
structure Launch where
  preface : String
  result : Except Ending Engine

def launch (options : Options) (source : String) (input : List UInt8) (memory : Nat → Bool) :
    Launch :=
  match if options.tokens then listing source else .ok "" with
  | .error e => ⟨"", .error (.ofSourceError e)⟩
  | .ok tokens =>
    match Program.ofSource source with
    | .error e => ⟨tokens, .error (.ofSourceError e)⟩
    | .ok p =>
      ⟨tokens ++ (if options.outline then outlineText p else ""),
        (Engine.start p input .unlimited (!options.noPrompt) memory).mapError .ofRuntimeError⟩

end GotoLang.CommandLine

import GotoLang.CommandLine
/- Input is fetched line by line: a step that finds none is taken again, from the engine before it,
once a line has come. What it wrote the first time is then not shown twice. -/

set_option autoImplicit false

namespace GotoLang

open CommandLine

/-- The bytes of the next line, none at the end of the input. -/
partial def fetchLine (input : IO.FS.Stream) (line : ByteArray) : IO ByteArray := do
  let byte ← input.read 1
  let line := line ++ byte
  if byte.isEmpty || byte.toList == [10] then return line else fetchLine input line

/-- Writes the output of an engine from a place on. -/
def showFrom (output : IO.FS.Stream) (shown : Nat) (engine : Engine) : IO Unit := do
  let written := engine.world.output.written
  if shown < written.size then
    output.write (written.extract shown written.size)
    output.flush

def forgetOutput (engine : Engine) : Engine :=
  { engine with world := { engine.world with output := .unlimited } }

/-- Runs an engine to its end. So much of the output of its next step is shown already. -/
partial def runToEnd (input output : IO.FS.Stream) (shown : Nat) (engine : Engine) :
    IO Ending := do
  match engine.step with
  | .ok true next =>
    showFrom output shown next
    runToEnd input output 0 (forgetOutput next)
  | .ok false next => return .ofOutcome next.finish
  | .error e next =>
    showFrom output shown next
    match e.fault with
    | .inputExhausted _ =>
      let line ← fetchLine input .empty
      if line.isEmpty then return .ofRuntimeError e
      let world := { engine.world with input := engine.world.input ++ line.toList }
      runToEnd input output next.world.output.written.size { engine with world }
    | _ => return .ofRuntimeError e

/-- The lengths up to which vectors are built. -/
def fitsMemory (length : Nat) : Bool := length ≤ UInt32.size

def runSource (options : Options) (source : String) : IO Ending := do
  let output ← IO.getStdout
  let start := launch options source [] fitsMemory
  output.putStr start.preface
  match start.result with
  | .error ending => return ending
  | .ok engine => runToEnd (← IO.getStdin) output 0 engine

def readSource (name : String) : IO (Option String) := do
  try
    return some (← IO.FS.readFile name)
  catch _ =>
    return none

def runCommand : Command → IO Ending
  | .misuse => return .misuse
  | .print text => do
    (← IO.getStdout).putStr text
    return .success
  | .source text options => runSource options text
  | .file name options => do
    match ← readSource name with
    | some source => runSource options source
    | none => return .missingFile name

end GotoLang

def main (arguments : List String) : IO UInt32 := do
  let ending ← GotoLang.runCommand (.ofArguments arguments)
  (← IO.getStderr).putStr ending.complaint
  (← IO.getStdout).flush
  return ending.exitCode.toUInt32

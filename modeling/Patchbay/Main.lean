/-
  Patchbay.Main — the command line: files, environment and streams around a run.
-/

import Patchbay.Command.Run

namespace Patchbay.Main

/-- The code that says a path leads to a directory. -/
def directoryCode : UInt32 := 21

/-- The code that says a name is too long. -/
def longNameCode : UInt32 := 36

/-- Whether a code from the machine, which comes with either sign, is `expected`. -/
def isCode (expected code : UInt32) : Bool := code = expected || code = 0 - expected

def faultOf : IO.Error → IoFault
  | .noFileOrDirectory .. => .notFound
  | .inappropriateType _ code _ => if isCode directoryCode code then .isADirectory else .notADirectory
  | .invalidArgument file code text =>
    if isCode longNameCode code then .nameTooLong else .other (toString (IO.Error.invalidArgument file code text))
  | e => .other (toString e)

def readFile (p : Path) : IO (Except IoFault (List UInt8)) := do
  try return .ok (← IO.FS.readBinFile p.text).toList
  catch e => return .error (faultOf e)

/-- The given files as they are now; other files are taken not to be there. -/
def snapshot (paths : List Path) : IO Disk := do
  let entries ← paths.mapM fun p => return (p, ← readFile p)
  let read (p : Path) := (entries.lookup p).getD (.error .notFound)
  return ⟨read, fun p => (read p).isOk⟩

def writeFile (p : Path) (text : String) : IO (Except IoFault Unit) := do
  try
    IO.FS.writeFile p.text text
    return .ok ()
  catch e => return .error (faultOf e)

def carryOut : Command.Run → IO Command.Outcome
  | .finished o => return o
  | .write path text after => return after (← writeFile path text)

/-- Where the program's own templates are, seen from where it is started. -/
def shippedTemplates : Path := ⟨"templates"⟩

def start (o : Command.Options) : IO UInt32 := do
  let catalogFile := o.catalog.toList
  let disk ← snapshot catalogFile
  let disk ← snapshot (catalogFile ++ Command.mayRead disk shippedTemplates o)
  let outcome ← carryOut (Command.run disk shippedTemplates o)
  IO.print outcome.output
  for notice in outcome.notices do
    IO.eprintln notice.render
  return outcome.code.toUInt32

end Patchbay.Main

def main (arguments : List String) : IO UInt32 := do
  match Patchbay.Command.Options.ofArguments (← IO.getEnv "G2CSD_TEMPLATES") arguments with
  | .ok options => Patchbay.Main.start options
  | .error .help =>
    IO.print Patchbay.Command.helpText
    return 0
  | .error .version =>
    IO.println s!"g2csd {Patchbay.version}"
    return 0
  | .error (.fault fault) =>
    IO.eprintln s!"error: {fault.message}"
    return 2

import Mos6502.Runner.Run

/-!
# The command line

Sessions of the runner, carried out on the real terminal.
-/

namespace Mos6502.Runner

/-- The number and the description of a failure of the operating system. -/
def systemError? : IO.Error → Option (UInt32 × String)
  | .alreadyExists _ code text | .invalidArgument _ code text | .permissionDenied _ code text
  | .resourceExhausted _ code text | .inappropriateType _ code text | .noSuchThing _ code text
  | .noFileOrDirectory _ code text | .interrupted _ code text | .otherError code text
  | .resourceBusy code text | .resourceVanished code text | .unsupportedOperation code text
  | .hardwareFault code text | .unsatisfiedConstraints code text | .illegalOperation code text
  | .protocolError code text | .timeExpired code text => some (code, text)
  | .unexpectedEof | .userError _ => none

/-- Why an action failed. Some failures carry their number with the sign reversed. -/
def reason (e : IO.Error) : String :=
  match systemError? e with
  | some (code, text) =>
    text.capitalize ++ " (os error " ++ toString (min code (0 - code)).toNat ++ ")"
  | none => toString e

def attempt {α : Type} (action : IO α) : IO (Except String α) := do
  match ← action.toBaseIO with
  | .ok a => pure (.ok a)
  | .error e => pure (.error (reason e))

def createWith (path : String) (content : List UInt8) : IO (Except FileError Unit) := do
  match ← attempt (IO.FS.Handle.mk path .write) with
  | .error reason => pure (.error (.notCreated reason))
  | .ok handle =>
    match ← attempt (handle.write ⟨content.toArray⟩) with
    | .error reason => pure (.error (.notWritten reason))
    | .ok () => pure (.ok ())

def Session.perform {α : Type} : Session α → IO α
  | .done result => pure result
  | .print .output line next => do
    IO.println line
    perform (next ())
  | .print .diagnostics line next => do
    IO.eprintln line
    perform (next ())
  | .read path next => do
    let answer ← attempt (IO.FS.readBinFile path)
    perform (next (answer.map (·.data)))
  | .create path content next => do
    let answer ← createWith path content
    perform (next answer)

end Mos6502.Runner

/-- Run the image that the command line names. -/
def main (words : List String) : IO UInt32 :=
  (Mos6502.Runner.Session.start Mos6502.Runner.Options.read words).perform

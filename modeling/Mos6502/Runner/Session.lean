/-!
# Sessions

What a program does at a terminal: print lines on two channels, read files and create them. A
session is plain data that says what to do next for every answer, so it can be carried out on a real
terminal and also against fixed surroundings.
-/

namespace Mos6502.Runner

inductive FileError where
  | notCreated (reason : String)
  | notWritten (reason : String)
deriving DecidableEq

def FileError.message (path : String) : FileError → String
  | notCreated reason => "Failed to create " ++ path ++ ": " ++ reason
  | notWritten reason => "Failed to write " ++ path ++ ": " ++ reason

inductive Channel where
  | output | diagnostics
deriving DecidableEq

/-- A sequence of actions at a terminal that ends with a result. -/
inductive Session (α : Type) where
  | done (result : α)
  | print (channel : Channel) (line : String) (next : Unit → Session α)
  | read (path : String) (next : Except String (Array UInt8) → Session α)
  | create (path : String) (content : List UInt8) (next : Except FileError Unit → Session α)

/-- Files that were created, with their paths, in their order. -/
abbrev Creations := Array (String × List UInt8)

/-- Fixed surroundings of a session: what the files hold, and which can be created with some
content. Both may depend on the files created before. -/
structure Surroundings where
  content : Creations → String → Except String (Array UInt8)
  creatable : Creations → String → List UInt8 → Except FileError Unit

/-- What a session left behind, in its order. -/
structure Transcript where
  output : Array String := #[]
  diagnostics : Array String := #[]
  files : Creations := #[]
deriving DecidableEq

def Transcript.print (t : Transcript) (line : String) : Channel → Transcript
  | .output => { t with output := t.output.push line }
  | .diagnostics => { t with diagnostics := t.diagnostics.push line }

namespace Session

variable {α β γ : Type}

def bind (s : Session α) (f : α → Session β) : Session β :=
  match s with
  | done result => f result
  | print channel line next => print channel line fun u => (next u).bind f
  | read path next => read path fun answer => (next answer).bind f
  | create path content next => create path content fun answer => (next answer).bind f

instance : Monad Session where
  pure := done
  bind := bind

theorem bind_done (s : Session α) : s.bind done = s := by
  induction s with
  | done result => rfl
  | print channel line next ih => simp [bind, ih]
  | read path next ih => simp [bind, ih]
  | create path content next ih => simp [bind, ih]

theorem bind_assoc (s : Session α) (f : α → Session β) (g : β → Session γ) :
    (s.bind f).bind g = s.bind fun a => (f a).bind g := by
  induction s with
  | done result => rfl
  | print channel line next ih => simp [bind, ih]
  | read path next ih => simp [bind, ih]
  | create path content next ih => simp [bind, ih]

instance : LawfulMonad Session :=
  LawfulMonad.mk' Session (fun s => bind_done s) (fun _ _ => rfl) bind_assoc

def say (line : String) : Session Unit := print .output line done

def remark (line : String) : Session Unit := print .diagnostics line done

def readFile (path : String) : Session (Except String (Array UInt8)) := read path done

def createFile (path : String) (content : List UInt8) : Session (Except FileError Unit) :=
  create path content done

def hold (around : Surroundings) : Session α → Transcript → α × Transcript
  | done result, t => (result, t)
  | print channel line next, t => hold around (next ()) (t.print line channel)
  | read path next, t => hold around (next (around.content t.files path)) t
  | create path content next, t =>
    match around.creatable t.files path content with
    | .ok () => hold around (next (.ok ())) { t with files := t.files.push (path, content) }
    | .error e => hold around (next (.error e)) t

theorem hold_bind (around : Surroundings) (s : Session α) (f : α → Session β) (t : Transcript) :
    (s.bind f).hold around t = (f (s.hold around t).1).hold around (s.hold around t).2 := by
  induction s generalizing t with
  | done result => rfl
  | print channel line next ih => exact ih () _
  | read path next ih => exact ih _ _
  | create path content next ih =>
    simp only [bind, hold]
    cases around.creatable t.files path content with
    | ok u => exact ih _ _
    | error e => exact ih _ _

end Session

end Mos6502.Runner

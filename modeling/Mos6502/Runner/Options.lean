import Mos6502.Machine.Basic
import Mos6502.Text.Unsigned

/-!
# The options of the runner

The command line of the runner: an image and options in any order. Everything but the number of
`-v` may be said only once. Behind `--` every word is an image. A value stands behind `=`, directly
behind a short name, or in the next word, which then must not look like an option itself.
`Options.read` is the reader in use; what a session does depends on the options alone.
-/

namespace Mos6502.Runner

inductive Switch where
  | help | listOpcodes | flat | checkStuck | trace
deriving DecidableEq

inductive Key where
  | pc | success | limit | stop | cdl | visited
deriving DecidableEq

inductive Name where
  | switch (s : Switch)
  /-- Log one level more. -/
  | verbose
  | key (k : Key)
deriving DecidableEq

def Name.ofLong? (name : String) : Option Name :=
  [("help", switch .help), ("list-opcodes", switch .listOpcodes), ("flat", switch .flat),
    ("check-stuck", switch .checkStuck), ("trace", switch .trace), ("verbose", verbose),
    ("pc", key .pc), ("success", key .success), ("limit", key .limit), ("stop", key .stop),
    ("cdl", key .cdl), ("visited", key .visited)].lookup name

def Name.ofShort? (name : Char) : Option Name :=
  [('h', switch .help), ('t', switch .trace), ('v', verbose), ('l', key .limit)].lookup name

inductive UsageError where
  | unknownOption (word : String)
  | missingValue (word : String)
  | surplusValue (word : String)
  | invalidValue (value : String)
  | repeatedOption
  | surplusImage (path : String)
deriving DecidableEq

def UsageError.message : UsageError → String
  | unknownOption word => "unknown option in " ++ word
  | missingValue word => "a value is missing after " ++ word
  | surplusValue word => "no value belongs in " ++ word
  | invalidValue value => "bad value '" ++ value ++ "'"
  | repeatedOption => "an option is given twice"
  | surplusImage path => "a second image is given: " ++ path

structure Options where
  /-- The image to run: a cartridge, or 64 KiB of memory. -/
  image : Option String := none
  help : Bool := false
  /-- List the opcodes and do nothing else. -/
  listOpcodes : Bool := false
  /-- The image is flat memory. -/
  flat : Bool := false
  /-- Where a program in flat memory starts. -/
  pc : Option UInt16 := none
  /-- The program passes if it executes this address. -/
  success : Option UInt16 := none
  /-- Stop after this many instructions. -/
  limit : Option Nat := none
  /-- Stop in front of this opcode. -/
  stop : Option UInt8 := none
  /-- Fail if an instruction jumps to itself. -/
  checkStuck : Bool := false
  /-- Keep trace lines for fault reports. -/
  trace : Bool := false
  /-- Where the code/data log goes. -/
  cdl : Option String := none
  /-- Where the listing of executed instructions goes. -/
  visited : Option String := none
  /-- How many levels beyond warnings are logged. -/
  verbose : Nat := 0
deriving DecidableEq

def dropHexMarks : List Char → List Char
  | '0' :: 'x' :: rest => dropHexMarks rest
  | cs => cs

/-- A hexadecimal number of at most `bound`, behind any dollar signs and then any `0x`. -/
def hex? (bound : Nat) (text : String) : Option Nat :=
  Text.unsigned? 16 bound (dropHexMarks (text.toList.dropWhile (· = '$')))

def address? (text : String) : Option UInt16 := (hex? 0xFFFF text).map UInt16.ofNat

def opcode? (text : String) : Option UInt8 := (hex? 0xFF text).map UInt8.ofNat

def count? (text : String) : Option Nat := Text.unsigned? 10 0xFFFFFFFFFFFFFFFF text.toList

/-- A file name; it is never empty. -/
def path? (text : String) : Option String := if text.isEmpty then none else some text

inductive Setting where
  | switch (s : Switch)
  | verbose
  | value (key : Key) (text : String)
  | image (path : String)
deriving DecidableEq

namespace Options

/-- Turn a switch on that was off. -/
def turnOn (on : Bool) (o : Options) : Except UsageError Options :=
  if on then .error .repeatedOption else .ok o

/-- Give an option its only value. -/
def give {α : Type} (old : Option α) (text : String) (read : String → Option α)
    (update : Option α → Options) : Except UsageError Options :=
  match old, read text with
  | none, some v => .ok (update (some v))
  | none, none => .error (.invalidValue text)
  | some _, _ => .error .repeatedOption

def apply (o : Options) : Setting → Except UsageError Options
  | .switch .help => turnOn o.help { o with help := true }
  | .switch .listOpcodes => turnOn o.listOpcodes { o with listOpcodes := true }
  | .switch .flat => turnOn o.flat { o with flat := true }
  | .switch .checkStuck => turnOn o.checkStuck { o with checkStuck := true }
  | .switch .trace => turnOn o.trace { o with trace := true }
  | .verbose => .ok { o with verbose := o.verbose + 1 }
  | .value .pc text => give o.pc text address? fun v => { o with pc := v }
  | .value .success text => give o.success text address? fun v => { o with success := v }
  | .value .limit text => give o.limit text count? fun v => { o with limit := v }
  | .value .stop text => give o.stop text opcode? fun v => { o with stop := v }
  | .value .cdl text => give o.cdl text path? fun v => { o with cdl := v }
  | .value .visited text => give o.visited text path? fun v => { o with visited := v }
  | .image path =>
    match o.image with
    | none => give none path path? fun v => { o with image := v }
    | some _ => .error (.surplusImage path)

end Options

/-- The word looks like an option: a dash with something behind it. -/
def looksLikeOption (word : String) : Bool :=
  match word.toList with
  | '-' :: _ :: _ => true
  | _ => false

/-- The settings in a word behind two dashes, and the option whose value is the next word. -/
def readLong (word : String) (body : List Char) :
    Except UsageError (List Setting × Option Key) :=
  let (name, value) := body.span (· ≠ '=')
  match Name.ofLong? (String.ofList name), value with
  | none, _ => .error (.unknownOption word)
  | some (.switch s), [] => .ok ([.switch s], none)
  | some .verbose, [] => .ok ([.verbose], none)
  | some (.key k), [] => .ok ([], some k)
  | some (.key k), _ :: text => .ok ([.value k (String.ofList text)], none)
  | some (.switch _), _ :: _ | some .verbose, _ :: _ => .error (.surplusValue word)

/-- The settings in a word behind one dash: short names one behind the other, the last of which may
be followed by its value. -/
def readCluster (word : String) : List Char → Except UsageError (List Setting × Option Key)
  | [] => .ok ([], none)
  | c :: rest =>
    match Name.ofShort? c, rest with
    | none, _ => .error (.unknownOption word)
    | some (.switch s), rest =>
      (readCluster word rest).map fun (settings, key) => (.switch s :: settings, key)
    | some .verbose, rest =>
      (readCluster word rest).map fun (settings, key) => (.verbose :: settings, key)
    | some (.key k), [] => .ok ([], some k)
    | some (.key k), '=' :: text => .ok ([.value k (String.ofList text)], none)
    | some (.key k), text => .ok ([.value k (String.ofList text)], none)

/-- The settings in a word, and the option whose value is the next word. -/
def readWord (word : String) : Except UsageError (List Setting × Option Key) :=
  match word.toList with
  | '-' :: '-' :: body => readLong word body
  | '-' :: c :: rest => readCluster word (c :: rest)
  | _ => .ok ([.image word], none)

namespace Options

/-- Apply the words of a command line. -/
def readFrom (o : Options) : List String → Except UsageError Options
  | [] => .ok o
  | word :: rest => do
    if word = "--" then rest.foldlM (fun o path => o.apply (.image path)) o
    else
      let (settings, key) ← readWord word
      let o ← settings.foldlM apply o
      match key, rest with
      | none, rest => readFrom o rest
      | some _, [] => .error (.missingValue word)
      | some key, text :: rest =>
        if looksLikeOption text then .error (.missingValue word)
        else
          let o ← o.apply (.value key text)
          readFrom o rest

def read (words : List String) : Except UsageError Options := readFrom {} words

def level (o : Options) : Level :=
  match o.verbose with
  | 0 => .warn
  | 1 => .info
  | 2 => .debug
  | _ => .trace

def config (o : Options) : Config where
  checkStuck := o.checkStuck
  trace := o.trace
  limit := o.limit
  stopOpcode := o.stop
  codeDataLog := o.cdl.isSome || o.visited.isSome

end Options

end Mos6502.Runner

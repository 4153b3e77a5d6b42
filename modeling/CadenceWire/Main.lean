import CadenceWire.Program

/-!
The command line: reads a payload from a file or from standard input and prints what it holds.
-/
namespace CadenceWire.Main

/-- The command line as read so far. -/
structure Arguments where
  command : Option String
  source : Option String
  hex : Bool
  format : Format
  strict : Bool
  pretty : Bool
  limits : OutlineLimits

def Arguments.initial : Arguments := ⟨none, none, false, .auto, false, false, .standard⟩

def usage : String :=
  "usage: cadence-wire [--log-level LEVEL] (value | event | inspect) [--hex] [--strict]\n"
    ++ "  [--pretty] [--format auto|json|ccf] [--max-depth N] [--max-items N] (FILE | -)\n"

def format? : String → Option Format
  | "auto" => some .auto
  | "json" => some .json
  | "ccf" => some .ccf
  | _ => none

def isCommand (word : String) : Bool := word = "value" || word = "event" || word = "inspect"

def number? (word : String) : Option Nat := Decimal.natural? word.toList

/-- Reads the words of a command line; `none` if they do not fit together. -/
def parse (a : Arguments) : List String → Option Arguments
  | [] => some a
  | "--hex" :: rest => parse { a with hex := true } rest
  | "--strict" :: rest => parse { a with strict := true } rest
  | "--pretty" :: rest => parse { a with pretty := true } rest
  | "--log-level" :: _ :: rest => parse a rest
  | "--format" :: word :: rest => do parse { a with format := ← format? word } rest
  | "--max-depth" :: word :: rest => do
    parse { a with limits.depth := ← number? word } rest
  | "--max-items" :: word :: rest => do
    parse { a with limits.items := ← number? word } rest
  | word :: rest =>
    match a.command, a.source with
    | none, _ =>
      if isCommand word then parse { a with command := some word } rest else none
    | some _, none =>
      if word.startsWith "--" then none else parse { a with source := some word } rest
    | some _, some _ => none

def Arguments.invocation? (a : Arguments) : Option (Invocation × String) := do
  let source ← a.source
  let command ← match a.command with
    | some "value" => some Command.value
    | some "event" => some Command.event
    | some "inspect" => some (Command.inspect a.limits)
    | _ => none
  return (⟨command, a.hex, a.format, a.strict, a.pretty⟩, source)

/-- Why a file could not be read, as the system puts it. -/
def reason : IO.Error → String
  | .noFileOrDirectory .. => "No such file or directory (os error 2)"
  | .permissionDenied .. => "Permission denied (os error 13)"
  | .inappropriateType .. => "Is a directory (os error 21)"
  | other => other.toString

def read (source : String) : IO (Except String (List UInt8)) := do
  try
    let bytes ← if source = "-" then (← IO.getStdin).readBinToEnd else IO.FS.readBinFile source
    return .ok bytes.toList
  catch cause => return .error (reason cause)

end CadenceWire.Main

open CadenceWire in
def main (words : List String) : IO UInt32 := do
  match Main.parse .initial words >>= Main.Arguments.invocation? with
  | none =>
    IO.eprint Main.usage
    return 2
  | some (invocation, source) =>
    let outcome := invocation.run (← Main.read source)
    IO.print outcome.output
    IO.eprint outcome.messages
    return outcome.exitCode.toUInt32

import CadenceWire.Ccf.Value
import CadenceWire.Failure
import CadenceWire.JsonCdc.Value

/-!
From a payload to a value, and from there to plain values.
-/
namespace CadenceWire

open JsonCdc (Options)

inductive Format where
  /-- JSON-CDC, and CCF if that fails. -/
  | auto
  | json
  | ccf
deriving DecidableEq, Repr

/-- The value of a payload. The options do not matter to CCF. -/
def Format.decode (format : Format) (options : Options) (payload : List UInt8) :
    Except Failure Value :=
  match format with
  | json => (JsonCdc.decode options payload).mapError .json
  | ccf => (Ccf.decode payload).mapError .ccf
  | auto =>
    match JsonCdc.decode options payload with
    | .ok value => .ok value
    | .error jsonCause => (Ccf.decode payload).mapError (.neither jsonCause)

namespace Value

def toPlain (value : Value) : Except Failure Plain := value.plain.mapError .dictionaryKey

/-- The fields of a composite of any kind as a map. -/
def eventFields : Value → Except Failure (List (String × Plain))
  | .composite _ fields => (TextMap.ofList <$> Value.plainFields fields).mapError .dictionaryKey
  | other => .error (.mismatch ⟨"composite", other.kind.name⟩)

/-- Dictionaries as plain values; nothing else has entries to narrow. -/
def plainDictionary (value : Value) : Except Failure Plain :=
  if value.kind = .dictionary then value.toPlain
  else .error (.mismatch ⟨ValueKind.dictionary.name, value.kind.name⟩)

def textMap (value : Value) : Except Failure (List (String × String)) := do
  (← value.plainDictionary).textMap.mapError .mismatch

def textListMap (value : Value) : Except Failure (List (String × List String)) := do
  (← value.plainDictionary).textListMap.mapError .mismatch

end Value

end CadenceWire

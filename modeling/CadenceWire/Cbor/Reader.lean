import CadenceWire.Cbor.Head
import CadenceWire.Cbor.Item
import CadenceWire.Text.Utf8

/-!
Reading one CBOR item. Strings of indefinite length are put together from segments, which may be
strings of indefinite length themselves.
-/
namespace CadenceWire.Cbor

namespace Reader

/-- Text is checked in windows of this many bytes. -/
def window : Nat := 4096

/-- How many bytes at the end of a window may begin a character that the next window ends, if the
rest of the window is well formed. -/
def waiting? (bytes : List UInt8) : Option Nat :=
  (List.range 4).find? fun count => (Utf8.decode? (bytes.take (bytes.length - count))).isSome

/-- Whether text that is cut short goes wrong in a complete window. The bytes that wait come from
the window before. -/
def goesWrong (carried : List UInt8) (rest : List UInt8) : Bool :=
  if _ : carried.length < window ∧ window - carried.length ≤ rest.length then
    let bytes := carried ++ rest.take (window - carried.length)
    match waiting? bytes with
    | none => true
    | some count =>
      goesWrong (bytes.drop (bytes.length - count)) (rest.drop (window - carried.length))
  else false
termination_by rest.length
decreasing_by simp only [List.length_drop]; omega

/-- The two kinds of strings, which differ in what the bytes of a segment must be. -/
structure StringForm (α : Type) where
  /-- The length that a head of this kind of string announces. -/
  length? : Head → Option (Option Nat)
  /-- Reads the content of a definite length; a fault in it is reported at the given place. -/
  content : (place length : Nat) → Reader α
  join : List α → α

def byteString : StringForm (List UInt8) where
  length? head := match head with
    | .bytes length => some length
    | _ => none
  content _ length := take length
  join := List.flatten

def textString : StringForm String where
  length? head := match head with
    | .text length => some length
    | _ => none
  content place length rest :=
    if length ≤ rest.length then
      match Utf8.decode? (rest.take length) with
      | some s => .ok (s, rest.drop length)
      | none => .error (.malformed place)
    else .error (if goesWrong [] rest then .malformed place else .endOfInput)
  join := String.join

/-- The segments up to the break that ends the outermost of the nested strings. Each takes a byte,
which bounds the repetition. -/
def segments {α : Type} (form : StringForm α) : (bound nested : Nat) → Reader (List α)
  | 0, _, _ => .error .endOfInput
  | bound + 1, nested, input => do
    let (head, rest) ← Head.read input
    match head, nested with
    | .stop, 0 => return ([], rest)
    | .stop, nested + 1 => segments form bound nested rest
    | head, nested =>
      match form.length? head with
      | none => throw (.malformed input.length)
      | some none => segments form bound (nested + 1) rest
      | some (some length) => do
        let (first, rest) ← form.content input.length length rest
        let (others, rest) ← segments form bound nested rest
        return (first :: others, rest)

/-- The content of a string behind its head. A fault in text of definite length is placed as if the
head were the shortest one. -/
def string {α : Type} (form : StringForm α) (length : Option Nat) : Reader α := fun rest =>
  match length with
  | some length => form.content (rest.length + Head.shortest length) length rest
  | none => do
    let (parts, rest) ← segments form (rest.length + 1) 0 rest
    return (form.join parts, rest)

/-- The same reader a number of times. -/
def times {α : Type} (read : Reader α) : Nat → Reader (List α)
  | 0, input => .ok ([], input)
  | count + 1, input => do
    let (first, rest) ← read input
    let (others, rest) ← times read count rest
    return (first :: others, rest)

/-- The same reader up to a break, which is looked for before the reader is tried. -/
def untilStop {α : Type} (read : Reader α) : (bound : Nat) → Reader (List α)
  | 0, _ => .error .endOfInput
  | bound + 1, input => do
    match ← Head.read input with
    | (.stop, rest) => return ([], rest)
    | _ => do
      let (first, rest) ← read input
      let (others, rest) ← untilStop read bound rest
      return (first :: others, rest)

def sequence {α : Type} (read : Reader α) (length : Option Nat) : Reader (List α) := fun input =>
  match length with
  | some length => times read length input
  | none => untilStop read (input.length + 1) input

def pair {α : Type} (read : Reader α) : Reader (α × α) := fun input => do
  let (key, rest) ← read input
  let (value, rest) ← read rest
  return ((key, value), rest)

/-- An item that has the given number of levels at its disposal. -/
def item : (levels : Nat) → Reader Item
  | 0, _ => .error .tooDeep
  | levels + 1, input => do
    let (head, rest) ← Head.read input
    match head with
    | .unsigned n => return (.integer n, rest)
    | .negative n => return (.integer (-1 - n), rest)
    | .bytes length => (string byteString length rest).map fun (b, rest) => (.bytes b, rest)
    | .text length => (string textString length rest).map fun (s, rest) => (.text s, rest)
    | .array length =>
      (sequence (item levels) length rest).map fun (items, rest) => (.array items, rest)
    | .map length =>
      (sequence (pair (item levels)) length rest).map fun (entries, rest) => (.map entries, rest)
    | .tag number => (item levels rest).map fun (content, rest) => (.tag number content, rest)
    | .simple 20 => return (.bool false, rest)
    | .simple 21 => return (.bool true, rest)
    | .simple 22 => return (.null, rest)
    | .simple number => throw (.simpleValue number)
    | .float encoding => return (.float encoding, rest)
    | .stop => throw .strayBreak

end Reader

/-- Reads the first item of the input and gives what is left behind it. -/
def read (input : List UInt8) : Except Fault (Item × List UInt8) :=
  (Reader.item (maxDepth + 1) input).mapError (Fault.fromFront input.length)

end CadenceWire.Cbor

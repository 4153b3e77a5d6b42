import CadenceWire.Text.Hex

/-!
What an account is named by: its address of eight bytes, and the paths of its storage.
-/
namespace CadenceWire

structure Address where
  bytes : List UInt8
  length_eq : bytes.length = 8
deriving DecidableEq

namespace Address

def ofBytes? (bytes : List UInt8) : Option Address :=
  if h : bytes.length = 8 then some ⟨bytes, h⟩ else none

theorem ofBytes?_eq_some_iff {bytes : List UInt8} {address : Address} :
    ofBytes? bytes = some address ↔ bytes = address.bytes := by
  unfold ofBytes?
  constructor
  · intro found
    split at found
    · cases found; rfl
    · cases found
  · rintro rfl
    rw [dif_pos address.length_eq]

/-- Reads one to sixteen hexadecimal digits; missing ones are zeros in front. -/
def ofDigits? (digits : List Char) : Option Address :=
  if digits = [] ∨ 16 < digits.length then none
  else
    match Hex.decode (List.replicate (16 - digits.length) '0' ++ digits) with
    | .ok bytes => ofBytes? bytes
    | .error _ => none

/-- Sixteen lower-case digits. -/
def hex (a : Address) : String := Hex.encode a.bytes

def text (a : Address) : String := "0x" ++ a.hex

end Address

inductive PathDomain where
  | storageDomain
  | privateDomain
  | publicDomain
deriving DecidableEq, Repr

namespace PathDomain

def all : List PathDomain := [storageDomain, privateDomain, publicDomain]

def identifier : PathDomain → String
  | storageDomain => "storage"
  | privateDomain => "private"
  | publicDomain => "public"

/-- The number that stands for the domain in the compact format. -/
def code : PathDomain → Nat
  | storageDomain => 1
  | privateDomain => 2
  | publicDomain => 3

def ofIdentifier? (text : String) : Option PathDomain := all.find? (·.identifier = text)

def ofCode? (code : Nat) : Option PathDomain := all.find? (·.code = code)

theorem ofIdentifier?_identifier (domain : PathDomain) :
    ofIdentifier? domain.identifier = some domain := by
  cases domain <;> decide

theorem ofCode?_code (domain : PathDomain) : ofCode? domain.code = some domain := by
  cases domain <;> decide

end PathDomain

structure Path where
  domain : PathDomain
  identifier : String
deriving DecidableEq, Repr

def Path.text (p : Path) : String := "/" ++ p.domain.identifier ++ "/" ++ p.identifier

end CadenceWire

import CadenceWire.StaticType.Equality
import CadenceWire.Value.Basic

/-!
When two values count as equal. The types of fields do not matter, since only one of the encodings
gives them; all else does.
-/
namespace CadenceWire

deriving instance DecidableEq for Capability

mutual

def Value.same : Value → Value → Bool
  | .void, .void | .nil, .nil => true
  | .present v, .present w => v.same w
  | .bool b, .bool c => b = c
  | .string s, .string t => s = t
  | .character s, .character t => s = t
  | .bytes b, .bytes c => b = c
  | .address a, .address b => a = b
  | .integer m, .integer n => m = n
  | .fixedPoint m, .fixedPoint n => m = n
  | .array vs, .array ws => Value.sameElements vs ws
  | .dictionary vs, .dictionary ws => Value.sameEntries vs ws
  | .composite s vs, .composite t ws => s = t && Value.sameFields vs ws
  | .path p, .path q => p = q
  | .capability c, .capability d => c = d
  | .type s, .type t => s = t
  | .function f, .function g => f = g
  | .range a b c, .range d e f => a.same d && b.same e && c.same f
  | _, _ => false

def Value.sameElements : List Value → List Value → Bool
  | [], [] => true
  | v :: vs, w :: ws => v.same w && Value.sameElements vs ws
  | _, _ => false

def Value.sameEntries : List (Value × Value) → List (Value × Value) → Bool
  | [], [] => true
  | (k, v) :: vs, (l, w) :: ws => k.same l && v.same w && Value.sameEntries vs ws
  | _, _ => false

def Value.sameFields : List (Field × Value) → List (Field × Value) → Bool
  | [], [] => true
  | (f, v) :: vs, (g, w) :: ws => f.name = g.name && v.same w && Value.sameFields vs ws
  | _, _ => false

end

end CadenceWire

import CadenceWire.StaticType.Basic

/-!
The identifier of a static type: how the language writes the type, without blanks around its
punctuation. Bounds of type parameters and names of parameters do not show.
-/
namespace CadenceWire

def Authorization.id : Authorization → String
  | unauthorized => ""
  | legacy => "auth"
  | conjunction entitlements => "auth(" ++ ",".intercalate entitlements ++ ")"
  | disjunction entitlements => "auth(" ++ "|".intercalate entitlements ++ ")"
  | mapping entitlementMap => "auth(mapping " ++ entitlementMap ++ ")"

def TypeParameter.name : TypeParameter → String
  | .named name _ => name

def FunctionType.typeParameterList : List TypeParameter → String
  | [] => ""
  | parameters => "<" ++ ",".intercalate (parameters.map TypeParameter.name) ++ ">"

mutual

def StaticType.id : StaticType → String
  | .simple type => type.id
  | .optional content => content.id ++ "?"
  | .variableArray element => "[" ++ element.id ++ "]"
  | .constantArray size element => "[" ++ element.id ++ ";" ++ Decimal.ofNat size.toNat ++ "]"
  | .dictionary key value => "\x7b" ++ key.id ++ ":" ++ value.id ++ "\x7d"
  | .reference authorization referenced => authorization.id ++ "&" ++ referenced.id
  | .intersection types => "\x7b" ++ ",".intercalate (StaticType.ids types) ++ "\x7d"
  | .restricted base types => base.id ++ "\x7b" ++ ",".intercalate (StaticType.ids types) ++ "\x7d"
  | .capability => "Capability"
  | .capabilityOf borrowed => "Capability<" ++ borrowed.id ++ ">"
  | .inclusiveRange element => "InclusiveRange<" ++ element.id ++ ">"
  | .nominal type => type.id
  | .function signature => signature.id
  | .unstructured id => id

def StaticType.ids : List StaticType → List String
  | [] => []
  | type :: rest => type.id :: StaticType.ids rest

def FunctionType.id : FunctionType → String
  | .signature isView typeParameters parameters result =>
    (if isView then "view " else "") ++ "fun" ++ FunctionType.typeParameterList typeParameters
      ++ "(" ++ ",".intercalate (Parameter.ids parameters) ++ "):" ++ result.id

def Parameter.ids : List Parameter → List String
  | [] => []
  | .labelled _ _ type :: rest => type.id :: Parameter.ids rest

end

end CadenceWire

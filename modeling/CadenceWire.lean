import CadenceWire.Main
import CadenceWire.Numeric.Wide
import CadenceWire.Value.Equality
import CadenceWire.Proofs.Agreement
import CadenceWire.Proofs.JsonCdc.Allowed
import CadenceWire.Proofs.Stored
import CadenceWire.Proofs.Ccf.Payload
import CadenceWire.Proofs.Ccf.Reference
import CadenceWire.Proofs.JsonCdc.Bare
import CadenceWire.Proofs.JsonCdc.Lenient
import CadenceWire.Proofs.Fallback
import CadenceWire.Proofs.Ccf.Occurrence
import CadenceWire.Proofs.Ccf.Passage
import CadenceWire.Proofs.Ccf.Bound
import CadenceWire.Proofs.Ccf.Environment
import CadenceWire.Proofs.Formed
import CadenceWire.Proofs.Ccf.Refusal
import CadenceWire.Proofs.Ccf.Nesting
import CadenceWire.Proofs.Plain.Keys
import CadenceWire.Proofs.Plain.Fields
import CadenceWire.Proofs.Ccf.Plan
import CadenceWire.Proofs.Ccf.Procedure
import CadenceWire.Proofs.Ccf.Descent
import CadenceWire.Proofs.Numeric.Binary64
import CadenceWire.Proofs.Numeric.Shortest
import CadenceWire.Proofs.Text.Written
import CadenceWire.Proofs.Numeric.Rendered
import CadenceWire.Proofs.Json.Token
import CadenceWire.Proofs.Json.Pair
import CadenceWire.Proofs.JsonCdc.Numeral
import CadenceWire.Proofs.Plain.Homogeneous
import CadenceWire.Proofs.Plain.Reordering
import CadenceWire.Proofs.Plain.Absence
import CadenceWire.Proofs.Value.Congruence
import CadenceWire.Proofs.Ccf.Retagging
import CadenceWire.Proofs.Ccf.Number
import CadenceWire.Proofs.JsonCdc.Literal
import CadenceWire.Proofs.JsonCdc.Resolved
import CadenceWire.Proofs.Plain.Narrowing
import CadenceWire.Proofs.Plain.Rendered
import CadenceWire.Proofs.StaticType.Unambiguous
import CadenceWire.Proofs.HexInput
import CadenceWire.Proofs.Outline.Indented
import CadenceWire.Proofs.Outline.Limited
import CadenceWire.Proofs.JsonCdc.FixedPoint
import CadenceWire.Proofs.Numeric.Wide
import CadenceWire.Proofs.JsonCdc.Address

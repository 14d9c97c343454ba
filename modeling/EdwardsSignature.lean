import EdwardsSignature.Program.Workspace
import EdwardsSignature.Key.Generator
import EdwardsSignature.Parameters.Registry
import EdwardsSignature.Field.LimbElement
import EdwardsSignature.Field.Residue
import EdwardsSignature.Proofs.Session.Correctness
import EdwardsSignature.Proofs.Session.EqualKeys
import EdwardsSignature.Proofs.Session.Invariant
import EdwardsSignature.Proofs.Session.Isolation
import EdwardsSignature.Proofs.Session.WholeMessage
import EdwardsSignature.Proofs.Session.Safety
import EdwardsSignature.Proofs.Curve.Completeness
import EdwardsSignature.Proofs.Curve.GroupLaws
import EdwardsSignature.Proofs.Curve.TabledMultiples
import EdwardsSignature.Proofs.Curve.Decoding
import EdwardsSignature.Proofs.Curve.BaseMultiples
import EdwardsSignature.Proofs.Curve.RepeatedAddition
import EdwardsSignature.Proofs.Curve.TableEntries
import EdwardsSignature.Proofs.Curve.Equality
import EdwardsSignature.Proofs.Scalar.Residue
import EdwardsSignature.Proofs.Field.Computation
import EdwardsSignature.Proofs.Field.Encoding
import EdwardsSignature.Proofs.Field.Power
import EdwardsSignature.Proofs.Representation.Curve
import EdwardsSignature.Proofs.Representation.TabledPoint
import EdwardsSignature.Proofs.Representation.Point
import EdwardsSignature.Proofs.Representation.Key
import EdwardsSignature.Proofs.Representation.Session
import EdwardsSignature.Proofs.Representation.Program
import EdwardsSignature.Proofs.Curve.Negation
import EdwardsSignature.Proofs.Key.Expansion
import EdwardsSignature.Proofs.Key.PublicPoint
import EdwardsSignature.Proofs.Registry
import EdwardsSignature.Proofs.Scalar.Overflow
import EdwardsSignature.Proofs.Scalar.SparseDigits

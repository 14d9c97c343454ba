import EdwardsSignature.Bytes
import EdwardsSignature.BranchFree
import EdwardsSignature.Failure

/-! Signatures: an encoded point followed by a scalar. -/
set_option autoImplicit false
namespace EdwardsSignature

structure Signature where
  block : Block 64

namespace Signature

def ofBytes (bytes : Bytes) : Except Rejection Signature :=
  match Block.ofBytes? 64 bytes with
  | some block => .ok ⟨block⟩
  | none => .error (.invalidSignatureLength 64 bytes.length)

def ofParts (commitment response : Block 32) : Signature := ⟨commitment ++ response⟩

def commitment (signature : Signature) : Block 32 := signature.block.low

def response (signature : Signature) : Block 32 := signature.block.high

def toBytes (signature : Signature) : Bytes := signature.block.toList

def equal (left right : Signature) : Bool := BranchFree.equal left.toBytes right.toBytes

def describe (signature : Signature) : String := s!"Signature({Bytes.hex signature.toBytes})"

end Signature

end EdwardsSignature

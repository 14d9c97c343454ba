import EdwardsSignature.Key.Private
import EdwardsSignature.Signature

/-! The signature equation and its verification, over digests that are fed in parts. -/
set_option autoImplicit false
namespace EdwardsSignature

variable {F : Type} [BaseField F]

/-- A digest's output as 64 bytes, which is what scalar reduction takes. -/
def Digest.wide (digest : Digest) : Except Rejection (Block 64) :=
  match Block.ofBytes? 64 digest.finish with
  | some block => .ok block
  | none => .error (.hashLengthMismatch 64 digest.finish.length)

/-- Signs a message: the nonce comes from the key's secret half and the message, the
challenge from the commitment, the public key and the message. The digest has been fed the
secret half already. -/
def PrivateKey.signWith (key : PrivateKey F) (fed : Digest) (message : Bytes) :
    Except Failure Signature := do
  let parameters := key.parameters
  let nonceHash ← (fed.update message).wide
  let nonce := parameters.scalars.reduce nonceHash
  let point ← parameters.base.multiply nonce
  let commitment := point.encode
  let challengeDigest :=
    ((fed.reset.update commitment.toList).update key.publicKey.encoding.toList).update message
  let challengeHash ← challengeDigest.wide
  let challenge := parameters.scalars.reduce challengeHash
  return .ofParts commitment (parameters.scalars.multiplyAdd challenge key.scalar nonce)

/-- Checks a signature: its scalar is below the order, and the scalar's multiple of the base
point less the challenge's multiple of the key encodes to the commitment's bytes. -/
def PublicKey.verifyWith (key : PublicKey F) (empty : Digest) (message signature : Bytes) :
    Except Failure Bool := do
  let parameters := key.parameters
  if signature.length < 32 then throw (.violated .signatureTooShort)
  let commitment := signature.take 32
  match Block.ofBytes? 32 (signature.drop 32) with
  | none =>
      throw (.rejected (.invalidSignatureLength parameters.signatureLength signature.length))
  | some response =>
      if Scalar.isCanonical response then
        let digest := ((empty.update commitment).update key.encoding.toList).update message
        let challengeHash ← digest.wide
        let challenge := parameters.scalars.reduce challengeHash
        let point := parameters.base.multiplyDouble key.negated challenge response
        return point.encode.toList == commitment
      else return false

end EdwardsSignature

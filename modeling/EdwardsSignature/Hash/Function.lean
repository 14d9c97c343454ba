import EdwardsSignature.Hash.Sha2

/-! Hash functions as parameter sets use them, and digests that are fed in parts. -/
set_option autoImplicit false
namespace EdwardsSignature

/-- A hash function that declares an algorithm's name and keeps its output length. What it
computes is left open, so that whatever is said of it holds for any such function. -/
structure HashFunction where
  algorithm : HashAlgorithm
  digest : Bytes → Bytes
  length_digest : ∀ message, (digest message).length = algorithm.outputSize

/-- What stands behind the algorithms' names. -/
structure HashFamily where
  digest : HashAlgorithm → Bytes → Bytes
  length_digest : ∀ algorithm message, (digest algorithm message).length = algorithm.outputSize

namespace HashFamily

def function (hashes : HashFamily) (algorithm : HashAlgorithm) : HashFunction where
  algorithm := algorithm
  digest := hashes.digest algorithm
  length_digest := hashes.length_digest algorithm

/-- The functions that the names stand for. -/
def sha2 : HashFamily := ⟨HashAlgorithm.digest, HashAlgorithm.length_digest⟩

end HashFamily

def HashAlgorithm.function (algorithm : HashAlgorithm) : HashFunction :=
  HashFamily.sha2.function algorithm

@[simp] theorem HashAlgorithm.algorithm_function (algorithm : HashAlgorithm) :
    algorithm.function.algorithm = algorithm := rfl

structure Digest where
  function : HashFunction
  absorbed : Bytes

namespace Digest

def empty (function : HashFunction) : Digest := ⟨function, []⟩

def update (digest : Digest) (bytes : Bytes) : Digest :=
  { digest with absorbed := digest.absorbed ++ bytes }

def reset (digest : Digest) : Digest := empty digest.function

def finish (digest : Digest) : Bytes := digest.function.digest digest.absorbed

end Digest

end EdwardsSignature

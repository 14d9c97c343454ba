/-! The hash algorithms that a parameter set may declare, and their names. -/
set_option autoImplicit false
namespace EdwardsSignature

/-- Upper-case ASCII letters become lower case; every other character stays. -/
def foldCase (name : String) : String :=
  name.map Char.toLower

inductive HashAlgorithm where
  | sha256
  | sha384
  | sha512
  deriving DecidableEq, Repr

namespace HashAlgorithm

def name : HashAlgorithm → String
  | sha256 => "SHA-256"
  | sha384 => "SHA-384"
  | sha512 => "SHA-512"

def identifier : HashAlgorithm → String
  | sha256 => "Sha256"
  | sha384 => "Sha384"
  | sha512 => "Sha512"

def outputSize : HashAlgorithm → Nat
  | sha256 => 32
  | sha384 => 48
  | sha512 => 64

def ofName? (name : String) : Option HashAlgorithm :=
  [sha256, sha384, sha512].find? fun algorithm => foldCase algorithm.name == foldCase name

end HashAlgorithm

end EdwardsSignature

/-! What a session is bound for. -/
set_option autoImplicit false
namespace EdwardsSignature

inductive SessionMode where
  | signing
  | verifying
  deriving DecidableEq, Repr

namespace SessionMode

def activity : SessionMode → String
  | signing => "signing"
  | verifying => "verification"

def identifier : SessionMode → String
  | signing => "Sign"
  | verifying => "Verify"

end SessionMode

end EdwardsSignature

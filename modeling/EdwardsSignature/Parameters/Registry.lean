import EdwardsSignature.Parameters.Basic

/-! Parameter sets under names, looked up whatever the case of ASCII letters.

An alias binds the set that its source names at the time; defining the source anew
later does not change the alias. -/
set_option autoImplicit false
namespace EdwardsSignature

def standardName : String := "Ed25519"

structure NamedParameters (F : Type) [BaseField F] where
  name : String
  parameters : Parameters F

/-- Bindings from folded names, the latest first. -/
structure Registry (F : Type) [BaseField F] where
  bindings : List (String × NamedParameters F)

namespace Registry

variable {F : Type} [BaseField F]

/-- Binds a name, in front of any earlier binding of it. -/
def bind (registry : Registry F) (name : String) (named : NamedParameters F) : Registry F :=
  ⟨(foldCase name, named) :: registry.bindings⟩

def get? (registry : Registry F) (name : String) : Option (NamedParameters F) :=
  registry.bindings.lookup (foldCase name)

/-- A binding answers for its own name, in any case, and for no other. -/
theorem get?_bind (registry : Registry F) (name other : String) (named : NamedParameters F) :
    (registry.bind name named).get? other =
      if foldCase other = foldCase name then some named else registry.get? other := by
  simp only [get?, bind, List.lookup_cons]
  cases agree : foldCase other == foldCase name with
  | true => rw [if_pos (beq_iff_eq.mp agree)]
  | false => rw [if_neg (beq_eq_false_iff_ne.mp agree)]

def require (registry : Registry F) (name : String) : Except Rejection (NamedParameters F) :=
  match registry.get? name with
  | some named => .ok named
  | none => .error (.unknownCurve name)

def define (registry : Registry F) (named : NamedParameters F) : Registry F :=
  registry.bind named.name named

/-- Binds another name to what a name stands for now. -/
def defineAlias (registry : Registry F) (name alternative : String) :
    Except Rejection (Registry F) :=
  (registry.bind alternative) <$> registry.require name

def ofStandard (parameters : Parameters F) : Registry F :=
  define ⟨[]⟩ ⟨standardName, parameters⟩

end Registry

end EdwardsSignature

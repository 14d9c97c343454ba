import Mathlib
import EdwardsSignature.Field.LimbElement
import EdwardsSignature.Parameters.Registry
import EdwardsSignature.Proofs.Field.LimbElement
import EdwardsSignature.Proofs.Key

/-! A registry answers with what the latest successful call bound.

Names are the same when they agree up to the case of ASCII letters. An alias binds what its
source stands for at the time, so what is bound to the source afterwards does not reach it. -/

set_option autoImplicit false

namespace EdwardsSignature

section Names

/-- The two cases of one ASCII letter. -/
def IsUpperOf (upper lower : Char) : Prop :=
  'A' ≤ upper ∧ upper ≤ 'Z' ∧ lower.toNat = upper.toNat + 32

def SameLetter (first second : Char) : Prop :=
  first = second ∨ IsUpperOf first second ∨ IsUpperOf second first

/-- Equality of names up to the case of ASCII letters. -/
def SameName (first second : String) : Prop :=
  List.Forall₂ SameLetter first.toList second.toList

theorem toNat_toLower (letter : Char) :
    letter.toLower.toNat =
      if 'A' ≤ letter ∧ letter ≤ 'Z' then letter.toNat + 32 else letter.toNat := by
  have isUpper_iff : letter.isUpper = true ↔ 'A' ≤ letter ∧ letter ≤ 'Z' := decide_eq_true_iff
  split
  · rename_i upper
    have bound : letter.toNat ≤ 90 := upper.2
    rw [Char.toLower_eq_of_isUpper (isUpper_iff.mpr upper), Char.toNat_ofNat, if_pos]
    exact .inl (by omega)
  · rename_i other
    rw [Char.toLower_eq_of_not_isUpper fun upper => other (isUpper_iff.mp upper)]

theorem toLower_eq_iff (first second : Char) :
    first.toLower = second.toLower ↔ SameLetter first second := by
  have below (letter : Char) : letter ≤ 'Z' ↔ letter.toNat ≤ 90 := Iff.rfl
  have above (letter : Char) : 'A' ≤ letter ↔ 65 ≤ letter.toNat := Iff.rfl
  rw [← Char.toNat_inj, toNat_toLower, toNat_toLower, SameLetter, IsUpperOf, IsUpperOf,
    ← Char.toNat_inj]
  simp only [below, above]
  split <;> split <;> omega

theorem foldCase_eq_iff (first second : String) :
    foldCase first = foldCase second ↔ SameName first second := by
  rw [SameName, foldCase, foldCase, ← String.toList_inj, String.toList_map, String.toList_map,
    ← List.forall₂_eq_eq_eq, List.forall₂_map_left_iff, List.forall₂_map_right_iff]
  simp only [toLower_eq_iff]

end Names

variable {F : Type} [BaseField F]

/-- What is asked of a registry: to define a set under its own name, or another name for what a
name stands for. -/
inductive Registration (F : Type) [BaseField F] where
  | define (named : NamedParameters F)
  | link (source alternative : String)

namespace Registration

/-- The name that the call is to bind. -/
def target : Registration F → String
  | define named => named.name
  | link _ alternative => alternative

/-- What the call would bind, which an alias finds under its source. -/
def offered (registry : Registry F) : Registration F → Option (NamedParameters F)
  | define named => some named
  | link source _ => registry.get? source

/-- The answer, and the registry from then on. -/
def perform (registry : Registry F) : Registration F → Except Rejection Unit × Registry F
  | define named => (.ok (), registry.define named)
  | link source alternative =>
      match registry.defineAlias source alternative with
      | .ok extended => (.ok (), extended)
      | .error cause => (.error cause, registry)

/-- The call succeeds and binds the name, in whatever case, to the set. -/
def Binds (registry : Registry F) (call : Registration F) (name : String)
    (named : NamedParameters F) : Prop :=
  SameName call.target name ∧ call.offered registry = some named

end Registration

namespace Registry

open Registration (Binds)

theorem get?_bind_of_sameName {registry : Registry F} {bound name : String}
    {named : NamedParameters F} (same : SameName bound name) :
    (registry.bind bound named).get? name = some named := by
  rw [get?_bind, if_pos ((foldCase_eq_iff bound name).mpr same).symm]

theorem get?_bind_of_not_sameName {registry : Registry F} {bound name : String}
    {named : NamedParameters F} (apart : ¬SameName bound name) :
    (registry.bind bound named).get? name = registry.get? name := by
  rw [get?_bind, if_neg fun same => apart ((foldCase_eq_iff bound name).mp same.symm)]

theorem require_eq_ok_iff (registry : Registry F) (name : String) (named : NamedParameters F) :
    registry.require name = .ok named ↔ registry.get? name = some named := by
  rw [require]
  cases registry.get? name with
  | none => simp
  | some found => simp

theorem require_eq_error_iff (registry : Registry F) (name : String) (cause : Rejection) :
    registry.require name = .error cause ↔
      cause = .unknownCurve name ∧ registry.get? name = none := by
  rw [require]
  cases registry.get? name with
  | none => simp [eq_comm]
  | some found => simp

/-- An alias binds what its source stands for, or is refused and changes nothing. -/
theorem perform_link_cases (registry : Registry F) (source alternative : String) :
    let call : Registration F := .link source alternative
    (∃ named, registry.get? source = some named ∧
        call.perform registry = (.ok (), registry.bind alternative named)) ∨
      registry.get? source = none ∧
        call.perform registry = (.error (.unknownCurve source), registry) := by
  intro call
  cases found : registry.get? source with
  | none =>
      have refused : registry.require source = .error (.unknownCurve source) :=
        (require_eq_error_iff registry source _).mpr ⟨rfl, found⟩
      refine .inr ⟨rfl, ?_⟩
      simp only [call, Registration.perform, defineAlias, refused]
      rfl
  | some named =>
      have accepted := (require_eq_ok_iff registry source named).mpr found
      refine .inl ⟨named, rfl, ?_⟩
      simp only [call, Registration.perform, defineAlias, accepted]
      rfl

/-- What one call can do: bind its target to what it offers, or nothing at all. -/
theorem perform_cases (registry : Registry F) (call : Registration F) :
    (∃ named, call.offered registry = some named ∧
        (call.perform registry).2 = registry.bind call.target named) ∨
      call.offered registry = none ∧ (call.perform registry).2 = registry := by
  cases call with
  | define named => exact .inl ⟨named, rfl, rfl⟩
  | link source alternative =>
      refine (perform_link_cases registry source alternative).imp ?_ ?_
      · rintro ⟨named, found, performed⟩
        exact ⟨named, found, congrArg Prod.snd performed⟩
      · rintro ⟨missing, performed⟩
        exact ⟨missing, congrArg Prod.snd performed⟩

theorem get?_perform_of_binds {registry : Registry F} {call : Registration F} {name : String}
    {named : NamedParameters F} (binds : call.Binds registry name named) :
    (call.perform registry).2.get? name = some named := by
  obtain ⟨same, offered⟩ := binds
  rcases perform_cases registry call with ⟨bound, bound_eq, performed⟩ | ⟨missing, _⟩
  · rw [offered] at bound_eq
    cases bound_eq
    rw [performed, get?_bind_of_sameName same]
  · rw [offered] at missing
    cases missing

theorem get?_perform_of_not_binds {registry : Registry F} {call : Registration F} {name : String}
    (spares : ∀ named, ¬call.Binds registry name named) :
    (call.perform registry).2.get? name = registry.get? name := by
  rcases perform_cases registry call with ⟨bound, bound_eq, performed⟩ | ⟨_, performed⟩
  · rw [performed, get?_bind_of_not_sameName fun same => spares bound ⟨same, bound_eq⟩]
  · rw [performed]

section Runs

/-- The registry after calls, whatever their answers. -/
def run (registry : Registry F) : List (Registration F) → Registry F
  | [] => registry
  | call :: rest => run (call.perform registry).2 rest

theorem run_append (registry : Registry F) (first second : List (Registration F)) :
    registry.run (first ++ second) = (registry.run first).run second := by
  induction first generalizing registry with
  | nil => rfl
  | cons call rest ih => exact ih (call.perform registry).2

/-- No call binds the name, each taken where the calls before it lead. -/
def Spares (name : String) (registry : Registry F) : List (Registration F) → Prop
  | [] => True
  | call :: rest =>
      (∀ named, ¬call.Binds registry name named) ∧ Spares name (call.perform registry).2 rest

theorem get?_run_of_spares {registry : Registry F} {calls : List (Registration F)} {name : String}
    (spares : Spares name registry calls) :
    (registry.run calls).get? name = registry.get? name := by
  induction calls generalizing registry with
  | nil => rfl
  | cons call rest ih =>
      obtain ⟨first, later⟩ := spares
      exact (ih later).trans (get?_perform_of_not_binds first)

theorem spares_of_apart {calls : List (Registration F)} {name : String}
    (apart : ∀ call ∈ calls, ¬SameName call.target name) (registry : Registry F) :
    Spares name registry calls := by
  induction calls generalizing registry with
  | nil => trivial
  | cons call rest ih =>
      rw [List.forall_mem_cons] at apart
      exact ⟨fun named binds => apart.1 binds.1, ih apart.2 _⟩

/-- The latest of the calls that succeed and bind the name binds it to the set. -/
def Latest (registry : Registry F) (calls : List (Registration F)) (name : String)
    (named : NamedParameters F) : Prop :=
  ∃ earlier call later, calls = earlier ++ call :: later ∧
    call.Binds (registry.run earlier) name named ∧
    Spares name (registry.run (earlier ++ [call])) later

theorem Latest.cons {registry : Registry F} {call : Registration F}
    {rest : List (Registration F)} {name : String} {named : NamedParameters F}
    (latest : Latest (call.perform registry).2 rest name named) :
    Latest registry (call :: rest) name named := by
  obtain ⟨earlier, binding, later, rfl, binds, spares⟩ := latest
  exact ⟨call :: earlier, binding, later, rfl, binds, spares⟩

theorem Latest.get?_run {registry : Registry F} {calls : List (Registration F)} {name : String}
    {named : NamedParameters F} (latest : Latest registry calls name named) :
    (registry.run calls).get? name = some named := by
  obtain ⟨earlier, call, later, rfl, binds, spares⟩ := latest
  have split : earlier ++ call :: later = earlier ++ [call] ++ later := by simp
  rw [split, run_append, get?_run_of_spares spares, run_append]
  exact get?_perform_of_binds binds

theorem spares_or_latest (registry : Registry F) (calls : List (Registration F)) (name : String) :
    Spares name registry calls ∨ ∃ named, Latest registry calls name named := by
  induction calls generalizing registry with
  | nil => exact .inl trivial
  | cons call rest ih =>
      rcases ih (call.perform registry).2 with spares | ⟨named, latest⟩
      · by_cases binds : ∃ named, call.Binds registry name named
        · obtain ⟨named, binds⟩ := binds
          exact .inr ⟨named, [], call, rest, rfl, binds, spares⟩
        · rw [not_exists] at binds
          exact .inl ⟨binds, spares⟩
      · exact .inr ⟨named, latest.cons⟩

theorem get?_run_eq_some_iff (registry : Registry F) (calls : List (Registration F))
    (name : String) (named : NamedParameters F) :
    (registry.run calls).get? name = some named ↔
      Latest registry calls name named ∨
        registry.get? name = some named ∧ Spares name registry calls := by
  constructor
  · intro found
    rcases spares_or_latest registry calls name with spares | ⟨bound, latest⟩
    · rw [get?_run_of_spares spares] at found
      exact .inr ⟨found, spares⟩
    · rw [latest.get?_run] at found
      cases found
      exact .inl latest
  · rintro (latest | ⟨found, spares⟩)
    · exact latest.get?_run
    · rw [get?_run_of_spares spares, found]

/-- Every set in a registry was there before or was defined, and so has the name it was defined
under, whichever name finds it. -/
theorem get?_run_defined {registry : Registry F} {calls : List (Registration F)} {name : String}
    {named : NamedParameters F} (found : (registry.run calls).get? name = some named) :
    (∃ original, registry.get? original = some named) ∨ .define named ∈ calls := by
  induction calls generalizing registry with
  | nil => exact .inl ⟨name, found⟩
  | cons call rest ih =>
      rcases ih found with ⟨original, before⟩ | defined
      · by_cases binds : call.Binds registry original named
        · cases call with
          | define other =>
              cases binds.2
              exact .inr List.mem_cons_self
          | link source alternative => exact .inl ⟨source, binds.2⟩
        · by_cases other : ∃ bound, call.Binds registry original bound
          · obtain ⟨bound, binds'⟩ := other
            rw [get?_perform_of_binds binds'] at before
            cases before
            exact absurd binds' binds
          · rw [not_exists] at other
            rw [get?_perform_of_not_binds other] at before
            exact .inl ⟨original, before⟩
      · exact .inr (List.mem_cons_of_mem call defined)

/-- A name keeps what it was linked to, whatever other names are bound to afterwards. -/
theorem get?_run_link {registry : Registry F} {source alternative name : String}
    {named : NamedParameters F} {later : List (Registration F)}
    (found : registry.get? source = some named) (same : SameName alternative name)
    (apart : ∀ call ∈ later, ¬SameName call.target name) :
    (registry.run (.link source alternative :: later)).get? name = some named := by
  have binds : (Registration.link source alternative).Binds registry name named := ⟨same, found⟩
  exact (get?_run_of_spares (spares_of_apart apart _)).trans (get?_perform_of_binds binds)

end Runs

theorem get?_ofStandard (parameters : Parameters F) (name : String) (named : NamedParameters F) :
    (ofStandard parameters).get? name = some named ↔
      SameName standardName name ∧ named = ⟨standardName, parameters⟩ := by
  by_cases same : SameName standardName name
  · have found : (ofStandard parameters).get? name = some ⟨standardName, parameters⟩ :=
      get?_bind_of_sameName same
    simp [found, same, eq_comm]
  · have missing : (ofStandard parameters).get? name = none :=
      get?_bind_of_not_sameName same
    simp [missing, same]

/-- The registry that starts with the standard set, after any calls. A look-up finds what the
latest successful call with that name bound, or the standard set if there was none; every set
found is one that was defined, with its name; a link stays what it was when it was made; and
only an unknown name is refused, by requiring it as by linking to it, which changes nothing. -/
theorem lookups_exact :
    ∃ parameters : Parameters LimbElement, Parameters.standard = .ok parameters ∧
      ∀ calls : List (Registration LimbElement),
        let start := ofStandard parameters
        let registry := start.run calls
        (∀ name named, registry.get? name = some named ↔
          Latest start calls name named ∨
            (SameName standardName name ∧ named = ⟨standardName, parameters⟩) ∧
              Spares name start calls) ∧
        (∀ name named, registry.get? name = some named →
          named = ⟨standardName, parameters⟩ ∨ .define named ∈ calls) ∧
        (∀ source alternative name named later, registry.get? source = some named →
          SameName alternative name →
          (∀ call : Registration LimbElement, call ∈ later → ¬SameName call.target name) →
          (registry.run (.link source alternative :: later)).get? name = some named) ∧
        (∀ name named, registry.require name = .ok named ↔ registry.get? name = some named) ∧
        (∀ name cause, registry.require name = .error cause ↔
          cause = .unknownCurve name ∧ registry.get? name = none) ∧
        ∀ source alternative,
          let outcome := (Registration.link source alternative).perform registry
          (outcome.1 = .ok () ↔ registry.get? source ≠ none) ∧
          (∀ cause, outcome.1 = .error cause ↔
            cause = .unknownCurve source ∧ registry.get? source = none) ∧
          (outcome.1 ≠ .ok () → ∀ name, outcome.2.get? name = registry.get? name) := by
  obtain ⟨parameters, assembled, _⟩ := Parameters.exists_standard LimbElement
  refine ⟨parameters, assembled, ?_⟩
  intro calls start registry
  refine ⟨?_, ?_, ?_, require_eq_ok_iff registry, require_eq_error_iff registry, ?_⟩
  · intro name named
    rw [get?_run_eq_some_iff, get?_ofStandard]
  · intro name named found
    rcases get?_run_defined found with ⟨original, initial⟩ | defined
    · exact .inl ((get?_ofStandard parameters original named).mp initial).2
    · exact .inr defined
  · intro source alternative name named later found same apart
    exact get?_run_link found same apart
  · intro source alternative outcome
    rcases perform_link_cases registry source alternative with
      ⟨named, found, performed⟩ | ⟨missing, performed⟩
    · simp [outcome, performed, found]
    · simp [outcome, performed, missing, eq_comm]

end Registry

end EdwardsSignature

/-! How a solver treats constraints that cannot be satisfied. -/

namespace InfoFlow

/-- The side that is kept when a constraint fails. A neutral solver repairs
nothing. -/
inductive Bias
  | neutral
  | source
  | sink
deriving DecidableEq, Repr

def restoreLimit : Nat := 3

structure Preferences where
  favorSource : Bool := false
  favorSink : Bool := false
  maxRestores : Int := restoreLimit
deriving DecidableEq, Repr

/-- How failing constraints are repaired: the favoured side, and how often one
value may be restored. -/
structure RepairPolicy where
  bias : Bias := .neutral
  maxRestores : Nat := restoreLimit
deriving DecidableEq, Repr

inductive PreferencesError
  | bothFavored
  | restoresOutOfRange (requested : Int)
deriving DecidableEq, Repr

def PreferencesError.message : PreferencesError → String
  | bothFavored => "Can only have one of \x7bfavor_source, favor_sink\x7d!"
  | restoresOutOfRange requested =>
      "max_restores must be between 0 and " ++ toString restoreLimit ++ ", got " ++
        toString requested

namespace Preferences

def biased (preferences : Preferences) : Bool :=
  preferences.favorSource || preferences.favorSink

def ofEnvironment (present : List String) : Preferences where
  favorSource := present.contains "PREFER_SOURCE"
  favorSink := present.contains "PREFER_SINK"

def bias (preferences : Preferences) : Bias :=
  if preferences.favorSink then .sink
  else if preferences.favorSource then .source
  else .neutral

/-- The policy that follows preferences. At most one side can be favoured, and
the number of restores is limited. -/
def policy (preferences : Preferences) : Except PreferencesError RepairPolicy :=
  if preferences.favorSource && preferences.favorSink then .error .bothFavored
  else if 0 ≤ preferences.maxRestores ∧ preferences.maxRestores ≤ restoreLimit then
    .ok ⟨preferences.bias, preferences.maxRestores.toNat⟩
  else .error (.restoresOutOfRange preferences.maxRestores)

theorem policy_maxRestores_le {preferences : Preferences} {policy : RepairPolicy}
    (accepted : preferences.policy = .ok policy) : policy.maxRestores ≤ restoreLimit := by
  unfold Preferences.policy at accepted
  split at accepted
  · cases accepted
  · split at accepted
    · next range =>
        cases accepted
        have bound : preferences.maxRestores ≤ (restoreLimit : Int) := range.2
        simp only
        omega
    · cases accepted

end Preferences

end InfoFlow

import RailsReview.Rule.LawOfDemeter
import RailsReview.Rule.PartialView

/-!
# Presets

The rules come in two presets, and can also be picked one by one, by name or by code.
-/

namespace RailsReview

/-- A choice of rules. -/
inductive Preset where
  /-- All rules. -/
  | recommended
  /-- The law of Demeter only. -/
  | minimal
  deriving DecidableEq, Repr, Inhabited

/-- All rules: the law of Demeter, then partial views with the patterns that are configured. -/
def allRules (models : ModelIndex) (config : Config) : List Rule :=
  [LawOfDemeter.rule models .error,
    (PartialView.ofSettings (config.rule? PartialView.name)).rule]

namespace Preset

/-- The preset with a name, in any ASCII case. -/
def ofName? (name : String) : Option Preset :=
  let lowered := name.toList.map Char.toLower
  if lowered = "recommended".toList then some recommended
  else if lowered = "minimal".toList then some minimal
  else none

/-- The rules of a preset. -/
def rules (preset : Preset) (models : ModelIndex) (config : Config) : List Rule :=
  match preset with
  | recommended => allRules models config
  | minimal => [LawOfDemeter.rule models .error]

end Preset

/-- The rules that a list of names and codes picks, in the order of the list.  Other entries pick
nothing. -/
def pickRules (entries : List String) (models : ModelIndex) (config : Config) : List Rule :=
  entries.flatMap fun entry =>
    (allRules models config).filter fun rule => rule.name == entry || rule.code == entry

end RailsReview

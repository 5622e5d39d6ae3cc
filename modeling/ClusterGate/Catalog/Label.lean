import ClusterGate.Catalog.Queries
import ClusterGate.Patch.Basic

/-!
# Component version labels

An object that names its release in a label gets the version of a component as another label.
-/

namespace ClusterGate.Catalog

def releaseLabel : String := "release.giantswarm.io/version"

/-- The value of a label of an object, if it is a text and not empty. -/
def labelOf? (object : Json) (label : String) : Option String :=
  (((object.member? "metadata").bind (Json.member? "labels")).bind (Json.member? label)).bind
    fun value => value.text?.filter fun text => text ≠ ""

/-- The components of the release of an object; an unknown release is refused by policy. -/
def componentsFor (release : String) : Engine Components := do
  let v ← Engine.ofExcept (requested release)
  .ask (.components v.releaseName) fun
    | .error (.releaseNotFound name) =>
      Engine.fail (.policyViolation ("release " ++ name ++ " not found"))
    | r => .done r

/-- The operation that labels an object with the version of a component, unless it has the label. -/
def componentLabel (object : Json) (component label : String) :
    Engine (Option Patch.Operation) := do
  if (labelOf? object label).isSome then return none
  else match labelOf? object releaseLabel with
    | none => Engine.fail (.policyViolation ("label " ++ releaseLabel ++ " is not set"))
    | some release =>
      let components ← componentsFor release
      match (Dict.get? component components).filter fun version => version ≠ "" with
      | some version =>
        return some (.add (Pointer.push "/metadata/labels" label) (.str version))
      | none =>
        Engine.fail (.policyViolation
          ("component " ++ component ++ " not found in release " ++ release))

end ClusterGate.Catalog

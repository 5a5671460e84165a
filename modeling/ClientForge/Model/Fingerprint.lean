import ClientForge.Digest.Sha256
import ClientForge.Failure
import ClientForge.Model.Action

/-!
# Fingerprints

A definition and a whole build are identified by the digest of their canonical JSON
text. The text of a build lists the definitions and the actions in order.
-/

namespace ClientForge

/-- The first sixteen digits of a definition's digest. -/
def Definition.fingerprint (d : Definition) : String :=
  String.ofList ((Digest.Sha256.hex d.toJson.text).toList.take 16)

/-- The canonical JSON document of a build, if every display name has a JSON form. -/
def buildJson? (definitions : List Definition) (actions : List Action) : Option Json := do
  let acts ← actions.mapM (·.toJson?)
  pure (.obj [("actions", .arr acts), ("types", .arr (definitions.map (·.toJson)))])

/-- The canonical JSON text of a build. -/
def buildText? (definitions : List Definition) (actions : List Action) : Option String :=
  (buildJson? definitions actions).map Json.text

/-- The digest of a build. -/
def buildFingerprint (definitions : List Definition) (actions : List Action) : Outcome String :=
  match buildText? definitions actions with
  | some text => .ok (Digest.Sha256.hex text)
  | none => misused .wrongType

end ClientForge

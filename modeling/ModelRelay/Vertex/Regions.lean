import ModelRelay.Error

/-!
# Regions

Where a model is deployed. Each call goes to one of the regions of its model, whichever; the choice
comes from outside.
-/

set_option autoImplicit false

namespace ModelRelay.Vertex

/-- The regions of each model. -/
abbrev Regions := List (String × List String)

namespace Regions

/-- The deployments known without configuration. -/
def builtIn : Regions :=
  [("claude-3-sonnet-20240229", ["asia-southeast1", "us-central1", "us-east5"]),
   ("claude-3-5-sonnet-20240620", ["us-east5", "europe-west1"]),
   ("claude-3-5-sonnet-20241022", ["us-east5", "europe-west1"]),
   ("claude-3-opus-20240229", ["us-east5"]),
   ("claude-3-haiku-20240307", ["europe-west1", "europe-west4", "us-central1", "us-east5"])]

/-- The regions of a model. -/
def of (r : Regions) (model : String) : List String :=
  (r.lookup model).getD []

/-- One of the regions of a model; every `choice` stands for one. -/
def pick (r : Regions) (choice : Nat) (model : String) : Except RelayError String :=
  match (r.of model)[choice % (r.of model).length]? with
  | some region => .ok region
  | none => .error (.unresolved (.noRegion model))

/-- Everything that `pick` can give. -/
def picks (r : Regions) (model : String) : Except RelayError (List String) :=
  match r.of model with
  | [] => .error (.unresolved (.noRegion model))
  | regions => .ok regions

end Regions

end ModelRelay.Vertex

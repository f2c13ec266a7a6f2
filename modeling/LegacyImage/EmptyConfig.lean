import LegacyImage.Document
import LegacyImage.MediaType

/-!
The configuration that stands in for the one that legacy images do not have: the empty object.
-/

namespace LegacyImage.EmptyConfig

/-- The bytes: the canonical form of the empty object. -/
def bytes : Bytes :=
  match (Json.object []).canonicalBytes with
  | .ok bs => bs
  | .error _ => []

def digest : Digest := .ofBytes bytes

end LegacyImage.EmptyConfig

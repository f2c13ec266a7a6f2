import LegacyImage.Text

/-!
The media types that legacy images and their parts are labelled with.
-/

namespace LegacyImage.MediaType

def manifest : Text := Text.ofString "application/vnd.docker.distribution.manifest.v1+json"

/-- A legacy manifest with a signature in it. -/
def signedManifest : Text :=
  Text.ofString "application/vnd.docker.distribution.manifest.v1+prettyjws"

/-- The compressed content of a layer. -/
def layer : Text := Text.ofString "application/vnd.docker.image.rootfs.diff.tar.gzip"

/-- The configuration that says nothing. -/
def emptyConfig : Text := Text.ofString "application/vnd.oci.empty.v1+json"

end LegacyImage.MediaType

import LegacyImage.Error

/-!
Layers by what they are made of, and sources that are asked for them. A source answers each request
by what it holds and by what it was asked for before: with a layer, or with a fault of its own.
-/

namespace LegacyImage

/-- A layer of a legacy image: one that is stored under a reference, or one that is derived from
another and remembers the digest of its content once that was computed. -/
inductive Layer
  | stored (ref : Reference)
  | derived (inner : Layer) (diffId : Option Digest)

namespace Layer

/-- The digest of the compressed content, as it was given. -/
def reference : Layer → Reference
  | stored ref => ref
  | derived inner _ => inner.reference

def derive (inner : Layer) : Layer := derived inner none

def remembered? : Layer → Option Digest
  | stored _ => none
  | derived _ m => m

end Layer

/-- What a source goes by when it is asked for a layer: its blobs, and the blobs and layers that it
was asked for so far. -/
structure SourceState where
  blobs : List (Reference × Bytes)
  asked : Array Reference
  layersAsked : Array Reference

/-- A source of layers, with its name in the log. It answers with a layer of its own each time, which
nobody asked for its diff id before. -/
structure LayerSource where
  shown : Text
  answer : SourceState → Reference → Except Error Layer
  fresh : ∀ state ref l, answer state ref = .ok l → l.remembered? = none

namespace LayerSource

/-- The answers to some requests, one after the other. -/
def answers (source : LayerSource) (state : SourceState) :
    List Reference → List (Except Error Layer)
  | [] => []
  | ref :: rest =>
    source.answer state ref ::
      source.answers { state with layersAsked := state.layersAsked.push ref } rest

end LayerSource

end LegacyImage

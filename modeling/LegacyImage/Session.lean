import LegacyImage.Image
import LegacyImage.Store.Tampering

/-!
Sessions: a store, and the images, layers and streams that a caller got from it, each in a table
and numbered in the order in which they came. A step names what it works on by number; it changes
nothing but the store and what it names, and adds what it makes.
-/

namespace LegacyImage

/-- A stream that a caller holds, and the number of the blob under it. -/
inductive Handle
  | compressed (id : Nat) (blob : OpenBlob)
  | uncompressed (id : Nat) (stream : Gzip.Uncompressed OpenBlob)

namespace Handle

def id : Handle → Nat
  | compressed id _ => id
  | uncompressed id _ => id

/-- Whether the stream is closed, and whether the blob under an uncompressed one is. -/
def status : Handle → Bool × Option Bool
  | compressed _ blob => (blob.isClosed, none)
  | uncompressed _ u => (u.closed, some u.gunzip.source.isClosed)

/-- Closes the stream and the blob under it. -/
def close : Handle → Handle
  | compressed id blob => compressed id blob.close
  | uncompressed id ⟨gunzip, ready, _⟩ =>
    uncompressed id ⟨{ gunzip with source := gunzip.source.close }, ready, true⟩

def read [Room] (tree : Tree) (size : Int) : Handle → Except Error Bytes × Handle
  | compressed id blob =>
    match blob.read tree size with
    | (.ok piece, blob) => (.ok piece, compressed id blob)
    | (.error e, blob) => (.error (.blob e), compressed id blob)
  | uncompressed id u =>
    match u.read (OpenBlob.reader tree) size with
    | (.ok piece, u) => (.ok piece, uncompressed id u)
    | (.error e, u) => (.error (.uncompressed e), uncompressed id u)

end Handle

inductive ImageCall
  | layers
  | layerByDigest (ref : Reference)
  | layerByDiffId
  | configFile
  | manifest
  | rawManifest
  | rawConfigFile
  | digest
  | mediaType
  | size
  | configName
  | describe

inductive LayerCall
  | compressed
  | uncompressed
  | digest
  | mediaType
  | size
  | diffId
  | describe
  | describeInner

inductive Step
  | put (content : Bytes)
  | putAs (ref : Reference) (content : Bytes)
  | blob (ref : Reference)
  | fetch (ref : Reference) (mediaType : Option Text)
  | wrap (ref : Reference) (mediaType : Option Text) (manifest : Bytes)
  | image (image : Nat) (call : ImageCall)
  | storedLayer (ref : Reference)
  | derive (layer : Nat)
  | layer (layer : Nat) (call : LayerCall)
  | openCompressed (layer : Nat)
  | openUncompressed (layer : Nat)
  | read (stream : Nat) (size : Int)
  | close (stream : Nat)
  | closed (stream : Nat)
  | supports
  | state
  | log
  | writeFile (path : Path) (content : Bytes)
  | makeDirectory (path : Path)
  | listFiles

inductive Outcome
  | done
  | failed (error : Error)
  | digest (digest : Digest)
  | bytes (content : Bytes)
  | image (number : Nat)
  | layers (numbers : List (Nat × Reference))
  | layer (number : Nat) (ref : Reference)
  | stream (number : Nat)
  | text (value : Option Text)
  | number (value : Nat)
  | flag (value : Bool)
  | closed (stream : Bool) (below : Option Bool)
  | state (asked layersAsked : Array Reference) (closed : Array Bool)
  | log (entries : Array LogEntry)
  | files (listing : List (Text × Nat))

/-- A session: the size of the pieces in which content is read, the store and the tables. -/
structure Session where
  chunkSize : Int
  store : Store
  images : List Image
  layers : List Layer
  streams : List Handle

namespace Session

def start (chunkSize : Int) (store : Store) : Session := ⟨chunkSize, store, [], [], []⟩

/-- A session whose store is where an operation left it. -/
def after (s : Session) (store : Store) : Session := { s with store }

def addLayer (s : Session) (l : Layer) : Outcome × Session :=
  (.layer s.layers.length l.reference, { s with layers := s.layers ++ [l] })

def addLayers (s : Session) (ls : List Layer) : Outcome × Session :=
  (.layers ((ls.zipIdx s.layers.length).map fun p => (p.2, p.1.reference)),
    { s with layers := s.layers ++ ls })

def addImage (s : Session) (image : Image) : Outcome × Session :=
  (.image s.images.length, { s with images := s.images ++ [image] })

def addStream (s : Session) (h : Handle) : Outcome × Session :=
  (.stream s.streams.length, { s with streams := s.streams ++ [h] })

def bytesOutcome : Except Error Bytes → Outcome
  | .ok content => .bytes content
  | .error e => .failed e

def callImage (s : Session) (image : Image) : ImageCall → Outcome × Session
  | .layers =>
    match image.layers s.store with
    | (.ok ls, store) => (s.after store).addLayers ls
    | (.error e, store) => (.failed e, s.after store)
  | .layerByDigest ref =>
    match Image.layer s.store ref with
    | (.ok l, store) => (s.after store).addLayer l
    | (.error e, store) => (.failed e, s.after store)
  | .layerByDiffId => (.failed (.unsupported image.ref "layer_by_diff_id"), s)
  | .configFile => (.failed (.unsupported image.ref "config_file"), s)
  | .manifest => (.failed (.unsupported image.ref "manifest"), s)
  | .rawManifest => (.bytes image.manifest, s)
  | .rawConfigFile => (.bytes EmptyConfig.bytes, s)
  | .digest => (.text image.ref, s)
  | .mediaType => (.text image.mediaType, s)
  | .size => (.number image.size, s)
  | .configName => (.text (some EmptyConfig.digest.toText), s)
  | .describe => (.text (some image.describe), s)

/-- Reads all of a blob that was opened, in one piece, and closes it. -/
def readCompressed [Room] (s : Session) (result : Except Error Store.Opened × Store) :
    Outcome × Session :=
  match result with
  | (.error e, store) => (.failed e, s.after store)
  | (.ok opened, store) =>
    (bytesOutcome ((Handle.compressed opened.id opened.blob).read store.tree (-1)).1,
      s.after (store.close opened.id))

def readUncompressed [Room] (s : Session) (l : Layer) : Outcome × Session :=
  match l.uncompressed s.store with
  | (.error e, store) => (.failed e, s.after store)
  | (.ok opened, store) =>
    (bytesOutcome ((Handle.uncompressed opened.id opened.stream).read store.tree (-1)).1,
      s.after (store.close opened.id))

def callLayer [Room] (s : Session) (number : Nat) (l : Layer) : LayerCall → Outcome × Session
  | .compressed => s.readCompressed (l.compressed s.store)
  | .uncompressed => s.readUncompressed l
  | .digest => (.text l.reference, s)
  | .mediaType => (.text (some l.mediaType), s)
  | .size =>
    match l.size with
    | .ok n => (.number n, s)
    | .error e => (.failed e, s)
  | .diffId =>
    match l.diffId s.chunkSize s.store with
    | (.ok d, l, store) =>
      (.text (some d.toText), { s with store, layers := s.layers.set number l })
    | (.error e, l, store) => (.failed e, { s with store, layers := s.layers.set number l })
  | .describe => (.text l.describe?, s)
  | .describeInner =>
    match l.inner with
    | .ok inner => (.text inner.describe?, s)
    | .error e => (.failed e, s)

def openCompressed (s : Session) (l : Layer) : Outcome × Session :=
  match l.compressed s.store with
  | (.error e, store) => (.failed e, s.after store)
  | (.ok opened, store) => (s.after store).addStream (.compressed opened.id opened.blob)

def openUncompressed (s : Session) (l : Layer) : Outcome × Session :=
  match l.uncompressed s.store with
  | (.error e, store) => (.failed e, s.after store)
  | (.ok opened, store) => (s.after store).addStream (.uncompressed opened.id opened.stream)

/-- Does something with the entry of that number, if there is one. -/
def withEntry {α : Type} (s : Session) (table : List α) (number : Nat)
    (act : α → Outcome × Session) : Outcome × Session :=
  match table[number]? with
  | some entry => act entry
  | none => (.failed (.noSuchEntry number), s)

theorem withEntry_of_some {α : Type} {table : List α} {number : Nat} {entry : α}
    (h : table[number]? = some entry) (s : Session) (act : α → Outcome × Session) :
    s.withEntry table number act = act entry := by
  unfold withEntry
  rw [h]

theorem withEntry_of_none {α : Type} {table : List α} {number : Nat}
    (h : table[number]? = none) (s : Session) (act : α → Outcome × Session) :
    s.withEntry table number act = (.failed (.noSuchEntry number), s) := by
  unfold withEntry
  rw [h]

def step [Room] (s : Session) : Step → Outcome × Session
  | .put content =>
    match s.store.put content with
    | (.ok d, store) => (.digest d, s.after store)
    | (.error e, store) => (.failed e, s.after store)
  | .putAs ref content =>
    match s.store.putAs ref content with
    | (.ok (), store) => (.done, s.after store)
    | (.error e, store) => (.failed e, s.after store)
  | .blob ref => s.readCompressed (s.store.openBlob ref)
  | .fetch ref mediaType =>
    match Image.fetch s.chunkSize s.store ref mediaType with
    | (.ok image, store) => (s.after store).addImage image
    | (.error e, store) => (.failed e, s.after store)
  | .wrap ref mediaType manifest => s.addImage ⟨manifest, ref, mediaType⟩
  | .image number call => s.withEntry s.images number fun image => s.callImage image call
  | .storedLayer ref => s.addLayer (.stored ref)
  | .derive number => s.withEntry s.layers number fun l => s.addLayer l.derive
  | .layer number call => s.withEntry s.layers number fun l => s.callLayer number l call
  | .openCompressed number => s.withEntry s.layers number s.openCompressed
  | .openUncompressed number => s.withEntry s.layers number s.openUncompressed
  | .read number size =>
    s.withEntry s.streams number fun h =>
      let (result, h) := h.read s.store.tree size
      (bytesOutcome result, { s with streams := s.streams.set number h })
  | .close number =>
    s.withEntry s.streams number fun h =>
      (.done, { s with store := s.store.close h.id, streams := s.streams.set number h.close })
  | .closed number =>
    s.withEntry s.streams number fun h => (.closed h.status.1 h.status.2, s)
  | .supports => (.flag s.store.layerSource?.isSome, s)
  | .state => (.state s.store.asked s.store.layersAsked s.store.closed, s)
  | .log => (.log s.store.log, s.after { s.store with log := #[] })
  | .writeFile path content =>
    match s.store.writeFile path content with
    | (.ok (), store) => (.done, s.after store)
    | (.error e, store) => (.failed e, s.after store)
  | .makeDirectory path =>
    match s.store.makeDirectory path with
    | (.ok (), store) => (.done, s.after store)
    | (.error e, store) => (.failed e, s.after store)
  | .listFiles => (.files s.store.tree.listing, s)

/-- The outcomes of some steps in their order, and the session after them. -/
def run [Room] (s : Session) : List Step → List Outcome × Session
  | [] => ([], s)
  | first :: rest =>
    let (outcome, s) := s.step first
    let (outcomes, s) := s.run rest
    (outcome :: outcomes, s)

/-- What holds of the steps so far with their outcomes and of the session after them holds after any
run, if no step breaks it. -/
theorem run_keeps [Room] {P : List (Step × Outcome) → Session → Prop}
    (hstep : ∀ history s step, P history s →
      P (history ++ [(step, (s.step step).1)]) (s.step step).2)
    {history : List (Step × Outcome)} {s : Session} (h : P history s) (steps : List Step) :
    P (history ++ steps.zip (s.run steps).1) (s.run steps).2 := by
  induction steps generalizing s history with
  | nil =>
    show P (history ++ []) s
    rw [List.append_nil]
    exact h
  | cons first rest ih =>
    have hrest := ih (hstep history s first h)
    rw [List.append_assoc] at hrest
    exact hrest

end Session

end LegacyImage

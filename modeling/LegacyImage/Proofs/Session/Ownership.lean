import LegacyImage.Proofs.Reader.Keeping
import LegacyImage.Proofs.Store.Closing
import Mathlib.Data.List.Nodup

/-!
Who closes a stream. A session closes the streams that it opens for itself, whatever comes of
reading them, and no others; a stream that was handed out is open until the caller closes it, and
then the blob under it is closed as well. So the blobs that are open are at any time those under the
streams that the caller was given and has not closed (`streams_over_run`).
-/

namespace LegacyImage

/-! ## Streams that a caller holds -/

namespace Handle

/-- Whether a stream, and the blob under an uncompressed one, are both closed or both open. -/
def Shows (h : Handle) (closed : Bool) : Prop :=
  h.status.1 = closed ∧ ∀ below, h.status.2 = some below → below = closed

theorem Shows.of_status_eq {h h' : Handle} {closed : Bool} (hh : h.Shows closed)
    (hstatus : h'.status = h.status) : h'.Shows closed := by
  unfold Shows
  rw [hstatus]
  exact hh

/-- What there is to say of who owns a stream: the number of the blob under it, and its status. -/
def standing (h : Handle) : Nat × (Bool × Option Bool) := (h.id, h.status)

theorem id_close (h : Handle) : h.close.id = h.id := by
  cases h <;> rfl

/-- Closing a stream closes the blob under it, however often it is done. -/
theorem shows_close (h : Handle) : h.close.Shows true := by
  cases h with
  | compressed id blob =>
    refine ⟨blob.isClosed_close, ?_⟩
    intro below hb
    cases hb
  | uncompressed id u =>
    refine ⟨rfl, ?_⟩
    intro below hb
    cases hb
    exact u.gunzip.source.isClosed_close

/-- Reading a stream, also where it fails, neither opens nor closes it. -/
theorem standing_read [Room] (tree : Tree) (size : Int) (h : Handle) :
    (h.read tree size).2.standing = h.standing := by
  cases h with
  | compressed id blob =>
    have hkept := blob.isClosed_read tree size
    unfold read
    dsimp only
    split <;> (rename_i hr; rw [hr] at hkept; exact Prod.ext rfl (Prod.ext hkept rfl))
  | uncompressed id u =>
    obtain ⟨hclosed, hbelow⟩ :=
      Gzip.Uncompressed.keeps_read (OpenBlob.keeps_isClosed tree) size u
    unfold read
    dsimp only
    split <;> (rename_i hr; rw [hr] at hclosed hbelow)
    · exact Prod.ext rfl (Prod.ext hclosed (congrArg some hbelow))
    · exact Prod.ext rfl (Prod.ext hclosed (congrArg some hbelow))

end Handle

/-! ## What steps do with streams -/

/-- What a step has to do with streams: nothing, it reads one for itself, it hands one out, or it is
about one that was handed out. -/
inductive StreamUse
  | none
  | own
  | new
  | held
deriving DecidableEq

def Step.streamUse : Step → StreamUse
  | .blob _ | .fetch .. => .own
  | .layer _ call =>
    match call with
    | .compressed | .uncompressed | .diffId => .own
    | _ => .none
  | .openCompressed _ | .openUncompressed _ => .new
  | .read .. | .close _ => .held
  | _ => .none

namespace Session

variable {s s' : Session}

/-- Sessions with the same streams, open or closed as they were. -/
def SameStreams (s s' : Session) : Prop :=
  s'.streams = s.streams ∧ s'.store.closed = s.store.closed

/-- Sessions with the same streams, where at most one blob was opened in between, and is closed. -/
def Settles (s s' : Session) : Prop :=
  s'.streams = s.streams ∧ s.store.Settled s'.store

theorem withEntry_cases {α : Type} {P : Outcome × Session → Prop} {table : List α} {number : Nat}
    {act : α → Outcome × Session} (hnone : P (.failed (.noSuchEntry number), s))
    (hsome : ∀ entry, table[number]? = some entry → P (act entry)) :
    P (s.withEntry table number act) := by
  unfold withEntry
  split
  · rename_i entry he
    exact hsome entry he
  · exact hnone

theorem sameStreams_callImage (s : Session) (image : Image) (call : ImageCall) :
    s.SameStreams (s.callImage image call).2 := by
  cases call with
  | layers =>
    have h := image.closed_layers s.store
    unfold callImage
    dsimp only
    split <;> (rename_i hr; rw [hr] at h; exact ⟨rfl, h⟩)
  | layerByDigest ref =>
    have h := Image.closed_layer s.store ref
    unfold callImage
    dsimp only
    split <;> (rename_i hr; rw [hr] at h; exact ⟨rfl, h⟩)
  | _ => exact ⟨rfl, rfl⟩

/-- A step that has nothing to do with streams opens and closes nothing. -/
theorem sameStreams_step [Room] {step : Step} (h : step.streamUse = .none) (s : Session) :
    s.SameStreams (s.step step).2 := by
  cases step with
  | put content =>
    have hclosed := s.store.closed_put content
    unfold Session.step
    dsimp only
    split <;> (rename_i hr; rw [hr] at hclosed; exact ⟨rfl, hclosed⟩)
  | putAs ref content =>
    have hclosed := s.store.closed_putAs ref content
    unfold Session.step
    dsimp only
    split <;> (rename_i hr; rw [hr] at hclosed; exact ⟨rfl, hclosed⟩)
  | makeDirectory path =>
    have hclosed := s.store.closed_makeDirectory path
    unfold Session.step
    dsimp only
    split <;> (rename_i hr; rw [hr] at hclosed; exact ⟨rfl, hclosed⟩)
  | writeFile path content =>
    have hclosed : (s.store.writeFile path content).2.closed = s.store.closed := rfl
    unfold Session.step
    dsimp only
    split <;> (rename_i hr; rw [hr] at hclosed; exact ⟨rfl, hclosed⟩)
  | image number call =>
    refine withEntry_cases (P := fun r => s.SameStreams r.2) ⟨rfl, rfl⟩ ?_
    intro image _
    exact sameStreams_callImage s image call
  | derive number =>
    refine withEntry_cases (P := fun r => s.SameStreams r.2) ⟨rfl, rfl⟩ ?_
    intro l _
    exact ⟨rfl, rfl⟩
  | layer number call =>
    refine withEntry_cases (P := fun r => s.SameStreams r.2) ⟨rfl, rfl⟩ ?_
    intro l _
    cases call with
    | compressed => cases h
    | uncompressed => cases h
    | diffId => cases h
    | size =>
      dsimp only [callLayer]
      split <;> exact ⟨rfl, rfl⟩
    | describeInner =>
      dsimp only [callLayer]
      split <;> exact ⟨rfl, rfl⟩
    | _ => exact ⟨rfl, rfl⟩
  | closed number =>
    refine withEntry_cases (P := fun r => s.SameStreams r.2) ⟨rfl, rfl⟩ ?_
    intro l _
    exact ⟨rfl, rfl⟩
  | blob => cases h
  | fetch => cases h
  | openCompressed => cases h
  | openUncompressed => cases h
  | read => cases h
  | close => cases h
  | _ => exact ⟨rfl, rfl⟩

theorem settles_readCompressed [Room] (s : Session) (ref : Reference) :
    s.Settles (s.readCompressed (s.store.openBlob ref)).2 := by
  unfold readCompressed
  rcases s.store.openBlob_cases ref with
    ⟨e, store, h, hclosed⟩ | ⟨opened, store, h, hid, -, hclosed⟩
  · rw [h]
    exact ⟨rfl, Or.inl hclosed⟩
  · rw [h]
    exact ⟨rfl, Store.settled_close hid hclosed⟩

theorem settles_readUncompressed [Room] (s : Session) (l : Layer) :
    s.Settles (s.readUncompressed l).2 := by
  unfold readUncompressed
  rcases l.uncompressed_cases s.store with
    ⟨e, store, h, hclosed⟩ | ⟨id, blob, store, h, hid, -, hclosed⟩
  · rw [h]
    exact ⟨rfl, Or.inl hclosed⟩
  · rw [h]
    exact ⟨rfl, Store.settled_close hid hclosed⟩

/-- A step that reads a stream for itself closes it, whatever comes of reading. -/
theorem settles_step [Room] {step : Step} (h : step.streamUse = .own) (s : Session) :
    s.Settles (s.step step).2 := by
  cases step with
  | blob ref => exact settles_readCompressed s ref
  | fetch ref mediaType =>
    have hsettled := Image.settled_fetch s.chunkSize s.store ref mediaType
    unfold Session.step
    dsimp only
    split <;> (rename_i hr; rw [hr] at hsettled; exact ⟨rfl, hsettled⟩)
  | layer number call =>
    refine withEntry_cases (P := fun r => s.Settles r.2) ⟨rfl, Or.inl rfl⟩ ?_
    intro l _
    cases call with
    | compressed =>
      dsimp only [callLayer]
      rw [Layer.compressed_eq_openBlob]
      exact settles_readCompressed s l.reference
    | uncompressed => exact settles_readUncompressed s l
    | diffId =>
      have hsettled := l.settled_diffId s.chunkSize s.store
      dsimp only [callLayer]
      split <;> (rename_i hr; rw [hr] at hsettled; exact ⟨rfl, hsettled⟩)
    | _ => cases h
  | _ => cases h

/-- What handing out a stream comes to: it fails and opens nothing, or there is an open stream more
over one more blob. -/
def HandsOut (s : Session) (result : Outcome × Session) : Prop :=
  (∃ e, result.1 = .failed e ∧ s.SameStreams result.2) ∨
  ∃ h : Handle, result.1 = .stream s.streams.length ∧ result.2.streams = s.streams ++ [h] ∧
    h.Shows false ∧ h.id = s.store.closed.size ∧
    result.2.store.closed = s.store.closed.push false

theorem handsOut_step [Room] {step : Step} (h : step.streamUse = .new) (s : Session) :
    s.HandsOut (s.step step) := by
  cases step with
  | openCompressed number =>
    refine withEntry_cases (P := s.HandsOut) (Or.inl ⟨_, rfl, rfl, rfl⟩) ?_
    intro l _
    unfold openCompressed
    rw [Layer.compressed_eq_openBlob]
    rcases s.store.openBlob_cases l.reference with
      ⟨e, store, h, hclosed⟩ | ⟨opened, store, h, hid, hopen, hclosed⟩
    · rw [h]
      exact Or.inl ⟨e, rfl, rfl, hclosed⟩
    · rw [h]
      refine Or.inr ⟨.compressed opened.id opened.blob, rfl, rfl, ⟨hopen, ?_⟩, hid, hclosed⟩
      intro below hb
      cases hb
  | openUncompressed number =>
    refine withEntry_cases (P := s.HandsOut) (Or.inl ⟨_, rfl, rfl, rfl⟩) ?_
    intro l _
    unfold openUncompressed
    rcases l.uncompressed_cases s.store with
      ⟨e, store, h, hclosed⟩ | ⟨id, blob, store, h, hid, hopen, hclosed⟩
    · rw [h]
      exact Or.inl ⟨e, rfl, rfl, hclosed⟩
    · rw [h]
      refine Or.inr ⟨.uncompressed id (.start blob), rfl, rfl, ⟨rfl, ?_⟩, hid, hclosed⟩
      intro below hb
      cases hb
      exact hopen
  | layer number call => cases call <;> cases h
  | _ => cases h

theorem map_set_of_eq {α β : Type} {entries : List α} {n : Nat} {a b : α} (f : α → β)
    (hn : entries[n]? = some a) (hb : f b = f a) : (entries.set n b).map f = entries.map f := by
  obtain ⟨hlt, rfl⟩ := List.getElem?_eq_some_iff.mp hn
  have hlt' : n < (entries.map f).length := by simpa using hlt
  rw [List.map_set, hb, ← List.getElem_map f]
  exact List.set_getElem_self hlt'

/-- Reading a stream that is held, also where it fails, opens and closes nothing. -/
theorem step_read [Room] (s : Session) (n : Nat) (size : Int) :
    (s.step (.read n size)).2.streams.map Handle.standing = s.streams.map Handle.standing ∧
      (s.step (.read n size)).2.store.closed = s.store.closed := by
  cases hn : s.streams[n]? with
  | none => simp [step, withEntry, hn]
  | some h =>
    have hstep : (s.step (.read n size)).2 =
        { s with streams := s.streams.set n (h.read s.store.tree size).2 } := by
      simp [step, withEntry, hn]
    rw [hstep]
    exact ⟨map_set_of_eq Handle.standing hn (h.standing_read ..), rfl⟩

/-- Closing a stream that is held closes it and the blob under it, and no other. -/
theorem step_close [Room] {n : Nat} {h : Handle} (hn : s.streams[n]? = some h) :
    (s.step (.close n)).1 = .done ∧ (s.step (.close n)).2.streams = s.streams.set n h.close ∧
      (s.step (.close n)).2.store.closed = s.store.closed.setIfInBounds h.id true := by
  simp [step, withEntry, hn, Store.close]

theorem step_close_of_none [Room] {n : Nat} (hn : s.streams[n]? = none) :
    s.step (.close n) = (.failed (.noSuchEntry n), s) :=
  withEntry_of_none hn s _

/-! ## Ownership over a run -/

/-- Whether some steps with their outcomes tell that a stream of that number was handed out. -/
def HandedOut (history : List (Step × Outcome)) (n : Nat) : Prop :=
  ∃ step : Step, step.streamUse = .new ∧ (step, .stream n) ∈ history

/-- Whether some steps with their outcomes tell that the stream of that number was closed. -/
def Closed (history : List (Step × Outcome)) (n : Nat) : Prop := (.close n, .done) ∈ history

/-- What holds between a session and the steps that led to it. The streams are those that were
handed out, each is closed if the caller closed it, the store's account says the same of the blob
under it, no two have the same blob under them, and no other blob is open. -/
structure Owned (history : List (Step × Outcome)) (s : Session) : Prop where
  handedOut : ∀ n, HandedOut history n ↔ n < s.streams.length
  shows : ∀ (n : Nat) (h : Handle), s.streams[n]? = some h →
    ∃ c, (c = true ↔ Closed history n) ∧ h.Shows c ∧ s.store.closed[h.id]? = some c
  nodup : (s.streams.map Handle.id).Nodup
  held : ∀ id : Nat, s.store.closed[id]? = some false → id ∈ s.streams.map Handle.id
  known : ∀ n, Closed history n → n < s.streams.length

variable {history : List (Step × Outcome)} {event : Step × Outcome} {n : Nat}

theorem handedOut_append : HandedOut (history ++ [event]) n ↔
    HandedOut history n ∨ event.1.streamUse = .new ∧ event.2 = .stream n := by
  unfold HandedOut
  simp only [List.mem_append, List.mem_singleton]
  constructor
  · rintro ⟨step, hnew, h | rfl⟩
    · exact Or.inl ⟨step, hnew, h⟩
    · exact Or.inr ⟨hnew, rfl⟩
  · rintro (⟨step, hnew, h⟩ | ⟨hnew, h⟩)
    · exact ⟨step, hnew, Or.inl h⟩
    · exact ⟨event.1, hnew, Or.inr (Prod.ext rfl h.symm)⟩

theorem closed_append : Closed (history ++ [event]) n ↔
    Closed history n ∨ event = (.close n, .done) := by
  unfold Closed
  rw [List.mem_append, List.mem_singleton, eq_comm]

theorem owned_start (chunkSize : Int) (kind : StoreKind) (failAt maxRead : Option Nat) :
    (start chunkSize (.ofKind kind failAt maxRead)).Owned [] where
  handedOut n := by simp [HandedOut, start]
  shows n h hn := by simp [start] at hn
  nodup := by simp [start]
  held id hid := by simp [start, Store.ofKind] at hid
  known n hn := by simp [Closed] at hn

/-- Events that hand out no stream and close none. -/
def Silent (event : Step × Outcome) : Prop :=
  (∀ n, event.1.streamUse = .new → event.2 ≠ .stream n) ∧ ∀ n, event ≠ (.close n, .done)

theorem silent_of_streamUse {step : Step} (h : step.streamUse = .none ∨ step.streamUse = .own)
    (outcome : Outcome) : Silent (step, outcome) := by
  refine ⟨?_, ?_⟩
  · intro n hnew
    simp [hnew] at h
  · intro n he
    obtain ⟨rfl, -⟩ := Prod.mk.inj he
    simp [Step.streamUse] at h

theorem silent_of_failed (step : Step) (e : Error) : Silent (step, .failed e) := by
  refine ⟨?_, ?_⟩
  · intro n _ hn
    cases hn
  · intro n he
    cases he

theorem silent_read (n : Nat) (size : Int) (outcome : Outcome) :
    Silent (.read n size, outcome) := by
  refine ⟨?_, ?_⟩
  · intro m hnew
    cases hnew
  · intro m he
    cases he

/-- A blob that was opened and closed again makes no difference to the streams that are held, nor
does anything else that leaves them open or closed as they were. -/
theorem Owned.of_settled (h : s.Owned history) (hevent : Silent event)
    (hstreams : s'.streams.map Handle.standing = s.streams.map Handle.standing)
    (hsettled : s.store.Settled s'.store) : s'.Owned (history ++ [event]) := by
  have handed : ∀ n, HandedOut (history ++ [event]) n ↔ HandedOut history n := by
    intro n
    rw [handedOut_append]
    exact or_iff_left fun hn => hevent.1 n hn.1 hn.2
  have closed : ∀ n, Closed (history ++ [event]) n ↔ Closed history n := by
    intro n
    rw [closed_append]
    exact or_iff_left (hevent.2 n)
  have hlength : s'.streams.length = s.streams.length := by
    simpa using congrArg List.length hstreams
  have hids : s'.streams.map Handle.id = s.streams.map Handle.id := by
    simpa [Handle.standing, Function.comp_def] using congrArg (List.map Prod.fst) hstreams
  refine ⟨?_, ?_, ?_, ?_, ?_⟩
  · intro n
    rw [handed, hlength]
    exact h.handedOut n
  · intro n handle' hn
    obtain ⟨handle, hn', hsame⟩ : ∃ handle, s.streams[n]? = some handle ∧
        handle.standing = handle'.standing := by
      have hget := congrArg (·[n]?) hstreams
      simp only [List.getElem?_map, hn, Option.map_some] at hget
      exact Option.map_eq_some_iff.mp hget.symm
    obtain ⟨hid, hstatus⟩ := Prod.mk.inj hsame
    obtain ⟨c, hc, hshows, hget⟩ := h.shows n handle hn'
    refine ⟨c, hc.trans (closed n).symm, hshows.of_status_eq hstatus.symm, ?_⟩
    rw [← hid]
    exact hsettled.closed_eq_some hget
  · rw [hids]
    exact h.nodup
  · intro id hget
    rw [hids]
    exact h.held id (hsettled.closed_eq_false hget)
  · intro n hn
    rw [hlength]
    exact h.known n ((closed n).mp hn)

/-- A stream that is handed out is open, over a blob that no other stream has under it. -/
theorem Owned.of_handsOut (h : s.Owned history) (hevent : event.1.streamUse = .new)
    {handle : Handle} (houtcome : event.2 = .stream s.streams.length)
    (hstreams : s'.streams = s.streams ++ [handle]) (hshows : handle.Shows false)
    (hid : handle.id = s.store.closed.size)
    (hclosed : s'.store.closed = s.store.closed.push false) : s'.Owned (history ++ [event]) := by
  have closed : ∀ n, Closed (history ++ [event]) n ↔ Closed history n := by
    intro n
    rw [closed_append]
    refine or_iff_left ?_
    intro he
    rw [he] at houtcome
    cases houtcome
  have hlength : s'.streams.length = s.streams.length + 1 := by rw [hstreams]; simp
  have below : ∀ id ∈ s.streams.map Handle.id, id < s.store.closed.size := by
    intro id hmem
    obtain ⟨other, hother, rfl⟩ := List.mem_map.mp hmem
    obtain ⟨n, hn⟩ := List.mem_iff_getElem?.mp hother
    obtain ⟨c, -, -, hc⟩ := h.shows n other hn
    exact (Array.getElem?_eq_some_iff.mp hc).1
  refine ⟨?_, ?_, ?_, ?_, ?_⟩
  · intro n
    rw [handedOut_append, h.handedOut, houtcome, hlength]
    constructor
    · rintro (hlt | ⟨-, heq⟩)
      · omega
      · cases heq
        omega
    · intro hlt
      rcases Nat.lt_succ_iff_lt_or_eq.mp hlt with hlt | rfl
      · exact Or.inl hlt
      · exact Or.inr ⟨hevent, rfl⟩
  · intro n other hn
    rw [hstreams, List.getElem?_append] at hn
    split at hn
    · obtain ⟨c, hc, hother, hget⟩ := h.shows n other hn
      refine ⟨c, hc.trans (closed n).symm, hother, ?_⟩
      rw [hclosed]
      exact Store.getElem?_push_closed hget false
    · rename_i hle
      obtain ⟨hzero, rfl⟩ : n - s.streams.length = 0 ∧ handle = other := by
        rw [List.getElem?_singleton] at hn
        split at hn
        · rename_i h0
          exact ⟨h0, Option.some.inj hn⟩
        · cases hn
      refine ⟨false, ?_, hshows, ?_⟩
      · have hnot : ¬ Closed (history ++ [event]) n := by
          rw [closed]
          intro hc
          exact hle (h.known n hc)
        simp [hnot]
      · rw [hclosed, hid, Array.getElem?_push_size]
  · rw [hstreams, List.map_append, List.map_singleton]
    refine List.nodup_append.mpr ⟨h.nodup, List.nodup_singleton _, ?_⟩
    intro id hmem other hother
    rw [List.mem_singleton.mp hother, hid]
    exact Nat.ne_of_lt (below id hmem)
  · intro id hget
    rw [hstreams, List.map_append, List.map_singleton, List.mem_append, List.mem_singleton, hid]
    rw [hclosed, Array.getElem?_push] at hget
    split at hget
    · rename_i heq
      exact Or.inr heq
    · exact Or.inl (h.held id hget)
  · intro n hn
    have := h.known n ((closed n).mp hn)
    omega

/-- A stream that is closed is closed with the blob under it, and no other is. -/
theorem Owned.of_close (h : s.Owned history) {n : Nat} {handle : Handle}
    (hn : s.streams[n]? = some handle) (hstreams : s'.streams = s.streams.set n handle.close)
    (hclosed : s'.store.closed = s.store.closed.setIfInBounds handle.id true) :
    s'.Owned (history ++ [(.close n, .done)]) := by
  obtain ⟨hlt, hget⟩ := List.getElem?_eq_some_iff.mp hn
  have hlength : s'.streams.length = s.streams.length := by rw [hstreams, List.length_set]
  have hids : s'.streams.map Handle.id = s.streams.map Handle.id := by
    rw [hstreams]
    exact map_set_of_eq Handle.id hn handle.id_close
  obtain ⟨c, -, -, hbelow⟩ := h.shows n handle hn
  have hbound : handle.id < s.store.closed.size := (Array.getElem?_eq_some_iff.mp hbelow).1
  have distinct : ∀ (m : Nat) (other : Handle), s.streams[m]? = some other → m ≠ n →
      handle.id ≠ other.id := by
    intro m other hm hne heq
    obtain ⟨hltm, hgetm⟩ := List.getElem?_eq_some_iff.mp hm
    have hltm' : m < (s.streams.map Handle.id).length := by simpa using hltm
    have hltn' : n < (s.streams.map Handle.id).length := by simpa using hlt
    have hinj : (s.streams.map Handle.id)[m] = (s.streams.map Handle.id)[n] ↔ m = n :=
      h.nodup.getElem_inj_iff
    exact hne (hinj.mp (by simp [hgetm, hget, heq]))
  refine ⟨?_, ?_, ?_, ?_, ?_⟩
  · intro m
    rw [handedOut_append, hlength, h.handedOut]
    refine or_iff_left ?_
    intro hnew
    cases hnew.1
  · intro m other hm
    rw [hstreams, List.getElem?_set] at hm
    split at hm
    · rename_i heq
      subst heq
      cases hm
      refine ⟨true, ?_, handle.shows_close, ?_⟩
      · simp [closed_append]
      · rw [hclosed, handle.id_close, Array.getElem?_setIfInBounds, if_pos rfl, if_pos hbound]
    · rename_i hne
      obtain ⟨c, hc, hshows, hother⟩ := h.shows m other hm
      refine ⟨c, ?_, hshows, ?_⟩
      · rw [hc, closed_append]
        refine (or_iff_left ?_).symm
        intro he
        cases he
        exact hne rfl
      · rw [hclosed, Array.getElem?_setIfInBounds, if_neg (distinct m other hm (Ne.symm hne))]
        exact hother
  · rw [hids]
    exact h.nodup
  · intro id hid
    rw [hids]
    rw [hclosed, Array.getElem?_setIfInBounds] at hid
    split at hid
    · cases hid
    · exact h.held id hid
  · intro m hm
    rw [hlength]
    rcases closed_append.mp hm with hm | hm
    · exact h.known m hm
    · cases hm
      exact hlt

/-- Whatever a step does, the session owns its streams as before. -/
theorem Owned.step [Room] (h : s.Owned history) (step : Step) :
    (s.step step).2.Owned (history ++ [(step, (s.step step).1)]) := by
  cases huse : step.streamUse with
  | none =>
    have hsame := sameStreams_step huse s
    exact h.of_settled (silent_of_streamUse (Or.inl huse) _) (by rw [hsame.1]) (Or.inl hsame.2)
  | own =>
    have hsettles := settles_step huse s
    exact h.of_settled (silent_of_streamUse (Or.inr huse) _) (by rw [hsettles.1]) hsettles.2
  | new =>
    rcases handsOut_step huse s with
      ⟨e, houtcome, hsame⟩ | ⟨handle, houtcome, hstreams, hshows, hid, hclosed⟩
    · rw [houtcome]
      exact h.of_settled (silent_of_failed step e) (by rw [hsame.1]) (Or.inl hsame.2)
    · exact h.of_handsOut huse houtcome hstreams hshows hid hclosed
  | held =>
    cases step with
    | read n size =>
      obtain ⟨hstreams, hclosed⟩ := s.step_read n size
      exact h.of_settled (silent_read n size _) hstreams (Or.inl hclosed)
    | close n =>
      cases hn : s.streams[n]? with
      | none =>
        rw [step_close_of_none hn]
        exact h.of_settled (silent_of_failed _ _) rfl (Or.inl rfl)
      | some handle =>
        obtain ⟨houtcome, hstreams, hclosed⟩ := step_close hn
        rw [houtcome]
        exact h.of_close hn hstreams hclosed
    | layer number call => cases call <;> cases huse
    | _ => cases huse

theorem Owned.run [Room] (h : s.Owned history) (steps : List Step) :
    (s.run steps).2.Owned (history ++ steps.zip (s.run steps).1) :=
  run_keeps (P := fun history s => s.Owned history) (fun _ _ step h => h.step step) h steps

/-- The streams of a session after any run. Those that were handed out are there; one that the
caller closed is closed together with the blob under it, however often it was closed and whatever
was read before, and one that the caller did not close is open. No other blob is open. From there,
a step that reads a stream for itself opens at most one and has closed it, whatever it comes to, a
step that has nothing to do with streams opens and closes none, and one that is to hand out a stream
fails and opens none, or adds one that is open. -/
theorem streams_over_run [Room] {chunkSize : Int} {kind : StoreKind} {failAt maxRead : Option Nat}
    {steps : List Step} {outcomes : List Outcome}
    (hrun : (start chunkSize (.ofKind kind failAt maxRead)).run steps = (outcomes, s)) :
    let history := steps.zip outcomes
    (∀ n, HandedOut history n ↔ n < s.streams.length) ∧
    (∀ (n : Nat) (h : Handle), s.streams[n]? = some h →
      (Closed history n → h.Shows true ∧ s.store.closed[h.id]? = some true) ∧
      (¬ Closed history n → h.Shows false ∧ s.store.closed[h.id]? = some false) ∧
      (s.step (.close n)).1 = .done) ∧
    (∀ id : Nat, s.store.closed[id]? = some false ↔
      ∃ (n : Nat) (h : Handle), s.streams[n]? = some h ∧ h.id = id ∧ ¬ Closed history n) ∧
    (∀ step : Step, step.streamUse = .own → s.Settles (s.step step).2) ∧
    (∀ step : Step, step.streamUse = .none → s.SameStreams (s.step step).2) ∧
    (∀ step : Step, step.streamUse = .new → s.HandsOut (s.step step)) := by
  have howned : s.Owned (steps.zip outcomes) := by
    have hall := (owned_start chunkSize kind failAt maxRead).run steps
    rw [hrun] at hall
    exact hall
  have hstatus : ∀ (n : Nat) (h : Handle), s.streams[n]? = some h →
      (Closed (steps.zip outcomes) n → h.Shows true ∧ s.store.closed[h.id]? = some true) ∧
      (¬ Closed (steps.zip outcomes) n →
        h.Shows false ∧ s.store.closed[h.id]? = some false) := by
    intro n h hn
    obtain ⟨c, hc, hshows, hid⟩ := howned.shows n h hn
    refine ⟨?_, ?_⟩
    · intro hclosed
      obtain rfl := hc.mpr hclosed
      exact ⟨hshows, hid⟩
    · intro hopen
      obtain rfl : c = false := by
        rw [← Bool.not_eq_true, hc]
        exact hopen
      exact ⟨hshows, hid⟩
  refine ⟨howned.handedOut, ?_, ?_, ?_, ?_, ?_⟩
  · intro n h hn
    exact ⟨(hstatus n h hn).1, (hstatus n h hn).2, (step_close hn).1⟩
  · intro id
    constructor
    · intro hid
      obtain ⟨h, hmem, rfl⟩ := List.mem_map.mp (howned.held id hid)
      obtain ⟨n, hn⟩ := List.mem_iff_getElem?.mp hmem
      refine ⟨n, h, hn, rfl, ?_⟩
      intro hclosed
      rw [((hstatus n h hn).1 hclosed).2] at hid
      cases hid
    · rintro ⟨n, h, hn, rfl, hopen⟩
      exact ((hstatus n h hn).2 hopen).2
  · intro step huse
    exact settles_step huse s
  · intro step huse
    exact sameStreams_step huse s
  · intro step huse
    exact handsOut_step huse s

/-- Two streams of a blob that is cut short, of which one is closed twice after a read that fails,
and an attempt at its diff id. -/
def cutShort : List Step :=
  let ref := some (Text.ofString "cut")
  [.putAs ref [0x1F, 0x8B, 0x08], .storedLayer ref, .derive 0, .openUncompressed 1, .read 0 (-1),
    .openCompressed 1, .close 0, .close 0, .layer 1 .diffId]

/-- The other stream is the only one that is open. -/
theorem streams_over_run_cutShort :
    let result := (start 3 (.ofKind .memory none none)).run cutShort
    result.2.store.closed = #[true, false, true] ∧
      (∀ id : Nat, result.2.store.closed[id]? = some false ↔
        ∃ (n : Nat) (h : Handle), result.2.streams[n]? = some h ∧ h.id = id ∧
          ¬ Closed (cutShort.zip result.1) n) := by
  intro result
  have hclosed : result.2.store.closed = #[true, false, true] := by decide +kernel
  obtain ⟨-, -, hopen, -⟩ := streams_over_run (show _ = (result.1, result.2) from Prod.eta result)
  exact ⟨hclosed, hopen⟩

end Session

end LegacyImage

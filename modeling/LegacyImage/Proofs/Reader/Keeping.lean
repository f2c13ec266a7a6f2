import LegacyImage.Gzip.Uncompressed
import LegacyImage.Store.OpenBlob

/-!
What reading leaves as it is. If single reads keep something about the state of a reader, then so
does reading to the end, and so does everything that reads through a decompressor, whatever comes
of it. Reading closes nothing: not a blob, not an uncompressed stream, and not the blob under one.
-/

namespace LegacyImage

namespace Reader

variable {σ ε α : Type}

/-- Whether reading, also where it fails, keeps what `f` says about the state. -/
def Keeps (r : Reader σ ε) (f : σ → α) : Prop := ∀ size s, f (r.read size s).2 = f s

theorem Keeps.of_read {r : Reader σ ε} {f : σ → α} (h : r.Keeps f) {size : Int} {s s' : σ}
    {result : Except ε Bytes} (hr : r.read size s = (result, s')) : f s' = f s := by
  have hs := h size s
  rw [hr] at hs
  exact hs

theorem Keeps.drain {r : Reader σ ε} {f : σ → α} (h : r.Keeps f) (size : Int) (s : σ) :
    f (r.drain size s).state = f s := by
  unfold Reader.drain
  generalize ([] : List Bytes) = done
  fun_induction drainFrom r size done s with
  | case1 done s e s' hr => exact h.of_read hr
  | case2 done s s' hr => exact h.of_read hr
  | case3 done s b bs s' hr ih => exact ih.trans (h.of_read hr)

end Reader

/-! ## Open blobs -/

theorem Stream.closed_read (size : Int) (s : Stream) : (s.read size).2.closed = s.closed := by
  unfold Stream.read
  split
  · rfl
  split
  · rfl
  split
  · rfl
  split <;> rfl

namespace OpenBlob

theorem closed_readFile [Room] (content : Bytes) (size : Int) (f : OpenFile) :
    (readFile content size f).2.closed = f.closed := by
  unfold readFile
  split
  · rfl
  split
  · rfl
  split
  · rfl
  dsimp only
  split
  · rfl
  split <;> rfl

theorem isClosed_read [Room] (tree : Tree) (size : Int) (b : OpenBlob) :
    (b.read tree size).2.isClosed = b.isClosed := by
  cases b with
  | memory s =>
    have h := s.closed_read size
    unfold read
    dsimp only
    split <;> (rename_i hr; rw [hr] at h; exact h)
  | file f =>
    have h := closed_readFile (contentOf tree f) size f
    unfold read
    dsimp only
    split <;> (rename_i hr; rw [hr] at h; exact h)

theorem isClosed_close (b : OpenBlob) : b.close.isClosed = true := by
  cases b <;> rfl

theorem keeps_isClosed [Room] (tree : Tree) : (reader tree).Keeps isClosed :=
  fun size b => isClosed_read tree size b

def isMemory : OpenBlob → Bool
  | memory _ => true
  | file _ => false

theorem keeps_isMemory [Room] (tree : Tree) : (reader tree).Keeps isMemory := by
  intro size b
  change (b.read tree size).2.isMemory = b.isMemory
  cases b with
  | memory s =>
    unfold read
    dsimp only
    split <;> rfl
  | file f =>
    unfold read
    dsimp only
    split <;> rfl

end OpenBlob

/-! ## Decompressing -/

namespace Gzip

variable {σ ε α : Type} {src : Reader σ ε} {f : σ → α}

namespace Gunzip

def Move.source : Move σ ε → σ
  | .goOn next => next.source
  | .give _ next => next.source
  | .fail _ next => next.source

theorem source_takeByte (source : σ) (stage : Stage) (b : UInt8) (rest : Bytes) :
    (takeByte source stage b rest : Move σ ε).source = source := by
  unfold takeByte
  split <;> rfl

theorem source_atEnd (source : σ) (stage : Stage) :
    (atEnd source stage : Move σ ε).source = source := by
  unfold atEnd
  split <;> rfl

theorem source_handOut (limit : Option Nat) (source : σ) (delivered size : Nat)
    (inflated : Deflate.Inflater × Bytes) :
    (handOut limit source delivered size inflated : Move σ ε).source = source := by
  simp only [handOut]
  split
  · rfl
  split
  · rfl
  · split <;> rfl
  · split
    · rfl
    · split <;> rfl

/-- A move reads from the source at most once. -/
theorem keeps_move (h : src.Keeps f) {limit : Option Nat} {g : Gunzip σ} {m : Move σ ε}
    (hm : move src limit g = m) : f m.source = f g.source := by
  subst hm
  unfold move
  split
  · rename_i source buffer i delivered
    unfold moveInBody
    split
    · rename_i hr
      exact h.of_read hr
    · rename_i hr
      rw [source_handOut]
      exact h.of_read hr
  · unfold moveOutside
    split
    · rw [source_takeByte]
    · split
      · rename_i hr
        exact h.of_read hr
      · rename_i hr
        rw [source_atEnd]
        exact h.of_read hr
      · rename_i hr
        split
        · exact h.of_read hr
        · rw [source_takeByte]
          exact h.of_read hr

theorem keeps_read (h : src.Keeps f) {limit : Option Nat} {g g' : Gunzip σ}
    {result : Except (ReadFault ε) Bytes} (hr : g.read src limit = (result, g')) :
    f g'.source = f g.source := by
  fun_induction read src limit g with
  | case1 g g₁ hm ih => exact (ih hr).trans (keeps_move h hm)
  | case2 g piece g₁ hm =>
    cases hr
    exact keeps_move h hm
  | case3 g fault g₁ hm =>
    cases hr
    exact keeps_move h hm

end Gunzip

namespace Uncompressed

theorem keeps_fill (h : src.Keeps f) (wanted filled : Nat) (done : List Bytes) (g : Gunzip σ) :
    f (fill src wanted filled done g).2.1.source = f g.source := by
  fun_induction fill src wanted filled done g with
  | case1 wanted filled done g limit e g₁ hr => exact Gunzip.keeps_read h hr
  | case2 wanted filled done g limit g₁ hr => exact Gunzip.keeps_read h hr
  | case3 wanted filled done g limit b bs g₁ hr hlt ih =>
    exact ih.trans (Gunzip.keeps_read h hr)
  | case4 wanted filled done g limit b bs g₁ hr hlt => exact Gunzip.keeps_read h hr

/-- Reading an uncompressed stream neither closes it nor changes what reading its source keeps. -/
theorem keeps_read [Room] (h : src.Keeps f) (size : Int) (u : Uncompressed σ) :
    (u.read src size).2.closed = u.closed ∧
      f (u.read src size).2.gunzip.source = f u.gunzip.source := by
  unfold read
  split
  · exact ⟨rfl, rfl⟩
  rename_i hclosed
  have hopen : false = u.closed := by simpa using hclosed
  split
  · exact ⟨rfl, rfl⟩
  split
  · have hwhole : (whole src).Keeps fun g => f g.source :=
      fun _ _ => Gunzip.keeps_read h rfl
    have hs := hwhole.drain 0 u.gunzip
    dsimp only
    split <;> exact ⟨hopen, hs⟩
  dsimp only
  split
  · exact ⟨rfl, rfl⟩
  split
  · exact ⟨rfl, rfl⟩
  have hs := keeps_fill h (size.toNat - u.ready.length) 0 [] u.gunzip
  split <;> (rename_i hr; rw [hr] at hs; exact ⟨hopen, hs⟩)

end Uncompressed

end Gzip

end LegacyImage

import LegacyImage.Gzip.Uncompressed
import LegacyImage.Proofs.Gzip.Ahead
import LegacyImage.Proofs.Store.BlobView

/-!
What is still to come from an uncompressed stream: the output that is kept, and what is still to
come from the file under it. Reading it in pieces, which asks the file for blocks of output, and
reading all of it at once, which asks for whatever there is, come to the same
(`readAll_eq_ok_iff_read`).
-/

namespace LegacyImage.Gzip

variable [Room] {σ ε : Type} {src : Reader σ ε} {v : src.View Empty}

namespace Uncompressed

/-! ## All at once -/

/-- The view of a file of which all is asked for. -/
def wholeView (v : src.View Empty) : (whole src).View Gzip.Fault where
  ahead := Gunzip.ahead v
  Valid := Gunzip.Fits v
  Sound := Gunzip.IsSound v
  told f := .format f
  split _ hg h :=
    let ⟨hg', hahead, hsound, _⟩ := Gunzip.read_eq_ok (by decide) hg h
    ⟨hg', hahead, hsound⟩
  ended _ hg h := (Gunzip.read_eq_ok (by decide) hg h).2.2.2 rfl
  fault _ _ hg hsound h :=
    let ⟨f, he, hahead⟩ := Gunzip.read_eq_error (by decide) hg hsound h
    ⟨f, hahead, he⟩

omit [Room] in
/-- The size that is asked for plays no part. -/
theorem whole_drainFrom (size size' : Int) (done : List Bytes) (g : Gunzip σ) :
    (whole src).drainFrom size done g = (whole src).drainFrom size' done g := by
  fun_induction Reader.drainFrom (whole src) size done g with
  | case1 done g e g' hr =>
    have hr' : (whole src).read size' g = (.error e, g') := hr
    exact ((whole src).drainFrom_of_error hr').symm
  | case2 done g g' hr =>
    have hr' : (whole src).read size' g = (.ok [], g') := hr
    exact ((whole src).drainFrom_of_end hr').symm
  | case3 done g b bs g' hr ih =>
    have hr' : (whole src).read size' g = (.ok (b :: bs), g') := hr
    rw [ih]
    exact ((whole src).drainFrom_of_piece (List.cons_ne_nil b bs) hr').symm

theorem whole_drain_eq_none_iff {g : Gunzip σ} (hg : Gunzip.Fits v g) (w : Bytes) :
    ((whole src).drain 0 g).fault = none ∧ ((whole src).drain 0 g).pieces.flatten = w ↔
      Gunzip.IsSound v g ∧ Gunzip.ahead v g = .ok w := by
  rw [Reader.drain, whole_drainFrom 0 1]
  exact (wholeView v).drain_eq_none_iff (by decide) (Room.lt_bound (by decide)) hg w

/-! ## A block after the other -/

/-- Whether what is still wanted fits into the block at hand, of which so much is filled. -/
def FitsBlock (wanted filled : Nat) : Prop := filled = 0 ∨ wanted + filled ≤ blockSize

omit [Room] in
/-- There is always something to ask for. -/
theorem limit_ne_zero {wanted filled : Nat} (hw : 0 < wanted) (hfit : FitsBlock wanted filled) :
    some (if blockSize ≤ wanted then wanted / blockSize * blockSize else blockSize - filled) ≠
      some 0 := by
  intro h
  have h := Option.some.inj h
  split at h
  · rename_i hle
    have := Nat.div_pos hle (by decide)
    exact absurd h (Nat.mul_ne_zero (by omega) (by decide))
  · unfold FitsBlock at hfit
    omega

omit [Room] in
theorem fitsBlock_next {wanted filled given : Nat} (hfit : FitsBlock wanted filled)
    (hlt : given < wanted) :
    FitsBlock (wanted - given) (if blockSize ≤ wanted then 0 else filled + given) := by
  unfold FitsBlock at *
  split
  · exact Or.inl rfl
  · omega

/-- What was put together is taken from what is still to come, and what is left over after it. -/
theorem fill_eq_ok {wanted filled : Nat} {done : List Bytes} {g g' : Gunzip σ}
    {out ready : Bytes} (hw : 0 < wanted) (hfit : FitsBlock wanted filled)
    (hg : Gunzip.Fits v g) (h : fill src wanted filled done g = (.ok out, g', ready)) :
    Gunzip.Fits v g' ∧ (Gunzip.IsSound v g ↔ Gunzip.IsSound v g') ∧
      ∃ fresh, out = done.reverse.flatten ++ fresh ∧
        Gunzip.ahead v g = (Gunzip.ahead v g').map ((fresh ++ ready) ++ ·) ∧
        (fresh = [] → Gunzip.ahead v g = .ok [] ∧ Gunzip.IsSound v g) := by
  fun_induction fill src wanted filled done g with
  | case1 => cases h
  | case2 wanted filled done g limit g₁ hr =>
    obtain ⟨hg₁, hahead, hsound, hend⟩ := Gunzip.read_eq_ok (limit_ne_zero hw hfit) hg hr
    cases h
    refine ⟨hg₁, hsound, [], (List.append_nil _).symm, hahead, ?_⟩
    intro _
    exact hend rfl
  | case3 wanted filled done g limit b bs g₁ hr hlt ih =>
    obtain ⟨hg₁, hahead, hsound, -⟩ := Gunzip.read_eq_ok (limit_ne_zero hw hfit) hg hr
    obtain ⟨hg', hsound', fresh, hout, hahead', -⟩ :=
      ih (Nat.sub_pos_of_lt hlt) (fitsBlock_next hfit hlt) hg₁ h
    refine ⟨hg', hsound.trans hsound', b :: bs ++ fresh, ?_, ?_, ?_⟩
    · rw [hout, List.reverse_cons, List.flatten_append, List.flatten_singleton, List.append_assoc]
    · rw [hahead, hahead', map_append_append, List.append_assoc]
    · intro he
      cases he
  | case4 wanted filled done g limit b bs g₁ hr hlt =>
    obtain ⟨hg₁, hahead, hsound, -⟩ := Gunzip.read_eq_ok (limit_ne_zero hw hfit) hg hr
    cases h
    refine ⟨hg₁, hsound, (b :: bs).take wanted, ?_, ?_, ?_⟩
    · rw [List.reverse_cons, List.flatten_append, List.flatten_singleton]
    · rw [List.take_append_drop]
      exact hahead
    · intro he
      rw [List.take_eq_nil_iff] at he
      exact absurd he (by simp only [reduceCtorEq, or_false]; omega)

theorem fill_eq_error {wanted filled : Nat} {done : List Bytes} {g g' : Gunzip σ}
    {ready : Bytes} {e : ReadFault ε} (hw : 0 < wanted) (hfit : FitsBlock wanted filled)
    (hg : Gunzip.Fits v g) (hsound : Gunzip.IsSound v g)
    (h : fill src wanted filled done g = (.error e, g', ready)) :
    ∃ f, e = .format f ∧ Gunzip.ahead v g = .error f := by
  fun_induction fill src wanted filled done g with
  | case1 wanted filled done g limit e' g₁ hr =>
    cases h
    exact Gunzip.read_eq_error (limit_ne_zero hw hfit) hg hsound hr
  | case2 => cases h
  | case3 wanted filled done g limit b bs g₁ hr hlt ih =>
    obtain ⟨hg₁, hahead, hiff, -⟩ := Gunzip.read_eq_ok (limit_ne_zero hw hfit) hg hr
    obtain ⟨f, he, hf⟩ :=
      ih (Nat.sub_pos_of_lt hlt) (fitsBlock_next hfit hlt) hg₁ (hiff.mp hsound) h
    exact ⟨f, he, by rw [hahead, hf]; rfl⟩
  | case4 => cases h

/-! ## The view -/

def ahead (v : src.View Empty) (u : Uncompressed σ) : Except Gzip.Fault Bytes :=
  (Gunzip.ahead v u.gunzip).map (u.ready ++ ·)

/-- Whether only the format can make a read fail. -/
def IsSound (v : src.View Empty) (u : Uncompressed σ) : Prop :=
  u.closed = false ∧ Gunzip.IsSound v u.gunzip

/-- A piece that was read is taken from what is still to come. -/
theorem read_eq_ok {size : Int} (hn : 0 ≤ size) {u u' : Uncompressed σ} {piece : Bytes}
    (hu : Gunzip.Fits v u.gunzip) (h : u.read src size = (.ok piece, u')) :
    Gunzip.Fits v u'.gunzip ∧ ahead v u = (ahead v u').map (piece ++ ·) ∧
      (IsSound v u ↔ IsSound v u') ∧
      (0 < size → piece = [] → ahead v u = .ok [] ∧ IsSound v u) := by
  obtain ⟨g, ready, closed⟩ := u
  unfold read at h
  split at h
  · cases h
  rename_i hclosed
  obtain rfl : closed = false := by simpa using hclosed
  split at h
  · cases h
  rw [if_neg (by omega)] at h
  dsimp only at h hu
  split at h
  · rename_i hlen
    cases h
    refine ⟨hu, ?_, Iff.rfl, ?_⟩
    · rw [ahead, ahead, map_append_append, List.take_append_drop]
    · intro hpos he
      rw [he, List.length_nil] at hlen
      omega
  rename_i hlen
  have hw : 0 < size.toNat - ready.length := by
    rw [List.length_take] at hlen
    omega
  split at h
  · cases h
  split at h
  · cases h
  · rename_i out g' ready' hfill
    cases h
    obtain ⟨hg', hsound, fresh, rfl, hahead, hend⟩ := fill_eq_ok hw (Or.inl rfl) hu hfill
    refine ⟨hg', ?_, and_congr Iff.rfl hsound, ?_⟩
    · rw [ahead, ahead, hahead, map_append_append, map_append_append, List.append_assoc]
    · intro _ he
      obtain ⟨rfl, rfl⟩ := List.append_eq_nil_iff.mp he
      obtain ⟨hnil, hs⟩ := hend rfl
      exact ⟨by rw [ahead, hnil]; rfl, rfl, hs⟩

/-- A read for which there is room fails with what is wrong with the file. -/
theorem read_eq_error {size : Int} (hn : 0 ≤ size) (hroom : size < Room.bound)
    {u u' : Uncompressed σ} {e : Fault ε} (hu : Gunzip.Fits v u.gunzip) (hsound : IsSound v u)
    (h : u.read src size = (.error e, u')) :
    ∃ f, ahead v u = .error f ∧ e = .file (.format f) := by
  obtain ⟨g, ready, closed⟩ := u
  obtain ⟨rfl, hs⟩ := hsound
  unfold read at h
  rw [if_neg Bool.false_ne_true, PieceSize.fault?_of_lt hn hroom] at h
  dsimp only at h hu
  rw [if_neg (by omega)] at h
  split at h
  · cases h
  rename_i hlen
  have hw : 0 < size.toNat - ready.length := by
    rw [List.length_take] at hlen
    omega
  rw [PieceSize.roomFault?_of_lt (by omega)] at h
  dsimp only at h
  split at h
  · rename_i e' g' ready' hfill
    cases h
    obtain ⟨f, rfl, hahead⟩ := fill_eq_error hw (Or.inl rfl) hu hs hfill
    exact ⟨f, by rw [ahead, hahead]; rfl, rfl⟩
  · cases h

def view (v : src.View Empty) : (reader src).View Gzip.Fault where
  ahead := ahead v
  Valid u := Gunzip.Fits v u.gunzip
  Sound := IsSound v
  told f := .file (.format f)
  split hn hu h :=
    let ⟨hu', hahead, hsound, _⟩ := read_eq_ok hn hu h
    ⟨hu', hahead, hsound⟩
  ended hn hu h := (read_eq_ok (Int.le_of_lt hn) hu h).2.2.2 hn rfl
  fault hn hroom hu hsound h := read_eq_error hn hroom hu hsound h

/-- Reading all there is at once gives what is still to come. -/
theorem read_all_eq_ok_iff {u : Uncompressed σ} (hu : Gunzip.Fits v u.gunzip) (w : Bytes) :
    (u.read src (-1)).1 = .ok w ↔ IsSound v u ∧ ahead v u = .ok w := by
  obtain ⟨g, ready, closed⟩ := u
  have hdrain := whole_drain_eq_none_iff hu
  have hfault : PieceSize.fault? (-1) = none := rfl
  unfold read IsSound ahead
  dsimp only at hdrain ⊢
  cases closed with
  | true => simp
  | false =>
    rw [if_neg Bool.false_ne_true, hfault]
    dsimp only
    rw [if_pos rfl]
    cases hf : ((whole src).drain 0 g).fault with
    | some e =>
      refine iff_of_false ?_ ?_
      · rintro ⟨⟩
      rintro ⟨⟨-, hs⟩, hahead⟩
      cases hw : Gunzip.ahead v g with
      | error f =>
        rw [hw] at hahead
        cases hahead
      | ok beyond =>
        obtain ⟨hnone, -⟩ := (hdrain beyond).mpr ⟨hs, hw⟩
        rw [hf] at hnone
        cases hnone
    | none =>
      obtain ⟨hs, hahead⟩ := (hdrain _).mp ⟨hf, rfl⟩
      rw [hahead, and_iff_right (And.intro rfl hs)]
      dsimp only [Except.map]
      rw [Except.ok.injEq, Except.ok.injEq]

/-- Reading in pieces and reading all at once come to the same. -/
theorem readAll_eq_ok_iff_read {size : Int} (hn : 0 < size) (hroom : size < Room.bound)
    {u : Uncompressed σ} (hu : Gunzip.Fits v u.gunzip) (w : Bytes) :
    ((reader src).drain size u).fault = none ∧ ((reader src).drain size u).pieces.flatten = w ↔
      (u.read src (-1)).1 = .ok w := by
  rw [read_all_eq_ok_iff hu w]
  exact (view v).drain_eq_none_iff hn hroom hu w

/-- If nothing else can go wrong, reading all there is at once comes to what is still to come, or to
what is wrong with it. -/
theorem read_all_eq {u : Uncompressed σ} (hu : Gunzip.Fits v u.gunzip) (hsound : IsSound v u) :
    (u.read src (-1)).1 = (ahead v u).mapError fun f => .file (.format f) := by
  cases hahead : ahead v u with
  | ok w => exact (read_all_eq_ok_iff hu w).mpr ⟨hsound, hahead⟩
  | error f =>
    have hnone : ∀ w, (u.read src (-1)).1 = .ok w ↔ IsSound v u ∧ ahead v u = .ok w :=
      read_all_eq_ok_iff hu
    obtain ⟨g, ready, closed⟩ := u
    obtain ⟨rfl, hs⟩ := hsound
    have hfault : PieceSize.fault? (-1) = none := rfl
    unfold read at hnone ⊢
    rw [if_neg Bool.false_ne_true, hfault] at hnone ⊢
    dsimp only at hnone ⊢
    rw [if_pos rfl] at hnone ⊢
    cases hd : ((whole src).drain 0 g).fault with
    | none =>
      rw [hd] at hnone
      obtain ⟨-, hw⟩ := (hnone _).mp rfl
      rw [hahead] at hw
      cases hw
    | some e =>
      obtain ⟨f', hf', rfl⟩ :=
        (wholeView v).drainFrom_some (Int.le_refl 0) (Room.lt_bound (by decide)) hu hs hd
      have hf : ahead v ⟨g, ready, false⟩ = .error f' := by
        rw [ahead]
        exact congrArg (Except.map _) hf'
      rw [hahead] at hf
      obtain rfl := Except.error.inj hf
      rfl

/-- Reading all there is at once leaves nothing to come, and nothing that can go wrong. -/
theorem ahead_of_read_all {u u' : Uncompressed σ} (hu : Gunzip.Fits v u.gunzip) {w : Bytes}
    (h : u.read src (-1) = (.ok w, u')) :
    Gunzip.Fits v u'.gunzip ∧ IsSound v u' ∧ ahead v u = .ok w ∧ ahead v u' = .ok [] := by
  have hw := ((read_all_eq_ok_iff hu w).mp (congrArg Prod.fst h)).2
  have hfault : PieceSize.fault? (-1) = none := rfl
  unfold read at h
  split at h
  · cases h
  rw [hfault] at h
  dsimp only at h
  rw [if_pos rfl] at h
  split at h
  · cases h
  · rename_i hnone
    rw [Reader.drain, whole_drainFrom 0 1] at hnone h
    obtain ⟨hfits, hsound, hend⟩ := (wholeView v).ahead_of_drainFrom (by decide) hu hnone
    cases h
    refine ⟨hfits, ⟨rfl, hsound⟩, hw, ?_⟩
    rw [ahead, map_nil_append]
    exact hend

/-- Reading all there is until nothing comes any more gives what is still to come. -/
theorem ahead_of_drain_all {u : Uncompressed σ} (hu : Gunzip.Fits v u.gunzip)
    (h : ((reader src).drain (-1) u).fault = none) :
    ahead v u = .ok ((reader src).drain (-1) u).pieces.flatten := by
  unfold Reader.drain at h ⊢
  cases hread : (reader src).read (-1) u with
  | mk result u' =>
    cases result with
    | error e =>
      rw [(reader src).drainFrom_of_error hread] at h
      cases h
    | ok w =>
      obtain ⟨hu', -, hw, hend⟩ := ahead_of_read_all hu hread
      by_cases hnil : w = []
      · subst hnil
        rw [(reader src).drainFrom_of_end hread]
        exact hw
      rw [(reader src).drainFrom_of_piece hnil hread] at h ⊢
      cases hagain : (reader src).read (-1) u' with
      | mk result' u'' =>
        cases result' with
        | error e =>
          rw [(reader src).drainFrom_of_error hagain] at h
          cases h
        | ok more =>
          have hmore := hend.symm.trans (ahead_of_read_all hu' hagain).2.2.1
          obtain rfl := Except.ok.inj hmore
          rw [(reader src).drainFrom_of_end hagain, hw]
          simp

/-- A stream that has nothing ready makes no piece for which there is no room, whatever it is a
stream of. -/
theorem exists_read_start_of_noRoom (src : Reader σ ε) {size : Int}
    (hroom : Room.bound ≤ size) :
    ∃ fault, ∀ source : σ,
      (reader src).read size (start source) = (.error (.size fault), start source) := by
  have hpos : 0 < size.toNat := by
    have hbound := Room.le_bound
    omega
  have hread : ∀ source : σ, (reader src).read size (start source) =
      read src size ⟨.start source, [], false⟩ := fun _ => rfl
  unfold read at hread
  cases hfault : PieceSize.fault? size with
  | some fault =>
    refine ⟨fault, ?_⟩
    intro source
    rw [hread, if_neg Bool.false_ne_true, hfault]
    rfl
  | none =>
    have hlen : (([] : Bytes).take size.toNat).length ≠ size.toNat := by
      rw [List.take_nil, List.length_nil]
      omega
    obtain ⟨fault, hr⟩ := PieceSize.exists_roomFault? (n := size.toNat) (by omega)
    refine ⟨fault, ?_⟩
    intro source
    rw [hread, if_neg Bool.false_ne_true, hfault]
    dsimp only
    rw [if_neg (by omega), if_neg hlen, hr]
    rfl

theorem drain_of_noRoom {size : Int} (hroom : Room.bound ≤ size) (source : σ) :
    ((reader src).drain size (.start source)).fault ≠ none := by
  obtain ⟨fault, hread⟩ := exists_read_start_of_noRoom src hroom
  rw [Reader.drain, (reader src).drainFrom_of_error (hread source)]
  exact Option.some_ne_none _

/-- A stream of a source that gives the first byte alone fails at the first read. -/
theorem read_of_startsShort {source source' : σ} {b : UInt8}
    (h : src.read 2 source = (.ok [b], source')) {size : Int}
    (hsize : size = -1 ∨ 0 < size ∧ size < Room.bound) :
    ((start source).read src size).1 = .error (.file (.format (.notGzip [b]))) := by
  have hread := Gunzip.read_of_startsShort h
  change (read src size ⟨.start source, [], false⟩).1 = _
  unfold read
  rw [if_neg Bool.false_ne_true]
  rcases hsize with rfl | ⟨hn, hroom⟩
  · have hwhole : (whole src).read 0 (.start source) =
        (.error (.format (.notGzip [b])), ⟨source', [], .start, 0⟩) := hread none
    have hfault : PieceSize.fault? (-1) = none := rfl
    rw [hfault]
    dsimp only
    rw [if_pos rfl, Reader.drain, Reader.drainFrom_of_error _ hwhole]
  · have hlen : (([] : Bytes).take size.toNat).length ≠ size.toNat := by
      rw [List.take_nil, List.length_nil]
      omega
    rw [PieceSize.fault?_of_lt (Int.le_of_lt hn) hroom]
    dsimp only
    rw [if_neg (by omega), if_neg hlen, PieceSize.roomFault?_of_lt (by omega)]
    dsimp only
    rw [fill, hread]

/-- A blob that gives its first two bytes together gives the first alone only if it is all there
is. -/
theorem isSound_start {tree : Tree} {b : OpenBlob} {file : Bytes} (hb : b.IsSound)
    (htwo : ((OpenBlob.reader tree).read 2 b).1 = .ok (file.take 2))
    (hone : ∀ first, file ≠ [first]) : Gunzip.IsSound (OpenBlob.view tree) (.start b) := by
  refine ⟨hb, ?_⟩
  rintro ⟨-, -, first, hshort⟩
  have htake : file.take 2 = [first] := Except.ok.inj (htwo.symm.trans hshort)
  match file with
  | [] => cases htake
  | [only] => exact hone only rfl
  | _ :: _ :: _ => cases htake

end Uncompressed

end LegacyImage.Gzip

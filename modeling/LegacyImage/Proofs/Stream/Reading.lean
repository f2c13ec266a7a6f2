import LegacyImage.Proofs.Store.BlobView

/-!
Reading a stream in memory to its end. Reads only bring out what is left, in order and not past a
failure (`Stream.Gives`), so that what comes of all of them is known from the one that ended them
(`exists_readAll`): an empty piece is the end of all that was left, unless its size was zero, and
nothing but a failure that was set or a size that is no word ends them otherwise.
-/

namespace LegacyImage

namespace Stream

/-! ## One piece -/

theorem length_piece_le {size : Int} {s : Stream} {n : Nat} (h : n ∈ s.bounds size) :
    (s.piece size).length ≤ n := by
  unfold piece
  cases hmin : (s.bounds size).min? with
  | none =>
    rw [List.min?_eq_none_iff.mp hmin] at h
    cases h
  | some m =>
    dsimp only
    rw [List.length_take]
    have hle := (List.min?_eq_some_iff.mp hmin).2 n h
    omega

theorem read_zero {s : Stream} (hopen : s.closed = false) : s.read 0 = (.ok [], s) := by
  rw [read, if_neg (by simp [hopen]), if_pos rfl]

/-- A stream gives an empty piece at its end only, and only if it does not fail there. -/
theorem end_of_read_nil {size : Int} (hsize : size ≠ 0) {s s' : Stream} (hmax : s.maxRead ≠ some 0)
    (h : s.read size = (.ok [], s')) : s.rest = [] ∧ ∀ p, s.failAt = some p → s.position < p := by
  obtain ⟨-, -, hpiece⟩ := read_eq_ok h
  obtain ⟨hbefore, hnil⟩ := hpiece hsize
  exact ⟨rest_eq_nil_of_piece hsize hbefore hmax hnil.symm, hbefore⟩

/-- An open stream fails for no other reason than that it has come to its failure, if the size that
the bounds leave is a word. -/
theorem reset_of_read_error {size : Int} {s s' : Stream} {e : Fault} (hopen : s.closed = false)
    (hwords : s.exceedsWords size = false) (h : s.read size = (.error e, s')) :
    e = .reset ∧ ∃ p, s.failAt = some p ∧ p ≤ s.position := by
  by_cases hbefore : ∀ p, s.failAt = some p → s.position < p
  · obtain ⟨piece, s'', hread⟩ := read_of_open hopen hbefore hwords
    rw [hread] at h
    cases h
  · simp only [Classical.not_forall, Nat.not_lt] at hbefore
    obtain ⟨p, hp, hle⟩ := hbefore
    by_cases hsize : size = 0
    · rw [hsize, read_zero hopen] at h
      cases h
    · rw [read, if_neg (by simp [hopen]), if_neg hsize, if_pos (by simp [hp, hle])] at h
      cases h
      exact ⟨rfl, p, hp, hle⟩

/-- A read that gives no byte leaves the stream where it was. -/
theorem eq_of_read_nil {size : Int} {s s' : Stream} (h : s.read size = (.ok [], s')) : s' = s := by
  obtain ⟨hrest, hposition⟩ := rest_read h
  obtain ⟨hopen, ⟨hclosed, hfail, hmax⟩, -⟩ := read_eq_ok h
  obtain ⟨rest, position, failAt, maxRead, closed⟩ := s
  obtain ⟨rest', position', failAt', maxRead', closed'⟩ := s'
  simp_all

/-! ## What a stream has given -/

/-- Whether reads have made one stream of the other and given some bytes on the way: they came past
just these, and no failure that lay ahead. -/
structure Gives (s : Stream) (given : Bytes) (s' : Stream) : Prop where
  rest : s.rest = given ++ s'.rest
  position : s'.position = s.position + given.length
  failAt : s'.failAt = s.failAt
  maxRead : s'.maxRead = s.maxRead
  closed : s'.closed = s.closed
  within : ∀ p, s.failAt = some p → s'.position ≤ max p s.position

theorem Gives.refl (s : Stream) : s.Gives [] s := by
  refine ⟨rfl, rfl, rfl, rfl, rfl, ?_⟩
  intro p _
  exact Nat.le_max_right p s.position

theorem Gives.trans {s s' s'' : Stream} {given more : Bytes} (h : s.Gives given s')
    (h' : s'.Gives more s'') : s.Gives (given ++ more) s'' := by
  refine ⟨?_, ?_, h'.failAt.trans h.failAt, h'.maxRead.trans h.maxRead, h'.closed.trans h.closed,
    ?_⟩
  · rw [h.rest, h'.rest, List.append_assoc]
  · rw [h'.position, h.position, List.length_append, Nat.add_assoc]
  · intro p hp
    have hfirst := h.within p hp
    have hsecond := h'.within p (h.failAt.trans hp)
    omega

theorem Gives.length_le {s s' : Stream} {given : Bytes} (h : s.Gives given s') :
    given.length ≤ s.rest.length := by
  rw [h.rest, List.length_append]
  exact Nat.le_add_right _ _

theorem gives_of_read {size : Int} {s s' : Stream} {piece : Bytes}
    (h : s.read size = (.ok piece, s')) : s.Gives piece s' := by
  obtain ⟨hrest, hposition⟩ := rest_read h
  obtain ⟨hopen, ⟨hclosed, hfail, hmax⟩, hpiece⟩ := read_eq_ok h
  refine ⟨hrest.symm, hposition, hfail, hmax, hclosed.trans hopen.symm, ?_⟩
  intro p hp
  by_cases hsize : size = 0
  · subst hsize
    rw [read_zero hopen] at h
    obtain rfl := (Prod.mk.inj h).2
    exact Nat.le_max_right p s.position
  · obtain ⟨hbefore, rfl⟩ := hpiece hsize
    have hdistance : p - s.position ∈ s.bounds size := by simp [bounds, hp]
    have hlength := length_piece_le hdistance
    have hahead := hbefore p hp
    omega

theorem gives_drainFrom (size : Int) (done : List Bytes) (s : Stream) :
    ∃ given, (reader.drainFrom size done s).pieces.flatten = done.reverse.flatten ++ given ∧
      s.Gives given (reader.drainFrom size done s).state := by
  fun_induction Reader.drainFrom reader size done s with
  | case1 done s e s' hr =>
    obtain rfl := eq_of_read_error hr
    exact ⟨[], (List.append_nil _).symm, .refl s'⟩
  | case2 done s s' hr => exact ⟨[], (List.append_nil _).symm, gives_of_read hr⟩
  | case3 done s b bs s' hr ih =>
    obtain ⟨given, hpieces, hgives⟩ := ih
    refine ⟨(b :: bs) ++ given, ?_, (gives_of_read hr).trans hgives⟩
    rw [hpieces, List.reverse_cons, List.flatten_append, List.flatten_singleton,
      List.append_assoc]

/-- The read that ended the reading would end it again. -/
theorem read_state_drainFrom (size : Int) (done : List Bytes) (s : Stream) :
    (reader.drainFrom size done s).state.read size =
      (match (reader.drainFrom size done s).fault with
        | some e => .error e
        | none => .ok [], (reader.drainFrom size done s).state) := by
  fun_induction Reader.drainFrom reader size done s with
  | case1 done s e s' hr =>
    obtain rfl := eq_of_read_error hr
    exact hr
  | case2 done s s' hr =>
    obtain rfl := eq_of_read_nil hr
    exact hr
  | case3 done s b bs s' hr ih => exact ih

/-! ## Sizes -/

theorem exceedsWords_eq_false_iff {size : Int} {s : Stream} :
    s.exceedsWords size = false ↔
      s.bounds size = [] ∨ ∃ n ∈ s.bounds size, n < PieceSize.wordBound := by
  unfold exceedsWords
  cases hmin : (s.bounds size).min? with
  | none => simp [List.min?_eq_none_iff.mp hmin]
  | some m =>
    obtain ⟨hm, hle⟩ := List.min?_eq_some_iff.mp hmin
    rw [Option.any_some, decide_eq_false_iff_not, Nat.not_le]
    constructor
    · intro h
      exact Or.inr ⟨m, hm, h⟩
    · rintro (hnil | ⟨n, hn, hlt⟩)
      · rw [hnil] at hm
        cases hm
      · exact Nat.lt_of_le_of_lt (hle n hn) hlt

theorem exceedsWords_eq_true_iff {size : Int} {s : Stream} :
    s.exceedsWords size = true ↔
      s.bounds size ≠ [] ∧ ∀ n ∈ s.bounds size, PieceSize.wordBound ≤ n := by
  rw [← Bool.not_eq_false, exceedsWords_eq_false_iff]
  simp only [not_or, not_exists, not_and, Nat.not_lt, ne_eq]

/-- A size that is no word after all bounds is refused. -/
theorem read_of_exceedsWords {size : Int} {s : Stream} (hopen : s.closed = false)
    (h : s.exceedsWords size = true) : s.read size = (.error (.size .notAWord), s) := by
  obtain ⟨-, hlarge⟩ := exceedsWords_eq_true_iff.mp h
  have hpos : 0 < PieceSize.wordBound := by decide
  have hsize : size ≠ 0 := by
    rintro rfl
    have hzero := hlarge 0 (toNat_mem_bounds (Int.le_refl 0) s)
    omega
  have hfail : s.failAt.any (· ≤ s.position) = false := by
    cases hf : s.failAt with
    | none => rfl
    | some p =>
      have hdistance := hlarge (p - s.position) (by simp [bounds, hf])
      simp only [Option.any_some, decide_eq_false_iff_not]
      omega
  rw [read, if_neg (by simp [hopen]), if_neg hsize, if_neg (by simp [hfail]), if_pos h]

/-- The bounds on the next piece only come nearer. -/
theorem Gives.exceedsWords {size : Int} {s s' : Stream} {given : Bytes} (h : s.Gives given s')
    (hwords : s.exceedsWords size = false) : s'.exceedsWords size = false := by
  rw [exceedsWords_eq_false_iff] at hwords ⊢
  have hposition := h.position
  unfold bounds at hwords ⊢
  rw [h.failAt, h.maxRead]
  cases hfail : s.failAt with
  | none =>
    rw [hfail] at hwords
    exact hwords
  | some p =>
    rw [hfail] at hwords
    rcases hwords with hnil | ⟨n, hn, hlt⟩
    · simp at hnil
    · rcases List.mem_append.mp hn with hn | hn
      · exact Or.inr ⟨n, List.mem_append_left _ hn, hlt⟩
      · refine Or.inr ⟨p - s'.position, List.mem_append_right _ (by simp), ?_⟩
        have hdistance : n = p - s.position := by simpa using hn
        omega

/-! ## Reading to the end -/

/-- Reading to the end, by the bytes that were given and the read that ended it. -/
theorem exists_readAll (size : Int) (s : Stream) :
    ∃ given s', s.Gives given s' ∧
      ((s'.read size = (.ok [], s') ∧ reader.readAll size s = (.ok given, s')) ∨
      ∃ e, s'.read size = (.error e, s') ∧ reader.readAll size s = (.error e, s')) := by
  obtain ⟨given, hpieces, hgives⟩ := gives_drainFrom size [] s
  have hread := read_state_drainFrom size [] s
  refine ⟨given, _, hgives, ?_⟩
  unfold Reader.readAll Reader.drain
  dsimp only
  cases hfault : (reader.drainFrom size [] s).fault with
  | none =>
    rw [hfault] at hread
    exact Or.inl ⟨hread, congrArg (fun got => (Except.ok got, _)) hpieces⟩
  | some e =>
    rw [hfault] at hread
    exact Or.inr ⟨e, hread, rfl⟩

/-- What was given before an empty piece is all that was left. -/
theorem Gives.eq_rest {size : Int} (hsize : size ≠ 0) {s s' : Stream} {given : Bytes}
    (h : s.Gives given s') (hmax : s.maxRead ≠ some 0) (hend : s'.read size = (.ok [], s')) :
    given = s.rest := by
  obtain ⟨hnil, -⟩ := end_of_read_nil hsize (h.maxRead ▸ hmax) hend
  rw [h.rest, hnil, List.append_nil]

/-- An open stream that is not set to fail gives all that is left of it, in pieces of any size that
is a word other than zero. -/
theorem readAll_eq_rest {size : Int} (hsize : size ≠ 0) {s : Stream} (hopen : s.closed = false)
    (hfail : s.failAt = none) (hmax : s.maxRead ≠ some 0) (hwords : s.exceedsWords size = false) :
    (reader.readAll size s).1 = .ok s.rest := by
  obtain ⟨given, s', hgives, ⟨hend, hall⟩ | ⟨e, hend, -⟩⟩ := exists_readAll size s
  · rw [hall, hgives.eq_rest hsize hmax hend]
  · obtain ⟨-, p, hp, -⟩ :=
      reset_of_read_error (hgives.closed.trans hopen) (hgives.exceedsWords hwords) hend
    rw [hgives.failAt, hfail] at hp
    cases hp

/-- What is read of a stream in memory is all that was left of it. -/
theorem eq_rest_of_readAll {size : Int} (hsize : size ≠ 0) {s : Stream} (hmax : s.maxRead ≠ some 0)
    {got : Bytes} (h : (reader.readAll size s).1 = .ok got) : got = s.rest := by
  obtain ⟨given, s', hgives, ⟨hend, hall⟩ | ⟨e, -, hall⟩⟩ := exists_readAll size s
  · rw [hall] at h
    rw [← Except.ok.inj h, hgives.eq_rest hsize hmax hend]
  · rw [hall] at h
    cases h

/-- A piece of no bytes is taken for the end. -/
theorem readAll_zero {s : Stream} (hopen : s.closed = false) :
    (reader.readAll 0 s).1 = .ok [] := by
  have hread : reader.read 0 s = (.ok [], s) := read_zero hopen
  rw [Reader.readAll, Reader.drain, Reader.drainFrom_of_end _ hread]
  rfl

end Stream

namespace OpenBlob

theorem read_memory [Room] (tree : Tree) (size : Int) (s : Stream) :
    (reader tree).read size (.memory s) =
      ((Stream.reader.read size s).1.mapError .memory, .memory (Stream.reader.read size s).2) := by
  change read tree size (.memory s) = ((s.read size).1.mapError .memory, .memory (s.read size).2)
  unfold read
  dsimp only
  cases s.read size with
  | mk result s' => cases result <;> rfl

/-- A blob in memory is drained as its stream is. -/
theorem drainFrom_memory [Room] (tree : Tree) (size : Int) (done : List Bytes) (s : Stream) :
    (reader tree).drainFrom size done (.memory s) =
      ⟨(Stream.reader.drainFrom size done s).pieces,
        (Stream.reader.drainFrom size done s).fault.map .memory,
        .memory (Stream.reader.drainFrom size done s).state⟩ := by
  have hread := read_memory tree size
  fun_induction Reader.drainFrom Stream.reader size done s with
  | case1 done s e s' hr =>
    have h := hread s
    rw [hr] at h
    exact Reader.drainFrom_of_error _ h
  | case2 done s s' hr =>
    have h := hread s
    rw [hr] at h
    exact Reader.drainFrom_of_end _ h
  | case3 done s b bs s' hr ih =>
    have h := hread s
    rw [hr] at h
    rw [Reader.drainFrom_of_piece _ (List.cons_ne_nil b bs) h, ih]

theorem readAll_memory [Room] (tree : Tree) (size : Int) (s : Stream) :
    ((reader tree).readAll size (.memory s)).1 =
      (Stream.reader.readAll size s).1.mapError .memory := by
  have hdrain := drainFrom_memory tree size [] s
  unfold Reader.readAll Reader.drain
  rw [hdrain]
  dsimp only
  cases (Stream.reader.drainFrom size [] s).fault with
  | none => rfl
  | some e => rfl

end OpenBlob

end LegacyImage

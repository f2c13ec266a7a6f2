import LegacyImage.Proofs.Stream.Reading

/-!
What reading a stream in memory to its end comes to, wherever one begins and however the stream is
limited. Either all that is left is read and the stream stands at its end, or the failure that was
set is met and the stream stands where it was met; nothing lies in between, and the pieces are never
more than the bytes that are left (`readAll_openAt`).
-/

namespace LegacyImage

/-- Every piece but an empty one brings a reader nearer to its end. -/
theorem Reader.length_pieces_drainFrom {σ ε : Type} (r : Reader σ ε) (size : Int)
    (done : List Bytes) (s : σ) :
    (r.drainFrom size done s).pieces.length ≤ done.length + r.remaining s := by
  fun_induction drainFrom r size done s with
  | case1 done s e s' hr => simp
  | case2 done s s' hr => simp
  | case3 done s b bs s' hr ih =>
    have hstep := r.remaining_read hr
    rw [List.length_cons] at hstep ih
    omega

namespace Stream

/-- An open stream that has come to some place in its content. -/
def openAt (content : Bytes) (position : Nat) (failAt maxRead : Option Nat) : Stream :=
  ⟨content.drop position, position, failAt, maxRead, false⟩

/-! ## Reading to the end -/

variable {content : Bytes} {position : Nat} {failAt maxRead : Option Nat} {size : Int}

/-- What is left after some bytes of a content were given lies at the place after them. -/
theorem Gives.eq_openAt {given : Bytes} {s' : Stream}
    (h : (openAt content position failAt maxRead).Gives given s') :
    s' = openAt content (position + given.length) failAt maxRead := by
  have hleft : s'.rest = content.drop (position + given.length) := by
    rw [← List.drop_drop]
    exact (List.drop_left' rfl).symm.trans (congrArg (List.drop given.length) h.rest.symm)
  obtain ⟨rest, position', failAt', maxRead', closed'⟩ := s'
  rw [openAt, mk.injEq]
  exact ⟨hleft, h.position, h.failAt, h.maxRead, h.closed⟩

/-- Where nothing is set to fail up to the end, all that is left is read. -/
theorem readAll_openAt_of_beyond (hmax : maxRead ≠ some 0) (hsize : size ≠ 0)
    (hwords : (openAt content position failAt maxRead).exceedsWords size = false)
    (hbeyond : ∀ p, failAt = some p → max content.length position < p) :
    reader.readAll size (openAt content position failAt maxRead) =
      (.ok (content.drop position),
        openAt content (max content.length position) failAt maxRead) := by
  obtain ⟨given, s', hgives, hend⟩ := exists_readAll size (openAt content position failAt maxRead)
  obtain rfl := hgives.eq_openAt
  rcases hend with ⟨hread, hall⟩ | ⟨e, hread, -⟩
  · have hgiven : given = content.drop position := hgives.eq_rest hsize hmax hread
    have hstop : position + given.length = max content.length position := by
      rw [hgiven, List.length_drop]
      omega
    rw [hall, ← hgiven, hstop]
  · obtain ⟨-, p, hp, hle⟩ := reset_of_read_error rfl (hgives.exceedsWords hwords) hread
    have hfar := hbeyond p hp
    have hlength : given.length ≤ content.length - position :=
      Nat.le_trans hgives.length_le (Nat.le_of_eq List.length_drop)
    change p ≤ position + given.length at hle
    omega

/-- A failure that is set up to the end is met. -/
theorem readAll_openAt_of_within (hmax : maxRead ≠ some 0) (hsize : size ≠ 0)
    (hwords : (openAt content position failAt maxRead).exceedsWords size = false) {p : Nat}
    (hp : failAt = some p) (hwithin : p ≤ max content.length position) :
    reader.readAll size (openAt content position failAt maxRead) =
      (.error .reset, openAt content (max p position) failAt maxRead) := by
  obtain ⟨given, s', hgives, hend⟩ := exists_readAll size (openAt content position failAt maxRead)
  obtain rfl := hgives.eq_openAt
  rcases hend with ⟨hread, -⟩ | ⟨e, hread, hall⟩
  · obtain ⟨hnil, hbefore⟩ := end_of_read_nil hsize hmax hread
    have hfar := List.drop_eq_nil_iff.mp hnil
    have hnear : position + given.length < p := hbefore p hp
    omega
  · obtain ⟨rfl, q, hq, hle⟩ := reset_of_read_error rfl (hgives.exceedsWords hwords) hread
    obtain rfl := Option.some.inj (hq.symm.trans hp)
    have hcome : position + given.length ≤ max q position := hgives.within q hp
    change q ≤ position + given.length at hle
    have hstop : position + given.length = max q position := by omega
    rw [hall, hstop]

/-- A stream is open at some place, and is not limited to nothing at a time. It is read to its end in
pieces of some size, never in more pieces than there are bytes left. A size that none of the bounds
brings below that of words is refused before anything was read. Otherwise pieces of no bytes come to
nothing and leave the stream where it is. All other pieces come to all that is left, and leave the
stream at the end of its content, if no failure is set up to there; if one is, nothing is read but
the failure, and the stream stands there, or where it stood if that is further on. A stream that
already stands past the end of its content has its end there. -/
theorem readAll_openAt (content : Bytes) (position : Nat) (failAt : Option Nat)
    {maxRead : Option Nat} (hmax : maxRead ≠ some 0) (size : Int) :
    let s := openAt content position failAt maxRead
    (reader.drain size s).pieces.length ≤ content.length - position ∧
    (s.bounds size ≠ [] → (∀ n ∈ s.bounds size, PieceSize.wordBound ≤ n) →
      reader.readAll size s = (.error (.size .notAWord), s)) ∧
    (s.bounds size = [] ∨ (∃ n ∈ s.bounds size, n < PieceSize.wordBound) →
      (size = 0 → reader.readAll size s = (.ok [], s)) ∧
      (size ≠ 0 → (∀ p, failAt = some p → max content.length position < p) →
        reader.readAll size s =
          (.ok (content.drop position),
            openAt content (max content.length position) failAt maxRead)) ∧
      (size ≠ 0 → ∀ p, failAt = some p → p ≤ max content.length position →
        reader.readAll size s =
          (.error .reset, openAt content (max p position) failAt maxRead))) := by
  intro s
  refine ⟨?_, ?_, ?_⟩
  · have hpieces := reader.length_pieces_drainFrom size [] s
    rw [List.length_nil, Nat.zero_add] at hpieces
    exact Nat.le_trans hpieces (Nat.le_of_eq List.length_drop)
  · intro hbounds hlarge
    have hread := read_of_exceedsWords rfl (exceedsWords_eq_true_iff.mpr ⟨hbounds, hlarge⟩)
    rw [Reader.readAll, Reader.drain, Reader.drainFrom_of_error _ hread]
  · intro hbounds
    have hwords := exceedsWords_eq_false_iff.mpr hbounds
    refine ⟨?_, ?_, ?_⟩
    · rintro rfl
      have hread : s.read 0 = (.ok [], s) := read_zero rfl
      rw [Reader.readAll, Reader.drain, Reader.drainFrom_of_end _ hread]
      rfl
    · intro hsize hbeyond
      exact readAll_openAt_of_beyond hmax hsize hwords hbeyond
    · intro hsize p hp hwithin
      exact readAll_openAt_of_within hmax hsize hwords hp hwithin

/-- Two bytes a byte at a time, from a stream that fails at its end and from one that does not. -/
theorem readAll_openAt_lastByte :
    reader.readAll 2 (openAt [0x61, 0x62, 0x63] 1 (some 3) (some 1)) =
        (.error .reset, openAt [0x61, 0x62, 0x63] 3 (some 3) (some 1)) ∧
      reader.readAll 2 (openAt [0x61, 0x62, 0x63] 1 (some 4) (some 1)) =
        (.ok [0x62, 0x63], openAt [0x61, 0x62, 0x63] 3 (some 4) (some 1)) := by
  have hmax : some 1 ≠ some 0 := by decide
  constructor
  · obtain ⟨-, -, hread⟩ := readAll_openAt [0x61, 0x62, 0x63] 1 (some 3) hmax 2
    exact (hread (Or.inr ⟨1, by decide, by decide⟩)).2.2 (by decide) 3 rfl (by decide)
  · obtain ⟨-, -, hread⟩ := readAll_openAt [0x61, 0x62, 0x63] 1 (some 4) hmax 2
    refine (hread (Or.inr ⟨1, by decide, by decide⟩)).2.1 (by decide) ?_
    intro p hp
    obtain rfl := Option.some.inj hp
    decide

/-- A stream without limits gives nothing in pieces whose size is no word, and one that stands past
its end is not brought back to it. -/
theorem readAll_not_whole :
    reader.readAll (2 ^ 63) (openAt [0x61] 0 none none) ≠
        (.ok [0x61], openAt [0x61] 1 none none) ∧
      reader.readAll 1 (openAt [] 1 none none) ≠ (.ok [], openAt [] 0 none none) := by
  constructor
  · have hread : (openAt [0x61] 0 none none).read (2 ^ 63) =
        (.error (.size .notAWord), openAt [0x61] 0 none none) :=
      read_of_exceedsWords rfl (by decide)
    rw [Reader.readAll, Reader.drain, Reader.drainFrom_of_error _ hread]
    intro h
    cases h
  · have hread : (openAt [] 1 none none).read 1 = (.ok [], openAt [] 1 none none) := rfl
    rw [Reader.readAll, Reader.drain, Reader.drainFrom_of_end _ hread]
    intro h
    cases h

end Stream

end LegacyImage

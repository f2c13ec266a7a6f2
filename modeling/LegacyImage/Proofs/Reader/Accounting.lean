import LegacyImage.Stream.Iterating

/-!
The account that a hashing reader keeps. However a stream is read, by single reads or by iterations
that share it, the count is the stream's position, the digest is that of the bytes before it, and
these are the bytes that were delivered (`account_of_serveAll`). What fails is not counted.
-/

namespace LegacyImage.Iterating

/-- The bytes that a reply delivers. An iteration that fails has delivered what came before. -/
def Reply.delivered : Reply → Bytes
  | .piece bytes => bytes
  | .pieces delivered _ => delivered.flatten
  | _ => []

/-- Serves requests one after the other, with the replies in their order. -/
def serveAll (chunkSize : Int) (it : Iterating) : List Request → List Reply × Iterating
  | [] => ([], it)
  | first :: rest =>
    let (reply, it) := it.serve chunkSize first
    let (replies, it) := serveAll chunkSize it rest
    (reply :: replies, it)

def deliveredBy (replies : List Reply) : Bytes := replies.flatMap Reply.delivered

/-- A hashing reader over a stream of `data` that has delivered `done`: the stream goes on after
these bytes, and they are what was counted and hashed. -/
structure Accounts (data done : Bytes) (r : Hashing Stream) : Prop where
  rest : done ++ r.inner.rest = data
  position : r.inner.position = done.length
  tally : r.tally = Tally.empty.add done

variable {data done : Bytes} {chunkSize size : Int} {r r' : Hashing Stream} {it : Iterating}

theorem accounts_start (data : Bytes) (failAt maxRead : Option Nat) :
    Accounts data [] (start (.ofBytes data failAt maxRead)).state :=
  ⟨rfl, rfl, rfl⟩

/-! ## Reads -/

theorem Accounts.read {piece : Bytes} (h : Accounts data done r)
    (hr : reader.read size r = (.ok piece, r')) : Accounts data (done ++ piece) r' := by
  simp only [reader, Reader.hashing, Stream.reader] at hr
  split at hr
  · rename_i piece' inner hread
    cases hr
    obtain ⟨hrest, hposition⟩ := Stream.rest_read hread
    refine ⟨?_, ?_, ?_⟩
    · rw [List.append_assoc, hrest, h.rest]
    · rw [hposition, h.position, List.length_append]
    · rw [h.tally, Tally.add_append]
  · cases hr

/-- A read that fails leaves the stream and the account as they are. -/
theorem eq_of_read_error {fault : Stream.Fault}
    (hr : reader.read size r = (.error fault, r')) : r' = r := by
  simp only [reader, Reader.hashing, Stream.reader] at hr
  split at hr
  · cases hr
  · rename_i fault' inner hread
    cases hr
    rw [Stream.eq_of_read_error hread]

theorem Accounts.append_nil (h : Accounts data done r) : Accounts data (done ++ []) r := by
  rw [List.append_nil]
  exact h

/-- An iteration counts every piece that it delivers, also when it fails in the end. -/
theorem Accounts.drainFrom (pieces : List Bytes)
    (h : Accounts data (done ++ pieces.reverse.flatten) r) :
    Accounts data (done ++ (reader.drainFrom size pieces r).pieces.flatten)
      (reader.drainFrom size pieces r).state := by
  fun_induction reader.drainFrom size pieces r with
  | case1 pieces r fault r' hr =>
    rw [eq_of_read_error hr]
    exact h
  | case2 pieces r r' hr =>
    have hend := h.read hr
    rw [List.append_nil] at hend
    exact hend
  | case3 pieces r b bs r' hr ih =>
    refine ih ?_
    have hnext := h.read hr
    rw [List.append_assoc] at hnext
    rw [List.reverse_cons, List.flatten_append, List.flatten_singleton]
    exact hnext

/-! ## Requests -/

theorem serve_read_cases (chunkSize size : Int) (it : Iterating) :
    (∃ piece r, reader.read size it.state = (.ok piece, r) ∧
      it.serve chunkSize (.read size) = (.piece piece, ⟨r, it.live⟩)) ∨
    (∃ fault, it.serve chunkSize (.read size) = (.failed fault, it)) := by
  unfold serve
  dsimp only
  cases hr : reader.read size it.state with
  | mk result r =>
    cases result with
    | ok piece => exact .inl ⟨piece, r, rfl, rfl⟩
    | error fault =>
      obtain rfl := eq_of_read_error hr
      exact .inr ⟨fault, rfl⟩

/-- What going on with an iteration comes to: only a piece that is not empty keeps it going. -/
theorem serve_next_cases (chunkSize : Int) (it : Iterating) :
    (it.live = false ∧ it.serve chunkSize .next = (.exhausted, it)) ∨
    (∃ r, reader.read chunkSize it.state = (.ok [], r) ∧
      it.serve chunkSize .next = (.exhausted, ⟨r, false⟩)) ∨
    (∃ piece r, reader.read chunkSize it.state = (.ok piece, r) ∧
      it.serve chunkSize .next = (.piece piece, ⟨r, true⟩)) ∨
    (∃ fault, it.serve chunkSize .next = (.failed fault, ⟨it.state, false⟩)) := by
  unfold serve
  dsimp only
  by_cases hlive : it.live = true
  · rw [if_pos hlive]
    cases hr : reader.read chunkSize it.state with
    | mk result r =>
      cases result with
      | ok piece =>
        cases piece with
        | nil => exact .inr (.inl ⟨r, rfl, rfl⟩)
        | cons b bs => exact .inr (.inr (.inl ⟨b :: bs, r, rfl, rfl⟩))
      | error fault =>
        rw [eq_of_read_error hr]
        exact .inr (.inr (.inr ⟨fault, rfl⟩))
  · rw [if_neg hlive]
    exact .inl ⟨by simpa using hlive, rfl⟩

theorem Accounts.serve (h : Accounts data done it.state) (chunkSize : Int) (request : Request) :
    Accounts data (done ++ (it.serve chunkSize request).1.delivered)
      (it.serve chunkSize request).2.state := by
  cases request with
  | read size =>
    rcases serve_read_cases chunkSize size it with ⟨piece, r, hr, hserve⟩ | ⟨fault, hserve⟩
    · rw [hserve]
      exact h.read hr
    · rw [hserve]
      exact h.append_nil
  | next =>
    rcases serve_next_cases chunkSize it with
      ⟨-, hserve⟩ | ⟨r, hr, hserve⟩ | ⟨piece, r, hr, hserve⟩ | ⟨fault, hserve⟩
    · rw [hserve]
      exact h.append_nil
    · rw [hserve]
      exact h.read hr
    · rw [hserve]
      exact h.read hr
    · rw [hserve]
      exact h.append_nil
  | restart => exact h.append_nil
  | iterate => exact Accounts.drainFrom [] h.append_nil

theorem Accounts.serveAll (h : Accounts data done it.state) (chunkSize : Int)
    (requests : List Request) :
    Accounts data (done ++ deliveredBy (it.serveAll chunkSize requests).1)
      (it.serveAll chunkSize requests).2.state := by
  induction requests generalizing done it with
  | nil => exact h.append_nil
  | cons first rest ih =>
    have hrest := ih (h.serve chunkSize first)
    rw [List.append_assoc] at hrest
    exact hrest

/-- A request that fails changes nothing that is counted. -/
theorem state_of_failed {request : Request} {fault : Stream.Fault}
    (h : (it.serve chunkSize request).1 = .failed fault) :
    (it.serve chunkSize request).2.state = it.state := by
  cases request with
  | read size =>
    rcases serve_read_cases chunkSize size it with ⟨piece, r, hr, hserve⟩ | ⟨fault', hserve⟩
    · rw [hserve] at h
      cases h
    · rw [hserve]
  | next =>
    rcases serve_next_cases chunkSize it with
      ⟨-, hserve⟩ | ⟨r, hr, hserve⟩ | ⟨piece, r, hr, hserve⟩ | ⟨fault', hserve⟩
    · rw [hserve]
    · rw [hserve] at h
      cases h
    · rw [hserve] at h
      cases h
    · rw [hserve]
  | restart => cases h
  | iterate => cases h

/-! ## Iterations that are over -/

/-- An iteration that is over gives nothing more. -/
theorem serve_next_of_over (h : it.live = false) :
    it.serve chunkSize .next = (.exhausted, it) := by
  simp [serve, h]

/-- An iteration is over once it gave anything but a piece. -/
theorem over_of_next (h : ∀ piece, (it.serve chunkSize .next).1 ≠ .piece piece) :
    (it.serve chunkSize .next).2.live = false := by
  rcases serve_next_cases chunkSize it with
    ⟨hlive, hserve⟩ | ⟨r, -, hserve⟩ | ⟨piece, r, -, hserve⟩ | ⟨fault, hserve⟩
  · rw [hserve]
    exact hlive
  · rw [hserve]
  · exact absurd (congrArg Prod.fst hserve) (h piece)
  · rw [hserve]

/-- An iteration that is over stays so until another one is begun. -/
theorem over_serve (h : it.live = false) {request : Request} (hrequest : request ≠ .restart) :
    (it.serve chunkSize request).2.live = false := by
  cases request with
  | read size =>
    rcases serve_read_cases chunkSize size it with ⟨piece, r, -, hserve⟩ | ⟨fault, hserve⟩
    · rw [hserve]
      exact h
    · rw [hserve]
      exact h
  | next =>
    rw [serve_next_of_over h]
    exact h
  | restart => exact absurd rfl hrequest
  | iterate => exact h

theorem over_serveAll (h : it.live = false) {requests : List Request}
    (hrequests : .restart ∉ requests) : (it.serveAll chunkSize requests).2.live = false := by
  induction requests generalizing it with
  | nil => exact h
  | cons first rest ih =>
    rw [List.mem_cons, not_or] at hrequests
    have hfirst : (it.serve chunkSize first).2.live = false :=
      over_serve h (Ne.symm hrequests.1)
    exact ih hfirst hrequests.2

/-! ## The account -/

/-- After any requests the count is the position of the stream, the digest is that of so many bytes
of the data, and these are what the replies delivered. A request that fails is not counted, and an
iteration that came to its end or failed gives nothing and changes nothing from then on, until
another one is begun. -/
theorem account_of_serveAll {failAt maxRead : Option Nat} {requests : List Request}
    {replies : List Reply}
    (h : (start (.ofBytes data failAt maxRead)).serveAll chunkSize requests = (replies, it)) :
    (it.state.tally.size = it.state.inner.position ∧
      it.state.tally.digest = .ofBytes (data.take it.state.tally.size) ∧
      deliveredBy replies = data.take it.state.tally.size ∧
      it.state.tally.size ≤ data.length) ∧
    (∀ request fault, (it.serve chunkSize request).1 = .failed fault →
      (it.serve chunkSize request).2.state = it.state) ∧
    ((∀ piece, (it.serve chunkSize .next).1 ≠ .piece piece) →
      ∀ later, .restart ∉ later →
        let it' := ((it.serve chunkSize .next).2.serveAll chunkSize later).2
        it'.serve chunkSize .next = (.exhausted, it')) := by
  have haccount : Accounts data (deliveredBy replies) it.state := by
    have hall := (accounts_start data failAt maxRead).serveAll chunkSize requests
    rw [h] at hall
    exact hall
  have hsize : it.state.tally.size = (deliveredBy replies).length := by
    rw [haccount.tally, Tally.size_add_empty]
  have htake : data.take it.state.tally.size = deliveredBy replies := by
    rw [hsize, ← haccount.rest, List.take_left]
  refine ⟨⟨?_, ?_, htake.symm, ?_⟩, ?_, ?_⟩
  · rw [hsize, haccount.position]
  · rw [htake, haccount.tally, Tally.digest_add_empty]
  · rw [hsize, ← haccount.rest, List.length_append]
    exact Nat.le_add_right _ _
  · intro request fault
    exact state_of_failed
  · intro hover later hlater
    exact serve_next_of_over (over_serveAll (over_of_next hover) hlater)

/-- Reads and iterations of a stream that fails after three bytes. -/
def mixedRequests : List Request := [.read 2, .next, .restart, .next, .iterate, .read 0]

/-- The three bytes before the failure are counted once, whoever delivered them, and the iteration
that failed there is over. -/
theorem account_of_serveAll_mixedRequests :
    let data : Bytes := [1, 2, 3, 4, 5]
    let result := (start (.ofBytes data (some 3) none)).serveAll 1 mixedRequests
    (result.2.state.tally.size = 3 ∧ result.2.state.tally.digest = .ofBytes [1, 2, 3] ∧
      deliveredBy result.1 = [1, 2, 3]) ∧
    let later := ((result.2.serve 1 .next).2.serveAll 1 [.read 1]).2
    later.serve 1 .next = (.exhausted, later) := by
  intro data result
  have hresult : (start (.ofBytes data (some 3) none)).serveAll 1 mixedRequests =
      (result.1, result.2) := (Prod.eta _).symm
  have hsize : result.2.state.tally.size = 3 := by decide +kernel
  have hlive : result.2.live = false := by decide +kernel
  have hover : ∀ piece, (result.2.serve 1 .next).1 ≠ .piece piece := by
    simp [serve, hlive]
  have hlater : Request.restart ∉ [Request.read 1] := by simp
  obtain ⟨⟨-, hdigest, hdelivered, -⟩, -, hnext⟩ := account_of_serveAll hresult
  rw [hsize] at hdigest hdelivered
  refine ⟨⟨hsize, hdigest, hdelivered⟩, ?_⟩
  exact hnext hover [.read 1] hlater

end LegacyImage.Iterating

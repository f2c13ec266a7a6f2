import LegacyImage.Proofs.Gzip.Remainder

/-!
Members of a gzip file as the format lays them out: a header with the parts that its flags announce,
compressed data up to the end of its last block, and a trailer with the checksum and the size of what
the data comes to. A member is read as just that (`Member.content_toBytes`), and no file may end inside
of one (`Member.content_of_cut`).
-/

namespace LegacyImage

namespace Deflate

/-- Compressed data that ends where its last block does. -/
structure Data where
  bytes : Bytes
  done : (bytes.foldl Inflater.feed .start).phase = .done
  not_done : ∀ n < bytes.length, ((bytes.take n).foldl Inflater.feed .start).phase ≠ .done

def Data.output (d : Data) : Bytes := (d.bytes.foldl Inflater.feed .start).output.toList

/-- A fault is kept. -/
theorem Inflater.foldl_feed_failed {i : Inflater} {fault : Fault} (h : i.phase = .failed fault)
    (bs : Bytes) : bs.foldl feed i = i := by
  obtain ⟨output, final, phase⟩ := i
  obtain rfl : phase = .failed fault := h
  induction bs with
  | nil => rfl
  | cons b rest ih => exact ih

end Deflate

namespace Gzip

/-! ## Members -/

/-- The header of a member: its flags, what it says of the time, the compression and the system, and
what it has to say under each flag. -/
structure Header where
  flags : UInt8
  origin : Bytes
  extra : Bytes
  name : Bytes
  comment : Bytes
  check : Bytes
  length_origin : origin.length = 6
  length_extra : extra.length < 2 ^ 16
  zero_not_mem_name : 0 ∉ name
  zero_not_mem_comment : 0 ∉ comment
  length_check : check.length = 2

namespace Header

def checkBytes (h : Header) : Bytes := if (Flags.ofByte h.flags).check then h.check else []

def commentBytes (h : Header) : Bytes :=
  if (Flags.ofByte h.flags).comment then h.comment ++ [0] else []

def nameBytes (h : Header) : Bytes := if (Flags.ofByte h.flags).name then h.name ++ [0] else []

def extraBytes (h : Header) : Bytes :=
  if (Flags.ofByte h.flags).extra then Bytes.ofNatLE 2 h.extra.length ++ h.extra else []

/-- The header after the two bytes that every member begins with: the method, the flags, the origin
and the parts that the flags announce. -/
def rest (h : Header) : Bytes :=
  [8, h.flags] ++ h.origin ++ (h.extraBytes ++ (h.nameBytes ++ (h.commentBytes ++ h.checkBytes)))

end Header

/-- A member: a header and compressed data. -/
structure Member where
  header : Header
  data : Deflate.Data

namespace Member

def output (m : Member) : Bytes := m.data.output

/-- The checksum and the size of what a member holds. -/
def trailer (m : Member) : Bytes :=
  Bytes.ofNatLE 4 (Checksum.ofBytes m.output).toNat ++ Bytes.ofNatLE 4 m.output.length

def toBytes (m : Member) : Bytes :=
  0x1F :: 0x8B :: (m.header.rest ++ (m.data.bytes ++ m.trailer))

end Member

/-! ## Ways through a member -/

namespace Stage

/-- A stage at which a file must not end. -/
def IsOpen : Stage → Prop
  | .start | .padding => False
  | _ => True

/-- Whether some bytes lead from a stage to another, and each of them is taken where a file must not
end. -/
inductive LeadsTo : Stage → Bytes → Stage → Prop
  | refl (stage : Stage) : LeadsTo stage [] stage
  | cons {stage next last : Stage} {b : UInt8} {bs : Bytes} (hopen : stage.IsOpen)
    (hstep : stage.step b = .ok next) (hrest : LeadsTo next bs last) :
    LeadsTo stage (b :: bs) last

variable {stage next last : Stage} {bs : Bytes}

theorem LeadsTo.trans (h : stage.LeadsTo bs next) {cs : Bytes} (h' : next.LeadsTo cs last) :
    stage.LeadsTo (bs ++ cs) last := by
  induction h with
  | refl stage => exact h'
  | cons hopen hstep _ ih => exact .cons hopen hstep (ih h')

theorem LeadsTo.single {b : UInt8} (hopen : stage.IsOpen) (hstep : stage.step b = .ok next) :
    stage.LeadsTo [b] next := .cons hopen hstep (.refl next)

theorem content_nil_of_isOpen (h : stage.IsOpen) : ∃ f, stage.content [] = .error f := by
  cases stage with
  | start | padding => exact h.elim
  | _ => exact ⟨_, rfl⟩

/-- No file may end on the way. -/
theorem LeadsTo.content_of_cut (h : stage.LeadsTo bs last) {p : Bytes} (hp : p <+: bs)
    (hne : p ≠ bs) : ∃ f, stage.content p = .error f := by
  induction h generalizing p with
  | refl stage => exact absurd (List.prefix_nil.mp hp) hne
  | @cons stage next last b bs hopen hstep _ ih =>
    cases p with
    | nil => exact content_nil_of_isOpen hopen
    | cons c p =>
      obtain ⟨rfl, hrest⟩ := List.cons_prefix_cons.mp hp
      obtain ⟨f, hf⟩ := ih hrest fun h => hne (congrArg (c :: ·) h)
      rw [content_cons_ok hstep, hf]
      exact ⟨f, rfl⟩

theorem LeadsTo.isOpen (h : stage.LeadsTo bs last) (hlast : last.IsOpen) : stage.IsOpen := by
  cases h with
  | refl => exact hlast
  | cons hopen => exact hopen

theorem released_of_isOpen (h : next.IsOpen) : Progress.released stage next = [] := by
  unfold Progress.released
  split
  · exact h.elim
  · rfl

/-- On the way nothing is released. -/
theorem LeadsTo.content_append (h : stage.LeadsTo bs last) (hlast : last.IsOpen) (rest : Bytes) :
    stage.content (bs ++ rest) = last.content rest := by
  induction h with
  | refl stage => rfl
  | cons hopen hstep hrest ih =>
    rw [List.cons_append, content_cons_ok hstep, released_of_isOpen (hrest.isOpen hlast),
      map_nil_append]
    exact ih hlast

/-! ## Parts of one size -/

/-- A part of so many bytes, which are kept until they are all there. -/
theorem leadsTo_of_collect (stage : Bytes → Stage) (take : Bytes → Except Fault Stage) (n : Nat)
    (hopen : ∀ got, (stage got).IsOpen) (hstep : ∀ got b, (stage got).step b = take (got ++ [b]))
    (hshort : ∀ got, got.length < n → take got = .ok (stage got)) {got bs : Bytes}
    (hlength : (got ++ bs).length = n) (hne : bs ≠ []) (h : take (got ++ bs) = .ok next) :
    (stage got).LeadsTo bs next := by
  induction bs generalizing got with
  | nil => exact absurd rfl hne
  | cons b rest ih =>
    cases rest with
    | nil => exact .single (hopen got) ((hstep got b).trans h)
    | cons c rest =>
      rw [List.append_cons] at hlength h
      have hshorter : (got ++ [b]).length < n := by
        rw [List.length_append] at hlength
        rw [List.length_cons] at hlength
        omega
      exact .cons (hopen got) ((hstep got b).trans (hshort _ hshorter))
        (ih hlength (List.cons_ne_nil c rest) h)

theorem leadsTo_fixed (flags : UInt8) {origin : Bytes} (h : origin.length = 6) :
    (Stage.fixed []).LeadsTo ([8, flags] ++ origin) (afterFixed (Flags.ofByte flags)) := by
  have hlength : ([8, flags] ++ origin).length = 8 := by rw [List.length_append, h]; rfl
  refine leadsTo_of_collect .fixed onFixed 8 (fun _ => trivial) (fun got b => rfl)
    (fun got hgot => if_pos hgot) hlength nofun ?_
  rw [List.nil_append, onFixed, hlength, if_neg (Nat.lt_irrefl 8), if_neg (by simp)]
  rfl

theorem step_trailer (output : Array UInt8) (got : Bytes) (b : UInt8) :
    (Stage.trailer output got).step b = onTrailer output (got ++ [b]) := rfl

/-- All of a trailer but the last byte. -/
theorem leadsTo_trailer {output : Array UInt8} {bs : Bytes} (h : bs.length = 7) :
    (Stage.trailer output []).LeadsTo bs (.trailer output bs) := by
  refine leadsTo_of_collect (.trailer output) (onTrailer output) 7 (fun _ => trivial)
    (fun got b => rfl) ?_ h ?_ ?_
  · intro got hgot
    exact if_pos (Nat.lt_succ_of_lt hgot)
  · rintro rfl
    cases h
  · refine if_pos ?_
    rw [List.nil_append, h]
    exact Nat.lt_succ_self 7

/-! ## Parts of a given size -/

theorem leadsTo_extra (flags : Flags) {bs : Bytes} (hne : bs ≠ []) :
    (Stage.extra flags bs.length).LeadsTo bs (afterExtra flags) := by
  induction bs with
  | nil => exact absurd rfl hne
  | cons b rest ih =>
    cases rest with
    | nil => exact .single trivial rfl
    | cons c rest => exact .cons trivial rfl (ih (List.cons_ne_nil c rest))

theorem leadsTo_extraLength (flags : Flags) {bs : Bytes} (h : bs.length < 2 ^ 16) :
    (Stage.extraLength flags []).LeadsTo (Bytes.ofNatLE 2 bs.length ++ bs) (afterExtra flags) := by
  let take (got : Bytes) : Except Fault Stage :=
    if got.length < 2 then .ok (.extraLength flags got)
    else if Bytes.toNatLE got = 0 then .ok (afterExtra flags)
    else .ok (.extra flags (Bytes.toNatLE got))
  have hlength : (Bytes.ofNatLE 2 bs.length).length = 2 := Bytes.length_ofNatLE 2 _
  have hvalue : Bytes.toNatLE (Bytes.ofNatLE 2 bs.length) = bs.length := by
    rw [Bytes.toNatLE_ofNatLE]
    exact Nat.mod_eq_of_lt h
  have hcollect : ∀ {next}, take (Bytes.ofNatLE 2 bs.length) = .ok next →
      (Stage.extraLength flags []).LeadsTo (Bytes.ofNatLE 2 bs.length) next := by
    intro next h
    refine leadsTo_of_collect (.extraLength flags) take 2 (fun _ => trivial) (fun got b => rfl)
      (fun got hgot => if_pos hgot) hlength ?_ h
    exact List.cons_ne_nil _ _
  cases bs with
  | nil => exact hcollect rfl
  | cons b rest =>
    refine (hcollect ?_).trans (leadsTo_extra flags (List.cons_ne_nil b rest))
    dsimp only [take]
    rw [hlength, hvalue]
    rfl

/-- A text runs up to a zero byte. -/
theorem leadsTo_of_text (stage next : Stage) (hopen : stage.IsOpen)
    (hstep : ∀ b, stage.step b = .ok (if b = 0 then next else stage)) {text : Bytes}
    (h : 0 ∉ text) : stage.LeadsTo (text ++ [0]) next := by
  induction text with
  | nil => exact .single hopen (hstep 0)
  | cons b rest ih =>
    obtain ⟨hb, hrest⟩ := List.ne_and_not_mem_of_not_mem_cons h
    refine .cons hopen ?_ (ih hrest)
    rw [hstep, if_neg hb.symm]

theorem leadsTo_headerCheck {bs : Bytes} (h : bs.length = 2) :
    (Stage.headerCheck 2).LeadsTo bs (.body .start) := by
  match bs, h with
  | [a, b], _ => exact .cons trivial rfl (.single trivial rfl)

/-! ## Headers -/

variable (h : Header)

theorem leadsTo_afterComment :
    (afterComment (Flags.ofByte h.flags)).LeadsTo h.checkBytes (.body .start) := by
  unfold afterComment Header.checkBytes
  split
  · exact leadsTo_headerCheck h.length_check
  · exact .refl _

theorem leadsTo_afterName :
    (afterName (Flags.ofByte h.flags)).LeadsTo (h.commentBytes ++ h.checkBytes)
      (.body .start) := by
  refine LeadsTo.trans ?_ (leadsTo_afterComment h)
  unfold afterName Header.commentBytes
  split
  · exact leadsTo_of_text (.comment _) _ trivial (fun b => rfl) h.zero_not_mem_comment
  · exact .refl _

theorem leadsTo_afterExtra :
    (afterExtra (Flags.ofByte h.flags)).LeadsTo
      (h.nameBytes ++ (h.commentBytes ++ h.checkBytes)) (.body .start) := by
  refine LeadsTo.trans ?_ (leadsTo_afterName h)
  unfold afterExtra Header.nameBytes
  split
  · exact leadsTo_of_text (.name _) _ trivial (fun b => rfl) h.zero_not_mem_name
  · exact .refl _

theorem leadsTo_afterFixed :
    (afterFixed (Flags.ofByte h.flags)).LeadsTo
      (h.extraBytes ++ (h.nameBytes ++ (h.commentBytes ++ h.checkBytes))) (.body .start) := by
  refine LeadsTo.trans ?_ (leadsTo_afterExtra h)
  unfold afterFixed Header.extraBytes
  split
  · exact leadsTo_extraLength _ h.length_extra
  · exact .refl _

theorem leadsTo_header : (Stage.fixed []).LeadsTo h.rest (.body .start) :=
  (leadsTo_fixed h.flags h.length_origin).trans (leadsTo_afterFixed h)

/-! ## Compressed data -/

/-- Compressed data from some point on. -/
theorem leadsTo_of_data (d : Deflate.Data) {before after : Bytes} (h : d.bytes = before ++ after)
    (hne : after ≠ []) :
    (Stage.body (before.foldl Deflate.Inflater.feed .start)).LeadsTo after
      (.trailer (d.bytes.foldl Deflate.Inflater.feed .start).output []) := by
  induction after generalizing before with
  | nil => exact absurd rfl hne
  | cons b rest ih =>
    have hfeed : (before.foldl Deflate.Inflater.feed .start).feed b =
        (before ++ [b]).foldl Deflate.Inflater.feed .start := by
      rw [List.foldl_append]
      rfl
    rw [List.append_cons] at h
    cases rest with
    | nil =>
      rw [List.append_nil] at h
      refine .single trivial ?_
      rw [step, hfeed, ← h, ofInflater, d.done]
    | cons c rest =>
      have hnotDone : ((before ++ [b]).foldl Deflate.Inflater.feed .start).phase ≠ .done := by
        have hlength : (before ++ [b]).length < d.bytes.length := by
          have hall := congrArg List.length h
          rw [List.length_append, List.length_cons] at hall
          omega
        have hnot := d.not_done _ hlength
        rwa [h, List.take_left] at hnot
      have hnotFailed : ∀ fault,
          ((before ++ [b]).foldl Deflate.Inflater.feed .start).phase ≠ .failed fault := by
        intro fault hfault
        have hdone := d.done
        rw [h, List.foldl_append, Deflate.Inflater.foldl_feed_failed hfault, hfault] at hdone
        cases hdone
      refine .cons trivial ?_ (ih h (List.cons_ne_nil c rest))
      rw [step, hfeed, ofInflater]
      split
      · rename_i fault hfault
        exact absurd hfault (hnotFailed fault)
      · rename_i hdone
        exact absurd hdone hnotDone
      · rfl

theorem leadsTo_data (d : Deflate.Data) :
    (Stage.body .start).LeadsTo d.bytes
      (.trailer (d.bytes.foldl Deflate.Inflater.feed .start).output []) := by
  refine leadsTo_of_data d (List.nil_append _).symm ?_
  intro hnil
  have hdone := d.done
  rw [hnil] at hdone
  cases hdone

end Stage

namespace Member

/-- The bytes that say a checksum, and a size as far as four bytes go. -/
def trailerOf (sum : UInt32) (size : Nat) : Bytes :=
  Bytes.ofNatLE 4 sum.toNat ++ Bytes.ofNatLE 4 size

theorem length_trailerOf (sum : UInt32) (size : Nat) : (trailerOf sum size).length = 8 := by
  simp [trailerOf]

/-- A trailer is compared to what came out. -/
theorem onTrailer_trailerOf (output : Array UInt8) (sum : UInt32) (size : Nat) :
    Stage.onTrailer output (trailerOf sum size) =
      if sum ≠ Checksum.ofBytes output.toList then
        .error (.checksum sum (Checksum.ofBytes output.toList))
      else if size % 2 ^ 32 ≠ output.size % 2 ^ 32 then .error .length
      else .ok .padding := by
  have hsum : Bytes.toNatLE ((trailerOf sum size).take 4) = sum.toNat := by
    rw [trailerOf, List.take_left' (Bytes.length_ofNatLE 4 _), Bytes.toNatLE_ofNatLE]
    exact Nat.mod_eq_of_lt (UInt32.toNat_lt _)
  have hsize : Bytes.toNatLE ((trailerOf sum size).drop 4) = size % 2 ^ 32 := by
    rw [trailerOf, List.drop_left' (Bytes.length_ofNatLE 4 _), Bytes.toNatLE_ofNatLE]
  unfold Stage.onTrailer
  rw [length_trailerOf, hsum, hsize, UInt32.ofNat_toNat]
  rfl

variable (m : Member) {trailer before : Bytes} {last : UInt8}

theorem onTrailer_trailer :
    Stage.onTrailer (m.data.bytes.foldl Deflate.Inflater.feed .start).output m.trailer =
      .ok .padding := by
  have heq : m.trailer = trailerOf (Checksum.ofBytes m.output) m.output.length := rfl
  have hlength : m.output.length =
      (m.data.bytes.foldl Deflate.Inflater.feed .start).output.size := Array.length_toList
  rw [heq, onTrailer_trailerOf, hlength]
  exact (if_neg fun hne => hne rfl).trans (if_neg fun hne => hne rfl)

theorem length_trailer : m.trailer.length = 8 := length_trailerOf _ _

theorem exists_trailer_eq (h : trailer.length = 8) :
    ∃ (before : Bytes) (last : UInt8), trailer = before ++ [last] ∧ before.length = 7 := by
  obtain hnil | ⟨before, last, heq⟩ := List.eq_nil_or_concat trailer
  · rw [hnil] at h
    cases h
  · rw [List.concat_eq_append] at heq
    rw [heq, List.length_append] at h
    exact ⟨before, last, heq, Nat.succ.inj h⟩

/-- All of a member but its first byte and its last. -/
theorem leadsTo_last (hlength : before.length = 7) :
    (Stage.magic 0x1F).LeadsTo (0x8B :: (m.header.rest ++ (m.data.bytes ++ before)))
      (.trailer (m.data.bytes.foldl Deflate.Inflater.feed .start).output before) :=
  .cons trivial rfl ((Stage.leadsTo_header m.header).trans
    ((Stage.leadsTo_data m.data).trans (Stage.leadsTo_trailer hlength)))

/-- The bytes of a member with any trailer. -/
def withTrailer (trailer : Bytes) : Bytes :=
  0x1F :: 0x8B :: (m.header.rest ++ (m.data.bytes ++ trailer))

/-- They are here by the way they lead. -/
theorem withTrailer_eq :
    m.withTrailer (before ++ [last]) =
      0x1F :: (0x8B :: (m.header.rest ++ (m.data.bytes ++ before)) ++ [last]) := by
  simp [withTrailer]

/-- A member with any trailer is read as what it holds, if the trailer is right. -/
theorem content_withTrailer (h : trailer.length = 8) :
    Gzip.content (m.withTrailer trailer) =
      (Stage.onTrailer (m.data.bytes.foldl Deflate.Inflater.feed .start).output trailer).map
        fun _ => m.output := by
  obtain ⟨before, last, rfl, hlength⟩ := exists_trailer_eq h
  have hstart : Stage.start.step 0x1F = .ok (.magic 0x1F) := rfl
  rw [m.withTrailer_eq, ← Stage.content_start, Stage.content_cons_ok hstart,
    (m.leadsTo_last hlength).content_append trivial]
  have hstep := Stage.step_trailer (m.data.bytes.foldl Deflate.Inflater.feed .start).output before last
  cases hlast : Stage.onTrailer (m.data.bytes.foldl Deflate.Inflater.feed .start).output
    (before ++ [last]) with
  | error f =>
    rw [Stage.content_cons_error (hstep.trans hlast)]
    rfl
  | ok next =>
    rw [Stage.content_cons_ok (hstep.trans hlast)]
    rcases Stage.onTrailer_cases hlast with ⟨hshort, -⟩ | rfl
    · omega
    · exact congrArg Except.ok (List.append_nil m.output)

/-- A member is read as what it holds. -/
theorem content_toBytes : Gzip.content m.toBytes = .ok m.output := by
  have hread := m.content_withTrailer m.length_trailer
  rw [m.onTrailer_trailer] at hread
  exact hread

/-- A part of a member is no file, unless it is empty. -/
theorem content_of_cut {p : Bytes} (hp : p <+: m.toBytes) (hne : p ≠ m.toBytes) (hpos : p ≠ []) :
    ∃ f, Gzip.content p = .error f := by
  obtain ⟨before, last, heq, hlength⟩ := exists_trailer_eq m.length_trailer
  have hlast := m.onTrailer_trailer
  rw [heq, ← Stage.step_trailer] at hlast
  have hall := (m.leadsTo_last hlength).trans (.single trivial hlast)
  have hbytes : m.toBytes = 0x1F :: (0x8B :: (m.header.rest ++ (m.data.bytes ++ before)) ++ [last]) :=
    (congrArg m.withTrailer heq).trans m.withTrailer_eq
  rw [hbytes] at hp hne
  cases p with
  | nil => exact absurd rfl hpos
  | cons b p =>
    obtain ⟨rfl, hrest⟩ := List.cons_prefix_cons.mp hp
    have hstart : Stage.start.step 0x1F = .ok (.magic 0x1F) := rfl
    obtain ⟨f, hf⟩ := hall.content_of_cut hrest fun h => hne (congrArg (0x1F :: ·) h)
    rw [← Stage.content_start, Stage.content_cons_ok hstart, hf]
    exact ⟨f, rfl⟩

end Member

end Gzip

end LegacyImage

import LegacyImage.Proofs.Gzip.Member

/-!
Compressed data that is stored as it is. Each block has the length of its content, the complement of
that, and the content; the five bits after those that say what kind of a block it is mean nothing. An
inflater that is fed the blocks comes to their contents one after the other (`Stored.output_data`).
-/

namespace LegacyImage.Deflate

/-! ## Ways through compressed data -/

namespace Inflater

/-- Whether some bytes lead from an inflater to another, and the data goes on before each of them. -/
inductive LeadsTo : Inflater → Bytes → Inflater → Prop
  | refl (i : Inflater) : LeadsTo i [] i
  | cons {i last : Inflater} {b : UInt8} {bs : Bytes} (hnot : i.phase ≠ .done)
    (hrest : LeadsTo (i.feed b) bs last) : LeadsTo i (b :: bs) last

variable {i next last : Inflater} {bs : Bytes}

theorem LeadsTo.trans (h : i.LeadsTo bs next) {cs : Bytes} (h' : next.LeadsTo cs last) :
    i.LeadsTo (bs ++ cs) last := by
  induction h with
  | refl i => exact h'
  | cons hnot _ ih => exact .cons hnot (ih h')

theorem LeadsTo.single {b : UInt8} (hnot : i.phase ≠ .done) (h : i.feed b = next) :
    i.LeadsTo [b] next := .cons hnot (h ▸ .refl _)

theorem LeadsTo.foldl_feed (h : i.LeadsTo bs last) : bs.foldl feed i = last := by
  induction h with
  | refl i => rfl
  | cons _ _ ih => exact ih

theorem LeadsTo.phase_take (h : i.LeadsTo bs last) {n : Nat} (hn : n < bs.length) :
    ((bs.take n).foldl feed i).phase ≠ .done := by
  induction h generalizing n with
  | refl i => exact absurd hn (Nat.not_lt_zero n)
  | cons hnot _ ih =>
    cases n with
    | zero => exact hnot
    | succ n => exact ih (Nat.lt_of_succ_lt_succ hn)

end Inflater

/-- Data that leads to its end. -/
def Data.ofLeadsTo {bs : Bytes} {last : Inflater} (h : Inflater.start.LeadsTo bs last)
    (hdone : last.phase = .done) : Data where
  bytes := bs
  done := h.foldl_feed ▸ hdone
  not_done _ hn := h.phase_take hn

/-! ## Stored blocks -/

/-- A stored block: its content and the bits of its first byte that mean nothing. -/
structure StoredBlock where
  content : Bytes
  ignored : Fin 32
  length_content : content.length < 2 ^ 16

namespace StoredBlock

/-- The first byte says whether the block is the last, and that it is stored. -/
def firstByte (final : Bool) (ignored : Fin 32) : UInt8 :=
  UInt8.ofNat (final.toNat + 8 * ignored.val)

/-- The length of the content and its complement. -/
def lengths (block : StoredBlock) : Bytes :=
  Bytes.ofNatLE 2 block.content.length ++ Bytes.ofNatLE 2 (0xFFFF - block.content.length)

theorem length_lengths (block : StoredBlock) : block.lengths.length = 4 := by simp [lengths]

def toBytes (final : Bool) (block : StoredBlock) : Bytes :=
  firstByte final block.ignored :: (block.lengths ++ block.content)

end StoredBlock

/-- Some stored blocks, of which the last is the final one. -/
structure Stored where
  init : List StoredBlock
  last : StoredBlock

namespace Stored

def toBytes (s : Stored) : Bytes := s.init.flatMap (·.toBytes false) ++ s.last.toBytes true

def content (s : Stored) : Bytes := s.init.flatMap (·.content) ++ s.last.content

end Stored

namespace Inflater

/-- An inflater that has come to the start of a block, or to the end of the last, with this output. -/
def between (held : Bytes) (final : Bool) : Inflater := endBlock ⟨held.toArray, final, .done⟩

variable {held : Bytes} {final : Bool}

theorem bitsOf_firstByte (final : Bool) (ignored : Fin 32) :
    ∃ rest, bitsOf (StoredBlock.firstByte final ignored) = final :: false :: false :: rest := by
  have htake : ∀ (final : Bool) (ignored : Fin 32),
      (bitsOf (StoredBlock.firstByte final ignored)).take 3 = [final, false, false] := by decide
  refine ⟨(bitsOf (StoredBlock.firstByte final ignored)).drop 3, ?_⟩
  exact (List.take_append_drop 3 _).symm.trans (congrArg (· ++ _) (htake final ignored))

/-- Before the lengths of a stored block, the rest of a byte means nothing. -/
theorem foldl_feedBit_storedLengths (output : Array UInt8) (final : Bool) (bits : List Bool) :
    bits.foldl feedBit ⟨output, final, .storedLengths []⟩ = ⟨output, final, .storedLengths []⟩ := by
  induction bits with
  | nil => rfl
  | cons bit bits ih => exact ih

theorem feed_firstByte (final : Bool) (ignored : Fin 32) :
    (between held false).feed (StoredBlock.firstByte final ignored) =
      ⟨held.toArray, final, .storedLengths []⟩ := by
  obtain ⟨rest, hbits⟩ := bitsOf_firstByte final ignored
  have hfeed : (between held false).feed (StoredBlock.firstByte final ignored) =
      (bitsOf (StoredBlock.firstByte final ignored)).foldl feedBit (between held false) := rfl
  rw [hfeed, hbits]
  cases final <;> exact foldl_feedBit_storedLengths held.toArray _ rest

theorem leadsTo_storedLengths (output : Array UInt8) {bs : Bytes} (h : bs.length = 4) :
    LeadsTo ⟨output, final, .storedLengths []⟩ bs (onStoredLengths ⟨output, final, .done⟩ bs) := by
  match bs, h with
  | [a, b, c, d], _ =>
    exact .cons nofun (.cons nofun (.cons nofun (.single nofun rfl)))

/-- A block that says its length goes on with its content, or is over. -/
theorem onStoredLengths_lengths (block : StoredBlock) :
    onStoredLengths ⟨held.toArray, final, .done⟩ block.lengths =
      if block.content = [] then between held final
      else ⟨held.toArray, final, .stored block.content.length⟩ := by
  have hlength := block.length_lengths
  have hsize : Bytes.toNatLE (block.lengths.take 2) = block.content.length := by
    rw [StoredBlock.lengths, List.take_left' (Bytes.length_ofNatLE 2 _), Bytes.toNatLE_ofNatLE]
    exact Nat.mod_eq_of_lt block.length_content
  have hcomplement : Bytes.toNatLE (block.lengths.drop 2) = 0xFFFF - block.content.length := by
    rw [StoredBlock.lengths, List.drop_left' (Bytes.length_ofNatLE 2 _), Bytes.toNatLE_ofNatLE]
    exact Nat.mod_eq_of_lt (by omega)
  have hsum : ¬ block.content.length + (0xFFFF - block.content.length) ≠ 0xFFFF := by
    have := block.length_content
    omega
  unfold onStoredLengths
  rw [if_neg (by omega), hsize, hcomplement]
  dsimp only
  rw [if_neg hsum]
  simp only [List.length_eq_zero_iff]
  rfl

/-- The content of a stored block goes to the output as it is. -/
theorem leadsTo_content {content : Bytes} (hne : content ≠ []) :
    LeadsTo ⟨held.toArray, final, .stored content.length⟩ content
      (between (held ++ content) final) := by
  induction content generalizing held with
  | nil => exact absurd rfl hne
  | cons b rest ih =>
    cases rest with
    | nil =>
      refine .single nofun ?_
      dsimp only [feed]
      rw [List.push_toArray]
      rfl
    | cons c rest =>
      have hfeed : feed ⟨held.toArray, final, .stored (b :: c :: rest).length⟩ b =
          ⟨(held ++ [b]).toArray, final, .stored (c :: rest).length⟩ := by
        dsimp only [feed]
        rw [List.push_toArray]
        rfl
      rw [List.append_cons held]
      refine .cons nofun ?_
      rw [hfeed]
      exact ih (List.cons_ne_nil c rest)

theorem phase_between (held : Bytes) : (between held false).phase ≠ .done := nofun

theorem leadsTo_block (held : Bytes) (final : Bool) (block : StoredBlock) :
    (between held false).LeadsTo (block.toBytes final) (between (held ++ block.content) final) := by
  have hlengths : LeadsTo ⟨held.toArray, final, .storedLengths []⟩ block.lengths _ :=
    leadsTo_storedLengths held.toArray block.length_lengths
  rw [onStoredLengths_lengths] at hlengths
  refine .cons (phase_between held) ?_
  rw [feed_firstByte]
  by_cases hnil : block.content = []
  · rw [if_pos hnil] at hlengths
    rw [hnil, List.append_nil, List.append_nil]
    exact hlengths
  · rw [if_neg hnil] at hlengths
    exact hlengths.trans (leadsTo_content hnil)

/-- Blocks that are not the last add their contents. -/
theorem leadsTo_blocks (held : Bytes) (blocks : List StoredBlock) :
    (between held false).LeadsTo (blocks.flatMap (·.toBytes false))
      (between (held ++ blocks.flatMap (·.content)) false) := by
  induction blocks generalizing held with
  | nil =>
    rw [List.flatMap_nil, List.flatMap_nil, List.append_nil]
    exact .refl _
  | cons block rest ih =>
    rw [List.flatMap_cons, List.flatMap_cons, ← List.append_assoc]
    exact (leadsTo_block held false block).trans (ih _)

theorem leadsTo_stored (s : Stored) : start.LeadsTo s.toBytes (between s.content true) :=
  (leadsTo_blocks [] s.init).trans (leadsTo_block _ true s.last)

end Inflater

namespace Stored

def data (s : Stored) : Data := .ofLeadsTo (Inflater.leadsTo_stored s) rfl

/-- Stored blocks come to what they hold. -/
theorem output_data (s : Stored) : s.data.output = s.content :=
  congrArg (·.output.toList) (Inflater.leadsTo_stored s).foldl_feed

end Stored

end LegacyImage.Deflate

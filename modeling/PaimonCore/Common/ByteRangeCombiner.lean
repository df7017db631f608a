import Mathlib.Data.List.Sort

/-!
# `ByteRangeCombiner`

Byte ranges of a file are cut at the size limit, sorted, freed of ranges inside others, and then
joined as long as the result is not too large and the hole between two ranges is small.
-/

namespace PaimonCore.ByteRanges

open List

structure ByteRange where
  offset : Nat
  length : Nat
  deriving DecidableEq, Repr

namespace ByteRange

def stop (range : ByteRange) : Nat := range.offset + range.length

def contains (range other : ByteRange) : Bool :=
  range.offset ≤ other.offset ∧ other.stop ≤ range.stop

def Holds (range : ByteRange) (byte : Nat) : Prop := range.offset ≤ byte ∧ byte < range.stop

end ByteRange

open ByteRange

def kMaxRangeValue : Nat := 9223372036854775807

def exceedsBound (range : ByteRange) : Bool :=
  kMaxRangeValue < range.offset ∨ kMaxRangeValue < range.length ∨ kMaxRangeValue < range.stop

/-- The pieces of a range. Each round but the last takes `limit` bytes. -/
def splitFrom (limit : Nat) : Nat → Nat → Nat → List ByteRange
  | 0, _, _ => []
  | fuel + 1, start, stop =>
    if limit < stop - start then ⟨start, limit⟩ :: splitFrom limit fuel (start + limit) stop
    else if start < stop then [⟨start, stop - start⟩]
    else []

/-- The order of the sort: by offset, longer ranges first. -/
def notAfter (left right : ByteRange) : Prop :=
  left.offset < right.offset ∨ (left.offset = right.offset ∧ right.length ≤ left.length)

instance notAfterDecidable : DecidableRel notAfter :=
  fun left right => inferInstanceAs (Decidable
    (left.offset < right.offset ∨ (left.offset = right.offset ∧ right.length ≤ left.length)))

def pieces (rangeSizeLimit : Nat) (ranges : List ByteRange) : List ByteRange :=
  ((ranges.flatMap (fun range =>
    splitFrom rangeSizeLimit (range.length + 1) range.offset range.stop)).filter
      (fun range => range.length ≠ 0)).insertionSort notAfter

/-- Leaves out the ranges inside the last one that was kept. -/
def uniqueFrom (back : ByteRange) : List ByteRange → List ByteRange
  | [] => [back]
  | range :: rest =>
    if back.contains range then uniqueFrom back rest else back :: uniqueFrom range rest

def uniqueRanges : List ByteRange → List ByteRange
  | [] => []
  | first :: rest => uniqueFrom first rest

def checkSorted : List ByteRange → Except String Unit
  | left :: right :: rest =>
    if right.offset ≤ left.offset ∨ left.contains right then
      .error "Byte ranges must be non-overlapping and sorted."
    else checkSorted (right :: rest)
  | _ => .ok ()

/-- The range goes from `start` to `stop`; the sum with the hole limit may wrap. -/
def coalesceFrom (holeSizeLimit rangeSizeLimit start stop : Nat) : List ByteRange → List ByteRange
  | [] => [⟨start, stop - start⟩]
  | range :: rest =>
    if rangeSizeLimit < range.stop - start ∨
      (stop + holeSizeLimit) % 18446744073709551616 < range.offset then
      ⟨start, stop - start⟩ ::
        coalesceFrom holeSizeLimit rangeSizeLimit range.offset range.stop rest
    else coalesceFrom holeSizeLimit rangeSizeLimit start range.stop rest

def coalesceUnique (holeSizeLimit rangeSizeLimit : Nat) (unique : List ByteRange) :
    Except String (List ByteRange) :=
  match unique with
  | [] => .ok []
  | first :: rest =>
    match checkSorted (first :: rest) with
    | .error error => .error error
    | .ok () => .ok (coalesceFrom holeSizeLimit rangeSizeLimit first.offset first.stop rest)

def coalesceByteRanges (ranges : List ByteRange) (holeSizeLimit rangeSizeLimit : Nat) :
    Except String (List ByteRange) :=
  if rangeSizeLimit ≤ holeSizeLimit then
    .error ("range size limit " ++ toString rangeSizeLimit ++
      " should be larger than hole size limit " ++ toString holeSizeLimit)
  else
    match ranges.find? exceedsBound with
    | some range => .error ("byte range (offset=" ++ toString range.offset ++ ", length=" ++
        toString range.length ++ ") exceeds the int64 bound")
    | none =>
      coalesceUnique holeSizeLimit rangeSizeLimit (uniqueRanges (pieces rangeSizeLimit ranges))

theorem split_from {limit fuel start stop : Nat} (pos : 0 < limit) (enough : stop - start < fuel) :
    (∀ piece ∈ splitFrom limit fuel start stop, 0 < piece.length ∧ piece.length ≤ limit ∧
        start ≤ piece.offset ∧ piece.stop ≤ stop) ∧
      ∀ byte, start ≤ byte → byte < stop → ∃ piece ∈ splitFrom limit fuel start stop,
        piece.Holds byte := by
  induction fuel generalizing start with
  | zero => omega
  | succ fuel ih =>
    rw [splitFrom]
    split_ifs with large some
    · obtain ⟨within, cover⟩ := @ih (start + limit) (by omega)
      constructor
      · rw [forall_mem_cons]
        refine ⟨⟨pos, le_rfl, le_rfl, ?_⟩, ?_⟩
        · simp only [ByteRange.stop]
          omega
        · intro piece isPiece
          have bounds := within piece isPiece
          omega
      · intro byte lower upper
        rw [exists_mem_cons_iff]
        rcases Nat.lt_or_ge byte (start + limit) with here | later
        · exact .inl ⟨lower, here⟩
        · exact .inr (cover byte later upper)
    · simp only [mem_singleton, forall_eq, exists_eq_left, ByteRange.Holds, ByteRange.stop]
      exact ⟨by omega, fun byte lower upper => by omega⟩
    · refine ⟨by simp, ?_⟩
      intro byte lower upper
      omega

def Increasing (ranges : List ByteRange) : Prop :=
  ranges.Pairwise (fun left right => left.offset < right.offset ∧ left.stop < right.stop)

theorem contains_iff {range other : ByteRange} :
    range.contains other = true ↔ range.offset ≤ other.offset ∧ other.stop ≤ range.stop := by
  simp [ByteRange.contains]

theorem unique_from {back : ByteRange} {rest : List ByteRange}
    (sorted : (back :: rest).Pairwise notAfter) : Increasing (uniqueFrom back rest) ∧
      (∀ range ∈ uniqueFrom back rest, range ∈ back :: rest ∧ back.offset ≤ range.offset ∧
        back.stop ≤ range.stop) ∧
      ∀ range ∈ back :: rest, ∃ kept ∈ uniqueFrom back rest, kept.contains range = true := by
  induction rest generalizing back with
  | nil =>
    simp [uniqueFrom, Increasing, ByteRange.contains]
  | cons range rest ih =>
    obtain ⟨backFirst, restSorted⟩ := pairwise_cons.mp sorted
    have after := backFirst range mem_cons_self
    rw [uniqueFrom]
    split_ifs with inside
    · obtain ⟨increasing, members, covers⟩ := @ih back
        (pairwise_cons.mpr ⟨fun other mem => backFirst other (.tail _ mem),
          (pairwise_cons.mp restSorted).2⟩)
      refine ⟨increasing, ?_, ?_⟩
      · intro other isOther
        obtain ⟨isMember, bounds⟩ := members other isOther
        rcases mem_cons.mp isMember with rfl | later
        · exact ⟨mem_cons_self, bounds⟩
        · exact ⟨.tail _ (.tail _ later), bounds⟩
      · obtain ⟨kept, isKept, keepsBack⟩ := covers back mem_cons_self
        rw [forall_mem_cons, forall_mem_cons]
        refine ⟨⟨kept, isKept, keepsBack⟩, ⟨kept, isKept, ?_⟩, fun other mem =>
          covers other (.tail _ mem)⟩
        rw [contains_iff] at inside keepsBack ⊢
        omega
    · obtain ⟨increasing, members, covers⟩ := ih restSorted
      rw [contains_iff] at inside
      have further : back.offset < range.offset ∧ back.stop < range.stop := by
        unfold notAfter at after
        simp only [stop] at inside ⊢
        omega
      refine ⟨pairwise_cons.mpr ⟨?_, increasing⟩, ?_, ?_⟩
      · intro other isOther
        have bounds := (members other isOther).2
        omega
      · rw [forall_mem_cons]
        refine ⟨⟨mem_cons_self, le_rfl, le_rfl⟩, ?_⟩
        intro other isOther
        obtain ⟨isMember, bounds⟩ := members other isOther
        exact ⟨.tail _ isMember, by omega⟩
      · rw [forall_mem_cons]
        refine ⟨⟨back, mem_cons_self, contains_iff.mpr ⟨le_rfl, le_rfl⟩⟩, ?_⟩
        intro other isOther
        obtain ⟨kept, isKept, keeps⟩ := covers other isOther
        exact ⟨kept, .tail _ isKept, keeps⟩

theorem unique_ranges {ranges : List ByteRange} (sorted : ranges.Pairwise notAfter) :
    Increasing (uniqueRanges ranges) ∧ (∀ range ∈ uniqueRanges ranges, range ∈ ranges) ∧
      ∀ range ∈ ranges, ∃ kept ∈ uniqueRanges ranges, kept.contains range = true := by
  cases ranges with
  | nil => exact ⟨Pairwise.nil, by simp [uniqueRanges], by simp⟩
  | cons first rest =>
    obtain ⟨increasing, members, keeps⟩ := unique_from sorted
    exact ⟨increasing, fun range isRange => (members range isRange).1, keeps⟩

theorem check_sorted {ranges : List ByteRange} (increasing : Increasing ranges) :
    checkSorted ranges = .ok () := by
  induction ranges with
  | nil => rfl
  | cons left rest ih =>
    obtain ⟨above, restIncreasing⟩ := pairwise_cons.mp increasing
    cases rest with
    | nil => rfl
    | cons right rest =>
      obtain ⟨offsets, stops⟩ := above right mem_cons_self
      rw [checkSorted, if_neg, ih restIncreasing]
      rw [contains_iff]
      omega

/-- The last byte was requested, and no stretch that was not is longer than the limit. -/
structure Dense (requested : Nat → Prop) (holeSizeLimit start stop : Nat) : Prop where
  last : ∃ byte, byte + 1 = stop ∧ start ≤ byte ∧ requested byte
  gaps : ∀ first last, start ≤ first → last ≤ stop →
    (∀ byte, first ≤ byte → byte < last → ¬requested byte) → last ≤ first + holeSizeLimit

section
variable {requested : Nat → Prop} {holeSizeLimit rangeSizeLimit start stop : Nat}
  {current range : ByteRange}

structure Piece (requested : Nat → Prop) (rangeSizeLimit : Nat) (range : ByteRange) : Prop where
  filled : 0 < range.length
  small : range.length ≤ rangeSizeLimit
  asked : ∀ byte, range.Holds byte → requested byte

theorem Piece.dense (piece : Piece requested rangeSizeLimit range) :
    Dense requested holeSizeLimit range.offset range.stop := by
  obtain ⟨filled, _, asked⟩ := piece
  simp only [ByteRange.Holds, stop] at asked ⊢
  refine ⟨⟨range.offset + range.length - 1, by omega, by omega, asked _ (by omega)⟩, ?_⟩
  intro first last lower upper unasked
  by_contra long
  exact unasked first le_rfl (by omega) (asked first (by omega))

theorem Dense.join (dense : Dense requested holeSizeLimit start stop)
    (piece : Piece requested rangeSizeLimit range) (further : stop < range.stop)
    (near : range.offset ≤ stop + holeSizeLimit) :
    Dense requested holeSizeLimit start range.stop := by
  obtain ⟨byte, isLast, afterStart, isAsked⟩ := dense.last
  obtain ⟨lastByte, isStop, _, lastAsked⟩ := (piece.dense : Dense _ holeSizeLimit _ _).last
  refine ⟨⟨lastByte, isStop, by omega, lastAsked⟩, ?_⟩
  intro first last lower upper unasked
  -- The stretch ends where the range begins, unless it is inside the part before.
  by_contra long
  have before : last ≤ range.offset := by
    by_contra behind
    have begins : range.offset < range.stop := Nat.lt_add_of_pos_right piece.filled
    rcases Nat.lt_or_ge first range.offset with early | late
    · exact unasked range.offset (by omega) (by omega) (piece.asked _ ⟨le_rfl, begins⟩)
    · exact unasked first le_rfl (by omega) (piece.asked _ ⟨late, by omega⟩)
  rcases Nat.lt_or_ge byte first with late | early
  · omega
  · rcases Nat.lt_or_ge stop last with across | inside
    · exact unasked byte early (by omega) isAsked
    · have bound := dense.gaps first last lower inside unasked
      omega

structure Joined (requested : Nat → Prop) (holeSizeLimit rangeSizeLimit : Nat)
    (ranges wholes : List ByteRange) : Prop where
  increasing : Increasing wholes
  after : ∀ offset stop, (∀ range ∈ ranges, offset < range.offset ∧ stop < range.stop) →
    ∀ whole ∈ wholes, offset < whole.offset ∧ stop < whole.stop
  dense : ∀ whole ∈ wholes, whole.length ≤ rangeSizeLimit ∧
    Dense requested holeSizeLimit whole.offset whole.stop
  keeps : ∀ range ∈ ranges, ∃ whole ∈ wholes, whole.contains range = true

theorem whole_eq (range : ByteRange) :
    (⟨range.offset, range.stop - range.offset⟩ : ByteRange) = range := by
  simp [stop]

theorem coalesce_from {rest : List ByteRange} (increasing : Increasing (current :: rest))
    (pieces : ∀ range ∈ rest, Piece requested rangeSizeLimit range)
    (small : current.length ≤ rangeSizeLimit)
    (dense : Dense requested holeSizeLimit current.offset current.stop) :
    Joined requested holeSizeLimit rangeSizeLimit (current :: rest)
      (coalesceFrom holeSizeLimit rangeSizeLimit current.offset current.stop rest) := by
  induction rest generalizing current with
  | nil =>
    rw [coalesceFrom, whole_eq]
    refine ⟨increasing, fun _ _ after => after, by simpa using ⟨small, dense⟩, ?_⟩
    exact fun range isRange => ⟨range, isRange, contains_iff.mpr ⟨le_rfl, le_rfl⟩⟩
  | cons range rest ih =>
    obtain ⟨above, restIncreasing⟩ := pairwise_cons.mp increasing
    obtain ⟨piece, restPieces⟩ := forall_mem_cons.mp pieces
    rw [coalesceFrom, whole_eq]
    split_ifs with cut
    · have later := ih restIncreasing restPieces piece.small piece.dense
      refine ⟨pairwise_cons.mpr ⟨later.after _ _ above, later.increasing⟩, ?_,
        forall_mem_cons.mpr ⟨⟨small, dense⟩, later.dense⟩, forall_mem_cons.mpr ⟨?_, ?_⟩⟩
      · intro offset stop after
        obtain ⟨here, others⟩ := forall_mem_cons.mp after
        exact forall_mem_cons.mpr ⟨here, later.after offset stop others⟩
      · exact ⟨current, mem_cons_self, contains_iff.mpr ⟨le_rfl, le_rfl⟩⟩
      · intro other isOther
        obtain ⟨whole, isWhole, holds⟩ := later.keeps other isOther
        exact ⟨whole, .tail _ isWhole, holds⟩
    · rw [not_or, not_lt, not_lt] at cut
      obtain ⟨⟨offsetAfter, stopAfter⟩, restAfter⟩ := forall_mem_cons.mp above
      have isStop : (⟨current.offset, range.stop - current.offset⟩ : ByteRange).stop =
          range.stop := by
        simp only [stop]
        omega
      have later := @ih ⟨current.offset, range.stop - current.offset⟩
      simp only [isStop] at later
      have joined := later (pairwise_cons.mpr ⟨fun other isOther => ⟨(restAfter other isOther).1, by
          rw [isStop]
          exact (rel_of_pairwise_cons restIncreasing isOther).2⟩, restIncreasing.tail⟩)
        restPieces cut.1 (dense.join piece stopAfter (cut.2.trans (Nat.mod_le _ _)))
      obtain ⟨⟨whole, isWhole, holds⟩, keeps⟩ := forall_mem_cons.mp joined.keeps
      obtain ⟨lower, upper⟩ : whole.offset ≤ current.offset ∧ range.stop ≤ whole.stop := by
        rwa [contains_iff, isStop] at holds
      have holdsBoth : whole.contains current = true ∧ whole.contains range = true := by
        rw [contains_iff, contains_iff]
        omega
      refine ⟨joined.increasing, ?_, joined.dense, forall_mem_cons.mpr
        ⟨⟨whole, isWhole, holdsBoth.1⟩, forall_mem_cons.mpr ⟨⟨whole, isWhole, holdsBoth.2⟩, keeps⟩⟩⟩
      intro offset stop after
      obtain ⟨here, others⟩ := forall_mem_cons.mp after
      obtain ⟨there, others⟩ := forall_mem_cons.mp others
      apply joined.after offset stop
      rw [forall_mem_cons, isStop]
      exact ⟨⟨here.1, there.2⟩, others⟩

theorem coalesce_unique {unique : List ByteRange} (increasing : Increasing unique)
    (pieces : ∀ range ∈ unique, Piece requested rangeSizeLimit range) :
    ∃ coalesced, coalesceUnique holeSizeLimit rangeSizeLimit unique = .ok coalesced ∧
      Joined requested holeSizeLimit rangeSizeLimit unique coalesced := by
  cases unique with
  | nil => exact ⟨[], rfl, Pairwise.nil, fun _ _ after => after, by simp, by simp⟩
  | cons first rest =>
    obtain ⟨piece, restPieces⟩ := forall_mem_cons.mp pieces
    exact ⟨_, by rw [coalesceUnique, check_sorted increasing],
      coalesce_from increasing restPieces piece.small piece.dense⟩

end

def Requested (ranges : List ByteRange) (byte : Nat) : Prop := ∃ range ∈ ranges, range.Holds byte

structure Coalesced (ranges coalesced : List ByteRange) (holeSizeLimit rangeSizeLimit : Nat) :
    Prop where
  increasing : Increasing coalesced
  sized : ∀ whole ∈ coalesced, whole.length ≤ rangeSizeLimit
  covers : ∀ byte, Requested ranges byte → Requested coalesced byte
  -- A range without bytes is not read at all.
  inside : ∀ range ∈ ranges, range.length ≤ rangeSizeLimit → ∀ byte, range.Holds byte →
    ∃ whole ∈ coalesced, whole.contains range = true
  holes : ∀ first last,
    (∀ byte, first ≤ byte → byte < last → Requested coalesced byte ∧ ¬Requested ranges byte) →
      last ≤ first + holeSizeLimit

variable {ranges : List ByteRange} {holeSizeLimit rangeSizeLimit : Nat}

theorem pieces_sorted : (pieces rangeSizeLimit ranges).Pairwise notAfter := by
  have total : Std.Total notAfter := ⟨fun left right => by unfold notAfter; omega⟩
  have trans : IsTrans ByteRange notAfter := ⟨fun first second third => by unfold notAfter; omega⟩
  exact pairwise_insertionSort _ _

theorem mem_pieces {piece : ByteRange} : piece ∈ pieces rangeSizeLimit ranges ↔
    (∃ range ∈ ranges,
      piece ∈ splitFrom rangeSizeLimit (range.length + 1) range.offset range.stop) ∧
      piece.length ≠ 0 := by
  rw [pieces, mem_insertionSort, mem_filter, mem_flatMap, decide_eq_true_eq]

theorem coalesces_byte_ranges (bounded : ∀ range ∈ ranges, range.stop ≤ kMaxRangeValue)
    (limits : holeSizeLimit < rangeSizeLimit) :
    ∃ coalesced, coalesceByteRanges ranges holeSizeLimit rangeSizeLimit = .ok coalesced ∧
      Coalesced ranges coalesced holeSizeLimit rangeSizeLimit := by
  have noneExceeds : ranges.find? exceedsBound = none := by
    rw [find?_eq_none]
    intro range isRange
    have bound := bounded range isRange
    simp only [exceedsBound, decide_eq_true_eq]
    simp only [stop] at bound ⊢
    omega
  have splits := fun range : ByteRange =>
    @split_from rangeSizeLimit (range.length + 1) range.offset range.stop (by omega)
      (by simp only [stop]; omega)
  have asked :
      ∀ piece ∈ pieces rangeSizeLimit ranges, Piece (Requested ranges) rangeSizeLimit piece := by
    intro piece isPiece
    obtain ⟨⟨range, isRange, fromRange⟩, _⟩ := mem_pieces.mp isPiece
    obtain ⟨filled, small, lower, upper⟩ := (splits range).1 piece fromRange
    exact ⟨filled, small, fun byte holds =>
      ⟨range, isRange, lower.trans holds.1, holds.2.trans_le upper⟩⟩
  have kept : ∀ range ∈ ranges, ∀ byte, range.Holds byte → ∃ piece ∈ pieces rangeSizeLimit ranges,
      piece.Holds byte ∧ (range.length ≤ rangeSizeLimit → piece = range) := by
    intro range isRange byte holds
    obtain ⟨piece, isPiece, pieceHolds⟩ := (splits range).2 byte holds.1 holds.2
    have filled := ((splits range).1 piece isPiece).1
    refine ⟨piece, mem_pieces.mpr ⟨⟨range, isRange, isPiece⟩, by omega⟩, pieceHolds, ?_⟩
    intro small
    rw [splitFrom, if_neg (by simp only [stop]; omega)] at isPiece
    split_ifs at isPiece
    · rw [mem_singleton.mp isPiece]
      simp [stop]
    · cases isPiece
  obtain ⟨increasing, members, keeps⟩ := unique_ranges (@pieces_sorted ranges rangeSizeLimit)
  obtain ⟨coalesced, isOk, joined⟩ :=
    @coalesce_unique (Requested ranges) holeSizeLimit rangeSizeLimit _
    increasing (fun range isRange => asked range (members range isRange))
  have holdsAll : ∀ piece ∈ pieces rangeSizeLimit ranges, ∃ whole ∈ coalesced,
      whole.contains piece = true := by
    intro piece isPiece
    obtain ⟨unique, isUnique, containsPiece⟩ := keeps piece isPiece
    obtain ⟨whole, isWhole, containsUnique⟩ := joined.keeps unique isUnique
    refine ⟨whole, isWhole, ?_⟩
    rw [contains_iff] at containsPiece containsUnique ⊢
    omega
  refine ⟨coalesced, by rw [coalesceByteRanges, if_neg (by omega), noneExceeds, isOk],
    joined.increasing, fun whole isWhole => (joined.dense whole isWhole).1, ?_, ?_, ?_⟩
  · rintro byte ⟨range, isRange, holds⟩
    obtain ⟨piece, isPiece, pieceHolds, _⟩ := kept range isRange byte holds
    obtain ⟨whole, isWhole, containsPiece⟩ := holdsAll piece isPiece
    rw [contains_iff] at containsPiece
    exact ⟨whole, isWhole, containsPiece.1.trans pieceHolds.1,
      pieceHolds.2.trans_le containsPiece.2⟩
  · intro range isRange small byte holds
    obtain ⟨piece, isPiece, _, isWhole⟩ := kept range isRange byte holds
    rw [isWhole small] at isPiece
    exact holdsAll range isPiece
  · intro first last stretch
    by_contra long
    obtain ⟨whole, isWhole, holds⟩ := (stretch first le_rfl (by omega)).1
    have dense := (joined.dense whole isWhole).2
    obtain ⟨byte, isLast, _, isAsked⟩ := dense.last
    have inside : last ≤ whole.stop := by
      by_contra beyond
      exact (stretch byte (by have := holds.2; omega) (by omega)).2 isAsked
    have bound :=
      dense.gaps first last holds.1 inside (fun byte lower upper => (stretch byte lower upper).2)
    omega

/-- A range without bytes is inside no range that is read. -/
theorem empty_range_not_read : ∃ coalesced, coalesceByteRanges [⟨5, 0⟩] 0 1 = .ok coalesced ∧
    ¬∃ whole ∈ coalesced, whole.contains ⟨5, 0⟩ = true :=
  ⟨[], by decide, by simp⟩

/-- A cut range, one inside it and one behind a small hole. -/
theorem cut_ranges_coalesce :
    ∃ coalesced, coalesceByteRanges [⟨20, 4⟩, ⟨0, 16⟩, ⟨3, 5⟩] 4 10 = .ok coalesced ∧
      Coalesced [⟨20, 4⟩, ⟨0, 16⟩, ⟨3, 5⟩] coalesced 4 10 :=
  coalesces_byte_ranges (by decide) (by decide)

end PaimonCore.ByteRanges

import PaimonCore.Library.Matchings
import PaimonCore.Read.CachedArrays

/-!
# `DataEvolutionFileReader`

The fields of a row come from several readers that step through the same rows in batches of
their own. The reader keeps a queue of the valid rows of each inner reader and emits, again
and again, as many rows as every queue has.
-/

namespace PaimonCore.DataEvolution

open List ReaderUtils

open PaimonCore.Matchings (forall₂_mem)

variable {Value : Type}

/-- The reader and the field that a read field comes from; `none` if no file has it. -/
abbrev FieldSource := Option (Nat × Nat)

/-- An inner reader is `none` if no field is read from it. -/
structure DataEvolutionFileReader (Value : Type) where
  readers : List (Option (InnerReader Value))
  readBatchSize : Nat
  sources : List FieldSource

namespace DataEvolutionFileReader

/-- `read_schema` is given by its number of fields; an offset of `-1` is `none`. -/
def create (readers : List (Option (InnerReader Value))) (readFieldCount readBatchSize : Nat)
    (readerOffsets : List (Option Nat)) (fieldOffsets : List Nat) :
    Except String (DataEvolutionFileReader Value) :=
  if readFieldCount = 0 then .error "read schema must not be empty"
  else if readFieldCount ≠ readerOffsets.length ∨ readerOffsets.length ≠ fieldOffsets.length then
    .error "read schema, row offsets and field offsets must have the same size"
  else if readers.isEmpty then .error "readers must not be empty"
  else if readerOffsets.any (fun offset => offset.any (fun index => readers.length ≤ index)) then
    .error "reader offset is out of range of readers"
  else
    .ok ⟨readers, readBatchSize, List.zipWith (fun offset field =>
      offset.map (fun index => (index, field)))
      readerOffsets fieldOffsets⟩

/-- The first loop of `NextBatchWithBitmap`: every reader with whether it has a row. -/
def ensureAll :
    List (Option (InnerReader Value)) → Except String (List (Option (Bool × InnerReader Value)))
  | [] => .ok []
  | none :: rest =>
    match ensureAll rest with
    | .error error => .error error
    | .ok later => .ok (none :: later)
  | some reader :: rest =>
    match reader.ensureCachedArray with
    | .error error => .error error
    | .ok ensured =>
      match ensureAll rest with
      | .error error => .error error
      | .ok later => .ok (some ensured :: later)

/-- As many rows as every reader has cached, and no more than a batch has. -/
def arrayLength (readBatchSize : Nat) (readers : List (InnerReader Value)) : Nat :=
  readers.foldl (fun length reader => min length reader.cachedArrayLength) readBatchSize

/-- The second loop: the rows of each reader. -/
def takeAll (length : Nat) : List (Option (Bool × InnerReader Value)) →
    Except String (List (Option (List (InnerRow Value))) × List (Option (InnerReader Value)))
  | [] => .ok ([], [])
  | none :: rest =>
    match takeAll length rest with
    | .error error => .error error
    | .ok (arrays, readers) => .ok (none :: arrays, none :: readers)
  | some (_, reader) :: rest =>
    match reader.takeCachedArray length with
    | .error error => .error error
    | .ok (array, next) =>
      match takeAll length rest with
      | .error error => .error error
      | .ok (arrays, readers) => .ok (some array :: arrays, some next :: readers)

def column (length : Nat) (arrays : List (Option (List (InnerRow Value)))) :
    FieldSource → List (Option Value)
  | none => List.replicate length none
  | some (reader, field) =>
    ((arrays[reader]?.join).getD []).map (fun row => row[field]?.join)

/-- `NextBatchWithBitmap`: the columns of the read schema, or `none` at the end. -/
def nextBatch (reader : DataEvolutionFileReader Value) :
    Except String (Option (List (List (Option Value))) × DataEvolutionFileReader Value) :=
  match ensureAll reader.readers with
  | .error error => .error error
  | .ok ensured =>
    let active := ensured.filterMap id
    let available := active.filter Prod.fst
    if active.isEmpty then .error "data evolution reader has no active inner reader"
    else if active.any (fun state => !state.1) then
      if available.isEmpty then
        .ok (none, { reader with readers := ensured.map (Option.map Prod.snd) })
      else .error "array for single reader length mismatch others"
    else
      let length := arrayLength reader.readBatchSize (available.map Prod.snd)
      match takeAll length ensured with
      | .error error => .error error
      | .ok (arrays, next) =>
        .ok (some (reader.sources.map (column length arrays)), { reader with readers := next })

/-- All batches and the ending; `none` when the calls do not suffice. -/
def drain : Nat → DataEvolutionFileReader Value →
    List (List (List (Option Value))) × Option (Except String Unit)
  | 0, _ => ([], none)
  | fuel + 1, reader =>
    match reader.nextBatch with
    | .error error => ([], some (.error error))
    | .ok (none, _) => ([], some (.ok ()))
    | .ok (some batch, next) =>
      let (batches, ending) := drain fuel next
      (batch :: batches, ending)

/-- The pending rows of every reader; `none` where no field is read. -/
abbrev Queues (Value : Type) := List (Option (List (InnerRow Value)))

def queues (readers : List (Option (InnerReader Value))) : Queues Value :=
  readers.map (Option.map InnerReader.pending)

def takeQueues (count : Nat) (queues : Queues Value) : Queues Value :=
  queues.map (Option.map (List.take count))

def dropQueues (count : Nat) (queues : Queues Value) : Queues Value :=
  queues.map (Option.map (List.drop count))

def Aligned (queues : Queues Value) : Prop :=
  ∀ left right, some left ∈ queues → some right ∈ queues → left.length = right.length

def WellFormed (readers : List (Option (InnerReader Value))) : Prop :=
  ∀ inner, some inner ∈ readers → inner.WellFormed

def Promising (readers : List (Option (InnerReader Value))) : Prop :=
  ∀ inner, some inner ∈ readers → inner.Promising

variable {readers : List (Option (InnerReader Value))}

theorem mem_queues {rows : List (InnerRow Value)} :
    some rows ∈ queues readers ↔ ∃ inner, some inner ∈ readers ∧ inner.pending = rows := by
  simp [queues]

theorem mem_drop_queues {count : Nat} {queues : Queues Value} {rows : List (InnerRow Value)} :
    some rows ∈ dropQueues count queues ↔ ∃ whole, some whole ∈ queues ∧
      whole.drop count = rows := by
  simp [dropQueues]

theorem aligned_drop {count : Nat} {queues : Queues Value}
    (enough : ∀ rows, some rows ∈ queues → count ≤ rows.length) :
    Aligned (dropQueues count queues) ↔ Aligned queues := by
  constructor
  · intro aligned left right leftMember rightMember
    have same := aligned (left.drop count) (right.drop count)
      (mem_drop_queues.mpr ⟨left, leftMember, rfl⟩) (mem_drop_queues.mpr ⟨right, rightMember, rfl⟩)
    have leftEnough := enough left leftMember
    have rightEnough := enough right rightMember
    simp only [length_drop] at same
    omega
  · intro aligned left right leftMember rightMember
    obtain ⟨wholeLeft, leftIn, rfl⟩ := mem_drop_queues.mp leftMember
    obtain ⟨wholeRight, rightIn, rfl⟩ := mem_drop_queues.mp rightMember
    rw [length_drop, length_drop, aligned wholeLeft wholeRight leftIn rightIn]

theorem column_append (first second : Nat) (queues : Queues Value) (source : FieldSource) :
    column first (takeQueues first queues) source ++
        column second (takeQueues second (dropQueues first queues)) source =
      column (first + second) (takeQueues (first + second) queues) source := by
  cases source with
  | none => simp [column]
  | some place =>
    obtain ⟨reader, field⟩ := place
    simp only [column, takeQueues, dropQueues, getElem?_map]
    cases queues[reader]? with
    | none => rfl
    | some queue =>
      cases queue with
      | none => rfl
      | some rows => simp [take_add]

def EnsuredAt : Option (InnerReader Value) → Option (Bool × InnerReader Value) → Prop
  | none, none => True
  | some inner, some (available, next) => inner.Ensured available next
  | _, _ => False

theorem ensure_all_spec (wellFormed : WellFormed readers) :
    (∃ error, ensureAll readers = .error error ∧ ¬ Promising readers) ∨
      ∃ ensured, ensureAll readers = .ok ensured ∧ List.Forall₂ EnsuredAt readers ensured := by
  induction readers with
  | nil => exact .inr ⟨[], rfl, .nil⟩
  | cons entry rest ih =>
    have later := ih (fun inner mem => wellFormed inner (mem_cons_of_mem entry mem))
    have restPromising : Promising (entry :: rest) → Promising rest := fun promising inner mem =>
      promising inner (mem_cons_of_mem entry mem)
    cases entry with
    | none =>
      rcases later with ⟨error, failed, unfit⟩ | ⟨ensured, done, related⟩
      · exact .inl ⟨error, by simp [ensureAll, failed], fun fit => unfit (restPromising fit)⟩
      · exact .inr ⟨none :: ensured, by simp [ensureAll, done], .cons trivial related⟩
    | some inner =>
      cases here : inner.ensureCachedArray with
      | error error =>
        refine .inl ⟨error, by simp [ensureAll, here], ?_⟩
        exact fun fit => InnerReader.ensure_error here (fit inner mem_cons_self)
      | ok pair =>
        rcases later with ⟨error, failed, unfit⟩ | ⟨ensured, done, related⟩
        · refine .inl ⟨error, by simp [ensureAll, here, failed], ?_⟩
          exact fun fit => unfit (restPromising fit)
        · refine .inr ⟨some pair :: ensured, by simp [ensureAll, here, done], ?_⟩
          exact .cons (InnerReader.ensure_ok (wellFormed inner mem_cons_self) here) related

variable {ensured : List (Option (Bool × InnerReader Value))}

section
variable (related : List.Forall₂ EnsuredAt readers ensured)
include related

theorem queues_of_ensured : queues (ensured.map (Option.map Prod.snd)) = queues readers := by
  induction related with
  | nil => rfl
  | @cons entry next rest later head _ ih =>
    simp only [queues, map_cons] at ih ⊢
    rw [ih]
    match entry, next, head with
    | none, none, _ => rfl
    | some inner, some (available, next), head => simp [head.pending]

theorem ensured_of_mem
    {available : Bool} {next : InnerReader Value} (mem : some (available, next) ∈ ensured) :
    ∃ inner, some inner ∈ readers ∧ inner.Ensured available next := by
  obtain ⟨entry, isIn, holds⟩ := forall₂_mem related.flip mem
  match entry, holds with
  | some inner, holds => exact ⟨inner, isIn, holds⟩

theorem mem_ensured {inner : InnerReader Value} (mem : some inner ∈ readers) :
    ∃ available next, some (available, next) ∈ ensured ∧ inner.Ensured available next := by
  obtain ⟨entry, isIn, holds⟩ := forall₂_mem related mem
  match entry, holds with
  | some (available, next), holds => exact ⟨available, next, isIn, holds⟩

theorem promising_of_ensured :
    (∀ available next, some (available, next) ∈ ensured → next.Promising) ↔ Promising readers := by
  constructor
  · intro all inner mem
    obtain ⟨available, next, found, holds⟩ := mem_ensured related mem
    exact holds.promising.mp (all available next found)
  · intro all available next mem
    obtain ⟨inner, found, holds⟩ := ensured_of_mem related mem
    exact holds.promising.mpr (all inner found)

end

theorem le_array_length_iff {count size : Nat} {readers : List (InnerReader Value)} :
    count ≤ arrayLength size readers ↔ count ≤ size ∧ ∀ inner ∈ readers, count ≤
      inner.cachedArrayLength := by
  unfold arrayLength
  induction readers generalizing size with
  | nil => simp
  | cons first rest ih => rw [foldl_cons, ih, Nat.le_min, forall_mem_cons, and_assoc]

theorem take_all {count : Nat} (pos : 0 < count)
    (ready : ∀ available next, some (available, next) ∈ ensured →
      next.WellFormed ∧ count ≤ next.cachedArrayLength) : ∃ after, takeAll count ensured =
        .ok (takeQueues count (queues (ensured.map (Option.map Prod.snd))), after) ∧
      queues after = dropQueues count (queues (ensured.map (Option.map Prod.snd))) ∧
      WellFormed after ∧
      (Promising after ↔ ∀ available next, some (available, next) ∈ ensured → next.Promising) := by
  induction ensured with
  | nil => exact ⟨[], rfl, rfl, by simp [WellFormed], by simp [Promising]⟩
  | cons entry rest ih =>
    obtain ⟨after, taken, left, wellFormed, promising⟩ := ih (fun available next mem =>
      ready available next (mem_cons_of_mem entry mem))
    cases entry with
    | none =>
      refine ⟨none :: after, ?_, ?_, ?_, ?_⟩
      · simp only [takeAll, taken]
        rfl
      · simpa [queues, dropQueues] using left
      · simpa [WellFormed] using wellFormed
      · simpa [Promising] using promising
    | some state =>
      obtain ⟨available, inner⟩ := state
      obtain ⟨innerWellFormed, enough⟩ := ready available inner mem_cons_self
      obtain ⟨next, innerTaken, nextWellFormed, innerLeft, innerPromising⟩ :=
        InnerReader.take_cached_array innerWellFormed pos enough
      refine ⟨some next :: after, ?_, ?_, ?_, ?_⟩
      · simp only [takeAll, innerTaken, taken]
        rfl
      · simp only [queues, dropQueues, map_cons, Option.map_some, innerLeft] at left ⊢
        rw [left]
      · intro other mem
        rcases mem_cons.mp mem with same | mem
        · cases same
          exact nextWellFormed
        · exact wellFormed other mem
      · simp only [Promising, mem_cons, Option.some.injEq, Prod.mk.injEq] at promising ⊢
        constructor
        · rintro all _ _ (⟨rfl, rfl⟩ | mem)
          · exact innerPromising.mp (all next (Or.inl rfl))
          · exact promising.mp (fun other found => all other (Or.inr found)) _ _ mem
        · rintro all _ (rfl | mem)
          · exact innerPromising.mpr (all available inner (Or.inl ⟨rfl, rfl⟩))
          · exact promising.mpr (fun _ other found => all _ other (Or.inr found)) _ mem

/-- There is a reader, every batch has a valid row, and all readers have as many valid rows. -/
structure EndsWell (readers : List (Option (InnerReader Value))) : Prop where
  active : ∃ inner, some inner ∈ readers
  promising : Promising readers
  aligned : Aligned (queues readers)

inductive Called (reader : DataEvolutionFileReader Value) :
    Except String (Option (List (List (Option Value))) × DataEvolutionFileReader Value) → Prop
  | failed (error : String) (unfit : ¬ EndsWell reader.readers) : Called reader (.error error)
  | ended (next : DataEvolutionFileReader Value) (fit : EndsWell reader.readers)
      (empty : ∀ rows, some rows ∈ queues reader.readers → rows = []) :
      Called reader (.ok (none, next))
  | emitted (count : Nat) (readers : List (Option (InnerReader Value))) (positive : 0 < count)
      (wellFormed : WellFormed readers)
      (active : ∃ rows, some rows ∈ queues reader.readers)
      (enough : ∀ rows, some rows ∈ queues reader.readers → count ≤ rows.length)
      (left : queues readers = dropQueues count (queues reader.readers))
      (fit : EndsWell readers ↔ EndsWell reader.readers) :
      Called reader (.ok (some (reader.sources.map (column count
        (takeQueues count (queues reader.readers)))), { reader with readers := readers }))

section
variable (related : List.Forall₂ EnsuredAt readers ensured)
include related

theorem aligned_all_ended (aligned : Aligned (queues readers)) {ended next : InnerReader Value}
    {available : Bool}
    (isEnded : some (false, ended) ∈ ensured) (mem : some (available, next) ∈ ensured) :
    available = false := by
  obtain ⟨inner, found, holds⟩ := ensured_of_mem related isEnded
  obtain ⟨other, otherFound, otherHolds⟩ := ensured_of_mem related mem
  cases available with
  | false => rfl
  | true =>
    have same := aligned inner.pending other.pending (mem_queues.mpr ⟨inner, found, rfl⟩)
      (mem_queues.mpr ⟨other, otherFound, rfl⟩)
    rw [← holds.pending, (holds.ended rfl).1, ← otherHolds.pending] at same
    have cached := otherHolds.cached_pos
    have bound := next.cached_array_length_le
    simp only [length_nil] at same
    omega

theorem all_ended_fit (ended : ∀ available next, some (available, next) ∈ ensured →
    available = false) :
    Promising readers ∧ ∀ rows, some rows ∈ queues readers → rows = [] := by
  constructor
  · apply (promising_of_ensured related).mp
    intro available next mem
    obtain ⟨_, _, holds⟩ := ensured_of_mem related mem
    exact (holds.ended (ended available next mem)).2
  · intro rows mem
    obtain ⟨inner, found, rfl⟩ := mem_queues.mp mem
    obtain ⟨available, next, isEnsured, holds⟩ := mem_ensured related found
    rw [← holds.pending]
    exact (holds.ended (ended available next isEnsured)).1

theorem active_iff : (∃ inner, some inner ∈ readers) ↔ ensured.filterMap id ≠ [] := by
  constructor
  · rintro ⟨inner, mem⟩ nothing
    obtain ⟨available, next, found, _⟩ := mem_ensured related mem
    have isState : (available, next) ∈ ensured.filterMap id := mem_filterMap.mpr ⟨_, found, rfl⟩
    rw [nothing] at isState
    cases isState
  · intro something
    obtain ⟨⟨available, next⟩, isState⟩ := exists_mem_of_ne_nil _ something
    obtain ⟨inner, found, _⟩ := ensured_of_mem related (by simpa using isState)
    exact ⟨inner, found⟩

theorem takes_from_all (allAvailable : ∀ available next, some (available, next) ∈ ensured →
    available = true)
    {size count : Nat} (pos : 0 < size)
    (counted : count = arrayLength size (((ensured.filterMap id).filter Prod.fst).map Prod.snd)) :
    0 < count ∧ (∀ rows, some rows ∈ queues readers → count ≤ rows.length) ∧
      ∃ after, takeAll count ensured = .ok (takeQueues count (queues readers), after) ∧
        queues after = dropQueues count (queues readers) ∧ WellFormed after ∧
        (Promising after ↔ Promising readers) := by
  have listed : ∀ available next, some (available, next) ∈ ensured →
      next ∈ ((ensured.filterMap id).filter Prod.fst).map Prod.snd := by
    intro available next mem
    have isAvailable := allAvailable available next mem
    subst isAvailable
    exact mem_map.mpr ⟨(true, next), by simpa using mem, rfl⟩
  have countPos : 0 < count := by
    rw [counted]
    refine le_array_length_iff.mpr ⟨pos, ?_⟩
    intro next mem
    obtain ⟨⟨available, same⟩, isState, rfl⟩ := mem_map.mp mem
    obtain ⟨isState, isAvailable⟩ := mem_filter.mp isState
    have isTrue : available = true := isAvailable
    subst isTrue
    obtain ⟨_, _, holds⟩ := ensured_of_mem related (by simpa using isState)
    exact holds.cached_pos
  have enough : ∀ available next, some (available, next) ∈ ensured →
      next.WellFormed ∧ count ≤ next.cachedArrayLength := by
    intro available next mem
    obtain ⟨_, _, holds⟩ := ensured_of_mem related mem
    exact ⟨holds.wellFormed,
      (le_array_length_iff.mp (Nat.le_of_eq counted)).2 next (listed available next mem)⟩
  obtain ⟨after, taken, left, wellFormed, promising⟩ := take_all countPos enough
  rw [queues_of_ensured related] at taken left
  refine ⟨countPos, ?_, after, taken, left, wellFormed,
    promising.trans (promising_of_ensured related)⟩
  intro rows mem
  obtain ⟨inner, found, rfl⟩ := mem_queues.mp mem
  obtain ⟨available, next, isEnsured, holds⟩ := mem_ensured related found
  rw [← holds.pending]
  exact Nat.le_trans (enough available next isEnsured).2 next.cached_array_length_le

theorem none_available (aligned : Aligned (queues readers)) {ended : InnerReader Value}
    (isEnded : some (false, ended) ∈ ensured) : (ensured.filterMap id).filter Prod.fst = [] := by
  rw [filter_eq_nil_iff]
  rintro ⟨available, next⟩ mem
  have notAvailable := aligned_all_ended related aligned isEnded
    (show some (available, next) ∈ ensured by simpa using mem)
  simp [notAvailable]

end

theorem all_ended (nothing : (ensured.filterMap id).filter Prod.fst = []) :
    ∀ available next, some (available, next) ∈ ensured → available = false := by
  intro available next mem
  cases available with
  | false => rfl
  | true =>
    have isAvailable : (true, next) ∈ (ensured.filterMap id).filter Prod.fst := by
      simpa using mem
    rw [nothing] at isAvailable
    cases isAvailable

/-- A step that takes from every queue changes nothing about whether the readers fit. -/
theorem fit_of_taken {after : List (Option (InnerReader Value))} {count : Nat}
    (enough : ∀ rows, some rows ∈ queues readers → count ≤ rows.length)
    (left : queues after = dropQueues count (queues readers))
    (promising : Promising after ↔ Promising readers) : EndsWell after ↔ EndsWell readers := by
  have active : (∃ inner, some inner ∈ after) ↔ ∃ inner, some inner ∈ readers := by
    have lengths : ∀ list : List (Option (InnerReader Value)),
        (∃ inner, some inner ∈ list) ↔ ∃ rows, some rows ∈ queues list := fun list => by
      simp [queues]
    rw [lengths, lengths, left]
    simp [dropQueues]
  have aligned : Aligned (queues after) ↔ Aligned (queues readers) := by
    rw [left]
    exact aligned_drop enough
  constructor
  · intro fit
    exact ⟨active.mp fit.active, promising.mp fit.promising, aligned.mp fit.aligned⟩
  · intro fit
    exact ⟨active.mpr fit.active, promising.mpr fit.promising, aligned.mpr fit.aligned⟩

theorem next_batch_called (reader : DataEvolutionFileReader Value)
    (wellFormed : WellFormed reader.readers) (size : 0 < reader.readBatchSize) :
    Called reader reader.nextBatch := by
  unfold nextBatch
  rcases ensure_all_spec wellFormed with ⟨error, failed, unfit⟩ | ⟨ensured, done, related⟩
  · rw [failed]
    exact .failed error (fun fit => unfit fit.promising)
  · rw [done]
    dsimp only
    split
    · next noneActive =>
        exact .failed _ (fun fit =>
          (active_iff related).mp fit.active (isEmpty_iff.mp noneActive))
    · next someActive =>
        have active := (active_iff related).mpr (by simpa using someActive)
        split
        · next someEnded =>
            obtain ⟨⟨available, ended⟩, isState, isEnded⟩ := any_eq_true.mp someEnded
            have isFalse : available = false := by simpa using isEnded
            subst isFalse
            split
            · next noneAvailable =>
                obtain ⟨promising, empty⟩ :=
                  all_ended_fit related (all_ended (isEmpty_iff.mp noneAvailable))
                refine .ended _ ⟨active, promising, ?_⟩ empty
                intro left right leftMember rightMember
                rw [empty left leftMember, empty right rightMember]
            · next someAvailable =>
                refine .failed _ (fun fit => someAvailable ?_)
                rw [none_available related fit.aligned (by simpa using isState)]
                rfl
        · next noneEnded =>
            have allAvailable : ∀ available next, some (available, next) ∈ ensured →
                available = true := by
              intro available next mem
              cases available with
              | true => rfl
              | false =>
                refine absurd (any_eq_true.mpr ⟨(false, next), ?_, rfl⟩) noneEnded
                simpa using mem
            obtain ⟨pos, enough, after, taken, left, afterWellFormed, promising⟩ :=
              takes_from_all related allAvailable size rfl
            rw [taken]
            obtain ⟨inner, mem⟩ := active
            exact .emitted _ after pos afterWellFormed
              ⟨_, mem_queues.mpr ⟨inner, mem, rfl⟩⟩ enough left
              (fit_of_taken enough left promising)

def fieldColumn (batches : List (List (List (Option Value)))) (field : Nat) : List (Option Value) :=
  (batches.map (fun batch => batch.getD field [])).flatten

/-- The first `count` rows of every reader, and all rows if it ended without an error. -/
structure Zipped (queues : Queues Value) (sources : List FieldSource)
    (batches : List (List (List (Option Value)))) (ended : Prop) (count : Nat) : Prop where
  enough : ∀ rows, some rows ∈ queues → count ≤ rows.length
  all : ended → ∀ rows, some rows ∈ queues → count = rows.length
  columns : ∀ field source, sources[field]? = some source →
    fieldColumn batches field = column count (takeQueues count queues) source

theorem column_none (queues : Queues Value) (source : FieldSource) :
    column 0 (takeQueues 0 queues) source = [] := by
  cases source with
  | none => rfl
  | some place =>
    simp only [column, takeQueues, getElem?_map]
    cases queues[place.1]? with
    | none => rfl
    | some queue => cases queue <;> rfl

theorem Zipped.nothing {queues : Queues Value} {sources : List FieldSource} {ended : Prop}
    (all : ended → ∀ rows, some rows ∈ queues → rows = []) : Zipped queues sources [] ended 0 where
  enough _ _ := Nat.zero_le _
  all isEnd rows mem := by rw [all isEnd rows mem, length_nil]
  columns _ source _ := (column_none _ source).symm

theorem Zipped.emit {queues : Queues Value} {sources : List FieldSource}
    {batches : List (List (List (Option Value)))} {ended : Prop} {count later : Nat}
    (enough : ∀ rows, some rows ∈ queues → count ≤ rows.length)
    (zipped : Zipped (dropQueues count queues) sources batches ended later) :
    Zipped queues sources (sources.map (column count (takeQueues count queues)) :: batches) ended
      (count + later) := by
  have left : ∀ rows, some rows ∈ queues → some (rows.drop count) ∈ dropQueues count queues :=
    fun rows mem => mem_drop_queues.mpr ⟨rows, mem, rfl⟩
  constructor
  · intro rows mem
    have rest := zipped.enough _ (left rows mem)
    have least := enough rows mem
    rw [length_drop] at rest
    omega
  · intro isEnd rows mem
    have rest := zipped.all isEnd _ (left rows mem)
    have least := enough rows mem
    rw [length_drop] at rest
    omega
  · intro field source found
    rw [← column_append, ← zipped.columns field source found]
    simp [fieldColumn, found]

theorem drain_zips (fuel : Nat) (reader : DataEvolutionFileReader Value)
    (wellFormed : WellFormed reader.readers) (size : 0 < reader.readBatchSize)
    (someFuel : 0 < fuel)
    (enoughFuel : ∀ rows, some rows ∈ queues reader.readers → rows.length < fuel) :
    (drain fuel reader).2 ≠ none ∧
      ((drain fuel reader).2 = some (.ok ()) ↔ EndsWell reader.readers) ∧
      ∃ count, Zipped (queues reader.readers) reader.sources (drain fuel reader).1
        ((drain fuel reader).2 = some (.ok ())) count := by
  induction fuel generalizing reader with
  | zero => omega
  | succ fuel ih =>
    have called := next_batch_called reader wellFormed size
    unfold drain
    cases outcome : reader.nextBatch with
    | error error =>
      rw [outcome] at called
      cases called with
      | failed _ unfit =>
        exact ⟨nofun, ⟨nofun, fun fit => absurd fit unfit⟩, 0, Zipped.nothing nofun⟩
    | ok result =>
      rw [outcome] at called
      cases called with
      | ended next fit empty =>
        exact ⟨nofun, ⟨fun _ => fit, fun _ => rfl⟩, 0, Zipped.nothing fun _ => empty⟩
      | emitted count readers pos readersWellFormed active enough left fit =>
        -- The rows left are fewer, so the fuel suffices for the rest.
        have fewer : ∀ rows, some rows ∈ queues readers → rows.length < fuel := by
          intro rows mem
          rw [left] at mem
          obtain ⟨whole, found, rfl⟩ := mem_drop_queues.mp mem
          have bound := enoughFuel whole found
          have least := enough whole found
          rw [length_drop]
          omega
        have stillFuel : 0 < fuel := by
          obtain ⟨rows, mem⟩ := active
          have bound := enoughFuel rows mem
          have least := enough rows mem
          omega
        obtain ⟨comesToEnd, ends, later, zipped⟩ := ih { reader with readers := readers }
          readersWellFormed size stillFuel fewer
        rw [left] at zipped
        exact ⟨comesToEnd, ends.trans fit, count + later, zipped.emit enough⟩

def readerRows (batches : List (Batch Value)) : List (InnerRow Value) :=
  (batches.map validRows).flatten

/-- The value of a read field in a row: that of its assigned reader, null without one. -/
def assignedCell (inputs : List (Option (List (Batch Value)))) : FieldSource → Nat → Option Value
  | none, _ => none
  | some (reader, field), row =>
    (readerRows ((inputs[reader]?.join).getD []))[row]?.bind (fun cells => cells[field]?.join)

def innerReaders (inputs : List (Option (List (Batch Value)))) :
    List (Option (InnerReader Value)) :=
  inputs.map (Option.map (fun batches => { batches := batches }))

section
variable (inputs : List (Option (List (Batch Value))))
include inputs

theorem queues_inner_readers :
    queues (innerReaders inputs) = inputs.map (Option.map readerRows) := by
  simp only [queues, innerReaders, map_map, Option.map_comp_map]
  rfl

theorem inner_readers_well_formed : WellFormed (innerReaders inputs) := by
  intro inner mem
  obtain ⟨input, _, same⟩ := mem_map.mp mem
  cases input with
  | none => cases same
  | some batches =>
    cases same
    exact ⟨by simp, by simp⟩

theorem ends_well_iff : EndsWell (innerReaders inputs) ↔ (∃ batches, some batches ∈ inputs) ∧
      (∀ batches, some batches ∈ inputs → ∀ batch ∈ batches, HasValidRow batch) ∧
      ∀ left right, some left ∈ inputs → some right ∈ inputs →
        (readerRows left).length = (readerRows right).length := by
  have activeIff : (∃ inner, some inner ∈ innerReaders inputs) ↔
      ∃ batches, some batches ∈ inputs := by
    simp [innerReaders]
  have promisingIff : Promising (innerReaders inputs) ↔
      ∀ batches, some batches ∈ inputs → ∀ batch ∈ batches, HasValidRow batch := by
    simp [Promising, innerReaders, InnerReader.Promising]
  have alignedIff : Aligned (queues (innerReaders inputs)) ↔
      ∀ left right, some left ∈ inputs → some right ∈ inputs →
        (readerRows left).length = (readerRows right).length := by
    rw [queues_inner_readers]
    simp only [Aligned, mem_map, Option.map_eq_some_iff]
    constructor
    · intro aligned left right leftMember rightMember
      exact aligned _ _ ⟨_, leftMember, left, rfl, rfl⟩ ⟨_, rightMember, right, rfl, rfl⟩
    · rintro aligned _ _ ⟨_, leftMember, left, rfl, rfl⟩ ⟨_, rightMember, right, rfl, rfl⟩
      exact aligned left right leftMember rightMember
  rw [← activeIff, ← promisingIff, ← alignedIff]
  constructor
  · intro fit
    exact ⟨fit.active, fit.promising, fit.aligned⟩
  · intro parts
    exact ⟨parts.1, parts.2.1, parts.2.2⟩

end

theorem create_ok {readFieldCount size : Nat} {readerOffsets : List (Option Nat)}
    {fieldOffsets : List Nat} {reader : DataEvolutionFileReader Value}
    (created : create readers readFieldCount size readerOffsets fieldOffsets = .ok reader) :
    reader = ⟨readers, size, List.zipWith
      (fun offset field => offset.map (fun index => (index, field))) readerOffsets
        fieldOffsets⟩ := by
  unfold create at created
  split at created
  · cases created
  · split at created
    · cases created
    · split at created
      · cases created
      · split at created <;> cases created
        rfl

theorem column_cells (inputs : List (Option (List (Batch Value)))) (count : Nat)
    (source : FieldSource) (assigned : ∀ place, source = some place →
      ∃ batches, inputs[place.1]? = some (some batches) ∧ count ≤ (readerRows batches).length) :
    column count (takeQueues count (queues (innerReaders inputs))) source =
      (List.range count).map (assignedCell inputs source) := by
  rw [queues_inner_readers]
  cases source with
  | none =>
    apply ext_getElem
    · simp [column]
    · intro row _ _
      simp [column, assignedCell]
  | some place =>
    obtain ⟨reader, field⟩ := place
    obtain ⟨batches, found, enough⟩ := assigned (reader, field) rfl
    simp only [column, takeQueues, getElem?_map, found, Option.map_some, Option.join_some,
      Option.getD_some]
    apply ext_getElem
    · simp [enough]
    · intro row _ bound
      have inside : row < (readerRows batches).length := by
        simp only [length_map, length_range] at bound
        omega
      simp [assignedCell, found, inside]

/-- With enough calls the reader comes to an end. It ends without an error exactly if there is
an inner reader, every batch has a valid row and all readers have the same number of valid
rows; and whether or not it does, row `i` of the output has for each field the value of the
`i`-th valid row of the field's reader. -/
theorem field_union_zips_readers (inputs : List (Option (List (Batch Value))))
    (readFieldCount size : Nat) (positive : 0 < size) (readerOffsets : List (Option Nat))
    (fieldOffsets : List Nat) (reader : DataEvolutionFileReader Value)
    (created : create (innerReaders inputs) readFieldCount size readerOffsets fieldOffsets =
      .ok reader)
    (assigned : ∀ index, some index ∈ readerOffsets → ∃ batches, inputs[index]? =
      some (some batches)) :
    ∃ enough, ∀ fuel, enough ≤ fuel → (drain fuel reader).2 ≠ none ∧
      ((drain fuel reader).2 = some (.ok ()) ↔ (∃ batches, some batches ∈ inputs) ∧
        (∀ batches, some batches ∈ inputs → ∀ batch ∈ batches, HasValidRow batch) ∧
        ∀ left right, some left ∈ inputs → some right ∈ inputs →
          (readerRows left).length = (readerRows right).length) ∧ ∃ count,
        (∀ batches, some batches ∈ inputs → count ≤ (readerRows batches).length ∧
          ((drain fuel reader).2 = some (.ok ()) → count = (readerRows batches).length)) ∧
        ∀ field offset fieldOffset, readerOffsets[field]? = some offset →
          fieldOffsets[field]? = some fieldOffset → fieldColumn (drain fuel reader).1 field =
            (List.range count).map
              (assignedCell inputs (offset.map (fun index => (index, fieldOffset)))) := by
  have made := create_ok created
  subst made
  have inQueues : ∀ batches, some batches ∈ inputs →
      some (readerRows batches) ∈ queues (innerReaders inputs) := by
    intro batches member
    rw [queues_inner_readers]
    exact mem_map.mpr ⟨some batches, member, rfl⟩
  refine ⟨((inputs.filterMap id).map readerRows).flatten.length + 1, ?_⟩
  intro fuel enoughFuel
  have drained := drain_zips fuel ⟨innerReaders inputs, size, List.zipWith
    (fun offset field => offset.map (fun index => (index, field))) readerOffsets fieldOffsets⟩
    (inner_readers_well_formed inputs) positive (by omega) (by
      intro rows member
      rw [queues_inner_readers] at member
      obtain ⟨input, found, same⟩ := mem_map.mp member
      obtain ⟨batches, rfl, rfl⟩ := Option.map_eq_some_iff.mp same
      have bound :
          (readerRows batches).length ≤ ((inputs.filterMap id).map readerRows).flatten.length :=
        (sublist_flatten_of_mem (mem_map.mpr ⟨batches, by simpa using found, rfl⟩)).length_le
      omega)
  obtain ⟨comesToEnd, ends, count, zipped⟩ := drained
  refine ⟨comesToEnd, ends.trans (ends_well_iff inputs), count, ?_, ?_⟩
  · intro batches member
    exact ⟨zipped.enough _ (inQueues batches member), fun ended =>
      zipped.all ended _ (inQueues batches member)⟩
  · intro field offset fieldOffset offsetAt fieldAt
    rw [zipped.columns field (offset.map (fun index => (index, fieldOffset)))
      (by simp [getElem?_zipWith, offsetAt, fieldAt])]
    apply column_cells
    rintro ⟨index, other⟩ same
    obtain ⟨index, rfl, pair⟩ := Option.map_eq_some_iff.mp same
    cases pair
    obtain ⟨batches, found⟩ := assigned index (mem_of_getElem? offsetAt)
    exact ⟨batches, found, zipped.enough _ (inQueues batches (mem_of_getElem? found))⟩

/-- Other batch boundaries, rows that are not valid, and a field that no file has. -/
def unevenInputs : List (Option (List (Batch Nat))) :=
  [some [[([some 1], true), ([some 9], false), ([some 2], true)], [([some 3], true)]], none,
    some [[([some 10, some 11], true)], [([some 20, some 21], true), ([some 30, some 31], true)]]]

theorem uneven_batches_zipped :
    ∃ reader, create (innerReaders unevenInputs) 3 2 [some 2, none, some 0] [1, 0, 0] = .ok reader ∧
      ∃ fuel, (drain fuel reader).2 = some (.ok ()) ∧
        fieldColumn (drain fuel reader).1 0 = [some 11, some 21, some 31] := by
  refine ⟨_, rfl, ?_⟩
  obtain ⟨fuel, ends⟩ := field_union_zips_readers unevenInputs 3 2 (by decide)
    [some 2, none, some 0] [1, 0, 0] _ rfl (by simp [unevenInputs])
  obtain ⟨_, well, count, counted, columns⟩ := ends fuel (Nat.le_refl fuel)
  have ended := well.mpr (by
    refine ⟨⟨_, mem_cons_self⟩, ?_, ?_⟩
    · intro batches member
      simp only [unevenInputs, mem_cons, Option.some.injEq, reduceCtorEq, not_mem_nil,
        or_false, false_or] at member
      rcases member with rfl | rfl <;> decide
    · intro left right leftMember rightMember
      simp only [unevenInputs, mem_cons, Option.some.injEq, reduceCtorEq, not_mem_nil,
        or_false, false_or] at leftMember rightMember
      rcases leftMember with rfl | rfl <;> rcases rightMember with rfl | rfl <;> rfl)
  have three : count = 3 := (counted _ (mem_cons_self)).2 ended
  refine ⟨fuel, ended, ?_⟩
  rw [columns 0 (some 2) 1 rfl rfl, three]
  rfl

/-- A batch without a valid row stands between two others. -/
def emptiedInputs : List (Option (List (Batch Nat))) :=
  [some [[([some 1], true)], [([some 9], false)], [([some 2], true)]],
    some [[([some 10], true), ([some 20], true)]]]

/-- Such a batch ends the read with an error, though both readers have two valid rows; and so
does a read without an inner reader. -/
theorem batch_without_valid_row_fails :
    (∀ left right, some left ∈ emptiedInputs → some right ∈ emptiedInputs →
        (readerRows left).length = (readerRows right).length) ∧
      (∃ reader, create (innerReaders emptiedInputs) 2 4 [some 0, some 1] [0, 0] = .ok reader ∧
        ∀ fuel, (drain (fuel + 2) reader).2 =
          some (.error "selection bitmap cannot be empty in GenerateFilteredArrayVector")) ∧
      ∃ reader, create (innerReaders ([none] : List (Option (List (Batch Nat))))) 1 4 [none] [0] =
          .ok reader ∧ ∀ fuel, (drain (fuel + 1) reader).2 =
          some (.error "data evolution reader has no active inner reader") := by
  refine ⟨?_, ⟨_, rfl, fun fuel => rfl⟩, _, rfl, fun fuel => rfl⟩
  intro left right leftMember rightMember
  simp only [emptiedInputs, mem_cons, Option.some.injEq, not_mem_nil, or_false]
    at leftMember rightMember
  rcases leftMember with rfl | rfl <;> rcases rightMember with rfl | rfl <;> rfl

end DataEvolutionFileReader

end PaimonCore.DataEvolution

import PaimonCore.Library.LinkedHashMap

/-!
# Logs of additions and deletions

In a valid log an identifier is added at most once and deleted at most once, the deletion last;
the addition may lie before the log begins. The net of a log leaves out every addition whose
deletion follows. Replacing a contiguous stretch of a valid log by its net changes neither
validity nor the net of the whole.
-/

namespace PaimonCore.ChangeLog

open List

inductive Change where
  | add
  | delete
  deriving DecidableEq, Repr

variable {Entry Identifier : Type*} [DecidableEq Identifier]
variable (change : Entry → Change) (identify : Entry → Identifier)

def entriesOf (identifier : Identifier) (log : List Entry) : List Entry :=
  log.filter (fun entry => identify entry = identifier)

def ValidRun (run : List Entry) : Prop := (run.map change).Sublist [.add, .delete]

def Valid (log : List Entry) : Prop :=
  ∀ identifier, ValidRun change (entriesOf identify identifier log)

def cancel : List Entry → List Entry
  | [first, second] =>
    if change first = .add ∧ change second = .delete then [] else [first, second]
  | run => run

/-- `net` holds, for every identifier, what remains of `log` after cancelling. -/
def IsNet (net log : List Entry) : Prop :=
  ∀ identifier, entriesOf identify identifier net =
    cancel change (entriesOf identify identifier log)

section
variable {change} {run : List Entry}

theorem valid_run_cases (valid : ValidRun change run) : run = [] ∨ (∃ entry, run = [entry]) ∨
      ∃ added deleted, run = [added, deleted] ∧ change added = .add ∧ change deleted = .delete := by
  have short := valid.length_le
  match run, valid, short with
  | [], _, _ => exact Or.inl rfl
  | [entry], _, _ => exact Or.inr (Or.inl ⟨entry, rfl⟩)
  | [added, deleted], valid, _ =>
    have whole := valid.eq_of_length (by rfl)
    simp only [map_cons, map_nil, List.cons.injEq, and_true] at whole
    exact Or.inr (Or.inr ⟨added, deleted, rfl, whole.1, whole.2⟩)
  | _ :: _ :: _ :: _, _, short => simp at short

theorem valid_run_sublist {part : List Entry} (valid : ValidRun change run)
    (sub : part.Sublist run) : ValidRun change part :=
  (sub.map change).trans valid

/-- Cancelling inside a valid run does not change what the whole run cancels to. -/
theorem cancel_inside {earlier later : List Entry}
    (valid : ValidRun change (earlier ++ run ++ later)) :
    ValidRun change (earlier ++ cancel change run ++ later) ∧
      cancel change (earlier ++ cancel change run ++ later) =
        cancel change (earlier ++ run ++ later) := by
  have runValid : ValidRun change run :=
    valid_run_sublist valid (by
      rw [append_assoc]
      exact ((sublist_append_left run later).trans (sublist_append_right _ _)))
  rcases valid_run_cases runValid with rfl | ⟨entry, rfl⟩ | ⟨added, deleted, rfl, isAdd, isDelete⟩
  · exact ⟨valid, rfl⟩
  · exact ⟨valid, rfl⟩
  · have bound := valid.length_le
    simp only [length_map, length_append, length_cons, length_nil] at bound
    have noEarlier : earlier = [] := eq_nil_of_length_eq_zero (by omega)
    have noLater : later = [] := eq_nil_of_length_eq_zero (by omega)
    subst noEarlier noLater
    simp [cancel, isAdd, isDelete, ValidRun]

theorem valid_run_append_add {entry : Entry} (isAdd : change entry = .add)
    (valid : ValidRun change (run ++ [entry])) : run = [] := by
  rcases valid_run_cases valid with none | ⟨single, one⟩ | ⟨added, deleted, two, _, isDelete⟩
  · simp at none
  · cases run with
    | nil => rfl
    | cons head tail => simp at one
  · have last : entry = deleted := by
      have lasts := congrArg List.getLast? two
      simpa using lasts
    rw [last, isDelete] at isAdd
    cases isAdd

theorem valid_run_append {entry : Entry} (valid : ValidRun change (run ++ [entry])) :
    run = [] ∨ ∃ added, run = [added] ∧ change added = .add := by
  rcases valid_run_cases valid with none | ⟨single, one⟩ | ⟨added, deleted, two, isAdd, _⟩
  · simp at none
  · cases run with
    | nil => exact Or.inl rfl
    | cons head tail => simp at one
  · have fronts := congrArg List.dropLast two
    simp only [dropLast_concat] at fronts
    exact Or.inr ⟨added, fronts, isAdd⟩

end

section
variable {change identify}

@[simp] theorem entries_of_append (identifier : Identifier) (left right : List Entry) :
    entriesOf identify identifier (left ++ right) =
      entriesOf identify identifier left ++ entriesOf identify identifier right :=
  filter_append ..

theorem entries_of_singleton (identifier : Identifier) (entry : Entry) :
    entriesOf identify identifier [entry] =
      if identify entry = identifier then [entry] else [] := by
  by_cases same : identify entry = identifier <;> simp [entriesOf, same]

variable {log : List Entry}

theorem mem_entries_of {identifier : Identifier} {entry : Entry} :
    entry ∈ entriesOf identify identifier log ↔ entry ∈ log ∧ identify entry = identifier := by
  simp [entriesOf]

theorem valid_sublist {part : List Entry} (valid : Valid change identify log)
    (sub : part.Sublist log) : Valid change identify part :=
  fun identifier => valid_run_sublist (valid identifier) (sub.filter _)

theorem mem_of_mem_cancel {run : List Entry} {entry : Entry} (mem : entry ∈ cancel change run) :
    entry ∈ run := by
  unfold cancel at mem
  split at mem
  · split at mem
    · cases mem
    · exact mem
  · exact mem

variable {net : List Entry}

theorem IsNet.mem_of_mem (isNet : IsNet change identify net log) {entry : Entry}
    (mem : entry ∈ net) : entry ∈ log := by
  have among : entry ∈ entriesOf identify (identify entry) net := mem_entries_of.mpr ⟨mem, rfl⟩
  rw [isNet] at among
  exact (mem_entries_of.mp (mem_of_mem_cancel among)).1

/-- Two valid logs with the same net, nothing new in the second. -/
structure Agree (change : Entry → Change) (identify : Entry → Identifier) (log log' : List Entry) :
    Prop where
  valid : Valid change identify log'
  members : ∀ entry ∈ log', entry ∈ log
  sameNet : ∀ identifier, cancel change (entriesOf identify identifier log') =
    cancel change (entriesOf identify identifier log)

theorem Agree.refl (valid : Valid change identify log) :
    Agree change identify log log := ⟨valid, fun _ mem => mem, fun _ => rfl⟩

theorem Agree.trans {first second third : List Entry}
    (lower : Agree change identify first second) (upper : Agree change identify second third) :
    Agree change identify first third :=
  ⟨upper.valid, fun entry mem => lower.members entry (upper.members entry mem),
    fun identifier => (upper.sameNet identifier).trans (lower.sameNet identifier)⟩

/-- A stretch of a valid log may be replaced by its net. -/
theorem agree_replace_stretch {earlier stretch later : List Entry}
    (valid : Valid change identify (earlier ++ stretch ++ later))
    (isNet : IsNet change identify net stretch) :
    Agree change identify (earlier ++ stretch ++ later) (earlier ++ net ++ later) := by
  have both :
      ∀ identifier, ValidRun change (entriesOf identify identifier (earlier ++ net ++ later)) ∧
      cancel change (entriesOf identify identifier (earlier ++ net ++ later)) =
        cancel change (entriesOf identify identifier (earlier ++ stretch ++ later)) := by
    intro identifier
    have run := valid identifier
    simp only [entries_of_append] at run ⊢
    rw [isNet identifier]
    exact cancel_inside run
  have members : ∀ entry ∈ earlier ++ net ++ later, entry ∈ earlier ++ stretch ++ later := by
    intro entry mem
    simp only [mem_append] at mem ⊢
    rcases mem with (isEarlier | isNet') | isLater
    · exact .inl (.inl isEarlier)
    · exact .inl (.inr (isNet.mem_of_mem isNet'))
    · exact .inr isLater
  exact ⟨fun identifier => (both identifier).1, members, fun identifier => (both identifier).2⟩

def Reduces (change : Entry → Change) (identify : Entry → Identifier) (log log' : List Entry) :
    Prop :=
  ∀ earlier later, Valid change identify (earlier ++ log ++ later) →
    Agree change identify (earlier ++ log ++ later) (earlier ++ log' ++ later)

theorem Reduces.refl (log : List Entry) : Reduces change identify log log :=
  fun _ _ valid => Agree.refl valid

theorem IsNet.reduces (isNet : IsNet change identify net log) : Reduces change identify log net :=
  fun _ _ valid => agree_replace_stretch valid isNet

theorem Reduces.trans {first second third : List Entry}
    (lower : Reduces change identify first second)
    (upper : Reduces change identify second third) : Reduces change identify first third := by
  intro earlier later valid
  have step := lower earlier later valid
  exact step.trans (upper earlier later step.valid)

theorem Reduces.append {left left' right right' : List Entry}
    (leftReduces : Reduces change identify left left')
    (rightReduces : Reduces change identify right right') :
    Reduces change identify (left ++ right) (left' ++ right') := by
  intro earlier later valid
  have split : earlier ++ (left ++ right) ++ later = earlier ++ left ++ (right ++ later) := by
    simp only [append_assoc]
  rw [split] at valid ⊢
  have first := leftReduces earlier (right ++ later) valid
  have regroup : earlier ++ left' ++ (right ++ later) = (earlier ++ left') ++ right ++ later := by
    simp only [append_assoc]
  rw [regroup] at first
  have second := rightReduces (earlier ++ left') later first.valid
  have whole := first.trans second
  rwa [append_assoc earlier left' right'] at whole

theorem Reduces.agree {log' : List Entry} (reduces : Reduces change identify log log')
    (valid : Valid change identify log) : Agree change identify log log' := by
  have alone := reduces [] [] (by simpa using valid)
  simpa using alone

theorem IsNet.mem_iff {net log : List Entry} (isNet : IsNet change identify net log)
    (entry : Entry) :
    entry ∈ net ↔ entry ∈ cancel change (entriesOf identify (identify entry) log) := by
  rw [← isNet (identify entry), mem_entries_of]
  simp

theorem valid_iff_of_members : Valid change identify log ↔
      ∀ entry ∈ log, ValidRun change (entriesOf identify (identify entry) log) := by
  constructor
  · exact fun valid entry _ => valid (identify entry)
  · intro members identifier
    by_cases occurs : ∃ entry ∈ log, identify entry = identifier
    · obtain ⟨entry, mem, rfl⟩ := occurs
      exact members entry mem
    · have absent : entriesOf identify identifier log = [] := by
        rw [eq_nil_iff_forall_not_mem]
        intro entry mem
        exact occurs ⟨entry, mem_entries_of.mp mem⟩
      rw [absent]
      exact nil_sublist _

instance (run : List Entry) : Decidable (ValidRun change run) :=
  inferInstanceAs (Decidable ((run.map change).Sublist [.add, .delete]))

instance (log : List Entry) : Decidable (Valid change identify log) :=
  decidable_of_iff _ valid_iff_of_members.symm

end

end PaimonCore.ChangeLog

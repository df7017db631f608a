import PaimonCore.MergeTree.AggregateLaws

/-!
# Groups of strings

`listagg` leaves blank strings out. With `distinct` a text is read back as its tokens, which for a
delimiter of one character are the tokens it was put together from.
-/

namespace PaimonCore.Aggregate

open List

theorem is_blank_append_of_left {left right : List Char} (filled : isBlank left = false) :
    isBlank (left ++ right) = false := by
  rw [isBlank, all_append]
  rw [isBlank] at filled
  rw [filled, Bool.false_and]

def Filled (value : Variant) : Prop := value = .null ∨ isBlank (getText value) = false

theorem blank_null : isBlank (getText .null) = true := rfl

section
variable {delimiter : List Char} {nodup : Bool} {input : Variant}

theorem listagg_blank (blank : isBlank (getText input) = true)
    (acc : Variant) : listaggMerge delimiter nodup acc input = acc := by
  rw [listaggMerge, if_pos blank, ite_self]

theorem listagg_first (filled : isBlank (getText input) = false)
    {acc : Variant} (blank : isBlank (getText acc) = true) :
    listaggMerge delimiter nodup acc input = input := by
  have given : input.isNull = false := by
    cases input <;> first | rfl | cases filled
  simp [listaggMerge, given, filled, blank]

def joined (delimiter : List Char) (distinct : Bool) (accStr inStr : List Char) : List Char :=
  if distinct then aggDistinctImpl delimiter accStr inStr else accStr ++ delimiter ++ inStr

theorem listagg_joined {acc : Variant} (accumulated : isBlank (getText acc) = false)
    (filled : isBlank (getText input) = false) :
    listaggMerge delimiter nodup acc input =
      .text (joined delimiter nodup (getText acc) (getText input)) := by
  have given : input.isNull = false := by
    cases input <;> first | rfl | cases filled
  have present : acc.isNull = false := by
    cases acc <;> first | rfl | cases accumulated
  cases nodup <;> simp [listaggMerge, joined, given, present, accumulated, filled]

theorem joined_filled {accStr : List Char} (filled : isBlank accStr = false) (inStr : List Char) :
    isBlank (joined delimiter nodup accStr inStr) = false := by
  rw [joined]
  split
  · exact is_blank_append_of_left filled
  · rw [append_assoc]
    exact is_blank_append_of_left filled

theorem listagg_associates
    (assoc :
      ∀ first second third, joined delimiter nodup (joined delimiter nodup first second) third =
      joined delimiter nodup first (joined delimiter nodup second third)) :
    Associates (listaggMerge delimiter nodup) Filled anyValue where
  null := .inl rfl
  allows := fun _ _ => trivial
  keeps := by
    intro acc input isSettled _
    cases blank : isBlank (getText input) with
    | true => rwa [listagg_blank blank]
    | false =>
      rcases isSettled with rfl | filled
      · rw [listagg_first blank blank_null]
        exact .inr blank
      · rw [listagg_joined filled blank]
        exact .inr (joined_filled filled _)
  first := by
    intro acc input _ _
    cases blank : isBlank (getText input) with
    | true => rw [listagg_blank blank, listagg_blank blank, listagg_blank blank_null]
    | false => rw [listagg_first blank blank_null]
  assoc := by
    intro acc group input isSettled groupSettled _
    cases blank : isBlank (getText input) with
    | true => rw [listagg_blank blank, listagg_blank blank]
    | false =>
      rcases groupSettled with rfl | groupFilled
      · rw [listagg_blank blank_null, listagg_first blank blank_null]
      · have grownFilled : isBlank (getText (.text (joined delimiter nodup (getText group)
            (getText input)))) = false := joined_filled groupFilled _
        rw [listagg_joined groupFilled blank]
        rcases isSettled with rfl | filled
        · rw [listagg_first groupFilled blank_null, listagg_joined groupFilled blank,
            listagg_first grownFilled blank_null]
        · have middleFilled : isBlank (getText (.text (joined delimiter nodup
              (getText acc) (getText group)))) = false := joined_filled filled _
          rw [listagg_joined filled groupFilled, listagg_joined middleFilled blank,
            listagg_joined filled grownFilled]
          exact congrArg Variant.text (assoc _ _ _)

end

variable {token : List Char}

section
variable {separator : Char}

theorem split_on_cons (char : Char) (rest : List Char) : (char :: rest).splitOn separator =
      if char == separator then [] :: rest.splitOn separator
      else (rest.splitOn separator).modifyHead (char :: ·) :=
  splitOnP_cons_eq_if_modifyHead char rest

theorem split_first_pieces (text : List Char) :
    text.splitOn separator = match splitFirst [separator] text with
      | (token, none) => [token]
      | (token, some rest) => token :: rest.splitOn separator := by
  induction text with
  | nil => rfl
  | cons char rest ih =>
    rw [split_on_cons, splitFirst]
    by_cases isSeparator : char = separator
    · subst isSeparator
      simp
    · have noPrefix : ([separator] : List Char).isPrefixOf (char :: rest) = false := by
        simp [List.isPrefixOf, Ne.symm isSeparator]
      have other : (char == separator) = false := beq_eq_false_iff_ne.mpr isSeparator
      rw [other, noPrefix, ih]
      rcases splitFirst [separator] rest with ⟨token, _ | remaining⟩ <;> rfl

theorem split_first_shorter {text rest : List Char}
    (split : splitFirst [separator] text = (token, some rest)) : rest.length < text.length := by
  induction text generalizing token with
  | nil => cases split
  | cons char later ih =>
    rw [splitFirst] at split
    split at split
    · cases split
      simp
    · rcases found : splitFirst [separator] later with ⟨first, remaining⟩
      rw [found] at split
      cases split
      have shorter := ih found
      rw [length_cons]
      omega

theorem tokens_from_eq (fuel : Nat) (text : List Char) (enough : text.length ≤ fuel) :
    tokensFrom [separator] fuel text = text.splitOn separator := by
  induction fuel generalizing text with
  | zero =>
    have isEmpty : text = [] := length_eq_zero_iff.mp (Nat.le_zero.mp enough)
    rw [isEmpty]
    rfl
  | succ fuel ih =>
    rw [tokensFrom, split_first_pieces text]
    rcases found : splitFirst [separator] text with ⟨token, _ | rest⟩
    · rfl
    · have shorter := split_first_shorter found
      exact congrArg (token :: ·) (ih rest (by omega))

theorem tokens_eq (text : List Char) : tokens [separator] text = text.splitOn separator :=
  tokens_from_eq _ text (Nat.le_refl _)

theorem mem_split_on {text : List Char} (mem : token ∈ text.splitOn separator) :
    separator ∉ token := by
  induction text generalizing token with
  | nil => simp_all [List.splitOn]
  | cons char rest ih =>
    rw [split_on_cons] at mem
    split at mem
    · rcases mem_cons.mp mem with rfl | later
      · simp
      · exact ih later
    · next other =>
        cases pieces : rest.splitOn separator with
        | nil => simp [pieces] at mem
        | cons head later =>
          rw [pieces] at mem ih
          rcases mem_cons.mp mem with rfl | inLater
          · have headClear := ih mem_cons_self
            intro inside
            rcases mem_cons.mp inside with isChar | inHead
            · exact other (by simp [isChar])
            · exact headClear inHead
          · exact ih (mem_cons_of_mem _ inLater)

theorem split_on_appended (text : List Char) {added : List (List Char)}
    (clear : ∀ token ∈ added, separator ∉ token) :
    (text ++ added.flatMap ([separator] ++ ·)).splitOn separator =
      text.splitOn separator ++ added := by
  induction added generalizing text with
  | nil => simp
  | cons token rest ih =>
    have shape : text ++ (token :: rest).flatMap ([separator] ++ ·) =
        (text ++ separator :: token) ++ rest.flatMap ([separator] ++ ·) := by
      simp [flatMap_cons, append_assoc]
    rw [shape, ih _ (forall_mem_cons.mp clear).2,
      splitOn_append_cons_self, splitOn_eq_singleton (clear token mem_cons_self), append_assoc,
      singleton_append]

end

section

theorem mem_of_new_tokens {seen input : List (List Char)}
    (mem : token ∈ newTokens seen input) : token ∈ input := by
  induction input generalizing seen with
  | nil => exact mem
  | cons head rest ih =>
    rw [newTokens] at mem
    split at mem
    · rcases mem_cons.mp mem with rfl | later
      · exact mem_cons_self
      · exact mem_cons_of_mem _ (ih later)
    · exact mem_cons_of_mem _ (ih mem)

theorem new_tokens_congr {seen other : List (List Char)} (input : List (List Char))
    (alike : ∀ token, token ∈ seen ↔ token ∈ other) :
    newTokens seen input = newTokens other input := by
  induction input generalizing seen other with
  | nil => rfl
  | cons head rest ih =>
    have sameTest : seen.contains head = other.contains head := by
      simp [alike head]
    have grownAlike : ∀ token, token ∈ head :: seen ↔ token ∈ head :: other := by simp [alike]
    rw [newTokens, newTokens, sameTest, ih alike, ih grownAlike]

theorem new_tokens_append (seen first second : List (List Char)) :
    newTokens seen (first ++ second) =
      newTokens seen first ++ newTokens (seen ++ newTokens seen first) second := by
  induction first generalizing seen with
  | nil => simp [newTokens]
  | cons head rest ih =>
    rw [cons_append, newTokens, newTokens]
    split
    · rw [ih]
      congr 2
      exact new_tokens_congr second (by simp [or_left_comm])
    · exact ih seen

theorem new_tokens_of_new {known seen : List (List Char)} (input : List (List Char))
    (covered : ∀ token ∈ known, isBlank token = false → token ∈ seen) :
    newTokens seen (newTokens known input) = newTokens seen input := by
  induction input generalizing known seen with
  | nil => rfl
  | cons head rest ih =>
    rw [newTokens, newTokens.eq_2 seen]
    by_cases blank : isBlank head = true
    · simp only [blank, Bool.not_true, Bool.false_and, Bool.false_eq_true, if_false]
      exact ih covered
    · have filled : isBlank head = false := Bool.eq_false_iff.mpr blank
      by_cases isKnown : head ∈ known
      · have isSeen := covered head isKnown filled
        simp only [filled, contains_iff_mem.mpr isKnown, contains_iff_mem.mpr isSeen,
          Bool.not_true, Bool.and_false, Bool.false_eq_true, if_false]
        exact ih covered
      · have notKnown : known.contains head = false := by simpa using isKnown
        simp only [filled, notKnown, Bool.not_false, Bool.and_self, if_true]
        rw [newTokens]
        have grownCovered : ∀ token ∈ head :: known, isBlank token = false →
            token ∈ head :: seen := by
          intro token mem tokenFilled
          rcases mem_cons.mp mem with rfl | later
          · exact mem_cons_self
          · exact mem_cons_of_mem _ (covered token later tokenFilled)
        by_cases isSeen : head ∈ seen
        · have seenCovered : ∀ token ∈ head :: known, isBlank token = false → token ∈ seen := by
            intro token mem tokenFilled
            rcases mem_cons.mp (grownCovered token mem tokenFilled) with rfl | inSeen
            · exact isSeen
            · exact inSeen
          simp only [filled, contains_iff_mem.mpr isSeen, Bool.not_true, Bool.and_false,
            Bool.false_eq_true, if_false]
          exact ih seenCovered
        · have notSeen : seen.contains head = false := by simpa using isSeen
          simp only [filled, notSeen, Bool.not_false, Bool.and_self, if_true]
          rw [ih grownCovered]

theorem covered_by_new {seen input : List (List Char)} (mem : token ∈ input)
    (filled : isBlank token = false) : token ∈ seen ++ newTokens seen input := by
  induction input generalizing seen with
  | nil => cases mem
  | cons head rest ih =>
    rw [newTokens]
    split
    · rcases mem_cons.mp mem with rfl | later
      · simp
      · grind
    · next known =>
        rcases mem_cons.mp mem with rfl | later
        · have isSeen : token ∈ seen := by
            by_contra notSeen
            exact known (by simp [filled, notSeen])
          exact mem_append_left _ isSeen
        · exact ih later

end

theorem agg_distinct_eq (separator : Char) (accStr inStr : List Char) :
    aggDistinctImpl [separator] accStr inStr =
      accStr ++ (newTokens (accStr.splitOn separator) (inStr.splitOn separator)).flatMap
        ([separator] ++ ·) := by
  rw [aggDistinctImpl, tokens_eq, tokens_eq]

theorem agg_distinct_tokens (separator : Char) (accStr inStr : List Char) :
    (aggDistinctImpl [separator] accStr inStr).splitOn separator = accStr.splitOn separator ++
        newTokens (accStr.splitOn separator) (inStr.splitOn separator) := by
  rw [agg_distinct_eq]
  apply split_on_appended
  intro token mem
  exact mem_split_on (mem_of_new_tokens mem)

/-- The tokens that the third text adds are the same in both groupings. -/
theorem distinct_joined_assoc (separator : Char) (first second third : List Char) :
    joined [separator] true (joined [separator] true first second) third =
      joined [separator] true first (joined [separator] true second third) := by
  change aggDistinctImpl [separator] (aggDistinctImpl [separator] first second) third =
    aggDistinctImpl [separator] first (aggDistinctImpl [separator] second third)
  have covered : ∀ token ∈ second.splitOn separator, isBlank token = false →
      token ∈ first.splitOn separator ++
        newTokens (first.splitOn separator) (second.splitOn separator) :=
    fun token mem filled => covered_by_new mem filled
  rw [agg_distinct_eq separator (aggDistinctImpl [separator] first second), agg_distinct_tokens,
    agg_distinct_eq separator first (aggDistinctImpl [separator] second third), agg_distinct_tokens,
    new_tokens_append, new_tokens_of_new _ covered, agg_distinct_eq separator first second,
    flatMap_append, append_assoc]

end PaimonCore.Aggregate

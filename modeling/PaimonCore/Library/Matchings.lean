import Mathlib.Data.List.Perm.Basic

/-!
# Matching two lists greedily

Every item takes the first partner that is left. If being the same is an equivalence, the greedy
choice finds a matching whenever there is one.
-/

namespace PaimonCore.Matchings

open List

variable {Item : Type}

def takeFirst (test : Item → Bool) : List Item → Option (List Item)
  | [] => none
  | item :: rest => if test item then some rest else (takeFirst test rest).map (item :: ·)

def matchAll (same : Item → Item → Bool) : List Item → List Item → Bool
  | [], others => others.isEmpty
  | item :: rest, others =>
    match takeFirst (same item) others with
    | none => false
    | some left => matchAll same rest left

/-- A rearrangement of the second list fits the first, item by item. -/
def Matched (same : Item → Item → Bool) (items others : List Item) : Prop :=
  ∃ arranged, arranged.Perm others ∧
    List.Forall₂ (fun item other => same item other = true) items arranged

section
variable {same : Item → Item → Bool}

theorem take_first_some {test : Item → Bool} {items left : List Item}
    (takes : takeFirst test items = some left) :
    ∃ item, test item = true ∧ (item :: left).Perm items := by
  induction items generalizing left with
  | nil => cases takes
  | cons head rest ih =>
    rw [takeFirst] at takes
    split at takes
    · next passes =>
        cases takes
        exact ⟨head, passes, Perm.refl _⟩
    · obtain ⟨later, restTakes, rfl⟩ := Option.map_eq_some_iff.mp takes
      obtain ⟨item, passes, perm⟩ := ih restTakes
      exact ⟨item, passes, (Perm.swap _ _ _).trans (perm.cons head)⟩

theorem take_first_none {test : Item → Bool} {items : List Item}
    (takes : takeFirst test items = none) : ∀ item ∈ items, test item = false := by
  induction items with
  | nil =>
    intro item mem
    cases mem
  | cons head rest ih =>
    rw [takeFirst] at takes
    split at takes
    · cases takes
    · next fails =>
        exact forall_mem_cons.mpr ⟨Bool.eq_false_iff.mpr fails,
          ih (Option.map_eq_none_iff.mp takes)⟩

theorem matched_of_match_all {items others : List Item}
    (found : matchAll same items others = true) :
    Matched same items others := by
  induction items generalizing others with
  | nil =>
    rw [matchAll, List.isEmpty_iff] at found
    rw [found]
    exact ⟨[], Perm.refl _, .nil⟩
  | cons item rest ih =>
    rw [matchAll.eq_def] at found
    dsimp only at found
    split at found
    · cases found
    · next left takes =>
        obtain ⟨partner, isSame, perm⟩ := take_first_some takes
        obtain ⟨arranged, leftPerm, fits⟩ := ih found
        exact ⟨partner :: arranged, (leftPerm.cons partner).trans perm, .cons isSame fits⟩

theorem matched_exchange {item partner : Item} {rest arranged left : List Item}
    (symm : ∀ other, same item other = true → same other item = true)
    (trans : ∀ mem ∈ rest, ∀ middle other, same mem middle = true →
      same middle other = true → same mem other = true) (isPartner : same item partner = true)
    (fits : List.Forall₂ (fun item other => same item other = true) (item :: rest) arranged)
    (perm : arranged.Perm (partner :: left)) : Matched same rest left := by
  obtain ⟨own, later, ownSame, laterFits, rfl⟩ := forall₂_cons_left_iff.mp fits
  have mem : partner ∈ own :: later := perm.mem_iff.mpr mem_cons_self
  rcases mem_cons.mp mem with rfl | inLater
  · exact ⟨later, perm.cons_inv, laterFits⟩
  · obtain ⟨before, after, rfl⟩ := append_of_mem inLater
    obtain ⟨front, back, rfl, frontFits, backFits⟩ : ∃ front back, rest = front ++ back ∧
          List.Forall₂ (fun item other => same item other = true) front before ∧
          List.Forall₂ (fun item other => same item other = true) back (partner :: after) :=
      ⟨rest.take before.length, rest.drop before.length, (take_append_drop _ _).symm,
        by simpa using forall₂_take_append _ _ _ laterFits,
        by simpa using forall₂_drop_append _ _ _ laterFits⟩
    obtain ⟨holder, others, holderSame, othersFit, rfl⟩ := forall₂_cons_right_iff.mp backFits
    refine ⟨before ++ own :: after, ?_, ?_⟩
    · have moved :
          (own :: (before ++ partner :: after)).Perm (partner :: (before ++ own :: after)) := by
        have front := @List.perm_middle Item partner before after
        have back := @List.perm_middle Item own before after
        exact ((front.cons own).trans (Perm.swap _ _ _)).trans (back.symm.cons partner)
      exact (moved.symm.trans perm).cons_inv
    · have isHolder : holder ∈ front ++ holder :: others := by simp
      have holderItem := trans holder isHolder partner item holderSame (symm partner isPartner)
      have holderOwn := trans holder isHolder item own holderItem ownSame
      exact rel_append frontFits (.cons holderOwn othersFit)

theorem match_all_of_matched {items others : List Item}
    (symm : ∀ item ∈ items, ∀ other, same item other = true → same other item = true)
    (trans : ∀ item ∈ items, ∀ middle other, same item middle = true → same middle other = true →
      same item other = true)
    (matched : Matched same items others) : matchAll same items others = true := by
  induction items generalizing others with
  | nil =>
    obtain ⟨arranged, perm, fits⟩ := matched
    cases fits
    rw [matchAll, List.isEmpty_iff]
    exact nil_perm.mp perm
  | cons item rest ih =>
    obtain ⟨arranged, perm, fits⟩ := matched
    rw [matchAll.eq_def]
    dsimp only
    split
    · next takes =>
        obtain ⟨own, later, ownSame, _, rfl⟩ := forall₂_cons_left_iff.mp fits
        have missing := take_first_none takes own (perm.mem_iff.mp mem_cons_self)
        rw [ownSame] at missing
        cases missing
    · next left takes =>
        obtain ⟨partner, isPartner, leftPerm⟩ := take_first_some takes
        apply ih (forall_mem_cons.mp symm).2 (forall_mem_cons.mp trans).2
        exact matched_exchange (symm item mem_cons_self) (forall_mem_cons.mp trans).2 isPartner fits
          (perm.trans leftPerm.symm)

/-- Around the item, being the same is an equivalence. -/
structure Central (same : Item → Item → Bool) (item : Item) : Prop where
  refl : same item item = true
  symm : ∀ other, same item other = true ↔ same other item = true
  trans : ∀ middle right, same item middle = true → same middle right = true →
    same item right = true
  euclid : ∀ left right, same item left = true → same item right = true → same left right = true
  meet : ∀ left right, same left right = true → same item right = true → same left item = true

theorem Central.of_same {item other : Item} (central : Central same item)
    (alike : same item other = true) : Central same other where
  refl := central.euclid _ _ alike alike
  symm := by
    intro third
    constructor
    · intro isSame
      exact central.euclid _ _ (central.trans _ _ alike isSame) alike
    · intro isSame
      exact central.euclid _ _ alike ((central.symm third).mpr (central.meet _ _ isSame alike))
  trans := by
    intro middle right isMiddle isRight
    exact central.euclid _ _ alike (central.trans _ _ (central.trans _ _ alike isMiddle) isRight)
  euclid := by
    intro left right isLeft isRight
    exact central.euclid _ _ (central.trans _ _ alike isLeft) (central.trans _ _ alike isRight)
  meet := by
    intro left right isRight otherRight
    have leftItem := central.meet _ _ isRight (central.trans _ _ alike otherRight)
    exact central.euclid _ _ ((central.symm left).mpr leftItem) alike

theorem forall₂_mem {First Second : Type} {related : First → Second → Prop}
    {firsts : List First} {seconds : List Second} (pairs : List.Forall₂ related firsts seconds)
    {first : First} (mem : first ∈ firsts) : ∃ second ∈ seconds, related first second := by
  obtain ⟨index, bound, rfl⟩ := mem_iff_getElem.mp mem
  have inside : index < seconds.length := pairs.length_eq ▸ bound
  exact ⟨seconds[index], getElem_mem inside, pairs.get bound inside⟩

theorem forall₂_compose {First Second Third : Type} {before : First → Second → Prop}
    {after : Second → Third → Prop} {across : First → Third → Prop}
    (composes : ∀ first second third, before first second → after second third → across first third)
    {firsts : List First} {seconds : List Second} {thirds : List Third}
    (left : List.Forall₂ before firsts seconds) (right : List.Forall₂ after seconds thirds) :
    List.Forall₂ across firsts thirds := by
  induction left generalizing thirds with
  | nil =>
    cases right
    exact .nil
  | cons isBefore _ ih =>
    obtain ⟨third, rest, isAfter, restAfter, rfl⟩ := forall₂_cons_left_iff.mp right
    exact .cons (composes _ _ _ isBefore isAfter) (ih restAfter)

variable {items others : List Item} (centres : ∀ item ∈ items, Central same item)
include centres

theorem Matched.central (matched : Matched same items others) : ∃ arranged, arranged.Perm others ∧
      List.Forall₂ (fun item other => Central same item ∧ same item other = true) items
        arranged := by
  obtain ⟨arranged, perm, fits⟩ := matched
  exact ⟨arranged, perm, (forall₂_and_left _ _).mpr ⟨centres, fits⟩⟩

theorem Matched.others_central (matched : Matched same items others) :
    ∀ other ∈ others, Central same other := by
  obtain ⟨arranged, perm, fits⟩ := matched.central centres
  intro other mem
  obtain ⟨_, _, linked⟩ := forall₂_mem fits.flip (perm.mem_iff.mpr mem)
  exact linked.1.of_same linked.2

theorem match_all_iff : matchAll same items others = true ↔ Matched same items others := by
  refine ⟨matched_of_match_all, ?_⟩
  apply match_all_of_matched
  · exact fun item mem other => ((centres item mem).symm other).mp
  · exact fun item mem => (centres item mem).trans

theorem Matched.symm (matched : Matched same items others) : Matched same others items := by
  obtain ⟨arranged, perm, fits⟩ := matched.central centres
  have flipped : List.Forall₂ (fun other item => same other item = true) arranged items :=
    Forall₂.flip (fits.imp (fun item other linked => (linked.1.symm other).mp linked.2))
  obtain ⟨rearranged, fitsOthers, rearrangedPerm⟩ := perm_comp_forall₂ perm.symm flipped
  exact ⟨rearranged, rearrangedPerm, fitsOthers⟩

theorem Matched.symm_left (matched : Matched same others items) : Matched same items others := by
  obtain ⟨arranged, perm, fits⟩ := matched
  have flipped : List.Forall₂ (fun item other => same other item = true) arranged others :=
    Forall₂.flip fits
  obtain ⟨rearranged, fitsItems, rearrangedPerm⟩ := perm_comp_forall₂ perm.symm flipped
  refine ⟨rearranged, rearrangedPerm, ?_⟩
  have known := (forall₂_and_left _ _).mpr ⟨centres, fitsItems⟩
  exact known.imp (fun item other linked => (linked.1.symm other).mpr linked.2)

theorem Matched.trans {thirds : List Item} (first : Matched same items others)
    (second : Matched same others thirds) :
    Matched same items thirds := by
  obtain ⟨arranged, perm, fits⟩ := first.central centres
  obtain ⟨thirdArranged, thirdPerm, thirdFits⟩ := second
  obtain ⟨rearranged, fitsArranged, rearrangedPerm⟩ := perm_comp_forall₂ perm thirdFits
  exact ⟨rearranged, rearrangedPerm.trans thirdPerm,
    forall₂_compose (fun _ _ _ linked isSame => linked.1.trans _ _ linked.2 isSame)
      fits fitsArranged⟩

theorem match_all_central : Central (matchAll same) items where
  refl := by
    apply (match_all_iff centres).mpr
    refine ⟨items, Perm.refl _, ?_⟩
    exact forall₂_same.mpr (fun item mem => (centres item mem).refl)
  symm := by
    intro others
    rw [match_all_iff centres]
    constructor
    · intro matched
      exact (match_all_iff (matched.others_central centres)).mpr (matched.symm centres)
    · intro found
      exact (matched_of_match_all found).symm_left centres
  trans := by
    intro middle right isMiddle isRight
    rw [match_all_iff centres] at isMiddle ⊢
    exact isMiddle.trans centres (matched_of_match_all isRight)
  euclid := by
    intro left right isLeft isRight
    rw [match_all_iff centres] at isLeft isRight
    have leftCentral := isLeft.others_central centres
    exact (match_all_iff leftCentral).mpr ((isLeft.symm centres).trans leftCentral isRight)
  meet := by
    intro left right isRight isItem
    have found := (match_all_iff centres).mp isItem
    have rightCentral := found.others_central centres
    have toLeft := found.trans centres ((matched_of_match_all isRight).symm_left rightCentral)
    exact (match_all_iff (toLeft.others_central centres)).mpr (toLeft.symm centres)

end

theorem central_of_eq {same : Item → Item → Bool}
    (isEq : ∀ left right, same left right = true ↔ left = right) (item : Item) :
    Central same item where
  refl := (isEq _ _).mpr rfl
  symm := fun other => by rw [isEq, isEq, eq_comm]
  trans := fun _ _ isMiddle isRight =>
    (isEq _ _).mpr (((isEq _ _).mp isMiddle).trans ((isEq _ _).mp isRight))
  euclid := fun _ _ isLeft isRight =>
    (isEq _ _).mpr (((isEq _ _).mp isLeft).symm.trans ((isEq _ _).mp isRight))
  meet := fun _ _ isRight isItem =>
    (isEq _ _).mpr (((isEq _ _).mp isRight).trans ((isEq _ _).mp isItem).symm)

theorem Central.wrapped {Outer : Type} {same : Item → Item → Bool} {outer : Outer → Outer → Bool}
    {wrap : Item → Outer} (onLeft : ∀ item other, outer (wrap item) other = true ↔
      ∃ inside, other = wrap inside ∧ same item inside = true)
    (onRight : ∀ item other, outer other (wrap item) = true ↔
      ∃ inside, other = wrap inside ∧ same inside item = true)
    {item : Item} (central : Central same item) : Central outer (wrap item) where
  refl := (onLeft _ _).mpr ⟨item, rfl, central.refl⟩
  symm := by
    intro other
    rw [onLeft, onRight]
    simp only [central.symm]
  trans := by
    intro middle right isMiddle isRight
    obtain ⟨inside, rfl, isSame⟩ := (onLeft _ _).mp isMiddle
    obtain ⟨further, rfl, furtherSame⟩ := (onLeft _ _).mp isRight
    exact (onLeft _ _).mpr ⟨further, rfl, central.trans _ _ isSame furtherSame⟩
  euclid := by
    intro left right isLeft isRight
    obtain ⟨inside, rfl, isSame⟩ := (onLeft _ _).mp isLeft
    obtain ⟨further, rfl, furtherSame⟩ := (onLeft _ _).mp isRight
    exact (onLeft _ _).mpr ⟨further, rfl, central.euclid _ _ isSame furtherSame⟩
  meet := by
    intro left right isRight isItem
    obtain ⟨inside, rfl, isSame⟩ := (onLeft _ _).mp isItem
    obtain ⟨further, rfl, furtherSame⟩ := (onRight _ _).mp isRight
    exact (onLeft _ _).mpr ⟨item, rfl, central.meet _ _ furtherSame isSame⟩

theorem Central.pair {Second : Type} {first : Item → Item → Bool} {second : Second → Second → Bool}
    {both : Item × Second → Item × Second → Bool}
    (isBoth : ∀ left right, both left right = (first left.1 right.1 && second left.2 right.2))
    {item : Item} {other : Second} (onFirst : Central first item)
    (onSecond : Central second other) :
    Central both (item, other) where
  refl := by rw [isBoth, onFirst.refl, onSecond.refl, Bool.and_self]
  symm := by
    intro pair
    rw [isBoth, isBoth, Bool.and_eq_true, Bool.and_eq_true, onFirst.symm, onSecond.symm]
  trans := by
    intro middle right isMiddle isRight
    rw [isBoth, Bool.and_eq_true] at isMiddle isRight ⊢
    exact ⟨onFirst.trans _ _ isMiddle.1 isRight.1, onSecond.trans _ _ isMiddle.2 isRight.2⟩
  euclid := by
    intro left right isLeft isRight
    rw [isBoth, Bool.and_eq_true] at isLeft isRight ⊢
    exact ⟨onFirst.euclid _ _ isLeft.1 isRight.1, onSecond.euclid _ _ isLeft.2 isRight.2⟩
  meet := by
    intro left right isRight isItem
    rw [isBoth, Bool.and_eq_true] at isRight isItem ⊢
    exact ⟨onFirst.meet _ _ isRight.1 isItem.1, onSecond.meet _ _ isRight.2 isItem.2⟩

end PaimonCore.Matchings

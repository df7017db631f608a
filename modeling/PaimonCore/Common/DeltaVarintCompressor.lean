import Mathlib.Data.List.Basic

/-!
# The delta varint compressor

Values become their differences, differences become zigzag numbers, and those are written in
groups of seven bits, the lowest first. Every step works modulo `2 ^ 64`.
-/

namespace PaimonCore.DeltaVarint

open BitVec

/-- The bits of an `int64_t` or a `uint64_t`. -/
abbrev Word := BitVec 64

abbrev Bytes := List (BitVec 8)

def zigZag (value : Word) : Word :=
  (value <<< 1) ^^^ value.sshiftRight 63

def unZigZag (value : Word) : Word :=
  (value >>> 1) ^^^ -(value &&& 1#64)

theorem shift_shrinks {tmp : Word} (several : tmp &&& ~~~0x7F#64 ≠ 0#64) :
    (tmp >>> 7).toNat < tmp.toNat := by
  have pos : tmp.toNat ≠ 0 := by
    intro zero
    apply several
    rw [show tmp = 0#64 from eq_of_toNat_eq zero]
    rfl
  rw [toNat_ushiftRight, Nat.shiftRight_eq_div_pow]
  omega

/-- The loop of `EncodeVarint`. -/
def encodeGroups (tmp : Word) : Bytes :=
  if tmp &&& ~~~0x7F#64 ≠ 0#64 then
    ((tmp &&& 0x7F#64) ||| 0x80#64).setWidth 8 :: encodeGroups (tmp >>> 7)
  else [tmp.setWidth 8]
termination_by tmp.toNat
decreasing_by exact shift_shrinks ‹_›

def encodeVarint (value : Word) : Bytes :=
  encodeGroups (zigZag value)

/-- The loop of `DecodeVarint`, with the bytes from the position on. -/
def decodeGroups (result : Word) (shift : Nat) : Bytes → Except String (Word × Bytes)
  | [] => .error "Unexpected end of input"
  | byte :: rest =>
    let result := result ||| ((byte &&& 0x7F#8).setWidth 64 <<< shift)
    if byte &&& 0x80#8 = 0#8 then .ok (unZigZag result, rest)
    else if shift + 7 > 63 then .error "Varint overflow"
    else decodeGroups result (shift + 7) rest

def decodeVarint (bytes : Bytes) : Except String (Word × Bytes) :=
  decodeGroups 0#64 0 bytes

theorem decode_groups_shortens {result delta : Word} {shift : Nat} {bytes rest : Bytes}
    (decoded : decodeGroups result shift bytes = .ok (delta, rest)) :
    rest.length < bytes.length := by
  induction bytes generalizing result shift with
  | nil => cases decoded
  | cons byte bytes ih =>
    simp only [decodeGroups] at decoded
    split_ifs at decoded
    · cases decoded
      exact Nat.lt_succ_self _
    · exact Nat.lt_succ_of_lt (ih decoded)

def decodeDeltas (bytes : Bytes) : Except String (List Word) :=
  if bytes.isEmpty then .ok []
  else match _ : decodeVarint bytes with
    | .error message => .error message
    | .ok (delta, rest) => (decodeDeltas rest).map (delta :: ·)
termination_by bytes.length
decreasing_by exact decode_groups_shortens ‹_›

def differences (previous : Word) : List Word → List Word
  | [] => []
  | value :: rest => (value - previous) :: differences value rest

def sums (previous : Word) : List Word → List Word
  | [] => []
  | delta :: rest => (previous + delta) :: sums (previous + delta) rest

def compress : List Word → Bytes
  | [] => []
  | first :: rest => (first :: differences first rest).flatMap encodeVarint

def decompress (bytes : Bytes) : Except String (List Word) :=
  (decodeDeltas bytes).map fun deltas =>
    match deltas with
    | [] => []
    | first :: rest => first :: sums first rest

theorem sums_differences (previous : Word) (values : List Word) :
    sums previous (differences previous values) = values := by
  induction values generalizing previous with
  | nil => rfl
  | cons value rest ih =>
    have restored : previous + (value - previous) = value := by
      rw [BitVec.add_comm, BitVec.sub_add_cancel]
    rw [differences, sums, restored, ih]

theorem zig_zag_nonnegative {value : Word} (sign : value.msb = false) :
    zigZag value = value <<< 1 := by
  have bound := toNat_lt_of_msb_false sign
  have noSign : value >>> 63 = 0#64 := by
    apply eq_of_toNat_eq
    rw [toNat_ushiftRight, Nat.shiftRight_eq_div_pow]
    exact Nat.div_eq_of_lt bound
  rw [zigZag, sshiftRight_eq_of_msb_false sign, noSign, xor_zero]

theorem zig_zag_negative {value : Word} (sign : value.msb = true) :
    zigZag value = ~~~(value <<< 1) := by
  have bound := le_toNat_of_msb_true sign
  have noSign : ~~~value >>> 63 = 0#64 := by
    apply eq_of_toNat_eq
    rw [toNat_ushiftRight, toNat_not, Nat.shiftRight_eq_div_pow]
    exact Nat.div_eq_of_lt (by omega)
  rw [zigZag, sshiftRight_eq_of_msb_true sign, noSign]
  exact xor_allOnes

theorem un_zig_zag_zig_zag (value : Word) : unZigZag (zigZag value) = value := by
  have whole := value.isLt
  cases sign : value.msb with
  | false =>
    have bound := toNat_lt_of_msb_false sign
    have even : value <<< 1 &&& 1#64 = 0#64 := by
      rw [and_one_eq_setWidth_ofBool_getLsbD]
      simp
    rw [zig_zag_nonnegative sign, unZigZag, even]
    apply eq_of_toNat_eq
    simp [Nat.shiftRight_eq_div_pow, Nat.shiftLeft_eq]
    omega
  | true =>
    have bound := le_toNat_of_msb_true sign
    have odd : ~~~(value <<< 1) &&& 1#64 = 1#64 := by
      rw [and_one_eq_setWidth_ofBool_getLsbD]
      simp
    rw [zig_zag_negative sign, unZigZag, odd, neg_one_eq_allOnes, xor_allOnes]
    apply eq_of_toNat_eq
    simp [Nat.shiftRight_eq_div_pow, Nat.shiftLeft_eq]
    omega

theorem payload_mask (width i : Nat) (inside : i < width) :
    (BitVec.ofNat width 0x7F).getLsbD i = decide (i < 7) := by
  rw [getLsbD_ofNat, show 127 = 2 ^ 7 - 1 from rfl, Nat.testBit_two_pow_sub_one,
    decide_eq_true inside, Bool.true_and]

theorem continuation_mask (width i : Nat) (inside : i < width) :
    (BitVec.ofNat width 0x80).getLsbD i = decide (7 = i) := by
  rw [getLsbD_ofNat, show 128 = 2 ^ 7 from rfl, Nat.testBit_two_pow, decide_eq_true inside,
    Bool.true_and]

/-- The low bits of a value, as far as they have been read. -/
def ReadUpTo (shift : Nat) (value result : Word) : Prop :=
  ∀ i < 64, result.getLsbD i = (decide (i < shift) && value.getLsbD i)

variable {shift : Nat} {value result : Word} (rest : Bytes)

theorem read_group {byte : BitVec 8} (read : ReadUpTo shift value result)
    (group : ∀ i < 7, byte.getLsbD i = (value >>> shift).getLsbD i) :
    ReadUpTo (shift + 7) value (result ||| ((byte &&& 0x7F#8).setWidth 64 <<< shift)) := by
  intro i inside
  rw [getLsbD_or, read i inside, getLsbD_shiftLeft, getLsbD_setWidth, getLsbD_and]
  by_cases low : i < shift
  · simp [low, Nat.lt_add_right 7 low]
  · by_cases current : i < shift + 7
    · rw [payload_mask 8 _ (by omega), group _ (by omega), getLsbD_ushiftRight]
      simp [low, current, inside, show i - shift < 7 by omega, show i - shift < 64 by omega,
        show shift + (i - shift) = i by omega]
    · by_cases seen : i - shift < 8
      · rw [payload_mask 8 _ seen]
        simp [low, current, show ¬i - shift < 7 by omega]
      · simp [low, current, getLsbD_of_ge byte _ (Nat.le_of_not_lt seen)]

theorem last_group {tmp : Word} :
    tmp &&& ~~~0x7F#64 = 0#64 ↔ ∀ i, 7 ≤ i → tmp.getLsbD i = false := by
  constructor
  · intro last i high
    by_cases inside : i < 64
    · have bit := congrArg (fun word : Word => word.getLsbD i) last
      rw [getLsbD_and, getLsbD_not, payload_mask 64 i inside] at bit
      simpa [inside, Nat.not_lt.mpr high] using bit
    · exact getLsbD_of_ge tmp i (Nat.le_of_not_lt inside)
  · intro high
    apply eq_of_getLsbD_eq
    intro i inside
    rw [getLsbD_and, getLsbD_not, payload_mask 64 i inside]
    by_cases low : i < 7
    · simp [low]
    · simp [high i (Nat.le_of_not_lt low)]

theorem continues_iff (byte : BitVec 8) : byte &&& 0x80#8 = 0#8 ↔ byte.getLsbD 7 = false := by
  constructor
  · intro last
    have bit := congrArg (fun word : BitVec 8 => word.getLsbD 7) last
    simpa [continuation_mask 8 7 (by decide)] using bit
  · intro last
    apply eq_of_getLsbD_eq
    intro i inside
    rw [getLsbD_and, continuation_mask 8 i inside]
    by_cases top : 7 = i
    · rw [← top, last, Bool.false_and, getLsbD_zero]
    · simp [top]

theorem decode_last_group (read : ReadUpTo shift value result)
    (high : ∀ i, 7 ≤ i → (value >>> shift).getLsbD i = false) :
    decodeGroups result shift (encodeGroups (value >>> shift) ++ rest) =
      .ok (unZigZag value, rest) := by
  have group : ∀ i < 7, ((value >>> shift).setWidth 8).getLsbD i = (value >>> shift).getLsbD i := by
    intro i inside
    rw [getLsbD_setWidth, decide_eq_true (by omega), Bool.true_and]
  have whole :
      result ||| (((value >>> shift).setWidth 8 &&& 0x7F#8).setWidth 64 <<< shift) = value := by
    apply eq_of_getLsbD_eq
    intro i inside
    rw [read_group read group i inside]
    by_cases seen : i < shift + 7
    · rw [decide_eq_true seen, Bool.true_and]
    · have none := high (i - shift) (by omega)
      rw [getLsbD_ushiftRight, show shift + (i - shift) = i by omega] at none
      rw [none, Bool.and_false]
  rw [encodeGroups, if_neg (not_not.mpr (last_group.mpr high)), List.singleton_append, decodeGroups,
    whole, if_pos]
  rw [continues_iff, getLsbD_setWidth, high 7 (Nat.le_refl 7), Bool.and_false]

theorem decode_groups_encode_groups {groups : Nat} (aligned : shift + 7 * groups = 63)
    (read : ReadUpTo shift value result) :
    decodeGroups result shift (encodeGroups (value >>> shift) ++ rest) =
      .ok (unZigZag value, rest) := by
  induction groups generalizing shift result with
  | zero =>
    have high : ∀ i, 7 ≤ i → (value >>> shift).getLsbD i = false := by
      intro i above
      rw [getLsbD_ushiftRight]
      exact getLsbD_of_ge value _ (by omega)
    exact decode_last_group rest read high
  | succ groups ih =>
    by_cases last : value >>> shift &&& ~~~0x7F#64 = 0#64
    · exact decode_last_group rest read (last_group.mp last)
    · have group : ∀ i < 7, (((value >>> shift &&& 0x7F#64) ||| 0x80#64).setWidth 8).getLsbD i =
          (value >>> shift).getLsbD i := by
        intro i inside
        rw [getLsbD_setWidth, getLsbD_or, getLsbD_and,
          payload_mask 64 i (by omega), continuation_mask 64 i (by omega)]
        simp [inside, show i < 8 by omega, show 7 ≠ i by omega]
      have next := ih (by omega) (read_group read group)
      rw [encodeGroups, if_pos last, List.cons_append, decodeGroups, if_neg, if_neg (by omega),
        ← shiftRight_add]
      · exact next
      · rw [continues_iff, getLsbD_setWidth, getLsbD_or, continuation_mask 64 7 (by decide)]
        simp

variable (value)

theorem decode_varint_encode_varint :
    decodeVarint (encodeVarint value ++ rest) = .ok (value, rest) := by
  have read : ReadUpTo 0 (zigZag value) 0#64 := by
    intro i inside
    simp
  have aligned : 0 + 7 * 9 = 63 := rfl
  have decoded := decode_groups_encode_groups rest aligned read
  rw [ushiftRight_zero, un_zig_zag_zig_zag] at decoded
  exact decoded

theorem encode_varint_not_empty : (encodeVarint value ++ rest).isEmpty = false := by
  rw [encodeVarint, encodeGroups]
  split_ifs <;> rfl

theorem decode_deltas_encode (deltas : List Word) :
    decodeDeltas (deltas.flatMap encodeVarint) = .ok deltas := by
  induction deltas with
  | nil =>
    rw [decodeDeltas]
    rfl
  | cons delta rest ih =>
    rw [List.flatMap_cons, decodeDeltas, encode_varint_not_empty, if_neg Bool.false_ne_true]
    split
    case h_1 message failed =>
      rw [decode_varint_encode_varint] at failed
      cases failed
    case h_2 value after decoded =>
      rw [decode_varint_encode_varint] at decoded
      cases decoded
      rw [ih]
      rfl

theorem decompress_compress (data : List Word) : decompress (compress data) = .ok data := by
  cases data with
  | nil =>
    rw [compress, decompress, decodeDeltas]
    rfl
  | cons first rest =>
    rw [compress, decompress, decode_deltas_encode]
    change Except.ok (first :: sums first (differences first rest)) = _
    rw [sums_differences]

theorem delta_varint_round_trip : (∀ data, decompress (compress data) = .ok data) ∧
    ∀ bytes, (∃ message, decompress bytes = .error message) ∨
      ∃ values, decompress bytes = .ok values ∧ decompress (compress values) = .ok values := by
  refine ⟨decompress_compress, fun bytes => ?_⟩
  cases decompress bytes with
  | error message => exact .inl ⟨message, rfl⟩
  | ok values => exact .inr ⟨values, rfl, decompress_compress values⟩

end PaimonCore.DeltaVarint

import Wasm.Proofs.Binary.Integers

/-! # Integers of variable length, in machine words

The same integers read with the words of a machine: the number grows in a word of 64 bits, shifts are counted in a word
of 32 bits, and a byte is shifted as a byte. Every operation that a machine may refuse is checked: a difference below
zero, a sum beyond its word, a shift by as many bits as the shifted word has or more. None of them is ever refused, and
what is read is what is read with numbers of any size.
-/

namespace Wasm

section Valued

variable {ε σ α β γ : Type}

/-- An outcome with its value in another form. -/
def Outcome.valued (f : α → β) : EStateM.Result ε σ α → EStateM.Result ε σ β
  | .ok a s => .ok (f a) s
  | .error e s => .error e s

theorem Outcome.valued_id (r : EStateM.Result ε σ α) : valued id r = r := by
  cases r <;> rfl

theorem Outcome.valued_valued (f : α → β) (g : β → γ) (r : EStateM.Result ε σ α) :
    valued g (valued f r) = valued (g ∘ f) r := by
  cases r <;> rfl

theorem Outcome.bind_pure_eq (m : EStateM ε σ α) (f : α → β) (s : σ) :
    (m >>= fun a => pure (f a)) s = valued f (m s) := by
  show EStateM.bind m _ s = _
  unfold EStateM.bind
  cases m s <;> rfl

end Valued

namespace Binary

open Leb128

namespace Word

/-! ## Checked operations -/

def add (a b : UInt32) : Option UInt32 := if a.toNat + b.toNat < 2 ^ 32 then some (a + b) else none

def sub (a b : UInt32) : Option UInt32 := if b ≤ a then some (a - b) else none

def shiftLeft (w : UInt64) (n : UInt32) : Option UInt64 := if n < 64 then some (w <<< n.toUInt64) else none

def shiftRight (b : UInt8) (n : UInt32) : Option UInt8 := if n < 8 then some (b >>> n.toUInt8) else none

theorem add_eq {a b : UInt32} (fits : a.toNat + b.toNat < 2 ^ 32) :
    ∃ c, add a b = some c ∧ c.toNat = a.toNat + b.toNat :=
  ⟨a + b, if_pos fits, by rw [UInt32.toNat_add, Nat.mod_eq_of_lt fits]⟩

theorem sub_eq {a b : UInt32} (le : b.toNat ≤ a.toNat) : ∃ c, sub a b = some c ∧ c.toNat = a.toNat - b.toNat :=
  ⟨a - b, if_pos le, UInt32.toNat_sub_of_le a b le⟩

theorem shiftLeft_eq {n : UInt32} (w : UInt64) (fits : n.toNat < 64) :
    ∃ v, shiftLeft w n = some v ∧ v.toNat = w.toNat * 2 ^ n.toNat % 2 ^ 64 := by
  refine ⟨_, if_pos fits, ?_⟩
  rw [UInt64.toNat_shiftLeft, UInt32.toNat_toUInt64, Nat.mod_eq_of_lt fits, Nat.shiftLeft_eq]

theorem shiftRight_eq {n : UInt32} (b : UInt8) (fits : n.toNat < 8) :
    ∃ c, shiftRight b n = some c ∧ c.toNat = b.toNat >>> n.toNat := by
  refine ⟨_, if_pos fits, ?_⟩
  rw [UInt8.toNat_shiftRight, UInt32.toNat_toUInt8, Nat.mod_eq_of_lt (show n.toNat < 2 ^ 8 by omega),
    Nat.mod_eq_of_lt fits]

/-! ## Digits -/

/-- What a byte adds to the word read so far. -/
inductive Digit where
  | fault (f : ReadFault)
  | last (word : UInt64)
  | more (word : UInt64)

/-- Whether the byte has bits beyond an unsigned integer. -/
def tooLarge (size shift : UInt32) (b : UInt8) : Option Bool := do
  let next ← add shift 7
  if size < next then
    let upper ← shiftRight (b &&& 0x7f) (← sub size shift)
    pure (upper != 0)
  else pure false

/-- Whether the byte has bits beyond a signed integer that are no copies of its sign. -/
def missigned (size shift : UInt32) (b : UInt8) : Option Bool := do
  let next ← add shift 7
  if size < next then
    let room ← sub (← sub size shift) 1
    let upper ← shiftRight (b &&& 0x7f) room
    let ones ← shiftRight 0x7f room
    pure (upper != 0 && upper != ones)
  else pure false

/-- Copies the sign of the last byte into the bits of the word that no byte wrote. -/
def extend (shift : UInt32) (word : UInt64) (b : UInt8) : Option UInt64 := do
  let next ← add shift 7
  if next < 64 && b &&& 0x40 != 0 then
    let sign ← shiftLeft (-1) next
    pure (word ||| sign)
  else pure word

/-- The byte at bit `shift` of an integer of `size` bits. -/
def digit (illegal : (size shift : UInt32) → UInt8 → Option Bool)
    (finish : (shift : UInt32) → UInt64 → UInt8 → Option UInt64) (size shift : UInt32) (word : UInt64) (b : UInt8) :
    Option Digit :=
  if size ≤ shift then pure (.fault .integerTooLong)
  else do
    if ← illegal size shift b then pure (.fault .integerTooLarge)
    else
      let bits ← shiftLeft (b &&& 0x7f).toUInt64 shift
      if b &&& 0x80 != 0 then pure (.more (word ||| bits))
      else
        let word ← finish shift (word ||| bits) b
        pure (.last word)

def unsignedDigit : (size shift : UInt32) → UInt64 → UInt8 → Option Digit := digit tooLarge fun _ word _ => pure word

def signedDigit : (size shift : UInt32) → UInt64 → UInt8 → Option Digit := digit missigned extend

/-- What is read, once a digit tells whether more is to be read. -/
def Digit.conclude (c : Cursor) (more : UInt64 → Option (EStateM.Result ReadFault Cursor UInt64)) :
    Digit → Option (EStateM.Result ReadFault Cursor UInt64)
  | fault f => pure (.error f c)
  | last word => pure (.ok word c)
  | Digit.more word => more word

/-- Reads bytes from bit `shift` on until one is the last. -/
def digits (digit : (shift : UInt32) → UInt64 → UInt8 → Option Digit) :
    (bytes : List UInt8) → (pos : Nat) → (shift : UInt32) → UInt64 → Option (EStateM.Result ReadFault Cursor UInt64)
  | [], pos, _, _ => pure (.error .unexpectedEnd ⟨pos, []⟩)
  | b :: rest, pos, shift, word => do
    (← digit shift word b).conclude ⟨pos + 1, rest⟩ fun word => do digits digit rest (pos + 1) (← add shift 7) word

/-- Reads an integer whose first byte was taken before. -/
def digitsAfter (digit : (shift : UInt32) → UInt64 → UInt8 → Option Digit) (first : UInt8) (c : Cursor) :
    Option (EStateM.Result ReadFault Cursor UInt64) := do
  (← digit 0 0 first).conclude c fun word => do digits digit c.rest c.pos (← add 0 7) word

/-! ## Bytes -/

theorem toNat_payload (b : UInt8) : (b &&& 0x7f).toNat = payload b := by
  rw [UInt8.toNat_and]
  exact Nat.and_two_pow_sub_one_eq_mod b.toNat 7

theorem continues_eq (b : UInt8) : (b &&& 0x80 != 0) = continues b := by
  unfold continues
  revert b
  decide +kernel

theorem negative_eq (b : UInt8) : (b &&& 0x40 != 0) = negative b := by
  unfold negative payload
  revert b
  decide +kernel

theorem bne_eq_decide (a b : UInt8) : (a != b) = decide (a.toNat ≠ b.toNat) := by
  rw [Bool.eq_iff_iff]
  simp [← UInt8.toNat_inj]

section Legality

variable {size shift : UInt32} (b : UInt8)

theorem tooLarge_eq (room : shift.toNat < size.toNat) (small : size.toNat ≤ 64) :
    tooLarge size shift b =
      some (decide (size.toNat < shift.toNat + 7 ∧ payload b >>> (size.toNat - shift.toNat) ≠ 0)) := by
  obtain ⟨next, added, value⟩ := add_eq (a := shift) (b := 7) (by simp; omega)
  simp only [tooLarge, added, Option.bind_eq_bind, Option.bind_some, Option.pure_def, UInt32.lt_iff_toNat_lt, value]
  split
  · rename_i narrow
    simp only [UInt32.reduceToNat] at narrow
    obtain ⟨left, subtracted, leftValue⟩ := sub_eq (a := size) (b := shift) (by omega)
    obtain ⟨upper, shifted, upperValue⟩ := shiftRight_eq (b &&& 0x7f) (n := left) (by omega)
    rw [toNat_payload, leftValue] at upperValue
    simp only [subtracted, shifted, Option.bind_some, narrow, true_and, ← upperValue]
    simp [bne_eq_decide]
  · rename_i wide
    simp only [UInt32.reduceToNat] at wide
    simp [wide]

theorem missigned_eq (room : shift.toNat < size.toNat) (small : size.toNat ≤ 64) :
    missigned size shift b =
      some (decide (size.toNat < shift.toNat + 7 ∧ copiesSign size.toNat shift.toNat b = false)) := by
  obtain ⟨next, added, value⟩ := add_eq (a := shift) (b := 7) (by simp; omega)
  simp only [missigned, added, Option.bind_eq_bind, Option.bind_some, Option.pure_def, UInt32.lt_iff_toNat_lt, value]
  split
  · rename_i narrow
    simp only [UInt32.reduceToNat] at narrow
    obtain ⟨left, subtracted, leftValue⟩ := sub_eq (a := size) (b := shift) (by omega)
    obtain ⟨room, subtracted', roomValue⟩ := sub_eq (a := left) (b := 1) (by simp; omega)
    obtain ⟨upper, shifted, upperValue⟩ := shiftRight_eq (b &&& 0x7f) (n := room) (by simp at roomValue; omega)
    obtain ⟨ones, shifted', onesValue⟩ := shiftRight_eq 0x7f (n := room) (by simp at roomValue; omega)
    rw [toNat_payload, roomValue, leftValue] at upperValue
    rw [roomValue, leftValue] at onesValue
    simp only [subtracted, subtracted', shifted, shifted', Option.bind_some, narrow, true_and, copiesSign]
    simp [bne_eq_decide, upperValue, onesValue]
  · rename_i wide
    simp only [UInt32.reduceToNat] at wide
    simp [wide]

end Legality

/-! ## The word that is read -/

/-- Words without a bit in common are united by adding them. -/
theorem toNat_or_of_lt {low high : UInt64} {n k : Nat} (below : low.toNat < 2 ^ n) (above : high.toNat = k * 2 ^ n) :
    (low ||| high).toNat = low.toNat + high.toNat := by
  rw [UInt64.toNat_or, Nat.or_comm, above, Nat.mul_comm k, ← Nat.two_pow_add_eq_or_of_lt below, Nat.add_comm]

/-- A word holds the sum of the digits below bit `shift`, as long as there are any more to read. -/
def Held (size shift sum : Nat) (word : UInt64) : Prop := shift < size → word.toNat = sum ∧ sum < 2 ^ shift

theorem toNat_or_bits {shift sum n : Nat} {word bits : UInt64} (held : word.toNat = sum) (below : sum < 2 ^ shift)
    (room : shift < 64) (shifted : bits.toNat = n * 2 ^ shift % 2 ^ 64) :
    (word ||| bits).toNat = sum + n * 2 ^ shift % 2 ^ 64 := by
  have split : n * 2 ^ shift % 2 ^ 64 = n % 2 ^ (64 - shift) * 2 ^ shift := by
    rw [← Nat.mul_mod_mul_right, ← Nat.pow_add, Nat.sub_add_cancel (by omega)]
  rw [toNat_or_of_lt (held ▸ below) (shifted.trans split), held, shifted]

/-- A digit above a sum of digits. -/
theorem digit_above_lt {shift sum : Nat} (below : sum < 2 ^ shift) (b : UInt8) :
    sum + payload b * 2 ^ shift < 2 ^ (shift + 7) := by
  have digit : payload b ≤ 127 := Nat.le_of_lt_succ (payload_lt b)
  calc
    sum + payload b * 2 ^ shift < 2 ^ shift + 127 * 2 ^ shift :=
      Nat.add_lt_add_of_lt_of_le below (Nat.mul_le_mul_right _ digit)
    _ = 2 ^ (shift + 7) := by ring

/-- The word has the value that the sign extension of the last byte gives it. -/
theorem extend_eq (shift : UInt32) (word : UInt64) (b : UInt8) (room : shift.toNat < 64)
    (below : shift.toNat + 7 < 64 → word.toNat < 2 ^ (shift.toNat + 7)) :
    ∃ extended, extend shift word b = some extended ∧
      (2 ^ 64 : Int) ∣ (word.toNat - if negative b then 2 ^ (shift.toNat + 7) else 0) - extended.toNat := by
  obtain ⟨next, added, value⟩ := add_eq (a := shift) (b := 7) (by simp; omega)
  simp only [UInt32.reduceToNat] at value
  simp only [extend, added, Option.bind_eq_bind, Option.bind_some, Option.pure_def, negative_eq, Bool.and_eq_true,
    decide_eq_true_eq, UInt32.lt_iff_toNat_lt, UInt32.reduceToNat, value]
  by_cases inside : shift.toNat + 7 < 64
  · by_cases sign : negative b = true
    · obtain ⟨ones, shifted, onesValue⟩ := shiftLeft_eq (-1) (n := next) (by omega)
      have power := Nat.pow_lt_pow_right (a := 2) (by decide) inside
      have positive := Nat.two_pow_pos (shift.toNat + 7)
      have upper : ones.toNat = 2 ^ 64 - 2 ^ (shift.toNat + 7) := by
        rw [onesValue, value, show (-1 : UInt64).toNat = 2 ^ 64 - 1 from rfl]
        omega
      have multiple : 2 ^ 64 - 2 ^ (shift.toNat + 7) = (2 ^ (64 - (shift.toNat + 7)) - 1) * 2 ^ (shift.toNat + 7) := by
        rw [Nat.sub_mul, ← Nat.pow_add, Nat.sub_add_cancel (by omega), Nat.one_mul]
      refine ⟨word ||| ones, by simp [inside, sign, shifted], ?_⟩
      rw [toNat_or_of_lt (below inside) (upper.trans multiple), upper, if_pos sign]
      refine ⟨-1, ?_⟩
      push_cast [Nat.cast_sub power.le]
      ring
    · refine ⟨word, by simp [sign], ?_⟩
      simp [sign]
  · refine ⟨word, by simp [inside], ?_⟩
    -- What the sign would be copied into lies above the word.
    have above : (2 ^ 64 : Int) ∣ 2 ^ (shift.toNat + 7) := pow_dvd_pow 2 (by omega)
    split
    · rw [sub_sub_cancel_left, dvd_neg]
      exact above
    · simp

theorem toInt_eq {word : UInt64} {z : Int} (same : (2 ^ 64 : Int) ∣ z - word.toNat) (low : -2 ^ 63 ≤ z)
    (high : z < 2 ^ 63) : word.toInt64.toInt = z := by
  show word.toBitVec.toInt = z
  rw [BitVec.toInt_eq_toNat_bmod, Int.bmod_eq_iff (by decide)]
  exact ⟨low, high, same⟩

/-- A last digit that is a number of the bits left makes a number of the width. -/
theorem range_of_last {size shift sum : Nat} {z : Int} (room : shift < size) (below : sum < 2 ^ shift)
    (low : -2 ^ (size - shift - 1) ≤ z) (high : z < 2 ^ (size - shift - 1)) :
    -2 ^ (size - 1) ≤ sum + z * 2 ^ shift ∧ sum + z * 2 ^ shift < 2 ^ (size - 1) := by
  have split : (2 : Int) ^ (size - 1) = 2 ^ (size - shift - 1) * 2 ^ shift := by
    rw [← pow_add, show size - shift - 1 + shift = size - 1 by omega]
  have below : (sum : Int) < 2 ^ shift := by exact_mod_cast below
  have positive : (0 : Int) < 2 ^ shift := pow_pos (by decide) shift
  rw [split]
  constructor
  · have := mul_le_mul_of_nonneg_right low positive.le
    rw [neg_mul] at this
    omega
  · have := mul_le_mul_of_nonneg_right (Int.add_one_le_iff.mpr high) positive.le
    rw [add_mul, one_mul] at this
    omega

/-- What a word loses of the last digit makes no difference to the bits that it has. -/
theorem congruent_of_last (shift sum : Nat) (b : UInt8) :
    (2 ^ 64 : Int) ∣ (sum + signedTotal [b] * 2 ^ shift) -
      (((sum + payload b * 2 ^ shift % 2 ^ 64 : Nat) : Int) - if negative b then 2 ^ (shift + 7) else 0) := by
  have lost := Int.dvd_self_sub_emod (x := payload b * 2 ^ shift) (m := 2 ^ 64)
  rw [signedTotal_singleton]
  convert lost using 1
  push_cast
  split
  · ring
  · ring

/-! ## Words and numbers agree -/

variable {α : Type}

/-- A digit of a word says what a digit of a number says. -/
inductive Digit.Agrees (value : UInt64 → α) (size shift : Nat) : Digit → Leb128.Digit α → Prop
  | fault (f : ReadFault) : Agrees value size shift (.fault f) (.fault f)
  | last {word : UInt64} {v : α} (same : value word = v) : Agrees value size shift (.last word) (.last v)
  | more {word : UInt64} {sum : Nat} (room : shift < size) (held : Held size (shift + 7) sum word) :
    Agrees value size shift (.more word) (.more sum)

/-- No digit of a word is refused, and all say what the digits of a number say. -/
def Faithful (value : UInt64 → α) (size : Nat) (word : (shift : UInt32) → UInt64 → UInt8 → Option Digit)
    (number : (shift sum : Nat) → UInt8 → Leb128.Digit α) : Prop :=
  ∀ shift sum w b, Held size shift.toNat sum w →
    ∃ d, word shift w b = some d ∧ d.Agrees value size shift.toNat (number shift.toNat sum b)

/-- A byte at a bit inside the width. -/
theorem digit_eq {illegal : (size shift : UInt32) → UInt8 → Option Bool} {size shift : UInt32} {b : UInt8}
    {wrong : Prop} [Decidable wrong] (room : shift.toNat < size.toNat) (small : size.toNat ≤ 64)
    (legality : illegal size shift b = some (decide wrong))
    (finish : (shift : UInt32) → UInt64 → UInt8 → Option UInt64) (w : UInt64) :
    ∃ bits : UInt64, bits.toNat = payload b * 2 ^ shift.toNat % 2 ^ 64 ∧
      digit illegal finish size shift w b =
        if wrong then some (.fault .integerTooLarge)
        else if continues b then some (.more (w ||| bits))
        else (finish shift (w ||| bits) b).map .last := by
  obtain ⟨bits, shifted, value⟩ := shiftLeft_eq (b &&& 0x7f).toUInt64 (n := shift) (by omega)
  rw [UInt8.toNat_toUInt64, toNat_payload] at value
  refine ⟨bits, value, ?_⟩
  rw [digit, if_neg (by rw [UInt32.le_iff_toNat_le]; omega), legality, shifted, continues_eq]
  by_cases large : wrong
  · simp [large]
  · cases continues b <;> simp [large, Option.map_eq_bind]

theorem unsignedDigit_faithful (size : UInt32) (small : size.toNat ≤ 64) :
    Faithful UInt64.toNat size.toNat (unsignedDigit size) (Leb128.unsignedDigit size.toNat) := by
  intro shift sum w b held
  rw [Leb128.unsignedDigit]
  by_cases long : size.toNat ≤ shift.toNat
  · exact ⟨_, if_pos long, by rw [if_pos long]; exact .fault _⟩
  · have room : shift.toNat < size.toNat := Nat.lt_of_not_le long
    obtain ⟨sumValue, below⟩ := held room
    obtain ⟨bits, bitsValue, read⟩ :=
      digit_eq room small (tooLarge_eq b room small) (fun _ word _ => pure word) w
    rw [unsignedDigit, read, if_neg long]
    by_cases large : size.toNat < shift.toNat + 7 ∧ payload b >>> (size.toNat - shift.toNat) ≠ 0
    · exact ⟨_, if_pos large, by rw [if_pos large]; exact .fault _⟩
    · have whole : payload b * 2 ^ shift.toNat < 2 ^ 64 := calc
        payload b * 2 ^ shift.toNat < 2 ^ (size.toNat - shift.toNat) * 2 ^ shift.toNat :=
          Nat.mul_lt_mul_of_pos_right ((payload_fits_iff size.toNat shift.toNat b).mp large) (Nat.two_pow_pos _)
        _ = 2 ^ size.toNat := by rw [← Nat.pow_add, Nat.sub_add_cancel room.le]
        _ ≤ 2 ^ 64 := Nat.pow_le_pow_right (by decide) small
      have value : (w ||| bits).toNat = sum + payload b * 2 ^ shift.toNat := by
        rw [toNat_or_bits sumValue below (by omega) bitsValue, Nat.mod_eq_of_lt whole]
      rw [if_neg large, if_neg large, Nat.shiftLeft_eq]
      cases continues b with
      | true => exact ⟨_, rfl, .more room fun _ => ⟨value, digit_above_lt below b⟩⟩
      | false => exact ⟨_, rfl, .last value⟩

theorem signedDigit_faithful (size : UInt32) (small : size.toNat ≤ 64) :
    Faithful (fun word => word.toInt64.toInt) size.toNat (signedDigit size) (Leb128.signedDigit size.toNat) := by
  intro shift sum w b held
  rw [Leb128.signedDigit]
  by_cases long : size.toNat ≤ shift.toNat
  · exact ⟨_, if_pos long, by rw [if_pos long]; exact .fault _⟩
  · have room : shift.toNat < size.toNat := Nat.lt_of_not_le long
    obtain ⟨sumValue, below⟩ := held room
    obtain ⟨bits, bitsValue, read⟩ := digit_eq room small (missigned_eq b room small) extend w
    rw [signedDigit, read, if_neg long]
    by_cases wrong : size.toNat < shift.toNat + 7 ∧ copiesSign size.toNat shift.toNat b = false
    · exact ⟨_, if_pos wrong, by rw [if_pos wrong]; exact .fault _⟩
    · have united := toNat_or_bits sumValue below (by omega) bitsValue
      -- A digit that ends inside the word is kept whole.
      have value (inside : shift.toNat + 7 < 64) : (w ||| bits).toNat = sum + payload b * 2 ^ shift.toNat := by
        have whole := Nat.pow_lt_pow_right (a := 2) (by decide) inside
        have above := digit_above_lt below b
        rw [united, Nat.mod_eq_of_lt (by omega)]
      rw [if_neg wrong, if_neg wrong]
      simp only [signedDigit_value]
      rw [Nat.shiftLeft_eq]
      cases continues b with
      | true => exact ⟨_, rfl, .more room fun inside => ⟨value (by omega), digit_above_lt below b⟩⟩
      | false =>
        obtain ⟨extended, finished, same⟩ := extend_eq shift (w ||| bits) b (by omega)
          fun inside => by rw [value inside]; exact digit_above_lt below b
        refine ⟨.last extended, by simp [finished], ?_⟩
        obtain ⟨low, high⟩ := (copiesSign_iff size.toNat shift.toNat b).mp wrong
        obtain ⟨least, most⟩ := range_of_last room below low high
        have wide : (2 ^ (size.toNat - 1) : Int) ≤ 2 ^ 63 := pow_le_pow_right₀ (by decide) (by omega)
        have congruent := dvd_add (congruent_of_last shift.toNat sum b) (united ▸ same)
        rw [sub_add_sub_cancel] at congruent
        exact .last (toInt_eq congruent (by omega) (by omega))

/-- One digit, and then what is read after it. -/
theorem Faithful.step {value : UInt64 → α} {size : Nat} {word : (shift : UInt32) → UInt64 → UInt8 → Option Digit}
    {number : (shift sum : Nat) → UInt8 → Leb128.Digit α} (faithful : Faithful value size word number)
    {shift : UInt32} {sum : Nat} {w : UInt64} (b : UInt8) (held : Held size shift.toNat sum w) (c : Cursor)
    {more : UInt64 → Option (EStateM.Result ReadFault Cursor UInt64)} (tail : Nat → EStateM.Result ReadFault Cursor α)
    (after : ∀ {w sum}, shift.toNat < size → Held size (shift.toNat + 7) sum w →
      (more w).map (Outcome.valued value) = some (tail sum)) :
    (word shift w b >>= Digit.conclude c more).map (Outcome.valued value) =
      some (match number shift.toNat sum b with
        | .fault f => .error f c
        | .last v => .ok v c
        | .more sum => tail sum) := by
  obtain ⟨d, read, agrees⟩ := faithful shift sum w b held
  rw [read, Option.bind_eq_bind, Option.bind_some]
  generalize number shift.toNat sum b = d' at agrees
  cases agrees with
  | fault f => rfl
  | last same => rw [← same]; rfl
  | more room held => exact after room held

theorem Faithful.run {value : UInt64 → α} {size : Nat} {word : (shift : UInt32) → UInt64 → UInt8 → Option Digit}
    {number : (shift sum : Nat) → UInt8 → Leb128.Digit α} (faithful : Faithful value size word number)
    (small : size ≤ 64) (bytes : List UInt8) (pos : Nat) (shift : UInt32) {sum : Nat} {w : UInt64}
    (held : Held size shift.toNat sum w) :
    (digits word bytes pos shift w).map (Outcome.valued value) =
      some (Leb128.digits number bytes pos shift.toNat sum) := by
  induction bytes generalizing pos shift sum w with
  | nil => rfl
  | cons b rest ih =>
    refine faithful.step b held ⟨pos + 1, rest⟩ _ fun room held => ?_
    obtain ⟨next, added, value⟩ := add_eq (a := shift) (b := 7) (by simp; omega)
    simp only [UInt32.reduceToNat] at value
    rw [added, Option.bind_eq_bind, Option.bind_some, ← value]
    exact ih (pos + 1) next (value ▸ held)

/-! ## The readers -/

def u32 (c : Cursor) : Option (EStateM.Result ReadFault Cursor UInt32) :=
  (digits (unsignedDigit 32) c.rest c.pos 0 0).map (Outcome.valued UInt64.toUInt32)

def u64 (c : Cursor) : Option (EStateM.Result ReadFault Cursor UInt64) := digits (unsignedDigit 64) c.rest c.pos 0 0

def s32 (c : Cursor) : Option (EStateM.Result ReadFault Cursor Int32) :=
  (digits (signedDigit 32) c.rest c.pos 0 0).map (Outcome.valued fun word => word.toInt64.toInt32)

def s64 (c : Cursor) : Option (EStateM.Result ReadFault Cursor Int64) :=
  (digits (signedDigit 64) c.rest c.pos 0 0).map (Outcome.valued UInt64.toInt64)

/-- A signed integer of 33 bits whose first byte was taken before. -/
def s33After (first : UInt8) (c : Cursor) : Option (EStateM.Result ReadFault Cursor Int) :=
  (digitsAfter (signedDigit 33) first c).map (Outcome.valued fun word => word.toInt64.toInt)

/-- The values of words that are read, in the form that a reader gives them. -/
theorem valued_of_valued {β γ : Type} {value : UInt64 → β} {form : β → γ} {final : UInt64 → γ}
    {read : Option (EStateM.Result ReadFault Cursor UInt64)} {r : EStateM.Result ReadFault Cursor β}
    (same : read.map (Outcome.valued value) = some r) (formed : ∀ word, form (value word) = final word) :
    read.map (Outcome.valued final) = some (Outcome.valued form r) := by
  obtain ⟨result, rfl, rfl⟩ := Option.map_eq_some_iff.mp same
  rw [Outcome.valued_valued, show form ∘ value = final from funext formed]
  rfl

theorem held_zero (size : Nat) : Held size (0 : UInt32).toNat 0 0 := fun _ => ⟨rfl, by decide⟩

theorem u32_eq (c : Cursor) : u32 c = some (Reader.u32 c) := by
  have same := (unsignedDigit_faithful 32 (by decide)).run (by decide) c.rest c.pos 0 (held_zero 32)
  rw [Reader.u32, Outcome.bind_pure_eq]
  exact valued_of_valued same fun _ => rfl

theorem u64_eq (c : Cursor) : u64 c = some (Reader.u64 c) := by
  have same := (unsignedDigit_faithful 64 (by decide)).run (by decide) c.rest c.pos 0 (held_zero 64)
  have formed : (u64 c).map (Outcome.valued id) = some (Outcome.valued Nat.toUInt64 (Reader.unsigned 64 c)) :=
    valued_of_valued same fun _ => UInt64.ofNat_toNat
  rw [Reader.u64, Outcome.bind_pure_eq, ← formed, show Outcome.valued id = id from funext Outcome.valued_id]
  exact (Option.map_id_apply).symm

theorem s32_eq (c : Cursor) : s32 c = some (Reader.s32 c) := by
  have same := (signedDigit_faithful 32 (by decide)).run (by decide) c.rest c.pos 0 (held_zero 32)
  rw [Reader.s32, Outcome.bind_pure_eq]
  exact valued_of_valued same fun _ => rfl

theorem s64_eq (c : Cursor) : s64 c = some (Reader.s64 c) := by
  have same := (signedDigit_faithful 64 (by decide)).run (by decide) c.rest c.pos 0 (held_zero 64)
  rw [Reader.s64, Outcome.bind_pure_eq]
  exact valued_of_valued same fun word => Int64.ofInt_toInt word.toInt64

theorem s33After_eq (first : UInt8) (c : Cursor) : s33After first c = some (Reader.signedAfter 33 first c) := by
  have faithful : Faithful (fun word => word.toInt64.toInt) 33 (signedDigit 33) (Leb128.signedDigit 33) :=
    signedDigit_faithful 33 (by decide)
  refine Eq.trans (faithful.step first (held_zero 33) c (Leb128.digits (Leb128.signedDigit 33) c.rest c.pos 7)
    fun _ held => faithful.run (by decide) c.rest c.pos 7 held) ?_
  rw [UInt32.toNat_zero, Reader.signedAfter]
  cases Leb128.signedDigit 33 0 0 first <;> rfl

end Word

/-! ## Exactness -/

/-- Integers are read exactly. A reader gives a value where the bytes ahead start with an encoding of it, and nowhere
else; it takes the bytes of that encoding and no more. The same is read with machine words, and no sum, difference or
shift of them is ever out of its range. Hence a value is read back from each of its padded encodings. -/
theorem integers_read_exactly :
    (Exactly Reader.u32 fun bs v => Unsigned 32 bs ∧ v.toNat = total bs) ∧
    (Exactly Reader.u64 fun bs v => Unsigned 64 bs ∧ v.toNat = total bs) ∧
    (Exactly Reader.s32 fun bs v => Signed 32 bs ∧ v.toInt = signedTotal bs) ∧
    (Exactly Reader.s64 fun bs v => Signed 64 bs ∧ v.toInt = signedTotal bs) ∧
    (∀ first, Exactly (Reader.signedAfter 33 first) fun bs v =>
      Signed 33 (first :: bs) ∧ v = signedTotal (first :: bs)) ∧
    (∀ c, Word.u32 c = some (Reader.u32 c)) ∧
    (∀ c, Word.u64 c = some (Reader.u64 c)) ∧
    (∀ c, Word.s32 c = some (Reader.s32 c)) ∧
    (∀ c, Word.s64 c = some (Reader.s64 c)) ∧
    (∀ first c, Word.s33After first c = some (Reader.signedAfter 33 first c)) ∧
    (∀ (v : UInt32) length, (Encode.unsigned v.toNat).length ≤ length → length ≤ maxLength 32 →
      Reads Reader.u32 (Encode.padded length v.toNat) v) ∧
    (∀ (v : UInt64) length, (Encode.unsigned v.toNat).length ≤ length → length ≤ maxLength 64 →
      Reads Reader.u64 (Encode.padded length v.toNat) v) ∧
    (∀ (v : Int32) length, (Encode.signed v.toInt).length ≤ length → length ≤ maxLength 32 →
      Reads Reader.s32 (Encode.padded length v.toInt) v) ∧
    (∀ (v : Int64) length, (Encode.signed v.toInt).length ≤ length → length ≤ maxLength 64 →
      Reads Reader.s64 (Encode.padded length v.toInt) v) ∧
    (∀ (z : Int) length, -2 ^ 32 ≤ z → z < 2 ^ 32 → (Encode.signed z).length ≤ length → length ≤ maxLength 33 →
      ∃ first more, Encode.padded length z = first :: more ∧ Reads (Reader.signedAfter 33 first) more z) := by
  refine ⟨Reader.u32_exactly, Reader.u64_exactly, Reader.s32_exactly, Reader.s64_exactly,
    Reader.signedAfter_exactly 33, Word.u32_eq, Word.u64_eq, Word.s32_eq, Word.s64_eq, Word.s33After_eq,
    ?_, ?_, ?_, ?_, ?_⟩
  · intro v length shortest longest
    exact Reader.u32_exactly.reads (Unsigned.padded v.toNat_lt shortest longest)
  · intro v length shortest longest
    exact Reader.u64_exactly.reads (Unsigned.padded v.toNat_lt shortest longest)
  · intro v length shortest longest
    exact Reader.s32_exactly.reads (Signed.padded v.le_toInt v.toInt_lt shortest longest)
  · intro v length shortest longest
    exact Reader.s64_exactly.reads (Signed.padded v.le_toInt v.toInt_lt shortest longest)
  · intro z length low high shortest longest
    have writes : Signed 33 (Encode.padded length z) ∧ z = signedTotal (Encode.padded length z) :=
      Signed.padded low high shortest longest
    obtain ⟨first, more, split⟩ := List.exists_cons_of_length_pos writes.1.delimited.length_pos
    rw [split] at writes
    exact ⟨first, more, split, (Reader.signedAfter_exactly 33 first).reads writes⟩

end Binary

end Wasm

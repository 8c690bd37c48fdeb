import Wasm.Proofs.Encoding.Reading

/-! # Integers of variable length, read exactly

Which bytes write an integer of a given width is said without reading: all bytes but the last have their top bit set,
they are no more than the width takes, and the number that their digits amount to is one of the width. A reader of
integers gives a value exactly where such bytes are next, it gives their value, and it takes no byte more. So a value
can be padded, from its shortest encoding up to the longest that the width admits, and is read back the same.
-/

namespace Wasm.Binary

/-- The bytes between two cursors. -/
def Cursor.Passes (c : Cursor) (bs : List UInt8) (d : Cursor) : Prop :=
  c.rest = bs ++ d.rest ∧ d.pos = c.pos + bs.length

namespace Cursor

theorem passes_nil {c d : Cursor} : c.Passes [] d ↔ c = d := by
  constructor
  · rintro ⟨rest, pos⟩
    cases c
    cases d
    simp_all
  · rintro rfl
    exact ⟨rfl, rfl⟩

theorem passes_cons {pos : Nat} {b : UInt8} {bs rest : List UInt8} {d : Cursor} :
    Passes ⟨pos, b :: rest⟩ (b :: bs) d ↔ Passes ⟨pos + 1, rest⟩ bs d := by
  simp only [Passes, List.cons_append, List.cons.injEq, true_and, List.length_cons, Nat.add_assoc, Nat.add_comm 1]

/-- The first of the bytes is the one that the cursor stands before. -/
theorem Passes.head {pos : Nat} {b c : UInt8} {bs rest : List UInt8} {d : Cursor}
    (passes : Passes ⟨pos, c :: rest⟩ (b :: bs) d) : b = c := (List.cons.inj passes.1).1.symm

end Cursor

variable {α β : Type}

/-- The reader gives a value exactly where bytes that spell it are next, and it takes these bytes. -/
def Exactly (m : Reader α) (spells : List UInt8 → α → Prop) : Prop :=
  ∀ c a d, m c = .ok a d ↔ ∃ bs, spells bs a ∧ c.Passes bs d

namespace Exactly

variable {m : Reader α} {spells : List UInt8 → α → Prop}

theorem reads (exactly : Exactly m spells) {bs : List UInt8} {a : α} (spelt : spells bs a) : Reads m bs a :=
  fun pos rest => (exactly ⟨pos, bs ++ rest⟩ a ⟨pos + bs.length, rest⟩).mpr ⟨bs, spelt, rfl, rfl⟩

/-- A value told in another form. -/
theorem returning (exactly : Exactly m spells) {f : α → β} {spells' : List UInt8 → β → Prop}
    (same : ∀ bs b, spells' bs b ↔ ∃ a, spells bs a ∧ f a = b) : Exactly (m >>= fun a => pure (f a)) spells' := by
  intro c b d
  rw [Outcome.bind_ok_iff]
  simp only [Outcome.pure_ok_iff, exactly c, same]
  constructor
  · rintro ⟨a, e, ⟨bs, spelt, passes⟩, rfl, rfl⟩
    exact ⟨bs, ⟨a, spelt, rfl⟩, passes⟩
  · rintro ⟨bs, ⟨a, spelt, rfl⟩, passes⟩
    exact ⟨a, d, ⟨bs, spelt, passes⟩, rfl, rfl⟩

end Exactly

namespace Leb128

/-! ## What bytes amount to -/

/-- All bytes but the last have their top bit set. -/
def Delimited (bs : List UInt8) : Prop :=
  ∃ front last, bs = front ++ [last] ∧ (∀ b ∈ front, 128 ≤ b.toNat) ∧ last.toNat < 128

/-- The number whose digits to the base 128 the bytes are, lowest first. -/
def total (bs : List UInt8) : Nat := Nat.ofDigits 128 (bs.map fun b => b.toNat % 128)

/-- The number that the bytes write with a sign, which bit 6 of the last byte holds. -/
def signedTotal (bs : List UInt8) : Int :=
  total bs - if bs.getLast?.any (fun b => b.toNat.testBit 6) then 128 ^ bs.length else 0

/-- The most bytes that an integer of `size` bits takes, seven bits a byte. -/
def maxLength (size : Nat) : Nat := (size + 6) / 7

/-- The bytes write an unsigned integer of `size` bits. -/
structure Unsigned (size : Nat) (bs : List UInt8) : Prop where
  delimited : Delimited bs
  length : bs.length ≤ maxLength size
  fits : total bs < 2 ^ size

/-- The bytes write a signed integer of `size` bits. -/
structure Signed (size : Nat) (bs : List UInt8) : Prop where
  delimited : Delimited bs
  length : bs.length ≤ maxLength size
  low : -2 ^ (size - 1) ≤ signedTotal bs
  high : signedTotal bs < 2 ^ (size - 1)

theorem not_delimited_nil : ¬Delimited [] := by
  rintro ⟨front, last, split, -⟩
  simp at split

theorem Delimited.length_pos {bs : List UInt8} (delimited : Delimited bs) : 0 < bs.length := by
  obtain ⟨front, last, rfl, -⟩ := delimited
  simp

theorem delimited_cons_of_last {b : UInt8} {bs : List UInt8} (last : b.toNat < 128) :
    Delimited (b :: bs) ↔ bs = [] := by
  constructor
  · rintro ⟨front, z, split, continued, -⟩
    cases front with
    | nil => exact (List.cons.inj split).2
    | cons a front =>
      obtain ⟨rfl, -⟩ := List.cons.inj split
      have := continued b List.mem_cons_self
      omega
  · rintro rfl
    exact ⟨[], b, rfl, by simp, last⟩

theorem delimited_cons_of_continues {b : UInt8} {bs : List UInt8} (more : 128 ≤ b.toNat) :
    Delimited (b :: bs) ↔ Delimited bs := by
  constructor
  · rintro ⟨front, z, split, continued, last⟩
    cases front with
    | nil =>
      obtain ⟨rfl, -⟩ := List.cons.inj split
      omega
    | cons a front => exact ⟨front, z, (List.cons.inj split).2, fun b h => continued b (List.mem_cons_of_mem a h), last⟩
  · rintro ⟨front, z, rfl, continued, last⟩
    exact ⟨b :: front, z, rfl, List.forall_mem_cons.mpr ⟨more, continued⟩, last⟩

theorem total_cons (b : UInt8) (bs : List UInt8) : total (b :: bs) = payload b + 128 * total bs := by
  simp [total, payload, Nat.ofDigits_cons]

theorem total_singleton (b : UInt8) : total [b] = payload b := total_cons b []

theorem payload_lt (b : UInt8) : payload b < 128 := Nat.mod_lt _ (by decide)

theorem negative_eq_testBit (b : UInt8) : negative b = b.toNat.testBit 6 := by
  rw [negative, payload, Nat.testBit_eq_decide_div_mod_eq]
  exact decide_eq_decide.mpr (by omega)

theorem signedTotal_singleton (b : UInt8) :
    signedTotal [b] = if negative b then (payload b : Int) - 128 else payload b := by
  simp only [signedTotal, total_cons, negative_eq_testBit]
  split <;> simp_all [total]

theorem signedTotal_cons (b : UInt8) {bs : List UInt8} (more : bs ≠ []) :
    signedTotal (b :: bs) = payload b + 128 * signedTotal bs := by
  obtain ⟨c, cs, rfl⟩ := List.exists_cons_of_ne_nil more
  rw [signedTotal, signedTotal, total_cons, List.getLast?_cons_cons, List.length_cons]
  split
  · push_cast
    ring
  · push_cast
    ring

/-- A number of bytes is no more than the width takes if the last of them starts below the width. -/
theorem le_maxLength_iff {size n : Nat} (positive : 0 < n) : n ≤ maxLength size ↔ 7 * (n - 1) < size := by
  unfold maxLength
  omega

/-! ## Digit by digit -/

/-- What a digit says about the bytes from its own on, which spell values after digits that sum to `sum`. -/
def Digit.Means (spells : (shift sum : Nat) → List UInt8 → α → Prop) (shift sum : Nat) (b : UInt8) : Digit α → Prop
  | fault _ => ∀ bs v, ¬spells shift sum (b :: bs) v
  | last w => ∀ bs v, spells shift sum (b :: bs) v ↔ bs = [] ∧ v = w
  | more sum' => ∀ bs v, spells shift sum (b :: bs) v ↔ spells (shift + 7) sum' bs v

/-- Every digit says what the bytes from its own on spell, and no bytes spell nothing. -/
structure Exact (digit : (shift sum : Nat) → UInt8 → Digit α)
    (spells : (shift sum : Nat) → List UInt8 → α → Prop) : Prop where
  nil : ∀ shift sum v, ¬spells shift sum [] v
  cons : ∀ shift sum b, (digit shift sum b).Means spells shift sum b

namespace Exact

variable {digit : (shift sum : Nat) → UInt8 → Digit α} {spells : (shift sum : Nat) → List UInt8 → α → Prop}

/-- One digit, and then what is read after it. -/
theorem step (spelling : Exact digit spells) {c d : Cursor} {v : α} {shift : Nat}
    {tail : Nat → EStateM.Result ReadFault Cursor α} (sum : Nat) (b : UInt8)
    (after : ∀ sum, tail sum = .ok v d ↔ ∃ bs, spells (shift + 7) sum bs v ∧ c.Passes bs d) :
    (match digit shift sum b with
      | .fault f => EStateM.Result.error f c
      | .last w => EStateM.Result.ok w c
      | .more sum => tail sum) = EStateM.Result.ok v d ↔ ∃ bs, spells shift sum (b :: bs) v ∧ c.Passes bs d := by
  have means := spelling.cons shift sum b
  cases read : digit shift sum b with
  | fault f =>
    rw [read, Digit.Means] at means
    simp [means]
  | last w =>
    rw [read, Digit.Means] at means
    simp only [means, EStateM.Result.ok.injEq]
    constructor
    · rintro ⟨rfl, rfl⟩
      exact ⟨[], ⟨rfl, rfl⟩, Cursor.passes_nil.mpr rfl⟩
    · rintro ⟨bs, ⟨rfl, rfl⟩, passes⟩
      exact ⟨rfl, Cursor.passes_nil.mp passes⟩
  | more sum' =>
    rw [read, Digit.Means] at means
    simp only [means, after]

theorem run (spelling : Exact digit spells) (bytes : List UInt8) (pos shift sum : Nat) (v : α) (d : Cursor) :
    digits digit bytes pos shift sum = .ok v d ↔
      ∃ bs, spells shift sum bs v ∧ Cursor.Passes ⟨pos, bytes⟩ bs d := by
  induction bytes generalizing pos shift sum with
  | nil =>
    constructor
    · intro read
      cases read
    · rintro ⟨bs, spelt, passes⟩
      obtain ⟨rfl, -⟩ := List.append_eq_nil_iff.mp passes.1.symm
      exact absurd spelt (spelling.nil shift sum v)
  | cons b rest ih =>
    have first := spelling.step (c := ⟨pos + 1, rest⟩) sum b fun sum => ih (pos + 1) (shift + 7) sum
    refine Iff.trans first ⟨?_, ?_⟩
    · rintro ⟨bs, spelt, passes⟩
      exact ⟨b :: bs, spelt, Cursor.passes_cons.mpr passes⟩
    · rintro ⟨bs, spelt, passes⟩
      cases bs with
      | nil => exact absurd spelt (spelling.nil shift sum v)
      | cons c bs =>
        obtain rfl := passes.head
        exact ⟨bs, spelt, Cursor.passes_cons.mp passes⟩

end Exact

/-! ## Unsigned integers -/

/-- The bytes spell an unsigned number of the bits from `shift` on. -/
structure UnsignedFrom (size shift sum : Nat) (bs : List UInt8) (v : Nat) : Prop where
  delimited : Delimited bs
  room : shift + 7 * (bs.length - 1) < size
  fits : total bs < 2 ^ (size - shift)
  value : v = sum + total bs * 2 ^ shift

/-- The bits of a digit beyond the width are zero exactly if the digit is a number of the bits left. -/
theorem payload_fits_iff (size shift : Nat) (b : UInt8) :
    ¬(size < shift + 7 ∧ payload b >>> (size - shift) ≠ 0) ↔ payload b < 2 ^ (size - shift) := by
  rw [Nat.shiftRight_eq_div_pow, Ne, Nat.div_eq_zero_iff_lt (Nat.two_pow_pos _)]
  refine ⟨fun legal => ?_, fun fits wrong => wrong.2 fits⟩
  by_contra large
  refine legal ⟨Nat.lt_of_not_le fun wide => ?_, large⟩
  have := payload_lt b
  have : 2 ^ 7 ≤ 2 ^ (size - shift) := Nat.pow_le_pow_right (by decide) (by omega)
  omega

section Unsigned

variable {size shift sum v : Nat} {b : UInt8} {bs : List UInt8}

theorem UnsignedFrom.head (spelt : UnsignedFrom size shift sum (b :: bs) v) :
    shift < size ∧ payload b < 2 ^ (size - shift) := by
  have room := spelt.room
  have fits := spelt.fits
  rw [total_cons] at fits
  omega

theorem unsignedFrom_last (last : b.toNat < 128) (room : shift < size) (fits : payload b < 2 ^ (size - shift)) :
    UnsignedFrom size shift sum (b :: bs) v ↔ bs = [] ∧ v = sum + payload b * 2 ^ shift := by
  constructor
  · rintro ⟨delimited, -, -, value⟩
    obtain rfl := (delimited_cons_of_last last).mp delimited
    rw [total_singleton] at value
    exact ⟨rfl, value⟩
  · rintro ⟨rfl, value⟩
    rw [← total_singleton] at fits value
    exact ⟨(delimited_cons_of_last last).mpr rfl, room, fits, value⟩

theorem unsignedFrom_more (more : 128 ≤ b.toNat) :
    UnsignedFrom size shift sum (b :: bs) v ↔ UnsignedFrom size (shift + 7) (sum + payload b * 2 ^ shift) bs v := by
  have digit := payload_lt b
  have value : sum + total (b :: bs) * 2 ^ shift = sum + payload b * 2 ^ shift + total bs * 2 ^ (shift + 7) := by
    rw [total_cons, Nat.pow_add]
    ring
  -- Another digit starts inside the width, so the width holds this one whatever it is.
  have split (wide : shift + 7 < size) : 2 ^ (size - shift) = 128 * 2 ^ (size - (shift + 7)) := by
    rw [show size - shift = 7 + (size - (shift + 7)) by omega, Nat.pow_add]
  constructor
  · rintro ⟨delimited, room, fits, rfl⟩
    have delimited := (delimited_cons_of_continues more).mp delimited
    have := delimited.length_pos
    rw [List.length_cons] at room
    have room : shift + 7 + 7 * (bs.length - 1) < size := by omega
    rw [total_cons, split (by omega)] at fits
    exact ⟨delimited, room, by omega, value⟩
  · rintro ⟨delimited, room, fits, rfl⟩
    have := delimited.length_pos
    refine ⟨(delimited_cons_of_continues more).mpr delimited, by rw [List.length_cons]; omega, ?_, value.symm⟩
    rw [total_cons, split (by omega)]
    omega

end Unsigned

theorem unsignedDigit_exact (size : Nat) : Exact (unsignedDigit size) (UnsignedFrom size) where
  nil _ _ _ spelt := not_delimited_nil spelt.delimited
  cons shift sum b := by
    unfold unsignedDigit
    split
    · rename_i long
      intro bs v spelt
      have := spelt.head
      omega
    · rename_i room
      split
      · rename_i large
        exact fun bs v spelt => (payload_fits_iff size shift b).mpr spelt.head.2 large
      · rename_i legal
        have fits := (payload_fits_iff size shift b).mp legal
        rw [Nat.shiftLeft_eq, continues]
        by_cases more : 128 ≤ b.toNat
        · rw [if_pos (decide_eq_true more)]
          exact fun bs v => unsignedFrom_more more
        · rw [if_neg (by simpa using more)]
          exact fun bs v => unsignedFrom_last (by omega) (by omega) fits

theorem unsignedFrom_zero {size v : Nat} {bs : List UInt8} :
    UnsignedFrom size 0 0 bs v ↔ Unsigned size bs ∧ v = total bs := by
  constructor
  · rintro ⟨delimited, room, fits, rfl⟩
    exact ⟨⟨delimited, (le_maxLength_iff delimited.length_pos).mpr (by omega), fits⟩, by simp⟩
  · rintro ⟨⟨delimited, length, fits⟩, rfl⟩
    exact ⟨delimited, by have := (le_maxLength_iff delimited.length_pos).mp length; omega, fits, by simp⟩

/-! ## Signed integers -/

/-- The bytes spell a signed number of the bits from `shift` on. -/
structure SignedFrom (size shift sum : Nat) (bs : List UInt8) (v : Int) : Prop where
  delimited : Delimited bs
  room : shift + 7 * (bs.length - 1) < size
  low : -2 ^ (size - shift - 1) ≤ signedTotal bs
  high : signedTotal bs < 2 ^ (size - shift - 1)
  value : v = sum + signedTotal bs * 2 ^ shift

/-- The bits of a last digit from the sign bit of the width upwards are equal exactly if the digit is a number of the
bits left. -/
theorem copiesSign_iff (size shift : Nat) (b : UInt8) :
    ¬(size < shift + 7 ∧ copiesSign size shift b = false) ↔
      -2 ^ (size - shift - 1) ≤ signedTotal [b] ∧ signedTotal [b] < 2 ^ (size - shift - 1) := by
  have digit := payload_lt b
  rw [signedTotal_singleton, negative, copiesSign, Nat.shiftRight_eq_div_pow, Nat.shiftRight_eq_div_pow]
  simp only [Bool.or_eq_false_iff, beq_eq_false_iff_ne, decide_eq_true_eq]
  by_cases narrow : size < shift + 7
  · have width : size - shift - 1 = 0 ∨ size - shift - 1 = 1 ∨ size - shift - 1 = 2 ∨ size - shift - 1 = 3 ∨
        size - shift - 1 = 4 ∨ size - shift - 1 = 5 := by omega
    rcases width with width | width | width | width | width | width <;> rw [width] <;> split <;> omega
  · have wide : (2 ^ 6 : Int) ≤ 2 ^ (size - shift - 1) := pow_le_pow_right₀ (by decide) (by omega)
    split <;> omega

section Signed

variable {size shift sum : Nat} {v : Int} {b : UInt8} {bs : List UInt8}

theorem SignedFrom.head (spelt : SignedFrom size shift sum (b :: bs) v) :
    shift < size ∧ ¬(size < shift + 7 ∧ copiesSign size shift b = false) := by
  have room := spelt.room
  rw [List.length_cons] at room
  refine ⟨by omega, ?_⟩
  cases bs with
  | nil => exact (copiesSign_iff size shift b).mpr ⟨spelt.low, spelt.high⟩
  | cons c bs =>
    rw [List.length_cons] at room
    omega

/-- The value that a last digit completes. -/
theorem signedDigit_value (shift sum : Nat) (b : UInt8) :
    (if negative b then ((sum + payload b <<< shift : Nat) : Int) - ((1 <<< (shift + 7) : Nat) : Int)
      else ((sum + payload b <<< shift : Nat) : Int)) = sum + signedTotal [b] * 2 ^ shift := by
  rw [signedTotal_singleton, Nat.shiftLeft_eq, Nat.shiftLeft_eq, Nat.pow_add]
  split
  · push_cast
    ring
  · push_cast
    rfl

theorem signedFrom_last (last : b.toNat < 128) (room : shift < size)
    (legal : ¬(size < shift + 7 ∧ copiesSign size shift b = false)) :
    SignedFrom size shift sum (b :: bs) v ↔ bs = [] ∧ v = sum + signedTotal [b] * 2 ^ shift := by
  obtain ⟨low, high⟩ := (copiesSign_iff size shift b).mp legal
  constructor
  · rintro ⟨delimited, -, -, -, value⟩
    obtain rfl := (delimited_cons_of_last last).mp delimited
    exact ⟨rfl, value⟩
  · rintro ⟨rfl, value⟩
    exact ⟨(delimited_cons_of_last last).mpr rfl, room, low, high, value⟩

theorem signedFrom_more (more : 128 ≤ b.toNat) :
    SignedFrom size shift sum (b :: bs) v ↔ SignedFrom size (shift + 7) (sum + payload b * 2 ^ shift) bs v := by
  have digit := payload_lt b
  have value (nonempty : bs ≠ []) : (sum : Int) + signedTotal (b :: bs) * 2 ^ shift =
      ((sum + payload b * 2 ^ shift : Nat) : Int) + signedTotal bs * 2 ^ (shift + 7) := by
    rw [signedTotal_cons b nonempty, pow_add]
    push_cast
    ring
  -- Another digit starts inside the width, so the width holds this one whatever it is.
  have split (wide : shift + 7 < size) : (2 : Int) ^ (size - shift - 1) = 128 * 2 ^ (size - (shift + 7) - 1) := by
    rw [show size - shift - 1 = 7 + (size - (shift + 7) - 1) by omega, pow_add]
    rfl
  constructor
  · rintro ⟨delimited, room, low, high, rfl⟩
    have delimited := (delimited_cons_of_continues more).mp delimited
    have nonempty := List.length_pos_iff.mp delimited.length_pos
    have := delimited.length_pos
    rw [List.length_cons] at room
    have room : shift + 7 + 7 * (bs.length - 1) < size := by omega
    rw [signedTotal_cons b nonempty, split (by omega)] at low high
    exact ⟨delimited, room, by omega, by omega, value nonempty⟩
  · rintro ⟨delimited, room, low, high, rfl⟩
    have nonempty := List.length_pos_iff.mp delimited.length_pos
    have := delimited.length_pos
    refine ⟨(delimited_cons_of_continues more).mpr delimited, by rw [List.length_cons]; omega, ?_, ?_,
      (value nonempty).symm⟩
    · rw [signedTotal_cons b nonempty, split (by omega)]
      omega
    · rw [signedTotal_cons b nonempty, split (by omega)]
      omega

end Signed

theorem signedDigit_exact (size : Nat) : Exact (signedDigit size) (SignedFrom size) where
  nil _ _ _ spelt := not_delimited_nil spelt.delimited
  cons shift sum b := by
    unfold signedDigit
    split
    · rename_i long
      intro bs v spelt
      have := spelt.head
      omega
    · rename_i room
      split
      · rename_i large
        exact fun bs v spelt => spelt.head.2 large
      · rename_i legal
        simp only [signedDigit_value]
        rw [Nat.shiftLeft_eq, continues]
        by_cases more : 128 ≤ b.toNat
        · rw [if_pos (decide_eq_true more)]
          exact fun bs v => signedFrom_more more
        · rw [if_neg (by simpa using more)]
          exact fun bs v => signedFrom_last (by omega) (by omega) legal

theorem signedFrom_zero {size : Nat} {v : Int} {bs : List UInt8} :
    SignedFrom size 0 0 bs v ↔ Signed size bs ∧ v = signedTotal bs := by
  constructor
  · rintro ⟨delimited, room, low, high, rfl⟩
    exact ⟨⟨delimited, (le_maxLength_iff delimited.length_pos).mpr (by omega), low, high⟩, by simp⟩
  · rintro ⟨⟨delimited, length, low, high⟩, rfl⟩
    exact ⟨delimited, by have := (le_maxLength_iff delimited.length_pos).mp length; omega, low, high, by simp⟩

end Leb128

/-! ## The readers -/

open Leb128

namespace Reader

theorem unsigned_exactly (size : Nat) :
    Exactly (Reader.unsigned size) fun bs v => Unsigned size bs ∧ v = total bs := by
  intro c v d
  simp only [← unsignedFrom_zero]
  exact (unsignedDigit_exact size).run c.rest c.pos 0 0 v d

theorem signed_exactly (size : Nat) :
    Exactly (Reader.signed size) fun bs v => Signed size bs ∧ v = signedTotal bs := by
  intro c v d
  simp only [← signedFrom_zero]
  exact (signedDigit_exact size).run c.rest c.pos 0 0 v d

/-- The byte that was taken before is one of the integer's, but none that is taken now. -/
theorem signedAfter_exactly (size : Nat) (first : UInt8) :
    Exactly (Reader.signedAfter size first) fun bs v => Signed size (first :: bs) ∧ v = signedTotal (first :: bs) := by
  intro c v d
  simp only [← signedFrom_zero]
  have spelling := signedDigit_exact size
  refine Iff.trans ?_ (spelling.step (c := c) 0 first fun sum => spelling.run c.rest c.pos 7 sum v d)
  unfold Reader.signedAfter
  cases signedDigit size 0 0 first <;> rfl

theorem u32_exactly : Exactly Reader.u32 fun bs v => Unsigned 32 bs ∧ v.toNat = total bs := by
  refine (unsigned_exactly 32).returning fun bs v => ?_
  constructor
  · rintro ⟨writes, value⟩
    exact ⟨_, ⟨writes, rfl⟩, by rw [← value]; exact UInt32.ofNat_toNat⟩
  · rintro ⟨n, ⟨writes, rfl⟩, rfl⟩
    exact ⟨writes, UInt32.toNat_ofNat_of_lt' writes.fits⟩

theorem u64_exactly : Exactly Reader.u64 fun bs v => Unsigned 64 bs ∧ v.toNat = total bs := by
  refine (unsigned_exactly 64).returning fun bs v => ?_
  constructor
  · rintro ⟨writes, value⟩
    exact ⟨_, ⟨writes, rfl⟩, by rw [← value]; exact UInt64.ofNat_toNat⟩
  · rintro ⟨n, ⟨writes, rfl⟩, rfl⟩
    exact ⟨writes, UInt64.toNat_ofNat_of_lt' writes.fits⟩

theorem s32_exactly : Exactly Reader.s32 fun bs v => Signed 32 bs ∧ v.toInt = signedTotal bs := by
  refine (signed_exactly 32).returning fun bs v => ?_
  constructor
  · rintro ⟨writes, value⟩
    exact ⟨_, ⟨writes, rfl⟩, by rw [← value, Int32.ofInt_toInt]⟩
  · rintro ⟨z, ⟨writes, rfl⟩, rfl⟩
    exact ⟨writes, Int32.toInt_ofInt_of_le writes.low writes.high⟩

theorem s64_exactly : Exactly Reader.s64 fun bs v => Signed 64 bs ∧ v.toInt = signedTotal bs := by
  refine (signed_exactly 64).returning fun bs v => ?_
  constructor
  · rintro ⟨writes, value⟩
    exact ⟨_, ⟨writes, rfl⟩, by rw [← value, Int64.ofInt_toInt]⟩
  · rintro ⟨z, ⟨writes, rfl⟩, rfl⟩
    exact ⟨writes, Int64.toInt_ofInt_of_le writes.low writes.high⟩

end Reader

/-! ## Padded encodings -/

namespace Encode

/-- A number in as many bytes as one likes, seven bits a byte. -/
def padded : (length : Nat) → Int → List UInt8
  | 0, _ => []
  | 1, z => [(z % 128).toNat.toUInt8]
  | length + 2, z => ((z % 128).toNat + 128).toUInt8 :: padded (length + 1) (z / 128)

@[simp] theorem padded_length (length : Nat) (z : Int) : (padded length z).length = length := by
  fun_induction padded length z with
  | case1 z => rfl
  | case2 z => rfl
  | case3 length z ih => simp [ih]

theorem padded_delimited (length : Nat) (z : Int) : Delimited (padded (length + 1) z) := by
  induction length generalizing z with
  | zero =>
    refine (delimited_cons_of_last ?_).mpr rfl
    rw [Nat.toUInt8, UInt8.toNat_ofNat']
    omega
  | succ length ih =>
    refine (delimited_cons_of_continues ?_).mpr (ih (z / 128))
    rw [Nat.toUInt8, UInt8.toNat_ofNat']
    omega

theorem total_padded {length n : Nat} (fits : n < 128 ^ (length + 1)) : total (padded (length + 1) n) = n := by
  induction length generalizing n with
  | zero =>
    rw [padded, total_singleton, payload_toUInt8]
    omega
  | succ length ih =>
    rw [pow_succ] at fits
    rw [padded, total_cons, payload_toUInt8, show (n : Int) / 128 = ((n / 128 : Nat) : Int) by omega,
      ih (Nat.div_lt_of_lt_mul (by omega))]
    omega

theorem signedTotal_padded {length : Nat} {z : Int} (low : -(64 * 128 ^ length) ≤ z) (high : z < 64 * 128 ^ length) :
    signedTotal (padded (length + 1) z) = z := by
  induction length generalizing z with
  | zero =>
    rw [padded, signedTotal_singleton, negative, payload_toUInt8]
    split <;> simp_all <;> omega
  | succ length ih =>
    rw [pow_succ] at low high
    have more : padded (length + 1) (z / 128) ≠ [] := List.length_pos_iff.mp (by simp)
    rw [padded, signedTotal_cons _ more, payload_toUInt8, ih (by omega) (by omega)]
    omega

theorem unsigned_length_le_iff (length n : Nat) : (unsigned n).length ≤ length + 1 ↔ n < 128 ^ (length + 1) := by
  induction n using unsigned.induct generalizing length with
  | case1 n last =>
    have : 128 ^ 1 ≤ 128 ^ (length + 1) := Nat.pow_le_pow_right (by decide) (by omega)
    rw [unsigned, if_pos last]
    simp
    omega
  | case2 n more ih =>
    rw [unsigned, if_neg more, List.length_cons]
    cases length with
    | zero =>
      have := List.length_pos_iff.mpr (unsigned_ne_nil (n / 128))
      omega
    | succ length =>
      have := ih length
      rw [pow_succ]
      omega

theorem signed_ne_nil (z : Int) : signed z ≠ [] := by
  unfold signed
  split <;> simp

theorem signed_length_le_iff (length : Nat) (z : Int) :
    (signed z).length ≤ length + 1 ↔ -(64 * 128 ^ length) ≤ z ∧ z < 64 * 128 ^ length := by
  induction z using signed.induct generalizing length with
  | case1 z last =>
    have : (128 : Int) ^ 0 ≤ 128 ^ length := pow_le_pow_right₀ (by decide) (by omega)
    rw [signed, if_pos last]
    simp
    omega
  | case2 z more ih =>
    rw [signed, if_neg more, List.length_cons]
    cases length with
    | zero =>
      have := List.length_pos_iff.mpr (signed_ne_nil (z / 128))
      omega
    | succ length =>
      have := ih length
      rw [pow_succ]
      omega

end Encode

section Padded

variable {size length : Nat}

theorem Leb128.Unsigned.padded {n : Nat} (fits : n < 2 ^ size) (shortest : (Encode.unsigned n).length ≤ length)
    (longest : length ≤ maxLength size) :
    Unsigned size (Encode.padded length n) ∧ n = total (Encode.padded length n) := by
  have nonempty := List.length_pos_iff.mpr (Encode.unsigned_ne_nil n)
  obtain ⟨length, rfl⟩ := Nat.exists_eq_add_one_of_ne_zero (show length ≠ 0 by omega)
  have value := Encode.total_padded ((Encode.unsigned_length_le_iff length n).mp shortest)
  exact ⟨⟨Encode.padded_delimited length n, by rwa [Encode.padded_length], by rwa [value]⟩, value.symm⟩

theorem Leb128.Signed.padded {z : Int} (low : -2 ^ (size - 1) ≤ z) (high : z < 2 ^ (size - 1))
    (shortest : (Encode.signed z).length ≤ length) (longest : length ≤ maxLength size) :
    Signed size (Encode.padded length z) ∧ z = signedTotal (Encode.padded length z) := by
  have nonempty := List.length_pos_iff.mpr (Encode.signed_ne_nil z)
  obtain ⟨length, rfl⟩ := Nat.exists_eq_add_one_of_ne_zero (show length ≠ 0 by omega)
  obtain ⟨below, above⟩ := (Encode.signed_length_le_iff length z).mp shortest
  have value := Encode.signedTotal_padded below above
  exact ⟨⟨Encode.padded_delimited length z, by rwa [Encode.padded_length], by rwa [value], by rwa [value]⟩,
    value.symm⟩

end Padded

end Wasm.Binary

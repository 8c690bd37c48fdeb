import Wasm.Binary.Instruction
import Wasm.Proofs.Outcome

/-! # Reading back what was written

Numbers, texts and vectors as the binary format writes them, in as few bytes as they take. A reader reads bytes as a
value if it takes just these bytes, whatever follows them, and gives the value; readers that run one after the other
then read what was written one after the other.
-/

namespace Wasm.Binary

namespace Encode

/-- An unsigned number, seven bits a byte. -/
def unsigned (n : Nat) : List UInt8 :=
  if n < 128 then [n.toUInt8] else (n % 128 + 128).toUInt8 :: unsigned (n / 128)

/-- A signed number: the last byte is the first one whose sign is that of all that is left. -/
def signed (z : Int) : List UInt8 :=
  if -64 ≤ z ∧ z < 64 then [(z % 128).toNat.toUInt8] else ((z % 128).toNat + 128).toUInt8 :: signed (z / 128)
termination_by z.natAbs

def u32 (n : UInt32) : List UInt8 := unsigned n.toNat

/-- The lowest `size` bytes of a number, lowest first. -/
def littleEndian : (size : Nat) → Nat → List UInt8
  | 0, _ => []
  | size + 1, n => n.toUInt8 :: littleEndian size (n / 256)

/-- Bytes with their number before them. -/
def bytes (bs : List UInt8) : List UInt8 := unsigned bs.length ++ bs

def text (s : String) : List UInt8 := bytes s.toByteArray.data.toList

/-- Entries with their number before them. -/
def vector {α : Type} (entry : α → List UInt8) (xs : List α) : List UInt8 := unsigned xs.length ++ xs.flatMap entry

@[simp] theorem unsigned_ne_nil (n : Nat) : unsigned n ≠ [] := by
  unfold unsigned
  split <;> simp

@[simp] theorem u32_ne_nil (n : UInt32) : u32 n ≠ [] := unsigned_ne_nil n.toNat

@[simp] theorem littleEndian_length (size n : Nat) : (littleEndian size n).length = size := by
  induction size generalizing n with
  | zero => rfl
  | succ size ih => simp [littleEndian, ih]

end Encode

/-- Entries none of which is empty are no more than their bytes. -/
theorem length_le_flatMap {α β : Type} {f : α → List β} {xs : List α} (each : ∀ x ∈ xs, f x ≠ []) :
    xs.length ≤ (xs.flatMap f).length := by
  induction xs with
  | nil => simp
  | cons x xs ih =>
    obtain ⟨here, others⟩ := List.forall_mem_cons.mp each
    have first := List.length_pos_iff.mpr here
    have rest := ih others
    rw [List.flatMap_cons, List.length_append, List.length_cons]
    omega

variable {ε α β : Type}

theorem Decoder.lift_ok_iff {m : Reader α} {a : α} {c d : Cursor} :
    (liftM m : Decoder α) c = .ok a d ↔ m c = .ok a d := by
  show EStateM.adaptExcept DecodeError.read m c = .ok a d ↔ _
  unfold EStateM.adaptExcept
  cases m c <;> simp

/-- The reader takes these bytes, whatever follows them, and gives the value. -/
def Reads (m : EStateM ε Cursor α) (bytes : List UInt8) (a : α) : Prop :=
  ∀ pos rest, m ⟨pos, bytes ++ rest⟩ = .ok a ⟨pos + bytes.length, rest⟩

namespace Reads

variable {m : EStateM ε Cursor α} {f : α → EStateM ε Cursor β} {xs ys : List UInt8} {a : α} {b : β}

theorem pure (a : α) : Reads (Pure.pure a : EStateM ε Cursor α) [] a := fun _ _ => rfl

theorem bind (first : Reads m xs a) (second : Reads (f a) ys b) : Reads (m >>= f) (xs ++ ys) b := by
  intro pos rest
  rw [List.append_assoc, Outcome.bind_of_ok (first pos (ys ++ rest)), second, List.length_append, Nat.add_assoc]

/-- A reader that reads nothing more. -/
theorem bind_nil (first : Reads m xs a) (second : Reads (f a) [] b) : Reads (m >>= f) xs b :=
  List.append_nil xs ▸ first.bind second

theorem returning (first : Reads m xs a) (g : α → β) : Reads (m >>= fun a => Pure.pure (g a)) xs (g a) :=
  first.bind_nil (pure (g a))

theorem map (first : Reads m xs a) (g : α → β) : Reads (g <$> m) xs (g a) := by
  intro pos rest
  show EStateM.map g m _ = _
  unfold EStateM.map
  rw [first]

theorem adaptExcept {ε' : Type} (g : ε → ε') (inside : Reads m xs a) : Reads (EStateM.adaptExcept g m) xs a := by
  intro pos rest
  unfold EStateM.adaptExcept
  rw [inside]

theorem lift {m : Reader α} (inside : Reads m xs a) : Reads (liftM m : Decoder α) xs a := fun pos rest =>
  Decoder.lift_ok_iff.mpr (inside pos rest)

end Reads

/-! ## Integers -/

namespace Leb128

theorem payload_toUInt8 (n : Nat) : payload n.toUInt8 = n % 128 := by
  rw [payload, Nat.toUInt8, UInt8.toNat_ofNat']
  omega

theorem continues_toUInt8 {n : Nat} (small : n < 256) : continues n.toUInt8 = decide (128 ≤ n) := by
  rw [continues, Nat.toUInt8, UInt8.toNat_ofNat', Nat.mod_eq_of_lt small]

/-- The digits of a number that fits into the bits from `shift` on are all legal and add up to it. -/
theorem digits_unsigned {size shift n : Nat} (room : shift < size) (fits : n < 2 ^ (size - shift)) (sum pos : Nat)
    (rest : List UInt8) :
    digits (unsignedDigit size) (Encode.unsigned n ++ rest) pos shift sum =
      .ok (sum + n * 2 ^ shift) ⟨pos + (Encode.unsigned n).length, rest⟩ := by
  induction n using Encode.unsigned.induct generalizing shift sum pos with
  | case1 n last =>
    have legal : n >>> (size - shift) = 0 := by
      rw [Nat.shiftRight_eq_div_pow]
      exact Nat.div_eq_of_lt fits
    rw [Encode.unsigned, if_pos last, List.singleton_append, digits, unsignedDigit, payload_toUInt8,
      continues_toUInt8 (by omega), Nat.mod_eq_of_lt last, if_neg (by omega), if_neg (by simp [legal]),
      decide_eq_false (by omega), Nat.shiftLeft_eq]
    rfl
  | case2 n more ih =>
    -- A second digit is called for only if seven bits do not hold the number, so it starts inside the width.
    have wide : shift + 7 < size := by
      refine Nat.lt_of_not_le fun narrow => ?_
      have : 2 ^ (size - shift) ≤ 2 ^ 7 := Nat.pow_le_pow_right (by decide) (by omega)
      omega
    have split : 2 ^ (size - shift) = 2 ^ (size - (shift + 7)) * 128 := by
      rw [show size - shift = size - (shift + 7) + 7 by omega, Nat.pow_add]
    have total : sum + n % 128 * 2 ^ shift + n / 128 * 2 ^ (shift + 7) = sum + n * 2 ^ shift := by
      rw [Nat.pow_add, Nat.add_assoc, Nat.mul_comm (2 ^ shift), ← Nat.mul_assoc, ← Nat.add_mul]
      congr 2
      omega
    rw [Encode.unsigned, if_neg more, List.cons_append, digits, unsignedDigit, payload_toUInt8,
      continues_toUInt8 (by omega), if_neg (by omega), if_neg (by omega), decide_eq_true (by omega)]
    simp only [if_true]
    rw [ih wide (Nat.div_lt_of_lt_mul (by omega)), Nat.shiftLeft_eq, List.length_cons,
      show (n % 128 + 128) % 128 = n % 128 by omega, total, Nat.add_assoc pos 1, Nat.add_comm 1]

/-- In the last byte of a number, the bits beyond its width are copies of the sign. -/
theorem copiesSign_last {size shift : Nat} {z : Int} (narrow : size < shift + 7) (room : shift < size)
    (low : -((2 ^ (size - shift - 1) : Nat) : Int) ≤ z) (high : z < ((2 ^ (size - shift - 1) : Nat) : Int)) :
    copiesSign size shift (z % 128).toNat.toUInt8 = true := by
  rw [copiesSign, payload_toUInt8, Nat.shiftRight_eq_div_pow, Nat.shiftRight_eq_div_pow, Bool.or_eq_true,
    beq_iff_eq, beq_iff_eq]
  generalize width : size - shift - 1 = k at low high
  have : k = 0 ∨ k = 1 ∨ k = 2 ∨ k = 3 ∨ k = 4 ∨ k = 5 := by omega
  rcases this with rfl | rfl | rfl | rfl | rfl | rfl <;> omega

/-- The digits of a signed number that fits into the bits from `shift` on are all legal and add up to it. -/
theorem digits_signed {size shift : Nat} {z : Int} (room : shift < size)
    (low : -((2 ^ (size - shift - 1) : Nat) : Int) ≤ z) (high : z < ((2 ^ (size - shift - 1) : Nat) : Int))
    (sum pos : Nat) (rest : List UInt8) :
    digits (signedDigit size) (Encode.signed z ++ rest) pos shift sum =
      .ok (sum + z * ((2 ^ shift : Nat) : Int)) ⟨pos + (Encode.signed z).length, rest⟩ := by
  induction z using Encode.signed.induct generalizing shift sum pos with
  | case1 z last =>
    have legal : ¬(size < shift + 7 ∧ copiesSign size shift (z % 128).toNat.toUInt8 = false) := by
      rintro ⟨narrow, wrong⟩
      rw [copiesSign_last narrow room low high] at wrong
      cases wrong
    have sign : negative (z % 128).toNat.toUInt8 = decide (z < 0) := by
      rw [negative, payload_toUInt8]
      exact decide_eq_decide.mpr (by omega)
    rw [Encode.signed, if_pos last, List.singleton_append, digits, signedDigit, if_neg (by omega), if_neg legal,
      continues_toUInt8 (by omega), decide_eq_false (by omega), sign, payload_toUInt8, Nat.shiftLeft_eq,
      Nat.shiftLeft_eq, Nat.pow_add]
    generalize 2 ^ shift = unit
    simp only [Bool.false_eq_true, if_false, decide_eq_true_eq]
    congr 1
    generalize digit : (z % 128).toNat % 128 = d
    split
    · rw [show z = (d : Int) - 128 by omega, Int.sub_mul, Int.natCast_add, Int.natCast_mul]
      omega
    · rw [show z = (d : Int) by omega, Int.natCast_add, Int.natCast_mul]
  | case2 z more ih =>
    -- A second digit is called for only if seven bits do not hold the number and its sign.
    have wide : shift + 8 ≤ size := by
      refine Nat.le_of_not_lt fun narrow => more ?_
      have : 2 ^ (size - shift - 1) ≤ 2 ^ 6 := Nat.pow_le_pow_right (by decide) (by omega)
      omega
    have split : 2 ^ (size - shift - 1) = 2 ^ (size - (shift + 7) - 1) * 128 := by
      rw [show size - shift - 1 = size - (shift + 7) - 1 + 7 by omega, Nat.pow_add]
    have total : ((sum + (z % 128).toNat * 2 ^ shift : Nat) : Int) + z / 128 * ((2 ^ (shift + 7) : Nat) : Int) =
        sum + z * ((2 ^ shift : Nat) : Int) := by
      rw [Nat.pow_add, Nat.mul_comm (2 ^ shift), Int.natCast_add, Int.natCast_mul, Int.natCast_mul, ← Int.mul_assoc,
        Int.add_assoc, ← Int.add_mul]
      congr 2
      omega
    rw [Encode.signed, if_neg more, List.cons_append, digits, signedDigit, if_neg (by omega), if_neg (by omega),
      continues_toUInt8 (by omega), decide_eq_true (by omega), payload_toUInt8, Nat.shiftLeft_eq]
    simp only [if_true]
    rw [ih (by omega) (by omega) (by omega), List.length_cons,
      show ((z % 128).toNat + 128) % 128 = (z % 128).toNat by omega, total, Nat.add_assoc pos 1, Nat.add_comm 1]

end Leb128

namespace Reads

theorem byte (b : UInt8) : Reads Reader.byte [b] b := fun _ _ => rfl

theorem unsigned {size n : Nat} (room : 0 < size) (fits : n < 2 ^ size) :
    Reads (Reader.unsigned size) (Encode.unsigned n) n := by
  intro pos rest
  rw [Reader.unsigned, Leb128.digits_unsigned room fits]
  simp

theorem signed {size : Nat} {z : Int} (room : 0 < size) (low : -((2 ^ (size - 1) : Nat) : Int) ≤ z)
    (high : z < ((2 ^ (size - 1) : Nat) : Int)) : Reads (Reader.signed size) (Encode.signed z) z := by
  intro pos rest
  rw [Reader.signed, Leb128.digits_signed room low high]
  simp

theorem u32_of_lt {n : Nat} (fits : n < 2 ^ 32) : Reads Reader.u32 (Encode.unsigned n) n.toUInt32 :=
  (unsigned (by decide) fits).returning _

theorem u32 (n : UInt32) : Reads Reader.u32 (Encode.u32 n) n := by
  have read := u32_of_lt n.toNat_lt
  rwa [show n.toNat.toUInt32 = n from UInt32.ofNat_toNat] at read

theorem s32 (z : Int32) : Reads Reader.s32 (Encode.signed z.toInt) z := by
  have number : Reads (Reader.signed 32) (Encode.signed z.toInt) z.toInt := signed (by decide) z.le_toInt z.toInt_lt
  have read := number.returning Int32.ofInt
  rwa [Int32.ofInt_toInt] at read

theorem s64 (z : Int64) : Reads Reader.s64 (Encode.signed z.toInt) z := by
  have number : Reads (Reader.signed 64) (Encode.signed z.toInt) z.toInt := signed (by decide) z.le_toInt z.toInt_lt
  have read := number.returning Int64.ofInt
  rwa [Int64.ofInt_toInt] at read

/-! ## Bytes and texts -/

theorem take (bs : List UInt8) : Reads (Reader.take bs.length) bs bs := by
  intro pos rest
  have enough : holdsAtLeast bs.length (bs ++ rest) = true := (holdsAtLeast_iff _ _).mpr (by simp)
  simp [Reader.take, enough]

theorem vector {n : Nat} (v : Vector UInt8 n) : Reads (Reader.vector n) v.toList v := by
  intro pos rest
  simp [Reader.vector, Vector.toList]

/-- Bytes after their number. -/
theorem take_sized {bs : List UInt8} (fits : bs.length < 2 ^ 32) :
    Reads (Reader.take bs.length.toUInt32.toNat) bs bs := by
  rw [Nat.toUInt32, UInt32.toNat_ofNat_of_lt' fits]
  exact take bs

theorem frame_sized {bs : List UInt8} (fits : bs.length < 2 ^ 32) :
    Reads (Reader.frame bs.length.toUInt32.toNat) bs (.ofBytes bs) := (take_sized fits).returning _

end Reads

theorem littleEndian_encode (size n : Nat) : littleEndian (Encode.littleEndian size n) = n % 256 ^ size := by
  induction size generalizing n with
  | zero => simp [Encode.littleEndian, littleEndian, Nat.mod_one]
  | succ size ih =>
    rw [Encode.littleEndian, littleEndian, ih, Nat.pow_succ', Nat.mod_mul, Nat.toUInt8, UInt8.toNat_ofNat']

namespace Reads

theorem word32 (n : UInt32) : Reads Reader.word32 (Encode.littleEndian 4 n.toNat) n := by
  have fits : n.toNat < 256 ^ 4 := n.toNat_lt
  have read := (take (Encode.littleEndian 4 n.toNat)).returning fun bs => (littleEndian bs).toUInt32
  rwa [Encode.littleEndian_length, littleEndian_encode, Nat.mod_eq_of_lt fits,
    show n.toNat.toUInt32 = n from UInt32.ofNat_toNat] at read

theorem word64 (n : UInt64) : Reads Reader.word64 (Encode.littleEndian 8 n.toNat) n := by
  have fits : n.toNat < 256 ^ 8 := n.toNat_lt
  have read := (take (Encode.littleEndian 8 n.toNat)).returning fun bs => (littleEndian bs).toUInt64
  rwa [Encode.littleEndian_length, littleEndian_encode, Nat.mod_eq_of_lt fits,
    show n.toNat.toUInt64 = n from UInt64.ofNat_toNat] at read

theorem bytes {bs : List UInt8} (fits : bs.length < 2 ^ 32) : Reads Reader.bytes (Encode.bytes bs) bs :=
  (u32_of_lt fits).bind (take_sized fits)

theorem text {s : String} (fits : s.utf8ByteSize < 2 ^ 32) : Reads Reader.text (Encode.text s) s := by
  have whole : s.toByteArray.data.toList.toByteArray = s.toByteArray := ByteArray.ext (by simp)
  have read : Reads Reader.bytes (Encode.text s) s.toByteArray.data.toList := bytes fits
  refine read.bind_nil ?_
  rw [whole, String.fromUTF8?, dif_pos s.isValidUTF8]
  exact pure s

end Reads

/-! ## Vectors -/

/-- A length that is within bounds is read if at least as many bytes follow. -/
theorem Reader.count_encode {n : Nat} (few : n ≤ maxVectorEntries) (pos : Nat) {rest : List UInt8}
    (enough : n ≤ rest.length) :
    Reader.count ⟨pos, Encode.unsigned n ++ rest⟩ = .ok n ⟨pos + (Encode.unsigned n).length, rest⟩ := by
  have fits : n < 2 ^ 32 := Nat.lt_of_le_of_lt few (by decide)
  have same : n.toUInt32.toNat = n := by rw [Nat.toUInt32, UInt32.toNat_ofNat_of_lt' fits]
  have taken : holdsAtLeast n rest = true := (holdsAtLeast_iff _ _).mpr enough
  refine Outcome.bind_ok_iff.mpr ⟨_, _, Reads.u32_of_lt fits pos rest, Outcome.bind_ok_iff.mpr ⟨_, _, rfl, ?_⟩⟩
  rw [same, taken, decide_eq_true few]
  rfl

namespace Reads

/-- A reader that takes a number first, and then a byte or more for each. -/
theorem counted {f : Nat → Decoder α} {n : Nat} {ys : List UInt8} {a : α} (few : n ≤ Reader.maxVectorEntries)
    (enough : n ≤ ys.length) (next : Reads (f n) ys a) :
    Reads (liftM Reader.count >>= f) (Encode.unsigned n ++ ys) a := by
  intro pos rest
  have followed : n ≤ (ys ++ rest).length := by
    rw [List.length_append]
    omega
  have counts := Reader.count_encode few pos followed
  rw [List.append_assoc, Outcome.bind_of_ok (Decoder.lift_ok_iff.mpr counts), next, List.length_append, Nat.add_assoc]

theorem repeatedOnto {entry : Decoder α} {encode : α → List UInt8} {xs : List α} (before : List α)
    (each : ∀ x ∈ xs, Reads entry (encode x) x) :
    Reads (Decoder.repeatedOnto entry xs.length before) (xs.flatMap encode) (before.reverse ++ xs) := by
  induction xs generalizing before with
  | nil => intro pos rest; simp [Decoder.repeatedOnto]
  | cons x xs ih =>
    intro pos rest
    have others := ih (x :: before) fun y member => each y (List.mem_cons_of_mem x member)
    rw [List.flatMap_cons, List.append_assoc, List.length_cons, Decoder.repeatedOnto, each x List.mem_cons_self]
    dsimp only
    rw [others, List.length_append, Nat.add_assoc, List.reverse_cons, List.append_assoc, List.singleton_append]

/-- As many entries as were written. -/
theorem repeated {entry : Decoder α} {encode : α → List UInt8} {xs : List α}
    (each : ∀ x ∈ xs, Reads entry (encode x) x) :
    Reads (Decoder.repeated entry xs.length) (xs.flatMap encode) xs := repeatedOnto [] each

end Reads

end Wasm.Binary

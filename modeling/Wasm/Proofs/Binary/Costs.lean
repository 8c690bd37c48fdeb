import Wasm.Proofs.Binary.Credits

/-! # What the parts of a module cost

Most of what is decoded starts with a byte or with a number of one or more bytes, which leaves something over. Bytes that are
taken at once may be none, and are paid for by their count. The bytes in a frame are left over as a whole for what is done
inside, and the bytes of an expression for telling its instructions.
-/

namespace Wasm.Binary

/-! ## Readers -/

namespace Reader

theorem take_of_le {n : Nat} {c : Cursor} (enough : n ≤ c.rest.length) :
    take n c = .ok (c.rest.take n) ⟨c.pos + n, c.rest.drop n⟩ := if_pos ((holdsAtLeast_iff _ _).mpr enough)

theorem take_of_lt {n : Nat} {c : Cursor} (few : c.rest.length < n) : take n c = .error .unexpectedEnd c :=
  if_neg fun enough => Nat.not_le_of_lt few ((holdsAtLeast_iff _ _).mp enough)

theorem vector_of_le {n : Nat} {c : Cursor} (enough : n ≤ c.rest.length) :
    vector n c = .ok ⟨(c.rest.take n).toArray, by simpa using enough⟩ ⟨c.pos + n, c.rest.drop n⟩ :=
  dif_pos (List.length_take_of_le enough)

theorem vector_of_lt {n : Nat} {c : Cursor} (few : c.rest.length < n) : vector n c = .error .unexpectedEnd c := by
  refine dif_neg ?_
  rw [List.length_take]
  omega

/-- A read of a fixed number of bytes goes behind all of them, or fails where there are fewer and stays where it is. -/
def AllOrNone {α : Type} (n : Nat) (m : Reader α) : Prop :=
  ∀ c, match m c with
    | .ok _ d => n ≤ c.rest.length ∧ d = ⟨c.pos + n, c.rest.drop n⟩
    | .error _ d => c.rest.length < n ∧ d = c

namespace AllOrNone

theorem take (n : Nat) : AllOrNone n (Reader.take n) := by
  intro c
  rcases Nat.lt_or_ge c.rest.length n with few | enough
  · rw [take_of_lt few]
    exact ⟨few, rfl⟩
  · rw [take_of_le enough]
    exact ⟨enough, rfl⟩

theorem returning {α β : Type} {n : Nat} {m : Reader α} (fixed : AllOrNone n m) (g : α → β) :
    AllOrNone n (m >>= fun a => Pure.pure (g a)) := by
  intro c
  have fixed := fixed c
  cases ran : m c with
  | ok a d =>
    rw [ran] at fixed
    rw [Outcome.bind_of_ok ran]
    exact fixed
  | error e d =>
    rw [ran] at fixed
    rw [Outcome.bind_of_error ran]
    exact fixed

theorem vector (n : Nat) : AllOrNone n (Reader.vector n) := by
  intro c
  rcases Nat.lt_or_ge c.rest.length n with few | enough
  · rw [vector_of_lt few]
    exact ⟨few, rfl⟩
  · rw [vector_of_le enough]
    exact ⟨enough, rfl⟩

end AllOrNone

/-- A vector is a number of bytes taken at once. -/
theorem vector_eq (n : Nat) :
    vector n = (take n >>= fun bytes =>
      if enough : bytes.length = n then Pure.pure ⟨bytes.toArray, by simpa using enough⟩ else throw .unexpectedEnd) := by
  funext c
  rcases Nat.lt_or_ge c.rest.length n with few | enough
  · rw [vector_of_lt few, Outcome.bind_of_error (take_of_lt few)]
  · rw [vector_of_le enough, Outcome.bind_of_ok (take_of_le enough), dif_pos (List.length_take_of_le enough)]
    rfl

/-- All bytes that are left are taken at once. -/
theorem all_eq : all = (get >>= fun c => take c.remaining) := by
  funext c
  have looked : (get : Reader Cursor) c = .ok c c := rfl
  have taken : take c.remaining c = .ok c.rest ⟨c.pos + c.rest.length, []⟩ := by
    rw [Cursor.remaining, take_of_le (Nat.le_refl _), List.take_length, List.drop_length]
  rw [Outcome.bind_of_ok looked, taken]
  rfl

end Reader

/-- A number of variable length is its first byte and, if that is not the last, the others. -/
theorem Leb128.digits_eq {α : Type} (digit : (shift sum : Nat) → UInt8 → Leb128.Digit α) (shift sum : Nat) :
    (fun c : Cursor => Leb128.digits digit c.rest c.pos shift sum) = (Reader.byte >>= fun b =>
      match digit shift sum b with
      | .fault f => throw f
      | .last value => pure value
      | .more sum => fun c => Leb128.digits digit c.rest c.pos (shift + 7) sum : Reader α) := by
  funext c
  obtain ⟨pos, _ | ⟨b, rest⟩⟩ := c
  · rfl
  · have first : Reader.byte ⟨pos, b :: rest⟩ = .ok b ⟨pos + 1, rest⟩ := rfl
    rw [Outcome.bind_of_ok first, Leb128.digits]
    cases digit shift sum b <;> rfl

namespace Decoder

theorem expressionOnto_eq (depth : Nat) (before : Expr) :
    expressionOnto depth before = (instruction >>= fun i =>
      match i.nesting depth with
      | some inner => expressionOnto inner (before.push i)
      | none => pure (before.push i)) := by
  funext c
  cases decoded : instruction c with
  | error e d => rw [Outcome.bind_of_error decoded, expressionOnto_error decoded]
  | ok i d =>
    rw [Outcome.bind_of_ok decoded, expressionOnto_ok decoded]
    cases i.nesting depth <;> rfl

theorem localsOnto_succ (count total : Nat) (before : List LocalDecl) :
    localsOnto (count + 1) total before = (localDecl >>= fun d =>
      if maxLocals < total + d.count.toNat then throw (.malformed .tooManyLocals)
      else localsOnto count (total + d.count.toNat) (d :: before)) := by
  funext c
  rw [localsOnto]
  cases one : localDecl c with
  | error e d => rw [Outcome.bind_of_error one]
  | ok decl d =>
    rw [Outcome.bind_of_ok one]
    dsimp only
    split <;> rfl

end Decoder

namespace Affords

variable {α : Type}

theorem byte : Affords {} Reader.byte fun _ => ⟨3, 1⟩ := by
  rintro ⟨pos, _ | ⟨b, rest⟩⟩
  · exact ⟨_, .byte _, Nat.le_refl _, Nat.le_refl _⟩
  · refine ⟨_, .byte _, ?_, ?_⟩
    · show 1 + 3 + 4 * rest.length ≤ 0 + 4 * (rest.length + 1)
      omega
    · show 0 + 1 + rest.length ≤ 0 + (rest.length + 1)
      omega

/-- Bytes taken at once are a single step. If there are none of them, it has to be paid for by others. -/
theorem take (k n : Nat) (enough : 1 ≤ k + 4 * n) :
    Affords ⟨k, 0⟩ (Reader.take n) fun _ => ⟨k + 4 * n - 1, n⟩ := by
  intro c
  refine ⟨_, .take n c, ?_⟩
  rcases Nat.lt_or_ge c.rest.length n with few | long
  · rw [Reader.take_of_lt few]
    constructor <;> simp only [List.length_singleton, Credit.extended] <;> omega
  · rw [Reader.take_of_le long]
    constructor <;> simp only [List.length_singleton, List.length_drop] <;> omega

/-- The bytes in a frame are credit for what is done with them. -/
theorem enclosed (n : Nat) : Affords ⟨3, 0⟩ (Reader.frame n) Credit.content := by
  refine fun c => (take 3 n (by omega) c).bind fun bytes d taken => ?_
  have length : bytes.length = n := by
    rcases Nat.lt_or_ge c.rest.length n with few | long
    · rw [Reader.take_of_lt few] at taken
      cases taken
    · rw [Reader.take_of_le long] at taken
      cases taken
      exact List.length_take_of_le long
  refine pure ⟨?_, Nat.le_of_eq length⟩ d
  show 4 * bytes.length + 1 ≤ 3 + 4 * n - 1
  omega

/-- Any number of bytes, also none. -/
theorem taken (n : Nat) : Affords ⟨1, 0⟩ (Reader.take n) fun _ => {} :=
  (take 1 n (Nat.le_add_right _ _)).mono fun _ => Credit.none_le _

theorem all : Affords ⟨1, 0⟩ Reader.all fun _ => {} := by
  rw [Reader.all_eq]
  exact look.bind fun c => taken c.remaining

end Affords

namespace Earns

variable {α : Type}

theorem byte : Earns 3 Reader.byte := Affords.byte.mono fun _ => by decide

theorem take {n : Nat} (some : 0 < n) : Earns (4 * n - 1) (Reader.take n) := by
  refine (Affords.take 0 n (by omega)).mono fun _ => ⟨?_, Nat.zero_le _⟩
  show 4 * n - 1 ≤ 0 + 4 * n - 1
  omega

/-- The bytes of an integer, one step each. -/
theorem digits (digit : (shift sum : Nat) → UInt8 → Leb128.Digit α) (rest : List UInt8) (pos shift sum : Nat) :
    AffordsAt {} (fun c => Leb128.digits digit c.rest c.pos shift sum) (fun _ => ⟨3, 0⟩) ⟨pos, rest⟩ := by
  induction rest generalizing pos shift sum with
  | nil =>
    rw [Leb128.digits_eq]
    exact (byte _).bind fun b d done => by cases done
  | cons b rest ih =>
    rw [Leb128.digits_eq]
    refine (byte _).bind fun b d done => ?_
    cases done
    split
    · exact Affords.throw _ _
    · exact keep (pure _) _
    · exact (ih _ _ _).frame (by decide) fun _ => by decide

theorem unsigned (size : Nat) : Earns 3 (Reader.unsigned size) := fun c => digits _ c.rest c.pos 0 0

theorem signed (size : Nat) : Earns 3 (Reader.signed size) := fun c => digits _ c.rest c.pos 0 0

theorem signedAfter (size : Nat) (first : UInt8) : Earns 0 (Reader.signedAfter size first) := by
  intro c
  unfold Reader.signedAfter
  split
  · exact Affords.throw _ _
  · exact pure _ _
  · exact (digits _ c.rest c.pos 7 _).frame (by decide) fun _ => by decide

theorem u32 : Earns 3 Reader.u32 := (unsigned 32).returning _

theorem s32 : Earns 3 Reader.s32 := (signed 32).returning _

theorem s64 : Earns 3 Reader.s64 := (signed 64).returning _

theorem count : Earns 3 Reader.count := by
  refine u32.before fun n => Affords.bind Affords.look fun c => ?_
  split
  · exact pure _
  · exact Affords.throw _

theorem bytes : Earns 2 Reader.bytes := u32.spend fun n => Affords.taken n.toNat

theorem text : Earns 2 Reader.text := by
  refine bytes.before fun bs => ?_
  split
  · exact pure _
  · exact Affords.throw _

theorem vector {n : Nat} (some : 0 < n) : Earns 0 (Reader.vector n) := by
  rw [Reader.vector_eq]
  refine (take some).any.before fun bs => ?_
  split
  · exact pure _
  · exact Affords.throw _

theorem word32 : Earns 15 Reader.word32 := (take (by decide)).returning _

theorem word64 : Earns 31 Reader.word64 := (take (by decide)).returning _

/-! ## Instructions -/

theorem repeatedOnto {entry : Decoder α} (each : Earns 0 entry) (count : Nat) (before : List α) :
    Earns 0 (Decoder.repeatedOnto entry count before) := by
  induction count generalizing before with
  | zero => exact pure before.reverse
  | succ count ih =>
    rw [Decoder.repeatedOnto_succ]
    exact each.before fun first => ih (first :: before)

theorem memArg : Earns 0 Decoder.memArg := u32.lift.any.before fun _ => (u32.lift.returning _).any

theorem blockType : Earns 0 Decoder.blockType := by
  refine byte.lift.any.before fun b => ?_
  split
  · exact pure _
  · split
    · exact pure _
    · refine (signedAfter 33 b).lift.before fun index => ?_
      split
      · exact Affords.throw _
      · exact pure _

theorem reserved (mnemonic : String) (count : Nat) : Earns 0 (Decoder.reserved mnemonic count) := by
  induction count with
  | zero => exact pure ()
  | succ count ih =>
    refine byte.lift.any.before fun b => ?_
    split
    · exact ih
    · exact Affords.throw _

theorem labels : Earns 0 Decoder.labels := by
  refine count.lift.any.before fun n => ?_
  split
  · exact Affords.throw _
  · exact (repeatedOnto u32.lift.any n []).before fun _ => (u32.lift.returning _).any

theorem tags : Earns 2 Decoder.tags := count.lift.spend fun n => (Affords.taken n).lift

theorem layout (l : Layout) : Earns 0 (Decoder.layout l) := by
  cases l with
  | bare i => exact pure i
  | blockType make => exact blockType.map make
  | index make => exact (u32.lift.returning make).any
  | twoIndices make => exact u32.lift.any.before fun first => (u32.lift.returning (make first)).any
  | labels => exact labels
  | tag make | lane make => exact (byte.lift.returning make).any
  | tags => exact (count.lift.spend fun n => (Affords.taken n).lift.bind fun _ => pure _).any
  | memArg make => exact memArg.map make
  | memArgLane make => exact memArg.before fun arg => (byte.lift.returning (make arg)).any
  | reserved n i => exact (reserved i.mnemonic n).returning _
  | indexReserved make => exact u32.lift.any.before fun index => (reserved _ 1).returning _
  | int32 => exact (s32.lift.returning _).any
  | int64 => exact (s64.lift.returning _).any
  | float32 => exact (word32.lift.returning _).any
  | float64 => exact (word64.lift.returning _).any
  | sixteen make => exact (vector (by decide)).lift.returning make

theorem layoutAfter (opcode : UInt8) : Earns 0 (Decoder.layoutAfter opcode) := by
  unfold Decoder.layoutAfter
  split
  · refine u32.lift.any.before fun sub => ?_
    split
    · exact pure _
    · exact Affords.throw _
  · split
    · refine u32.lift.any.before fun sub => ?_
      split
      · exact pure _
      · exact Affords.throw _
    · split
      · exact pure _
      · exact Affords.throw _

end Earns

namespace Affords

/-- The first byte pays for its own read, and for telling the instruction. -/
theorem instruction : Affords {} Decoder.instruction fun _ => ⟨3, 1⟩ :=
  byte.lift.bind fun opcode => (Earns.layoutAfter opcode).keep.bind fun l => (Earns.layout l).keep

/-- The instructions so far can be told; the last one pays for the site and the end of the expression. -/
theorem expressionOnto (depth : Nat) (before : Expr) (c : Cursor) :
    AffordsAt ⟨before.size, before.size⟩ (Decoder.expressionOnto depth before) (fun body => ⟨body.size + 2, body.size⟩)
      c := by
  induction size : c.rest.length using Nat.strong_induction_on generalizing depth before c with
  | h size ih =>
    rw [Decoder.expressionOnto_eq]
    have first : Affords ⟨before.size, before.size⟩ Decoder.instruction fun _ => ⟨before.size + 3, before.size + 1⟩ :=
      instruction.frame (Credit.none_le _) fun _ => Credit.none_add_le _
    refine (first c).bind fun i d decoded => ?_
    cases i.nesting depth with
    | none => exact pure ⟨by simp, by simp⟩ d
    | some inner =>
      have rest := ih d.rest.length (size ▸ Decoder.instruction_shrinks decoded) inner (before.push i) d rfl
      rw [Array.size_push] at rest
      refine rest.frame ⟨Nat.add_le_add_left (by decide) _, Nat.le_refl _⟩ fun body => ⟨?_, Nat.le_refl _⟩
      exact Nat.add_le_add_right (Nat.add_le_add_left (by decide) _) _

theorem expression : Affords {} Decoder.expression fun body => ⟨body.size + 2, body.size⟩ := expressionOnto 0 #[]

end Affords

/-! ## Declarations -/

namespace Earns

theorem funcDecl : Earns 3 Decoder.funcDecl :=
  byte.lift.before fun _ => guard (tags.any.before fun _ => tags.any.returning _)

theorem limits : Earns 3 Decoder.limits := by
  refine byte.lift.before fun flag => ?_
  split
  · exact (u32.lift.returning _).any
  · exact u32.lift.any.before fun _ => (u32.lift.returning _).any
  · exact Affords.throw _

theorem tableDecl : Earns 3 Decoder.tableDecl := byte.lift.before fun _ => limits.any.returning _

theorem globalDecl : Earns 3 Decoder.globalDecl := byte.lift.before fun _ => byte.lift.any.returning _

theorem importDesc : Earns 3 Decoder.importDesc := by
  refine byte.lift.before fun kind => ?_
  split
  · exact u32.lift.any.returning _
  · exact tableDecl.any.map _
  · exact limits.any.map _
  · exact globalDecl.any.map _
  · exact Affords.throw _

theorem imported : Earns 2 Decoder.imported :=
  text.lift.before fun _ => text.lift.any.before fun _ => importDesc.any.returning _

theorem exported : Earns 2 Decoder.exported :=
  text.lift.before fun _ => byte.lift.any.before fun _ => u32.lift.any.returning _

theorem elementForm : Earns 3 Decoder.elementForm := u32.lift.before fun _ => guard (pure _)

theorem elementTag (form : Decoder.ElementForm) : Earns 0 (Decoder.elementTag form) := by
  unfold Decoder.elementTag
  split
  · refine byte.lift.any.before fun b => ?_
    split
    · exact pure _
    · split
      · exact pure _
      · exact Affords.throw _
  · exact pure _

theorem elementInit (form : Decoder.ElementForm) : Earns 0 (Decoder.elementInit form) := by
  unfold Decoder.elementInit
  split
  · exact pure _
  · exact count.lift.any.before fun n => (repeatedOnto u32.lift.any n []).returning _

theorem localDecl : Earns 0 Decoder.localDecl := u32.lift.any.before fun _ => byte.lift.any.returning _

theorem localsOnto (count total : Nat) (before : List LocalDecl) : Earns 0 (Decoder.localsOnto count total before) := by
  induction count generalizing total before with
  | zero => exact pure before.reverse
  | succ count ih =>
    rw [Decoder.localsOnto_succ]
    refine localDecl.before fun d => ?_
    split
    · exact Affords.throw _
    · exact ih _ _

theorem locals : Earns 3 Decoder.locals := count.lift.before fun n => localsOnto n 0 []

theorem header : Earns 15 Decoder.header := by
  have word : Earns 15 (EStateM.adaptExcept (fun _ => DecodeError.badMagic) Reader.word32) :=
    Affords.adaptExcept _ word32
  exact word.before fun _ => guard (word32.lift.any.before fun _ => guard (pure _))

end Earns

namespace Affords

theorem elementMode (form : Decoder.ElementForm) :
    Affords {} (Decoder.elementMode form) fun found => Credit.offset found.1.isActive found.2 := by
  unfold Decoder.elementMode
  split
  · refine pure ?_
    split <;> exact Credit.le_refl _
  · dsimp only
    split
    · exact Earns.u32.lift.any.bind fun table => expression.bind fun offset => pure (Credit.le_refl _)
    · exact (Earns.pure _).bind fun table => expression.bind fun offset => pure (Credit.le_refl _)

theorem element : Affords {} Decoder.element fun found => (Credit.offset found.1.mode.isActive found.2).extended := by
  have form : Earns 1 Decoder.elementForm := Earns.elementForm.fewer (by decide)
  refine form.bind fun form => (elementMode form).extended.bind fun found => ?_
  exact (Earns.elementTag form).keep.bind fun tag => (Earns.elementInit form).keep.bind fun init =>
    pure (Credit.le_refl _)

theorem dataMode : Affords {} Decoder.dataMode fun found => (Credit.offset found.1.isActive found.2).extended := by
  have flags : Earns 1 (liftM Reader.u32 : Decoder UInt32) := Earns.u32.lift.fewer (by decide)
  refine flags.bind fun flags => ?_
  split
  · exact expression.extended.bind fun offset => pure (Credit.le_refl _)
  · exact pure (Credit.le_refl _)
  · exact Earns.u32.lift.any.keep.bind fun memory => expression.extended.bind fun offset =>
      pure (Credit.le_refl _)
  · exact throw _

theorem data : Affords {} Decoder.data fun found => (Credit.offset found.1.mode.isActive found.2).extended :=
  dataMode.bind fun _ => Earns.bytes.lift.any.keep.bind fun _ => pure (Credit.le_refl _)

theorem frameAfter (id : UInt8) : Affords {} (Decoder.frameAfter id) fun found => Credit.content found.2 :=
  Earns.u32.lift.bind fun size => (enclosed size.toNat).lift.bind fun _ => look.bind fun _ =>
    pure (Credit.le_refl _)

theorem sectionFrame : Affords {} Decoder.sectionFrame fun found => Credit.content found.2 :=
  Earns.byte.lift.any.bind frameAfter

end Affords

end Wasm.Binary

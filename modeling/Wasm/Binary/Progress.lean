import Wasm.Binary.Instruction

/-! # Reading goes forward

A reader only ever takes bytes from the front of what it is given: what it leaves is a suffix, and the
position grows by the number of bytes taken. An instruction that is decoded takes one byte at least, so
a loop that decodes instructions ends.
-/

namespace Wasm.Binary

namespace Cursor

/-- `later` is reached from `c` by taking bytes from the front. -/
def Leads (c later : Cursor) : Prop :=
  ∃ taken, c.rest = taken ++ later.rest ∧ later.pos = c.pos + taken.length

theorem Leads.refl (c : Cursor) : c.Leads c := ⟨[], by simp⟩

theorem Leads.trans {a b c : Cursor} (first : a.Leads b) (second : b.Leads c) : a.Leads c := by
  obtain ⟨s, hs, ps⟩ := first
  obtain ⟨t, ht, pt⟩ := second
  exact ⟨s ++ t, by simp [hs, ht], by simp [pt, ps]; omega⟩

theorem Leads.length_le {a b : Cursor} (h : a.Leads b) : b.rest.length ≤ a.rest.length := by
  obtain ⟨s, hs, _⟩ := h
  simp [hs]

/-- Taking the first byte leads to what follows it. -/
theorem Leads.cons (pos : Nat) (b : UInt8) (rest : List UInt8) :
    Leads ⟨pos, b :: rest⟩ ⟨pos + 1, rest⟩ := ⟨[b], by simp⟩

theorem Leads.drop (pos n : Nat) (rest : List UInt8) (enough : n ≤ rest.length) :
    Leads ⟨pos, rest⟩ ⟨pos + n, rest.drop n⟩ :=
  ⟨rest.take n, by simp, by simp [Nat.min_eq_left enough]⟩

end Cursor

variable {ε ε' α β : Type}

/-- The cursor that a run leaves, whether it succeeded or failed. -/
def cursorAfter : EStateM.Result ε Cursor α → Cursor
  | .ok _ c => c
  | .error _ c => c

/-- Whatever the outcome, bytes are only taken from the front. -/
def Forward (m : EStateM ε Cursor α) : Prop := ∀ c : Cursor, c.Leads (cursorAfter (m c))

namespace Forward

theorem pure (a : α) : Forward (Pure.pure a : EStateM ε Cursor α) := fun c => .refl c

theorem throw (e : ε) : Forward (MonadExcept.throw e : EStateM ε Cursor α) := fun c => .refl c

theorem bind {m : EStateM ε Cursor α} {f : α → EStateM ε Cursor β} (first : Forward m)
    (second : ∀ a, Forward (f a)) : Forward (m >>= f) := by
  intro c
  have hm := first c
  show c.Leads (cursorAfter (EStateM.bind m f c))
  unfold EStateM.bind
  cases run : m c with
  | ok a d => rw [run] at hm; exact hm.trans (second a d)
  | error e d => rw [run] at hm; exact hm

theorem map {m : EStateM ε Cursor α} (f : α → β) (h : Forward m) : Forward (f <$> m) := by
  intro c
  have hm := h c
  show c.Leads (cursorAfter (EStateM.map f m c))
  unfold EStateM.map
  cases run : m c <;> rw [run] at hm <;> exact hm

theorem adaptExcept {m : EStateM ε Cursor α} (f : ε → ε') (h : Forward m) :
    Forward (EStateM.adaptExcept f m) := by
  intro c
  have hm := h c
  show c.Leads (cursorAfter (EStateM.adaptExcept f m c))
  unfold EStateM.adaptExcept
  cases run : m c <;> rw [run] at hm <;> exact hm

theorem lift {m : Reader α} (h : Forward m) : Forward (liftM m : Decoder α) := h.adaptExcept _

theorem byte : Forward Reader.byte := by
  rintro ⟨pos, _ | ⟨b, rest⟩⟩
  · exact .refl _
  · exact .cons pos b rest

theorem take (n : Nat) : Forward (Reader.take n) := by
  rintro ⟨pos, rest⟩
  show Cursor.Leads _ (cursorAfter (if _ then _ else _))
  split
  · rename_i enough
    exact .drop pos n rest ((holdsAtLeast_iff _ _).mp enough)
  · exact .refl _

theorem vector (n : Nat) : Forward (Reader.vector n) := by
  rintro ⟨pos, rest⟩
  show Cursor.Leads _ (cursorAfter (if _ : _ then _ else _))
  split
  · rename_i enough
    exact .drop pos n rest (by simp at enough; omega)
  · exact .refl _

theorem word32 : Forward Reader.word32 := (take 4).bind fun _ => .pure _

theorem word64 : Forward Reader.word64 := (take 8).bind fun _ => .pure _

theorem digits (digit : (shift sum : Nat) → UInt8 → Leb128.Digit α) (rest : List UInt8)
    (pos shift sum : Nat) :
    Cursor.Leads ⟨pos, rest⟩ (cursorAfter (Leb128.digits digit rest pos shift sum)) := by
  induction rest generalizing pos shift sum with
  | nil => exact .refl _
  | cons b rest ih =>
    unfold Leb128.digits
    split
    · exact .cons pos b rest
    · exact .cons pos b rest
    · exact (Cursor.Leads.cons pos b rest).trans (ih _ _ _)

theorem unsigned (size : Nat) : Forward (Reader.unsigned size) := fun c => digits _ c.rest c.pos 0 0

theorem signed (size : Nat) : Forward (Reader.signed size) := fun c => digits _ c.rest c.pos 0 0

theorem signedAfter (size : Nat) (first : UInt8) : Forward (Reader.signedAfter size first) := by
  intro c
  unfold Reader.signedAfter
  split
  · exact .refl c
  · exact .refl c
  · exact digits _ c.rest c.pos 7 _

theorem u32 : Forward Reader.u32 := (unsigned 32).bind fun _ => .pure _

theorem s32 : Forward Reader.s32 := (signed 32).bind fun _ => .pure _

theorem s64 : Forward Reader.s64 := (signed 64).bind fun _ => .pure _

theorem count : Forward Reader.count :=
  u32.bind fun n => bind (m := get) (fun c => .refl c) fun c => by
    split
    · exact .pure _
    · exact .throw _

theorem repeatedOnto {entry : Decoder α} (h : Forward entry) (count : Nat) (before : List α) :
    Forward (Decoder.repeatedOnto entry count before) := by
  induction count generalizing before with
  | zero => exact fun c => .refl c
  | succ count ih =>
    intro c
    have one := h c
    unfold Decoder.repeatedOnto
    cases run : entry c with
    | ok first d => rw [run] at one; exact one.trans (ih _ d)
    | error e d => rw [run] at one; exact one

theorem memArg : Forward Decoder.memArg := u32.lift.bind fun _ => u32.lift.bind fun _ => .pure _

theorem blockType : Forward Decoder.blockType :=
  byte.lift.bind fun b => by
    split
    · exact .pure _
    · split
      · exact .pure _
      · exact (signedAfter 33 b).lift.bind fun index => by
          split
          · exact .throw _
          · exact .pure _

theorem reserved (mnemonic : String) (count : Nat) : Forward (Decoder.reserved mnemonic count) := by
  induction count with
  | zero => exact .pure ()
  | succ count ih =>
    refine byte.lift.bind fun b => ?_
    split
    · exact ih
    · exact .throw _

theorem labels : Forward Decoder.labels :=
  count.lift.bind fun n => by
    split
    · exact .throw _
    · exact (repeatedOnto u32.lift n []).bind fun _ => u32.lift.bind fun _ => .pure _

theorem layout (l : Layout) : Forward (Decoder.layout l) := by
  cases l with
  | bare i => exact .pure i
  | blockType make => exact blockType.map make
  | index make => exact u32.lift.bind fun _ => .pure _
  | twoIndices make => exact u32.lift.bind fun _ => u32.lift.bind fun _ => .pure _
  | labels => exact labels
  | tag make => exact byte.lift.bind fun _ => .pure _
  | tags => exact count.lift.bind fun n => (take n).lift.bind fun _ => .pure _
  | memArg make => exact memArg.map make
  | memArgLane make => exact memArg.bind fun _ => byte.lift.bind fun _ => .pure _
  | lane make => exact byte.lift.bind fun _ => .pure _
  | reserved n i => exact (reserved _ n).bind fun _ => .pure i
  | indexReserved make => exact u32.lift.bind fun _ => (reserved _ 1).bind fun _ => .pure _
  | int32 => exact s32.lift.bind fun _ => .pure _
  | int64 => exact s64.lift.bind fun _ => .pure _
  | float32 => exact word32.lift.bind fun _ => .pure _
  | float64 => exact word64.lift.bind fun _ => .pure _
  | sixteen make => exact (vector 16).lift.bind fun _ => .pure _

theorem layoutAfter (opcode : UInt8) : Forward (Decoder.layoutAfter opcode) := by
  unfold Decoder.layoutAfter
  split
  · exact u32.lift.bind fun sub => by
      split
      · exact .pure _
      · exact .throw _
  · split
    · exact u32.lift.bind fun sub => by
        split
        · exact .pure _
        · exact .throw _
    · split
      · exact .pure _
      · exact .throw _

theorem instructionAfter (opcode : UInt8) : Forward (Decoder.instructionAfter opcode) :=
  (layoutAfter opcode).bind layout

theorem instruction : Forward Decoder.instruction := byte.lift.bind instructionAfter

end Forward

/-- A decoded instruction takes a byte or more. -/
theorem Decoder.instruction_shrinks {c d : Cursor} {i : Instruction}
    (decoded : Decoder.instruction c = .ok i d) : d.rest.length < c.rest.length := by
  obtain ⟨pos, _ | ⟨b, rest⟩⟩ := c
  · cases decoded
  · have forward := Forward.instructionAfter b ⟨pos + 1, rest⟩
    have after : Decoder.instructionAfter b ⟨pos + 1, rest⟩ = .ok i d := decoded
    rw [after] at forward
    exact Nat.lt_succ_of_le forward.length_le

end Wasm.Binary

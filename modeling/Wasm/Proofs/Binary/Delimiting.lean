import Wasm.Proofs.Binary.Integers

/-! # Instructions that end by themselves

Decoding an instruction looks beyond the bytes that it takes: the length of a vector is compared with all bytes that are
left. This makes no difference where the instruction can be decoded, since each entry of the vector takes a byte or more.
So the bytes of an instruction are read the same whatever follows them, and their encodings, padded ones included, are a
prefix code.
-/

namespace Wasm.Binary

variable {ε α β : Type}

theorem Cursor.Passes.append {c d e : Cursor} {xs ys : List UInt8} (first : c.Passes xs d) (second : d.Passes ys e) :
    c.Passes (xs ++ ys) e :=
  ⟨by rw [first.1, second.1, List.append_assoc], by rw [second.2, first.2, List.length_append, Nat.add_assoc]⟩

/-- Where the reader succeeds, it takes `least` bytes or more, and it reads them the same whatever follows them. -/
def Delimits (least : Nat) (m : EStateM ε Cursor α) : Prop :=
  ∀ c a d, m c = .ok a d → ∃ bs, c.Passes bs d ∧ least ≤ bs.length ∧ Reads m bs a

namespace Delimits

variable {m : EStateM ε Cursor α} {f : α → EStateM ε Cursor β} {least more : Nat}

theorem mono (delimits : Delimits more m) (fewer : least ≤ more) : Delimits least m := by
  intro c a d done
  obtain ⟨bs, passes, long, reads⟩ := delimits c a d done
  exact ⟨bs, passes, fewer.trans long, reads⟩

theorem pure (a : α) : Delimits 0 (Pure.pure a : EStateM ε Cursor α) := by
  rintro c _ _ ⟨⟩
  exact ⟨[], Cursor.passes_nil.mpr rfl, Nat.zero_le _, .pure a⟩

theorem throw (e : ε) : Delimits least (MonadExcept.throw e : EStateM ε Cursor α) := by
  intro c a d done
  cases done

theorem bind (first : Delimits least m) (second : ∀ a, Delimits more (f a)) : Delimits (least + more) (m >>= f) := by
  intro c b d done
  obtain ⟨a, e, one, two⟩ := Outcome.bind_ok_iff.mp done
  obtain ⟨xs, passes, long, reads⟩ := first c a e one
  obtain ⟨ys, passes', long', reads'⟩ := second a e b d two
  refine ⟨xs ++ ys, passes.append passes', ?_, reads.bind reads'⟩
  rw [List.length_append]
  omega

theorem any (delimits : Delimits least m) : Delimits 0 m := delimits.mono (Nat.zero_le least)

/-- A second reader whose bytes are not counted. -/
theorem before (first : Delimits least m) (second : ∀ a, Delimits 0 (f a)) : Delimits least (m >>= f) :=
  first.bind second

theorem returning (first : Delimits least m) (g : α → β) : Delimits least (m >>= fun a => Pure.pure (g a)) :=
  first.before fun a => pure (g a)

theorem map (first : Delimits least m) (g : α → β) : Delimits least (g <$> m) := by
  rw [← bind_pure_comp]
  exact first.returning g

theorem lift {m : Reader α} (delimits : Delimits least m) : Delimits least (liftM m : Decoder α) := by
  intro c a d done
  obtain ⟨bs, passes, long, reads⟩ := delimits c a d (Decoder.lift_ok_iff.mp done)
  exact ⟨bs, passes, long, reads.lift⟩

theorem of_exactly {m : Reader α} {spells : List UInt8 → α → Prop} (exactly : Exactly m spells)
    (long : ∀ bs a, spells bs a → least ≤ bs.length) : Delimits least m := by
  intro c a d done
  obtain ⟨bs, spelt, passes⟩ := (exactly c a d).mp done
  exact ⟨bs, passes, long bs a spelt, exactly.reads spelt⟩

end Delimits

/-- A length is read if it is within bounds and at least as many bytes follow. -/
theorem Reader.count_ok_iff {n : Nat} {c d : Cursor} :
    Reader.count c = .ok n d ↔
      ∃ size : UInt32, Reader.u32 c = .ok size d ∧ size.toNat = n ∧ size.toNat ≤ maxVectorEntries ∧
        size.toNat ≤ d.rest.length := by
  constructor
  · intro done
    obtain ⟨size, e, sized, rest⟩ := Outcome.bind_ok_iff.mp done
    obtain ⟨_, _, ⟨⟩, rest⟩ := Outcome.bind_ok_iff.mp rest
    split at rest
    · rename_i bounds
      rw [Bool.and_eq_true, decide_eq_true_eq, holdsAtLeast_iff] at bounds
      cases rest
      exact ⟨size, sized, rfl, bounds⟩
    · cases rest
  · rintro ⟨size, sized, rfl, few, enough⟩
    refine Outcome.bind_ok_iff.mpr ⟨size, d, sized, Outcome.bind_ok_iff.mpr ⟨d, d, rfl, ?_⟩⟩
    rw [decide_eq_true few, (holdsAtLeast_iff _ _).mpr enough]
    rfl

/-- One entry is read before the others. -/
theorem Decoder.repeatedOnto_succ (entry : Decoder α) (count : Nat) (before : List α) :
    Decoder.repeatedOnto entry (count + 1) before =
      (entry >>= fun first => Decoder.repeatedOnto entry count (first :: before)) := by
  funext c
  show _ = EStateM.bind _ _ c
  rw [Decoder.repeatedOnto, EStateM.bind]
  cases entry c <;> rfl

namespace Delimits

/-! ## Readers -/

theorem byte : Delimits 1 Reader.byte := by
  rintro ⟨pos, _ | ⟨b, rest⟩⟩ a d done
  · cases done
  · cases done
    exact ⟨[b], ⟨rfl, rfl⟩, Nat.le_refl 1, .byte b⟩

theorem take (n : Nat) : Delimits n (Reader.take n) := by
  intro c bs d done
  unfold Reader.take at done
  split at done
  · rename_i enough
    have length : (c.rest.take n).length = n := List.length_take_of_le ((holdsAtLeast_iff _ _).mp enough)
    cases done
    refine ⟨c.rest.take n, ⟨by simp, by rw [length]⟩, Nat.le_of_eq length.symm, ?_⟩
    have reads := Reads.take (c.rest.take n)
    rwa [length] at reads
  · cases done

theorem vector (n : Nat) : Delimits n (Reader.vector n) := by
  intro c v d done
  unfold Reader.vector at done
  split at done
  · rename_i length
    cases done
    refine ⟨c.rest.take n, ⟨by simp, by rw [length]⟩, Nat.le_of_eq length.symm, ?_⟩
    exact Reads.vector ⟨(c.rest.take n).toArray, by simpa using length⟩
  · cases done

theorem word32 : Delimits 4 Reader.word32 := (take 4).returning _

theorem word64 : Delimits 8 Reader.word64 := (take 8).returning _

theorem u32 : Delimits 1 Reader.u32 := of_exactly Reader.u32_exactly fun _ _ spelt => spelt.1.delimited.length_pos

theorem s32 : Delimits 1 Reader.s32 := of_exactly Reader.s32_exactly fun _ _ spelt => spelt.1.delimited.length_pos

theorem s64 : Delimits 1 Reader.s64 := of_exactly Reader.s64_exactly fun _ _ spelt => spelt.1.delimited.length_pos

theorem signedAfter (size : Nat) (first : UInt8) : Delimits 0 (Reader.signedAfter size first) :=
  of_exactly (Reader.signedAfter_exactly size first) fun _ _ _ => Nat.zero_le _

/-- A vector of as many entries as its length says, each of which takes a byte or more. The bytes that the length is
compared with are there whenever those of the entries are. -/
theorem counted {f : Nat → Decoder α} (entries : ∀ n, Delimits n (f n)) : Delimits 1 (liftM Reader.count >>= f) := by
  intro c a d done
  obtain ⟨n, e, counts, rest⟩ := Outcome.bind_ok_iff.mp done
  obtain ⟨size, sized, rfl, few, -⟩ := Reader.count_ok_iff.mp (Decoder.lift_ok_iff.mp counts)
  obtain ⟨xs, passes, long, reads⟩ := u32 c size e sized
  obtain ⟨ys, passes', long', reads'⟩ := entries size.toNat e a d rest
  refine ⟨xs ++ ys, passes.append passes', ?_, fun pos others => ?_⟩
  · rw [List.length_append]
    omega
  · have enough : size.toNat ≤ (ys ++ others).length := by
      rw [List.length_append]
      omega
    have counts := Reader.count_ok_iff.mpr ⟨size, reads pos (ys ++ others), rfl, few, enough⟩
    rw [List.append_assoc, Outcome.bind_of_ok (Decoder.lift_ok_iff.mpr counts), reads', List.length_append, Nat.add_assoc]

/-! ## Immediates -/

theorem repeatedOnto {entry : Decoder α} (each : Delimits 1 entry) (count : Nat) (before : List α) :
    Delimits count (Decoder.repeatedOnto entry count before) := by
  induction count generalizing before with
  | zero => exact pure before.reverse
  | succ count ih =>
    rw [Decoder.repeatedOnto_succ, Nat.add_comm]
    exact each.bind fun first => ih (first :: before)

theorem memArg : Delimits 1 Decoder.memArg := u32.lift.before fun _ => (u32.lift.returning _).any

theorem blockType : Delimits 1 Decoder.blockType := by
  refine byte.lift.before fun b => ?_
  split
  · exact pure _
  · split
    · exact pure _
    · refine (signedAfter 33 b).lift.before fun index => ?_
      split
      · exact throw _
      · exact pure _

theorem reserved (mnemonic : String) (count : Nat) : Delimits 0 (Decoder.reserved mnemonic count) := by
  induction count with
  | zero => exact pure ()
  | succ count ih =>
    refine (byte.lift.before fun b => ?_).any
    split
    · exact ih
    · exact throw _

/-- The default label takes a byte beyond those that are counted. -/
theorem labels : Delimits 1 Decoder.labels := by
  refine counted fun n => ?_
  split
  · exact throw _
  · exact (repeatedOnto u32.lift n []).before fun _ => (u32.lift.returning _).any

theorem layout (l : Layout) : Delimits 0 (Decoder.layout l) := by
  cases l with
  | bare i => exact pure i
  | blockType make => exact (blockType.map make).any
  | index make => exact (u32.lift.returning make).any
  | twoIndices make => exact (u32.lift.before fun first => (u32.lift.returning (make first)).any).any
  | labels => exact labels.any
  | tag make | lane make => exact (byte.lift.returning make).any
  | tags => exact (counted fun n => (take n).lift.returning _).any
  | memArg make => exact (memArg.map make).any
  | memArgLane make => exact (memArg.before fun arg => (byte.lift.returning (make arg)).any).any
  | reserved n i => exact (reserved i.mnemonic n).returning _
  | indexReserved make => exact (u32.lift.before fun index => (reserved _ 1).returning _).any
  | int32 => exact (s32.lift.returning _).any
  | int64 => exact (s64.lift.returning _).any
  | float32 => exact (word32.lift.returning _).any
  | float64 => exact (word64.lift.returning _).any
  | sixteen make => exact ((vector 16).lift.returning make).any

/-! ## Instructions -/

theorem layoutAfter (opcode : UInt8) : Delimits 0 (Decoder.layoutAfter opcode) := by
  unfold Decoder.layoutAfter
  split
  · refine (u32.lift.before fun sub => ?_).any
    split
    · exact pure _
    · exact throw _
  · split
    · refine (u32.lift.before fun sub => ?_).any
      split
      · exact pure _
      · exact throw _
    · split
      · exact pure _
      · exact throw _

theorem instruction : Delimits 1 Decoder.instruction :=
  byte.lift.before fun opcode => (layoutAfter opcode).before layout

/-! ## Prefix codes -/

/-- The bytes taken are the first ones. -/
theorem taken {bytes : List UInt8} {pos : Nat} {a : α} {d : Cursor} (delimits : Delimits least m)
    (done : m ⟨pos, bytes⟩ = .ok a d) :
    ∃ k, least ≤ k ∧ k ≤ bytes.length ∧ d = ⟨pos + k, bytes.drop k⟩ ∧ Reads m (bytes.take k) a := by
  obtain ⟨bs, ⟨split, place⟩, long, reads⟩ := delimits _ a d done
  obtain ⟨_, rest⟩ := d
  obtain rfl : bytes = bs ++ rest := split
  obtain rfl : _ = pos + bs.length := place
  exact ⟨bs.length, long, by simp, by simp, by simpa using reads⟩

/-- Fewer bytes than are taken would be read alike with the others behind them, so they are not read at all. -/
theorem fails_before {bytes rest : List UInt8} {pos j k : Nat} {a : α} (delimits : Delimits least m)
    (done : m ⟨pos, bytes⟩ = .ok a ⟨pos + k, rest⟩) (fewer : j < k) :
    ∃ e d, m ⟨pos, bytes.take j⟩ = .error e d := by
  cases early : m ⟨pos, bytes.take j⟩ with
  | error e d => exact ⟨e, d, rfl⟩
  | ok b d =>
    obtain ⟨bs, ⟨split, -⟩, -, reads⟩ := delimits _ b d early
    have short : bs.length ≤ j := by
      have := congrArg List.length split
      simp only [List.length_take, List.length_append] at this
      omega
    have again := reads pos (d.rest ++ bytes.drop j)
    have whole : bs ++ (d.rest ++ bytes.drop j) = bytes := by
      rw [← List.append_assoc, ← split, List.take_append_drop]
    rw [whole, done] at again
    have same : pos + k = pos + bs.length := congrArg Cursor.pos (EStateM.Result.ok.inj again).2
    omega

end Delimits

/-- The encodings that are decoded as instructions are a prefix code: an instruction takes a byte or more, the bytes that
it takes are decoded as the same instruction whatever follows them, and fewer of them are not decoded at all. -/
theorem Decoder.instruction_prefix_code {bytes : List UInt8} {pos : Nat} {i : Instruction} {d : Cursor}
    (decoded : instruction ⟨pos, bytes⟩ = .ok i d) :
    ∃ k, 1 ≤ k ∧ k ≤ bytes.length ∧ d = ⟨pos + k, bytes.drop k⟩ ∧
      (∀ more, instruction ⟨pos, bytes.take k ++ more⟩ = .ok i ⟨pos + k, more⟩) ∧
      ∀ j < k, ∃ e d', instruction ⟨pos, bytes.take j⟩ = .error e d' := by
  obtain ⟨k, positive, inside, rfl, reads⟩ := Delimits.instruction.taken decoded
  refine ⟨k, positive, inside, rfl, fun more => ?_, fun j fewer => Delimits.instruction.fails_before decoded fewer⟩
  have length : (bytes.take k).length = k := List.length_take_of_le inside
  rw [reads pos more, length]

/-- A branch table of two labels whose length and first label are padded, with a byte behind it. -/
def paddedTable : List UInt8 := [0x0e, 0x82, 0x00, 0x83, 0x80, 0x00, 0x00, 0x01, 0xff]

theorem Decoder.instruction_prefix_code_padded :
    instruction (.ofBytes paddedTable) = .ok (.brTable [3, 0] 1) ⟨8, [0xff]⟩ ∧
      (∀ more, instruction ⟨0, paddedTable.take 8 ++ more⟩ = .ok (.brTable [3, 0] 1) ⟨8, more⟩) ∧
      ∀ j < 8, ∃ e d, instruction ⟨0, paddedTable.take j⟩ = .error e d := by
  have decoded : instruction ⟨0, paddedTable⟩ = .ok (.brTable [3, 0] 1) ⟨8, [0xff]⟩ := by cbv
  obtain ⟨k, -, -, place, alike, fails⟩ := instruction_prefix_code decoded
  obtain rfl : 8 = k := (congrArg Cursor.pos place).trans (Nat.zero_add k)
  exact ⟨decoded, alike, fails⟩

end Wasm.Binary

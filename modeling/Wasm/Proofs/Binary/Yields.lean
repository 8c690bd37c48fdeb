import Wasm.Proofs.Binary.Telling
import Wasm.Proofs.Typing.Reasons

/-! # What decoders yield

A decoder fails for a fault of the bytes, and never with the objection of a consumer. What it yields when it succeeds is
said along with that: instructions have immediates of the shape that their opcode asks for, and the offset of an active
segment is a whole expression.
-/

namespace Wasm

namespace Binary

/-- An error that no consumer has a part in. -/
def DecodeError.IsFault : DecodeError → Prop
  | violation _ => False
  | _ => True

theorem DecodeError.IsFault.inFunction {e : DecodeError} (fault : e.IsFault) (func : Nat) : e.inFunction func = e := by
  cases e with
  | violation v => exact fault.elim
  | _ => rfl

/-- All results of a decoder are good, and all its failures are faults. -/
structure Yields {α : Type} (m : Decoder α) (good : α → Prop) : Prop where
  result : ∀ c a d, m c = .ok a d → good a
  fault : ∀ c e d, m c = .error e d → e.IsFault

namespace Yields

variable {α β : Type} {m : Decoder α} {f : α → Decoder β} {good : α → Prop} {fine : β → Prop}

theorem bind (first : Yields m good) (second : ∀ a, good a → Yields (f a) fine) : Yields (m >>= f) fine where
  result c b d done := by
    obtain ⟨a, e, one, two⟩ := Outcome.bind_ok_iff.mp done
    exact (second a (first.result c a e one)).result e b d two
  fault c e d failed := by
    cases one : m c with
    | ok a c' =>
      rw [Outcome.bind_of_ok one] at failed
      exact (second a (first.result c a c' one)).fault c' e d failed
    | error e' c' =>
      rw [Outcome.bind_of_error one] at failed
      cases failed
      exact first.fault c e d one

theorem pure {a : α} (holds : good a) : Yields (Pure.pure a) good where
  result c b d done := by cases done; exact holds
  fault c e d failed := by cases failed

theorem throw {e : DecodeError} (fault : e.IsFault) : Yields (MonadExcept.throw e : Decoder α) good where
  result c b d done := by cases done
  fault c e d failed := by cases failed; exact fault

theorem map {g : α → β} (yields : Yields m good) (holds : ∀ a, good a → fine (g a)) : Yields (g <$> m) fine := by
  rw [map_eq_pure_bind]
  exact yields.bind fun a held => .pure (holds a held)

theorem guard {p : Prop} [Decidable p] {e : DecodeError} {g : PUnit → Decoder β} {rest : Decoder β} (fault : e.IsFault)
    (yields : Yields rest fine) : Yields (if p then MonadExcept.throw e >>= g else rest) fine := by
  split
  · have never : Yields (MonadExcept.throw e : Decoder PUnit) fun _ => False := .throw fault
    exact never.bind fun _ impossible => impossible.elim
  · exact yields

theorem adapt {ε : Type} (f : ε → DecodeError) (fault : ∀ e, (f e).IsFault) (m : EStateM ε Cursor α) :
    Yields (EStateM.adaptExcept f m) fun _ => True where
  result _ _ _ _ := trivial
  fault c e d failed := by
    unfold EStateM.adaptExcept at failed
    cases done : m c with
    | ok a c' => rw [done] at failed; cases failed
    | error e' c' => rw [done] at failed; cases failed; exact fault e'

/-- Readers fail for faults of their own. -/
theorem read (m : Reader α) : Yields (liftM m : Decoder α) fun _ => True :=
  adapt DecodeError.read (fun _ => trivial) m

theorem repeatedOnto (entry : Yields m good) (count : Nat) (before : List α) :
    Yields (Decoder.repeatedOnto m count before) fun _ => True where
  result _ _ _ _ := trivial
  fault c e d failed := by
    induction count generalizing before c with
    | zero => cases failed
    | succ count ih =>
      unfold Decoder.repeatedOnto at failed
      cases one : m c with
      | ok a c' =>
        rw [one] at failed
        exact ih (a :: before) c' failed
      | error e' c' =>
        rw [one] at failed
        cases failed
        exact entry.fault c e d one

end Yields

/-! ## Instructions -/

/-- All instructions of a layout have immediates of the right shape. -/
def Layout.Shaped : Layout → Prop
  | .bare i | .reserved _ i => i.Shaped
  | .blockType make => ∀ type, (make type).Shaped
  | .index make | .indexReserved make => ∀ index, (make index).Shaped
  | .twoIndices make => ∀ first second, (make first second).Shaped
  | .tag make | .lane make => ∀ byte, (make byte).Shaped
  | .memArg make => ∀ arg, (make arg).Shaped
  | .memArgLane make => ∀ arg lane, (make arg lane).Shaped
  | .sixteen make => ∀ bytes, (make bytes).Shaped
  | .labels | .tags | .int32 | .int64 | .float32 | .float64 => True

theorem Layout.shaped_of_opcode {opcode : UInt8} {l : Layout} (found : ofOpcode? opcode = some l) : l.Shaped := by
  unfold ofOpcode? at found
  split at found
  rotate_right
  · -- an operation of one of the tables
    split at found
    · cases found
      exact fun _ => trivial
    · cases found
      exact fun _ => trivial
    · cases found
      trivial
    · cases found
  all_goals
    cases found
    simp [Shaped, Instruction.Shaped, Plain.Shaped]

theorem Layout.shaped_of_extended {sub : UInt32} {l : Layout} (found : ofExtended? sub = some l) : l.Shaped := by
  unfold ofExtended? at found
  split at found
  rotate_right
  · obtain ⟨op, -, rfl⟩ := Option.map_eq_some_iff.mp found
    trivial
  all_goals
    cases found
    simp [Shaped, Instruction.Shaped, Plain.Shaped]

/-- The layout of a vector instruction is chosen by the signature that its shape is judged by. -/
theorem Layout.shaped_of_vector {sub : UInt32} {l : Layout} (found : ofVector? sub = some l) : l.Shaped := by
  unfold ofVector? at found
  split at found
  · cases found
    exact fun _ => trivial
  · rename_i notConst
    split at found
    · cases found
      exact fun _ => trivial
    · rename_i notShuffle
      obtain ⟨signature, assigned, rfl⟩ := Option.map_eq_some_iff.mp found
      cases signature with
      | fixed params results => exact ⟨⟨notConst, notShuffle⟩, params, results, assigned⟩
      | extractLane lanes result => exact fun _ => .inl ⟨lanes, result, assigned⟩
      | replaceLane lanes operand => exact fun _ => .inr ⟨lanes, operand, assigned⟩
      | load natural => exact fun _ => .inl ⟨natural, assigned⟩
      | store natural => exact fun _ => .inr ⟨natural, assigned⟩
      | loadLane natural lanes => exact fun _ _ => .inl ⟨natural, lanes, assigned⟩
      | storeLane natural lanes => exact fun _ _ => .inr ⟨natural, lanes, assigned⟩

namespace Yields

theorem layoutAfter (opcode : UInt8) : Yields (Decoder.layoutAfter opcode) Layout.Shaped := by
  unfold Decoder.layoutAfter
  split
  · refine (read Reader.u32).bind fun sub _ => ?_
    split
    · exact .pure (Layout.shaped_of_extended ‹_›)
    · exact .throw trivial
  · split
    · refine (read Reader.u32).bind fun sub _ => ?_
      split
      · exact .pure (Layout.shaped_of_vector ‹_›)
      · exact .throw trivial
    · split
      · exact .pure (Layout.shaped_of_opcode ‹_›)
      · exact .throw trivial

theorem blockType : Yields Decoder.blockType fun _ => True := by
  refine (read Reader.byte).bind fun b _ => ?_
  split
  · exact .pure trivial
  · split
    · exact .pure trivial
    · refine (read (Reader.signedAfter 33 b)).bind fun index _ => ?_
      split
      · exact .throw trivial
      · exact .pure trivial

theorem memArg : Yields Decoder.memArg fun _ => True :=
  (read Reader.u32).bind fun _ _ => (read Reader.u32).bind fun _ _ => .pure trivial

theorem reserved (mnemonic : String) (count : Nat) : Yields (Decoder.reserved mnemonic count) fun _ => True := by
  induction count with
  | zero => exact .pure trivial
  | succ count ih =>
    refine (read Reader.byte).bind fun b _ => ?_
    split
    · exact ih
    · exact .throw trivial

theorem labels : Yields Decoder.labels Instruction.Shaped := by
  refine (read Reader.count).bind fun count _ => ?_
  split
  · exact .throw trivial
  · exact ((read Reader.u32).repeatedOnto count []).bind fun _ _ => (read Reader.u32).bind fun _ _ => .pure trivial

theorem layout {l : Layout} (shaped : l.Shaped) : Yields (Decoder.layout l) Instruction.Shaped := by
  cases l with
  | bare i => exact .pure shaped
  | blockType make => exact blockType.map fun type _ => shaped type
  | index make => exact (read Reader.u32).bind fun index _ => .pure (shaped index)
  | twoIndices make =>
    exact (read Reader.u32).bind fun first _ => (read Reader.u32).bind fun second _ => .pure (shaped first second)
  | labels => exact labels
  | tag make | lane make => exact (read Reader.byte).bind fun byte _ => .pure (shaped byte)
  | tags => exact (read Reader.count).bind fun count _ => (read (Reader.take count)).bind fun _ _ => .pure trivial
  | memArg make => exact memArg.map fun arg _ => shaped arg
  | memArgLane make => exact memArg.bind fun arg _ => (read Reader.byte).bind fun lane _ => .pure (shaped arg lane)
  | reserved count i => exact (reserved i.mnemonic count).bind fun _ _ => .pure shaped
  | indexReserved make =>
    exact (read Reader.u32).bind fun index _ => (reserved (make index).mnemonic 1).bind fun _ _ => .pure (shaped index)
  | int32 => exact (read Reader.s32).bind fun _ _ => .pure trivial
  | int64 => exact (read Reader.s64).bind fun _ _ => .pure trivial
  | float32 => exact (read Reader.word32).bind fun _ _ => .pure trivial
  | float64 => exact (read Reader.word64).bind fun _ _ => .pure trivial
  | sixteen make => exact (read (Reader.vector 16)).bind fun bytes _ => .pure (shaped bytes)

/-- Decoded instructions have immediates of the right shape. -/
theorem instruction : Yields Decoder.instruction Instruction.Shaped :=
  (read Reader.byte).bind fun opcode _ => (layoutAfter opcode).bind fun _ => layout

theorem expression : Yields Decoder.expression fun body => Decoded 0 body.toList true where
  result _ _ _ := decoded_of_expression
  fault c e d failed := by
    have fault (depth : Nat) (before : Expr) (c d : Cursor) (e : DecodeError)
        (failed : Decoder.expressionOnto depth before c = .error e d) : e.IsFault := by
      induction size : c.rest.length using Nat.strongRecOn generalizing c depth before with
      | ind size ih =>
        cases decoded : Decoder.instruction c with
        | error e' d' =>
          rw [Decoder.expressionOnto_error decoded] at failed
          cases failed
          exact instruction.fault c e d decoded
        | ok i d' =>
          rw [Decoder.expressionOnto_ok decoded] at failed
          cases nested : i.nesting depth with
          | none => rw [nested] at failed; cases failed
          | some inner =>
            rw [nested] at failed
            exact ih d'.rest.length (size ▸ Decoder.instruction_shrinks decoded) inner _ d' failed rfl
    exact fault 0 #[] c d e failed

/-! ## Declarations -/

theorem tags : Yields Decoder.tags fun _ => True :=
  (read Reader.count).bind fun count _ => read (Reader.take count)

theorem funcDecl : Yields Decoder.funcDecl fun _ => True :=
  (read Reader.byte).bind fun _ _ => .guard trivial <| tags.bind fun _ _ => tags.bind fun _ _ => .pure trivial

theorem limits : Yields Decoder.limits fun _ => True := by
  refine (read Reader.byte).bind fun flag _ => ?_
  split
  · exact (read Reader.u32).bind fun _ _ => .pure trivial
  · exact (read Reader.u32).bind fun _ _ => (read Reader.u32).bind fun _ _ => .pure trivial
  · exact .throw trivial

theorem tableDecl : Yields Decoder.tableDecl fun _ => True :=
  (read Reader.byte).bind fun _ _ => limits.bind fun _ _ => .pure trivial

theorem globalDecl : Yields Decoder.globalDecl fun _ => True :=
  (read Reader.byte).bind fun _ _ => (read Reader.byte).bind fun _ _ => .pure trivial

theorem importDesc : Yields Decoder.importDesc fun _ => True := by
  refine (read Reader.byte).bind fun kind _ => ?_
  split
  · exact (read Reader.u32).bind fun _ _ => .pure trivial
  · exact tableDecl.map fun _ _ => trivial
  · exact limits.map fun _ _ => trivial
  · exact globalDecl.map fun _ _ => trivial
  · exact .throw trivial

theorem imported : Yields Decoder.imported fun _ => True :=
  (read Reader.text).bind fun _ _ => (read Reader.text).bind fun _ _ => importDesc.bind fun _ _ => .pure trivial

theorem exported : Yields Decoder.exported fun _ => True :=
  (read Reader.text).bind fun _ _ => (read Reader.byte).bind fun _ _ => (read Reader.u32).bind fun _ _ => .pure trivial

theorem elementForm : Yields Decoder.elementForm fun _ => True :=
  (read Reader.u32).bind fun _ _ => .guard trivial (.pure trivial)

/-- The offset of an active segment is a whole expression. -/
theorem elementMode (form : Decoder.ElementForm) :
    Yields (Decoder.elementMode form) fun found => found.1.isActive = true → Decoded 0 found.2.toList true := by
  unfold Decoder.elementMode
  split
  · refine .pure fun active => ?_
    split at active <;> cases active
  · dsimp only
    split
    · exact (read Reader.u32).bind fun _ _ => expression.bind fun _ whole => .pure fun _ => whole
    · have zero : Yields (Pure.pure 0 : Decoder UInt32) fun _ => True := .pure trivial
      exact zero.bind fun _ _ => expression.bind fun _ whole => .pure fun _ => whole

theorem elementTag (form : Decoder.ElementForm) : Yields (Decoder.elementTag form) fun _ => True := by
  unfold Decoder.elementTag
  split
  · refine (read Reader.byte).bind fun b _ => ?_
    split
    · exact .pure trivial
    · split
      · exact .pure trivial
      · exact .throw trivial
  · exact .pure trivial

theorem elementInit (form : Decoder.ElementForm) : Yields (Decoder.elementInit form) fun _ => True := by
  unfold Decoder.elementInit
  split
  · exact .pure trivial
  · exact (read Reader.count).bind fun count _ => ((read Reader.u32).repeatedOnto count []).bind fun _ _ => .pure trivial

theorem element :
    Yields Decoder.element fun found => found.1.mode.isActive = true → Decoded 0 found.2.toList true := by
  refine elementForm.bind fun form _ => (elementMode form).bind fun found whole => ?_
  exact (elementTag form).bind fun _ _ => (elementInit form).bind fun _ _ => .pure whole

theorem localDecl : Yields Decoder.localDecl fun _ => True :=
  (read Reader.u32).bind fun _ _ => (read Reader.byte).bind fun _ _ => .pure trivial

theorem localsOnto (count total : Nat) (before : List LocalDecl) :
    Yields (Decoder.localsOnto count total before) fun _ => True where
  result _ _ _ _ := trivial
  fault c e d failed := by
    induction count generalizing total before c with
    | zero => cases failed
    | succ count ih =>
      unfold Decoder.localsOnto at failed
      cases one : Decoder.localDecl c with
      | error e' c' =>
        rw [one] at failed
        cases failed
        exact localDecl.fault c e d one
      | ok decl c' =>
        rw [one] at failed
        dsimp only at failed
        split at failed
        · cases failed
          trivial
        · exact ih _ _ c' failed

theorem locals : Yields Decoder.locals fun _ => True :=
  (read Reader.count).bind fun count _ => localsOnto count 0 []

theorem dataMode :
    Yields Decoder.dataMode fun found => found.1.isActive = true → Decoded 0 found.2.toList true := by
  refine (read Reader.u32).bind fun flags _ => ?_
  split
  · exact expression.bind fun _ whole => .pure fun _ => whole
  · refine .pure fun active => ?_
    cases active
  · exact (read Reader.u32).bind fun _ _ => expression.bind fun _ whole => .pure fun _ => whole
  · exact .throw trivial

theorem data : Yields Decoder.data fun found => found.1.mode.isActive = true → Decoded 0 found.2.toList true :=
  dataMode.bind fun _ whole => (read Reader.bytes).bind fun _ _ => .pure whole

theorem frameAfter (id : UInt8) : Yields (Decoder.frameAfter id) fun _ => True := by
  refine (read Reader.u32).bind fun size _ => (read (Reader.frame size.toNat)).bind fun content _ => ?_
  exact ⟨fun _ _ _ _ => trivial, fun c e d failed => by cases failed⟩

theorem sectionFrame : Yields Decoder.sectionFrame fun _ => True :=
  (read Reader.byte).bind fun id _ => frameAfter id

theorem header : Yields Decoder.header fun _ => True := by
  have word : Yields (EStateM.adaptExcept (fun _ => DecodeError.badMagic) Reader.word32) fun _ => True :=
    adapt (fun _ => DecodeError.badMagic) (fun _ => trivial) Reader.word32
  exact word.bind fun _ _ => .guard trivial <|
    (read Reader.word32).bind fun _ _ => .guard trivial (.pure trivial)

end Yields

end Binary

end Wasm

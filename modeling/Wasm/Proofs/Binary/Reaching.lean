import Wasm.Proofs.Binary.Streaming
import Wasm.Proofs.Binary.Producing
import Wasm.Proofs.Binary.Yields

/-! # How far a delivery comes

A delivery goes from section to section, and in the code section from body to body, as long as there is no error. What
happens in the body that it has come to is its outcome: an error there is the error of the whole, with the function's
name put before an objection. A consumer that names no function itself finds one named in its objections only there.
-/

namespace Wasm

open Binary Outcome

/-- No objection of the consumer names a function. -/
structure Consumer.Nameless {σ : Type} (C : Consumer σ) : Prop where
  entry : ∀ e, Raises Violation.Nameless (C.entry e)
  site : ∀ x, Raises Violation.Nameless (C.site x)
  instruction : ∀ i, Raises Violation.Nameless (C.instruction i)
  exprEnd : Raises Violation.Nameless C.exprEnd

namespace Consumer.Nameless

variable {σ : Type} {C : Consumer σ}

theorem feedOpen (nameless : C.Nameless) (body : List Instruction) : Raises Violation.Nameless (C.feedOpen body) := by
  induction body with
  | nil => exact .pure ()
  | cons i rest ih => exact (nameless.instruction i).bind fun _ => ih

theorem feed (nameless : C.Nameless) (body : List Instruction) : Raises Violation.Nameless (C.feed body) := by
  rw [feed_eq]
  exact (nameless.feedOpen body).bind fun _ => nameless.exprEnd

theorem item (nameless : C.Nameless) (x : Item) : Raises Violation.Nameless (C.item x) := by
  cases x with
  | entry e => exact nameless.entry e
  | expr x body =>
    refine (nameless.site x).bind fun takes => ?_
    cases takes with
    | true => exact nameless.feed body
    | false => exact .pure ()

end Consumer.Nameless

namespace Binary

/-- If the error is an objection, it names no function. -/
def DecodeError.Nameless : DecodeError → Prop
  | .violation v => v.Nameless
  | _ => True

theorem DecodeError.IsFault.nameless {e : DecodeError} (fault : e.IsFault) : e.Nameless := by
  cases e with
  | violation v => exact fault.elim
  | _ => trivial

namespace Producer

variable {σ α : Type} {C : Consumer σ}

theorem read_of_ok {m : Decoder α} {a : α} {c d : Cursor} (decoded : m c = .ok a d) (t : σ) (n : Nat) :
    read m ⟨c, t, n⟩ = .ok a ⟨d, t, n⟩ := by
  simp only [read, decoded]

theorem read_of_error {m : Decoder α} {e : DecodeError} {c d : Cursor} (failed : m c = .error e d) (t : σ) (n : Nat) :
    read m ⟨c, t, n⟩ = .error e ⟨d, t, n⟩ := by
  simp only [read, failed]

theorem tell_of_ok {m : Step σ α} {a : α} {t t' : σ} (told : m t = .ok a t') (c : Cursor) (n : Nat) :
    tell m ⟨c, t, n⟩ = .ok a ⟨c, t', n⟩ := by
  simp only [tell, told]

theorem tell_of_error {m : Step σ α} {v : Violation} {t t' : σ} (told : m t = .error v t') (c : Cursor) (n : Nat) :
    tell m ⟨c, t, n⟩ = .error (.violation v) ⟨c, t', n⟩ := by
  simp only [tell, told]

/-! ## What is not a body -/

theorem nameless_read {m : Decoder α} {good : α → Prop} (yields : Yields m good) :
    Raises DecodeError.Nameless (read m : Producer σ α) := by
  intro s e s' failed
  cases decoded : m s.cursor with
  | ok a d => cases (read_of_ok decoded _ _).symm.trans failed
  | error e' d =>
    cases (read_of_error decoded _ _).symm.trans failed
    exact (yields.fault _ _ _ decoded).nameless

theorem nameless_tell {m : Step σ α} (raises : Raises Violation.Nameless m) :
    Raises DecodeError.Nameless (tell m) := by
  intro s e s' failed
  cases told : m s.consumer with
  | ok a t => cases (tell_of_ok told _ _).symm.trans failed
  | error v t =>
    cases (tell_of_error told _ _).symm.trans failed
    exact raises _ _ _ told

theorem nameless_times {entry : Producer σ Unit} (each : Raises DecodeError.Nameless entry) (count : Nat) :
    Raises DecodeError.Nameless (times entry count) := by
  induction count with
  | zero => exact .of_ok fun _ => rfl
  | succ count ih =>
    rw [times_succ]
    exact each.bind fun _ => ih

theorem nameless_entries {entry : Producer σ Unit} (each : Raises DecodeError.Nameless entry) :
    Raises DecodeError.Nameless (entries entry) :=
  (nameless_read (.read Reader.count)).bind fun count => nameless_times each count

theorem Answers.nameless {ran : EStateM.Result DecodeError (Session σ) Unit} {m : Step σ Unit} {t : σ} {n : Nat}
    {accepted : σ → EStateM.Result DecodeError (Session σ) Unit} {takes : Bool} {e : DecodeError} {s : Session σ}
    (answers : Answers ran (tellIf takes m) t n accepted) (raises : Raises Violation.Nameless m)
    (rest : ∀ t e s, accepted t = .error e s → e.Nameless) (failed : ran = .error e s) : e.Nameless := by
  have raises : Raises Violation.Nameless (tellIf takes m) := by
    cases takes with
    | true => exact raises
    | false => exact .pure ()
  unfold Answers at answers
  cases told : tellIf takes m t with
  | ok u t' =>
    rw [told] at answers
    exact rest t' e s (answers.symm.trans failed)
  | error v t' =>
    rw [told] at answers
    obtain ⟨d, same⟩ := answers
    cases same.symm.trans failed
    exact raises _ _ _ told

theorem nameless_expressionFrom (nameless : C.Nameless) (takes : Bool) :
    Raises DecodeError.Nameless (expressionFrom C takes 0) := by
  intro s e s' failed
  cases decoded : Decoder.expression s.cursor with
  | ok body d =>
    refine (Answers.expression decoded takes s.consumer s.nextFunction).nameless (nameless.feed _) ?_ failed
    intro t e s done
    cases done
  | error e' d =>
    obtain ⟨is, _, _, -, -, answers⟩ := Answers.fault decoded takes s.consumer s.nextFunction
    refine answers.nameless (nameless.feedOpen is) ?_ failed
    intro t e s fault
    cases fault
    exact (Yields.expression.fault _ _ _ decoded).nameless

theorem nameless_expression (nameless : C.Nameless) (x : Site) : Raises DecodeError.Nameless (expression C x) :=
  (nameless_tell (nameless.site x)).bind fun takes => nameless_expressionFrom nameless takes

theorem nameless_entry (nameless : C.Nameless) (e : Entry) : Raises DecodeError.Nameless (entry C e) :=
  nameless_tell (nameless.entry e)

/-- Something that is decoded, and an entry for it. -/
theorem nameless_decoded (nameless : C.Nameless) {m : Decoder α} {good : α → Prop} (yields : Yields m good)
    (e : α → Entry) : Raises DecodeError.Nameless (do let a ← read m; entry C (e a) : Producer σ Unit) :=
  (nameless_read yields).bind fun a => nameless_entry nameless (e a)

theorem nameless_custom (nameless : C.Nameless) : Raises DecodeError.Nameless (custom C) :=
  (nameless_read (.read Reader.text)).bind fun _ => (nameless_read (.read Reader.all)).bind fun _ =>
    nameless_entry nameless _

theorem nameless_imported (nameless : C.Nameless) : Raises DecodeError.Nameless (imported C) := by
  refine (nameless_read Yields.imported).bind fun i => ?_
  split
  · exact (Raises.of_ok fun _ => rfl).bind fun _ => nameless_entry nameless _
  · exact nameless_entry nameless _

theorem nameless_element (nameless : C.Nameless) : Raises DecodeError.Nameless (element C) := by
  refine (nameless_read Yields.element).bind fun found => ?_
  obtain ⟨segment, offset⟩ := found
  have items : Raises DecodeError.Nameless
      (if segment.init = .expressions then entries (expression C .elementItem) else pure ()) := by
    split
    · exact nameless_entries (nameless_expression nameless _)
    · exact .pure ()
  refine (nameless_entry nameless _).bind fun _ => ?_
  cases active : segment.mode.isActive with
  | true =>
    simp only [if_true]
    exact (nameless_tell (nameless.item _)).bind fun _ => items
  | false =>
    simp only [Bool.false_eq_true, if_false]
    exact items

theorem nameless_data (nameless : C.Nameless) : Raises DecodeError.Nameless (data C) := by
  refine (nameless_read Yields.data).bind fun found => ?_
  obtain ⟨segment, offset⟩ := found
  refine (nameless_entry nameless _).bind fun _ => ?_
  split
  · exact nameless_tell (nameless.item _)
  · exact .pure ()

/-- Outside of the code section no function is named. -/
theorem nameless_content (nameless : C.Nameless) {x : Section} (other : x ≠ .code) :
    Raises DecodeError.Nameless (content C x) := by
  cases x with
  | header | finish => exact .pure ()
  | type => exact nameless_entries (nameless_decoded nameless Yields.funcDecl _)
  | imports => exact nameless_entries (nameless_imported nameless)
  | function => exact nameless_entries (nameless_decoded nameless (.read Reader.u32) _)
  | table => exact nameless_entries (nameless_decoded nameless Yields.tableDecl _)
  | memory => exact nameless_entries (nameless_decoded nameless Yields.limits _)
  | global =>
    exact nameless_entries ((nameless_read Yields.globalDecl).bind fun _ => nameless_expression nameless _)
  | exports => exact nameless_entries (nameless_decoded nameless Yields.exported _)
  | start => exact nameless_decoded nameless (.read Reader.u32) _
  | element => exact nameless_entries (nameless_element nameless)
  | dataCount => exact nameless_decoded nameless (.read Reader.u32) _
  | code => exact absurd rfl other
  | data => exact nameless_entries (nameless_data nameless)

theorem nameless_within {m : Producer σ α} (raises : Raises DecodeError.Nameless m) (inside : Cursor) :
    Raises DecodeError.Nameless (within inside m) := by
  intro s e s' failed
  unfold within at failed
  dsimp only at failed
  cases ran : m ⟨inside, s.consumer, s.nextFunction⟩ with
  | ok a t => rw [ran] at failed; cases failed
  | error e' t =>
    rw [ran] at failed
    cases failed
    exact raises _ _ _ ran

/-- Inside its frame, a body names no function either. -/
theorem nameless_framedBody (nameless : C.Nameless) : Raises DecodeError.Nameless (framedBody C) := by
  refine (nameless_read (.read Reader.u32)).bind fun size => (nameless_read (.read (Reader.frame size.toNat))).bind
    fun content => nameless_within ?_ content
  exact (nameless_read Yields.locals).bind fun locals => (nameless_expression nameless (.code locals)).bind fun _ =>
    (Raises.of_ok fun _ => rfl).bind fun _ => .last_guard trivial

/-! ## Sections -/

theorem content_code : content C .code = (read (Reader.count : Decoder Nat) >>= times (body C)) := rfl

/-- The end of a section inside its frame. -/
def filled (f : SectionFrame) (rank : Nat) : Producer σ Nat := do
  let left ← unused
  if left ≠ 0 then throw (.sectionSize f.id f.size left)
  pure rank

theorem filled_ok {f : SectionFrame} {rank answer : Nat} {s s' : Session σ} (done : filled f rank s = .ok answer s') :
    answer = rank ∧ s' = s := by
  obtain ⟨left, _, looked, done⟩ := bind_ok_iff.mp done
  cases looked
  obtain ⟨-, done⟩ := guard_ok_iff.mp done
  cases done
  exact ⟨rfl, rfl⟩

theorem filled_raises (f : SectionFrame) (rank : Nat) :
    Raises DecodeError.Nameless (filled f rank : Producer σ Nat) :=
  (Raises.of_ok fun _ => rfl).bind fun _ => .guard trivial (.pure rank)

theorem framed_known {last : Nat} {f : SectionFrame} {x : Section} (found : Section.ofId? f.id = some x)
    (order : last < x.rank) : framed C last f = (content C x >>= fun _ => filled f x.rank) := by
  have known : f.id ≠ 0 := by
    intro zero
    rw [zero] at found
    cases found
  unfold framed ranked
  rw [if_neg known, found]
  simp only [if_neg (Nat.not_le_of_lt order), bind_assoc, pure_bind]
  rfl

/-- What stands in a frame: a custom section, or one that may come next, or nothing that could be told. -/
theorem framed_cases (C : Consumer σ) (last : Nat) (f : SectionFrame) :
    framed C last f = (custom C >>= fun _ => filled f last) ∨
    (∃ x, Section.ofId? f.id = some x ∧ last < x.rank) ∨ ∃ e : DecodeError, e.IsFault ∧ framed C last f = throw e := by
  by_cases isCustom : f.id = 0
  · left
    unfold framed ranked
    rw [if_pos isCustom]
    simp only [bind_assoc, pure_bind]
    rfl
  · right
    cases found : Section.ofId? f.id with
    | none =>
      refine .inr ⟨.unknownSection f.id, trivial, ?_⟩
      unfold framed ranked
      rw [if_neg isCustom, found]
      rfl
    | some x =>
      by_cases order : x.rank ≤ last
      · refine .inr ⟨.sectionOrder f.id, trivial, ?_⟩
        unfold framed ranked
        rw [if_neg isCustom, found]
        simp only [if_pos order]
        rfl
      · exact .inl ⟨x, rfl, Nat.lt_of_not_le order⟩

section Sections

variable {last : Nat} {c d enclosed : Cursor} {t : σ} {n : Nat} {f : SectionFrame}

/-- The frame of a section comes first, then the section, and then those behind it. -/
theorem sections_eq (decoded : Decoder.sectionFrame c = .ok (f, enclosed) d) :
    sections C last ⟨c, t, n⟩ =
      match framed C last f ⟨enclosed, C.frame f t, n⟩ with
      | .error e s => .error e ⟨d, s.consumer, s.nextFunction⟩
      | .ok rank s => sections C rank ⟨d, s.consumer, s.nextFunction⟩ := by
  have more : c.isEmpty = false := by
    have shrinks := Decoder.sectionFrame_shrinks decoded
    cases rest : c.rest with
    | nil =>
      rw [rest] at shrinks
      cases shrinks
    | cons b bytes => rw [Cursor.isEmpty, rest, List.isEmpty_cons]
  rw [sections, more]
  simp only [Bool.false_eq_true, if_false]
  split
  · rename_i failed
    rw [decoded] at failed
    cases failed
  · rename_i same
    rw [decoded] at same
    cases same
    cases framed C last f ⟨enclosed, C.frame f t, n⟩ <;> rfl

end Sections

/-! ## From section to section -/

/-- A delivery has come behind a section of rank `last`, or to the first section. -/
inductive Reached (C : Consumer σ) (bytes : List UInt8) (start : σ) : (last : Nat) → Session σ → Prop where
  | first {version : UInt32} {c : Cursor} {t : σ} (decoded : Decoder.header (.ofBytes bytes) = .ok version c)
      (accepted : C.entry (.header version) start = .ok () t) : Reached C bytes start 0 ⟨c, t, 0⟩
  | next {last rank : Nat} {c d content : Cursor} {t : σ} {n : Nat} {f : SectionFrame} {s : Session σ}
      (before : Reached C bytes start last ⟨c, t, n⟩) (decoded : Decoder.sectionFrame c = .ok (f, content) d)
      (done : framed C last f ⟨content, C.frame f t, n⟩ = .ok rank s) :
      Reached C bytes start rank ⟨d, s.consumer, s.nextFunction⟩

/-- A delivery has come to a place in the code section. There were `imported` functions before the section; `k` of its
bodies are done, and `left` of them are not. -/
inductive InCode (C : Consumer σ) (bytes : List UInt8) (start : σ) (imported : Nat) :
    (left k : Nat) → Session σ → Prop where
  | first {last count : Nat} {c d content inside : Cursor} {t : σ} {f : SectionFrame}
      (before : Reached C bytes start last ⟨c, t, imported⟩) (decoded : Decoder.sectionFrame c = .ok (f, content) d)
      (code : Section.ofId? f.id = some .code) (order : last < Section.code.rank)
      (counted : (Reader.count : Decoder Nat) content = .ok count inside) :
      InCode C bytes start imported count 0 ⟨inside, C.frame f t, imported⟩
  | next {left k : Nat} {s s' : Session σ} (before : InCode C bytes start imported (left + 1) k s)
      (done : body C s = .ok () s') : InCode C bytes start imported left (k + 1) s'

/-- A delivery has come to the body at position `k` of the code section, without any error before it. -/
def AtBody (C : Consumer σ) (bytes : List UInt8) (start : σ) (imported k : Nat) (s : Session σ) : Prop :=
  ∃ left, InCode C bytes start imported (left + 1) k s

/-- The consumer objects to something in the body at position `k`. -/
def ObjectsInBody (C : Consumer σ) (bytes : List UInt8) (start : σ) (imported k : Nat) (v : Violation) : Prop :=
  ∃ s s', AtBody C bytes start imported k s ∧
    framedBody C { s with nextFunction := s.nextFunction + 1 } = .error (.violation v) s'

variable {bytes : List UInt8} {start : σ}

/-- From a place between sections, a delivery goes on with the sections that are left. -/
theorem Reached.produce {last : Nat} {s : Session σ} (reached : Reached C bytes start last s) :
    Producer.produce C ⟨.ofBytes bytes, start, 0⟩ = (sections C last >>= fun _ => entry C .finish) s := by
  induction reached with
  | @first version c t decoded accepted =>
    show (read Decoder.header >>= fun version => entry C (.header version) >>= fun _ => sections C 0 >>= fun _ =>
      entry C .finish) _ = _
    have told : entry C (.header version) ⟨c, start, 0⟩ = .ok () ⟨c, t, 0⟩ := tell_of_ok accepted c 0
    rw [bind_of_ok (read_of_ok decoded start 0), bind_of_ok told]
  | next before decoded done ih =>
    rw [ih]
    show EStateM.bind _ _ _ = EStateM.bind _ _ _
    unfold EStateM.bind
    rw [sections_eq decoded, done]

/-- An error in the bodies that are left is the outcome of the whole. -/
theorem InCode.produce_error {imported left k : Nat} {s s' : Session σ} {e : DecodeError}
    (inside : InCode C bytes start imported left k s) (failed : times (body C) left s = .error e s') :
    ∃ s', Producer.produce C ⟨.ofBytes bytes, start, 0⟩ = .error e s' := by
  induction inside with
  | @first last count c d content inside t f before decoded code order counted =>
    have failed : Producer.content C .code ⟨content, C.frame f t, imported⟩ = .error e s' := by
      rw [content_code, bind_of_ok (read_of_ok counted _ _)]
      exact failed
    have failed : sections C last ⟨c, t, imported⟩ = .error e ⟨d, s'.consumer, s'.nextFunction⟩ := by
      rw [sections_eq decoded, framed_known code order, bind_of_error failed]
    exact ⟨_, by rw [before.produce, bind_of_error failed]⟩
  | next before done ih =>
    refine ih ?_
    rw [times_succ, bind_of_ok done]
    exact failed

/-- Where the bodies that are left fail, the delivery has come to a body that fails. -/
theorem InCode.exists_error {imported left k : Nat} {s s' : Session σ} {e : DecodeError}
    (inside : InCode C bytes start imported left k s) (failed : times (body C) left s = .error e s') :
    ∃ k s, AtBody C bytes start imported k s ∧ body C s = .error e s' := by
  induction left generalizing k s with
  | zero => cases failed
  | succ left ih =>
    rw [times_succ] at failed
    cases done : body C s with
    | ok u t =>
      rw [bind_of_ok done] at failed
      exact ih (inside.next done) failed
    | error e' t =>
      rw [bind_of_error done] at failed
      cases failed
      exact ⟨k, s, ⟨left, inside⟩, done⟩

/-- What a run that succeeds has told was accepted. -/
theorem accepted_of_ok {P : Speaker α} {c : Cursor} {t : σ} {n : Nat} {told : List Notice}
    {r : Except DecodeError (α × Cursor × Nat)} {a : α} {s : Session σ} (tells : Tells P c n told r)
    (ran : P σ C ⟨c, t, n⟩ = .ok a s) :
    C.hearAll told t = .ok () s.consumer ∧ r = .ok (a, s.cursor, s.nextFunction) := by
  have ended := tells σ C t
  rw [ran, Consumer.heard] at ended
  cases heard : C.hearAll told t with
  | ok u t' =>
    rw [heard] at ended
    obtain ⟨same, rfl⟩ := Prod.mk.inj ended
    exact ⟨rfl, same.symm⟩
  | error e t' =>
    rw [heard] at ended
    cases ended

/-- The pieces that a run has told were accepted, and the functions among them were counted. -/
theorem pieces_of_ok {P : Speaker Unit} {good : List Tree.Piece → Prop} (emits : EmitsPieces P good)
    {s s' : Session σ} (done : P σ C s = .ok () s') :
    ∃ ps, good ps ∧ C.items (ps.flatMap Tree.Piece.items) s.consumer = .ok () s'.consumer ∧
      s'.nextFunction = s.nextFunction + functionCount (ps.flatMap Tree.Piece.items) := by
  obtain ⟨told, r, tells, described⟩ := emits s.cursor s.nextFunction
  obtain ⟨heard, rfl⟩ := accepted_of_ok tells done
  obtain ⟨ps, held, -, rfl, count⟩ := described _ _ _ rfl
  exact ⟨ps, held, C.items_of_hearAll heard, count⟩

/-- A body is told as one item, and takes the next index. -/
theorem body_ok {s s' : Session σ} (done : body C s = .ok () s') :
    s'.nextFunction = s.nextFunction + 1 ∧
      ∃ locals is, C.items [.expr (.code locals) is] s.consumer = .ok () s'.consumer := by
  obtain ⟨_, ⟨p, rfl, here⟩, accepted, count⟩ := pieces_of_ok EmitsPieces.body done
  cases p with
  | body f => exact ⟨count, f.locals, f.instructions.toList, accepted⟩
  | _ => cases here

theorem InCode.nextFunction {imported left k : Nat} {s : Session σ} (inside : InCode C bytes start imported left k s) :
    s.nextFunction = imported + k := by
  induction inside with
  | first => rfl
  | next before done ih => rw [(body_ok done).1, ih, Nat.add_assoc]

end Producer

open Producer

variable {σ : Type} {C : Consumer σ} {bytes : List UInt8} {start : σ}

/-- An objection in a body is the outcome, named after the function that the body belongs to. -/
theorem deliver_of_objectsInBody {imported k : Nat} {v : Violation} (objects : ObjectsInBody C bytes start imported k v) :
    (deliver C bytes start).1 = .error (.violation (.inFunction (imported + k) v)) := by
  obtain ⟨s, s', ⟨left, inside⟩, failed⟩ := objects
  have failed : body C s = .error (.violation (.inFunction (imported + k) v)) s' := by
    show EStateM.adaptExcept (DecodeError.inFunction s.nextFunction) (framedBody C)
      { s with nextFunction := s.nextFunction + 1 } = _
    rw [EStateM.adaptExcept, failed, inside.nextFunction]
    rfl
  have failed : times (body C) (left + 1) s = .error (.violation (.inFunction (imported + k) v)) s' := by
    rw [times_succ, bind_of_error failed]
  obtain ⟨s', produced⟩ := inside.produce_error failed
  rw [deliver, produced]

/-- The error of a body is an objection in it, named after the function, or a fault. -/
theorem objectsInBody_of_error {imported k : Nat} {s s' : Session σ} {w : Violation}
    (reached : AtBody C bytes start imported k s) (failed : body C s = .error (.violation w) s') :
    ∃ v, ObjectsInBody C bytes start imported k v ∧ w = .inFunction (imported + k) v := by
  have index : s.nextFunction = imported + k := reached.elim fun _ inside => inside.nextFunction
  have failed : EStateM.adaptExcept (DecodeError.inFunction s.nextFunction) (framedBody C)
      { s with nextFunction := s.nextFunction + 1 } = .error (.violation w) s' := failed
  rw [EStateM.adaptExcept] at failed
  cases inside : framedBody C { s with nextFunction := s.nextFunction + 1 } with
  | ok u t => rw [inside] at failed; cases failed
  | error e t =>
    rw [inside] at failed
    cases e with
    | violation v =>
      cases failed
      exact ⟨v, ⟨s, _, reached, inside⟩, by rw [index]⟩
    | _ => cases failed

/-- In a section, an error that names a function is that of a body. -/
theorem nameless_or_body_of_framed (nameless : C.Nameless) {last : Nat} {c d content : Cursor} {t : σ} {n : Nat}
    {f : SectionFrame} {e : DecodeError} {s : Session σ} (reached : Reached C bytes start last ⟨c, t, n⟩)
    (decoded : Decoder.sectionFrame c = .ok (f, content) d)
    (failed : framed C last f ⟨content, C.frame f t, n⟩ = .error e s) :
    e.Nameless ∨ ∃ imported k s s', AtBody C bytes start imported k s ∧ body C s = .error e s' := by
  rcases framed_cases C last f with custom | ⟨x, found, order⟩ | ⟨e', fault, throws⟩
  · rw [custom] at failed
    exact .inl ((nameless_custom nameless).bind (fun _ => filled_raises f last) _ _ _ failed)
  · rw [framed_known found order] at failed
    by_cases code : x = .code
    · subst code
      cases ran : Producer.content C .code ⟨content, C.frame f t, n⟩ with
      | ok u s' =>
        rw [bind_of_ok ran] at failed
        exact .inl (filled_raises f _ _ _ _ failed)
      | error e' s' =>
        rw [bind_of_error ran] at failed
        cases failed
        rw [content_code] at ran
        cases counted : (Reader.count : Decoder Nat) content with
        | error e' d' =>
          rw [bind_of_error (read_of_error counted _ _)] at ran
          cases ran
          exact .inl ((Yields.read _).fault _ _ _ counted).nameless
        | ok count inside =>
          rw [bind_of_ok (read_of_ok counted _ _)] at ran
          obtain ⟨k, s, inBody, failed⟩ := (InCode.first reached decoded found order counted).exists_error ran
          exact .inr ⟨n, k, s, _, inBody, failed⟩
    · exact .inl ((nameless_content nameless code).bind (fun _ => filled_raises f _) _ _ _ failed)
  · rw [throws] at failed
    cases failed
    exact .inl fault.nameless

theorem nameless_or_body_of_sections (nameless : C.Nameless) {last : Nat} {s s' : Session σ} {e : DecodeError}
    (reached : Reached C bytes start last s) (failed : sections C last s = .error e s') :
    e.Nameless ∨ ∃ imported k s s', AtBody C bytes start imported k s ∧ body C s = .error e s' := by
  induction size : s.cursor.rest.length using Nat.strong_induction_on generalizing last s with
  | h size ih =>
    obtain ⟨c, t, n⟩ := s
    cases decoded : Decoder.sectionFrame c with
    | error e' d =>
      left
      rw [sections] at failed
      split at failed
      · cases failed
      · split at failed
        · rename_i same
          cases failed
          exact (Yields.sectionFrame.fault _ _ _ same).nameless
        · rename_i same
          cases decoded.symm.trans same
    | ok found d =>
      obtain ⟨f, content⟩ := found
      rw [sections_eq decoded] at failed
      cases ran : framed C last f ⟨content, C.frame f t, n⟩ with
      | error e' s =>
        rw [ran] at failed
        cases failed
        exact nameless_or_body_of_framed nameless reached decoded ran
      | ok rank s =>
        rw [ran] at failed
        exact ih _ (size ▸ Decoder.sectionFrame_shrinks decoded) (reached.next decoded ran) failed rfl

theorem nameless_or_body_of_produce (nameless : C.Nameless) {s : Session σ} {e : DecodeError}
    (failed : produce C ⟨.ofBytes bytes, start, 0⟩ = .error e s) :
    e.Nameless ∨ ∃ imported k s s', AtBody C bytes start imported k s ∧ body C s = .error e s' := by
  cases decoded : Decoder.header (.ofBytes bytes) with
  | error e' d =>
    have stopped : produce C ⟨.ofBytes bytes, start, 0⟩ = .error e' ⟨d, start, 0⟩ :=
      bind_of_error (read_of_error decoded start 0)
    cases stopped.symm.trans failed
    exact .inl (Yields.header.fault _ _ _ decoded).nameless
  | ok version c =>
    cases told : C.entry (.header version) start with
    | error v t =>
      have stopped : produce C ⟨.ofBytes bytes, start, 0⟩ = .error (.violation v) ⟨c, t, 0⟩ :=
        (bind_of_ok (read_of_ok decoded start 0)).trans (bind_of_error (tell_of_error told c 0))
      cases stopped.symm.trans failed
      exact .inl (nameless.entry _ _ _ _ told)
    | ok u t =>
      have reached : Reached C bytes start 0 ⟨c, t, 0⟩ := .first decoded told
      rw [reached.produce] at failed
      cases done : sections C 0 ⟨c, t, 0⟩ with
      | ok u s' =>
        rw [bind_of_ok done] at failed
        exact .inl (nameless_entry nameless .finish _ _ _ failed)
      | error e' s' =>
        rw [bind_of_error done] at failed
        cases failed
        exact nameless_or_body_of_sections nameless reached done

/-- An objection that is the outcome names no function, or it was raised in a body and names the function that the body
belongs to. -/
theorem nameless_or_objectsInBody (nameless : C.Nameless) {w : Violation}
    (rejected : (deliver C bytes start).1 = .error (.violation w)) :
    w.Nameless ∨ ∃ imported k v, ObjectsInBody C bytes start imported k v ∧ w = .inFunction (imported + k) v := by
  cases ran : produce C ⟨.ofBytes bytes, start, 0⟩ with
  | ok u s =>
    rw [deliver, ran] at rejected
    cases rejected
  | error e s =>
    rw [deliver, ran] at rejected
    cases rejected
    rcases nameless_or_body_of_produce nameless ran with nameless | ⟨imported, k, s, _, reached, failed⟩
    · exact .inl nameless
    · obtain ⟨v, objects, same⟩ := objectsInBody_of_error reached failed
      exact .inr ⟨imported, k, v, objects, same⟩

end Binary

end Wasm

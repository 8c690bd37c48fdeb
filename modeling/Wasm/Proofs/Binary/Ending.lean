import Wasm.Proofs.Binary.Costs
import Wasm.Proofs.Binary.Journeys
import Wasm.Proofs.Binary.Reaching

/-! # Every delivery ends

What a delivery does stays in proportion to the number of bytes, however long the expressions are and however large the
counts are that they claim. No byte pays for two instructions: one that is told as it is decoded is told once, and so is one
of an expression that is decoded ahead. Readers only go forward, each in its own bytes.
-/

namespace Wasm.Binary

open Outcome

namespace Producer

/-! ## Expressions -/

theorem expressionFrom_eq {σ : Type} (C : Consumer σ) (takes : Bool) (depth : Nat) :
    expressionFrom C takes depth = (Producer.read Decoder.instruction >>= fun i =>
      tell (tellIf takes (C.instruction i)) >>= fun _ =>
        match i.nesting depth with
        | some inner => expressionFrom C takes inner
        | none => tell (tellIf takes C.exprEnd)) := by
  funext ⟨c, t, n⟩
  cases decoded : Decoder.instruction c with
  | error e d => rw [bind_of_error (read_of_error decoded t n), expressionFrom_error decoded]
  | ok i d =>
    rw [bind_of_ok (read_of_ok decoded t n), expressionFrom_ok takes depth decoded]
    cases told : tellIf takes (C.instruction i) t with
    | error v t' => rw [bind_of_error (tell_of_error told d n)]
    | ok u t' =>
      rw [bind_of_ok (tell_of_ok told d n)]
      cases i.nesting depth <;> rfl

/-- What is told inside an expression, if it is taken. -/
theorem Jots.tellIf {σ : Type} {events words : Nat} {m : Step σ Unit} {noted : Step (σ × List Event) Unit} (takes : Bool)
    (jots : Jots events words m noted) : Jots events words (tellIf takes m) (Producer.tellIf takes noted) := by
  cases takes with
  | true => exact jots
  | false => exact (pure ()).mono (Nat.zero_le _) (Nat.zero_le _)

theorem cursor_of_read {σ α : Type} {m : Decoder α} {s s' : Session σ} {a : α} (done : Producer.read m s = .ok a s') :
    m s.cursor = .ok a s'.cursor := by
  cases decoded : m s.cursor with
  | error e d => cases (read_of_error decoded s.consumer s.nextFunction).symm.trans done
  | ok b d =>
    cases (read_of_ok decoded s.consumer s.nextFunction).symm.trans done
    rfl

/-- Each instruction pays for being decoded and told, and the last one for the end of the expression too. -/
theorem CoversAt.expressionFrom {σ : Type} (C : Consumer σ) (takes : Bool) (depth : Nat) (bytes : List UInt8)
    (s : Session σ) :
    CoversAt bytes {} (Producer.expressionFrom C takes depth) (Producer.expressionFrom C.noting takes depth)
      (fun _ => ⟨1, 0⟩) s := by
  -- on the bytes that are left, since nothing else bounds an expression
  induction length : s.cursor.rest.length using Nat.strong_induction_on generalizing depth s with
  | h left ih =>
    rw [expressionFrom_eq, expressionFrom_eq]
    refine (CoversAt.read (Affords.instruction s.cursor)).bind fun i s₁ decoded _ => ?_
    have told : CoversAt bytes ⟨3, 1⟩ (Producer.tell (tellIf takes (C.instruction i)))
        (Producer.tell (tellIf takes (C.noting.instruction i))) (fun _ => ⟨2, 0⟩) s₁ :=
      (tell (.tellIf takes (.instruction C i))).frame (by decide) fun _ => by decide
    refine told.bind fun _ s₂ heard _ => ?_
    cases i.nesting depth with
    | none =>
      exact (tell (.tellIf takes (.exprEnd C))).frame (by decide) fun _ => by decide
    | some inner =>
      have still := cursor_tell (tellIf takes (C.instruction i)) s₁
      rw [heard] at still
      have shrinks : s₂.cursor.rest.length < left := by
        rw [← length, show s₂.cursor = s₁.cursor from still]
        exact Decoder.instruction_shrinks (cursor_of_read decoded)
      exact (ih _ shrinks inner s₂ rfl).frame (by decide) fun _ => by decide

namespace Covers

/-- The site of an expression is paid for beforehand, and in the end there is enough for another one. -/
theorem expression (x : Site) : Covers ⟨1, 0⟩ (fun _ C => Producer.expression C x) fun _ => ⟨1, 0⟩ := by
  have site : Covers ⟨1, 0⟩ (fun _ C => tell (C.site x)) fun _ => {} := fun _ C _ _ _ =>
    .tell (.event (.site x) (C.site x))
  exact site.bind fun takes _ C bytes s _ => .expressionFrom C takes 0 bytes s

/-! ## Entries -/

theorem times {P : Speaker Unit} {k : Credit} (each : Covers k P fun _ => k) (count : Nat) :
    Covers k (fun σ C => Producer.times (P σ C) count) fun _ => k := by
  induction count with
  | zero => exact pure ()
  | succ count ih =>
    simp only [times_succ]
    exact each.bind fun _ => ih

/-- The number of entries pays for the first site, if they are expressions. -/
theorem entries {P : Speaker Unit} {steps : Nat} (each : Covers ⟨steps, 0⟩ P fun _ => ⟨steps, 0⟩) (few : steps ≤ 3) :
    Covers {} (fun σ C => Producer.entries (P σ C)) fun _ => {} := by
  have counted : Earns steps (liftM Reader.count : Decoder Nat) := Earns.count.lift.fewer few
  exact (read counted).bind fun count => (times each count).frame (Credit.le_refl _) fun _ =>
    Credit.add_le_add_left (Credit.none_le _) _

/-- Something is decoded, and an entry is told for it. -/
theorem read_entry {α : Type} {m : Decoder α} {steps : Nat} (earns : Earns (steps + 1) m) (e : α → Entry) :
    Covers {} (fun _ C => Producer.read m >>= fun a => Producer.entry C (e a)) fun _ => {} := by
  have decoded : Earns 1 m := earns.fewer (Nat.le_add_left _ _)
  exact (read decoded).bind fun a => entry (e a)

theorem custom : Covers {} (fun _ C => Producer.custom C) fun _ => {} := by
  have payload : Affords ⟨2, 0⟩ (liftM Reader.all : Decoder (List UInt8)) fun _ => ⟨1, 0⟩ :=
    Affords.all.lift.frame (by decide) fun _ => by decide
  exact (read Earns.text.lift).bind fun name => (read payload).bind fun _ => entry _

theorem imported : Covers {} (fun _ C => Producer.imported C) fun _ => {} := by
  have decoded : Earns 1 Decoder.imported := Earns.imported.fewer (by decide)
  refine (read decoded).bind fun i => ?_
  obtain ⟨source, name, desc⟩ := i
  cases desc with
  | function type => exact takeFunction.bind fun _ => entry _
  | table | memory | global => exact entry _

theorem global : Covers {} (fun _ C => Producer.global C) fun _ => {} := by
  have decoded : Earns 1 Decoder.globalDecl := Earns.globalDecl.fewer (by decide)
  exact (read decoded).bind fun d => (expression (.global d)).frame (by decide) fun _ => by decide

/-- The entry of a segment is told before its offset. -/
theorem segment (e : Entry) (k : Credit) : Covers k.extended (fun _ C => Producer.entry C e) fun _ => k := by
  refine (entry e).frame ⟨Nat.le_add_left _ _, Nat.zero_le _⟩ fun _ => ?_
  exact ⟨Nat.le_of_eq (Nat.add_comm _ _), Nat.le_of_eq (Nat.zero_add _)⟩

theorem offset (x : Site) (body : Expr) :
    Covers (Credit.offset true body) (fun _ C => tell (C.item (.expr x body.toList))) fun _ => {} := by
  have told := item x body.toList
  rw [Array.length_toList] at told
  exact told

theorem element : Covers {} (fun _ C => Producer.element C) fun _ => {} := by
  refine (read Affords.element).bind fun found => ?_
  obtain ⟨⟨tag, mode, init⟩, body⟩ := found
  have items : Covers {} (fun _ C => if init = .expressions then
      Producer.entries (Producer.expression C .elementItem) else Pure.pure ()) fun _ => {} := by
    by_cases exprs : init = .expressions
    · simp only [exprs, if_true]
      exact entries (expression .elementItem) (by decide)
    · simp only [exprs, if_false]
      exact pure ()
  refine (segment _ _).bind fun _ => ?_
  cases mode with
  | active table => exact (offset .elementOffset body).bind fun _ => items
  | passive | declarative => exact items

theorem data : Covers {} (fun _ C => Producer.data C) fun _ => {} := by
  refine (read Affords.data).bind fun found => ?_
  obtain ⟨⟨mode, init⟩, body⟩ := found
  refine (segment _ _).bind fun _ => ?_
  cases mode with
  | active memory => exact offset .dataOffset body
  | passive => exact pure ()

end Covers

/-! ## Frames -/

/-- What is decoded holds a reader for a part of the bytes. -/
def Encloses {β : Type} (r : Decoder β) (content : β → Cursor) : Prop :=
  ∀ c b d, r c = .ok b d → ∃ input, content b = .ofBytes input ∧ input <:+: c.rest

theorem encloses_frame (n : Nat) : Encloses (liftM (Reader.frame n)) id := by
  intro c content d done
  obtain ⟨bytes, e, taken, rest⟩ := bind_ok_iff.mp (Decoder.lift_ok_iff.mp done)
  cases rest
  rcases Nat.lt_or_ge c.rest.length n with few | long
  · rw [Reader.take_of_lt few] at taken
    cases taken
  · rw [Reader.take_of_le long] at taken
    cases taken
    exact ⟨_, rfl, (List.take_prefix n c.rest).isInfix⟩

theorem encloses_sectionFrame : Encloses Decoder.sectionFrame Prod.snd := by
  intro c found d done
  obtain ⟨id, c₁, one, rest⟩ := bind_ok_iff.mp done
  obtain ⟨size, c₂, two, rest⟩ := bind_ok_iff.mp rest
  obtain ⟨content, c₃, three, rest⟩ := bind_ok_iff.mp rest
  obtain ⟨_, _, ⟨⟩, rest⟩ := bind_ok_iff.mp rest
  cases rest
  have first := Forward.byte.lift c
  rw [one] at first
  have second := Forward.u32.lift c₁
  rw [two] at second
  obtain ⟨input, same, part⟩ := encloses_frame _ c₂ content _ three
  exact ⟨input, same, part.trans (Cursor.Leads.trans first second).suffix.isInfix⟩

theorem Covers.within {α β : Type} {r : Decoder β} {content : β → Cursor} {P : β → Speaker α} {pre : Credit}
    (encloses : Encloses r content) (affords : Affords pre r fun b => Credit.content (content b))
    (inside : ∀ b, Covers {} (P b) fun _ => {}) :
    Covers pre (fun σ C => Producer.read r >>= fun b => Producer.within (content b) (P b σ C)) fun _ => {} := by
  intro σ C bytes s part
  refine (CoversAt.read (affords s.cursor)).bind fun b s' decoded _ => ?_
  -- the bytes of the frame are behind the reader by now: they are part of what it had before
  obtain ⟨input, same, part'⟩ := encloses s.cursor b s'.cursor (cursor_of_read decoded)
  rw [same]
  exact .within (part'.trans part) (inside b σ C input _ (List.infix_refl _))

namespace Covers

/-- The count of the groups of locals pays for the site. -/
theorem bodyContent : Covers {} (fun _ C => Producer.bodyContent C) fun _ => {} := by
  have locals : Earns 1 Decoder.locals := Earns.locals.fewer (by decide)
  refine (read locals).bind fun locals => (expression (.code locals)).bind fun _ => unused.bind fun left => ?_
  by_cases empty : left = 0
  · simp only [empty, ne_eq, not_true, if_false]
    have done : Covers ⟨1, 0⟩ (fun _ _ => Pure.pure ()) fun _ => ⟨1, 0⟩ := pure ()
    exact done.frame (by decide) fun _ => by decide
  · simp only [ne_eq, empty, not_false_eq_true, if_true]
    exact throw _

theorem framedBody : Covers {} (fun _ C => Producer.framedBody C) fun _ => {} :=
  (read Earns.u32.lift).bind fun size =>
    within (encloses_frame size.toNat) (Affords.enclosed size.toNat).lift fun _ => bodyContent

theorem body : Covers {} (fun _ C => Producer.body C) fun _ => {} :=
  takeFunction.bind fun func σ C bytes s part => (framedBody σ C bytes s part).adaptExcept (DecodeError.inFunction func)

/-! ## Sections -/

theorem content (x : Section) : Covers {} (fun _ C => Producer.content C x) fun _ => {} := by
  cases x with
  | header | finish => exact pure ()
  | type => exact entries (read_entry Earns.funcDecl .type) (by decide)
  | imports => exact entries imported (by decide)
  | function => exact entries (read_entry Earns.u32.lift .function) (by decide)
  | table => exact entries (read_entry Earns.tableDecl .table) (by decide)
  | memory => exact entries (read_entry Earns.limits .memory) (by decide)
  | global => exact entries global (by decide)
  | exports => exact entries (read_entry Earns.exported .exported) (by decide)
  | start => exact read_entry Earns.u32.lift .start
  | element => exact entries element (by decide)
  | dataCount => exact read_entry Earns.u32.lift .dataCount
  | code => exact entries body (by decide)
  | data => exact entries data (by decide)

theorem ranked (last : Nat) (id : UInt8) : Covers {} (fun _ C => Producer.ranked C last id) fun _ => {} := by
  unfold Producer.ranked
  by_cases isCustom : id = 0
  · simp only [isCustom, if_true]
    exact custom.bind fun _ => pure last
  · simp only [isCustom, if_false]
    cases Section.ofId? id with
    | none => exact throw _
    | some x =>
      dsimp only
      by_cases order : x.rank ≤ last
      · simp only [order, if_true]
        exact throw_bind _
      · simp only [order, if_false]
        exact (content x).bind fun _ => pure x.rank

theorem framed (last : Nat) (f : SectionFrame) : Covers {} (fun _ C => Producer.framed C last f) fun _ => {} := by
  refine (ranked last f.id).bind fun rank => unused.bind fun left => ?_
  by_cases empty : left = 0
  · simp only [empty, ne_eq, not_true, if_false]
    exact pure rank
  · simp only [ne_eq, empty, not_false_eq_true, if_true]
    exact throw_bind _

end Covers

/-- The frame of a section, which the consumer is given notice of, and the section inside it. -/
def nextSection {σ : Type} (C : Consumer σ) (last : Nat) : Producer σ Nat := do
  let found ← read Decoder.sectionFrame
  within found.2 do
    tell (modify (C.frame found.1))
    framed C last found.1

theorem nextSection_of_ok {σ : Type} (C : Consumer σ) (last : Nat) {c d content : Cursor} {f : SectionFrame}
    (decoded : Decoder.sectionFrame c = .ok (f, content) d) (t : σ) (n : Nat) :
    nextSection C last ⟨c, t, n⟩ = within content (fun s => framed C last f { s with consumer := C.frame f s.consumer })
      ⟨d, t, n⟩ :=
  bind_of_ok (read_of_ok decoded t n)

theorem sections_step {σ : Type} (C : Consumer σ) (last : Nat) :
    sections C last = (unused >>= fun left => if left = 0 then pure () else nextSection C last >>= sections C) := by
  funext ⟨c, t, n⟩
  have looked : unused ⟨c, t, n⟩ = .ok c.remaining ⟨c, t, n⟩ := rfl
  rw [bind_of_ok looked]
  by_cases empty : c.remaining = 0
  · have empty' : c.isEmpty = true := List.isEmpty_iff_length_eq_zero.mpr empty
    rw [if_pos empty, sections, if_pos empty']
    rfl
  · have more : c.isEmpty = false := by
      rw [Bool.eq_false_iff]
      exact fun none => empty (List.isEmpty_iff_length_eq_zero.mp none)
    rw [if_neg empty]
    cases decoded : Decoder.sectionFrame c with
    | error e d =>
      have failed : nextSection C last ⟨c, t, n⟩ = .error e ⟨d, t, n⟩ := bind_of_error (read_of_error decoded t n)
      rw [bind_of_error failed, sections_error C more decoded]
    | ok found d =>
      have inside := nextSection_of_ok C last decoded t n
      rw [sections_eq decoded]
      unfold within at inside
      dsimp only at inside
      cases ran : framed C last found.1 ⟨found.2, C.frame found.1 t, n⟩ with
      | error e s =>
        rw [ran] at inside
        rw [bind_of_error inside]
      | ok rank s =>
        rw [ran] at inside
        rw [bind_of_ok inside]

/-- A section leaves fewer bytes. -/
theorem nextSection_shrinks {σ : Type} {C : Consumer σ} {last rank : Nat} {s s' : Session σ}
    (done : nextSection C last s = .ok rank s') : s'.cursor.rest.length < s.cursor.rest.length := by
  obtain ⟨found, t, decoded, done⟩ := bind_ok_iff.mp done
  have back := cursor_within found.2 (tell (modify (C.frame found.1)) >>= fun _ => framed C last found.1) t
  rw [done] at back
  rw [show s'.cursor = t.cursor from back]
  exact Decoder.sectionFrame_shrinks (cursor_of_read decoded)

theorem Covers.nextSection (last : Nat) : Covers {} (fun _ C => Producer.nextSection C last) fun _ => {} := by
  refine within encloses_sectionFrame Affords.sectionFrame fun found => ?_
  have notice : Covers {} (fun _ C => tell (modify (C.frame found.1))) fun _ => {} := fun _ C _ _ _ =>
    .tell fun t => ⟨[], Nat.le_refl _, Nat.le_refl _, fun notes => by rw [List.append_nil]; rfl⟩
  exact notice.bind fun _ => framed last found.1

theorem Covers.sections (last : Nat) : Covers {} (fun _ C => Producer.sections C last) fun _ => {} := by
  intro σ C bytes s part
  induction length : s.cursor.rest.length using Nat.strong_induction_on generalizing last s with
  | h left ih =>
    show CoversAt bytes {} (Producer.sections C last) (Producer.sections C.noting last) (fun _ => {}) s
    rw [sections_step, sections_step]
    refine (Covers.unused σ C bytes s part).bind fun left s₁ looked _ => ?_
    cases looked
    by_cases empty : s.cursor.remaining = 0
    · rw [if_pos empty, if_pos empty]
      exact Covers.pure () σ C bytes s part
    · rw [if_neg empty, if_neg empty]
      refine (Covers.nextSection last σ C bytes s part).bind fun rank s₂ done leads => ?_
      exact ih _ (length ▸ nextSection_shrinks done) rank s₂ (leads.suffix.isInfix.trans part) rfl

/-- The header pays for its entry and for the end. -/
theorem Covers.produce : Covers {} (fun _ C => Producer.produce C) fun _ => {} := by
  have header : Earns 2 Decoder.header := Earns.header.fewer (by decide)
  have told (version : UInt32) : Covers ⟨2, 0⟩ (fun _ C => Producer.entry C (.header version)) fun _ => ⟨1, 0⟩ :=
    (entry _).frame (by decide) fun _ => by decide
  exact (read header).bind fun version => (told version).bind fun _ => (sections 0).keep.bind fun _ => entry .finish

end Producer

/-! ## Every reader -/

theorem Affords.forward {ε α : Type} {m : EStateM ε Cursor α} {pre : Credit} {post : α → Credit}
    (affords : Affords pre m post) : Forward m := by
  intro c
  obtain ⟨places, passage, -⟩ := affords c
  exact passage.through.ends c List.mem_cons_self

/-- Readers only take bytes from the front, whether they succeed or fail. -/
structure ReadersForward : Prop where
  next? : Forward Reader.next?
  byte : Forward Reader.byte
  take (n : Nat) : Forward (Reader.take n)
  vector (n : Nat) : Forward (Reader.vector n)
  all : Forward Reader.all
  frame (n : Nat) : Forward (Reader.frame n)
  word32 : Forward Reader.word32
  word64 : Forward Reader.word64
  unsigned (size : Nat) : Forward (Reader.unsigned size)
  signed (size : Nat) : Forward (Reader.signed size)
  signedAfter (size : Nat) (first : UInt8) : Forward (Reader.signedAfter size first)
  u32 : Forward Reader.u32
  u64 : Forward Reader.u64
  s32 : Forward Reader.s32
  s64 : Forward Reader.s64
  count : Forward Reader.count
  bytes : Forward Reader.bytes
  text : Forward Reader.text

theorem readers_forward : ReadersForward where
  next? := by
    rintro ⟨pos, _ | ⟨b, rest⟩⟩
    · exact .refl _
    · exact .cons pos b rest
  byte := .byte
  take := .take
  vector := .vector
  all := Affords.all.forward
  frame n := (Forward.take n).bind fun _ => .pure _
  word32 := .word32
  word64 := .word64
  unsigned := .unsigned
  signed := .signed
  signedAfter := .signedAfter
  u32 := .u32
  u64 := (Forward.unsigned 64).bind fun _ => .pure _
  s32 := .s32
  s64 := .s64
  count := .count
  bytes := Earns.bytes.forward
  text := Earns.text.forward

/-- So do decoders, those of entries that are repeated if that of one entry does. -/
structure DecodersForward : Prop where
  repeated {α : Type} {entry : Decoder α} (each : Forward entry) (count : Nat) : Forward (Decoder.repeated entry count)
  memArg : Forward Decoder.memArg
  blockType : Forward Decoder.blockType
  reserved (mnemonic : String) (count : Nat) : Forward (Decoder.reserved mnemonic count)
  labels : Forward Decoder.labels
  layout (l : Layout) : Forward (Decoder.layout l)
  layoutAfter (opcode : UInt8) : Forward (Decoder.layoutAfter opcode)
  instructionAfter (opcode : UInt8) : Forward (Decoder.instructionAfter opcode)
  instruction : Forward Decoder.instruction
  expressionOnto (depth : Nat) (before : Expr) : Forward (Decoder.expressionOnto depth before)
  tags : Forward Decoder.tags
  funcDecl : Forward Decoder.funcDecl
  limits : Forward Decoder.limits
  tableDecl : Forward Decoder.tableDecl
  globalDecl : Forward Decoder.globalDecl
  importDesc : Forward Decoder.importDesc
  imported : Forward Decoder.imported
  exported : Forward Decoder.exported
  elementForm : Forward Decoder.elementForm
  elementMode (form : Decoder.ElementForm) : Forward (Decoder.elementMode form)
  elementTag (form : Decoder.ElementForm) : Forward (Decoder.elementTag form)
  elementInit (form : Decoder.ElementForm) : Forward (Decoder.elementInit form)
  element : Forward Decoder.element
  localDecl : Forward Decoder.localDecl
  localsOnto (count total : Nat) (before : List LocalDecl) : Forward (Decoder.localsOnto count total before)
  locals : Forward Decoder.locals
  dataMode : Forward Decoder.dataMode
  data : Forward Decoder.data
  frameAfter (id : UInt8) : Forward (Decoder.frameAfter id)
  sectionFrame : Forward Decoder.sectionFrame
  header : Forward Decoder.header

theorem decoders_forward : DecodersForward where
  repeated each count := .repeatedOnto each count []
  memArg := .memArg
  blockType := .blockType
  reserved := .reserved
  labels := .labels
  layout := .layout
  layoutAfter := .layoutAfter
  instructionAfter := .instructionAfter
  instruction := .instruction
  expressionOnto depth before c := by
    obtain ⟨places, passage, -⟩ := Affords.expressionOnto depth before c
    exact passage.through.ends c List.mem_cons_self
  tags := Earns.tags.forward
  funcDecl := Earns.funcDecl.forward
  limits := Earns.limits.forward
  tableDecl := Earns.tableDecl.forward
  globalDecl := Earns.globalDecl.forward
  importDesc := Earns.importDesc.forward
  imported := Earns.imported.forward
  exported := Earns.exported.forward
  elementForm := Earns.elementForm.forward
  elementMode form := (Affords.elementMode form).forward
  elementTag form := (Earns.elementTag form).forward
  elementInit form := (Earns.elementInit form).forward
  element := Affords.element.forward
  localDecl := Earns.localDecl.forward
  localsOnto count total before := (Earns.localsOnto count total before).forward
  locals := Earns.locals.forward
  dataMode := Affords.dataMode.forward
  data := Affords.data.forward
  frameAfter := .frameAfter
  sectionFrame := Affords.sectionFrame.forward
  header := Earns.header.forward

namespace Producer

/-- The reader in use is only moved forward. Readers that are opened inside are left behind. -/
def GoesForward {σ α : Type} (m : Producer σ α) : Prop := ∀ s : Session σ, s.cursor.Leads (left (m s)).cursor

theorem CoversAt.leads {σ α : Type} {bytes : List UInt8} {pre : Credit} {m : Producer σ α}
    {noted : Producer (σ × List Event) α} {post : α → Credit} {s : Session σ} (covers : CoversAt bytes pre m noted post s) :
    s.cursor.Leads (left (m s)).cursor := by
  obtain ⟨route, told, journey, -⟩ := covers
  exact journey.through.1.ends s.cursor List.mem_cons_self

theorem Covers.goesForward {σ α : Type} {pre : Credit} {P : Speaker α} {post : α → Credit} (covers : Covers pre P post)
    (C : Consumer σ) : GoesForward (P σ C) :=
  fun s => (covers σ C s.cursor.rest s (List.infix_refl _)).leads

theorem GoesForward.times {σ : Type} {entry : Producer σ Unit} (each : GoesForward entry) (count : Nat) :
    GoesForward (times entry count) := by
  induction count with
  | zero => exact fun s => .refl s.cursor
  | succ count ih =>
    intro s
    have one := each s
    unfold Producer.times
    cases ran : entry s with
    | error e s' =>
      rw [ran] at one
      exact one
    | ok u s' =>
      rw [ran] at one
      exact one.trans (ih s')

theorem GoesForward.bind {σ α β : Type} {m : Producer σ α} {f : α → Producer σ β} (first : GoesForward m)
    (second : ∀ a, GoesForward (f a)) : GoesForward (m >>= f) := by
  intro s
  have one := first s
  cases ran : m s with
  | error e s' =>
    rw [ran] at one
    rw [bind_of_error ran]
    exact one
  | ok a s' =>
    rw [ran] at one
    rw [bind_of_ok ran]
    exact one.trans (second a s')

theorem GoesForward.read {σ α : Type} {m : Decoder α} (forward : Forward m) :
    GoesForward (Producer.read m : Producer σ α) := by
  intro s
  rw [cursor_read]
  exact forward s.cursor

/-- Whatever a producer works on, it goes forward there: the module, a section inside its frame, a body inside its own. -/
structure AllForward {σ : Type} (C : Consumer σ) : Prop where
  read {α : Type} {m : Decoder α} (forward : Forward m) : GoesForward (read m : Producer σ α)
  tell {α : Type} (m : Step σ α) : GoesForward (tell m)
  within {α : Type} (content : Cursor) (m : Producer σ α) : GoesForward (within content m)
  entries {entry : Producer σ Unit} (each : GoesForward entry) : GoesForward (entries entry)
  expressionFrom (takes : Bool) (depth : Nat) : GoesForward (expressionFrom C takes depth)
  expression (x : Site) : GoesForward (expression C x)
  custom : GoesForward (custom C)
  imported : GoesForward (imported C)
  global : GoesForward (global C)
  element : GoesForward (element C)
  data : GoesForward (data C)
  bodyContent : GoesForward (bodyContent C)
  framedBody : GoesForward (framedBody C)
  body : GoesForward (body C)
  content (x : Section) : GoesForward (content C x)
  ranked (last : Nat) (id : UInt8) : GoesForward (ranked C last id)
  framed (last : Nat) (f : SectionFrame) : GoesForward (framed C last f)
  sections (last : Nat) : GoesForward (sections C last)
  produce : GoesForward (produce C)

theorem all_forward {σ : Type} (C : Consumer σ) : AllForward C where
  read := .read
  tell m s := by
    rw [cursor_tell]
    exact .refl s.cursor
  within content m s := by
    rw [cursor_within]
    exact .refl s.cursor
  entries each := (GoesForward.read Forward.count.lift).bind fun count => each.times count
  expressionFrom takes depth s := (CoversAt.expressionFrom C takes depth s.cursor.rest s).leads
  expression x := (Covers.expression x).goesForward C
  custom := Covers.custom.goesForward C
  imported := Covers.imported.goesForward C
  global := Covers.global.goesForward C
  element := Covers.element.goesForward C
  data := Covers.data.goesForward C
  bodyContent := Covers.bodyContent.goesForward C
  framedBody := Covers.framedBody.goesForward C
  body := Covers.body.goesForward C
  content x := (Covers.content x).goesForward C
  ranked last id := (Covers.ranked last id).goesForward C
  framed last f := (Covers.framed last f).goesForward C
  sections last := (Covers.sections last).goesForward C
  produce := Covers.produce.goesForward C

end Producer

/-- Notes that are taken change nothing else about a delivery. -/
theorem deliver_noting {σ : Type} {C : Consumer σ} {bytes : List UInt8} {s : σ} {notes told : List Event}
    (same : Producer.produce C.noting ⟨.ofBytes bytes, (s, notes), 0⟩ =
      Producer.noting told (Producer.produce C ⟨.ofBytes bytes, s, 0⟩)) :
    deliver C.noting bytes (s, notes) = ((deliver C bytes s).1, (deliver C bytes s).2, told) := by
  unfold deliver
  rw [same]
  cases Producer.produce C ⟨.ofBytes bytes, s, 0⟩ <;> rfl

/-- Every delivery ends after no more reads, opened readers and events than four for each byte and one, with no more
instructions than bytes among the events that are told, whatever comes of them. All its readers go forward in their own
bytes, which are parts of those that are delivered: every function that reads does so, and so does all that a producer
does with one reader. -/
theorem deliver_advances_and_ends {σ : Type} (C : Consumer σ) (bytes : List UInt8) (s : σ) :
    (∃ route told, Producer.Journey (Producer.produce C) ⟨.ofBytes bytes, s, 0⟩ route ∧
      (∀ t ∈ route.inner, t.input <:+: bytes) ∧
      deliver C.noting bytes (s, []) = ((deliver C bytes s).1, (deliver C bytes s).2, told) ∧
      route.steps + told.length ≤ 4 * bytes.length + 1 ∧ told.countP Event.isInstruction ≤ bytes.length) ∧
    (∀ route, Producer.Journey (Producer.produce C) ⟨.ofBytes bytes, s, 0⟩ route →
      ∀ t ∈ ⟨bytes, route.places⟩ :: route.inner, t.Advances) ∧
    (ReadersForward ∧ DecodersForward ∧ Producer.AllForward C) ∧
    ((∀ n, Producer.Encloses (liftM (Reader.frame n)) id) ∧ Producer.Encloses Decoder.sectionFrame Prod.snd) ∧
    (∀ c i d, Decoder.instruction c = .ok i d → c.pos < d.pos) ∧
    (∀ n, (Reader.take n).AllOrNone n ∧ (Reader.frame n).AllOrNone n ∧ (Reader.vector n).AllOrNone n) ∧
    Reader.word32.AllOrNone 4 ∧ Reader.word64.AllOrNone 8 := by
  refine ⟨?_, fun route journey => ?_, ⟨readers_forward, decoders_forward, Producer.all_forward C⟩,
    ⟨Producer.encloses_frame, Producer.encloses_sectionFrame⟩, fun c i d decoded => ?_, fun n => ?_, ?_, ?_⟩
  · obtain ⟨route, told, journey, parts, same, short, few⟩ :=
      (Producer.Covers.produce σ C bytes ⟨.ofBytes bytes, s, 0⟩ (List.infix_refl _)).total
    exact ⟨route, told, journey, parts, deliver_noting (same []), short, few⟩
  · have through := journey.through
    exact List.forall_mem_cons.mpr ⟨through.1.advances, through.2⟩
  · have leads := Forward.instruction c
    rw [decoded] at leads
    exact Cursor.Leads.pos_lt leads (Decoder.instruction_shrinks decoded)
  · exact ⟨.take n, (Reader.AllOrNone.take n).returning _, .vector n⟩
  · exact (Reader.AllOrNone.take 4).returning _
  · exact (Reader.AllOrNone.take 8).returning _

end Wasm.Binary

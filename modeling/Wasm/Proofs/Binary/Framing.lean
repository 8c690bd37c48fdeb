import Wasm.Proofs.Binary.Grammar
import Wasm.Proofs.Binary.Integers

/-! # Sections in their frames

A section is read inside its frame, and what is told of it depends on the bytes of the frame alone, not on where the
frame lies or on what follows it. A custom section that is put between two sections is told as one entry more, and
leaves all that is told before and after it as it was.
-/

namespace Wasm

/-- The name and the content of a custom section, if the event is one. -/
def Event.customs : Event → List (String × List UInt8)
  | .entry (.custom name payload) => [(name, payload)]
  | _ => []

namespace Binary

open Leb128

/-- A section in its frame: an identifier, then the number of the bytes that follow, which may be padded, then these
bytes. -/
structure Framed where
  id : UInt8
  size : List UInt8
  payload : List UInt8
  sized : Unsigned 32 size
  counted : total size = payload.length

namespace Framed

def bytes (f : Framed) : List UInt8 := f.id :: f.size ++ f.payload

/-- The section is a custom one, and its payload starts with a text that has its length before it. -/
structure Names (f : Framed) (name : String) (content : List UInt8) : Prop where
  id : f.id = 0
  payload : ∃ size, Unsigned 32 size ∧ total size = name.utf8ByteSize ∧
    f.payload = size ++ name.toByteArray.data.toList ++ content

end Framed

/-! ## Frames and texts -/

theorem toNat_total {bs : List UInt8} (writes : Unsigned 32 bs) : (total bs).toUInt32.toNat = total bs :=
  UInt32.toNat_ofNat_of_lt' writes.fits

namespace Reads

theorem u32_of_unsigned {bs : List UInt8} (writes : Unsigned 32 bs) : Reads Reader.u32 bs (total bs).toUInt32 :=
  Reader.u32_exactly.reads ⟨writes, toNat_total writes⟩

/-- As many bytes as a number before them says. -/
theorem take_counted {size bs : List UInt8} (writes : Unsigned 32 size) (counted : total size = bs.length) :
    Reads (Reader.take (total size).toUInt32.toNat) bs bs := by
  rw [toNat_total writes, counted]
  exact take bs

/-- A text whose length may be padded. -/
theorem text_sized {size : List UInt8} {s : String} (writes : Unsigned 32 size)
    (counted : total size = s.utf8ByteSize) : Reads Reader.text (size ++ s.toByteArray.data.toList) s := by
  have whole : s.toByteArray.data.toList.toByteArray = s.toByteArray := ByteArray.ext (by simp)
  have read : Reads Reader.bytes (size ++ s.toByteArray.data.toList) s.toByteArray.data.toList :=
    (u32_of_unsigned writes).bind (take_counted writes counted)
  refine read.bind_nil ?_
  rw [whole, String.fromUTF8?, dif_pos s.isValidUTF8]
  exact pure s

end Reads

/-- What is read inside a frame that it fills. -/
theorem Tells.framed {last rank n m : Nat} {f : SectionFrame} {content used : Cursor} {told : List Notice}
    (ranked : Tells (fun _ C => Producer.ranked C last f.id) content n told (.ok (rank, used, m)))
    (filled : used.rest = []) :
    Tells (fun _ C => Producer.framed C last f) content n told (.ok (rank, used, m)) := by
  have looked : Tells (fun _ _ => Producer.unused >>= fun left =>
      if left ≠ 0 then MonadExcept.throw (.sectionSize f.id f.size left) else Pure.pure rank) used m []
      (.ok (rank, used, m)) := by
    refine (Tells.unused used m).bind ?_
    simp only [Cursor.remaining, filled, List.length_nil, ne_eq, not_true, if_false]
    exact .pure rank used m
  have whole := ranked.bind (Q := fun rank _ _ => Producer.unused >>= fun left =>
    if left ≠ 0 then MonadExcept.throw (.sectionSize f.id f.size left) else Pure.pure rank) looked
  rwa [List.append_nil] at whole

namespace Framed

theorem sectionFrame_eq (f : Framed) (pos : Nat) (rest : List UInt8) :
    Decoder.sectionFrame ⟨pos, f.bytes ++ rest⟩ =
      .ok (⟨f.id, (total f.size).toUInt32, pos + f.bytes.length⟩, .ofBytes f.payload)
        ⟨pos + f.bytes.length, rest⟩ := by
  have size := (Reads.u32_of_unsigned f.sized).lift (pos + 1) (f.payload ++ rest)
  have content : Reads (Reader.frame (total f.size).toUInt32.toNat) f.payload (.ofBytes f.payload) :=
    (Reads.take_counted f.sized f.counted).returning _
  have enclosed := content.lift (pos + 1 + f.size.length) rest
  have split : f.bytes ++ rest = f.id :: (f.size ++ (f.payload ++ rest)) := by simp [bytes]
  have length : pos + f.bytes.length = pos + 1 + f.size.length + f.payload.length := by simp [bytes]; omega
  rw [split, length]
  refine Outcome.bind_ok_iff.mpr ⟨f.id, ⟨pos + 1, f.size ++ (f.payload ++ rest)⟩, rfl, ?_⟩
  exact Outcome.bind_ok_iff.mpr ⟨_, _, size, Outcome.bind_ok_iff.mpr ⟨_, _, enclosed, rfl⟩⟩

/-- A custom section is told as one entry, whatever came before it. -/
theorem Names.tells {f : Framed} {name : String} {content : List UInt8} (names : f.Names name content)
    (last n : Nat) (size : UInt32) (offset : Nat) :
    ∃ used, Tells (fun _ C => Producer.framed C last ⟨f.id, size, offset⟩) (.ofBytes f.payload) n
      [.item [] (.entry (.custom name content))] (.ok (last, used, n)) := by
  obtain ⟨length, writes, counted, payload⟩ := names.payload
  have text := (Reads.text_sized writes counted).lift 0 content
  rw [← payload] at text
  have all (pos : Nat) : (liftM Reader.all : Decoder (List UInt8)) ⟨pos, content⟩ =
      .ok content ⟨pos + content.length, []⟩ := rfl
  obtain ⟨pos, told⟩ : ∃ pos, Tells (fun _ C => Producer.custom C) (.ofBytes f.payload) n
      [.item [] (.entry (.custom name content))] (.ok ((), ⟨pos, []⟩, n)) :=
    ⟨_, (Tells.read_ok text).bind ((Tells.read_ok (all _)).bind (.entry (.custom name content) _ n))⟩
  refine ⟨⟨pos, []⟩, Tells.framed ?_ rfl⟩
  simp only [Producer.ranked, names.id, if_true]
  exact told.bind (.pure last _ n)

end Framed

/-! ## Places in the bytes -/

section Places

variable {ε ε' α β : Type}

/-- Outcomes that differ in places alone: values in relation, with the same bytes ahead, or the same error. -/
def Level (R : α → α → Prop) (x y : EStateM.Result ε Cursor α) : Prop :=
  (∃ a b c d, x = .ok a c ∧ y = .ok b d ∧ R a b ∧ c.rest = d.rest) ∨ ∃ e c d, x = .error e c ∧ y = .error e d

/-- Where the bytes lie makes no difference. -/
def Placeless (R : α → α → Prop) (m : EStateM ε Cursor α) : Prop := ∀ c d, c.rest = d.rest → Level R (m c) (m d)

namespace Placeless

variable {R : α → α → Prop} {m : EStateM ε Cursor α}

theorem pure (a : α) : Placeless Eq (Pure.pure a : EStateM ε Cursor α) :=
  fun c d same => .inl ⟨a, a, c, d, rfl, rfl, rfl, same⟩

theorem bind {S : β → β → Prop} {f : α → EStateM ε Cursor β} (first : Placeless Eq m)
    (second : ∀ a, Placeless S (f a)) : Placeless S (m >>= f) := by
  intro c d same
  rcases first c d same with ⟨a, _, c', d', here, there, rfl, same'⟩ | ⟨e, c', d', here, there⟩
  · rw [Outcome.bind_of_ok here, Outcome.bind_of_ok there]
    exact second a c' d' same'
  · exact .inr ⟨e, c', d', Outcome.bind_of_error here, Outcome.bind_of_error there⟩

theorem adaptExcept (f : ε → ε') (inside : Placeless R m) : Placeless R (EStateM.adaptExcept f m) := by
  intro c d same
  unfold EStateM.adaptExcept
  rcases inside c d same with ⟨a, b, c', d', here, there, related, same'⟩ | ⟨e, c', d', here, there⟩
  · rw [here, there]
    exact .inl ⟨a, b, c', d', rfl, rfl, related, same'⟩
  · rw [here, there]
    exact .inr ⟨f e, c', d', rfl, rfl⟩

theorem lift {R : α → α → Prop} {m : Reader α} (inside : Placeless R m) : Placeless R (liftM m : Decoder α) :=
  inside.adaptExcept _

theorem byte : Placeless Eq Reader.byte := by
  rintro ⟨pos, _ | ⟨b, rest⟩⟩ ⟨pos', _⟩ ⟨⟩
  · exact .inr ⟨_, _, _, rfl, rfl⟩
  · exact .inl ⟨b, b, _, _, rfl, rfl, rfl, rfl⟩

theorem take (n : Nat) : Placeless Eq (Reader.take n) := by
  rintro ⟨pos, rest⟩ ⟨pos', _⟩ ⟨⟩
  unfold Reader.take
  by_cases enough : holdsAtLeast n rest = true
  · rw [if_pos enough, if_pos enough]
    exact .inl ⟨_, _, _, _, rfl, rfl, rfl, rfl⟩
  · rw [if_neg enough, if_neg enough]
    exact .inr ⟨_, _, _, rfl, rfl⟩

theorem digits (digit : (shift sum : Nat) → UInt8 → Digit α) (rest : List UInt8) (pos pos' shift sum : Nat) :
    Level Eq (Leb128.digits digit rest pos shift sum) (Leb128.digits digit rest pos' shift sum) := by
  induction rest generalizing pos pos' shift sum with
  | nil => exact .inr ⟨_, _, _, rfl, rfl⟩
  | cons b rest ih =>
    unfold Leb128.digits
    cases digit shift sum b with
    | fault f => exact .inr ⟨_, _, _, rfl, rfl⟩
    | last value => exact .inl ⟨_, _, _, _, rfl, rfl, rfl, rfl⟩
    | more sum => exact ih (pos + 1) (pos' + 1) (shift + 7) sum

theorem u32 : Placeless Eq Reader.u32 := by
  refine bind (m := Reader.unsigned 32) ?_ fun n => pure n.toUInt32
  rintro ⟨pos, rest⟩ ⟨pos', _⟩ ⟨⟩
  exact digits (unsignedDigit 32) rest pos pos' 0 0

/-- The frame of a section says where it ends, and nothing else that depends on where it lies. -/
theorem sectionFrame :
    Placeless (fun x y => x.1.id = y.1.id ∧ x.1.size = y.1.size ∧ x.2 = y.2) Decoder.sectionFrame := by
  refine byte.lift.bind fun id => u32.lift.bind fun size => ?_
  refine ((take size.toNat).bind fun bytes => pure (Cursor.ofBytes bytes)).lift.bind fun content => ?_
  exact fun c d same => .inl ⟨_, _, _, _, rfl, rfl, ⟨rfl, rfl, rfl⟩, same⟩

end Placeless

end Places

/-- Sections that lie elsewhere are told the same way, but for their places. -/
theorem sections_elsewhere (last : Nat) {c d : Cursor} (same : c.rest = d.rest) (n : Nat) :
    ∃ one two r r', Tells (fun _ C => Producer.sections C last) c n one r ∧
      Tells (fun _ C => Producer.sections C last) d n two r' ∧
      one.filter (!·.isFrame) = two.filter (!·.isFrame) ∧ r.map (fun _ => ()) = r'.map (fun _ => ()) := by
  induction size : c.rest.length using Nat.strongRecOn generalizing c d last n with
  | ind size ih =>
    have level : d.isEmpty = c.isEmpty := congrArg List.isEmpty same.symm
    cases empty : c.isEmpty with
    | true =>
      exact ⟨[], [], .ok ((), c, n), .ok ((), d, n), fun σ C t => ends_sections_empty C empty,
        fun σ C t => ends_sections_empty C (level.trans empty), rfl, rfl⟩
    | false =>
      rcases Placeless.sectionFrame c d same with
        ⟨⟨f, content⟩, ⟨g, _⟩, c', d', here, there, ⟨ids, sizes, rfl⟩, same'⟩ | ⟨e, c', d', here, there⟩
      · obtain ⟨one, r, tells, -⟩ := Emits.framed last f content n
        have tells' : Tells (fun _ C => Producer.framed C last g) content n one r := by
          obtain ⟨id, size, place⟩ := f
          obtain ⟨_, _, place'⟩ := g
          cases ids
          cases sizes
          exact tells
        cases r with
        | error e =>
          exact ⟨_, _, _, _, .sections_error empty here tells, .sections_error (level.trans empty) there tells',
            rfl, rfl⟩
        | ok done =>
          obtain ⟨rank, used, m⟩ := done
          obtain ⟨two, two', r, r', rest, rest', alike, ends⟩ :=
            ih c'.rest.length (size ▸ Decoder.sectionFrame_shrinks here) rank same' m rfl
          refine ⟨_, _, r, r', .sections empty here tells rest,
            .sections (level.trans empty) there tells' rest', ?_, ends⟩
          show (one ++ two).filter _ = (one ++ two').filter _
          rw [List.filter_append, List.filter_append, alike]
      · exact ⟨[], [], .error e, .error e, fun σ C t => ends_sections_error C empty here,
          fun σ C t => ends_sections_error C (level.trans empty) there, rfl, rfl⟩

/-! ## Custom sections -/

def Notice.customs (x : Notice) : List (String × List UInt8) := x.events.flatMap Event.customs

theorem Tells.events_unique {α : Type} {P : Speaker α} {c : Cursor} {n : Nat} {told told' : List Notice}
    {r r' : Except DecodeError (α × Cursor × Nat)} (tells : Tells P c n told r) (tells' : Tells P c n told' r') :
    r = r' ∧ told.flatMap Notice.events = told'.flatMap Notice.events := by
  have same := (tells _ Consumer.scribe []).symm.trans (tells' _ Consumer.scribe [])
  simp only [Consumer.heard, Consumer.scribe_hearAll, List.nil_append] at same
  exact Prod.mk.inj same

theorem customs_of_belongsTo {s : Section} {e : Event} (belongs : e.BelongsTo s) : e.customs = [] := by
  rcases e with (_ | _ | _ | _ | _ | _ | _ | _ | _ | _ | _ | _ | _) | _ | _ | _
  case entry.custom => cases belongs
  all_goals rfl

/-- A frame with the identifier of custom sections holds one of them, and no other frame does. -/
theorem Utters.framed_customs (last : Nat) (f : SectionFrame) :
    Utters (fun _ C => Producer.framed C last f)
      fun _ => {w | (w.flatMap Event.customs).length = if f.id = 0 then 1 else 0} := by
  refine framed (ranked (fun isCustom => ?_) (fun notCustom s _ _ => ?_) fun notCustom => ?_)
  · refine iSup_le fun name => iSup_le fun payload => ?_
    rintro _ rfl
    rw [isCustom]
    rfl
  · refine (Grammar.group_within s).trans fun w word => ?_
    have none : w.flatMap Event.customs = [] :=
      List.flatMap_eq_nil_iff.mpr fun e member => customs_of_belongsTo (word e member)
    rw [if_neg notCustom]
    exact congrArg List.length none
  · rw [if_neg notCustom]
    exact ⟨last, [], rfl⟩

theorem customs_of_framed {last n m rank : Nat} {f : SectionFrame} {content used : Cursor} {told : List Notice}
    (tells : Tells (fun _ C => Producer.framed C last f) content n told (.ok (rank, used, m))) :
    (told.flatMap Notice.customs).length = if f.id = 0 then 1 else 0 := by
  obtain ⟨told', r, tells', worded⟩ := Utters.framed_customs last f content n
  obtain ⟨rfl, same⟩ := tells.events_unique tells'
  have split : told.flatMap Notice.customs = (told.flatMap Notice.events).flatMap Event.customs :=
    List.flatMap_assoc.symm
  rw [split, same]
  exact worded

/-- The second of two lists of notices is the first with one item more, which comes where it is admitted, after a number
of custom sections; what follows is the same but for the places of sections. -/
inductive Grown (x : Item) : Place → Nat → List Notice → List Notice → Prop where
  | here {p : Place} {back back' : List Notice} (f : SectionFrame) (admits : p.Admits x)
      (same : back.filter (!·.isFrame) = back'.filter (!·.isFrame)) : Grown x p 0 back (.frame f :: .item [] x :: back')
  | later {p : Place} {told one two : List Notice} {k : Nat} (orderly : p.Orderly told)
      (rest : Grown x (p.along told) k one two) :
      Grown x p (k + (told.flatMap Notice.customs).length) (told ++ one) (told ++ two)

theorem Grown.append {x : Item} {p : Place} {k : Nat} {one two : List Notice} (grown : Grown x p k one two)
    (more : List Notice) : Grown x p k (one ++ more) (two ++ more) := by
  induction grown with
  | here f admits same =>
    refine .here f admits ?_
    simp only [List.append_eq, List.filter_append, same]
  | later orderly rest ih =>
    rw [List.append_assoc, List.append_assoc]
    exact .later orderly ih

/-- A producer tells from the second place what it tells from the first and one item more, unless it fails before that;
it fails from both or from none, and with the same error. -/
def Inserts (P : Speaker Unit) (x : Item) (p : Place) (k : Nat) (c d : Cursor) : Prop :=
  ∃ one two r r', Tells P c p.functions one r ∧ Tells P d p.functions two r' ∧
    r.map (fun _ => ()) = r'.map (fun _ => ()) ∧ (Grown x p k one two ∨ one = two ∧ ∃ e, r = .error e)

/-- A custom section between two sections is told as one entry more. -/
theorem Inserts.sections {x : Framed} {name : String} {content : List UInt8} (names : x.Names name content)
    (rest : List UInt8) (fs : List Framed) {p : Place} {last : Nat} (behind : Proceeds.Behind last p) (pos : Nat) :
    Inserts (fun _ C => Producer.sections C last) (.entry (.custom name content)) p (fs.countP (·.id = 0))
      ⟨pos, fs.flatMap Framed.bytes ++ rest⟩ ⟨pos, fs.flatMap Framed.bytes ++ (x.bytes ++ rest)⟩ := by
  induction fs generalizing p last pos with
  | nil =>
    have framed := x.sectionFrame_eq pos rest
    obtain ⟨used, told⟩ := names.tells last p.functions (total x.size).toUInt32 (pos + x.bytes.length)
    obtain ⟨one, two, r, r', tells, tells', same, ends⟩ :=
      sections_elsewhere last (c := ⟨pos, rest⟩) (d := ⟨pos + x.bytes.length, rest⟩) rfl p.functions
    have admits : p.Admits (.entry (.custom name content)) := ⟨behind.place.trans behind.open_, trivial⟩
    exact ⟨one, _, r, r', tells, .sections rfl framed told tells', ends, .inl (.here _ admits same)⟩
  | cons f fs ih =>
    have split (bytes : List UInt8) :
        (f :: fs).flatMap Framed.bytes ++ bytes = f.bytes ++ (fs.flatMap Framed.bytes ++ bytes) := by
      rw [List.flatMap_cons, List.append_assoc]
    have framed (bytes : List UInt8) := f.sectionFrame_eq pos bytes
    obtain ⟨told, r, tells, orderly, -, good⟩ :=
      Proceeds.framed ⟨f.id, (total f.size).toUInt32, pos + f.bytes.length⟩ behind (.ofBytes f.payload)
    rw [split, split]
    cases r with
    | error e =>
      exact ⟨_, _, _, _, .sections_error rfl (framed _) tells, .sections_error rfl (framed _) tells, rfl,
        .inr ⟨rfl, e, rfl⟩⟩
    | ok done =>
      obtain ⟨rank, used, m⟩ := done
      obtain ⟨rfl, behind⟩ := good rank used m rfl
      obtain ⟨one, two, r, r', tells', tells'', ends, grown⟩ := ih behind (pos + f.bytes.length)
      refine ⟨_, _, r, r', .sections rfl (framed _) tells tells', .sections rfl (framed _) tells tells'', ends, ?_⟩
      rcases grown with grown | ⟨rfl, failed⟩
      · have counted : (f :: fs).countP (·.id = 0) = fs.countP (·.id = 0) + (told.flatMap Notice.customs).length := by
          rw [List.countP_cons, customs_of_framed tells]
          simp
        rw [counted]
        have orderly : p.Orderly (.frame ⟨f.id, (total f.size).toUInt32, pos + f.bytes.length⟩ :: told) :=
          ⟨trivial, orderly⟩
        exact .inl (.later orderly grown)
      · exact .inr ⟨rfl, failed⟩

/-- Eight bytes are a header or not, whatever follows them. -/
theorem header_cases {head : List UInt8} (eight : head.length = 8) :
    (∃ version, ∀ rest, Decoder.header (.ofBytes (head ++ rest)) = .ok version ⟨8, rest⟩) ∨
      ∃ e, ∀ rest, ∃ d, Decoder.header (.ofBytes (head ++ rest)) = .error e d := by
  obtain ⟨a, b, rfl, first, second⟩ : ∃ a b, head = a ++ b ∧ a.length = 4 ∧ b.length = 4 :=
    ⟨head.take 4, head.drop 4, (List.take_append_drop 4 head).symm, by simp [eight], by simp [eight]⟩
  have word {bs : List UInt8} (four : bs.length = 4) : Reads Reader.word32 bs (littleEndian bs).toUInt32 := by
    have read := (Reads.take bs).returning fun bs => (littleEndian bs).toUInt32
    rwa [four] at read
  have magicWord (rest : List UInt8) := (word first).adaptExcept (fun _ => DecodeError.badMagic) 0 (b ++ rest)
  have version (rest : List UInt8) := (word second).lift (0 + a.length) rest
  have length : 0 + a.length + b.length = 8 := by omega
  rw [length] at version
  simp only [Cursor.ofBytes, List.append_assoc]
  unfold Decoder.header
  by_cases isMagic : (littleEndian a).toUInt32 = magic
  · by_cases isVersion : (littleEndian b).toUInt32 = formatVersion
    · refine .inl ⟨(littleEndian b).toUInt32, fun rest => ?_⟩
      rw [Outcome.bind_of_ok (magicWord rest)]
      simp only [isMagic, ne_eq, not_true, if_false]
      rw [Outcome.bind_of_ok (version rest)]
      simp only [isVersion, not_true, if_false]
      rfl
    · refine .inr ⟨.unknownVersion (littleEndian b).toUInt32, fun rest => ⟨⟨8, rest⟩, ?_⟩⟩
      rw [Outcome.bind_of_ok (magicWord rest)]
      simp only [isMagic, ne_eq, not_true, if_false]
      rw [Outcome.bind_of_ok (version rest)]
      simp only [isVersion, not_false_eq_true, if_true]
      rfl
  · refine .inr ⟨.badMagic, fun rest => ⟨⟨0 + a.length, b ++ rest⟩, ?_⟩⟩
    rw [Outcome.bind_of_ok (magicWord rest)]
    simp only [isMagic, ne_eq, not_false_eq_true, if_true]
    rfl

/-- A custom section between two sections of a module is told as one entry more, whatever follows it. -/
theorem Inserts.produce {head : List UInt8} (eight : head.length = 8) (fs : List Framed) {x : Framed} {name : String}
    {content : List UInt8} (names : x.Names name content) (rest : List UInt8) :
    Inserts (fun _ C => Producer.produce C) (.entry (.custom name content)) {} (fs.countP (·.id = 0))
      (.ofBytes (head ++ fs.flatMap Framed.bytes ++ rest))
      (.ofBytes (head ++ fs.flatMap Framed.bytes ++ x.bytes ++ rest)) := by
  simp only [List.append_assoc]
  rcases header_cases eight with ⟨version, decoded⟩ | ⟨e, failed⟩
  · have started {more : List UInt8} {told : List Notice} {r : Except DecodeError (Unit × Cursor × Nat)}
        (sections : Tells (fun _ C => Producer.sections C 0) ⟨8, more⟩ 0 told r) :
        Tells unended (.ofBytes (head ++ more)) 0 (.item [] (.entry (.header version)) :: told) r :=
      (Tells.read_ok (decoded more)).bind ((Tells.entry (.header version) ⟨8, more⟩ 0).bind sections)
    have behind : Proceeds.Behind 0 (Place.pass {} (.entry (.header version))) := ⟨Nat.zero_le _, by decide⟩
    have orderly : Place.Orderly {} [.item [] (.entry (.header version))] :=
      ⟨⟨rfl, ⟨Nat.le_refl _, trivial⟩, fun _ _ same => by cases same⟩, trivial⟩
    obtain ⟨one, two, r, r', tells, tells', ends, grown⟩ := Inserts.sections names rest fs behind 8
    simp only [produce_eq]
    cases r with
    | error e =>
      cases r' with
      | ok done => cases ends
      | error e' =>
        cases ends
        refine ⟨_, _, _, _, (started tells).bind_error, (started tells').bind_error, rfl, ?_⟩
        rcases grown with grown | ⟨rfl, failed⟩
        · exact .inl (.later orderly grown)
        · exact .inr ⟨rfl, e, rfl⟩
    | ok done =>
      cases r' with
      | error e => cases ends
      | ok done' =>
        refine ⟨_, _, _, _, (started tells).bind (.entry .finish _ _), (started tells').bind (.entry .finish _ _), rfl,
          ?_⟩
        rcases grown with grown | ⟨-, e, failed⟩
        · exact .inl (Grown.append (.later orderly grown) _)
        · cases failed
  · obtain ⟨d, here⟩ := failed (fs.flatMap Framed.bytes ++ rest)
    obtain ⟨d', there⟩ := failed (fs.flatMap Framed.bytes ++ (x.bytes ++ rest))
    exact ⟨[], [], _, _, (Tells.read_error here).bind_error, (Tells.read_error there).bind_error, rfl,
      .inr ⟨rfl, e, rfl⟩⟩

end Binary

end Wasm

import Wasm.Proofs.Binary.Framing
import Wasm.Proofs.Validator.Projection

/-! # Custom sections make no difference

The validator passes over custom sections: wherever one is put between the sections of a module, and whatever follows
it, the outcome of validation is the same, index spaces or error. The tree of a valid module has one more custom
section, at the place of the one that was put in, and is the same otherwise.
-/

namespace Wasm

open Binary Outcome

/-! ## The validator -/

namespace Validator

variable {v : Validator} {p : Place} {name : String} {content : List UInt8}

theorem Fits.hearAll (fits : Fits v p) {told : List Notice} (orderly : p.Orderly told) {v' : Validator}
    (heard : consumer.hearAll told v = .ok () v') : Fits v' (p.along told) := by
  induction told generalizing v p with
  | nil =>
    cases heard
    exact fits
  | cons x told ih =>
    obtain ⟨_, t, first, rest⟩ := bind_ok_iff.mp heard
    exact ih ((hear_fits fits orderly.1).2 t first) orderly.2 rest

/-- Before the end of the module, a custom section is accepted and leaves everything as it is. -/
theorem hear_custom (fits : Fits v p) (admits : p.Admits (.entry (.custom name content))) :
    consumer.hear (.item [] (.entry (.custom name content))) v = .ok () v :=
  (consumer.hear_item_ok_iff []).mpr (entry_ok_iff.mpr ⟨fits.follows admits, trivial, rfl⟩)

theorem hearAll_grown (fits : Fits v p) {k : Nat} {one two : List Notice}
    (grown : Grown (.entry (.custom name content)) p k one two) : consumer.hearAll two v = consumer.hearAll one v := by
  induction grown generalizing v with
  | @here p back back' f admits same =>
    have framed : consumer.hear (.frame f) v = .ok () v := rfl
    rw [Consumer.hearAll, bind_of_ok framed, Consumer.hearAll, bind_of_ok (hear_custom fits admits),
      consumer.hearAll_frameless (fun _ _ => rfl) back', ← same, ← consumer.hearAll_frameless fun _ _ => rfl]
  | @later p told one two k orderly rest ih =>
    rw [Consumer.hearAll_append, Consumer.hearAll_append]
    cases heard : consumer.hearAll told v with
    | ok u v' =>
      rw [bind_of_ok heard, bind_of_ok heard]
      exact ih (fits.hearAll orderly heard)
    | error e v' => rw [bind_of_error heard, bind_of_error heard]

theorem deliver_of_inserts {bytes bytes' : List UInt8} {k : Nat}
    (inserts : Inserts (fun _ C => Producer.produce C) (.entry (.custom name content)) {} k (.ofBytes bytes)
      (.ofBytes bytes')) :
    deliver consumer bytes' {} = deliver consumer bytes {} := by
  obtain ⟨one, two, r, r', tells, tells', ends, grown⟩ := inserts
  have same : consumer.hearAll two {} = consumer.hearAll one {} := by
    rcases grown with grown | ⟨rfl, -⟩
    · exact hearAll_grown fits_start grown
    · rfl
  rw [deliver_of_tells tells, deliver_of_tells tells', same, ends]

end Validator

/-! ## The tree builder -/

namespace Tree.Builder

/-- The builder with other custom sections. -/
def withCustoms (b : Builder) (cs : Array (String × List UInt8)) : Builder :=
  { b with tree := { b.tree with customs := cs } }

theorem withCustoms_self (b : Builder) : b.withCustoms b.tree.customs = b := rfl

variable {ε α β : Type}

/-- The computation adds custom sections to those that there are, and does not look at them. -/
def Carries (m : EStateM ε Builder α) (more : List (String × List UInt8)) : Prop :=
  ∀ b cs, ∃ a b', m b = .ok a b' ∧ m (b.withCustoms cs) = .ok a (b'.withCustoms (cs ++ more.toArray))

namespace Carries

variable {m : EStateM ε Builder α} {xs ys : List (String × List UInt8)}

theorem pure (a : α) : Carries (Pure.pure a : EStateM ε Builder α) [] := by
  intro b cs
  refine ⟨a, b, rfl, ?_⟩
  rw [Array.append_empty]
  rfl

theorem bind {f : α → EStateM ε Builder β} (first : Carries m xs) (second : ∀ a, Carries (f a) ys) :
    Carries (m >>= f) (xs ++ ys) := by
  intro b cs
  obtain ⟨a, b', one, one'⟩ := first b cs
  obtain ⟨a', b'', two, two'⟩ := second a b' (cs ++ xs.toArray)
  have joined : cs ++ xs.toArray ++ ys.toArray = cs ++ (xs ++ ys).toArray := by simp
  refine ⟨a', b'', ?_, ?_⟩
  · rw [bind_of_ok one, two]
  · rw [bind_of_ok one', two', joined]

theorem adaptExcept {δ : Type} (f : ε → δ) (carries : Carries m xs) : Carries (EStateM.adaptExcept f m) xs := by
  intro b cs
  obtain ⟨a, b', one, one'⟩ := carries b cs
  refine ⟨a, b', ?_, ?_⟩
  · rw [EStateM.adaptExcept, one]
  · rw [EStateM.adaptExcept, one']

/-- What a run leaves in the tree. -/
theorem customs {a : α} {b b' : Builder} (carries : Carries m xs) (ran : m b = .ok a b') :
    b'.tree.customs = b.tree.customs ++ xs.toArray := by
  obtain ⟨_, b'', one, one'⟩ := carries b b.tree.customs
  rw [withCustoms_self, ran] at one'
  cases one'
  rfl

/-! ### What is told -/

theorem entry (e : Entry) : Carries (consumer.entry e) (Event.customs (.entry e)) := by
  intro b cs
  refine ⟨(), { b with tree := b.tree.add e }, rfl, congrArg (EStateM.Result.ok ()) ?_⟩
  cases e with
  | custom name payload => simp [withCustoms, Tree.add, Event.customs]
  | _ => simp [withCustoms, Tree.add, Event.customs]

theorem site (x : Site) : Carries (consumer.site x) [] := by
  intro b cs
  have blind : (b.withCustoms cs).tree.hasPlace x = b.tree.hasPlace x := by cases x <;> rfl
  show ∃ a b', (if b.tree.hasPlace x then _ else _) = _ ∧ (if (b.withCustoms cs).tree.hasPlace x then _ else _) = _
  rw [blind, Array.append_empty]
  split
  · refine ⟨true, ⟨b.tree.addSite x, some x⟩, rfl, congrArg (EStateM.Result.ok true) ?_⟩
    cases x <;> rfl
  · exact ⟨false, b, rfl, rfl⟩

theorem instruction (i : Instruction) : Carries (consumer.instruction i) [] := by
  intro b cs
  refine ⟨(), b.addInstruction i, rfl, congrArg (EStateM.Result.ok ()) ?_⟩
  rw [Array.append_empty]
  obtain ⟨tree, _ | place⟩ := b
  · rfl
  · cases place <;> rfl

theorem feedOpen (body : List Instruction) : Carries (consumer.feedOpen body) [] := by
  induction body with
  | nil => exact .pure ()
  | cons i body ih => exact (instruction i).bind fun _ => ih

theorem feed (body : List Instruction) : Carries (consumer.feed body) [] := by
  rw [Consumer.feed_eq]
  exact (feedOpen body).bind fun _ => .pure ()

/-- What is told at a site, if the expression there is taken. -/
theorem taken (x : Site) {m : Step Builder Unit} (inside : Carries m []) :
    Carries (do let takes ← consumer.site x; if takes then m) [] := by
  refine (site x).bind fun takes => ?_
  cases takes with
  | true => exact inside
  | false => exact .pure ()

theorem hear (x : Notice) : Carries (consumer.hear x) x.customs := by
  cases x with
  | item funcs x =>
    cases x with
    | entry e =>
      have one : Notice.customs (.item funcs (.entry e)) = Event.customs (.entry e) := List.flatMap_singleton _ _
      rw [one]
      exact (entry e).adaptExcept (objection funcs)
    | expr x body =>
      have none : Notice.customs (.item funcs (.expr x body)) = [] := by
        simp [Notice.customs, Notice.events, Event.customs]
      rw [none]
      exact (taken x (feed body)).adaptExcept (objection funcs)
  | cut funcs x body =>
    have none : Notice.customs (.cut funcs x body) = [] := by simp [Notice.customs, Notice.events, Event.customs]
    rw [none]
    exact (taken x (feedOpen body)).adaptExcept (objection funcs)
  | frame f => exact .pure ()

theorem hearAll (told : List Notice) : Carries (consumer.hearAll told) (told.flatMap Notice.customs) := by
  induction told with
  | nil => exact .pure ()
  | cons x told ih => exact (hear x).bind fun _ => ih

end Carries

/-- A custom section that is told beside the rest is found at its place in the tree, and the rest is the same. -/
theorem withCustoms_of_grown {p : Place} {k : Nat} {name : String} {content : List UInt8} {one two : List Notice}
    (grown : Grown (.entry (.custom name content)) p k one two) {b c d : Builder}
    (heard : consumer.hearAll one b = .ok () c) (heard' : consumer.hearAll two b = .ok () d) :
    ∃ before after, before.size = b.tree.customs.size + k ∧ c.tree.customs = before ++ after ∧
      d = c.withCustoms (before.push (name, content) ++ after) := by
  induction grown generalizing b with
  | @here p back back' f admits same =>
    let found := b.tree.customs.push (name, content)
    have told : consumer.hearAll back (b.withCustoms found) = .ok () d := by
      rw [consumer.hearAll_frameless fun _ _ => rfl, same, ← consumer.hearAll_frameless fun _ _ => rfl]
      exact heard'
    obtain ⟨_, c', first, second⟩ := Carries.hearAll back b found
    rw [heard] at first
    cases first
    rw [told] at second
    cases second
    exact ⟨b.tree.customs, _, rfl, (Carries.hearAll back).customs heard, rfl⟩
  | @later p told one two k orderly rest ih =>
    rw [Consumer.hearAll_append] at heard heard'
    obtain ⟨_, b', first, heard⟩ := bind_ok_iff.mp heard
    rw [bind_of_ok first] at heard'
    obtain ⟨before, after, size, customs, same⟩ := ih heard heard'
    refine ⟨before, after, ?_, customs, same⟩
    have counted := congrArg Array.size ((Carries.hearAll told).customs first)
    simp only [Array.size_append, List.size_toArray] at counted
    omega

end Tree.Builder

/-! ## Bytes -/

open Wasm.Tree

theorem validateTree_of_error {bytes : List UInt8} {e : DecodeError} {v : Validator}
    (failed : deliver Validator.consumer bytes {} = (.error e, v)) : validateTree bytes = .error e := by
  obtain ⟨l, both⟩ := Builder.obliging.deliver_follow (C := Validator.consumer) bytes {} { state := {} }
  rw [validateTree, Consumer.withTree, both, failed]

/-- A custom section between the sections of a module makes no difference to validation, whatever comes before and after
it. The tree of a valid module has it among its custom sections, behind those that stand before it. -/
theorem custom_sections_transparent {head : List UInt8} (eight : head.length = 8) (fs : List Framed) {x : Framed}
    {name : String} {content : List UInt8} (names : x.Names name content) (rest : List UInt8) :
    validate (head ++ fs.flatMap Framed.bytes ++ x.bytes ++ rest) = validate (head ++ fs.flatMap Framed.bytes ++ rest) ∧
    ((∃ e, validateTree (head ++ fs.flatMap Framed.bytes ++ rest) = .error e ∧
        validateTree (head ++ fs.flatMap Framed.bytes ++ x.bytes ++ rest) = .error e) ∨
      ∃ t before after, before.size = fs.countP (·.id = 0) ∧ t.customs = before ++ after ∧
        validateTree (head ++ fs.flatMap Framed.bytes ++ rest) = .ok t ∧
        validateTree (head ++ fs.flatMap Framed.bytes ++ x.bytes ++ rest) =
          .ok { t with customs := before.push (name, content) ++ after }) := by
  have inserts := Inserts.produce eight fs names rest
  have same := Validator.deliver_of_inserts inserts
  generalize head ++ fs.flatMap Framed.bytes ++ rest = bytes at inserts same ⊢
  generalize head ++ fs.flatMap Framed.bytes ++ x.bytes ++ rest = bytes' at inserts same ⊢
  refine ⟨by rw [validate, validate, same], ?_⟩
  rcases delivered : deliver Validator.consumer bytes {} with ⟨e | _, v⟩
  · exact .inl ⟨e, validateTree_of_error delivered, validateTree_of_error (same.trans delivered)⟩
  · obtain ⟨b, on, built, -, both⟩ := Validator.replay_of_deliver delivered
    obtain ⟨b', on', built', -, both'⟩ := Validator.replay_of_deliver (same.trans delivered)
    obtain ⟨one, two, r, r', tells, tells', -, grown⟩ := inserts
    rcases grown with grown | ⟨-, e, rfl⟩
    · obtain ⟨before, after, size, customs, rfl⟩ :=
        Builder.withCustoms_of_grown grown (hearAll_of_deliver tells built) (hearAll_of_deliver tells' built')
      refine .inr ⟨b.tree, before, after, by simpa using size, customs, ?_, ?_⟩
      · rw [validateTree, both]
      · rw [validateTree, both']
        rfl
    · rw [deliver_of_tells tells] at delivered
      cases heard : Validator.consumer.hearAll one {} with
      | ok u t => rw [heard] at delivered; cases delivered
      | error e' t => rw [heard] at delivered; cases delivered

/-- A type section that declares the type of procedures, with its size padded to two bytes. -/
def Binary.Framed.procedures : Framed where
  id := 1
  size := [0x84, 0x00]
  payload := [0x01, 0x60, 0x00, 0x00]
  sized := ⟨⟨[0x84], 0x00, rfl, by simp, by decide⟩, by decide, by decide⟩
  counted := by decide

/-- A custom section named `hi` that holds one byte. -/
def Binary.Framed.greeting : Framed where
  id := 0
  size := [0x04]
  payload := [0x02, 0x68, 0x69, 0xff]
  sized := ⟨⟨[], 0x04, rfl, by simp, by decide⟩, by decide, by decide⟩
  counted := by decide

/-- Behind another custom section and a type section: where the module ends there, so that its tree gains the section,
and where a section follows that breaks off. -/
theorem custom_sections_transparent_twice :
    Framed.greeting.Names "hi" [0xff] ∧
    validateTree ([0x00, 0x61, 0x73, 0x6d, 0x01, 0x00, 0x00, 0x00] ++
      [Framed.greeting, Framed.procedures].flatMap Framed.bytes ++ []) =
      .ok { version := 1, types := #[⟨[], []⟩], customs := #[("hi", [0xff])] } ∧
    validateTree ([0x00, 0x61, 0x73, 0x6d, 0x01, 0x00, 0x00, 0x00] ++
      [Framed.greeting, Framed.procedures].flatMap Framed.bytes ++ Framed.greeting.bytes ++ []) =
      .ok { version := 1, types := #[⟨[], []⟩], customs := #[("hi", [0xff]), ("hi", [0xff])] } ∧
    validate ([0x00, 0x61, 0x73, 0x6d, 0x01, 0x00, 0x00, 0x00] ++
      [Framed.greeting, Framed.procedures].flatMap Framed.bytes ++ Framed.greeting.bytes ++ [0x03, 0x02]) =
    validate ([0x00, 0x61, 0x73, 0x6d, 0x01, 0x00, 0x00, 0x00] ++
      [Framed.greeting, Framed.procedures].flatMap Framed.bytes ++ [0x03, 0x02]) := by
  have names : Framed.greeting.Names "hi" [0xff] :=
    ⟨rfl, [0x02], ⟨⟨[], 0x02, rfl, by simp, by decide⟩, by decide, by decide⟩, by decide, by decide⟩
  have accepted : validateTree ([0x00, 0x61, 0x73, 0x6d, 0x01, 0x00, 0x00, 0x00] ++
      [Framed.greeting, Framed.procedures].flatMap Framed.bytes ++ []) =
      .ok { version := 1, types := #[⟨[], []⟩], customs := #[("hi", [0xff])] } := by
    cbv
  have eight : List.length [(0x00 : UInt8), 0x61, 0x73, 0x6d, 0x01, 0x00, 0x00, 0x00] = 8 := rfl
  refine ⟨names, accepted, ?_, (custom_sections_transparent eight [.greeting, .procedures] names [0x03, 0x02]).1⟩
  obtain ⟨e, failed, -⟩ | ⟨t, before, after, size, customs, built, grown⟩ :=
    (custom_sections_transparent eight [.greeting, .procedures] names []).2
  · cases accepted.symm.trans failed
  · cases accepted.symm.trans built
    have none : after.size = 0 := by
      have sizes := congrArg Array.size customs
      rw [Array.size_append, size] at sizes
      exact (Nat.add_left_cancel sizes).symm
    obtain rfl := Array.eq_empty_of_size_eq_zero none
    rw [Array.append_empty] at customs
    subst customs
    exact grown

end Wasm

import Wasm.Proofs.Binary.Delimiting
import Wasm.Proofs.Binary.Telling

/-! # What reading costs

A reader comes from place to place, one for each read, and never goes back. Each byte that it takes pays for the reads that
come with it and leaves something over, so that there are never many more reads than bytes. What is left over is counted as
credit: there has to be some before a computation, and there is some after it. Reads that take no byte, as that of an empty
text, are paid for by the bytes before them.
-/

namespace Wasm.Binary

/-! ## Places -/

namespace Cursor.Leads

theorem pos_le {c d : Cursor} (leads : c.Leads d) : c.pos ≤ d.pos := by
  obtain ⟨taken, -, place⟩ := leads
  rw [place]
  exact Nat.le_add_right _ _

theorem pos_lt {c d : Cursor} (leads : c.Leads d) (shrinks : d.rest.length < c.rest.length) : c.pos < d.pos := by
  obtain ⟨taken, split, place⟩ := leads
  rw [split, List.length_append] at shrinks
  omega

theorem suffix {c d : Cursor} (leads : c.Leads d) : d.rest <:+ c.rest := by
  obtain ⟨taken, split, -⟩ := leads
  exact ⟨taken, split.symm⟩

/-- A reader that was opened on bytes stays within them. -/
theorem within {input : List UInt8} {c : Cursor} (leads : (Cursor.ofBytes input).Leads c) :
    c.pos ≤ input.length ∧ c.rest = input.drop c.pos := by
  obtain ⟨taken, split, place⟩ := leads
  have split : input = taken ++ c.rest := split
  have place : c.pos = taken.length := place.trans (Nat.zero_add _)
  rw [place, split]
  simp

end Cursor.Leads

/-- From one place to another through those between them, always forward. -/
structure Cursor.Through (c : Cursor) (places : List Cursor) (d : Cursor) : Prop where
  ordered : (c :: places).Pairwise Cursor.Leads
  ends : ∀ p ∈ c :: places, p.Leads d

namespace Cursor.Through

theorem refl (c : Cursor) : c.Through [] c := ⟨List.pairwise_singleton _ _, List.forall_mem_singleton.mpr (.refl c)⟩

theorem one {c d : Cursor} (leads : c.Leads d) : c.Through [d] d :=
  ⟨List.pairwise_pair.mpr leads, List.forall_mem_cons.mpr ⟨leads, List.forall_mem_singleton.mpr (.refl d)⟩⟩

theorem trans {c d e : Cursor} {first rest : List Cursor} (begins : c.Through first d) (continues : d.Through rest e) :
    c.Through (first ++ rest) e := by
  obtain ⟨beyond, ordered⟩ := List.pairwise_cons.mp continues.ordered
  obtain ⟨last, ends⟩ := List.forall_mem_cons.mp continues.ends
  constructor <;> rw [← List.cons_append]
  · refine List.pairwise_append.mpr ⟨begins.ordered, ordered, fun p here q there => ?_⟩
    exact (begins.ends p here).trans (beyond q there)
  · exact List.forall_mem_append.mpr ⟨fun p here => (begins.ends p here).trans last, ends⟩

end Cursor.Through

/-- The places that a reader comes to, one after each read, whether or not the read succeeds. A byte is read alone, or a
number of bytes at once; nothing else moves a reader. -/
inductive Passage : {ε α : Type} → EStateM ε Cursor α → Cursor → List Cursor → Prop where
  | pure {ε α : Type} (a : α) (c : Cursor) : Passage (Pure.pure a : EStateM ε Cursor α) c []
  | throw {ε α : Type} (e : ε) (c : Cursor) : Passage (MonadExcept.throw e : EStateM ε Cursor α) c []
  | look {ε : Type} (c : Cursor) : Passage (get : EStateM ε Cursor Cursor) c []
  | byte (c : Cursor) : Passage Reader.byte c [cursorAfter (Reader.byte c)]
  | take (n : Nat) (c : Cursor) : Passage (Reader.take n) c [cursorAfter (Reader.take n c)]
  | next {ε α β : Type} {m : EStateM ε Cursor α} {f : α → EStateM ε Cursor β} {a : α} {c d : Cursor}
      {first rest : List Cursor} (begins : Passage m c first) (done : m c = .ok a d) (continues : Passage (f a) d rest) :
      Passage (m >>= f) c (first ++ rest)
  | stop {ε α β : Type} {m : EStateM ε Cursor α} {f : α → EStateM ε Cursor β} {e : ε} {c d : Cursor} {first : List Cursor}
      (begins : Passage m c first) (failed : m c = .error e d) : Passage (m >>= f) c first
  | adaptExcept {ε ε' α : Type} {m : EStateM ε Cursor α} {c : Cursor} {places : List Cursor} (f : ε → ε')
      (inside : Passage m c places) : Passage (EStateM.adaptExcept f m) c places

/-- Each place is led to by those before it. -/
theorem Passage.through {ε α : Type} {m : EStateM ε Cursor α} {c : Cursor} {places : List Cursor}
    (passage : Passage m c places) : c.Through places (cursorAfter (m c)) := by
  induction passage with
  | pure a c | throw e c | look c => exact .refl c
  | byte c => exact .one (Forward.byte c)
  | take n c => exact .one (Forward.take n c)
  | next begins done continues ih ih' =>
    rw [done] at ih
    rw [Outcome.bind_of_ok done]
    exact ih.trans ih'
  | stop begins failed ih =>
    rw [failed] at ih
    rw [Outcome.bind_of_error failed]
    exact ih
  | @adaptExcept ε ε' α m c places f inside ih =>
    have same : cursorAfter (EStateM.adaptExcept f m c) = cursorAfter (m c) := by
      unfold EStateM.adaptExcept
      cases m c <;> rfl
    rw [same]
    exact ih

/-! ## Credit -/

/-- What is kept for later: how many steps there may be, and how many instructions may be told. -/
structure Credit where
  steps : Nat := 0
  words : Nat := 0

namespace Credit

instance : Add Credit := ⟨fun k l => ⟨k.steps + l.steps, k.words + l.words⟩⟩

instance : LE Credit := ⟨fun k l => k.steps ≤ l.steps ∧ k.words ≤ l.words⟩

instance (k l : Credit) : Decidable (k ≤ l) := inferInstanceAs (Decidable (k.steps ≤ l.steps ∧ k.words ≤ l.words))

theorem le_refl (k : Credit) : k ≤ k := ⟨Nat.le_refl _, Nat.le_refl _⟩

theorem none_le (k : Credit) : {} ≤ k := ⟨Nat.zero_le _, Nat.zero_le _⟩

theorem none_add_le (k : Credit) : {} + k ≤ k := ⟨Nat.le_of_eq (Nat.zero_add _), Nat.le_of_eq (Nat.zero_add _)⟩

theorem add_le_add_left {k l : Credit} (le : k ≤ l) (more : Credit) : more + k ≤ more + l :=
  ⟨Nat.add_le_add_left le.1 _, Nat.add_le_add_left le.2 _⟩

/-- The credit for a read that fails, which no byte pays for. -/
def extended (k : Credit) : Credit := { k with steps := k.steps + 1 }

theorem add_extended_le (k l : Credit) : k + l.extended ≤ k.extended + l :=
  ⟨Nat.le_of_eq (Nat.succ_add_eq_add_succ _ _).symm, Nat.le_refl _⟩

/-- What it takes to open a reader on the bytes in a frame, and to work with it. -/
def content (content : Cursor) : Credit := ⟨4 * content.rest.length + 1, content.rest.length⟩

/-- What it takes to tell the offset of a segment, which has one if it is active. -/
def offset (active : Bool) (body : Expr) : Credit := if active then ⟨body.size + 2, body.size⟩ else {}

end Credit

/-- From one place to another, the credit and the bytes taken pay for steps and for instructions, and there is credit left.
A byte is worth four steps and one instruction. -/
structure Pays (pre : Credit) (c : Cursor) (steps words : Nat) (post : Credit) (d : Cursor) : Prop where
  steps : steps + post.steps + 4 * d.rest.length ≤ pre.steps + 4 * c.rest.length
  words : words + post.words + d.rest.length ≤ pre.words + c.rest.length

namespace Pays

variable {pre pre' mid post post' : Credit} {c d e : Cursor} {steps steps' words words' : Nat}

theorem refl (k : Credit) (c : Cursor) : Pays k c 0 0 k c := by
  constructor <;> omega

theorem trans (first : Pays pre c steps words mid d) (second : Pays mid d steps' words' post e) :
    Pays pre c (steps + steps') (words + words') post e := by
  obtain ⟨s, w⟩ := first
  obtain ⟨s', w'⟩ := second
  constructor <;> omega

/-- Credit that is there before is there afterwards. -/
theorem frame (pays : Pays pre c steps words post d) (more : pre + post' ≤ pre' + post) :
    Pays pre' c steps words post' d := by
  obtain ⟨s, w⟩ := pays
  have s' : pre.steps + post'.steps ≤ pre'.steps + post.steps := more.1
  have w' : pre.words + post'.words ≤ pre'.words + post.words := more.2
  constructor <;> omega

theorem extended (pays : Pays pre c steps words post d) : Pays pre.extended c steps words post.extended d :=
  pays.frame (Credit.add_extended_le pre post)

end Pays

section Rules

variable {ε ε' α β : Type}

/-- At a place, the credit is enough for the computation, and a successful one leaves credit. -/
def AffordsAt (pre : Credit) (m : EStateM ε Cursor α) (post : α → Credit) (c : Cursor) : Prop :=
  ∃ places, Passage m c places ∧
    match m c with
    | .ok a d => Pays pre c places.length 0 (post a) d
    | .error _ d => Pays pre.extended c places.length 0 {} d

def Affords (pre : Credit) (m : EStateM ε Cursor α) (post : α → Credit) : Prop := ∀ c, AffordsAt pre m post c

/-- Without any credit, the computation leaves credit for steps. -/
abbrev Earns (steps : Nat) (m : EStateM ε Cursor α) : Prop := Affords {} m fun _ => ⟨steps, 0⟩

variable {m : EStateM ε Cursor α} {f : α → EStateM ε Cursor β} {pre pre' : Credit} {mid post' : α → Credit}
  {post : β → Credit} {c : Cursor} {steps : Nat}

theorem AffordsAt.bind (first : AffordsAt pre m mid c)
    (second : ∀ a d, m c = .ok a d → AffordsAt (mid a) (f a) post d) : AffordsAt pre (m >>= f) post c := by
  obtain ⟨before, passage, pays⟩ := first
  cases ran : m c with
  | error e d =>
    rw [ran] at pays
    refine ⟨before, .stop passage ran, ?_⟩
    rw [Outcome.bind_of_error ran]
    exact pays
  | ok a d =>
    rw [ran] at pays
    obtain ⟨after, passage', pays'⟩ := second a d ran
    refine ⟨before ++ after, .next passage ran passage', ?_⟩
    rw [Outcome.bind_of_ok ran, List.length_append]
    cases ran' : f a d with
    | ok b e =>
      rw [ran'] at pays'
      exact pays.trans pays'
    | error e d' =>
      rw [ran'] at pays'
      exact pays.extended.trans pays'

/-- With more credit than is needed, the rest of it is left. -/
theorem AffordsAt.frame {post : α → Credit} (affords : AffordsAt pre m post c) (enough : pre ≤ pre')
    (more : ∀ a, pre + post' a ≤ pre' + post a) : AffordsAt pre' m post' c := by
  obtain ⟨places, passage, pays⟩ := affords
  refine ⟨places, passage, ?_⟩
  cases ran : m c with
  | ok a d =>
    rw [ran] at pays
    exact pays.frame (more a)
  | error e d =>
    rw [ran] at pays
    exact pays.frame ⟨Nat.add_le_add_right enough.1 1, enough.2⟩

namespace Affords

theorem bind (first : Affords pre m mid) (second : ∀ a, Affords (mid a) (f a) post) : Affords pre (m >>= f) post :=
  fun c => (first c).bind fun a d _ => second a d

theorem pure {a : α} (enough : post' a ≤ pre) : Affords pre (Pure.pure a : EStateM ε Cursor α) post' :=
  fun c => ⟨[], .pure a c, (Pays.refl pre c).frame (Credit.add_le_add_left enough pre)⟩

theorem throw (e : ε) : Affords pre (MonadExcept.throw e : EStateM ε Cursor α) post' :=
  fun c => ⟨[], .throw e c, (Pays.refl pre.extended c).frame (Credit.add_le_add_left (Credit.none_le _) _)⟩

theorem throw_bind (e : ε) : Affords pre ((MonadExcept.throw e : EStateM ε Cursor α) >>= f) post := by
  intro c
  have failed : AffordsAt pre (MonadExcept.throw e : EStateM ε Cursor α) (fun _ => {}) c := throw e c
  exact failed.bind fun _ _ done => by cases done

theorem look : Affords pre (get : EStateM ε Cursor Cursor) fun _ => pre := fun c => ⟨[], .look c, .refl pre c⟩

theorem frame {post : α → Credit} (affords : Affords pre m post) (enough : pre ≤ pre')
    (more : ∀ a, pre + post' a ≤ pre' + post a) : Affords pre' m post' :=
  fun c => (affords c).frame enough more

theorem mono {post : α → Credit} (affords : Affords pre m post) (less : ∀ a, post' a ≤ post a) : Affords pre m post' :=
  affords.frame (Credit.le_refl pre) fun a => Credit.add_le_add_left (less a) pre

/-- One more step before, and one more after. -/
theorem extended (affords : Affords pre m post') : Affords pre.extended m fun a => (post' a).extended :=
  affords.frame ⟨Nat.le_add_right _ _, Nat.le_refl _⟩ fun a => Credit.add_extended_le pre (post' a)

theorem adaptExcept (g : ε → ε') (affords : Affords pre m post') : Affords pre (EStateM.adaptExcept g m) post' := by
  intro c
  obtain ⟨places, passage, pays⟩ := affords c
  refine ⟨places, passage.adaptExcept g, ?_⟩
  unfold EStateM.adaptExcept
  cases ran : m c <;> rw [ran] at pays <;> exact pays

theorem lift {m : Reader α} (affords : Affords pre m post') : Affords pre (liftM m : Decoder α) post' :=
  affords.adaptExcept _

end Affords

namespace Earns

/-- Credit is kept by what needs none. -/
theorem keep (earns : Earns 0 m) : Affords pre m fun _ => pre :=
  Affords.frame earns (Credit.none_le pre) fun _ => Credit.none_add_le pre

theorem fewer {few : Nat} (earns : Earns steps m) (less : few ≤ steps) : Earns few m :=
  Affords.mono earns fun _ => ⟨less, Nat.le_refl _⟩

theorem any (earns : Earns steps m) : Earns 0 m := earns.fewer (Nat.zero_le _)

/-- What comes after needs no credit. -/
theorem before (earns : Earns steps m) (rest : ∀ a, Earns 0 (f a)) : Earns steps (m >>= f) :=
  Affords.bind earns fun a => keep (rest a)

/-- A step that comes after is paid for. -/
theorem spend (earns : Earns (steps + 1) m) (rest : ∀ a, Affords ⟨1, 0⟩ (f a) fun _ => {}) : Earns steps (m >>= f) := by
  refine Affords.bind earns fun a => (rest a).frame ⟨Nat.le_add_left _ _, Nat.le_refl _⟩ fun _ => ?_
  exact ⟨Nat.le_of_eq (Nat.add_comm _ _), Nat.le_refl _⟩

theorem pure (a : α) : Earns 0 (Pure.pure a : EStateM ε Cursor α) := Affords.pure (Credit.le_refl _)

theorem returning (earns : Earns steps m) (g : α → β) : Earns steps (m >>= fun a => Pure.pure (g a)) :=
  earns.before fun a => pure (g a)

theorem map (earns : Earns steps m) (g : α → β) : Earns steps (g <$> m) := by
  rw [← bind_pure_comp]
  exact earns.returning g

theorem lift {m : Reader α} (earns : Earns steps m) : Earns steps (liftM m : Decoder α) := Affords.lift earns

/-- A rule that is looked at before the rest. -/
theorem guard {p : Prop} [Decidable p] {e : ε} {g : PUnit → EStateM ε Cursor α} (earns : Earns steps m) :
    Earns steps (if p then MonadExcept.throw e >>= g else m) := by
  split
  · exact Affords.throw_bind e
  · exact earns

end Earns

end Rules

end Wasm.Binary

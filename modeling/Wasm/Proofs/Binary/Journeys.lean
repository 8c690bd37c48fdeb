import Wasm.Proofs.Binary.Credits
import Wasm.Proofs.Event.Forwarding

/-! # The journey of a delivery

A delivery reads, opens readers on parts of the bytes, and tells events. The places that its readers come to are its route,
and the events that it tells are those that a consumer which takes notes writes down. The credit that pays for reads pays
for events too, and the bytes in a frame, which the reader around them takes at once, are credit for what is done inside.
-/

namespace Wasm

open Outcome

def Event.isInstruction : Event → Bool
  | .instruction _ => true
  | _ => false

namespace Binary

/-! ## Routes -/

/-- A reader that was opened on bytes, and the places that it came to. -/
structure Track where
  input : List UInt8
  places : List Cursor

/-- The position never decreases, and stays within the bytes. -/
def Track.Advances (t : Track) : Prop :=
  (0 :: t.places.map Cursor.pos).Pairwise (· ≤ ·) ∧
    ∀ c ∈ t.places, c.pos ≤ t.input.length ∧ c.rest = t.input.drop c.pos

theorem Cursor.Through.advances {input : List UInt8} {places : List Cursor} {d : Cursor}
    (through : (Cursor.ofBytes input).Through places d) : Track.Advances ⟨input, places⟩ := by
  constructor
  · have ordered : ((Cursor.ofBytes input :: places).map Cursor.pos).Pairwise (· ≤ ·) :=
      List.pairwise_map.mpr (through.ordered.imp fun leads => leads.pos_le)
    exact ordered
  · intro c member
    exact Cursor.Leads.within ((List.pairwise_cons.mp through.ordered).1 c member)

/-- The places that the reader in use came to, and the readers that were opened on parts of its bytes. -/
structure Route where
  places : List Cursor := []
  inner : List Track := []

namespace Route

def join (r r' : Route) : Route := ⟨r.places ++ r'.places, r.inner ++ r'.inner⟩

/-- A step is a read or the opening of a reader. -/
def steps (r : Route) : Nat := r.places.length + (r.inner.map fun t => t.places.length + 1).sum

theorem steps_join (r r' : Route) : (r.join r').steps = r.steps + r'.steps := by
  simp only [steps, join, List.length_append, List.map_append, List.sum_append]
  omega

theorem steps_open (input : List UInt8) (r : Route) :
    steps { inner := ⟨input, r.places⟩ :: r.inner } = r.steps + 1 := by
  simp only [steps, List.map_cons, List.sum_cons, List.length_nil]
  omega

end Route

namespace Producer

/-- The route that a producer takes. What it tells its consumer and how it counts functions moves no reader. -/
inductive Journey {σ : Type} : {α : Type} → Producer σ α → Session σ → Route → Prop where
  | pure {α : Type} (a : α) (s : Session σ) : Journey (Pure.pure a) s {}
  | throw {α : Type} (e : DecodeError) (s : Session σ) : Journey (MonadExcept.throw e : Producer σ α) s {}
  | unused (s : Session σ) : Journey Producer.unused s {}
  | takeFunction (s : Session σ) : Journey Producer.takeFunction s {}
  | tell {α : Type} (m : Step σ α) (s : Session σ) : Journey (Producer.tell m) s {}
  | read {α : Type} {m : Decoder α} {s : Session σ} {places : List Cursor} (passage : Passage m s.cursor places) :
      Journey (Producer.read m) s { places }
  | within {α : Type} {m : Producer σ α} {input : List UInt8} {s : Session σ} {route : Route}
      (inside : Journey m { s with cursor := .ofBytes input } route) :
      Journey (Producer.within (.ofBytes input) m) s { inner := ⟨input, route.places⟩ :: route.inner }
  | next {α β : Type} {m : Producer σ α} {f : α → Producer σ β} {a : α} {s s' : Session σ} {first rest : Route}
      (begins : Journey m s first) (done : m s = .ok a s') (continues : Journey (f a) s' rest) :
      Journey (m >>= f) s (first.join rest)
  | stop {α β : Type} {m : Producer σ α} {f : α → Producer σ β} {e : DecodeError} {s s' : Session σ} {first : Route}
      (begins : Journey m s first) (failed : m s = .error e s') : Journey (m >>= f) s first
  | adaptExcept {α : Type} {m : Producer σ α} {s : Session σ} {route : Route} (f : DecodeError → DecodeError)
      (inside : Journey m s route) : Journey (EStateM.adaptExcept f m) s route

theorem cursor_tell {σ α : Type} (m : Step σ α) (s : Session σ) : (left (Producer.tell m s)).cursor = s.cursor := by
  unfold Producer.tell
  dsimp only
  cases m s.consumer <;> rfl

theorem cursor_read {σ α : Type} (m : Decoder α) (s : Session σ) :
    (left (Producer.read m s)).cursor = cursorAfter (m s.cursor) := by
  unfold Producer.read
  dsimp only
  cases m s.cursor <;> rfl

theorem cursor_within {σ α : Type} (content : Cursor) (m : Producer σ α) (s : Session σ) :
    (left (Producer.within content m s)).cursor = s.cursor := by
  unfold Producer.within
  dsimp only
  cases m ⟨content, s.consumer, s.nextFunction⟩ <;> rfl

/-- No reader on the way ever goes back or leaves its bytes. -/
theorem Journey.through {σ α : Type} {m : Producer σ α} {s : Session σ} {route : Route} (journey : Journey m s route) :
    s.cursor.Through route.places (left (m s)).cursor ∧ ∀ t ∈ route.inner, t.Advances := by
  induction journey with
  | pure a s | throw e s | unused s | takeFunction s => exact ⟨.refl _, List.forall_mem_nil _⟩
  | tell m s =>
    rw [cursor_tell]
    exact ⟨.refl _, List.forall_mem_nil _⟩
  | read passage =>
    rw [cursor_read]
    exact ⟨passage.through, List.forall_mem_nil _⟩
  | within inside ih =>
    rw [cursor_within]
    exact ⟨.refl _, List.forall_mem_cons.mpr ⟨ih.1.advances, ih.2⟩⟩
  | next begins done continues ih ih' =>
    rw [done] at ih
    rw [bind_of_ok done]
    exact ⟨ih.1.trans ih'.1, List.forall_mem_append.mpr ⟨ih.2, ih'.2⟩⟩
  | stop begins failed ih =>
    rw [failed] at ih
    rw [bind_of_error failed]
    exact ih
  | @adaptExcept α m s route f inside ih =>
    have same : left (EStateM.adaptExcept f m s) = left (m s) := by
      unfold EStateM.adaptExcept
      cases m s <;> rfl
    rw [same]
    exact ih

/-! ## Notes -/

section Notes

variable {σ α β : Type}

/-- A step, and the same step with notes: it writes down no more than so many events and instructions. -/
def Jots (events words : Nat) (m : Step σ α) (noted : Step (σ × List Event) α) : Prop :=
  ∀ t, ∃ told : List Event, told.length ≤ events ∧ told.countP Event.isInstruction ≤ words ∧
    ∀ notes, noted (t, notes) = beside (notes ++ told) (m t)

namespace Jots

variable {events events' words words' : Nat} {m : Step σ α} {noted : Step (σ × List Event) α}

theorem pure (a : α) : Jots (σ := σ) 0 0 (Pure.pure a) (Pure.pure a) := by
  refine fun t => ⟨[], Nat.le_refl _, Nat.le_refl _, fun notes => ?_⟩
  rw [List.append_nil]
  rfl

theorem bind {f : α → Step σ β} {g : α → Step (σ × List Event) β} (first : Jots events words m noted)
    (second : ∀ a, Jots events' words' (f a) (g a)) : Jots (events + events') (words + words') (m >>= f) (noted >>= g) := by
  intro t
  obtain ⟨one, short, few, same⟩ := first t
  cases ran : m t with
  | error v t' =>
    refine ⟨one, Nat.le_add_right_of_le short, Nat.le_add_right_of_le few, fun notes => ?_⟩
    have failed := same notes
    rw [ran] at failed
    rw [bind_of_error ran, bind_of_error failed]
    rfl
  | ok a t' =>
    obtain ⟨two, short', few', same'⟩ := second a t'
    refine ⟨one ++ two, ?_, ?_, fun notes => ?_⟩
    · rw [List.length_append]
      exact Nat.add_le_add short short'
    · rw [List.countP_append]
      exact Nat.add_le_add few few'
    · have done := same notes
      rw [ran] at done
      rw [bind_of_ok ran, bind_of_ok done, same', List.append_assoc]

/-- An event is written down as it is told. -/
theorem event (e : Event) (m : Step σ α) : Jots 1 ([e].countP Event.isInstruction) m (Consumer.noted e m) := by
  refine fun t => ⟨[e], Nat.le_refl _, Nat.le_refl _, fun notes => ?_⟩
  rw [Consumer.noted]
  cases m t <;> rfl

theorem mono (jots : Jots events words m noted) (more : events ≤ events') (more' : words ≤ words') :
    Jots events' words' m noted := by
  intro t
  obtain ⟨told, short, few, same⟩ := jots t
  exact ⟨told, short.trans more, few.trans more', same⟩

theorem instruction (C : Consumer σ) (i : Instruction) : Jots 1 1 (C.instruction i) (C.noting.instruction i) :=
  event (.instruction i) (C.instruction i)

theorem exprEnd (C : Consumer σ) : Jots 1 0 C.exprEnd C.noting.exprEnd := event .exprEnd C.exprEnd

/-- An expression: its instructions and its end. -/
theorem feed (C : Consumer σ) (body : List Instruction) :
    Jots (body.length + 1) body.length (C.feed body) (C.noting.feed body) := by
  induction body with
  | nil => exact exprEnd C
  | cons i body ih =>
    rw [Consumer.feed_cons, Consumer.feed_cons, List.length_cons]
    exact ((instruction C i).bind fun _ => ih).mono (by omega) (by omega)

/-- The site of an expression, and the expression if it is taken. -/
theorem item (C : Consumer σ) (x : Site) (body : List Instruction) :
    Jots (body.length + 2) body.length (C.item (.expr x body)) (C.noting.item (.expr x body)) := by
  have rest (takes : Bool) : Jots (body.length + 1) body.length (if takes then C.feed body else Pure.pure ())
      (if takes then C.noting.feed body else Pure.pure ()) := by
    cases takes with
    | true => exact feed C body
    | false => exact (pure ()).mono (Nat.zero_le _) (Nat.zero_le _)
  exact ((event (.site x) (C.site x)).bind rest).mono (by omega) (by show 0 + body.length ≤ body.length; omega)

end Jots

end Notes

end Producer

/-- A session in which notes are taken. -/
def Session.noting {σ : Type} (s : Session σ) (notes : List Event) : Session (σ × List Event) :=
  ⟨s.cursor, (s.consumer, notes), s.nextFunction⟩

namespace Producer

/-- The end of a run in which notes were taken. -/
def noting {σ α : Type} (notes : List Event) :
    EStateM.Result DecodeError (Session σ) α → EStateM.Result DecodeError (Session (σ × List Event)) α
  | .ok a s => .ok a (s.noting notes)
  | .error e s => .error e (s.noting notes)

/-! ## Paying for a run -/

section Rules

variable {α β σ : Type}

/-- In a session, the credit is enough for the route and for the events that are told, which are those that the same run
with notes writes down, and a run that succeeds leaves credit. Readers are opened on parts of the bytes. -/
def CoversAt (bytes : List UInt8) (pre : Credit) (m : Producer σ α) (noted : Producer (σ × List Event) α)
    (post : α → Credit) (s : Session σ) : Prop :=
  ∃ route told, Journey m s route ∧ (∀ t ∈ route.inner, t.input <:+: bytes) ∧
    (∀ notes, noted (s.noting notes) = noting (notes ++ told) (m s)) ∧
    match m s with
    | .ok a s' =>
      Pays pre s.cursor (route.steps + told.length) (told.countP Event.isInstruction) (post a) s'.cursor
    | .error _ s' =>
      Pays pre.extended s.cursor (route.steps + told.length) (told.countP Event.isInstruction) {} s'.cursor

/-- For every consumer, the credit is enough in every session on bytes. -/
def Covers (pre : Credit) (P : Speaker α) (post : α → Credit) : Prop :=
  ∀ (σ : Type) (C : Consumer σ) (bytes : List UInt8) (s : Session σ), s.cursor.rest <:+: bytes →
    CoversAt bytes pre (P σ C) (P _ C.noting) post s

namespace CoversAt

variable {bytes : List UInt8} {m : Producer σ α} {noted : Producer (σ × List Event) α} {f : α → Producer σ β}
  {g : α → Producer (σ × List Event) β} {pre pre' : Credit} {mid post' : α → Credit} {post : β → Credit} {s : Session σ}

theorem bind (first : CoversAt bytes pre m noted mid s)
    (second : ∀ a s', m s = .ok a s' → s.cursor.Leads s'.cursor → CoversAt bytes (mid a) (f a) (g a) post s') :
    CoversAt bytes pre (m >>= f) (noted >>= g) post s := by
  obtain ⟨route, told, journey, parts, same, pays⟩ := first
  cases ran : m s with
  | error e s' =>
    rw [ran] at pays
    refine ⟨route, told, .stop journey ran, parts, fun notes => ?_, ?_⟩
    · have failed := same notes
      rw [ran] at failed
      rw [bind_of_error ran, bind_of_error failed]
      rfl
    · rw [bind_of_error ran]
      exact pays
  | ok a s' =>
    rw [ran] at pays
    have through := journey.through.1
    rw [ran] at through
    have leads : s.cursor.Leads s'.cursor := through.ends _ List.mem_cons_self
    obtain ⟨route', told', journey', parts', same', pays'⟩ := second a s' ran leads
    refine ⟨route.join route', told ++ told', .next journey ran journey', ?_, fun notes => ?_, ?_⟩
    · exact List.forall_mem_append.mpr ⟨parts, parts'⟩
    · have done := same notes
      rw [ran] at done
      rw [bind_of_ok ran, bind_of_ok done, same', List.append_assoc]
    · have total : (route.join route').steps + (told ++ told').length =
          route.steps + told.length + (route'.steps + told'.length) := by
        rw [Route.steps_join, List.length_append]
        omega
      rw [bind_of_ok ran, total, List.countP_append]
      cases ran' : f a s' with
      | ok b s'' =>
        rw [ran'] at pays'
        exact pays.trans pays'
      | error e s'' =>
        -- the read that fails is in the second part, so that the step for it is still there after the first
        rw [ran'] at pays'
        exact pays.extended.trans pays'

/-- With more credit than is needed, the rest of it is left. -/
theorem frame {post : α → Credit} (covers : CoversAt bytes pre m noted post s) (enough : pre ≤ pre')
    (more : ∀ a, pre + post' a ≤ pre' + post a) : CoversAt bytes pre' m noted post' s := by
  obtain ⟨route, told, journey, parts, same, pays⟩ := covers
  refine ⟨route, told, journey, parts, same, ?_⟩
  cases ran : m s with
  | ok a s' =>
    rw [ran] at pays
    exact pays.frame (more a)
  | error e s' =>
    rw [ran] at pays
    exact pays.frame ⟨Nat.add_le_add_right enough.1 1, enough.2⟩

/-- Nothing is told while bytes are decoded. -/
theorem read {m : Decoder α} (affords : AffordsAt pre m post' s.cursor) :
    CoversAt bytes pre (Producer.read m) (Producer.read m) post' s := by
  obtain ⟨places, passage, pays⟩ := affords
  refine ⟨{ places }, [], .read passage, List.forall_mem_nil _, fun notes => ?_, ?_⟩
  · rw [List.append_nil]
    unfold Producer.read
    dsimp only [Session.noting]
    cases m s.cursor <;> rfl
  · unfold Producer.read
    dsimp only
    cases ran : m s.cursor <;> rw [ran] at pays <;> exact pays

theorem tell {events words : Nat} {m : Step σ α} {noted : Step (σ × List Event) α} (jots : Jots events words m noted) :
    CoversAt bytes ⟨events, words⟩ (Producer.tell m) (Producer.tell noted) (fun _ => {}) s := by
  obtain ⟨told, short, few, same⟩ := jots s.consumer
  refine ⟨{}, told, .tell m s, List.forall_mem_nil _, fun notes => ?_, ?_⟩
  · unfold Producer.tell
    dsimp only [Session.noting]
    rw [same]
    cases m s.consumer <;> rfl
  · unfold Producer.tell
    dsimp only
    have steps : ({} : Route).steps + told.length ≤ events := (Nat.zero_add _).trans_le short
    cases m s.consumer <;> constructor <;> simp only [Credit.extended] <;> omega

theorem adaptExcept (h : DecodeError → DecodeError) (covers : CoversAt bytes pre m noted post' s) :
    CoversAt bytes pre (EStateM.adaptExcept h m) (EStateM.adaptExcept h noted) post' s := by
  obtain ⟨route, told, journey, parts, same, pays⟩ := covers
  refine ⟨route, told, journey.adaptExcept h, parts, fun notes => ?_, ?_⟩
  · unfold EStateM.adaptExcept
    rw [same]
    cases m s <;> rfl
  · unfold EStateM.adaptExcept
    cases ran : m s <;> rw [ran] at pays <;> exact pays

/-- The bytes in a frame, which the reader around them has taken, pay for the reader that is opened on them. -/
theorem within {input : List UInt8} (part : input <:+: bytes)
    (inside : CoversAt input {} m noted (fun _ => {}) { s with cursor := .ofBytes input }) :
    CoversAt bytes (Credit.content (.ofBytes input)) (Producer.within (.ofBytes input) m)
      (Producer.within (.ofBytes input) noted) (fun _ => {}) s := by
  obtain ⟨route, told, journey, parts, same, pays⟩ := inside
  refine ⟨{ inner := ⟨input, route.places⟩ :: route.inner }, told, .within journey, ?_, fun notes => ?_, ?_⟩
  · exact List.forall_mem_cons.mpr ⟨part, fun t member => (parts t member).trans part⟩
  · have same := same notes
    unfold Producer.within
    dsimp only [Session.noting] at same ⊢
    rw [same]
    cases m ⟨.ofBytes input, s.consumer, s.nextFunction⟩ <;> rfl
  · rw [Route.steps_open]
    unfold Producer.within
    dsimp only
    cases ran : m ⟨.ofBytes input, s.consumer, s.nextFunction⟩ with
    | ok a s' | error e s' =>
      rw [ran] at pays
      obtain ⟨steps, words⟩ := pays
      constructor <;> simp only [Credit.content, Credit.extended, Cursor.ofBytes] at steps words ⊢ <;> omega

/-- What the bytes pay for if there is no credit. One read that fails may be beyond them. -/
theorem total (covers : CoversAt bytes {} m noted (fun _ => {}) s) :
    ∃ route told, Journey m s route ∧ (∀ t ∈ route.inner, t.input <:+: bytes) ∧
      (∀ notes, noted (s.noting notes) = noting (notes ++ told) (m s)) ∧
      route.steps + told.length ≤ 4 * s.cursor.rest.length + 1 ∧
      told.countP Event.isInstruction ≤ s.cursor.rest.length := by
  obtain ⟨route, told, journey, parts, same, pays⟩ := covers
  refine ⟨route, told, journey, parts, same, ?_⟩
  cases ran : m s with
  | ok a s' | error e s' =>
    rw [ran] at pays
    obtain ⟨steps, words⟩ := pays
    constructor <;> simp only [Credit.extended] at steps words ⊢ <;> omega

end CoversAt

namespace Covers

variable {P : Speaker α} {Q : α → Speaker β} {pre pre' : Credit} {mid post' : α → Credit} {post : β → Credit}

theorem bind (first : Covers pre P mid) (second : ∀ a, Covers (mid a) (Q a) post) :
    Covers pre (fun σ C => P σ C >>= fun a => Q a σ C) post :=
  fun σ C bytes s part => (first σ C bytes s part).bind fun a s' _ leads =>
    second a σ C bytes s' (leads.suffix.isInfix.trans part)

theorem frame (covers : Covers pre P mid) (enough : pre ≤ pre') (more : ∀ a, pre + post' a ≤ pre' + mid a) :
    Covers pre' P post' :=
  fun σ C bytes s part => (covers σ C bytes s part).frame enough more

/-- Credit is kept by what needs none. -/
theorem keep (covers : Covers {} P fun _ => {}) : Covers pre P fun _ => pre :=
  covers.frame (Credit.none_le pre) fun _ => Credit.none_add_le pre

/-- What reads and tells nothing needs no credit. -/
theorem idle (journey : ∀ σ C s, Journey (P σ C) s {})
    (same : ∀ σ (C : Consumer σ) s, ∃ a s', P σ C s = .ok a s' ∧ s'.cursor = s.cursor ∧
      ∀ notes, P _ C.noting (s.noting notes) = .ok a (s'.noting notes)) : Covers pre P fun _ => pre := by
  intro σ C bytes s part
  obtain ⟨a, s', done, still, noted⟩ := same σ C s
  refine ⟨{}, [], journey σ C s, List.forall_mem_nil _, fun notes => ?_, ?_⟩
  · rw [List.append_nil, done]
    exact noted notes
  · rw [done]
    show Pays pre s.cursor 0 0 pre s'.cursor
    rw [still]
    exact .refl pre s.cursor

theorem pure (a : α) : Covers pre (fun _ _ => Pure.pure a) fun _ => pre :=
  idle (fun _ _ s => .pure a s) fun _ _ s => ⟨a, s, rfl, rfl, fun _ => rfl⟩

theorem unused : Covers pre (fun _ _ => Producer.unused) fun _ => pre :=
  idle (fun _ _ s => .unused s) fun _ _ s => ⟨_, s, rfl, rfl, fun _ => rfl⟩

theorem takeFunction : Covers pre (fun _ _ => Producer.takeFunction) fun _ => pre :=
  idle (fun _ _ s => .takeFunction s) fun _ _ _ => ⟨_, _, rfl, rfl, fun _ => rfl⟩

theorem throw (e : DecodeError) : Covers pre (fun _ _ => (MonadExcept.throw e : Producer _ α)) post' := by
  refine fun σ C bytes s _ => ⟨{}, [], .throw e s, List.forall_mem_nil _, fun notes => ?_, ?_⟩
  · rw [List.append_nil]
    rfl
  · exact (Pays.refl pre.extended s.cursor).frame (Credit.add_le_add_left (Credit.none_le _) _)

theorem throw_bind (e : DecodeError) :
    Covers pre (fun σ C => (MonadExcept.throw e : Producer σ α) >>= fun a => Q a σ C) post := by
  intro σ C bytes s part
  have failed : Covers pre (fun _ _ => (MonadExcept.throw e : Producer _ α)) fun _ => {} := throw e
  exact (failed σ C bytes s part).bind fun _ _ done => by cases done

theorem read {m : Decoder α} (affords : Affords pre m post') : Covers pre (fun _ _ => Producer.read m) post' :=
  fun _ _ _ s _ => .read (affords s.cursor)

theorem entry (e : Entry) : Covers ⟨1, 0⟩ (fun _ C => Producer.entry C e) fun _ => {} :=
  fun _ C _ _ _ => .tell (.event (.entry e) (C.entry e))

theorem item (x : Site) (body : List Instruction) :
    Covers ⟨body.length + 2, body.length⟩ (fun _ C => Producer.tell (C.item (.expr x body))) fun _ => {} :=
  fun _ C _ _ _ => .tell (.item C x body)

end Covers

end Rules

end Producer

end Binary

end Wasm

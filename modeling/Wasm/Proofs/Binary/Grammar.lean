import Wasm.Proofs.Binary.Conduct
import Wasm.Proofs.Encoding.Instructions

/-! # The grammar of what is told

The events of a module make up the words of a language: the header, groups of events for the sections in their order,
custom sections anywhere between them, and the end. Whatever the bytes are, what a producer tells is the beginning of a
word, and it is a whole word exactly if the bytes can be decoded to their end.
-/

namespace Wasm

open Binary
open scoped Computability

/-! ## Words -/

/-- The event belongs to a section. What is inside an expression may belong to any. -/
def Event.BelongsTo (s : Section) : Event → Prop
  | .entry e => Item.section? (.entry e) = some s
  | .site x => Item.section? (.expr x []) = some s
  | .instruction _ | .exprEnd => True

namespace Grammar

def event (e : Event) : Language Event := {[e]}

/-- The instructions of an expression, of which the last one is the first to close it, and then the end. -/
def expression : Language Event := {w | ∃ is, Closes 0 is ∧ w = is.map .instruction ++ [.exprEnd]}

def exprAt (x : Site) : Language Event := event (.site x) * expression

/-- An element segment, then one offset if it is active, then items if they are expressions. -/
def element (s : ElementSegment) : Language Event :=
  event (.entry (.element s)) * (if s.mode.isActive then exprAt .elementOffset else 1) *
    (if s.init = .expressions then (exprAt .elementItem)∗ else 1)

/-- A data segment, then one offset if it is active. -/
def data (s : DataSegment) : Language Event :=
  event (.entry (.data s)) * (if s.mode.isActive then exprAt .dataOffset else 1)

/-- What a section holds: one entry after the other, or a single one. -/
def group : Section → Language Event
  | .type => (⨆ d, event (.entry (.type d)))∗
  | .imports => (⨆ i, event (.entry (.imported i)))∗
  | .function => (⨆ type, event (.entry (.function type)))∗
  | .table => (⨆ d, event (.entry (.table d)))∗
  | .memory => (⨆ l, event (.entry (.memory l)))∗
  | .global => (⨆ d, exprAt (.global d))∗
  | .exports => (⨆ e, event (.entry (.exported e)))∗
  | .start => ⨆ func, event (.entry (.start func))
  | .element => (⨆ s, element s)∗
  | .dataCount => ⨆ count, event (.entry (.dataCount count))
  | .code => (⨆ locals, exprAt (.code locals))∗
  | .data => (⨆ s, data s)∗
  | .header | .finish => 1

def custom : Language Event := ⨆ name, ⨆ payload, event (.entry (.custom name payload))

/-- Groups of these sections in their order, each of them at most once, with custom sections around them. -/
def groups : List Section → Language Event
  | [] => custom∗
  | s :: rest => groups rest + custom∗ * group s * groups rest

/-- The sections that have groups. -/
def sections : List Section :=
  [.type, .imports, .function, .table, .memory, .global, .exports, .start, .element, .dataCount, .code, .data]

theorem custom_mul_groups_le (ss : List Section) : custom * groups ss ≤ groups ss := by
  induction ss with
  | nil => exact mul_kstar_le_kstar
  | cons s rest ih =>
    rw [groups, mul_add, ← mul_assoc, ← mul_assoc]
    exact add_le_add ih (mul_le_mul' (mul_le_mul' mul_kstar_le_kstar le_rfl) le_rfl)

theorem groups_tail_le (s : Section) (rest : List Section) : groups rest ≤ groups (s :: rest) :=
  le_self_add

theorem group_mul_groups_le (s : Section) (rest : List Section) : group s * groups rest ≤ groups (s :: rest) := calc
  group s * groups rest = 1 * group s * groups rest := by rw [one_mul]
  _ ≤ custom∗ * group s * groups rest := mul_le_mul' (mul_le_mul' one_le_kstar le_rfl) le_rfl
  _ ≤ groups (s :: rest) := le_add_self

/-- What may follow a section of rank `last`, up to the end of the module. -/
def after (last : Nat) : Language Event := groups (sections.filter (last < ·.rank))

theorem group_mul_after_le {s : Section} {last : Nat} (known : s ∈ sections) (later : last < s.rank) :
    group s * after s.rank ≤ after last := by
  have ordered : sections.Pairwise (·.rank < ·.rank) := by decide
  unfold after
  generalize sections = ss at known ordered
  induction ss with
  | nil => cases known
  | cons x rest ih =>
    obtain ⟨first, ordered⟩ := List.pairwise_cons.mp ordered
    rcases List.mem_cons.mp known with rfl | known
    · have behind : rest.filter (s.rank < ·.rank) = rest := List.filter_eq_self.mpr (by simpa using first)
      have kept : rest.filter (last < ·.rank) = rest :=
        List.filter_eq_self.mpr fun y member => by simpa using later.trans (first y member)
      rw [List.filter_cons_of_neg (by simp), List.filter_cons_of_pos (by simpa using later), behind, kept]
      exact group_mul_groups_le s rest
    · have before := first s known
      rw [List.filter_cons_of_neg (by simpa using before.le)]
      refine (ih known ordered).trans ?_
      rw [List.filter_cons]
      split
      · exact groups_tail_le x _
      · exact le_rfl

theorem mem_sections_of_ofId {id : UInt8} {s : Section} (found : Section.ofId? id = some s) : s ∈ sections := by
  unfold Section.ofId? at found
  split at found
  case h_13 => cases found
  all_goals
    cases found
    decide

/-! ### What words are made of -/

/-- Words all of whose events are of a kind. -/
def within (q : Event → Prop) : Language Event := {w | ∀ e ∈ w, q e}

section Within

variable {q : Event → Prop} {L M : Language Event}

theorem within_one : 1 ≤ within q := by
  rintro _ rfl
  exact List.forall_mem_nil q

theorem within_event {e : Event} (held : q e) : event e ≤ within q := by
  rintro _ rfl
  exact List.forall_mem_singleton.mpr held

theorem within_mul (first : L ≤ within q) (second : M ≤ within q) : L * M ≤ within q := by
  intro w member
  obtain ⟨u, left, v, right, rfl⟩ := Language.mem_mul.mp member
  exact List.forall_mem_append.mpr ⟨first left, second right⟩

theorem within_kstar (each : L ≤ within q) : L∗ ≤ within q :=
  kstar_le_of_mul_le_left within_one (within_mul le_rfl each)

theorem within_optional {p : Prop} [Decidable p] (held : L ≤ within q) : (if p then L else 1) ≤ within q := by
  split
  · exact held
  · exact within_one

end Within

theorem exprAt_within {s : Section} {x : Site} (here : Item.section? (.expr x []) = some s) :
    exprAt x ≤ within (Event.BelongsTo s) := by
  refine within_mul (within_event here) ?_
  rintro _ ⟨is, -, rfl⟩
  refine List.forall_mem_append.mpr ⟨fun e member => ?_, List.forall_mem_singleton.mpr trivial⟩
  obtain ⟨i, -, rfl⟩ := List.mem_map.mp member
  trivial

theorem group_within (s : Section) : group s ≤ within (Event.BelongsTo s) := by
  cases s with
  | type | imports | function | table | memory | exports => exact within_kstar (iSup_le fun _ => within_event rfl)
  | start | dataCount => exact iSup_le fun _ => within_event rfl
  | global | code => exact within_kstar (iSup_le fun _ => exprAt_within rfl)
  | element =>
    refine within_kstar (iSup_le fun s => within_mul (within_mul (within_event rfl) ?_) ?_)
    · exact within_optional (exprAt_within rfl)
    · exact within_optional (within_kstar (exprAt_within rfl))
  | data => exact within_kstar (iSup_le fun s => within_mul (within_event rfl) (within_optional (exprAt_within rfl)))
  | header | finish => exact within_one

end Grammar

/-! ## Expressions -/

/-- Enough ends close an expression. -/
theorem closes_replicate (depth : Nat) : Closes depth (List.replicate (depth + 1) .end_) := by
  induction depth with
  | zero => rfl
  | succ depth ih => exact ih

/-- What was decoded of an expression closes it if it is whole, and is the beginning of one that does otherwise. -/
theorem Binary.Decoded.closes {depth : Nat} {is : List Instruction} {whole : Bool} (decoded : Decoded depth is whole) :
    ∃ more, Closes depth (is ++ more) ∧ (whole = true → more = []) := by
  induction decoded with
  | closed decoded closes =>
    refine ⟨[], ?_, fun _ => rfl⟩
    simp [Closes, closes]
  | broken depth =>
    refine ⟨_, closes_replicate depth, ?_⟩
    simp
  | more decoded goes rest ih =>
    obtain ⟨more, closed, done⟩ := ih
    refine ⟨more, ?_, done⟩
    simpa [Closes, goes] using closed

/-! ## Uttering -/

/-- The events that make up a notice. -/
def Binary.Notice.events : Notice → List Event
  | .item _ (.entry e) => [.entry e]
  | .item _ (.expr x body) => .site x :: body.map .instruction ++ [.exprEnd]
  | .cut _ x body => .site x :: body.map .instruction
  | .frame _ => []

theorem Binary.Notice.events_inBody (func : Nat) (x : Notice) : (x.inBody func).events = x.events := by
  rcases x with ⟨_, _ | _⟩ | _ | _ <;> rfl

namespace Binary

variable {α β : Type}

/-- The run has told a word of the language of its result, or the beginning of a word if it failed. -/
def Worded (L : α → Language Event) (told : List Event) : Except DecodeError (α × Cursor × Nat) → Prop
  | .ok (a, _) => told ∈ L a
  | .error _ => ∃ a w, told ++ w ∈ L a

/-- Whatever the bytes, what is told is worded. -/
def Utters (P : Speaker α) (L : α → Language Event) : Prop :=
  ∀ c n, ∃ told r, Tells P c n told r ∧ Worded L (told.flatMap Notice.events) r

namespace Utters

open Grammar Producer

variable {P : Speaker α} {Q : α → Speaker β} {L M : α → Language Event} {N : β → Language Event}

theorem mono (utters : Utters P L) (larger : ∀ a, L a ≤ M a) : Utters P M := by
  intro c n
  obtain ⟨told, r, tells, worded⟩ := utters c n
  refine ⟨told, r, tells, ?_⟩
  cases r with
  | ok done => exact larger _ worded
  | error e =>
    obtain ⟨a, w, word⟩ := worded
    exact ⟨a, w, larger a word⟩

/-- There is a word, since there are bytes. -/
theorem nonempty (utters : Utters P L) : ∃ a w, w ∈ L a := by
  obtain ⟨told, r, -, worded⟩ := utters (.ofBytes []) 0
  cases r with
  | ok done => exact ⟨_, _, worded⟩
  | error e =>
    obtain ⟨a, w, word⟩ := worded
    exact ⟨a, _, word⟩

theorem pure {a : α} (empty : 1 ≤ L a) : Utters (fun _ _ => Pure.pure a) L :=
  fun c n => ⟨[], _, .pure a c n, empty rfl⟩

theorem throw (e : DecodeError) (word : ∃ a w, w ∈ L a) : Utters (fun _ _ => MonadExcept.throw e) L :=
  fun c n => ⟨[], _, .throw e c n, word⟩

theorem throw_bind (e : DecodeError) (word : ∃ b w, w ∈ N b) :
    Utters (fun σ C => MonadExcept.throw e >>= fun a => Q a σ C) N :=
  fun c n => ⟨[], _, (Tells.throw e c n).bind_error, word⟩

theorem bind {M : α → β → Language Event} (first : Utters P L) (second : ∀ a, Utters (Q a) (M a))
    (joined : ∀ a b, L a * M a b ≤ N b) : Utters (fun σ C => P σ C >>= fun a => Q a σ C) N := by
  intro c n
  obtain ⟨one, r, tells, worded⟩ := first c n
  cases r with
  | error e =>
    obtain ⟨a, u, left⟩ := worded
    obtain ⟨b, v, right⟩ := (second a).nonempty
    refine ⟨one, .error e, tells.bind_error, b, u ++ v, joined a b ?_⟩
    rw [← List.append_assoc]
    exact Language.append_mem_mul left right
  | ok done =>
    obtain ⟨a, d, m⟩ := done
    obtain ⟨two, r, more, worded'⟩ := second a d m
    refine ⟨one ++ two, r, tells.bind more, ?_⟩
    rw [List.flatMap_append]
    cases r with
    | error e =>
      obtain ⟨b, w, word⟩ := worded'
      refine ⟨b, w, joined a b ?_⟩
      rw [List.append_assoc]
      exact Language.append_mem_mul worded word
    | ok done => exact joined a _ (Language.append_mem_mul worded worded')

/-- Decoding tells nothing. -/
theorem read_bind {m : Decoder α} {good : α → Prop} (yields : Yields m good) (some : ∃ a, good a)
    (second : ∀ a, good a → Utters (Q a) N) : Utters (fun σ C => Producer.read m >>= fun a => Q a σ C) N := by
  intro c n
  cases decoded : m c with
  | error e d =>
    obtain ⟨a, fine⟩ := some
    exact ⟨[], .error e, (Tells.read_error decoded).bind_error, (second a fine).nonempty⟩
  | ok a d =>
    obtain ⟨told, r, tells, worded⟩ := second a (yields.result c a d decoded) d n
    exact ⟨told, r, (Tells.read_ok decoded).bind tells, worded⟩

theorem entry (e : Entry) : Utters (fun _ C => Producer.entry C e) fun _ => event (.entry e) :=
  fun c n => ⟨_, _, .entry e c n, rfl⟩

/-- An entry of any kind, once it is decoded. -/
theorem read_entry {m : Decoder α} {good : α → Prop} (yields : Yields m good) (some : ∃ a, good a) (f : α → Entry) :
    Utters (fun _ C => Producer.read m >>= fun a => Producer.entry C (f a)) fun _ => ⨆ a, event (.entry (f a)) :=
  read_bind yields some fun a _ => (entry (f a)).mono fun _ => le_iSup (fun a => event (.entry (f a))) a

theorem mem_exprAt (x : Site) {is : List Instruction} (closed : Closes 0 is) :
    .site x :: is.map .instruction ++ [.exprEnd] ∈ exprAt x :=
  Language.mem_mul.mpr ⟨[.site x], rfl, _, ⟨is, closed, rfl⟩, rfl⟩

theorem item {x : Site} {body : List Instruction} (decoded : Decoded 0 body true) :
    Utters (fun _ C => Producer.tell (C.item (.expr x body))) fun _ => exprAt x := by
  intro c n
  obtain ⟨more, closed, whole⟩ := decoded.closes
  rw [whole rfl, List.append_nil] at closed
  refine ⟨_, _, .item (.expr x body) c n, ?_⟩
  simpa [Worded, Notice.events] using mem_exprAt x closed

theorem expression (x : Site) : Utters (fun _ C => Producer.expression C x) fun _ => exprAt x := by
  intro c n
  cases decoded : Decoder.expression c with
  | ok body d =>
    obtain ⟨more, closed, whole⟩ := (decoded_of_expression decoded).closes
    rw [whole rfl, List.append_nil] at closed
    refine ⟨_, _, .expression_ok decoded, ?_⟩
    simpa [Worded, Notice.events] using mem_exprAt x closed
  | error e d =>
    obtain ⟨is, part, tells⟩ := Tells.expression_error decoded
    obtain ⟨more, closed, -⟩ := part.closes
    refine ⟨_, _, tells, (), more.map .instruction ++ [.exprEnd], ?_⟩
    simpa [Notice.events] using mem_exprAt x closed

theorem times {P : Speaker Unit} {L : Language Event} (each : Utters P fun _ => L) (count : Nat) :
    Utters (fun σ C => Producer.times (P σ C) count) fun _ => L∗ := by
  induction count with
  | zero => exact fun c n => ⟨[], .ok ((), c, n), fun _ _ _ => rfl, Language.nil_mem_kstar L⟩
  | succ count ih =>
    simp only [times_succ]
    exact each.bind (fun _ => ih) fun _ _ => mul_kstar_le_kstar

theorem entries {P : Speaker Unit} {L : Language Event} (each : Utters P fun _ => L) :
    Utters (fun σ C => Producer.entries (P σ C)) fun _ => L∗ :=
  read_bind (.read Reader.count) ⟨0, trivial⟩ fun count _ => times each count

/-! ### Entries -/

theorem custom : Utters (fun _ C => Producer.custom C) fun _ => Grammar.custom := by
  refine read_bind (.read Reader.text) ⟨"", trivial⟩ fun name _ => ?_
  exact (read_entry (.read Reader.all) ⟨[], trivial⟩ (.custom name)).mono fun _ =>
    le_iSup (fun name => ⨆ payload, event (.entry (.custom name payload))) name

theorem imported : Utters (fun _ C => Producer.imported C) fun _ => ⨆ i, event (.entry (.imported i)) := by
  refine read_bind Yields.imported ⟨⟨"", "", .function 0⟩, trivial⟩ fun i _ => ?_
  have told := (entry (.imported i)).mono fun _ => le_iSup (fun i => event (.entry (.imported i))) i
  obtain ⟨source, name, desc⟩ := i
  cases desc with
  | function type =>
    intro c n
    obtain ⟨one, r, tells, worded⟩ := told c (n + 1)
    exact ⟨one, r, (Tells.takeFunction c n).bind tells, worded⟩
  | table | memory | global => exact told

theorem global : Utters (fun _ C => Producer.global C) fun _ => ⨆ d, exprAt (.global d) :=
  read_bind Yields.globalDecl ⟨⟨0, 0⟩, trivial⟩ fun d _ =>
    (expression (.global d)).mono fun _ => le_iSup (fun d => exprAt (.global d)) d

theorem elementItems (init : ElementInit) :
    Utters (fun _ C =>
        if init = .expressions then Producer.entries (Producer.expression C .elementItem) else Pure.pure ())
      fun _ => if init = .expressions then (exprAt .elementItem)∗ else 1 := by
  by_cases exprs : init = .expressions
  · simp only [exprs, if_true]
    exact entries (expression .elementItem)
  · simp only [exprs, if_false]
    exact pure le_rfl

theorem element : Utters (fun _ C => Producer.element C) fun _ => ⨆ s, Grammar.element s := by
  refine read_bind Yields.element ⟨(⟨0, .passive, .expressions⟩, #[]), by simp [ElementMode.isActive]⟩
    fun found whole => ?_
  obtain ⟨segment, expr⟩ := found
  have items := elementItems segment.init
  refine mono ?_ fun _ => le_iSup Grammar.element segment
  unfold Grammar.element
  cases active : segment.mode.isActive with
  | true =>
    simp only [active, if_true, mul_assoc]
    exact (entry _).bind (fun _ => (item (whole active)).bind (fun _ => items) fun _ _ => le_rfl) fun _ _ => le_rfl
  | false =>
    simp only [active, Bool.false_eq_true, if_false, mul_one]
    exact (entry _).bind (fun _ => items) fun _ _ => le_rfl

theorem data : Utters (fun _ C => Producer.data C) fun _ => ⨆ s, Grammar.data s := by
  refine read_bind Yields.data ⟨(⟨.passive, []⟩, #[]), by simp [DataMode.isActive]⟩ fun found whole => ?_
  obtain ⟨segment, expr⟩ := found
  have offset : Utters (fun _ C =>
      if segment.mode.isActive then tell (C.item (.expr .dataOffset expr.toList)) else Pure.pure ())
      fun _ => if segment.mode.isActive then exprAt .dataOffset else 1 := by
    cases active : segment.mode.isActive with
    | true => exact item (whole active)
    | false => exact pure le_rfl
  exact (entry (.data segment)).bind (fun _ => offset) fun _ _ => le_iSup Grammar.data segment

/-- No words but the empty one, and only for one result. -/
def silently (a b : α) : Language Event := {w | w = [] ∧ b = a}

theorem bind_silently {Q : α → Speaker α} (first : Utters P L) (second : ∀ a, Utters (Q a) (silently a)) :
    Utters (fun σ C => P σ C >>= fun a => Q a σ C) L := by
  refine first.bind second ?_
  rintro a b w word
  obtain ⟨u, left, _, ⟨rfl, rfl⟩, rfl⟩ := Language.mem_mul.mp word
  rwa [List.append_nil]

/-- A frame has to be filled, which is looked at last and tells nothing. -/
theorem filled (e : Nat → DecodeError) (a : α) :
    Utters (fun _ _ => Producer.unused >>= fun left => if left ≠ 0 then MonadExcept.throw (e left) else Pure.pure a)
      (silently a) := by
  intro c n
  have left := Tells.unused c n
  by_cases empty : c.remaining = 0
  · refine ⟨[], .ok (a, c, n), left.bind ?_, rfl, rfl⟩
    simp only [empty, ne_eq, not_true, if_false]
    exact .pure a c n
  · refine ⟨[], .error (e c.remaining), left.bind ?_, a, [], rfl, rfl⟩
    simp only [empty, ne_eq, not_false_eq_true, if_true]
    exact .throw _ c n

theorem bodyContent : Utters (fun _ C => Producer.bodyContent C) fun _ => ⨆ locals, exprAt (.code locals) := by
  refine read_bind Yields.locals ⟨[], trivial⟩ fun locals _ => ?_
  refine mono ?_ fun _ => le_iSup (fun locals => exprAt (.code locals)) locals
  exact (expression (.code locals)).bind_silently fun _ => filled (fun left => .malformed (.bodySize left)) ()

theorem within {content : Cursor} (inside : Utters P L) : Utters (fun σ C => Producer.within content (P σ C)) L := by
  intro c n
  obtain ⟨told, r, tells, worded⟩ := inside content n
  refine ⟨told, _, tells.within c, ?_⟩
  cases r <;> exact worded

theorem framedBody : Utters (fun _ C => Producer.framedBody C) fun _ => ⨆ locals, exprAt (.code locals) :=
  read_bind (.read Reader.u32) ⟨0, trivial⟩ fun size _ =>
    read_bind (.read (Reader.frame size.toNat)) ⟨.ofBytes [], trivial⟩ fun _ _ => bodyContent.within

theorem body : Utters (fun _ C => Producer.body C) fun _ => ⨆ locals, exprAt (.code locals) := by
  intro c n
  obtain ⟨told, r, tells, worded⟩ := framedBody c (n + 1)
  refine ⟨_, _, (Tells.takeFunction c n).bind (tells.inBody n), ?_⟩
  have same : (told.map (Notice.inBody n)).flatMap Notice.events = told.flatMap Notice.events := by
    simp [List.flatMap_map, Notice.events_inBody]
  rw [List.nil_append, same]
  cases r <;> exact worded

/-! ### Sections -/

theorem content (s : Section) : Utters (fun _ C => Producer.content C s) fun _ => group s := by
  cases s with
  | header | finish => exact pure le_rfl
  | type => exact entries (read_entry Yields.funcDecl ⟨⟨[], []⟩, trivial⟩ .type)
  | imports => exact entries imported
  | function => exact entries (read_entry (.read Reader.u32) ⟨0, trivial⟩ .function)
  | table => exact entries (read_entry Yields.tableDecl ⟨⟨0, 0, none⟩, trivial⟩ .table)
  | memory => exact entries (read_entry Yields.limits ⟨⟨0, none⟩, trivial⟩ .memory)
  | global => exact entries global
  | exports => exact entries (read_entry Yields.exported ⟨⟨"", 0, 0⟩, trivial⟩ .exported)
  | start => exact read_entry (.read Reader.u32) ⟨0, trivial⟩ .start
  | element => exact entries element
  | dataCount => exact read_entry (.read Reader.u32) ⟨0, trivial⟩ .dataCount
  | code => exact entries body
  | data => exact entries data

/-- Words that lead from what may follow a section of rank `rank` back to what may follow one of rank `last`. -/
def leading (last rank : Nat) : Language Event := {w | ∀ v ∈ after rank, w ++ v ∈ after last}

theorem le_leading {M : Language Event} {last rank : Nat} (leads : M * after rank ≤ after last) :
    M ≤ leading last rank := fun _ word _ rest => leads (Language.append_mem_mul word rest)

theorem nil_mem_leading (last : Nat) : [] ∈ leading last last := fun _ word => word

/-- What is told before a result that is settled. -/
theorem returning {P : Speaker Unit} {M : Language Event} {a : α} (first : Utters P fun _ => M) (fits : M ≤ L a) :
    Utters (fun σ C => P σ C >>= fun _ => Pure.pure a) L := by
  intro c n
  obtain ⟨told, r, tells, worded⟩ := first c n
  cases r with
  | error e =>
    obtain ⟨_, w, word⟩ := worded
    exact ⟨told, _, tells.bind_error, a, w, fits word⟩
  | ok done =>
    obtain ⟨_, d, m⟩ := done
    refine ⟨told ++ [], _, tells.bind (.pure a d m), ?_⟩
    rw [List.append_nil]
    exact fits worded

/-- A frame of a custom section or of any other, where both have their words. -/
theorem ranked {last : Nat} {id : UInt8} {L : Nat → Language Event} (asCustom : id = 0 → Grammar.custom ≤ L last)
    (asSection : id ≠ 0 → ∀ s, Section.ofId? id = some s → last < s.rank → group s ≤ L s.rank)
    (word : id ≠ 0 → ∃ rank w, w ∈ L rank) : Utters (fun _ C => Producer.ranked C last id) L := by
  unfold Producer.ranked
  by_cases isCustom : id = 0
  · simp only [isCustom, if_true]
    exact custom.returning (asCustom isCustom)
  · simp only [isCustom, if_false]
    cases found : Section.ofId? id with
    | none => exact throw _ (word isCustom)
    | some s =>
      dsimp only
      by_cases order : s.rank ≤ last
      · simp only [order, if_true]
        exact throw_bind _ (word isCustom)
      · simp only [order, if_false]
        exact (content s).returning (asSection isCustom s found (Nat.lt_of_not_le order))

theorem framed {last : Nat} {f : SectionFrame} {L : Nat → Language Event}
    (ranked : Utters (fun _ C => Producer.ranked C last f.id) L) : Utters (fun _ C => Producer.framed C last f) L :=
  ranked.bind_silently fun rank => filled (fun left => .sectionSize f.id f.size left) rank

theorem framed_leading (last : Nat) (f : SectionFrame) :
    Utters (fun _ C => Producer.framed C last f) (leading last) := by
  refine framed (ranked ?_ ?_ ?_)
  · exact fun _ => le_leading (custom_mul_groups_le _)
  · exact fun _ s found later => le_leading (group_mul_after_le (mem_sections_of_ofId found) later)
  · exact fun _ => ⟨last, [], nil_mem_leading last⟩

theorem nil_mem_after (last : Nat) : [] ∈ after last := by
  unfold after
  induction sections.filter (last < ·.rank) with
  | nil => exact Language.nil_mem_kstar _
  | cons s rest ih => exact groups_tail_le s rest ih

theorem sections (last : Nat) : Utters (fun _ C => Producer.sections C last) fun _ => after last := by
  intro c
  induction size : c.rest.length using Nat.strongRecOn generalizing c last with
  | ind size ih =>
    intro n
    cases empty : c.isEmpty with
    | true => exact ⟨[], .ok ((), c, n), fun σ C t => ends_sections_empty C empty, nil_mem_after last⟩
    | false =>
      cases decoded : Decoder.sectionFrame c with
      | error e d =>
        exact ⟨[], .error e, fun σ C t => ends_sections_error C empty decoded, (), [], nil_mem_after last⟩
      | ok enclosed d =>
        obtain ⟨f, content⟩ := enclosed
        obtain ⟨one, r, tells, worded⟩ := framed_leading last f content n
        cases r with
        | error e =>
          obtain ⟨rank, w, leads⟩ := worded
          refine ⟨_, _, .sections_error empty decoded tells, (), w, ?_⟩
          have word := leads [] (nil_mem_after rank)
          rwa [List.append_nil] at word
        | ok done =>
          obtain ⟨rank, used, m⟩ := done
          obtain ⟨two, r, rest, worded'⟩ := ih d.rest.length (size ▸ Decoder.sectionFrame_shrinks decoded) rank d rfl m
          refine ⟨_, r, .sections empty decoded tells rest, ?_⟩
          have split : (Notice.frame f :: one ++ two).flatMap Notice.events =
              one.flatMap Notice.events ++ two.flatMap Notice.events := by
            simp [Notice.events]
          rw [split]
          cases r with
          | ok done => exact worded _ worded'
          | error e =>
            obtain ⟨_, w, word⟩ := worded'
            refine ⟨(), w, ?_⟩
            rw [List.append_assoc]
            exact worded _ word

end Utters

/-- A module up to its end. -/
def unended : Speaker Unit := fun _ C => do
  let version ← Decoder.header
  Producer.entry C (.header version)
  Producer.sections C 0

theorem produce_eq {σ : Type} (C : Consumer σ) :
    Producer.produce C = (unended σ C >>= fun _ => Producer.entry C .finish) := by
  simp only [Producer.produce, unended, bind_assoc]

theorem Utters.unended :
    Utters unended fun _ =>
      (⨆ version, Grammar.event (.entry (.header version))) * Grammar.groups Grammar.sections := by
  refine read_bind Yields.header ⟨0, trivial⟩ fun version _ => ?_
  refine (entry (.header version)).bind (fun _ => sections 0) fun _ _ => mul_le_mul' ?_ le_rfl
  exact le_iSup (fun version => Grammar.event (.entry (.header version))) version

end Binary

/-! ## The trace of a delivery -/

/-- Writes down every event, and takes every expression. -/
def Consumer.scribe : Consumer (List Event) where
  entry e := modify (· ++ [.entry e])
  site x := do
    modify (· ++ [.site x])
    pure true
  instruction i := modify (· ++ [.instruction i])
  exprEnd := modify (· ++ [.exprEnd])

namespace Consumer

theorem scribe_feedOpen (body : List Instruction) (t : List Event) :
    scribe.feedOpen body t = .ok () (t ++ body.map .instruction) := by
  induction body generalizing t with
  | nil => exact congrArg (EStateM.Result.ok ()) (List.append_nil t).symm
  | cons i body ih =>
    have first : scribe.instruction i t = .ok () (t ++ [.instruction i]) := rfl
    rw [feedOpen, Outcome.bind_of_ok first, ih, List.append_assoc]
    rfl

theorem scribe_cut (x : Site) (body : List Instruction) (t : List Event) :
    scribe.cut x body t = .ok () (t ++ .site x :: body.map .instruction) := by
  have taken : scribe.site x t = .ok true (t ++ [.site x]) := rfl
  rw [cut, Outcome.bind_of_ok taken, if_pos rfl, scribe_feedOpen, List.append_assoc]
  rfl

theorem scribe_item (x : Item) (t : List Event) : scribe.item x t = .ok () (t ++ Notice.events (.item [] x)) := by
  cases x with
  | entry e => rfl
  | expr x body =>
    have taken : scribe.site x t = .ok true (t ++ [.site x]) := rfl
    rw [item, Outcome.bind_of_ok taken, if_pos rfl, feed_eq, Outcome.bind_of_ok (scribe_feedOpen body _)]
    simp [scribe, Notice.events, modify, modifyGet, MonadStateOf.modifyGet, EStateM.modifyGet]

theorem scribe_hear (x : Notice) (t : List Event) : scribe.hear x t = .ok () (t ++ x.events) := by
  cases x with
  | item funcs x =>
    rw [hear, EStateM.adaptExcept, scribe_item]
    cases x <;> rfl
  | cut funcs x body =>
    rw [hear, EStateM.adaptExcept, scribe_cut]
    rfl
  | frame f => exact congrArg (EStateM.Result.ok ()) (List.append_nil t).symm

theorem scribe_hearAll (told : List Notice) (t : List Event) :
    scribe.hearAll told t = .ok () (t ++ told.flatMap Notice.events) := by
  induction told generalizing t with
  | nil => exact congrArg (EStateM.Result.ok ()) (List.append_nil t).symm
  | cons x told ih =>
    rw [hearAll, Outcome.bind_of_ok (scribe_hear x t), ih, List.flatMap_cons, List.append_assoc]

end Consumer

end Wasm

import Wasm.Proofs.Binary.Telling
import Wasm.Proofs.Tree.Pieces

/-! # What a decoded module is made of

Every producer tells the same to all consumers, whatever the bytes. If it succeeds, what it has told are the pieces of a
tree, in the order of their sections, and the bodies among them carry the indices of their functions.
-/

namespace Wasm

/-- Whether the item is a function, which takes the next index. -/
def Item.functions : Item → Nat
  | .entry (.imported ⟨_, _, .function _⟩) | .expr (.code _) _ => 1
  | _ => 0

/-- The function that the item is the body of, where `next` is the index that comes next. -/
def Item.owners (next : Nat) : Item → List Nat
  | .expr (.code _) _ => [next]
  | _ => []

theorem Item.owners_of_functions {x : Item} (none : x.functions = 0) (next : Nat) : x.owners next = [] := by
  rcases x with _ | ⟨_ | _ | _ | _ | _, _⟩
  case expr.code => cases none
  all_goals rfl

namespace Binary

open Producer Wasm.Tree

/-- How many of the items are functions. -/
def functionCount (xs : List Item) : Nat := (xs.map Item.functions).sum

/-- Items as they are told, from a number of functions on. -/
def Notice.ofItems : Nat → List Item → List Notice
  | _, [] => []
  | next, x :: xs => .item (x.owners next) x :: ofItems (next + x.functions) xs

theorem functionCount_cons (x : Item) (xs : List Item) :
    functionCount (x :: xs) = x.functions + functionCount xs := by
  rw [functionCount, List.map_cons, List.sum_cons, functionCount]

theorem functionCount_append (xs ys : List Item) : functionCount (xs ++ ys) = functionCount xs + functionCount ys := by
  rw [functionCount, List.map_append, List.sum_append, functionCount, functionCount]

theorem Notice.ofItems_append (next : Nat) (xs ys : List Item) :
    ofItems next (xs ++ ys) = ofItems next xs ++ ofItems (next + functionCount xs) ys := by
  induction xs generalizing next with
  | nil => rfl
  | cons x xs ih => rw [List.cons_append, ofItems, ih, ofItems, List.cons_append, functionCount_cons, Nat.add_assoc]

theorem functionCount_eq_zero {xs : List Item} (none : ∀ x ∈ xs, x.functions = 0) : functionCount xs = 0 := by
  induction xs with
  | nil => rfl
  | cons x xs ih =>
    obtain ⟨here, others⟩ := List.forall_mem_cons.mp none
    rw [functionCount_cons, here, ih others]

theorem functionCount_element (e : Element) : functionCount (Piece.items (.element e)) = 0 := by
  refine functionCount_eq_zero ?_
  simp only [Piece.items, Element.stream, List.cons_append, List.mem_cons, List.mem_append, List.mem_ite_nil_right,
    List.mem_map, List.not_mem_nil, or_false]
  rintro _ (rfl | ⟨_, rfl⟩ | ⟨_, _, rfl⟩) <;> rfl

theorem functionCount_data (d : Data) : functionCount (Piece.items (.data d)) = 0 := by
  refine functionCount_eq_zero ?_
  simp only [Piece.items, Data.stream, List.mem_cons, List.mem_ite_nil_right, List.not_mem_nil, or_false]
  rintro _ (rfl | ⟨_, rfl⟩) <;> rfl

/-- Items none of which is a function. -/
theorem Notice.ofItems_of_functionCount (next : Nat) {xs : List Item} (none : functionCount xs = 0) :
    ofItems next xs = xs.map (.item []) := by
  induction xs generalizing next with
  | nil => rfl
  | cons x xs ih =>
    rw [functionCount_cons, Nat.add_eq_zero_iff] at none
    rw [ofItems, ih _ none.2, Item.owners_of_functions none.1, List.map_cons]

variable {α β : Type}

theorem Producer.times_succ {σ : Type} (entry : Producer σ Unit) (count : Nat) :
    times entry (count + 1) = (entry >>= fun _ => times entry count) := by
  funext s
  show _ = EStateM.bind _ _ s
  rw [times, EStateM.bind]
  cases entry s <;> rfl

/-- Whatever the bytes, the same is told to every consumer; and what is told by a run that succeeds is as described, by
the number of functions before and after it. -/
def Emits (P : Speaker α) (Φ : Nat → List Notice → α → Nat → Prop) : Prop :=
  ∀ c n, ∃ told r, Tells P c n told r ∧ ∀ a d m, r = .ok (a, d, m) → Φ n told a m

namespace Emits

variable {P : Speaker α} {Q : α → Speaker β} {Φ : Nat → List Notice → α → Nat → Prop}

theorem mono {Ψ : Nat → List Notice → α → Nat → Prop} (emits : Emits P Φ)
    (weaker : ∀ n told a m, Φ n told a m → Ψ n told a m) : Emits P Ψ := by
  intro c n
  obtain ⟨told, r, tells, good⟩ := emits c n
  exact ⟨told, r, tells, fun a d m same => weaker n told a m (good a d m same)⟩

theorem pure (a : α) : Emits (fun _ _ => Pure.pure a) (fun n told b m => told = [] ∧ b = a ∧ m = n) := by
  intro c n
  refine ⟨_, _, .pure a c n, ?_⟩
  rintro _ _ _ ⟨⟩
  exact ⟨rfl, rfl, rfl⟩

theorem throw (e : DecodeError) : Emits (fun _ _ => MonadExcept.throw e) Φ :=
  fun c n => ⟨_, _, .throw e c n, nofun⟩

theorem throw_bind (e : DecodeError) {Ψ : Nat → List Notice → β → Nat → Prop} :
    Emits (fun σ C => MonadExcept.throw e >>= fun a => Q a σ C) Ψ :=
  fun c n => ⟨_, _, (Tells.throw e c n).bind_error, nofun⟩

theorem bind {Ψ : α → Nat → List Notice → β → Nat → Prop} (first : Emits P Φ) (second : ∀ a, Emits (Q a) (Ψ a)) :
    Emits (fun σ C => P σ C >>= fun a => Q a σ C)
      (fun n told b k => ∃ a m one two, told = one ++ two ∧ Φ n one a m ∧ Ψ a m two b k) := by
  intro c n
  obtain ⟨one, r, tells, good⟩ := first c n
  match r with
  | .error e => exact ⟨one, .error e, tells.bind_error, nofun⟩
  | .ok (a, d, m) =>
    obtain ⟨two, r, more, fine⟩ := second a d m
    exact ⟨one ++ two, r, tells.bind more,
      fun b e k same => ⟨a, m, one, two, rfl, good a d m rfl, fine b e k same⟩⟩

/-- Decoding tells nothing; what was decoded is the result of a decoder. -/
theorem read_bind {m : Decoder α} {Ψ : Nat → List Notice → β → Nat → Prop}
    (second : ∀ a, (∃ c d, m c = .ok a d) → Emits (Q a) Ψ) :
    Emits (fun σ C => Producer.read m >>= fun a => Q a σ C) Ψ := by
  intro c n
  cases decoded : m c with
  | error e d => exact ⟨[], .error e, (Tells.read_error decoded).bind_error, nofun⟩
  | ok a d =>
    obtain ⟨told, r, tells, good⟩ := second a ⟨c, d, decoded⟩ d n
    exact ⟨told, r, (Tells.read_ok decoded).bind tells, good⟩

theorem item (x : Item) :
    Emits (fun _ C => tell (C.item x)) (fun n told _ m => told = [.item [] x] ∧ m = n) := by
  intro c n
  refine ⟨_, _, .item x c n, ?_⟩
  rintro _ _ _ ⟨⟩
  exact ⟨rfl, rfl⟩

theorem entry (e : Entry) :
    Emits (fun _ C => Producer.entry C e) (fun n told _ m => told = [.item [] (.entry e)] ∧ m = n) :=
  item (.entry e)

theorem expression (x : Site) :
    Emits (fun _ C => Producer.expression C x)
      (fun n told _ m => (∃ body : Expr, told = [.item [] (.expr x body.toList)]) ∧ m = n) := by
  intro c n
  cases decoded : Decoder.expression c with
  | ok body d =>
    refine ⟨_, _, .expression_ok decoded, ?_⟩
    rintro _ _ _ ⟨⟩
    exact ⟨⟨body, rfl⟩, rfl⟩
  | error e d =>
    obtain ⟨is, -, tells⟩ := Tells.expression_error (x := x) (n := n) decoded
    exact ⟨_, _, tells, nofun⟩

theorem unused : Emits (fun _ _ => Producer.unused) (fun n told _ m => told = [] ∧ m = n) := by
  intro c n
  refine ⟨_, _, .unused c n, ?_⟩
  rintro _ _ _ ⟨⟩
  exact ⟨rfl, rfl⟩

/-- A last look at something, which tells nothing. -/
theorem guard (p : Prop) [Decidable p] (e : DecodeError) :
    Emits (fun _ _ => if p then MonadExcept.throw e else Pure.pure ()) (fun n told _ m => told = [] ∧ m = n) := by
  by_cases held : p
  · simp only [held, if_true]
    exact throw e
  · simp only [held, if_false]
    exact (pure ()).mono fun _ _ _ _ ⟨silent, _, same⟩ => ⟨silent, same⟩

/-- What one of several entries tells, put together. -/
theorem times {P : Speaker Unit} {Φ Ψ : Nat → List Notice → Nat → Prop}
    (each : Emits P fun n told _ m => Φ n told m) (none : ∀ n, Ψ n [] n)
    (more : ∀ n one m two k, Φ n one m → Ψ m two k → Ψ n (one ++ two) k) (count : Nat) :
    Emits (fun σ C => Producer.times (P σ C) count) (fun n told _ m => Ψ n told m) := by
  induction count with
  | zero =>
    intro c n
    refine ⟨[], .ok ((), c, n), fun _ _ _ => rfl, ?_⟩
    rintro _ _ _ ⟨⟩
    exact none n
  | succ count ih =>
    simp only [times_succ]
    refine (each.bind fun _ => ih).mono ?_
    rintro n _ _ k ⟨_, m, one, two, rfl, first, rest⟩
    exact more n one m two k first rest

end Emits

/-! ## Entries -/

/-- A run that succeeds has told a list of pieces, none of which holds an offset that is not told. -/
def EmitsPieces (P : Speaker Unit) (good : List Piece → Prop) : Prop :=
  Emits P fun n told _ m =>
    ∃ ps, good ps ∧ (∀ p ∈ ps, p.trim = p) ∧ told = Notice.ofItems n (ps.flatMap Piece.items) ∧
      m = n + functionCount (ps.flatMap Piece.items)

namespace EmitsPieces

/-- A single piece that is no function. -/
theorem piece {P : Speaker Unit} {s : Option Section}
    (emits : Emits P fun n told _ m => (∃ p : Piece, told = p.items.map (.item []) ∧ p.section? = s ∧ p.trim = p ∧
      functionCount p.items = 0) ∧ m = n) :
    EmitsPieces P fun ps => ∃ p, ps = [p] ∧ p.section? = s := by
  refine emits.mono ?_
  rintro n _ _ _ ⟨⟨p, rfl, here, trimmed, plain⟩, rfl⟩
  refine ⟨[p], ⟨p, rfl, here⟩, by simpa using trimmed, ?_, ?_⟩
  · rw [List.flatMap_singleton, Notice.ofItems_of_functionCount _ plain]
  · rw [List.flatMap_singleton, plain, Nat.add_zero]

theorem entry {s : Option Section} (p : Piece) {e : Entry} (same : p.items = [.entry e]) (here : p.section? = s)
    (trimmed : p.trim = p) (plain : functionCount p.items = 0) :
    EmitsPieces (fun _ C => Producer.entry C e) fun ps => ∃ p, ps = [p] ∧ p.section? = s := by
  refine piece ((Emits.entry e).mono ?_)
  rintro n _ _ _ ⟨rfl, rfl⟩
  exact ⟨⟨p, by rw [same]; rfl, here, trimmed, plain⟩, rfl⟩

/-- Entries of one section, with their number before them. -/
theorem entries {P : Speaker Unit} {s : Section} (each : EmitsPieces P fun ps => ∃ p, ps = [p] ∧ p.section? = some s) :
    EmitsPieces (fun σ C => Producer.entries (P σ C)) fun ps => ∀ p ∈ ps, p.section? = some s := by
  refine Emits.read_bind fun count _ => Emits.times each ?_ ?_ count
  · exact fun n => ⟨[], nofun, nofun, rfl, rfl⟩
  · rintro n _ _ _ _ ⟨_, ⟨p, rfl, here⟩, trimmed, rfl, rfl⟩ ⟨ps, members, others, rfl, rfl⟩
    refine ⟨p :: ps, List.forall_mem_cons.mpr ⟨here, members⟩, ?_, ?_, ?_⟩
    · exact List.forall_mem_cons.mpr ⟨trimmed p (List.mem_singleton_self p), others⟩
    · rw [← Notice.ofItems_append, ← List.flatMap_append]
      rfl
    · rw [Nat.add_assoc, ← functionCount_append, ← List.flatMap_append]
      rfl

theorem custom : EmitsPieces (fun _ C => Producer.custom C) fun ps => ∃ p, ps = [p] ∧ p.section? = none :=
  Emits.read_bind fun name _ => Emits.read_bind fun payload _ =>
    entry (.custom name payload) rfl rfl rfl rfl

theorem imported :
    EmitsPieces (fun _ C => Producer.imported C) fun ps => ∃ p, ps = [p] ∧ p.section? = some .imports := by
  refine Emits.read_bind fun i _ => ?_
  obtain ⟨source, name, desc⟩ := i
  cases desc with
  | function type =>
    intro c n
    refine ⟨_, _, (Tells.takeFunction c n).bind (.entry _ c (n + 1)), ?_⟩
    rintro _ _ _ ⟨⟩
    exact ⟨[.imported _], ⟨_, rfl, rfl⟩, by simp [Piece.trim], rfl, rfl⟩
  | _ => exact entry (.imported _) rfl rfl rfl rfl

theorem global : EmitsPieces (fun _ C => Producer.global C) fun ps => ∃ p, ps = [p] ∧ p.section? = some .global := by
  refine Emits.read_bind fun d _ => ?_
  refine (Emits.expression (.global d)).mono ?_
  rintro n _ _ _ ⟨⟨body, rfl⟩, rfl⟩
  exact ⟨[.global ⟨d, body⟩], ⟨_, rfl, rfl⟩, by simp [Piece.trim], rfl, rfl⟩

theorem framedBody :
    Emits (fun _ C => Producer.framedBody C)
      (fun n told _ m => (∃ locals, ∃ body : Expr, told = [.item [] (.expr (.code locals) body.toList)]) ∧ m = n) := by
  refine Emits.read_bind fun size _ => Emits.read_bind fun content _ => ?_
  have inside : Emits (fun _ C => Producer.bodyContent C)
      (fun n told _ m => (∃ locals, ∃ body : Expr, told = [.item [] (.expr (.code locals) body.toList)]) ∧ m = n) := by
    refine Emits.read_bind fun locals _ => ?_
    refine ((Emits.expression (.code locals)).bind fun _ => Emits.unused.bind fun _ => Emits.guard _ _).mono ?_
    rintro n _ _ _ ⟨_, _, _, _, rfl, ⟨⟨body, rfl⟩, rfl⟩, _, _, _, _, rfl, ⟨rfl, rfl⟩, rfl, rfl⟩
    exact ⟨⟨locals, body, rfl⟩, rfl⟩
  intro c n
  obtain ⟨told, r, tells, good⟩ := inside content n
  refine ⟨told, _, tells.within c, ?_⟩
  intro a d m same
  match r with
  | .ok (a, d, m) =>
    cases same
    exact good a _ _ rfl

theorem body : EmitsPieces (fun _ C => Producer.body C) fun ps => ∃ p, ps = [p] ∧ p.section? = some .code := by
  intro c n
  obtain ⟨told, r, tells, good⟩ := framedBody c (n + 1)
  refine ⟨_, _, (Tells.takeFunction c n).bind (tells.inBody n), ?_⟩
  intro a d m same
  match r with
  | .ok (a, d, m) =>
    cases same
    obtain ⟨⟨locals, body, rfl⟩, rfl⟩ := good a _ _ rfl
    exact ⟨[.body ⟨locals, body⟩], ⟨_, rfl, rfl⟩, by simp [Piece.trim], rfl, rfl⟩

/-- Items are told if they are expressions. -/
theorem elementItems (init : ElementInit) :
    Emits (fun _ C => if init = .expressions then Producer.entries (Producer.expression C .elementItem) else pure ())
      (fun n told _ m =>
        (∃ items : List Expr, told = items.map fun item => .item [] (.expr .elementItem item.toList)) ∧ m = n) := by
  by_cases exprs : init = .expressions
  · simp only [exprs, if_true]
    refine Emits.read_bind fun count _ => Emits.times (Emits.expression .elementItem) ?_ ?_ count
    · exact fun n => ⟨⟨[], rfl⟩, rfl⟩
    · rintro n _ _ _ _ ⟨⟨item, rfl⟩, rfl⟩ ⟨⟨items, rfl⟩, rfl⟩
      exact ⟨⟨item :: items, rfl⟩, rfl⟩
  · simp only [exprs, if_false]
    refine (Emits.pure ()).mono ?_
    rintro n _ _ _ ⟨rfl, _, rfl⟩
    exact ⟨⟨[], rfl⟩, rfl⟩

/-- A segment that is not active has no offset. -/
theorem offset_of_element {segment : ElementSegment} {offset : Expr} {c d : Cursor}
    (decoded : Decoder.element c = .ok (segment, offset) d) (inactive : segment.mode.isActive = false) :
    offset = #[] := by
  unfold Decoder.element at decoded
  obtain ⟨form, _, -, rest⟩ := Outcome.bind_ok_iff.mp decoded
  obtain ⟨⟨mode, first⟩, _, found, rest⟩ := Outcome.bind_ok_iff.mp rest
  obtain ⟨tag, _, -, rest⟩ := Outcome.bind_ok_iff.mp rest
  obtain ⟨init, _, -, rest⟩ := Outcome.bind_ok_iff.mp rest
  cases rest
  unfold Decoder.elementMode at found
  split at found
  · cases found
    rfl
  · dsimp only at found
    split at found
    all_goals
      obtain ⟨table, _, -, rest⟩ := Outcome.bind_ok_iff.mp found
      obtain ⟨_, _, -, rest⟩ := Outcome.bind_ok_iff.mp rest
      cases rest
      cases inactive

theorem element : EmitsPieces (fun _ C => Producer.element C) fun ps => ∃ p, ps = [p] ∧ p.section? = some .element := by
  refine Emits.read_bind fun decoded found => ?_
  obtain ⟨segment, offset⟩ := decoded
  obtain ⟨c, d, decoded⟩ := found
  have trimmed (items : Array Expr) :
      Piece.trim (.element ⟨segment, offset, items⟩) = .element ⟨segment, offset, items⟩ := by
    simpa [Piece.trim] using fun inactive => (offset_of_element decoded inactive).symm
  cases active : segment.mode.isActive with
  | true =>
    simp only [active, if_true]
    refine piece (((Emits.entry _).bind fun _ => (Emits.item _).bind fun _ => elementItems segment.init).mono ?_)
    rintro n _ _ _ ⟨_, _, _, _, rfl, ⟨rfl, rfl⟩, _, _, _, _, rfl, ⟨rfl, rfl⟩, ⟨items, rfl⟩, rfl⟩
    exact ⟨⟨.element ⟨segment, offset, items.toArray⟩, by simp [Piece.items, Element.stream, active, Function.comp_def],
      rfl, trimmed _, functionCount_element _⟩, rfl⟩
  | false =>
    simp only [active, Bool.false_eq_true, if_false]
    refine piece (((Emits.entry _).bind fun _ => elementItems segment.init).mono ?_)
    rintro n _ _ _ ⟨_, _, _, _, rfl, ⟨rfl, rfl⟩, ⟨items, rfl⟩, rfl⟩
    exact ⟨⟨.element ⟨segment, offset, items.toArray⟩, by simp [Piece.items, Element.stream, active, Function.comp_def],
      rfl, trimmed _, functionCount_element _⟩, rfl⟩

/-- A segment that is not active has no offset. -/
theorem offset_of_data {segment : DataSegment} {offset : Expr} {c d : Cursor}
    (decoded : Decoder.data c = .ok (segment, offset) d) (inactive : segment.mode.isActive = false) :
    offset = #[] := by
  unfold Decoder.data at decoded
  obtain ⟨⟨mode, first⟩, _, found, rest⟩ := Outcome.bind_ok_iff.mp decoded
  obtain ⟨init, _, -, rest⟩ := Outcome.bind_ok_iff.mp rest
  cases rest
  unfold Decoder.dataMode at found
  obtain ⟨flags, _, -, found⟩ := Outcome.bind_ok_iff.mp found
  split at found
  · obtain ⟨_, _, -, rest⟩ := Outcome.bind_ok_iff.mp found
    cases rest
    cases inactive
  · cases found
    rfl
  · obtain ⟨memory, _, -, rest⟩ := Outcome.bind_ok_iff.mp found
    obtain ⟨_, _, -, rest⟩ := Outcome.bind_ok_iff.mp rest
    cases rest
    cases inactive
  · cases found

theorem data : EmitsPieces (fun _ C => Producer.data C) fun ps => ∃ p, ps = [p] ∧ p.section? = some .data := by
  refine Emits.read_bind fun decoded found => ?_
  obtain ⟨segment, offset⟩ := decoded
  obtain ⟨c, d, decoded⟩ := found
  have trimmed : Piece.trim (.data ⟨segment, offset⟩) = .data ⟨segment, offset⟩ := by
    simpa [Piece.trim] using fun inactive => (offset_of_data decoded inactive).symm
  cases active : segment.mode.isActive with
  | true =>
    simp only [active, if_true]
    refine piece (((Emits.entry _).bind fun _ => Emits.item _).mono ?_)
    rintro n _ _ _ ⟨_, _, _, _, rfl, ⟨rfl, rfl⟩, rfl, rfl⟩
    have told : Piece.items (.data ⟨segment, offset⟩) = [.entry (.data segment), .expr .dataOffset offset.toList] := by
      simp [Piece.items, Data.stream, active]
    exact ⟨⟨.data ⟨segment, offset⟩, by rw [told]; rfl, rfl, trimmed, functionCount_data _⟩, rfl⟩
  | false =>
    simp only [active, Bool.false_eq_true, if_false, bind_pure_unit]
    exact entry (.data ⟨segment, offset⟩) (by simp [Piece.items, Data.stream, active]) rfl trimmed
      (functionCount_data _)

/-- The content of a section is pieces of that section. -/
theorem content (s : Section) :
    EmitsPieces (fun _ C => Producer.content C s)
      fun ps => (∀ p ∈ ps, p.section? = some s) ∧ (s.IsSingle → ps.length ≤ 1) := by
  have many {P : Speaker Unit} (free : ¬s.IsSingle)
      (each : EmitsPieces P fun ps => ∃ p, ps = [p] ∧ p.section? = some s) :
      EmitsPieces (fun σ C => Producer.entries (P σ C))
        fun ps => (∀ p ∈ ps, p.section? = some s) ∧ (s.IsSingle → ps.length ≤ 1) :=
    (entries each).mono fun _ _ _ _ ⟨ps, members, rest⟩ => ⟨ps, ⟨members, fun single => absurd single free⟩, rest⟩
  have single {P : Speaker Unit} (each : EmitsPieces P fun ps => ∃ p, ps = [p] ∧ p.section? = some s) :
      EmitsPieces P fun ps => (∀ p ∈ ps, p.section? = some s) ∧ (s.IsSingle → ps.length ≤ 1) := by
    refine each.mono ?_
    rintro n told _ m ⟨_, ⟨p, rfl, here⟩, rest⟩
    exact ⟨[p], ⟨by simpa using here, fun _ => Nat.le_refl 1⟩, rest⟩
  cases s with
  | header | finish =>
    refine (Emits.pure ()).mono ?_
    rintro n _ _ _ ⟨rfl, _, rfl⟩
    exact ⟨[], ⟨nofun, fun _ => Nat.zero_le 1⟩, nofun, rfl, rfl⟩
  | type => exact many (by decide) (Emits.read_bind fun d _ => entry (.type d) rfl rfl rfl rfl)
  | imports => exact many (by decide) imported
  | function =>
    exact many (by decide) (Emits.read_bind fun type _ => entry (.function type) rfl rfl rfl rfl)
  | table => exact many (by decide) (Emits.read_bind fun d _ => entry (.table d) rfl rfl rfl rfl)
  | memory => exact many (by decide) (Emits.read_bind fun l _ => entry (.memory l) rfl rfl rfl rfl)
  | global => exact many (by decide) global
  | exports =>
    exact many (by decide) (Emits.read_bind fun e _ => entry (.exported e) rfl rfl rfl rfl)
  | start => exact single (Emits.read_bind fun func _ => entry (.start func) rfl rfl rfl rfl)
  | element => exact many (by decide) element
  | dataCount => exact single (Emits.read_bind fun count _ => entry (.dataCount count) rfl rfl rfl rfl)
  | code => exact many (by decide) body
  | data => exact many (by decide) data

end EmitsPieces

/-! ## Sections -/

/-- What is told, but for the places of sections. -/
def Notice.isFrame : Notice → Bool
  | frame _ => true
  | _ => false

theorem Notice.ofItems_frameless (n : Nat) (xs : List Item) : (ofItems n xs).filter (!·.isFrame) = ofItems n xs := by
  rw [List.filter_eq_self]
  induction xs generalizing n with
  | nil => nofun
  | cons x xs ih => exact List.forall_mem_cons.mpr ⟨rfl, ih _⟩

/-- A run has told pieces that may follow a section of rank `last` and leave off at the rank that it answers. -/
def Continues (last n : Nat) (told : List Notice) (rank m : Nat) : Prop :=
  ∃ ps, (∀ qs, InOrder rank qs → InOrder last (ps ++ qs)) ∧ (∀ p ∈ ps, p.trim = p) ∧
    told = Notice.ofItems n (ps.flatMap Piece.items) ∧ m = n + functionCount (ps.flatMap Piece.items)

theorem Emits.ranked (last : Nat) (id : UInt8) : Emits (fun _ C => Producer.ranked C last id) (Continues last) := by
  unfold Producer.ranked
  by_cases custom : id = 0
  · simp only [custom, if_true]
    refine (EmitsPieces.custom.bind fun _ => Emits.pure last).mono ?_
    rintro n _ rank _ ⟨_, _, _, _, rfl, ⟨_, ⟨p, rfl, here⟩, trimmed, rfl, rfl⟩, rfl, rfl, rfl⟩
    refine ⟨[p], fun qs ordered => ?_, trimmed, List.append_nil _, rfl⟩
    rw [List.singleton_append, InOrder, here]
    exact ordered
  · simp only [custom, if_false]
    cases Section.ofId? id with
    | none => exact Emits.throw _
    | some s =>
      dsimp only
      by_cases order : s.rank ≤ last
      · simp only [order, if_true]
        exact Emits.throw_bind _
      · simp only [order, if_false]
        refine ((EmitsPieces.content s).bind fun _ => Emits.pure s.rank).mono ?_
        rintro n _ rank _ ⟨_, _, _, _, rfl, ⟨ps, ⟨members, few⟩, trimmed, rfl, rfl⟩, rfl, rfl, rfl⟩
        exact ⟨ps, fun qs ordered => InOrder.append members few (Nat.lt_of_not_le order) ordered, trimmed,
          List.append_nil _, rfl⟩

theorem Emits.framed (last : Nat) (f : SectionFrame) :
    Emits (fun _ C => Producer.framed C last f) (Continues last) := by
  have filled (left rank : Nat) :
      Emits (fun _ _ =>
          if left ≠ 0 then MonadExcept.throw (.sectionSize f.id f.size left) >>= fun _ : PUnit => Pure.pure rank
          else Pure.pure rank)
        (fun n told b m => told = [] ∧ b = rank ∧ m = n) := by
    by_cases empty : left = 0
    · simp only [empty, ne_eq, not_true, if_false]
      exact Emits.pure rank
    · simp only [ne_eq, empty, not_false_eq_true, if_true]
      exact Emits.throw_bind _
  refine ((Emits.ranked last f.id).bind fun rank => Emits.unused.bind fun left => filled left rank).mono ?_
  rintro n _ _ _ ⟨rank, _, one, _, rfl, continues, _, _, _, _, rfl, ⟨rfl, rfl⟩, rfl, rfl, rfl⟩
  rwa [List.append_nil, List.append_nil]

/-- The frame of a section, what it encloses, and the sections behind it. -/
theorem ends_sections {σ : Type} (C : Consumer σ) {last : Nat} {c d content : Cursor} {t : σ} {n : Nat}
    {f : SectionFrame} (more : c.isEmpty = false) (decoded : Decoder.sectionFrame c = .ok (f, content) d) :
    ends (Producer.sections C last ⟨c, t, n⟩) =
      match ends (Producer.framed C last f ⟨content, C.frame f t, n⟩) with
      | (.ok (rank, _, m), t) => ends (Producer.sections C rank ⟨d, t, m⟩)
      | (.error e, t) => (.error e, t) := by
  rw [Producer.sections, more]
  simp only [Bool.false_eq_true, if_false]
  split
  · rename_i failed
    rw [decoded] at failed
    cases failed
  · rename_i same
    rw [decoded] at same
    cases same
    cases Producer.framed C last f ⟨content, C.frame f t, n⟩ <;> rfl

theorem ends_sections_empty {σ : Type} (C : Consumer σ) {last : Nat} {c : Cursor} {t : σ} {n : Nat}
    (empty : c.isEmpty = true) : ends (Producer.sections C last ⟨c, t, n⟩) = (.ok ((), c, n), t) := by
  rw [Producer.sections, empty]
  rfl

theorem Producer.sections_error {σ : Type} (C : Consumer σ) {last : Nat} {c d : Cursor} {t : σ} {n : Nat} {e : DecodeError}
    (more : c.isEmpty = false) (failed : Decoder.sectionFrame c = .error e d) :
    Producer.sections C last ⟨c, t, n⟩ = .error e ⟨d, t, n⟩ := by
  rw [Producer.sections, more]
  simp only [Bool.false_eq_true, if_false]
  split
  · rename_i same
    cases failed.symm.trans same
    rfl
  · rename_i decoded
    cases failed.symm.trans decoded

theorem ends_sections_error {σ : Type} (C : Consumer σ) {last : Nat} {c d : Cursor} {t : σ} {n : Nat} {e : DecodeError}
    (more : c.isEmpty = false) (failed : Decoder.sectionFrame c = .error e d) :
    ends (Producer.sections C last ⟨c, t, n⟩) = (.error e, t) := by
  rw [Producer.sections_error C more failed]
  rfl

/-- A section and those behind it. -/
theorem Tells.sections {last rank : Nat} {c d content : Cursor} {n m : Nat} {f : SectionFrame} {one two : List Notice}
    {r : Except DecodeError (Unit × Cursor × Nat)} {used : Cursor} (more : c.isEmpty = false)
    (decoded : Decoder.sectionFrame c = .ok (f, content) d)
    (first : Tells (fun _ C => Producer.framed C last f) content n one (.ok (rank, used, m)))
    (rest : Tells (fun _ C => Producer.sections C rank) d m two r) :
    Tells (fun _ C => Producer.sections C last) c n (.frame f :: one ++ two) r := by
  intro σ C t
  have framed := first σ C (C.frame f t)
  have heard : C.heard (.frame f :: one ++ two) r t = C.heard (one ++ two) r (C.frame f t) := rfl
  rw [ends_sections C more decoded, framed, heard, Consumer.heard_append]
  unfold Consumer.heard
  cases C.hearAll one (C.frame f t) with
  | ok u t => exact rest σ C t
  | error e t => rfl

theorem Tells.sections_error {last : Nat} {c d content : Cursor} {n : Nat} {f : SectionFrame} {one : List Notice}
    {e : DecodeError} (more : c.isEmpty = false) (decoded : Decoder.sectionFrame c = .ok (f, content) d)
    (first : Tells (fun _ C => Producer.framed C last f) content n one (.error e)) :
    Tells (fun _ C => Producer.sections C last) c n (.frame f :: one) (.error e) := by
  intro σ C t
  have framed := first σ C (C.frame f t)
  have heard (ρ : Type) (r : Except DecodeError ρ) : C.heard (.frame f :: one) r t = C.heard one r (C.frame f t) := rfl
  rw [ends_sections C more decoded, framed, heard]
  unfold Consumer.heard
  cases C.hearAll one (C.frame f t) <;> rfl

theorem Emits.sections (last : Nat) :
    Emits (fun _ C => Producer.sections C last) (fun n told _ m =>
      ∃ ps, InOrder last ps ∧ (∀ p ∈ ps, p.trim = p) ∧
        told.filter (!·.isFrame) = Notice.ofItems n (ps.flatMap Piece.items) ∧ m = n + functionCount (ps.flatMap Piece.items)) := by
  intro c
  induction size : c.rest.length using Nat.strongRecOn generalizing c last with
  | ind size ih =>
    intro n
    cases empty : c.isEmpty with
    | true =>
      refine ⟨[], .ok ((), c, n), fun σ C t => ends_sections_empty C empty, ?_⟩
      rintro _ _ _ ⟨⟩
      exact ⟨[], trivial, nofun, rfl, rfl⟩
    | false =>
      cases decoded : Decoder.sectionFrame c with
      | error e d => exact ⟨[], .error e, fun σ C t => ends_sections_error C empty decoded, nofun⟩
      | ok framed d =>
        obtain ⟨f, content⟩ := framed
        obtain ⟨one, r, tells, good⟩ := Emits.framed last f content n
        match r with
        | .error e => exact ⟨_, _, .sections_error empty decoded tells, nofun⟩
        | .ok (rank, used, m) =>
          obtain ⟨ps, follows, trimmed, rfl, rfl⟩ := good rank used m rfl
          obtain ⟨two, r, rest, fine⟩ := ih d.rest.length (size ▸ Decoder.sectionFrame_shrinks decoded) rank d rfl _
          refine ⟨_, r, .sections empty decoded tells rest, fun a e k same => ?_⟩
          obtain ⟨qs, ordered, others, told, rfl⟩ := fine a e k same
          refine ⟨ps ++ qs, follows qs ordered, List.forall_mem_append.mpr ⟨trimmed, others⟩, ?_, ?_⟩
          · rw [List.cons_append, List.filter_cons_of_neg (by simp [Notice.isFrame]), List.filter_append, told,
              Notice.ofItems_frameless, List.flatMap_append, Notice.ofItems_append]
          · rw [List.flatMap_append, functionCount_append, Nat.add_assoc]

/-- A module that is decoded is made of a version and of pieces in order, and all of them are told. -/
theorem Emits.produce :
    Emits (fun _ C => Producer.produce C) (fun n told _ _ => ∃ version ps, InOrder 0 ps ∧ (∀ p ∈ ps, p.trim = p) ∧
      told.filter (!·.isFrame) =
        Notice.ofItems n (.entry (.header version) :: ps.flatMap Piece.items ++ [.entry .finish])) := by
  refine Emits.read_bind fun version _ => ?_
  refine ((Emits.entry (.header version)).bind fun _ => (Emits.sections 0).bind fun _ => Emits.entry .finish).mono ?_
  rintro n _ _ _ ⟨_, _, _, _, rfl, ⟨rfl, rfl⟩, _, _, told, _, rfl, ⟨ps, ordered, trimmed, same, rfl⟩, rfl, rfl⟩
  refine ⟨version, ps, ordered, trimmed, ?_⟩
  rw [List.filter_append, List.filter_append, same, List.cons_append, Notice.ofItems, Notice.ofItems_append]
  rfl

end Binary

open Binary

/-! ## Delivery -/

namespace Consumer

variable {σ : Type} (C : Consumer σ)

theorem hearAll_frameless (silent : ∀ f t, C.frame f t = t) (told : List Notice) :
    C.hearAll told = C.hearAll (told.filter (!·.isFrame)) := by
  induction told with
  | nil => rfl
  | cons x told ih =>
    cases x with
    | frame f =>
      funext t
      show C.hearAll told (C.frame f t) = C.hearAll (told.filter _) t
      rw [silent, ih]
    | item | cut =>
      rw [hearAll, ih]
      rfl

theorem hear_item_ok_iff (funcs : List Nat) {x : Item} {s t : σ} {u : Unit} :
    C.hear (.item funcs x) s = .ok u t ↔ C.item x s = .ok u t := by
  rw [hear, EStateM.adaptExcept]
  cases C.item x s <;> simp

/-- Whoever accepts items accepts them with any numbers of functions. -/
theorem hearAll_of_items {xs : List Item} {n : Nat} {s t : σ} (accepted : C.items xs s = .ok () t) :
    C.hearAll (Notice.ofItems n xs) s = .ok () t := by
  induction xs generalizing n s with
  | nil =>
    cases accepted
    rfl
  | cons x xs ih =>
    obtain ⟨u, one, more⟩ := items_cons_ok_iff.mp accepted
    have heard := (C.hear_item_ok_iff (x.owners n)).mpr one
    rw [Notice.ofItems, hearAll, Outcome.bind_of_ok heard]
    exact ih more

theorem items_of_hearAll {xs : List Item} {n : Nat} {s t : σ}
    (heard : C.hearAll (Notice.ofItems n xs) s = .ok () t) : C.items xs s = .ok () t := by
  induction xs generalizing n s with
  | nil =>
    cases heard
    rfl
  | cons x xs ih =>
    rw [Notice.ofItems, hearAll] at heard
    obtain ⟨_, u, one, more⟩ := Outcome.bind_ok_iff.mp heard
    exact items_cons_ok_iff.mpr ⟨u, (C.hear_item_ok_iff _).mp one, ih more⟩

end Consumer

/-- What is delivered is what a module tells, and the outcome is that of the bytes unless the consumer objects. -/
theorem Binary.deliver_of_tells {bytes : List UInt8} {told : List Notice} {r : Except DecodeError (Unit × Cursor × Nat)}
    (tells : Tells (fun _ C => Producer.produce C) (.ofBytes bytes) 0 told r) {σ : Type} (C : Consumer σ) (s : σ) :
    deliver C bytes s =
      match C.hearAll told s with
      | .ok _ t => (r.map fun _ => (), t)
      | .error e t => (.error e, t) := by
  have ended : deliver C bytes s =
      ((Producer.ends (Producer.produce C ⟨.ofBytes bytes, s, 0⟩)).1.map fun _ => (),
        (Producer.ends (Producer.produce C ⟨.ofBytes bytes, s, 0⟩)).2) := by
    unfold deliver
    cases Producer.produce C ⟨.ofBytes bytes, s, 0⟩ <;> rfl
  rw [ended, tells σ C s, Consumer.heard]
  cases C.hearAll told s <;> rfl

end Wasm

import Wasm.Proofs.Binary.Producing
import Wasm.Proofs.Binary.Yields

/-! # The conduct of a producer

Whether or not the bytes can be decoded to their end, what is told up to then comes in the order of a module: sections do
not go back, those that hold one entry hold no second one, offsets and items follow the segment that they belong to,
bodies carry the index of their function, and the last instruction of an expression is the one that closes it.
-/

namespace Wasm

/-- The least rank of a section that may come after an entry of this one. -/
def Section.onward (s : Section) : Nat := if s.IsSingle ∨ s = .finish then s.rank + 1 else s.rank

theorem Section.rank_le_onward (s : Section) : s.rank ≤ s.onward := by
  unfold onward
  split
  · exact Nat.le_succ _
  · exact Nat.le_refl _

theorem Section.onward_le (s : Section) : s.onward ≤ s.rank + 1 := by
  unfold onward
  split
  · exact Nat.le_refl _
  · exact Nat.le_succ _

/-- The end of the module has no identifier. -/
theorem Section.rank_of_ofId {id : UInt8} {s : Section} (found : ofId? id = some s) : s.rank < finish.rank := by
  unfold ofId? at found
  split at found
  case h_13 => cases found
  all_goals
    cases found
    decide

namespace Binary

open Producer

/-- How far a module has been told. -/
structure Place where
  /-- The least rank of a section that may follow. -/
  next : Nat := 0
  /-- How many functions were imported or given a body. -/
  functions : Nat := 0
  /-- The last element segment is active and its offset was not told yet. -/
  offset : Bool := false
  /-- The items of the last element segment are expressions. -/
  items : Bool := false
  /-- The last data segment is active and its offset was not told yet. -/
  dataOffset : Bool := false

namespace Place

/-- The item may come next; a custom section may stand anywhere before the end. -/
def Admits (p : Place) (x : Item) : Prop :=
  p.next ≤ (x.section?.getD .finish).rank ∧
    match x with
    | .expr .elementOffset _ => p.offset = true
    | .expr .elementItem _ => p.items = true
    | .expr .dataOffset _ => p.dataOffset = true
    | _ => True

/-- The place behind an item. -/
def pass (p : Place) (x : Item) : Place where
  next := (x.section?.map Section.onward).getD p.next
  functions := p.functions + x.functions
  offset :=
    match x with
    | .entry (.element s) => s.mode.isActive
    | .expr .elementOffset _ => false
    | _ => p.offset
  items :=
    match x with
    | .entry (.element s) => s.init = .expressions
    | _ => p.items
  dataOffset :=
    match x with
    | .entry (.data s) => s.mode.isActive
    | .expr .dataOffset _ => false
    | _ => p.dataOffset

/-- A notice that may come next. An item is told whole, and an expression that breaks off is not closed. -/
def Allows (p : Place) : Notice → Prop
  | .item funcs x => funcs = x.owners p.functions ∧ p.Admits x ∧ ∀ site body, x = .expr site body → Decoded 0 body true
  | .cut funcs site body =>
    funcs = Item.owners p.functions (.expr site body) ∧ p.Admits (.expr site body) ∧ Decoded 0 body false
  | .frame _ => True

def after (p : Place) : Notice → Place
  | .item _ x => p.pass x
  | .cut _ site body => p.pass (.expr site body)
  | .frame _ => p

/-- The place behind all that is told. -/
def along (p : Place) (told : List Notice) : Place := told.foldl after p

/-- Every notice may come where it comes. -/
def Orderly : Place → List Notice → Prop
  | _, [] => True
  | p, x :: xs => p.Allows x ∧ Orderly (p.after x) xs

theorem Orderly.append {p : Place} {xs ys : List Notice} (first : p.Orderly xs) (second : (p.along xs).Orderly ys) :
    p.Orderly (xs ++ ys) := by
  induction xs generalizing p with
  | nil => exact second
  | cons x xs ih => exact ⟨first.1, ih first.2 second⟩

theorem along_append (p : Place) (xs ys : List Notice) : p.along (xs ++ ys) = (p.along xs).along ys :=
  List.foldl_append

/-- Where a site leads to does not depend on the expression there. -/
theorem pass_expr (p : Place) (site : Site) (body : List Instruction) :
    p.pass (.expr site body) = p.pass (.expr site []) := by
  cases site <;> rfl

end Place

variable {α β : Type}

/-- A run from a place in the module and one in the bytes: what is told is orderly, the producer's own error is a fault of
the bytes, and if there is none, the functions told were counted and the place that is reached is as described. -/
def ProceedsAt (P : Speaker α) (p : Place) (Φ : α → Place → Prop) (c : Cursor) : Prop :=
  ∃ told r, Tells P c p.functions told r ∧ p.Orderly told ∧ (∀ e, r = .error e → e.IsFault) ∧
    ∀ a d m, r = .ok (a, d, m) → m = (p.along told).functions ∧ Φ a (p.along told)

def Proceeds (P : Speaker α) (p : Place) (Φ : α → Place → Prop) : Prop := ∀ c, ProceedsAt P p Φ c

namespace Proceeds

variable {P : Speaker α} {Q : α → Speaker β} {p : Place} {Φ : α → Place → Prop} {Ψ : β → Place → Prop}

theorem mono {Φ' : α → Place → Prop} (proceeds : Proceeds P p Φ) (weaker : ∀ a q, Φ a q → Φ' a q) :
    Proceeds P p Φ' := by
  intro c
  obtain ⟨told, r, tells, orderly, fault, good⟩ := proceeds c
  refine ⟨told, r, tells, orderly, fault, fun a d m same => ?_⟩
  obtain ⟨count, held⟩ := good a d m same
  exact ⟨count, weaker a _ held⟩

/-- A run that succeeds and tells a list of notices. -/
theorem of_tells {c : Cursor} {a : α} {d : Cursor} {m : Nat} {told : List Notice}
    (tells : Tells P c p.functions told (.ok (a, d, m))) (orderly : p.Orderly told)
    (count : m = (p.along told).functions) (held : Φ a (p.along told)) : ProceedsAt P p Φ c := by
  refine ⟨told, _, tells, orderly, ?_, ?_⟩
  · intro e failed
    cases failed
  · rintro _ _ _ ⟨⟩
    exact ⟨count, held⟩

/-- A run that fails for a fault of the bytes. -/
theorem of_fault {c : Cursor} {e : DecodeError} {told : List Notice} (tells : Tells P c p.functions told (.error e))
    (orderly : p.Orderly told) (fault : e.IsFault) : ProceedsAt P p Φ c := by
  refine ⟨told, _, tells, orderly, ?_, ?_⟩
  · rintro _ ⟨⟩
    exact fault
  · intro a d m done
    cases done

theorem pure {a : α} (held : Φ a p) : Proceeds (fun _ _ => Pure.pure a) p Φ :=
  fun c => of_tells (.pure a c _) trivial rfl held

theorem throw {e : DecodeError} (fault : e.IsFault) : Proceeds (fun _ _ => MonadExcept.throw e) p Φ :=
  fun c => of_fault (.throw e c _) trivial fault

theorem bind (first : Proceeds P p Φ) (second : ∀ a q, Φ a q → Proceeds (Q a) q Ψ) :
    Proceeds (fun σ C => P σ C >>= fun a => Q a σ C) p Ψ := by
  intro c
  obtain ⟨one, r, tells, orderly, fault, good⟩ := first c
  cases r with
  | error e => exact of_fault tells.bind_error orderly (fault e rfl)
  | ok done =>
    obtain ⟨a, d, m⟩ := done
    obtain ⟨rfl, held⟩ := good a d m rfl
    obtain ⟨two, r, more, orderly', fault', good'⟩ := second a _ held d
    refine ⟨one ++ two, r, tells.bind more, orderly.append orderly', fault', fun b e k same => ?_⟩
    rw [Place.along_append]
    exact good' b e k same

theorem read_bind {m : Decoder α} {good : α → Prop} (yields : Yields m good)
    (second : ∀ a, good a → Proceeds (Q a) p Ψ) :
    Proceeds (fun σ C => Producer.read m >>= fun a => Q a σ C) p Ψ := by
  intro c
  cases decoded : m c with
  | error e d => exact of_fault (Tells.read_error decoded).bind_error trivial (yields.fault c e d decoded)
  | ok a d =>
    obtain ⟨told, r, tells, rest⟩ := second a (yields.result c a d decoded) d
    exact ⟨told, r, (Tells.read_ok decoded).bind tells, rest⟩

theorem unused : Proceeds (fun _ _ => Producer.unused) p fun _ q => q = p :=
  fun c => of_tells (.unused c _) trivial rfl rfl

/-- An item that is no body. -/
theorem item {x : Item} (plain : x.functions = 0) (admits : p.Admits x)
    (whole : ∀ site body, x = .expr site body → Decoded 0 body true) :
    Proceeds (fun _ C => tell (C.item x)) p fun _ q => q = p.pass x := by
  intro c
  refine of_tells (.item x c _) ⟨⟨(Item.owners_of_functions plain _).symm, admits, whole⟩, trivial⟩ ?_ rfl
  show p.functions = p.functions + x.functions
  rw [plain, Nat.add_zero]

theorem entry {e : Entry} (plain : Item.functions (.entry e) = 0) (admits : p.Admits (.entry e)) :
    Proceeds (fun _ C => Producer.entry C e) p fun _ q => q = p.pass (.entry e) :=
  item plain admits fun _ _ same => by cases same

/-- An expression that is no body. -/
theorem expression {site : Site} (plain : Item.functions (.expr site []) = 0) (admits : p.Admits (.expr site [])) :
    Proceeds (fun _ C => Producer.expression C site) p fun _ q => q = p.pass (.expr site []) := by
  intro c
  have owners (body : List Instruction) : [] = Item.owners p.functions (.expr site body) := by
    cases site with
    | code locals => cases plain
    | _ => rfl
  have admits (body : List Instruction) : p.Admits (.expr site body) := by
    cases site <;> exact admits
  cases decoded : Decoder.expression c with
  | ok body d =>
    refine of_tells (.expression_ok decoded) ⟨⟨owners _, admits _, ?_⟩, trivial⟩ ?_ (p.pass_expr site _)
    · rintro _ _ ⟨⟩
      exact decoded_of_expression decoded
    · show p.functions = (p.pass (.expr site _)).functions
      rw [Place.pass_expr]
      show p.functions = p.functions + _
      rw [plain, Nat.add_zero]
  | error e d =>
    obtain ⟨is, part, tells⟩ := Tells.expression_error (x := site) (n := p.functions) decoded
    exact of_fault tells ⟨⟨owners is, admits is, part⟩, trivial⟩ (Yields.expression.fault c e d decoded)

/-- Entries each of which keeps to what holds of the place. -/
theorem times {P : Speaker Unit} {inv : Place → Prop} (each : ∀ q, inv q → Proceeds P q fun _ q' => inv q') (count : Nat)
    (held : inv p) : Proceeds (fun σ C => Producer.times (P σ C) count) p fun _ q => inv q := by
  induction count generalizing p with
  | zero =>
    intro c
    have silent : Tells (fun σ C => Producer.times (P σ C) 0) c p.functions [] (.ok ((), c, p.functions)) :=
      fun _ _ _ => rfl
    exact of_tells silent trivial rfl held
  | succ count ih =>
    simp only [times_succ]
    exact (each p held).bind fun _ q held => ih held

theorem entries {P : Speaker Unit} {inv : Place → Prop} (each : ∀ q, inv q → Proceeds P q fun _ q' => inv q')
    (held : inv p) : Proceeds (fun σ C => Producer.entries (P σ C)) p fun _ q => inv q :=
  read_bind (.read Reader.count) fun count _ => times each count held

/-! ## Entries -/

/-- An entry of a section that may come next. -/
theorem placed {s : Section} {e : Entry} (here : Item.section? (.entry e) = some s)
    (plain : Item.functions (.entry e) = 0) (place : p.next ≤ s.rank) :
    Proceeds (fun _ C => Producer.entry C e) p fun _ q => q.next = s.onward := by
  refine (entry plain ⟨?_, trivial⟩).mono ?_
  · rw [here]
    exact place
  · rintro _ _ rfl
    show ((Item.section? (.entry e)).map Section.onward).getD p.next = s.onward
    rw [here]
    rfl

theorem custom (place : p.next ≤ Section.finish.rank) :
    Proceeds (fun _ C => Producer.custom C) p fun _ q => q.next = p.next := by
  refine read_bind (.read Reader.text) fun name _ => read_bind (.read Reader.all) fun payload _ => ?_
  refine (entry rfl ⟨place, trivial⟩).mono ?_
  rintro _ _ rfl
  rfl

theorem imported (place : p.next ≤ Section.imports.rank) :
    Proceeds (fun _ C => Producer.imported C) p fun _ q => q.next = Section.imports.onward := by
  refine read_bind Yields.imported fun i _ => ?_
  obtain ⟨source, name, desc⟩ := i
  cases desc with
  | function type =>
    intro c
    have orderly : p.Orderly [.item [] (.entry (.imported ⟨source, name, .function type⟩))] :=
      ⟨⟨rfl, ⟨place, trivial⟩, fun _ _ same => by cases same⟩, trivial⟩
    exact of_tells ((Tells.takeFunction c _).bind (.entry _ c _)) orderly rfl rfl
  | table d | memory l | global d => exact placed rfl rfl place

theorem global (place : p.next ≤ Section.global.rank) :
    Proceeds (fun _ C => Producer.global C) p fun _ q => q.next = Section.global.onward := by
  refine read_bind Yields.globalDecl fun d _ => (expression rfl ⟨place, trivial⟩).mono ?_
  rintro _ _ rfl
  rfl

/-- Items are told if they are expressions, and then the segment has announced them. -/
theorem elementItems {init : ElementInit} (place : p.next ≤ Section.element.rank)
    (announced : p.items = decide (init = .expressions)) :
    Proceeds (fun _ C => if init = .expressions then Producer.entries (Producer.expression C .elementItem) else Pure.pure ())
      p fun _ q => q.next ≤ Section.element.rank := by
  by_cases exprs : init = .expressions
  · simp only [exprs, if_true]
    have held : p.next ≤ Section.element.rank ∧ p.items = true := ⟨place, by rw [announced, decide_eq_true exprs]⟩
    have each (q : Place) (held : q.next ≤ Section.element.rank ∧ q.items = true) :
        Proceeds (fun _ C => Producer.expression C .elementItem) q
          fun _ q' => q'.next ≤ Section.element.rank ∧ q'.items = true := by
      refine (expression rfl ⟨held.1, held.2⟩).mono ?_
      rintro _ _ rfl
      exact ⟨Nat.le_refl _, held.2⟩
    exact (entries each held).mono fun _ _ held => held.1
  · simp only [exprs, if_false]
    exact .pure place

theorem element (place : p.next ≤ Section.element.rank) :
    Proceeds (fun _ C => Producer.element C) p fun _ q => q.next ≤ Section.element.rank := by
  refine read_bind Yields.element fun found whole => ?_
  obtain ⟨segment, offset⟩ := found
  refine (entry rfl ⟨place, trivial⟩).bind ?_
  rintro _ _ rfl
  cases active : segment.mode.isActive with
  | true =>
    simp only [if_true]
    have pending : (p.pass (.entry (.element segment))).Admits (.expr .elementOffset offset.toList) :=
      ⟨Nat.le_refl _, active⟩
    refine (item rfl pending ?_).bind ?_
    · rintro _ _ ⟨⟩
      exact whole active
    · rintro _ _ rfl
      exact elementItems (Nat.le_refl _) rfl
  | false =>
    simp only [Bool.false_eq_true, if_false]
    exact elementItems (Nat.le_refl _) rfl

/-- What is told inside the frame of a body: nothing if its locals cannot be decoded, and otherwise its expression. -/
inductive InFrame (n : Nat) : List Notice → Except DecodeError (Unit × Cursor × Nat) → Prop where
  | nothing {e : DecodeError} (fault : e.IsFault) : InFrame n [] (.error e)
  | whole {r : Except DecodeError (Unit × Cursor × Nat)} (locals : List LocalDecl) (body : List Instruction)
      (whole : Decoded 0 body true) (fault : ∀ e, r = .error e → e.IsFault) (count : ∀ a d m, r = .ok (a, d, m) → m = n) :
      InFrame n [.item [] (.expr (.code locals) body)] r
  | part {locals : List LocalDecl} {body : List Instruction} {e : DecodeError} (part : Decoded 0 body false)
      (fault : e.IsFault) : InFrame n [.cut [] (.code locals) body] (.error e)

/-- Bytes behind the expression of a body are a fault; the expression was told by then. -/
theorem noneLeft (left : Nat) (d : Cursor) (n : Nat) :
    ∃ r, Tells (fun _ _ => if left ≠ 0 then MonadExcept.throw (.malformed (.bodySize left)) else Pure.pure ()) d n [] r ∧
      (∀ e, r = .error e → e.IsFault) ∧ ∀ (a : Unit) d m, r = .ok (a, d, m) → m = n := by
  by_cases empty : left = 0
  · simp only [empty, ne_eq, not_true, if_false]
    refine ⟨_, .pure () d n, ?_, ?_⟩
    · intro e failed
      cases failed
    · rintro _ _ _ ⟨⟩
      rfl
  · simp only [ne_eq, empty, not_false_eq_true, if_true]
    refine ⟨_, .throw _ d n, ?_, ?_⟩
    · rintro _ ⟨⟩
      trivial
    · intro a d m done
      cases done

theorem bodyContent (c : Cursor) (n : Nat) :
    ∃ told r, Tells (fun _ C => Producer.bodyContent C) c n told r ∧ InFrame n told r := by
  cases decoded : Decoder.locals c with
  | error e d => exact ⟨_, _, (Tells.read_error decoded).bind_error, .nothing (Yields.locals.fault c e d decoded)⟩
  | ok locals d =>
    cases found : Decoder.expression d with
    | error e d' =>
      obtain ⟨is, part, tells⟩ := Tells.expression_error (x := .code locals) (n := n) found
      exact ⟨_, _, (Tells.read_ok decoded).bind tells.bind_error, .part part (Yields.expression.fault d e d' found)⟩
    | ok body d' =>
      have whole := decoded_of_expression found
      obtain ⟨r, last, fault, count⟩ := noneLeft d'.remaining d' n
      exact ⟨_, _, (Tells.read_ok decoded).bind ((Tells.expression_ok found).bind ((Tells.unused d' n).bind last)),
        .whole locals _ whole fault count⟩

theorem InFrame.within {n : Nat} {told : List Notice} {r : Except DecodeError (Unit × Cursor × Nat)}
    (inside : InFrame n told r) (c : Cursor) : InFrame n told (r.map fun (a, _, m) => (a, c, m)) := by
  cases inside with
  | nothing fault => exact .nothing fault
  | part part fault => exact .part part fault
  | whole locals body whole fault count =>
    refine .whole locals body whole ?_ ?_
    · intro e failed
      cases r with
      | error e' => cases failed; exact fault e rfl
      | ok done => cases failed
    · intro a d m done
      cases r with
      | error e => cases done
      | ok found => cases done; exact count _ _ _ rfl

theorem framedBody (c : Cursor) (n : Nat) :
    ∃ told r, Tells (fun _ C => Producer.framedBody C) c n told r ∧ InFrame n told r := by
  cases sized : (liftM Reader.u32 : Decoder UInt32) c with
  | error e d => exact ⟨_, _, (Tells.read_error sized).bind_error, .nothing ((Yields.read _).fault c e d sized)⟩
  | ok size d =>
    cases enclosed : (liftM (Reader.frame size.toNat) : Decoder Cursor) d with
    | error e d' =>
      exact ⟨_, _, (Tells.read_ok sized).bind (Tells.read_error enclosed).bind_error,
        .nothing ((Yields.read _).fault d e d' enclosed)⟩
    | ok content d' =>
      obtain ⟨told, r, tells, inside⟩ := bodyContent content n
      exact ⟨_, _, (Tells.read_ok sized).bind ((Tells.read_ok enclosed).bind (tells.within d')), inside.within d'⟩

/-- An objection to a part of a body names the function, whose index is the next one. -/
theorem body (place : p.next ≤ Section.code.rank) :
    Proceeds (fun _ C => Producer.body C) p fun _ q => q.next = Section.code.onward := by
  intro c
  obtain ⟨told, r, tells, inside⟩ := framedBody c (p.functions + 1)
  have told : Tells (fun _ C => Producer.body C) c p.functions (told.map (Notice.inBody p.functions))
      (r.mapError (DecodeError.inFunction p.functions)) :=
    (Tells.takeFunction c p.functions).bind (tells.inBody p.functions)
  cases inside with
  | nothing fault =>
    refine of_fault told trivial ?_
    rwa [fault.inFunction]
  | part part fault =>
    refine of_fault told ⟨⟨rfl, ⟨place, trivial⟩, part⟩, trivial⟩ ?_
    rwa [fault.inFunction]
  | whole locals body whole fault count =>
    have orderly : p.Orderly [.item [p.functions] (.expr (.code locals) body)] := by
      refine ⟨⟨rfl, ⟨place, trivial⟩, ?_⟩, trivial⟩
      rintro _ _ ⟨⟩
      exact whole
    cases r with
    | error e =>
      refine of_fault told orderly ?_
      rw [(fault e rfl).inFunction]
      exact fault e rfl
    | ok done =>
      obtain ⟨_, d, m⟩ := done
      exact of_tells told orderly (count _ _ _ rfl) rfl

theorem data (place : p.next ≤ Section.data.rank) :
    Proceeds (fun _ C => Producer.data C) p fun _ q => q.next = Section.data.onward := by
  refine read_bind Yields.data fun found whole => ?_
  obtain ⟨segment, offset⟩ := found
  refine (entry rfl ⟨place, trivial⟩).bind ?_
  rintro _ _ rfl
  cases active : segment.mode.isActive with
  | true =>
    simp only [if_true]
    have pending : (p.pass (.entry (.data segment))).Admits (.expr .dataOffset offset.toList) :=
      ⟨Nat.le_refl _, active⟩
    refine (item rfl pending ?_).mono ?_
    · rintro _ _ ⟨⟩
      exact whole active
    · rintro _ _ rfl
      rfl
  | false =>
    simp only [Bool.false_eq_true, if_false]
    exact .pure rfl

/-! ## Sections -/

/-- Behind the content of a section, only sections of a higher rank may follow. -/
theorem content {s : Section} (place : p.next ≤ s.rank) :
    Proceeds (fun _ C => Producer.content C s) p fun _ q => q.next ≤ s.rank + 1 := by
  have many {P : Speaker Unit} (each : ∀ q : Place, q.next ≤ s.rank → Proceeds P q fun _ q' => q'.next ≤ s.rank) :
      Proceeds (fun σ C => Producer.entries (P σ C)) p fun _ q => q.next ≤ s.rank + 1 :=
    (entries each place).mono fun _ _ held => Nat.le_succ_of_le held
  have kept {P : Speaker Unit} {q : Place} (proceeds : Proceeds P q fun _ q' => q'.next = s.onward)
      (several : s.onward = s.rank) : Proceeds P q fun _ q' => q'.next ≤ s.rank :=
    proceeds.mono fun _ _ same => Nat.le_of_eq (same.trans several)
  have single {P : Speaker Unit} (proceeds : Proceeds P p fun _ q => q.next = s.onward) :
      Proceeds P p fun _ q => q.next ≤ s.rank + 1 :=
    proceeds.mono fun _ _ same => same ▸ s.onward_le
  cases s with
  | header | finish => exact .pure (Nat.le_succ_of_le place)
  | type => exact many fun q place => read_bind Yields.funcDecl fun d _ => kept (placed rfl rfl place) rfl
  | imports => exact many fun q place => kept (imported place) rfl
  | function =>
    exact many fun q place => read_bind (.read Reader.u32) fun type _ => kept (placed rfl rfl place) rfl
  | table => exact many fun q place => read_bind Yields.tableDecl fun d _ => kept (placed rfl rfl place) rfl
  | memory => exact many fun q place => read_bind Yields.limits fun l _ => kept (placed rfl rfl place) rfl
  | global => exact many fun q place => kept (global place) rfl
  | exports => exact many fun q place => read_bind Yields.exported fun e _ => kept (placed rfl rfl place) rfl
  | start => exact read_bind (.read Reader.u32) fun func _ => single (placed rfl rfl place)
  | element => exact many fun q place => element place
  | dataCount => exact read_bind (.read Reader.u32) fun count _ => single (placed rfl rfl place)
  | code => exact many fun q place => kept (body place) rfl
  | data => exact many fun q place => kept (data place) rfl

/-- After a section of rank `last`, only sections of a higher rank may follow, but for the end of the module. -/
structure Behind (last : Nat) (p : Place) : Prop where
  place : p.next ≤ last + 1
  open_ : last < Section.finish.rank

theorem ranked {last : Nat} (id : UInt8) (behind : Behind last p) :
    Proceeds (fun _ C => Producer.ranked C last id) p Behind := by
  unfold Producer.ranked
  by_cases isCustom : id = 0
  · simp only [isCustom, if_true]
    have place : p.next ≤ Section.finish.rank := behind.place.trans behind.open_
    refine (custom place).bind fun _ q same => .pure ⟨?_, behind.open_⟩
    rw [same]
    exact behind.place
  · simp only [isCustom, if_false]
    cases found : Section.ofId? id with
    | none => exact .throw trivial
    | some s =>
      dsimp only
      by_cases order : s.rank ≤ last
      · simp only [order, if_true]
        exact fun c => of_fault (Tells.throw _ c _).bind_error trivial trivial
      · simp only [order, if_false]
        have place : p.next ≤ s.rank := behind.place.trans (Nat.lt_of_not_le order)
        exact (content place).bind fun _ q place => .pure ⟨place, Section.rank_of_ofId found⟩

theorem framed {last : Nat} (f : SectionFrame) (behind : Behind last p) :
    Proceeds (fun _ C => Producer.framed C last f) p Behind := by
  refine (ranked f.id behind).bind fun rank q behind => unused.bind ?_
  rintro left _ rfl
  by_cases empty : left = 0
  · simp only [empty, ne_eq, not_true, if_false]
    exact .pure behind
  · simp only [ne_eq, empty, not_false_eq_true, if_true]
    exact fun c => of_fault (Tells.throw _ c _).bind_error trivial trivial

theorem sections {last : Nat} (behind : Behind last p) :
    Proceeds (fun _ C => Producer.sections C last) p fun _ q => q.next ≤ Section.finish.rank := by
  intro c
  induction size : c.rest.length using Nat.strongRecOn generalizing c last p with
  | ind size ih =>
    cases empty : c.isEmpty with
    | true =>
      have silent : Tells (fun _ C => Producer.sections C last) c p.functions [] (.ok ((), c, p.functions)) :=
        fun σ C t => ends_sections_empty C empty
      exact of_tells silent trivial rfl (behind.place.trans behind.open_)
    | false =>
      cases decoded : Decoder.sectionFrame c with
      | error e d =>
        have silent : Tells (fun _ C => Producer.sections C last) c p.functions [] (.error e) :=
          fun σ C t => ends_sections_error C empty decoded
        exact of_fault silent trivial (Yields.sectionFrame.fault c e d decoded)
      | ok enclosed d =>
        obtain ⟨f, content⟩ := enclosed
        obtain ⟨one, r, tells, orderly, fault, good⟩ := framed f behind content
        cases r with
        | error e => exact of_fault (.sections_error empty decoded tells) ⟨trivial, orderly⟩ (fault e rfl)
        | ok done =>
          obtain ⟨rank, used, m⟩ := done
          obtain ⟨rfl, behind⟩ := good rank used m rfl
          obtain ⟨two, r, rest, orderly', fault', good'⟩ :=
            ih d.rest.length (size ▸ Decoder.sectionFrame_shrinks decoded) behind d rfl
          refine ⟨_, r, .sections empty decoded tells rest, ⟨trivial, orderly.append orderly'⟩, fault', ?_⟩
          intro a e k same
          have along : p.along (.frame f :: one ++ two) = (p.along one).along two := Place.along_append p one two
          rw [along]
          exact good' a e k same

/-- A whole module, from its header to its end. -/
theorem produce : Proceeds (fun _ C => Producer.produce C) {} fun _ _ => True := by
  refine read_bind Yields.header fun version _ => (entry rfl ⟨Nat.le_refl _, trivial⟩).bind ?_
  rintro _ _ rfl
  have behind : Behind 0 (Place.pass {} (.entry (.header version))) := ⟨Nat.zero_le _, by decide⟩
  exact (sections behind).bind fun _ q place => (entry rfl ⟨place, trivial⟩).mono fun _ _ _ => trivial

end Proceeds

end Binary

end Wasm

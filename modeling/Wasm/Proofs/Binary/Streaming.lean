import Wasm.Proofs.Binary.Telling

/-! # Expressions as they are decoded, and afterwards

An expression may be told to a consumer while it is decoded, or be decoded as a whole and told then. If it can be
decoded, the two cannot be told apart; if it cannot, the consumer is told what comes before the fault.
-/

namespace Wasm

open Binary

namespace Consumer

/-- The beginning of an expression comes before the rest of it. -/
theorem feed_append {σ : Type} (C : Consumer σ) (is rest : List Instruction) :
    C.feed (is ++ rest) = (C.feedOpen is >>= fun _ => C.feed rest) := by
  induction is with
  | nil => rfl
  | cons i is ih => rw [List.cons_append, feed_cons, feedOpen, bind_assoc, ih]

/-- The consumer that keeps the instructions it is told. -/
def collector : Consumer Expr where
  entry _ := pure ()
  site _ := pure true
  instruction i := modify (·.push i)
  exprEnd := pure ()

theorem collector_feedOpen (is : List Instruction) (kept : Expr) :
    collector.feedOpen is kept = .ok () (kept ++ is.toArray) := by
  induction is generalizing kept with
  | nil => exact congrArg (EStateM.Result.ok ()) Array.append_empty.symm
  | cons i is ih =>
    have joined : kept.push i ++ is.toArray = kept ++ (i :: is).toArray := by simp
    rw [← joined]
    exact ih (kept.push i)

theorem collector_feed (is : List Instruction) (kept : Expr) :
    collector.feed is kept = .ok () (kept ++ is.toArray) := by
  rw [feed_eq, Outcome.bind_of_ok (collector_feedOpen is kept)]
  rfl

end Consumer

namespace Binary

namespace Decoder

/-- Instructions that are decoded one after the other, from one place to another, none of which closes the expression.
There are `depth` open blocks before them and `inner` after them. -/
inductive Runs : (depth : Nat) → Cursor → List Instruction → (inner : Nat) → Cursor → Prop where
  | none (depth : Nat) (c : Cursor) : Runs depth c [] depth c
  | more {i : Instruction} {is : List Instruction} {depth next inner : Nat} {c c' d : Cursor}
      (decoded : instruction c = .ok i c') (goes : i.nesting depth = some next) (rest : Runs next c' is inner d) :
      Runs depth c (i :: is) inner d

/-- Instructions can be decoded up to a place where the expression is closed, or where there is no instruction. -/
theorem exists_runs (depth : Nat) (c : Cursor) :
    ∃ is inner d, Runs depth c is inner d ∧ ∀ i e, instruction d = .ok i e → i.nesting inner = .none := by
  induction length : c.rest.length using Nat.strong_induction_on generalizing depth c with
  | h bytes ih =>
    cases first : instruction c with
    | error e d =>
      refine ⟨[], depth, c, .none depth c, ?_⟩
      intro i d' decoded
      rw [first] at decoded
      cases decoded
    | ok i c' =>
      have shrinks := instruction_shrinks first
      cases nested : i.nesting depth with
      | none =>
        refine ⟨[], depth, c, .none depth c, ?_⟩
        intro j d' decoded
        rw [first] at decoded
        cases decoded
        exact nested
      | some next =>
        obtain ⟨is, inner, d, runs, stops⟩ := ih _ (length ▸ shrinks) next c' rfl
        exact ⟨i :: is, inner, d, .more first nested runs, stops⟩

/-- Instructions are put behind those that came before them. -/
theorem Runs.expressionOnto {depth inner : Nat} {is : List Instruction} {c d : Cursor} (runs : Runs depth c is inner d)
    (before : Expr) :
    Decoder.expressionOnto depth before c = Decoder.expressionOnto inner (before ++ is.toArray) d := by
  induction runs generalizing before with
  | none depth c => rw [Array.append_empty]
  | @more i is depth next inner c c' d decoded goes rest ih =>
    have joined : before.push i ++ is.toArray = before ++ (i :: is).toArray := by simp
    rw [expressionOnto_ok decoded, goes]
    dsimp only
    rw [ih, joined]

end Decoder

namespace Producer

variable {σ : Type} {C : Consumer σ} {takes : Bool} {t : σ} {n : Nat}

/-- A run in which the consumer is told `m`. It ends as given if the consumer accepts all of that, and otherwise with
its objection. -/
def Answers (ran : EStateM.Result DecodeError (Session σ) Unit) (m : Step σ Unit) (t : σ) (n : Nat)
    (accepted : σ → EStateM.Result DecodeError (Session σ) Unit) : Prop :=
  match m t with
  | .ok _ t => ran = accepted t
  | .error v t => ∃ d, ran = .error (.violation v) ⟨d, t, n⟩

/-- A part that is told before the rest. -/
theorem Answers.bind {ran : EStateM.Result DecodeError (Session σ) Unit} {first second : Step σ Unit}
    {between accepted : σ → EStateM.Result DecodeError (Session σ) Unit}
    (begins : Answers ran (tellIf takes first) t n between)
    (continues : ∀ t, Answers (between t) (tellIf takes second) t n accepted) :
    Answers ran (tellIf takes (first >>= fun _ => second)) t n accepted := by
  cases takes with
  | false =>
    have here : ran = between t := begins
    rw [here]
    exact continues t
  | true =>
    simp only [tellIf, if_true] at begins continues ⊢
    unfold Answers at begins ⊢
    cases told : first t with
    | error v t' =>
      rw [told] at begins
      rw [Outcome.bind_of_error told]
      exact begins
    | ok u t' =>
      rw [told] at begins
      rw [Outcome.bind_of_ok told, begins]
      exact continues t'

theorem Answers.tell (m : Step σ Unit) (d : Cursor) (t : σ) (n : Nat) :
    Answers (Producer.tell m ⟨d, t, n⟩) m t n fun t => .ok () ⟨d, t, n⟩ := by
  unfold Answers Producer.tell
  dsimp only
  cases m t with
  | ok u t => rfl
  | error v t => exact ⟨d, rfl⟩

/-- One instruction is decoded, told, and then counted. -/
theorem Answers.instruction {i : Instruction} {c d : Cursor} (depth : Nat)
    (decoded : Decoder.instruction c = .ok i d) (t : σ) :
    Answers (expressionFrom C takes depth ⟨c, t, n⟩) (tellIf takes (C.instruction i)) t n fun t =>
      match i.nesting depth with
      | some inner => expressionFrom C takes inner ⟨d, t, n⟩
      | none => Producer.tell (tellIf takes C.exprEnd) ⟨d, t, n⟩ := by
  rw [expressionFrom_ok takes depth decoded]
  unfold Answers
  dsimp only
  cases tellIf takes (C.instruction i) t with
  | ok u t => rfl
  | error v t => exact ⟨d, rfl⟩

/-- Instructions that do not close the expression are told, and the rest is decoded behind them. -/
theorem Answers.runs {depth inner : Nat} {is : List Instruction} {c d : Cursor} (runs : Decoder.Runs depth c is inner d)
    (t : σ) :
    Answers (expressionFrom C takes depth ⟨c, t, n⟩) (tellIf takes (C.feedOpen is)) t n fun t =>
      expressionFrom C takes inner ⟨d, t, n⟩ := by
  induction runs generalizing t with
  | none depth c => cases takes <;> rfl
  | more decoded goes rest ih =>
    refine (Answers.instruction _ decoded t).bind fun t => ?_
    rw [goes]
    exact ih t

/-- The instructions up to the one that closes the expression, and its end. -/
theorem Answers.closed {depth inner : Nat} {is : List Instruction} {i : Instruction} {c stop d : Cursor}
    (runs : Decoder.Runs depth c is inner stop) (decoded : Decoder.instruction stop = .ok i d)
    (closes : i.nesting inner = none) (t : σ) :
    Answers (expressionFrom C takes depth ⟨c, t, n⟩) (tellIf takes (C.feed (is ++ [i]))) t n fun t =>
      .ok () ⟨d, t, n⟩ := by
  rw [C.feed_append, C.feed_cons]
  refine (Answers.runs runs t).bind fun t => (Answers.instruction inner decoded t).bind fun t => ?_
  rw [closes]
  exact .tell _ d t n

/-- The instructions up to a fault. -/
theorem Answers.broken {depth inner : Nat} {is : List Instruction} {e : DecodeError} {c stop d : Cursor}
    (runs : Decoder.Runs depth c is inner stop) (failed : Decoder.instruction stop = .error e d) (t : σ) :
    Answers (expressionFrom C takes depth ⟨c, t, n⟩) (tellIf takes (C.feedOpen is)) t n fun t =>
      .error e ⟨d, t, n⟩ := by
  have ended : (fun t => expressionFrom C takes inner ⟨stop, t, n⟩) = fun t => .error e ⟨d, t, n⟩ :=
    funext fun t => expressionFrom_error failed
  rw [← ended]
  exact .runs runs t

/-! ## Buffering -/

/-- An expression that can be decoded is told as if it had been decoded before. -/
theorem Answers.expression {body : Expr} {c d : Cursor} (decoded : Decoder.expression c = .ok body d) (takes : Bool)
    (t : σ) (n : Nat) :
    Answers (expressionFrom C takes 0 ⟨c, t, n⟩) (tellIf takes (C.feed body.toList)) t n fun t => .ok () ⟨d, t, n⟩ := by
  obtain ⟨is, inner, stop, runs, stops⟩ := Decoder.exists_runs 0 c
  rw [Decoder.expression, runs.expressionOnto] at decoded
  cases last : Decoder.instruction stop with
  | error e d' =>
    rw [Decoder.expressionOnto_error last] at decoded
    cases decoded
  | ok i d' =>
    rw [Decoder.expressionOnto_ok last, stops i d' last] at decoded
    cases decoded
    have list : ((#[] ++ is.toArray).push i).toList = is ++ [i] := by simp
    rw [list]
    exact .closed runs last (stops i _ last) t

/-- Of an expression that cannot be decoded, what comes before the fault is told. -/
theorem Answers.fault {e : DecodeError} {c d : Cursor} (failed : Decoder.expression c = .error e d) (takes : Bool)
    (t : σ) (n : Nat) :
    ∃ is inner stop, Decoder.Runs 0 c is inner stop ∧ Decoder.instruction stop = .error e d ∧
      Answers (expressionFrom C takes 0 ⟨c, t, n⟩) (tellIf takes (C.feedOpen is)) t n fun t => .error e ⟨d, t, n⟩ := by
  obtain ⟨is, inner, stop, runs, stops⟩ := Decoder.exists_runs 0 c
  rw [Decoder.expression, runs.expressionOnto] at failed
  cases last : Decoder.instruction stop with
  | error e' d' =>
    rw [Decoder.expressionOnto_error last] at failed
    cases failed
    exact ⟨is, inner, stop, runs, last, .broken runs last t⟩
  | ok i d' =>
    rw [Decoder.expressionOnto_ok last, stops i d' last] at failed
    cases failed

/-- What was kept, and where the run ended. -/
def collected : EStateM.Result DecodeError (Session Expr) Unit → EStateM.Result DecodeError Cursor Expr
  | .ok _ s => .ok s.consumer s.cursor
  | .error e s => .error e s.cursor

/-- To decode an expression is to tell it to the collector. -/
theorem expression_eq_collected (c : Cursor) (n : Nat) :
    Decoder.expression c = collected (expressionFrom Consumer.collector true 0 ⟨c, #[], n⟩) := by
  cases decoded : Decoder.expression c with
  | ok body d =>
    have streamed := Answers.expression (C := Consumer.collector) decoded true #[] n
    simp only [tellIf, if_true, Answers, Consumer.collector_feed] at streamed
    rw [streamed]
    simp [collected]
  | error e d =>
    obtain ⟨is, inner, stop, -, -, streamed⟩ := Answers.fault (C := Consumer.collector) decoded true #[] n
    simp only [tellIf, if_true, Answers, Consumer.collector_feedOpen] at streamed
    rw [streamed]
    rfl

/-- An expression told as it is decoded, and one decoded as a whole and then told. If the whole can be decoded, the run
succeeds where telling it succeeds, in the place behind the expression, and otherwise fails with the same objection; the
consumer is left in the same state. If it cannot be decoded, what comes before the fault is told, and the run fails with
the fault or with an objection to that. Decoding a whole is itself a run, with a consumer that keeps what it is told. -/
theorem streamed_agrees_with_buffered {σ : Type} (C : Consumer σ) (takes : Bool) (c : Cursor) (t : σ) (n : Nat) :
    (match Decoder.expression c with
      | .ok body d =>
        Answers (expressionFrom C takes 0 ⟨c, t, n⟩) (tellIf takes (C.feed body.toList)) t n fun t =>
          .ok () ⟨d, t, n⟩
      | .error e d =>
        ∃ is inner stop, Decoder.Runs 0 c is inner stop ∧ Decoder.instruction stop = .error e d ∧
          Answers (expressionFrom C takes 0 ⟨c, t, n⟩) (tellIf takes (C.feedOpen is)) t n fun t =>
            .error e ⟨d, t, n⟩) ∧
      Decoder.expression c = collected (expressionFrom Consumer.collector true 0 ⟨c, #[], n⟩) := by
  refine ⟨?_, expression_eq_collected c n⟩
  cases decoded : Decoder.expression c with
  | ok body d => exact Answers.expression decoded takes t n
  | error e d => exact Answers.fault decoded takes t n

end Producer

end Binary

end Wasm

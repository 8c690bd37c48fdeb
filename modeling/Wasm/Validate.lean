import Wasm.Binary.Producer
import Wasm.Event.Chain
import Wasm.Tree.Builder
import Wasm.Validator.Report

/-! # Decoding and validating modules

The public entry points: a byte string is decoded and validated in one pass, for its index spaces or for
its tree. With a narration the same is done and a log is kept beside it.
-/

namespace Wasm

open Binary

/-- The index spaces of the module that bytes encode, if it is valid. -/
def validate (bytes : List UInt8) : Except DecodeError IndexSpace :=
  match deliver Validator.consumer bytes {} with
  | (.ok _, v) => .ok v.space
  | (.error e, _) => .error e

/-- Puts a tree builder behind a consumer: the tree holds only what the consumer accepted. -/
def Consumer.withTree {σ : Type} (C : Consumer σ) : Consumer (σ × Listener Tree.Builder) :=
  C.follow Tree.Builder.consumer

/-- The tree of the module that bytes encode, if it is valid. -/
def validateTree (bytes : List UInt8) : Except DecodeError Tree :=
  match deliver Validator.consumer.withTree bytes ({}, { state := {} }) with
  | (.ok _, _, l) => .ok l.state.tree
  | (.error e, _, _) => .error e

/-- The validator with a log. -/
def narratedValidator : Consumer (Narrated Validator) :=
  Validator.consumer.narrated Validator.report

/-- As `validate`, with a log. -/
def narrateValidate (bytes : List UInt8) : Except DecodeError IndexSpace × Array LogLine :=
  match deliver narratedValidator bytes { state := {} } with
  | (.ok _, n) => (.ok n.state.space, n.log)
  | (.error e, n) => (.error e, n.log)

/-- As `validateTree`, with a log. -/
def narrateValidateTree (bytes : List UInt8) : Except DecodeError Tree × Array LogLine :=
  match deliver narratedValidator.withTree bytes ({ state := {} }, { state := {} }) with
  | (.ok _, n, l) => (.ok l.state.tree, n.log)
  | (.error e, n, _) => (.error e, n.log)

end Wasm

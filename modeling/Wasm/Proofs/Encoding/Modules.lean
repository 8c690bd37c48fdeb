import Wasm.Proofs.Encoding.Pieces

/-! # Encoding modules

A module is written as a header and then one section after the other: the custom sections first, and then those that
hold an entry, in their order. A builder that decodes the bytes of a tree builds that tree.
-/

namespace Wasm

open Binary

/-- The identifier that announces a section; the header takes that of custom sections. -/
def Section.id : Section → UInt8
  | header | finish => 0
  | type => 1
  | imports => 2
  | function => 3
  | table => 4
  | memory => 5
  | global => 6
  | exports => 7
  | start => 8
  | element => 9
  | code => 10
  | data => 11
  | dataCount => 12

theorem Section.ofId?_id {s : Section} (proper : s ≠ .header) (notEnd : s ≠ .finish) : ofId? s.id = some s := by
  cases s with
  | header => exact absurd rfl proper
  | finish => exact absurd rfl notEnd
  | _ => rfl

namespace Tree

/-- A section as it stands between others: what announces it, what its frame encloses, and the pieces that this is. -/
structure Block where
  id : UInt8
  content : List UInt8
  pieces : List Piece

namespace Block

def custom (name : String) (payload : List UInt8) : Block :=
  ⟨Section.header.id, Encode.piece (.custom name payload), [.custom name payload]⟩

/-- The pieces of a section have their number before them, unless there can be only one. -/
def proper (s : Section) (ps : List Piece) : Block :=
  ⟨s.id, if s.IsSingle then ps.flatMap Encode.piece else Encode.vector Encode.piece ps, ps⟩

end Block

def blocks (t : Tree) : List Block :=
  t.customs.toList.map (fun (name, payload) => .custom name payload) ++
    (Section.inOrder.tail.filter fun s => !(t.piecesOf s).isEmpty).map fun s => .proper s (t.piecesOf s)

end Tree

namespace Binary.Encode

open Wasm.Tree

def block (b : Block) : List UInt8 := b.id :: bytes b.content

/-- The magic word and the version. -/
def header (version : UInt32) : List UInt8 := littleEndian 4 magic.toNat ++ littleEndian 4 version.toNat

def tree (t : Tree) : List UInt8 := header t.version ++ t.blocks.flatMap block

end Binary.Encode

namespace Tree

/-- A tree that can be written. -/
structure Writable (t : Tree) : Prop where
  version : t.version = formatVersion
  pieces : ∀ p ∈ t.pieces, p.Writable
  counts : ∀ s ∈ Section.inOrder.tail, (t.piecesOf s).length ≤ Reader.maxVectorEntries
  sizes : ∀ b ∈ t.blocks, b.content.length < 2 ^ 32

/-- The blocks of a tree are all of its pieces, in the order in which they are told. -/
theorem blocks_pieces (t : Tree) : t.blocks.flatMap Block.pieces = t.pieces := by
  have skipped (ss : List Section) :
      (ss.filter fun s => !(t.piecesOf s).isEmpty).flatMap t.piecesOf = ss.flatMap t.piecesOf := by
    induction ss with
    | nil => rfl
    | cons s ss ih =>
      rw [List.filter_cons, List.flatMap_cons]
      cases empty : t.piecesOf s with
      | nil => simpa [empty] using ih
      | cons p ps => simp [empty, ih]
  have customs : (t.customs.toList.map fun (name, payload) => Block.custom name payload).flatMap Block.pieces =
      t.piecesOf .header := by
    rw [List.flatMap_map, piecesOf, List.map_eq_flatMap]
    rfl
  rw [blocks, List.flatMap_append, customs, List.flatMap_map, pieces_eq, Tree.proper, ← skipped]
  rfl

end Tree

namespace Binary

open Producer Wasm.Tree

/-! ## Sections -/

/-- The frame of a section encloses its content. -/
theorem Decoder.sectionFrame_block {b : Block} (fits : b.content.length < 2 ^ 32) (pos : Nat) (rest : List UInt8) :
    Decoder.sectionFrame ⟨pos, Encode.block b ++ rest⟩ =
      .ok (⟨b.id, b.content.length.toUInt32, pos + (Encode.block b).length⟩, .ofBytes b.content)
        ⟨pos + (Encode.block b).length, rest⟩ := by
  have size := (Reads.u32_of_lt fits).lift (pos + 1) (b.content ++ rest)
  have content := (Reads.frame_sized fits).lift (pos + 1 + (Encode.unsigned b.content.length).length) rest
  rw [show pos + (Encode.block b).length = pos + 1 + (Encode.unsigned b.content.length).length + b.content.length by
    simp [Encode.block, Encode.bytes]; omega]
  refine Outcome.bind_ok_iff.mpr ⟨b.id, ⟨pos + 1, Encode.bytes b.content ++ rest⟩, rfl, ?_⟩
  rw [Encode.bytes, List.append_assoc]
  exact Outcome.bind_ok_iff.mpr ⟨_, _, size, Outcome.bind_ok_iff.mpr ⟨_, _, content, rfl⟩⟩

/-- Behind a section of rank `last` a block can be decoded, and then sections of a higher rank than `rank` may come. -/
structure Follows (last : Nat) (b : Block) (rank : Nat) : Prop where
  size : b.content.length < 2 ^ 32
  tells : ∀ n size offset, ∃ used, Tells (fun _ C => Producer.framed C last ⟨b.id, size, offset⟩) (.ofBytes b.content) n
    (Notice.ofItems n (b.pieces.flatMap Piece.items))
    (.ok (rank, used, n + functionCount (b.pieces.flatMap Piece.items)))

/-- Blocks that can be decoded one after the other. -/
def Chain : (last : Nat) → List Block → Prop
  | _, [] => True
  | last, b :: bs => ∃ rank, Follows last b rank ∧ Chain rank bs

/-- All pieces of the blocks are told. -/
theorem Chain.tells {last : Nat} {bs : List Block} (chain : Chain last bs) (n pos : Nat) :
    ∃ told, Tells (fun _ C => Producer.sections C last) ⟨pos, bs.flatMap Encode.block⟩ n told
        (.ok ((), ⟨pos + (bs.flatMap Encode.block).length, []⟩,
          n + functionCount ((bs.flatMap Block.pieces).flatMap Piece.items))) ∧
      told.filter (!·.isFrame) = Notice.ofItems n ((bs.flatMap Block.pieces).flatMap Piece.items) := by
  induction bs generalizing last n pos with
  | nil => exact ⟨[], fun σ C t => ends_sections_empty C rfl, rfl⟩
  | cons b bs ih =>
    obtain ⟨rank, follows, chain⟩ := chain
    have frame := Decoder.sectionFrame_block follows.size pos (bs.flatMap Encode.block)
    obtain ⟨used, first⟩ := follows.tells n b.content.length.toUInt32 (pos + (Encode.block b).length)
    -- The sections behind this one start at its end, after the functions it has told.
    obtain ⟨told, rest, same⟩ :=
      ih chain (n + functionCount (b.pieces.flatMap Piece.items)) (pos + (Encode.block b).length)
    rw [List.flatMap_cons, List.flatMap_cons, List.flatMap_append, List.length_append, functionCount_append,
      Notice.ofItems_append, ← Nat.add_assoc pos, ← Nat.add_assoc n]
    refine ⟨_, .sections rfl frame first rest, ?_⟩
    rw [List.cons_append, List.filter_cons_of_neg (by simp [Notice.isFrame]), List.filter_append, same,
      Notice.ofItems_frameless]

namespace Speaks

/-- Pieces of one kind with their number before them. -/
theorem ofKind {α : Type} {kind : α → Piece} {P : Speaker Unit} {as : List α}
    (few : (as.map kind).length ≤ Reader.maxVectorEntries) (writable : ∀ p ∈ as.map kind, p.Writable)
    (one : ∀ a, (kind a).Writable → Speaks P (Encode.piece (kind a)) (kind a).items) :
    Speaks (fun σ C => Producer.entries (P σ C)) (Encode.vector Encode.piece (as.map kind))
      ((as.map kind).flatMap Piece.items) :=
  entries few (fun p _ => Encode.piece_ne_nil p)
    (List.forall_mem_map.mpr fun a member => one a (writable _ (List.mem_map_of_mem member)))

/-- A number by itself. -/
theorem ofSingle {kind : UInt32 → Piece} {P : UInt32 → Speaker Unit} {o : Option UInt32}
    (present : o.toList.map kind ≠ [])
    (one : ∀ n,
      Speaks (fun σ C => Producer.read Reader.u32 >>= fun n => P n σ C) (Encode.piece (kind n)) (kind n).items) :
    Speaks (fun σ C => Producer.read Reader.u32 >>= fun n => P n σ C) ((o.toList.map kind).flatMap Encode.piece)
      ((o.toList.map kind).flatMap Piece.items) := by
  cases o with
  | none => exact absurd rfl present
  | some n => simpa using one n

/-- The content of a section tells the pieces of the section. -/
theorem content {t : Tree} {s : Section} (present : t.piecesOf s ≠ []) (proper : s ≠ .header)
    (writable : ∀ p ∈ t.piecesOf s, p.Writable) (few : (t.piecesOf s).length ≤ Reader.maxVectorEntries) :
    Speaks (fun _ C => Producer.content C s) (Block.proper s (t.piecesOf s)).content
      ((t.piecesOf s).flatMap Piece.items) := by
  have number (n : UInt32) := (Reads.u32 n).lift
  cases s with
  | header => exact absurd rfl proper
  | type => exact ofKind few writable fun d w => reading_last (Reads.funcDecl w.1 w.2) (entry _ rfl)
  | imports => exact ofKind few writable fun i w => imported w
  | function => exact ofKind few writable fun n _ => reading_last (number n) (entry _ rfl)
  | table => exact ofKind few writable fun d w => reading_last (Reads.tableDecl w) (entry _ rfl)
  | memory => exact ofKind few writable fun l w => reading_last (Reads.limits w) (entry _ rfl)
  | global => exact ofKind few writable fun g w => global w
  | exports => exact ofKind few writable fun e w => reading_last (Reads.exported w) (entry _ rfl)
  | start => exact ofSingle present fun n => reading_last (number n) (entry _ rfl)
  | element => exact ofKind few writable fun e w => element w
  | dataCount => exact ofSingle present fun n => reading_last (number n) (entry _ rfl)
  | code => exact ofKind few writable fun b w => body w
  | data => exact ofKind few writable fun d w => data w
  | finish => exact absurd rfl present

end Speaks

namespace Follows

/-- A section that uses up its frame. -/
theorem of_ranked {last rank : Nat} {b : Block} (size : b.content.length < 2 ^ 32)
    (inside : ∀ n, ∃ pos, Tells (fun _ C => Producer.ranked C last b.id) (.ofBytes b.content) n
      (Notice.ofItems n (b.pieces.flatMap Piece.items))
      (.ok (rank, ⟨pos, []⟩, n + functionCount (b.pieces.flatMap Piece.items)))) : Follows last b rank := by
  refine ⟨size, fun n size offset => ?_⟩
  obtain ⟨pos, ranked⟩ := inside n
  refine ⟨⟨pos, []⟩, ?_⟩
  rw [← List.append_nil (Notice.ofItems n _)]
  exact ranked.bind ((Tells.unused ⟨pos, []⟩ _).bind (.pure rank ⟨pos, []⟩ _))

/-- A custom section may stand anywhere. -/
theorem custom (last : Nat) {name : String} {payload : List UInt8} (named : name.utf8ByteSize < 2 ^ 32)
    (size : (Block.custom name payload).content.length < 2 ^ 32) : Follows last (.custom name payload) last := by
  refine of_ranked size fun n => ?_
  have inside : Tells (fun _ C => Producer.custom C) (.ofBytes (Encode.text name ++ payload)) n
      [.item [] (.entry (.custom name payload))] (.ok ((), ⟨_, []⟩, n)) :=
    (Tells.read_ok ((Reads.text named).lift 0 payload)).bind
      ((Tells.read_ok (m := Reader.all) rfl).bind (.entry _ _ n))
  exact ⟨_, inside.bind (.pure last _ n)⟩

/-- A section that holds a piece may stand behind those that come before it in the order. -/
theorem proper {t : Tree} {s : Section} {last : Nat} (present : t.piecesOf s ≠ []) (later : last < s.rank)
    (writable : ∀ p ∈ t.piecesOf s, p.Writable) (few : (t.piecesOf s).length ≤ Reader.maxVectorEntries)
    (size : (Block.proper s (t.piecesOf s)).content.length < 2 ^ 32) :
    Follows last (.proper s (t.piecesOf s)) s.rank := by
  have notHeader : s ≠ .header := by
    rintro rfl
    exact absurd later (Nat.not_lt_zero last)
  have found := Section.ofId?_id notHeader (fun finish => present (finish ▸ rfl))
  have announced : s.id ≠ 0 := fun zero => by
    rw [zero] at found
    cases found
  refine of_ranked size fun n => ⟨0 + (Block.proper s (t.piecesOf s)).content.length, ?_⟩
  have inside := Speaks.content present notHeader writable few n 0 []
  have ranked := inside.bind (Q := fun _ _ _ => pure s.rank) (.pure s.rank _ _)
  rw [List.append_nil, List.append_nil] at ranked
  simpa only [Producer.ranked, Block.proper, Cursor.ofBytes, if_neg announced, found, if_neg (Nat.not_le.mpr later)]
    using ranked

end Follows

/-! ## Trees -/

theorem Chain.proper {t : Tree} (writable : t.Writable) (last : Nat) {ss : List Section}
    (ordered : ss.Pairwise fun a b => a.rank < b.rank) (later : ∀ s ∈ ss, last < s.rank)
    (present : ∀ s ∈ ss, s ∈ Section.inOrder.tail.filter fun s => !(t.piecesOf s).isEmpty) :
    Chain last (ss.map fun s => .proper s (t.piecesOf s)) := by
  induction ss generalizing last with
  | nil => trivial
  | cons s ss ih =>
    obtain ⟨behind, ordered⟩ := List.pairwise_cons.mp ordered
    obtain ⟨here, others⟩ := List.forall_mem_cons.mp present
    obtain ⟨member, held⟩ := List.mem_filter.mp here
    have pieces (p : Piece) (inside : p ∈ t.piecesOf s) : p.Writable :=
      writable.pieces p (List.mem_flatMap.mpr ⟨s, List.mem_of_mem_tail member, inside⟩)
    have size := writable.sizes (.proper s (t.piecesOf s)) (List.mem_append_right _ (List.mem_map_of_mem here))
    exact ⟨s.rank, .proper (by simpa using held) (later s List.mem_cons_self) pieces (writable.counts s member) size,
      ih s.rank ordered behind others⟩

/-- The blocks of a tree can be decoded one after the other. -/
theorem Chain.blocks {t : Tree} (writable : t.Writable) : Chain 0 t.blocks := by
  have positive : ∀ s ∈ Section.inOrder.tail, 0 < s.rank := (List.pairwise_cons.mp Section.inOrder_pairwise).1
  have proper := Chain.proper writable 0 (Section.inOrder_pairwise.tail.filter _)
    (fun s member => positive s (List.mem_filter.mp member).1) fun s member => member
  have customs (cs : List (String × List UInt8)) (rest : List Block)
      (each : ∀ c ∈ cs, c.1.utf8ByteSize < 2 ^ 32 ∧ (Block.custom c.1 c.2).content.length < 2 ^ 32)
      (chain : Chain 0 rest) :
      Chain 0 (cs.map (fun (name, payload) => Block.custom name payload) ++ rest) := by
    induction cs with
    | nil => exact chain
    | cons c cs ih =>
      obtain ⟨first, others⟩ := List.forall_mem_cons.mp each
      exact ⟨0, .custom 0 first.1 first.2, ih others⟩
  refine customs _ _ (fun c member => ⟨?_, ?_⟩) proper
  · exact writable.pieces (.custom c.1 c.2)
      (List.mem_flatMap.mpr ⟨.header, List.mem_cons_self, List.mem_map.mpr ⟨c, member, rfl⟩⟩)
  · exact writable.sizes _ (List.mem_append_left _ (List.mem_map.mpr ⟨c, member, rfl⟩))

theorem Reads.header : Reads Decoder.header (Encode.header formatVersion) formatVersion := by
  refine ((Reads.word32 magic).adaptExcept _).bind ?_
  rw [if_neg (by decide)]
  refine (Reads.word32 formatVersion).lift.bind_nil ?_
  rw [if_neg (by decide)]
  exact Reads.pure _

/-- From the bytes of a tree its items are told. -/
theorem Tells.tree {t : Tree} (writable : t.Writable) :
    ∃ told d n, Tells (fun _ C => Producer.produce C) (.ofBytes (Encode.tree t)) 0 told (.ok ((), d, n)) ∧
      told.filter (!·.isFrame) = Notice.ofItems 0 t.items := by
  have header := Reads.header 0 (t.blocks.flatMap Encode.block)
  obtain ⟨told, sections, same⟩ := (Chain.blocks writable).tells 0 (0 + (Encode.header formatVersion).length)
  rw [items_eq_pieces, Encode.tree, writable.version]
  refine ⟨_, _, _, (Tells.read_ok header).bind ((Tells.entry (.header formatVersion) _ 0).bind
    (sections.bind (.entry .finish _ _))), ?_⟩
  rw [blocks_pieces] at same
  rw [List.nil_append, List.filter_append, List.filter_append, same, List.cons_append, Notice.ofItems,
    Notice.ofItems_append]
  rfl

/-- Decoding the bytes of a tree builds the tree. -/
theorem builder_rebuilds_encoded_tree {t : Tree} (writable : t.Writable) :
    ∃ b, deliver Builder.consumer (Encode.tree t) {} = (.ok (), b) ∧ b.tree = t := by
  obtain ⟨told, d, n, tells, same⟩ := Tells.tree writable
  obtain ⟨last, built⟩ := replay_builder t
  rw [List.map_congr_left fun p member => (writable.pieces p member).trim_eq, List.map_id', ofPieces_pieces] at built
  refine ⟨⟨t, last⟩, ?_, rfl⟩
  rw [deliver_of_tells tells, Consumer.hearAll_frameless _ (fun _ _ => rfl), same, Consumer.hearAll_of_items _ built]
  rfl

/-- A tree with a custom section, a segment of expressions, and a body in which a block stands. -/
def nested : Tree where
  version := 1
  customs := #[("note", [0x01, 0x80])]
  types := #[⟨[0x7f], [0x7e, 0x7d]⟩]
  functions := #[0]
  tables := #[⟨0x6f, ⟨1, some 70000⟩⟩]
  elements := #[⟨⟨0x6f, .active 0, .expressions⟩, #[.plain (.i32Const (-65)), .end_],
    #[#[.plain (.refNull 0x6f), .end_]]⟩]
  dataCount := some 1
  code := #[⟨[⟨300, 0x7e⟩], #[.block (.indexed 200), .brTable [0, 1] 0, .end_, .end_]⟩]
  data := #[⟨⟨.active 0, [0xff]⟩, #[.plain (.i32Const (-65)), .end_]⟩]

theorem nested_writable : nested.Writable := by
  have closing : ∃ c d, Decoder.instruction c = .ok .end_ d := ⟨.ofBytes [0x0b], _, rfl⟩
  have constant : ∃ c d, Decoder.instruction c = .ok (.plain (.i32Const (-65))) d :=
    ⟨.ofBytes [0x41, 0xbf, 0x7f], _, rfl⟩
  have null : ∃ c d, Decoder.instruction c = .ok (.plain (.refNull 0x6f)) d := ⟨.ofBytes [0xd0, 0x6f], _, rfl⟩
  have block : ∃ c d, Decoder.instruction c = .ok (.block (.indexed 200)) d := ⟨.ofBytes [0x02, 0xc8, 0x01], _, rfl⟩
  have table : ∃ c d, Decoder.instruction c = .ok (.brTable [0, 1] 0) d :=
    ⟨.ofBytes [0x0e, 0x02, 0x00, 0x01, 0x00], _, rfl⟩
  have one {i : Instruction} (decodable : ∃ c d, Decoder.instruction c = .ok i d) (closed : Closes 0 [i, .end_]) :
      Expr.Writable #[i, .end_] := ⟨by simpa using ⟨decodable, closing⟩, closed⟩
  have offset := one constant rfl
  have body : Expr.Writable #[.block (.indexed 200), .brTable [0, 1] 0, .end_, .end_] :=
    ⟨by simpa using ⟨block, table, closing⟩, rfl⟩
  have bodySize :
      (Encode.bodyContent ⟨[⟨300, 0x7e⟩], #[.block (.indexed 200), .brTable [0, 1] 0, .end_, .end_]⟩).length = 14 := by
    cbv
  have sizes : nested.blocks.all (fun b => decide (b.content.length < 2 ^ 32)) = true := by cbv
  have text : "note".utf8ByteSize < 2 ^ 32 := by decide
  refine ⟨rfl, ?_, by decide, fun b member => of_decide_eq_true (List.all_eq_true.mp sizes b member)⟩
  change ∀ p ∈ [Piece.custom "note" [0x01, 0x80], _, _, _, _, _, _, _], _
  simp only [List.forall_mem_cons]
  refine ⟨text, ⟨by decide, by decide⟩, trivial, ⟨by decide, ?_⟩, ?_, trivial, ?_, ?_, List.forall_mem_nil _⟩
  · rintro _ ⟨⟩
    decide
  · exact ⟨fun _ => offset, by decide, by simp, by decide, by simpa [nested] using one null rfl⟩
  · exact ⟨by decide, by decide, body, by rw [bodySize]; decide⟩
  · exact ⟨fun _ => offset, by decide, by decide⟩

theorem builder_rebuilds_nested : nested.Writable ∧
    ∃ b, deliver Builder.consumer (Encode.tree nested) {} = (.ok (), b) ∧ b.tree = nested :=
  ⟨nested_writable, builder_rebuilds_encoded_tree nested_writable⟩

end Binary

end Wasm

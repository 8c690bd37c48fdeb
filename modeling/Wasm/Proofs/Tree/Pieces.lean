import Wasm.Tree.Builder
import Wasm.Proofs.Delivery

/-! # Trees piece by piece

A tree is made of pieces, each of which is told as one item or, for a segment, as a few. A builder that is told a piece
puts it into its tree; what it is not told, the offset of a segment that is not active, stays empty. Pieces that come in
the order of their sections are told again in that order when the tree is replayed, the custom sections first.
-/

namespace Wasm

/-- Sections that hold one piece only. -/
def Section.IsSingle (s : Section) : Prop := s = .start ∨ s = .dataCount

instance : DecidablePred Section.IsSingle := fun s => inferInstanceAs (Decidable (s = .start ∨ s = .dataCount))

namespace Tree

inductive Piece where
  | custom (name : String) (payload : List UInt8)
  | type (d : FuncDecl)
  | imported (i : Import)
  | function (type : UInt32)
  | table (d : TableDecl)
  | memory (l : Limits)
  | global (g : Global)
  | exported (e : Export)
  | start (func : UInt32)
  | element (e : Element)
  | dataCount (count : UInt32)
  | body (b : Body)
  | data (d : Data)

namespace Piece

def items : Piece → List Item
  | custom name payload => [.entry (.custom name payload)]
  | type d => [.entry (.type d)]
  | imported i => [.entry (.imported i)]
  | function index => [.entry (.function index)]
  | table d => [.entry (.table d)]
  | memory l => [.entry (.memory l)]
  | global g => [.expr (.global g.decl) g.init.toList]
  | exported e => [.entry (.exported e)]
  | start func => [.entry (.start func)]
  | element e => e.stream
  | dataCount count => [.entry (.dataCount count)]
  | body b => [.expr (.code b.locals) b.instructions.toList]
  | data d => d.stream

/-- The section that the piece belongs to; custom sections are one by themselves. -/
def section? : Piece → Option Section
  | custom .. => none
  | type _ => some .type
  | imported _ => some .imports
  | function _ => some .function
  | table _ => some .table
  | memory _ => some .memory
  | global _ => some .global
  | exported _ => some .exports
  | start _ => some .start
  | element _ => some .element
  | dataCount _ => some .dataCount
  | body _ => some .code
  | data _ => some .data

/-- The piece without an offset that is not told. -/
def trim : Piece → Piece
  | element e => element { e with offset := if e.segment.mode.isActive then e.offset else #[] }
  | data d => data { d with offset := if d.segment.mode.isActive then d.offset else #[] }
  | p => p

end Piece

/-- The tree with one more piece. -/
def put (t : Tree) : Piece → Tree
  | .custom name payload => { t with customs := t.customs.push (name, payload) }
  | .type d => { t with types := t.types.push d }
  | .imported i => { t with imports := t.imports.push i }
  | .function type => { t with functions := t.functions.push type }
  | .table d => { t with tables := t.tables.push d }
  | .memory l => { t with memories := t.memories.push l }
  | .global g => { t with globals := t.globals.push g }
  | .exported e => { t with exports := t.exports.push e }
  | .start func => { t with start := some func }
  | .element e => { t with elements := t.elements.push e }
  | .dataCount count => { t with dataCount := some count }
  | .body b => { t with code := t.code.push b }
  | .data d => { t with data := t.data.push d }

/-- The tree that pieces make up. -/
def ofPieces (version : UInt32) (ps : List Piece) : Tree := ps.foldl put { version }

/-! ## Building -/

theorem modifyLast_push {α : Type} (f : α → α) (as : Array α) (a : α) : modifyLast f (as.push a) = as.push (f a) := by
  obtain ⟨as⟩ := as
  simp only [modifyLast, List.push_toArray, List.modify_toArray, List.size_toArray, List.length_append,
    List.length_singleton, Nat.add_sub_cancel]
  rw [List.modify_eq_take_cons_drop (by simp)]
  simp

namespace Builder

/-- Instructions go one by one to the place that the site has in the tree. -/
theorem feed_at (t : Tree) (x : Site) (is : List Instruction) :
    consumer.feed is ⟨t, some x⟩ = .ok () ⟨is.foldl (fun t i => t.addInstruction i x) t, some x⟩ := by
  induction is generalizing t with
  | nil => rfl
  | cons i is ih => exact ih (t.addInstruction i x)

/-- An expression that has a place goes there, instruction by instruction; `put` is the tree with what there is of it so
far. -/
theorem item_expr {t : Tree} {place : Option Site} {x : Site} {is : List Instruction} (put : Expr → Tree)
    (there : t.hasPlace x = true) (begins : t.addSite x = put #[])
    (grows : ∀ e i, (put e).addInstruction i x = put (e.push i)) :
    consumer.item (.expr x is) ⟨t, place⟩ = .ok () ⟨put is.toArray, some x⟩ := by
  have taken : consumer.site x ⟨t, place⟩ = .ok true ⟨t.addSite x, some x⟩ := by
    simp [consumer, there]
  have whole (e : Expr) : is.foldl (fun t i => t.addInstruction i x) (put e) = put (e ++ is.toArray) := by
    induction is generalizing e with
    | nil => simp
    | cons i is ih =>
      rw [List.foldl_cons, grows, ih]
      simp
  rw [Consumer.item, Outcome.bind_of_ok taken]
  show consumer.feed is _ = _
  rw [feed_at, begins, whole, Array.empty_append]

/-- Items go to the last segment, one after the other. -/
theorem items_elementItems (t : Tree) (place : Option Site) (es : Array Element) (e : Element) (more : List Expr) :
    ∃ last, consumer.items (more.map fun item => .expr .elementItem item.toList)
        ⟨{ t with elements := es.push e }, place⟩ =
      .ok () ⟨{ t with elements := es.push { e with items := e.items ++ more.toArray } }, last⟩ := by
  induction more generalizing e place with
  | nil =>
    refine ⟨place, ?_⟩
    rw [Array.append_empty]
    rfl
  | cons item more ih =>
    have one : consumer.item (.expr .elementItem item.toList) ⟨{ t with elements := es.push e }, place⟩ =
        .ok () ⟨{ t with elements := es.push { e with items := e.items.push item } }, some .elementItem⟩ :=
      item_expr (fun item => { t with elements := es.push { e with items := e.items.push item } })
        (by simp [hasPlace]) (by simp [addSite, modifyLast_push])
        (fun _ _ => by simp [Tree.addInstruction, modifyLast_push])
    obtain ⟨last, rest⟩ := ih (some .elementItem) { e with items := e.items.push item }
    refine ⟨last, ?_⟩
    rw [List.map_cons, Consumer.items_cons, Outcome.bind_of_ok one, rest]
    simp

/-- A builder puts a piece into its tree as far as it is told. -/
theorem items_piece (t : Tree) (place : Option Site) (p : Piece) :
    ∃ last, consumer.items p.items ⟨t, place⟩ = .ok () ⟨t.put p.trim, last⟩ := by
  cases p with
  | global g =>
    refine ⟨some (.global g.decl), ?_⟩
    rw [Piece.items, Consumer.items_cons, Outcome.bind_of_ok (item_expr
      (fun e => { t with globals := t.globals.push ⟨g.decl, e⟩ }) rfl rfl
      (fun _ _ => by simp [Tree.addInstruction, modifyLast_push]))]
    rfl
  | body b =>
    refine ⟨some (.code b.locals), ?_⟩
    rw [Piece.items, Consumer.items_cons, Outcome.bind_of_ok (item_expr
      (fun e => { t with code := t.code.push ⟨b.locals, e⟩ }) rfl rfl
      (fun _ _ => by simp [Tree.addInstruction, modifyLast_push]))]
    rfl
  | element e =>
    obtain ⟨segment, offset, items⟩ := e
    have first : consumer.item (.entry (.element segment)) ⟨t, place⟩ =
      .ok () ⟨{ t with elements := t.elements.push { segment } }, place⟩ := rfl
    rw [Piece.items, Element.stream, List.cons_append, Consumer.items_cons, Outcome.bind_of_ok first,
      Consumer.items_append]
    by_cases active : segment.mode.isActive = true
    · have second : consumer.items [.expr .elementOffset offset.toList]
          ⟨{ t with elements := t.elements.push { segment } }, place⟩ =
          .ok () ⟨{ t with elements := t.elements.push { segment, offset } }, some .elementOffset⟩ := by
        rw [Consumer.items_cons, Outcome.bind_of_ok (item_expr
          (fun offset => { t with elements := t.elements.push { segment, offset } }) (by simp [hasPlace]) rfl
          (fun _ _ => by simp [Tree.addInstruction, modifyLast_push]))]
        rfl
      simp only [active, if_true, Outcome.bind_of_ok second]
      obtain ⟨last, rest⟩ := items_elementItems t (some .elementOffset) t.elements { segment, offset } items.toList
      exact ⟨last, by rw [rest]; simp [Piece.trim, put, active]⟩
    · obtain ⟨last, rest⟩ := items_elementItems t place t.elements { segment } items.toList
      exact ⟨last, by simpa [Piece.trim, put, active, Consumer.items] using rest⟩
  | data d =>
    obtain ⟨segment, offset⟩ := d
    have first : consumer.item (.entry (.data segment)) ⟨t, place⟩ =
      .ok () ⟨{ t with data := t.data.push { segment } }, place⟩ := rfl
    rw [Piece.items, Data.stream, Consumer.items_cons, Outcome.bind_of_ok first]
    by_cases active : segment.mode.isActive = true
    · refine ⟨some .dataOffset, ?_⟩
      simp only [active, if_true, Consumer.items_cons]
      rw [Outcome.bind_of_ok (item_expr (fun offset => { t with data := t.data.push { segment, offset } })
        (by simp [hasPlace]) rfl (fun _ _ => by simp [Tree.addInstruction, modifyLast_push]))]
      simp [Piece.trim, put, active]
      rfl
    · exact ⟨place, by simp [Piece.trim, put, active]; rfl⟩
  | _ => exact ⟨place, rfl⟩

theorem items_pieces (t : Tree) (place : Option Site) (ps : List Piece) :
    ∃ last, consumer.items (ps.flatMap Piece.items) ⟨t, place⟩ = .ok () ⟨(ps.map Piece.trim).foldl put t, last⟩ := by
  induction ps generalizing t place with
  | nil => exact ⟨place, rfl⟩
  | cons p ps ih =>
    obtain ⟨middle, one⟩ := items_piece t place p
    obtain ⟨last, rest⟩ := ih (t.put p.trim) middle
    refine ⟨last, ?_⟩
    rw [List.flatMap_cons, Consumer.items_append, Outcome.bind_of_ok one, rest]
    rfl

/-- A module that is told piece by piece. -/
theorem items_module (version : UInt32) (ps : List Piece) :
    ∃ last, consumer.items (.entry (.header version) :: ps.flatMap Piece.items ++ [.entry .finish]) {} =
      .ok () ⟨ofPieces version (ps.map Piece.trim), last⟩ := by
  have first : consumer.item (.entry (.header version)) {} = .ok () ⟨{ version }, none⟩ := rfl
  obtain ⟨last, all⟩ := items_pieces { version } none ps
  refine ⟨last, ?_⟩
  rw [List.cons_append, Consumer.items_cons, Outcome.bind_of_ok first, Consumer.items_append, Outcome.bind_of_ok all]
  rfl

end Builder

/-! ## Pieces of a tree -/

/-- The pieces of a section; custom sections are counted to the header. -/
def piecesOf (t : Tree) : Section → List Piece
  | .header => t.customs.toList.map fun (name, payload) => .custom name payload
  | .type => t.types.toList.map .type
  | .imports => t.imports.toList.map .imported
  | .function => t.functions.toList.map .function
  | .table => t.tables.toList.map .table
  | .memory => t.memories.toList.map .memory
  | .global => t.globals.toList.map .global
  | .exports => t.exports.toList.map .exported
  | .start => t.start.toList.map .start
  | .element => t.elements.toList.map .element
  | .dataCount => t.dataCount.toList.map .dataCount
  | .code => t.code.toList.map .body
  | .data => t.data.toList.map .data
  | .finish => []

/-- The pieces of a tree, in the order in which they are told. -/
def pieces (t : Tree) : List Piece := Section.inOrder.flatMap t.piecesOf

theorem items_eq_pieces (t : Tree) :
    t.items = .entry (.header t.version) :: t.pieces.flatMap Piece.items ++ [.entry .finish] := by
  simp [items, pieces, Section.inOrder, piecesOf, List.flatMap_map, Piece.items, ← List.map_eq_flatMap]

/-- Pieces of one kind go into one array. -/
theorem foldl_put {α : Type} (piece : α → Piece) (set : Array α → Tree)
    (one : ∀ as a, (set as).put (piece a) = set (as.push a)) (more : Array α) (as : Array α) :
    (more.toList.map piece).foldl put (set as) = set (as ++ more) := by
  obtain ⟨more⟩ := more
  induction more generalizing as with
  | nil => simp
  | cons a more ih =>
    rw [List.map_cons, List.foldl_cons, one, ih]
    simp

/-- The tree with the pieces of another one's section added. -/
def extend (T t : Tree) : Section → Tree
  | .header => { T with customs := T.customs ++ t.customs }
  | .type => { T with types := T.types ++ t.types }
  | .imports => { T with imports := T.imports ++ t.imports }
  | .function => { T with functions := T.functions ++ t.functions }
  | .table => { T with tables := T.tables ++ t.tables }
  | .memory => { T with memories := T.memories ++ t.memories }
  | .global => { T with globals := T.globals ++ t.globals }
  | .exports => { T with exports := T.exports ++ t.exports }
  | .start => { T with start := t.start.or T.start }
  | .element => { T with elements := T.elements ++ t.elements }
  | .dataCount => { T with dataCount := t.dataCount.or T.dataCount }
  | .code => { T with code := T.code ++ t.code }
  | .data => { T with data := T.data ++ t.data }
  | .finish => T

theorem foldl_piecesOf (T t : Tree) (s : Section) : (t.piecesOf s).foldl put T = T.extend t s := by
  cases s with
  | header => exact foldl_put _ (fun customs => { T with customs }) (fun _ _ => rfl) t.customs T.customs
  | type => exact foldl_put _ (fun types => { T with types }) (fun _ _ => rfl) t.types T.types
  | imports => exact foldl_put _ (fun imports => { T with imports }) (fun _ _ => rfl) t.imports T.imports
  | function => exact foldl_put _ (fun functions => { T with functions }) (fun _ _ => rfl) t.functions T.functions
  | table => exact foldl_put _ (fun tables => { T with tables }) (fun _ _ => rfl) t.tables T.tables
  | memory => exact foldl_put _ (fun memories => { T with memories }) (fun _ _ => rfl) t.memories T.memories
  | global => exact foldl_put _ (fun globals => { T with globals }) (fun _ _ => rfl) t.globals T.globals
  | exports => exact foldl_put _ (fun exports => { T with exports }) (fun _ _ => rfl) t.exports T.exports
  | start =>
    show (t.start.toList.map _).foldl put T = { T with start := t.start.or T.start }
    cases t.start <;> rfl
  | element => exact foldl_put _ (fun elements => { T with elements }) (fun _ _ => rfl) t.elements T.elements
  | dataCount =>
    show (t.dataCount.toList.map _).foldl put T = { T with dataCount := t.dataCount.or T.dataCount }
    cases t.dataCount <;> rfl
  | code => exact foldl_put _ (fun code => { T with code }) (fun _ _ => rfl) t.code T.code
  | data => exact foldl_put _ (fun data => { T with data }) (fun _ _ => rfl) t.data T.data
  | finish => rfl

/-- A tree is what its pieces make up. -/
theorem ofPieces_pieces (t : Tree) : ofPieces t.version t.pieces = t := by
  simp [ofPieces, pieces, Section.inOrder, List.foldl_append, foldl_piecesOf, extend]

/-! ## Pieces in order -/

/-- Pieces that may come one after the other, behind a section of rank `last`: their sections follow each other, and
custom sections may stand anywhere. -/
def InOrder : Nat → List Piece → Prop
  | _, [] => True
  | last, p :: ps =>
    match p.section? with
    | none => InOrder last ps
    | some s => (last < s.rank ∨ last = s.rank ∧ ¬s.IsSingle) ∧ InOrder s.rank ps

theorem InOrder.mono {a b : Nat} {ps : List Piece} (ordered : InOrder b ps) (le : a ≤ b) : InOrder a ps := by
  induction ps with
  | nil => trivial
  | cons p ps ih =>
    unfold InOrder at ordered ⊢
    cases here : p.section? with
    | none =>
      rw [here] at ordered
      exact ih ordered
    | some s =>
      rw [here] at ordered
      refine ⟨?_, ordered.2⟩
      rcases ordered.1 with after | ⟨same, free⟩
      · exact .inl (by omega)
      · rcases Nat.lt_or_eq_of_le le with lt | equal
        · exact .inl (by omega)
        · exact .inr ⟨by omega, free⟩

/-- The pieces of one section, and others behind them. -/
theorem InOrder.append {s : Section} {last : Nat} {ps qs : List Piece} (members : ∀ p ∈ ps, p.section? = some s)
    (few : s.IsSingle → ps.length ≤ 1) (after : last < s.rank) (ordered : InOrder s.rank qs) :
    InOrder last (ps ++ qs) := by
  have same (ps : List Piece) (members : ∀ p ∈ ps, p.section? = some s) (free : ps = [] ∨ ¬s.IsSingle) :
      InOrder s.rank (ps ++ qs) := by
    induction ps with
    | nil => exact ordered
    | cons p ps ih =>
      obtain ⟨here, others⟩ := List.forall_mem_cons.mp members
      have free := free.resolve_left (List.cons_ne_nil p ps)
      rw [List.cons_append, InOrder, here]
      exact ⟨.inr ⟨rfl, free⟩, ih others (.inr free)⟩
  cases ps with
  | nil => exact ordered.mono (Nat.le_of_lt after)
  | cons p ps =>
    obtain ⟨here, others⟩ := List.forall_mem_cons.mp members
    rw [List.cons_append, InOrder, here]
    refine ⟨.inl after, same ps others ?_⟩
    by_cases single : s.IsSingle
    · have short := few single
      rw [List.length_cons] at short
      exact .inl (List.eq_nil_of_length_eq_zero (by omega))
    · exact .inr single

theorem piecesOf_put_of_ne (t : Tree) (p : Piece) {s : Section} (other : p.section?.getD .header ≠ s) :
    (t.put p).piecesOf s = t.piecesOf s := by
  cases p <;> cases s <;> simp_all [Piece.section?, put, piecesOf]

theorem piecesOf_put (t : Tree) {p : Piece} {s : Section} (here : p.section?.getD .header = s)
    (free : s.IsSingle → t.piecesOf s = []) : (t.put p).piecesOf s = t.piecesOf s ++ [p] := by
  subst here
  cases p with
  | start func => rw [free (.inl rfl)]; rfl
  | dataCount count => rw [free (.inr rfl)]; rfl
  | _ => simp [Piece.section?, put, piecesOf]

/-- The pieces that are no custom sections. -/
def proper (t : Tree) : List Piece := Section.inOrder.tail.flatMap t.piecesOf

theorem pieces_eq (t : Tree) : t.pieces = t.piecesOf .header ++ t.proper := rfl

/-- A piece behind all others of its section, where later sections are empty, is the last one. -/
theorem proper_put (t : Tree) {p : Piece} {s : Section} (here : p.section? = some s)
    (later : ∀ r, s.rank < r.rank → t.piecesOf r = []) (free : s.IsSingle → t.piecesOf s = []) :
    (t.put p).proper = t.proper ++ [p] := by
  have member : s ∈ Section.inOrder.tail := by
    cases p <;> cases here <;> decide
  have sorted := Section.inOrder_pairwise.tail
  obtain ⟨before, after, split⟩ := List.append_of_mem member
  rw [split, List.pairwise_append, List.pairwise_cons] at sorted
  obtain ⟨-, ⟨larger, -⟩, smaller⟩ := sorted
  have place : p.section?.getD .header = s := by rw [here]; rfl
  have unchanged : before.flatMap (t.put p).piecesOf = before.flatMap t.piecesOf := by
    refine List.flatMap_congr fun r inside => piecesOf_put_of_ne t p ?_
    rintro rfl
    exact Nat.lt_irrefl _ (place ▸ smaller _ inside s (List.mem_cons_self ..))
  have empty : after.flatMap t.piecesOf = [] :=
    List.flatMap_eq_nil_iff.mpr fun r inside => later r (larger r inside)
  have still : after.flatMap (t.put p).piecesOf = [] := by
    refine List.flatMap_eq_nil_iff.mpr fun r inside => ?_
    rw [piecesOf_put_of_ne t p, later r (larger r inside)]
    rintro rfl
    exact Nat.lt_irrefl _ (place ▸ larger _ inside)
  simp only [proper, split, List.flatMap_append, List.flatMap_cons]
  rw [unchanged, empty, still, piecesOf_put t place free]
  simp

theorem foldl_put_pieces (t : Tree) {last : Nat} {ps : List Piece} (ordered : InOrder last ps)
    (later : ∀ r, last < r.rank → t.piecesOf r = []) :
    (ps.foldl put t).piecesOf .header = t.piecesOf .header ++ ps.filter (·.section?.isNone) ∧
      (ps.foldl put t).proper = t.proper ++ ps.filter (·.section?.isSome) := by
  induction ps generalizing t last with
  | nil => simp
  | cons p ps ih =>
    unfold InOrder at ordered
    cases here : p.section? with
    | none =>
      rw [here] at ordered
      have place : p.section?.getD .header = .header := by rw [here]; rfl
      have others (r : Section) (other : r ≠ .header) : (t.put p).piecesOf r = t.piecesOf r :=
        piecesOf_put_of_ne t p (by rw [place]; exact other.symm)
      have kept : (t.put p).proper = t.proper :=
        List.flatMap_congr fun r inside => others r (by rintro rfl; revert inside; decide)
      obtain ⟨customs, rest⟩ := ih (t.put p) ordered fun r after => by
        rw [others r (by rintro rfl; exact Nat.not_lt_zero _ after), later r after]
      rw [List.foldl_cons, customs, rest, kept, piecesOf_put t place (by rintro (single | single) <;> cases single)]
      simp [here]
    | some s =>
      rw [here] at ordered
      have place : p.section?.getD .header = s := by rw [here]; rfl
      have le : last ≤ s.rank := by omega
      have header : s ≠ .header := by cases p <;> cases here <;> decide
      have free (single : s.IsSingle) : t.piecesOf s = [] :=
        later s (ordered.1.resolve_right fun same => same.2 single)
      obtain ⟨customs, rest⟩ := ih (t.put p) ordered.2 fun r after => by
        rw [piecesOf_put_of_ne t p (by rw [place]; rintro rfl; exact Nat.lt_irrefl _ after), later r (by omega)]
      rw [List.foldl_cons, customs, rest, proper_put t here (fun r after => later r (by omega)) free,
        piecesOf_put_of_ne t p (place ▸ header)]
      simp [here]

/-- Pieces in order are those of the tree that they make up, but for custom sections, which come first there. -/
theorem pieces_ofPieces (version : UInt32) {ps : List Piece} (ordered : InOrder 0 ps) :
    (ofPieces version ps).pieces = ps.filter (·.section?.isNone) ++ ps.filter (·.section?.isSome) := by
  have empty (r : Section) : ({ version } : Tree).piecesOf r = [] := by cases r <;> rfl
  obtain ⟨customs, rest⟩ := foldl_put_pieces { version } ordered fun r _ => empty r
  have none : ({ version } : Tree).proper = [] := rfl
  rw [pieces_eq, ofPieces, customs, rest, empty, none, List.nil_append, List.nil_append]

theorem version_ofPieces (version : UInt32) (ps : List Piece) : (ofPieces version ps).version = version := by
  have kept (t : Tree) : (ps.foldl put t).version = t.version := by
    induction ps generalizing t with
    | nil => rfl
    | cons p ps ih =>
      rw [List.foldl_cons, ih]
      cases p <;> rfl
  exact kept { version }

/-- A builder that is told a tree builds it again, but for the offsets that are not told. -/
theorem replay_builder (t : Tree) :
    ∃ last, t.replay Builder.consumer {} = .ok () ⟨ofPieces t.version (t.pieces.map Piece.trim), last⟩ := by
  rw [replay, items_eq_pieces]
  exact Builder.items_module t.version t.pieces

/-! ## Items of pieces -/

/-- Items belong to the section of their piece. -/
theorem Piece.section_of_mem_items {p : Piece} {x : Item} (member : x ∈ p.items) : x.section? = p.section? := by
  cases p with
  | element e =>
    simp only [items, Element.stream, List.cons_append, List.mem_cons, List.mem_append, List.mem_ite_nil_right,
      List.mem_map, List.not_mem_nil, or_false] at member
    rcases member with rfl | ⟨_, rfl⟩ | ⟨_, _, rfl⟩ <;> rfl
  | data d =>
    simp only [items, Data.stream, List.mem_cons, List.mem_ite_nil_right, List.not_mem_nil, or_false] at member
    rcases member with rfl | ⟨_, rfl⟩ <;> rfl
  | _ =>
    obtain rfl := List.mem_singleton.mp member
    rfl

theorem Piece.section_ne_finish (p : Piece) : p.section? ≠ some .finish := by
  cases p <;> nofun

/-- The items that are no custom sections are those of the pieces that are none. -/
theorem filter_items (ps : List Piece) :
    (ps.flatMap Piece.items).filter (·.section?.isSome) =
      (ps.filter (·.section?.isSome)).flatMap Piece.items := by
  induction ps with
  | nil => rfl
  | cons p ps ih =>
    rw [List.flatMap_cons, List.filter_append, ih]
    cases here : p.section?.isSome with
    | true =>
      have kept : p.items.filter (·.section?.isSome) = p.items :=
        List.filter_eq_self.mpr fun x member => by rw [Piece.section_of_mem_items member, here]
      rw [kept, List.filter_cons_of_pos (by exact here), List.flatMap_cons]
    | false =>
      have dropped : p.items.filter (·.section?.isSome) = [] :=
        List.filter_eq_nil_iff.mpr fun x member => by rw [Piece.section_of_mem_items member, here]; nofun
      rw [dropped, List.filter_cons_of_neg (by rw [here]; nofun), List.nil_append]

end Tree

end Wasm

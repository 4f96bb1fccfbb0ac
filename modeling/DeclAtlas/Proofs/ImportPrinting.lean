import DeclAtlas.Proofs.Likeness

/-!
# Imports and exports as text

Imports and exports are written on a line each, up to a semicolon.  Names are written as words where
they are words and between quotes where they are not; modules always stand between quotes.

The words `type`, `from` and `as` have a meaning only where the grammar looks for them, so each of
them may also be a name.  `Statement.Printable` says which declarations can be written so that they
can be told apart from all others: every one that the grammar has a form for, but for an element
that is marked as a type and has the name `as`.  What is written of them is read as the tokens that
it was put down for (`Statement.legible_lines`).
-/

namespace DeclAtlas

-- ── Names and elements ───────────────────────────────────────────────────────────

/-- A name, as a word if it is one. -/
def namePiece (name : String) : Piece :=
  if isIdentifier name then .word name else .string name

def nameToken (name : String) : Token :=
  if isIdentifier name then .word name else .string name

/-- However a name is written, it can be read as a name. -/
@[simp] theorem name?_nameToken (name : String) : (nameToken name).name? = some name := by
  unfold nameToken
  split <;> rfl

/-- A name that is read as a word is that word. -/
theorem eq_of_nameToken_eq_word {name w : String} (h : nameToken name = .word w) : name = w := by
  unfold nameToken at h
  split at h
  · exact Token.word.inj h
  · exact nomatch h

/-- What is read of a name is one token. -/
@[simp] theorem marks_namePiece (fresh : Bool) (name : String) (ps : List Piece) :
    Piece.marks fresh (namePiece name :: ps) =
      (nameToken name, fresh) :: Piece.marks false ps := by
  unfold namePiece nameToken
  split <;> rfl

/-- A name stays a token of its own if what follows does not go on with a word; quotes end it
    anyway. -/
theorem Piece.Legible.name {q : Quote} {ps : List Piece} (name : String)
    (hends : EndsWord (Piece.print q ps)) (h : Piece.Legible q ps) :
    Piece.Legible q (namePiece name :: ps) := by
  unfold namePiece
  split
  · next hname => exact .word hname hends h
  · exact .string name h

namespace Specifier

def pieces (s : Specifier) : List Piece :=
  (if s.typeOnly then [.word "type", .space] else []) ++
    (match s.renamed with
      | some source => [namePiece source, .space, .word "as", .space]
      | none => []) ++
    [namePiece s.name]

/-- Elements between braces. -/
def listPieces : List Specifier → List Piece
  | [] => []
  | [s] => s.pieces ++ [.space]
  | s :: ss => s.pieces ++ .sign ',' :: .space :: listPieces ss

def bracePieces (ss : List Specifier) : List Piece :=
  .sign '\x7b' :: .space :: (listPieces ss ++ [.sign '\x7d'])

/-- An element can be read back if it is not a type with the name `as`. -/
def Printable (s : Specifier) : Prop := s.typeOnly = true → s.sourceName ≠ "as"

instance (s : Specifier) : Decidable s.Printable :=
  inferInstanceAs (Decidable (s.typeOnly = true → s.sourceName ≠ "as"))

/-- An element is legible in front of everything that ends a word, with its words `type` and `as`.
    -/
theorem legible (s : Specifier) {q : Quote} {ps : List Piece} (hends : EndsWord (Piece.print q ps))
    (h : Piece.Legible q ps) : Piece.Legible q (s.pieces ++ ps) := by
  have hname : Piece.Legible q (namePiece s.name :: ps) := .name s.name hends h
  have hrenamed : ∀ source, Piece.Legible q
      (namePiece source :: .space :: .word "as" :: .space :: namePiece s.name :: ps) :=
    fun source => .name source rfl (.space (.word rfl rfl (.space hname)))
  obtain ⟨name, renamed, typeOnly⟩ := s
  cases typeOnly with
  | false =>
      cases renamed with
      | none => exact hname
      | some source => exact hrenamed source
  | true =>
      cases renamed with
      | none => exact .word rfl rfl (.space hname)
      | some source => exact .word rfl rfl (.space (hrenamed source))

/-- Elements between commas, with one behind the last of them. -/
theorem legible_list {q : Quote} {ps : List Piece} (h : Piece.Legible q ps) :
    ∀ ss : List Specifier, Piece.Legible q (listPieces ss ++ ps)
  | [] => h
  | [s] => by
      rw [listPieces, List.append_assoc]
      exact s.legible rfl (.space h)
  | s :: s' :: ss => by
      rw [listPieces, List.append_assoc]
      · exact s.legible rfl (.sign (by decide) (.space (legible_list h (s' :: ss))))
      · exact List.cons_ne_nil s' ss

/-- Elements in braces are legible in front of anything. -/
theorem legible_braces {q : Quote} {ps : List Piece} (h : Piece.Legible q ps)
    (ss : List Specifier) : Piece.Legible q (bracePieces ss ++ ps) := by
  rw [bracePieces, List.cons_append, List.cons_append, List.append_assoc]
  exact .sign (by decide) (.space (legible_list (.sign (by decide) h) ss))

end Specifier

-- ── Declarations ─────────────────────────────────────────────────────────────────

def typeWord (typeOnly : Bool) : List Piece :=
  if typeOnly then [.word "type", .space] else []

namespace Bindings

def pieces : Bindings → List Piece
  | whole name => [.sign '*', .space, .word "as", .space, .word name]
  | named elements => Specifier.bracePieces elements

/-- Names that are bound are words. -/
def Printable : Bindings → Prop
  | whole name => isIdentifier name = true
  | named elements =>
    ∀ s ∈ elements, s.Printable ∧ (s.renamed ≠ none → isIdentifier s.name = true)

instance : (b : Bindings) → Decidable b.Printable
  | whole name => inferInstanceAs (Decidable (isIdentifier name = true))
  | named elements => inferInstanceAs (Decidable (∀ s ∈ elements,
      s.Printable ∧ (s.renamed ≠ none → isIdentifier s.name = true)))

/-- A namespace or elements, as they are bound. -/
theorem legible {b : Bindings} (hb : b.Printable) {q : Quote} {ps : List Piece}
    (hends : EndsWord (Piece.print q ps)) (h : Piece.Legible q ps) :
    Piece.Legible q (b.pieces ++ ps) := by
  cases b with
  | whole name =>
      exact .sign (by decide) (.space (.word rfl rfl (.space (.word hb hends h))))
  | named elements => exact Specifier.legible_braces h elements

end Bindings

/-- What an import binds besides its default, with a space behind it. -/
def bindingPieces : Option Bindings → List Piece
  | none => []
  | some b => b.pieces ++ [.space]

/-- Bindings behind a default, which may be absent. -/
theorem legible_bindingPieces {bindings : Option Bindings} (hb : ∀ b ∈ bindings, b.Printable)
    {q : Quote} {ps : List Piece} (h : Piece.Legible q ps) :
    Piece.Legible q (bindingPieces bindings ++ ps) := by
  cases bindings with
  | none => exact h
  | some b =>
      rw [bindingPieces, List.append_assoc]
      exact Bindings.legible (hb b rfl) rfl (.space h)

namespace ImportClause

def pieces : ImportClause → List Piece
  | ⟨none, bindings⟩ => bindingPieces bindings
  | ⟨some name, none⟩ => [.word name, .space]
  | ⟨some name, some b⟩ => .word name :: .sign ',' :: .space :: bindingPieces (some b)

structure Printable (clause : ImportClause) : Prop where
  defaultName : ∀ name ∈ clause.defaultName, isIdentifier name = true
  bindings : ∀ b ∈ clause.bindings, b.Printable

instance (clause : ImportClause) : Decidable clause.Printable :=
  decidable_of_iff ((∀ name ∈ clause.defaultName, isIdentifier name = true) ∧
      ∀ b ∈ clause.bindings, b.Printable)
    ⟨fun h => ⟨h.1, h.2⟩, fun h => ⟨h.defaultName, h.bindings⟩⟩

/-- What an import binds, a default first. -/
theorem legible {clause : ImportClause} (hclause : clause.Printable) {q : Quote} {ps : List Piece}
    (h : Piece.Legible q ps) : Piece.Legible q (clause.pieces ++ ps) := by
  obtain ⟨hname, hbindings⟩ := hclause
  have hb := legible_bindingPieces hbindings h
  obtain ⟨_ | name, _ | b⟩ := clause
  · exact hb
  · exact hb
  · exact .word (hname name rfl) rfl (.space h)
  · exact .word (hname name rfl) rfl (.sign (by decide) (.space hb))

end ImportClause

namespace Import

def pieces (i : Import) : List Piece :=
  .word "import" :: .space :: (typeWord i.typeOnly ++
    (match i.clause with
      | none => []
      | some clause => clause.pieces ++ [.word "from", .space]) ++
    [.string i.specifier, .sign ';'])

/-- Only an import that binds something can be marked as one of types. -/
def Printable (i : Import) : Prop :=
  match i.clause with
  | none => i.typeOnly = false
  | some clause => clause.Printable ∧ (clause = ⟨none, none⟩ → i.typeOnly = false)

instance : (i : Import) → Decidable i.Printable
  | ⟨_, none, typeOnly, _⟩ => inferInstanceAs (Decidable (typeOnly = false))
  | ⟨_, some clause, typeOnly, _⟩ => inferInstanceAs (Decidable (clause.Printable ∧
      (clause = ⟨none, none⟩ → typeOnly = false)))

end Import

namespace Export

def clausePieces : Option ExportClause → List Piece
  | none => [.sign '*']
  | some (.whole name) => [.sign '*', .space, .word "as", .space, namePiece name]
  | some (.named elements) => Specifier.bracePieces elements

def sourcePieces : Option String → List Piece
  | none => []
  | some specifier => [.space, .word "from", .space, .string specifier]

def pieces (e : Export) : List Piece :=
  .word "export" :: .space :: (typeWord e.typeOnly ++ clausePieces e.clause ++
    sourcePieces e.specifier ++ [.sign ';'])

def Printable (e : Export) : Prop :=
  match e.clause with
  | some (.named elements) => ∀ s ∈ elements, s.Printable
  | _ => True

instance : (e : Export) → Decidable e.Printable
  | ⟨some (.named elements), _, _, _⟩ =>
    inferInstanceAs (Decidable (∀ s ∈ elements, s.Printable))
  | ⟨some (.whole _), _, _, _⟩ | ⟨none, _, _, _⟩ => .isTrue trivial

end Export

namespace Statement

def pieces : Statement → List Piece
  | importing i => i.pieces
  | exporting e => e.pieces
  | _ => []

/-- An import or an export that can be read back. -/
inductive Printable : Statement → Prop
  | importing {i : Import} : i.Printable → Printable (.importing i)
  | exporting {e : Export} : e.Printable → Printable (.exporting e)

instance : (s : Statement) → Decidable s.Printable
  | .importing i => decidable_of_iff i.Printable ⟨.importing, fun | .importing h => h⟩
  | .exporting e => decidable_of_iff e.Printable ⟨.exporting, fun | .exporting h => h⟩
  | .declaration _ | .scope _ | .other _ => .isFalse nofun

/-- Every statement that is written begins with a word. -/
theorem Printable.exists_pieces {s : Statement} (hs : s.Printable) :
    ∃ w ps, s.pieces = .word w :: ps := by
  cases hs with
  | importing => exact ⟨_, _, rfl⟩
  | exporting => exact ⟨_, _, rfl⟩

/-- Each statement on a line of its own. -/
def lines (ss : List Statement) : List Piece := ss.flatMap fun s => s.pieces ++ [.lineFeed]

end Statement

-- ── What is written is legible ───────────────────────────────────────────────────

/-- The word `type` in front of bindings, if only types are meant. -/
theorem legible_typeWord (typeOnly : Bool) {q : Quote} {ps : List Piece}
    (h : Piece.Legible q ps) : Piece.Legible q (typeWord typeOnly ++ ps) := by
  cases typeOnly with
  | false => exact h
  | true => exact .word rfl rfl (.space h)

/-- An import is legible up to its semicolon, whatever follows it. -/
theorem Import.legible {i : Import} (hi : i.Printable) {q : Quote} {ps : List Piece}
    (h : Piece.Legible q ps) : Piece.Legible q (i.pieces ++ ps) := by
  have hmodule : Piece.Legible q (.string i.specifier :: .sign ';' :: ps) :=
    .string _ (.sign (by decide) h)
  unfold Printable at hi
  simp only [pieces, List.cons_append, List.append_assoc, List.nil_append]
  refine .word rfl rfl (.space (legible_typeWord _ ?_))
  cases hclause : i.clause with
  | none => exact hmodule
  | some clause =>
      simp only [hclause] at hi
      rw [List.append_assoc]
      exact ImportClause.legible hi.1 (.word rfl rfl (.space hmodule))

theorem Export.legible (e : Export) {q : Quote} {ps : List Piece}
    (h : Piece.Legible q ps) : Piece.Legible q (e.pieces ++ ps) := by
  have hsource : Piece.Legible q (sourcePieces e.specifier ++ .sign ';' :: ps) ∧
      EndsWord (Piece.print q (sourcePieces e.specifier ++ .sign ';' :: ps)) := by
    cases e.specifier with
    | none => exact ⟨.sign (by decide) h, rfl⟩
    | some s => exact ⟨.space (.word rfl rfl (.space (.string s (.sign (by decide) h)))), rfl⟩
  simp only [pieces, List.cons_append, List.append_assoc, List.nil_append]
  refine .word rfl rfl (.space (legible_typeWord _ ?_))
  cases e.clause with
  | none => exact .sign (by decide) hsource.1
  | some clause =>
      cases clause with
      | whole name =>
          exact .sign (by decide) (.space (.word rfl rfl (.space (.name name hsource.2 hsource.1))))
      | named elements => exact Specifier.legible_braces hsource.1 elements

/-- Statements on lines of their own are read as the tokens that they were put down for. -/
theorem Statement.legible_lines {ss : List Statement} (hss : ∀ s ∈ ss, s.Printable) (q : Quote) :
    Piece.Legible q (Statement.lines ss) := by
  induction ss with
  | nil => exact .nil
  | cons s ss ih =>
      have h := Piece.Legible.lineFeed (ih fun s' hs' => hss s' (.tail s hs'))
      rw [lines, List.flatMap_cons, List.append_assoc, List.singleton_append]
      cases hss s (List.mem_cons_self ..) with
      | importing hi => exact Import.legible hi h
      | exporting => exact Export.legible _ h

end DeclAtlas

import DeclAtlas.Proofs.Likeness
import DeclAtlas.Text.Split

/-!
# Types as text

Types are written on one line, as they are read: a name with its arguments, brackets behind the
element of an array, the parts of a union between bars.  No parentheses are added, so a type can be
read back only if it stands where the grammar expects a type of its form.  `Canonical` says where
that is, level by level.

Of what is written of a canonical type, three things are known: it is legible
(`Canonical.legible`), it begins with a token that begins a type and not with a label
(`Canonical.opensType`), and it closes every bracket that it opens (`Canonical.balanced`).
-/

namespace DeclAtlas

-- ── How types are written ────────────────────────────────────────────────────────

/-- The words between the points of a name. -/
def nameWords (name : String) : List String :=
  (Text.pieces (· == '.') name.toList).map String.ofList

def dottedPieces : List String → List Piece
  | [] => []
  | w :: ws => .word w :: ws.flatMap fun v => [.dot, .word v]

/-- What stands between the elements of a list. -/
def commas : List Piece := [.sign ',', .space]

/-- What stands between the parts of a union or an intersection. -/
def spaced (c : Char) : List Piece := [.space, .sign c, .space]

mutual

/-- How a type is written. -/
def TypeExpr.pieces : TypeExpr → List Piece
  | .keyword k => [.word k.word]
  | .reference name args =>
    dottedPieces (nameWords name) ++
      if args.isEmpty then [] else .sign '<' :: (typePieces commas args ++ [.sign '>'])
  | .array t => t.pieces ++ [.sign '[', .sign ']']
  | .tuple ts => .sign '[' :: (typePieces commas ts ++ [.sign ']'])
  | .union ts => typePieces (spaced '|') ts
  | .intersection ts => typePieces (spaced '&') ts
  | .literal s => [.string s]
  | .function => [.sign '(', .sign ')', .space, .arrow, .space, .word "void"]
  | .members ms => .sign '\x7b' :: .space :: (memberPieces ms ++ [.sign '\x7d'])
  | .paren t => .sign '(' :: (t.pieces ++ [.sign ')'])
  | .query name => .word "typeof" :: .space :: dottedPieces (nameWords name)
  | .other => []

/-- Types with a separator between any two of them. -/
def typePieces (sep : List Piece) : List TypeExpr → List Piece
  | [] => []
  | t :: ts => t.pieces ++ piecesAfter sep ts

/-- Types, each behind a separator. -/
def piecesAfter (sep : List Piece) : List TypeExpr → List Piece
  | [] => []
  | t :: ts => sep ++ (t.pieces ++ piecesAfter sep ts)

/-- Members of a type literal, each up to a semicolon. -/
def memberPieces : List Member → List Piece
  | [] => []
  | m :: ms => m.pieces ++ memberPieces ms

def Member.pieces : Member → List Piece
  | ⟨_, name, type, _, optional, _⟩ =>
    .word (name.getD "") :: ((if optional then [.sign '?'] else []) ++
      .sign ':' :: .space :: (annotationPieces type ++ [.sign ';', .space]))

def annotationPieces : Option TypeExpr → List Piece
  | none => []
  | some t => t.pieces

end

/-- Type arguments between angle brackets, if there are any. -/
def argPieces (args : List TypeExpr) : List Piece :=
  if args.isEmpty then [] else .sign '<' :: (typePieces commas args ++ [.sign '>'])

/-- A reference is written as its dotted name and its arguments. -/
theorem pieces_reference (name : String) (args : List TypeExpr) :
    (TypeExpr.reference name args).pieces = dottedPieces (nameWords name) ++ argPieces args := by
  rw [TypeExpr.pieces]
  rfl

/-- Arguments that are there stand between angle brackets. -/
theorem argPieces_cons (t : TypeExpr) (ts : List TypeExpr) :
    argPieces (t :: ts) = .sign '<' :: (typePieces commas (t :: ts) ++ [.sign '>']) := rfl

-- ── Canonical types ──────────────────────────────────────────────────────────────

/-- Words that begin a type of another form, so that no name of a type begins with them. -/
def formWords : List String :=
  ["typeof", "keyof", "unique", "readonly", "infer", "new", "true", "false"]

/-- Words between points, of which the first says of no other form, and which are no keyword. -/
structure IsTypeName (name : String) : Prop where
  words : ∀ w ∈ nameWords name, isIdentifier w = true
  first : ∀ w ∈ (nameWords name).head?, w ∉ formWords
  single : ∀ w, nameWords name = [w] → Keyword.ofWord? w = none

instance (name : String) : Decidable (IsTypeName name) :=
  decidable_of_iff ((∀ w ∈ nameWords name, isIdentifier w = true) ∧
      ∀ w ∈ (nameWords name).head?, w ∉ formWords ∧
        (nameWords name = [w] → Keyword.ofWord? w = none))
    ⟨fun ⟨hwords, hfirst⟩ => ⟨hwords, fun w hw => (hfirst w hw).1,
        fun w hw => (hfirst w (by rw [hw]; rfl)).2 hw⟩,
      fun h => ⟨h.words, fun w hw => ⟨h.first w hw, h.single w⟩⟩⟩

/-- Words between points, of which the first is not `import`. -/
structure IsValueName (name : String) : Prop where
  words : ∀ w ∈ nameWords name, isIdentifier w = true
  first : ∀ w ∈ (nameWords name).head?, w ≠ "import"

instance (name : String) : Decidable (IsValueName name) :=
  decidable_of_iff ((∀ w ∈ nameWords name, isIdentifier w = true) ∧
      ∀ w ∈ (nameWords name).head?, w ≠ "import")
    ⟨fun ⟨hwords, hfirst⟩ => ⟨hwords, hfirst⟩, fun h => ⟨h.words, h.first⟩⟩

/-- A property signature with a word for its name, and with a type. -/
structure Member.IsProperty (m : Member) : Prop where
  kind : m.kind = .propertySignature
  name : ∃ w, m.name = some w ∧ isIdentifier w = true
  type : m.type ≠ none
  isStatic : m.isStatic = false

/-- A property signature in full: all that it leaves open are name, type, mark and span. -/
theorem Member.IsProperty.exists_eq {m : Member} (h : m.IsProperty) :
    ∃ w t optional span, m = ⟨.propertySignature, some w, some t, false, optional, span⟩ ∧
      isIdentifier w = true := by
  obtain ⟨kind, name, type, isStatic, optional, span⟩ := m
  obtain ⟨w, hname, hw⟩ := h.name
  obtain ⟨t, htype⟩ := Option.ne_none_iff_exists'.mp h.type
  refine ⟨w, t, optional, span, ?_, hw⟩
  obtain rfl : kind = .propertySignature := h.kind
  obtain rfl : isStatic = false := h.isStatic
  obtain rfl : name = some w := hname
  obtain rfl : type = some t := htype
  rfl

/-- What may stand where in a type: operands of intersections, parts of unions, and so on. -/
inductive Level
  | operand
  | intersection
  | union
  | any
deriving DecidableEq, Repr

open Level in
/-- Types that can be written without parentheses that they do not have. -/
inductive Canonical : Level → TypeExpr → Prop
  | keyword (k : Keyword) : Canonical operand (.keyword k)
  | reference {name : String} {args : List TypeExpr} : IsTypeName name →
      (∀ t ∈ args, Canonical any t) → Canonical operand (.reference name args)
  | array {t : TypeExpr} : Canonical operand t → Canonical operand (.array t)
  | tuple {ts : List TypeExpr} : (∀ t ∈ ts, Canonical any t) → Canonical operand (.tuple ts)
  | literal (s : String) : Canonical operand (.literal s)
  | members {ms : List Member} : (∀ m ∈ ms, m.IsProperty) →
      (∀ m ∈ ms, ∀ t, m.type = some t → Canonical any t) → Canonical operand (.members ms)
  | paren {t : TypeExpr} : Canonical any t → Canonical operand (.paren t)
  | query {name : String} : IsValueName name → Canonical operand (.query name)
  | ofOperand {t : TypeExpr} : Canonical operand t → Canonical intersection t
  | intersection {ts : List TypeExpr} : 2 ≤ ts.length → (∀ t ∈ ts, Canonical operand t) →
      Canonical intersection (.intersection ts)
  | ofIntersection {t : TypeExpr} : Canonical intersection t → Canonical union t
  | union {ts : List TypeExpr} : 2 ≤ ts.length → (∀ t ∈ ts, Canonical intersection t) →
      Canonical union (.union ts)
  | ofUnion {t : TypeExpr} : Canonical union t → Canonical any t
  | function : Canonical any .function

/-- An operand may stand wherever a type may. -/
theorem Canonical.anywhere {t : TypeExpr} (h : Canonical .operand t) : Canonical .any t :=
  .ofUnion (.ofIntersection (.ofOperand h))

/-- A name without arguments is a type. -/
theorem Canonical.plain {name : String} (h : IsTypeName name) :
    Canonical .any (.reference name []) :=
  Canonical.anywhere (.reference h (List.forall_mem_nil _))

-- ── What is written is legible ───────────────────────────────────────────────────

section Legible

variable {q : Quote}

/-- The pieces are legible in front of everything that ends a word. -/
def LegibleBefore (q : Quote) (own : List Piece) : Prop :=
  ∀ {ps : List Piece}, EndsWord (Piece.print q ps) → Piece.Legible q ps →
    Piece.Legible q (own ++ ps)

/-- The pieces are legible in the same way, and end a word themselves. -/
def LegibleBehind (q : Quote) (own : List Piece) : Prop :=
  ∀ {ps : List Piece}, EndsWord (Piece.print q ps) → Piece.Legible q ps →
    EndsWord (Piece.print q (own ++ ps)) ∧ Piece.Legible q (own ++ ps)

/-- A point does not go on with a word, and neither does what follows one. -/
theorem legible_dots {ws : List String} (hws : ∀ w ∈ ws, isIdentifier w = true) :
    LegibleBehind q (ws.flatMap fun v => [.dot, .word v]) := by
  intro ps hends h
  induction ws with
  | nil => exact ⟨hends, h⟩
  | cons w ws ih =>
      obtain ⟨hw, hws⟩ := List.forall_mem_cons.mp hws
      obtain ⟨hends', h'⟩ := ih hws
      exact ⟨rfl, .dot hw (.word hw hends' h')⟩

/-- A dotted name is legible in front of what ends its last word. -/
theorem legible_dotted {ws : List String} (hws : ∀ w ∈ ws, isIdentifier w = true) :
    LegibleBefore q (dottedPieces ws) := by
  intro ps hends h
  cases ws with
  | nil => exact h
  | cons w ws =>
      obtain ⟨hw, hws⟩ := List.forall_mem_cons.mp hws
      obtain ⟨hends', h'⟩ := legible_dots hws hends h
      exact .word hw hends' h'

/-- Types behind separators, if a separator ends a word and is legible itself. -/
theorem legible_piecesAfter {sep : List Piece} {ts : List TypeExpr}
    (hends : ∀ ps, EndsWord (Piece.print q (sep ++ ps)))
    (hsep : ∀ ps, Piece.Legible q ps → Piece.Legible q (sep ++ ps))
    (hts : ∀ t ∈ ts, LegibleBefore q t.pieces) : LegibleBehind q (piecesAfter sep ts) := by
  intro ps hps h
  induction ts with
  | nil => exact ⟨hps, h⟩
  | cons t ts ih =>
      obtain ⟨ht, hts⟩ := List.forall_mem_cons.mp hts
      obtain ⟨hends', h'⟩ := ih hts
      rw [piecesAfter, List.append_assoc, List.append_assoc]
      exact ⟨hends _, hsep _ (ht hends' h')⟩

/-- Types with separators between them. -/
theorem legible_typePieces {sep : List Piece} {ts : List TypeExpr}
    (hends : ∀ ps, EndsWord (Piece.print q (sep ++ ps)))
    (hsep : ∀ ps, Piece.Legible q ps → Piece.Legible q (sep ++ ps))
    (hts : ∀ t ∈ ts, LegibleBefore q t.pieces) : LegibleBefore q (typePieces sep ts) := by
  intro ps hps h
  cases ts with
  | nil => exact h
  | cons t ts =>
      obtain ⟨ht, hts⟩ := List.forall_mem_cons.mp hts
      obtain ⟨hends', h'⟩ := legible_piecesAfter hends hsep hts hps h
      rw [typePieces, List.append_assoc]
      exact ht hends' h'

/-- A comma and a blank separate types. -/
theorem legible_commas {ts : List TypeExpr} (hts : ∀ t ∈ ts, LegibleBefore q t.pieces) :
    LegibleBefore q (typePieces commas ts) := by
  refine legible_typePieces (fun ps => ?_) (fun ps h => ?_) hts
  · rfl
  · exact .sign (by decide) (.space h)

theorem legible_spaced {c : Char} (hc : c ∈ signs) {ts : List TypeExpr}
    (hts : ∀ t ∈ ts, LegibleBefore q t.pieces) :
    LegibleBefore q (typePieces (spaced c) ts) := by
  refine legible_typePieces (fun ps => ?_) (fun ps h => ?_) hts
  · rfl
  · exact .space (.sign hc (.space h))

/-- Members of a type literal are legible in front of anything, since each ends with a semicolon. -/
theorem legible_memberPieces {ms : List Member} (hms : ∀ m ∈ ms, m.IsProperty)
    (hts : ∀ m ∈ ms, ∀ t, m.type = some t → LegibleBefore q t.pieces) {ps : List Piece}
    (h : Piece.Legible q ps) : Piece.Legible q (memberPieces ms ++ ps) := by
  induction ms with
  | nil => exact h
  | cons m ms ih =>
      obtain ⟨hm, hms⟩ := List.forall_mem_cons.mp hms
      obtain ⟨ht, hts⟩ := List.forall_mem_cons.mp hts
      have hrest := ih hms hts
      obtain ⟨w, t, optional, span, rfl, hw⟩ := hm.exists_eq
      have hcolon : Piece.Legible q (.sign ':' :: .space ::
          (t.pieces ++ .sign ';' :: .space :: (memberPieces ms ++ ps))) :=
        .sign (by decide) (.space (ht t rfl rfl (.sign (by decide) (.space hrest))))
      simp only [memberPieces, Member.pieces, annotationPieces, List.cons_append,
        List.append_assoc, List.nil_append, Option.getD_some]
      cases optional with
      | false => exact .word hw rfl hcolon
      | true => exact .word hw rfl (.sign (by decide) hcolon)

/-- Every canonical type is legible in front of what ends a word, by induction on the type. -/
theorem Canonical.legible {level : Level} {t : TypeExpr} (h : Canonical level t) (q : Quote) :
    LegibleBefore q t.pieces := by
  induction h with
  | keyword k =>
      have hk : isIdentifier k.word = true := by cases k <;> rfl
      intro ps hends h
      exact .word hk hends h
  | @reference name args hname _ ih =>
      intro ps hends h
      rw [pieces_reference, List.append_assoc]
      cases args with
      | nil => exact legible_dotted hname.words hends h
      | cons t ts =>
          rw [argPieces_cons, List.cons_append, List.append_assoc]
          exact legible_dotted hname.words rfl
            (.sign (by decide) (legible_commas ih rfl (.sign (by decide) h)))
  | array _ ih =>
      intro ps hends h
      rw [TypeExpr.pieces, List.append_assoc]
      exact ih rfl (.sign (by decide) (.sign (by decide) h))
  | tuple _ ih =>
      intro ps hends h
      rw [TypeExpr.pieces, List.cons_append, List.append_assoc]
      exact .sign (by decide) (legible_commas ih rfl (.sign (by decide) h))
  | literal s =>
      intro ps _ h
      exact .string s h
  | members hms _ ih =>
      intro ps _ h
      rw [TypeExpr.pieces, List.cons_append, List.cons_append, List.append_assoc]
      exact .sign (by decide) (.space (legible_memberPieces hms ih (.sign (by decide) h)))
  | paren _ ih =>
      intro ps _ h
      rw [TypeExpr.pieces, List.cons_append, List.append_assoc]
      exact .sign (by decide) (ih rfl (.sign (by decide) h))
  | query hname =>
      intro ps hends h
      exact .word rfl rfl (.space (legible_dotted hname.words hends h))
  | ofOperand _ ih => exact ih
  | intersection _ _ ih => exact legible_spaced (by decide) ih
  | ofIntersection _ ih => exact ih
  | union _ _ ih => exact legible_spaced (by decide) ih
  | ofUnion _ ih => exact ih
  | function =>
      intro ps hends h
      exact .sign (by decide) (.sign (by decide) (.space (.arrow (.space (.word rfl hends h)))))

end Legible

-- ── How types begin ──────────────────────────────────────────────────────────────

/-- Tokens that a type can begin with. -/
def Token.startsType : Token → Bool
  | .word _ | .string _ | .openParen | .openBrace | .openBracket => true
  | _ => false

/-- The marks begin with a token that does not make a label of a word before it. -/
def NoLabel (ms : List Mark) : Prop :=
  ∃ m ms', ms = m :: ms' ∧ m.1 ≠ .colon ∧ m.1 ≠ .question

/-- The marks begin with a type, and not with a label. -/
def OpensType (ms : List Mark) : Prop :=
  ∃ t ms', ms = (t, false) :: ms' ∧ t.startsType = true ∧ (t.word? ≠ none → NoLabel ms')

/-- A name has a first word, be it the empty one. -/
theorem nameWords_ne_nil (name : String) : nameWords name ≠ [] := by
  simp [nameWords, Text.pieces_ne_nil]

/-- Behind the first word of a name comes a point, or what follows the name. -/
theorem marks_dottedPieces (name : String) (ps : List Piece) :
    ∃ w ws, nameWords name = w :: ws ∧
      Piece.marks false (dottedPieces (nameWords name) ++ ps) =
        (.word w, false) :: Piece.marks false ((ws.flatMap fun v => [.dot, .word v]) ++ ps) := by
  obtain ⟨w, ws, hws⟩ := List.exists_cons_of_ne_nil (nameWords_ne_nil name)
  exact ⟨w, ws, hws, by rw [hws]; rfl⟩

theorem noLabel_dots {ws : List String} {ps : List Piece} (hps : NoLabel (Piece.marks false ps)) :
    NoLabel (Piece.marks false ((ws.flatMap fun v => [.dot, .word v]) ++ ps)) := by
  cases ws with
  | nil => exact hps
  | cons v ws => exact ⟨_, _, rfl, by decide, by decide⟩

/-- A separator that is no colon and no question mark makes no label. -/
theorem noLabel_piecesAfter {c : Char} (hc : loneToken c ≠ .colon ∧ loneToken c ≠ .question)
    {ts : List TypeExpr} {ps : List Piece} (hps : NoLabel (Piece.marks false ps)) :
    NoLabel (Piece.marks false (piecesAfter (spaced c) ts ++ ps)) := by
  cases ts with
  | nil => exact hps
  | cons t ts => exact ⟨_, _, rfl, hc⟩

/-- A canonical type begins as types do, and is not taken for a label. -/
theorem Canonical.opensType {level : Level} {t : TypeExpr} (h : Canonical level t) :
    ∀ {ps : List Piece}, NoLabel (Piece.marks false ps) →
      OpensType (Piece.marks false (t.pieces ++ ps)) := by
  induction h with
  | keyword k =>
      intro ps hps
      exact ⟨_, _, rfl, rfl, fun _ => hps⟩
  | @reference name args hname _ ih =>
      intro ps hps
      rw [pieces_reference, List.append_assoc]
      obtain ⟨w, ws, -, hmarks⟩ := marks_dottedPieces name (argPieces args ++ ps)
      refine ⟨_, _, hmarks, rfl, fun _ => noLabel_dots ?_⟩
      cases args with
      | nil => exact hps
      | cons t ts => exact ⟨_, _, rfl, by decide, by decide⟩
  | array _ ih =>
      intro ps _
      rw [TypeExpr.pieces, List.append_assoc]
      exact ih ⟨_, _, rfl, by decide, by decide⟩
  | tuple =>
      intro ps _
      exact ⟨_, _, rfl, rfl, fun h => absurd rfl h⟩
  | literal s =>
      intro ps _
      exact ⟨_, _, rfl, rfl, fun h => absurd rfl h⟩
  | members =>
      intro ps _
      exact ⟨_, _, rfl, rfl, fun h => absurd rfl h⟩
  | paren =>
      intro ps _
      exact ⟨_, _, rfl, rfl, fun h => absurd rfl h⟩
  | @query name =>
      intro ps _
      obtain ⟨w, ws, -, hmarks⟩ := marks_dottedPieces name ps
      exact ⟨_, _, rfl, rfl, fun _ => ⟨_, _, hmarks, Token.noConfusion, Token.noConfusion⟩⟩
  | ofOperand _ ih => exact ih
  | @intersection ts hlength _ ih =>
      intro ps hps
      cases ts with
      | nil => exact absurd hlength (by decide)
      | cons t ts =>
          rw [TypeExpr.pieces, typePieces, List.append_assoc]
          exact ih t (List.mem_cons_self ..) (noLabel_piecesAfter (by decide) hps)
  | ofIntersection _ ih => exact ih
  | @union ts hlength _ ih =>
      intro ps hps
      cases ts with
      | nil => exact absurd hlength (by decide)
      | cons t ts =>
          rw [TypeExpr.pieces, typePieces, List.append_assoc]
          exact ih t (List.mem_cons_self ..) (noLabel_piecesAfter (by decide) hps)
  | ofUnion _ ih => exact ih
  | function =>
      intro ps _
      exact ⟨_, _, rfl, rfl, fun h => absurd rfl h⟩

-- ── Brackets in types ────────────────────────────────────────────────────────────

section Closer

variable {l : Lexeme} {ls : List Lexeme}

/-- A bracket that opens is one more to be searched for. -/
theorem closerIndex_opens (d : Nat) (h : l.token.opens = true) :
    closerIndex d (l :: ls) = (closerIndex (d + 1) ls).map (· + 1) := by
  cases d <;> simp [closerIndex, h]

theorem closerIndex_other (d : Nat) (hopens : l.token.opens = false)
    (hcloses : l.token.closes = false) :
    closerIndex d (l :: ls) = (closerIndex d ls).map (· + 1) := by
  cases d <;> simp [closerIndex, hopens, hcloses]

/-- A bracket that closes an inner one is passed. -/
theorem closerIndex_closes (d : Nat) (hopens : l.token.opens = false)
    (hcloses : l.token.closes = true) :
    closerIndex (d + 2) (l :: ls) = (closerIndex (d + 1) ls).map (· + 1) := by
  simp [closerIndex, hopens, hcloses]

end Closer

namespace Piece

/-- Every bracket that the pieces open they also close: inside of brackets, the search for the
    closing one goes past them. -/
def Balanced (ps : List Piece) : Prop :=
  ∀ (d : Nat) (own ls : List Lexeme), own.map Lexeme.token = tokens ps →
    closerIndex (d + 1) (own ++ ls) = (closerIndex (d + 1) ls).map (· + (tokens ps).length)

def isBracket (p : Piece) : Bool := p.token?.any fun t => t.opens || t.closes

namespace Balanced

variable {ps ps' : List Piece}

theorem nil : Balanced [] := by
  intro d own ls h
  rw [List.map_eq_nil_iff.mp h]
  simp [tokens]

/-- Rows of balanced pieces, one after the other. -/
theorem append (h : Balanced ps) (h' : Balanced ps') : Balanced (ps ++ ps') := by
  intro d own ls hown
  rw [tokens_append] at hown ⊢
  obtain ⟨own₁, own₂, rfl, h₁, h₂⟩ := List.map_eq_append_iff.mp hown
  rw [List.append_assoc, h d own₁ _ h₁, h' d own₂ ls h₂, Option.map_map]
  congr 1
  funext i
  simp only [Function.comp_apply, List.length_append]
  omega

/-- A piece that is no bracket, in front of them. -/
theorem cons {p : Piece} (hp : p.isBracket = false) (h : Balanced ps) : Balanced (p :: ps) := by
  intro d own ls hown
  rw [tokens_cons] at hown ⊢
  cases ht : p.token? with
  | none =>
      rw [ht] at hown
      exact h d own ls hown
  | some t =>
      rw [ht] at hown
      obtain ⟨l, own', rfl, hl, hown'⟩ := List.map_eq_cons_iff.mp hown
      simp only [isBracket, ht, Option.any_some, Bool.or_eq_false_iff, ← hl] at hp
      rw [List.cons_append, closerIndex_other _ hp.1 hp.2, h d own' ls hown', Option.map_map]
      rfl

/-- Balanced pieces between brackets. -/
theorem bracketed {c c' : Char} (hopens : (loneToken c).opens = true)
    (hopens' : (loneToken c').opens = false) (hcloses : (loneToken c').closes = true)
    (h : Balanced ps) : Balanced (.sign c :: (ps ++ [.sign c'])) := by
  intro d own ls hown
  rw [tokens_cons, tokens_append] at hown ⊢
  have hown : own.map Lexeme.token = loneToken c :: (tokens ps ++ [loneToken c']) := hown
  obtain ⟨l, own₁, rfl, hl, hown₁⟩ := List.map_eq_cons_iff.mp hown
  obtain ⟨own₂, close, rfl, hown₂, hclose⟩ := List.map_eq_append_iff.mp hown₁
  obtain ⟨l', own₃, rfl, hl', hown₃⟩ := List.map_eq_cons_iff.mp hclose
  obtain rfl := List.map_eq_nil_iff.mp hown₃
  rw [← hl] at hopens
  rw [← hl'] at hopens' hcloses
  rw [List.cons_append, List.append_assoc, List.singleton_append, closerIndex_opens _ hopens,
    h (d + 1) own₂ _ hown₂, closerIndex_closes d hopens' hcloses, Option.map_map, Option.map_map]
  congr 1
  funext i
  simp only [Function.comp_apply, tokens_cons, tokens_nil, token?, Option.toList_some,
    List.length_append, List.length_cons, List.length_nil]
  omega

end Balanced

end Piece

/-- There are no brackets in a dotted name. -/
theorem balanced_dottedPieces (ws : List String) : Piece.Balanced (dottedPieces ws) := by
  have hdots : ∀ ws : List String, Piece.Balanced (ws.flatMap fun v => [.dot, .word v]) := by
    intro ws
    induction ws with
    | nil => exact .nil
    | cons w ws ih => exact .cons rfl (.cons rfl ih)
  cases ws with
  | nil => exact .nil
  | cons w ws => exact .cons rfl (hdots ws)

/-- What holds of pieces one after the other if it holds of each of them, holds of types between
    separators. -/
theorem typePieces_all {P : List Piece → Prop} (hnil : P [])
    (happend : ∀ {ps qs}, P ps → P qs → P (ps ++ qs)) {sep : List Piece} {ts : List TypeExpr}
    (hsep : P sep) (hts : ∀ t ∈ ts, P t.pieces) : P (typePieces sep ts) := by
  have hafter : ∀ {ts : List TypeExpr}, (∀ t ∈ ts, P t.pieces) → P (piecesAfter sep ts) := by
    intro ts hts
    induction ts with
    | nil => exact hnil
    | cons t ts ih =>
        obtain ⟨ht, hts⟩ := List.forall_mem_cons.mp hts
        exact happend hsep (happend ht (ih hts))
  cases ts with
  | nil => exact hnil
  | cons t ts =>
      obtain ⟨ht, hts⟩ := List.forall_mem_cons.mp hts
      exact happend ht (hafter hts)

/-- Types with separators between them are balanced if all of these are. -/
theorem balanced_typePieces {sep : List Piece} {ts : List TypeExpr} (hsep : Piece.Balanced sep)
    (hts : ∀ t ∈ ts, Piece.Balanced t.pieces) : Piece.Balanced (typePieces sep ts) :=
  typePieces_all .nil Piece.Balanced.append hsep hts

theorem balanced_memberPieces {ms : List Member}
    (hms : ∀ m ∈ ms, ∀ t, m.type = some t → Piece.Balanced t.pieces) :
    Piece.Balanced (memberPieces ms) := by
  induction ms with
  | nil => exact .nil
  | cons m ms ih =>
      obtain ⟨ht, hms'⟩ := List.forall_mem_cons.mp hms
      obtain ⟨kind, name, type, isStatic, optional, span⟩ := m
      have htype : Piece.Balanced (annotationPieces type) := by
        cases type with
        | none => exact .nil
        | some t => exact ht t rfl
      have hcolon : Piece.Balanced (.sign ':' :: .space ::
          (annotationPieces type ++ [.sign ';', .space])) :=
        .cons rfl (.cons rfl (htype.append (.cons rfl (.cons rfl .nil))))
      refine .append ?_ (ih hms')
      cases optional with
      | false => exact .cons rfl hcolon
      | true => exact .cons rfl (.cons rfl hcolon)

/-- Every canonical type closes its own brackets. -/
theorem Canonical.balanced {level : Level} {t : TypeExpr} (h : Canonical level t) :
    Piece.Balanced t.pieces := by
  have hcommas : Piece.Balanced commas := .cons rfl (.cons rfl .nil)
  have hspaced : ∀ c, (Piece.sign c).isBracket = false → Piece.Balanced (spaced c) := fun c hc =>
    .cons rfl (.cons hc (.cons rfl .nil))
  induction h with
  | keyword k => exact .cons rfl .nil
  | @reference name args _ _ ih =>
      rw [pieces_reference]
      refine (balanced_dottedPieces _).append ?_
      cases args with
      | nil => exact .nil
      | cons t ts =>
          exact .cons rfl ((balanced_typePieces hcommas ih).append (.cons rfl .nil))
  | array _ ih =>
      rw [TypeExpr.pieces]
      exact ih.append (.bracketed rfl rfl rfl .nil)
  | tuple _ ih =>
      rw [TypeExpr.pieces]
      exact .bracketed rfl rfl rfl (balanced_typePieces hcommas ih)
  | literal s => exact .cons rfl .nil
  | @members ms _ _ ih =>
      have hms : Piece.Balanced (.space :: memberPieces ms) := .cons rfl (balanced_memberPieces ih)
      rw [TypeExpr.pieces]
      exact .bracketed rfl rfl rfl hms
  | paren _ ih =>
      rw [TypeExpr.pieces]
      exact .bracketed rfl rfl rfl ih
  | query => exact .cons rfl (.cons rfl (balanced_dottedPieces _))
  | ofOperand _ ih => exact ih
  | intersection _ _ ih => exact balanced_typePieces (hspaced _ rfl) ih
  | ofIntersection _ ih => exact ih
  | union _ _ ih => exact balanced_typePieces (hspaced _ rfl) ih
  | ofUnion _ ih => exact ih
  | function =>
      have hparams : Piece.Balanced [.sign '(', .sign ')'] := .bracketed rfl rfl rfl .nil
      exact hparams.append (.cons rfl (.cons rfl (.cons rfl (.cons rfl .nil))))

end DeclAtlas

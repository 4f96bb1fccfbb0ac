import DeclAtlas.Proofs.Spelling
import DeclAtlas.Syntax.Grammar.Module
import Mathlib.Data.List.Forall2

/-!
# When two results are alike

Two token lists that the grammar cannot tell apart are read to results of one shape, which differ in
nothing but what was copied from the texts: spans, and the texts that are cut out whole.  A
`Likeness` says which tokens and which spans are taken for alike, and what has to hold of both.
From it follows when types, members, declarations and statements are alike: they are built alike
from parts that are alike.

Under the likeness that only equal things have, alike results are equal; under one that is a
function of spans, one result is the image of the other (`Statement.Alike.eq_mapSpan`).
-/

namespace DeclAtlas

/-- What is taken for alike of two token lists that are read side by side. -/
structure Likeness where
  lexeme : Lexeme → Lexeme → Prop
  span : Span → Span → Prop
  /-- What is kept of tokens that have been read. -/
  near : Lexeme → Lexeme → Prop
  /-- Parts of the lists may be compared, from one token on or up to a fence. -/
  parts : Prop
  mark_eq {l m : Lexeme} : lexeme l m → l.mark = m.mark
  text_eq {l m : Lexeme} : lexeme l m → l.text = m.text
  near_of {l m : Lexeme} : lexeme l m → near l m
  near_token {l m : Lexeme} : near l m → l.token = m.token
  near_span {l m : Lexeme} : near l m → span l.span m.span
  through {s t l m : Span} : span s t → span l m → span (s.through l) (t.through m)

/-- Only what is equal is alike. -/
def Likeness.equality (parts : Prop) : Likeness where
  lexeme := Eq
  span := Eq
  near := Eq
  parts := parts
  mark_eq := by rintro l _ rfl; rfl
  text_eq := by rintro l _ rfl; rfl
  near_of := id
  near_token := by rintro l _ rfl; rfl
  near_span := by rintro l _ rfl; rfl
  through := by rintro s _ l _ rfl rfl; rfl

/-- The text of neighbouring tokens, and of what stands between them. -/
def cutText (ls : List Lexeme) : String := String.ofList (Lexeme.joinText ls)

/-- Texts that are cut out from like tokens. -/
def Likeness.Text (L : Likeness) (s t : String) : Prop :=
  ∃ ls ms, List.Forall₂ L.lexeme ls ms ∧ s = cutText ls ∧ t = cutText ms

-- ── Results that are alike ───────────────────────────────────────────────────────

mutual

/-- Types that are built alike.  Numbers with a sign are cut out from two tokens. -/
inductive TypeExpr.Alike (L : Likeness) : TypeExpr → TypeExpr → Prop
  | keyword (k : Keyword) : TypeExpr.Alike L (.keyword k) (.keyword k)
  | reference (name : String) {args args' : List TypeExpr} :
      List.Forall₂ (TypeExpr.Alike L) args args' →
      TypeExpr.Alike L (.reference name args) (.reference name args')
  | array {t t' : TypeExpr} : TypeExpr.Alike L t t' → TypeExpr.Alike L (.array t) (.array t')
  | tuple {ts ts' : List TypeExpr} : List.Forall₂ (TypeExpr.Alike L) ts ts' →
      TypeExpr.Alike L (.tuple ts) (.tuple ts')
  | union {ts ts' : List TypeExpr} : List.Forall₂ (TypeExpr.Alike L) ts ts' →
      TypeExpr.Alike L (.union ts) (.union ts')
  | intersection {ts ts' : List TypeExpr} : List.Forall₂ (TypeExpr.Alike L) ts ts' →
      TypeExpr.Alike L (.intersection ts) (.intersection ts')
  | literal (text : String) : TypeExpr.Alike L (.literal text) (.literal text)
  | signedNumber {ls ms : List Lexeme} : List.Forall₂ L.lexeme ls ms →
      ls.map Lexeme.token = [.operator, .number] →
      TypeExpr.Alike L (.literal (cutText ls)) (.literal (cutText ms))
  | function : TypeExpr.Alike L .function .function
  | members {ms ms' : List Member} : List.Forall₂ (Member.Alike L) ms ms' →
      TypeExpr.Alike L (.members ms) (.members ms')
  | paren {t t' : TypeExpr} : TypeExpr.Alike L t t' → TypeExpr.Alike L (.paren t) (.paren t')
  | query (name : String) : TypeExpr.Alike L (.query name) (.query name)
  | other : TypeExpr.Alike L .other .other

/-- Members of one kind, with one name and one set of flags, and with like types and spans. -/
inductive Member.Alike (L : Likeness) : Member → Member → Prop
  | mk (kind : MemberKind) (name : Option String) (isStatic optional : Bool)
      {type type' : Option TypeExpr} {span span' : Span} :
      Option.Rel (TypeExpr.Alike L) type type' → L.span span span' →
      Member.Alike L ⟨kind, name, type, isStatic, optional, span⟩
        ⟨kind, name, type', isStatic, optional, span'⟩

end

/-- Heritage entries with like types, whose texts are cut out from like tokens. -/
structure Heritage.Alike (L : Likeness) (h h' : Heritage) : Prop where
  text : L.Text h.text h'.text
  type : h.type.Alike L h'.type

/-- Classes and interfaces with one name, like parts and one set of modifiers. -/
inductive Declaration.Alike (L : Likeness) : Declaration → Declaration → Prop
  | ofClass (name : Option String) (typeParams : List String) (modifiers : Modifiers)
      {parent parent' : Option Heritage} {interfaces interfaces' : List Heritage}
      {members members' : List Member} {span span' : Span} :
      Option.Rel (Heritage.Alike L) parent parent' →
      List.Forall₂ (Heritage.Alike L) interfaces interfaces' →
      List.Forall₂ (Member.Alike L) members members' → L.span span span' →
      Declaration.Alike L
        (.ofClass ⟨name, typeParams, parent, interfaces, members, modifiers, span⟩)
        (.ofClass ⟨name, typeParams, parent', interfaces', members', modifiers, span'⟩)
  | ofInterface (name : String) (typeParams : List String) (modifiers : Modifiers)
      {parents parents' : List Heritage} {members members' : List Member} {span span' : Span} :
      List.Forall₂ (Heritage.Alike L) parents parents' →
      List.Forall₂ (Member.Alike L) members members' → L.span span span' →
      Declaration.Alike L
        (.ofInterface ⟨name, typeParams, parents, members, modifiers, span⟩)
        (.ofInterface ⟨name, typeParams, parents', members', modifiers, span'⟩)

mutual

/-- Statements of one kind with like parts.  Imports and exports differ at most in their spans. -/
inductive Statement.Alike (L : Likeness) : Statement → Statement → Prop
  | declaration {d d' : Declaration} : d.Alike L d' →
      Statement.Alike L (.declaration d) (.declaration d')
  | importing (specifier : String) (clause : Option ImportClause) (typeOnly : Bool)
      {span span' : Span} : L.span span span' →
      Statement.Alike L (.importing ⟨specifier, clause, typeOnly, span⟩)
        (.importing ⟨specifier, clause, typeOnly, span'⟩)
  | exporting (clause : Option ExportClause) (specifier : Option String) (typeOnly : Bool)
      {span span' : Span} : L.span span span' →
      Statement.Alike L (.exporting ⟨clause, specifier, typeOnly, span⟩)
        (.exporting ⟨clause, specifier, typeOnly, span'⟩)
  | scope {n n' : NamespaceDecl} : NamespaceDecl.Alike L n n' →
      Statement.Alike L (.scope n) (.scope n')
  | other {span span' : Span} : L.span span span' → Statement.Alike L (.other span) (.other span')

/-- Namespaces of one name with like bodies. -/
inductive NamespaceDecl.Alike (L : Likeness) : NamespaceDecl → NamespaceDecl → Prop
  | mk (name : String) (modifiers : Modifiers) {body body' : NamespaceBody} {span span' : Span} :
      NamespaceBody.Alike L body body' → L.span span span' →
      NamespaceDecl.Alike L ⟨name, body, modifiers, span⟩ ⟨name, body', modifiers, span'⟩

inductive NamespaceBody.Alike (L : Likeness) : NamespaceBody → NamespaceBody → Prop
  | block {ss ss' : List Statement} : List.Forall₂ (Statement.Alike L) ss ss' →
      NamespaceBody.Alike L (.block ss) (.block ss')
  | nested {n n' : NamespaceDecl} : NamespaceDecl.Alike L n n' →
      NamespaceBody.Alike L (.nested n) (.nested n')
  | absent : NamespaceBody.Alike L .absent .absent

end

-- ── Results with other spans ─────────────────────────────────────────────────────

/-- The empty span at the start of a text, in the place of any other: what differs in spans alone
    is the same with this one. -/
def Span.unplaced (_ : Span) : Span := .empty .origin

@[simp] theorem Span.unplaced_eq (s : Span) : s.unplaced = .empty .origin := rfl

section MapSpan

variable (f : Span → Span)

mutual

/-- The same type with other spans. -/
def TypeExpr.mapSpan : TypeExpr → TypeExpr
  | .reference name args => .reference name (mapSpanTypes args)
  | .array t => .array t.mapSpan
  | .tuple ts => .tuple (mapSpanTypes ts)
  | .union ts => .union (mapSpanTypes ts)
  | .intersection ts => .intersection (mapSpanTypes ts)
  | .members ms => .members (mapSpanMembers ms)
  | .paren t => .paren t.mapSpan
  | .keyword k => .keyword k
  | .literal s => .literal s
  | .function => .function
  | .query name => .query name
  | .other => .other

/-- The same types with other spans. -/
def mapSpanTypes : List TypeExpr → List TypeExpr
  | [] => []
  | t :: ts => t.mapSpan :: mapSpanTypes ts

/-- The same members with other spans. -/
def mapSpanMembers : List Member → List Member
  | [] => []
  | m :: ms => m.mapSpan :: mapSpanMembers ms

/-- The same member with other spans. -/
def Member.mapSpan : Member → Member
  | ⟨kind, name, type, isStatic, optional, span⟩ =>
    ⟨kind, name, mapSpanOption type, isStatic, optional, f span⟩

/-- The same type with other spans, if there is one. -/
def mapSpanOption : Option TypeExpr → Option TypeExpr
  | none => none
  | some t => some t.mapSpan

end

/-- The same heritage entry with other spans. -/
def Heritage.mapSpan (h : Heritage) : Heritage := { h with type := h.type.mapSpan f }

/-- The same declaration with other spans. -/
def Declaration.mapSpan : Declaration → Declaration
  | .ofClass c =>
    .ofClass { c with
      parent := c.parent.map (Heritage.mapSpan f)
      interfaces := c.interfaces.map (Heritage.mapSpan f)
      members := mapSpanMembers f c.members
      span := f c.span }
  | .ofInterface i =>
    .ofInterface { i with
      parents := i.parents.map (Heritage.mapSpan f)
      members := mapSpanMembers f i.members
      span := f i.span }

mutual

/-- The same statement with other spans. -/
def Statement.mapSpan : Statement → Statement
  | .declaration d => .declaration (d.mapSpan f)
  | .importing i => .importing { i with span := f i.span }
  | .exporting e => .exporting { e with span := f e.span }
  | .scope n => .scope n.mapSpan
  | .other s => .other (f s)

/-- The same namespace with other spans. -/
def NamespaceDecl.mapSpan : NamespaceDecl → NamespaceDecl
  | ⟨name, body, modifiers, span⟩ => ⟨name, body.mapSpan, modifiers, f span⟩

/-- The same body with other spans. -/
def NamespaceBody.mapSpan : NamespaceBody → NamespaceBody
  | .block ss => .block (mapSpanStatements ss)
  | .nested n => .nested n.mapSpan
  | .absent => .absent

/-- The same statements with other spans. -/
def mapSpanStatements : List Statement → List Statement
  | [] => []
  | s :: ss => s.mapSpan :: mapSpanStatements ss

end

end MapSpan

mutual

/-- Spans that are mapped to themselves leave a type as it is. -/
@[simp] theorem TypeExpr.mapSpan_id : ∀ t : TypeExpr, t.mapSpan id = t
  | .reference _ args => by rw [TypeExpr.mapSpan, mapSpanTypes_id args]
  | .array t => by rw [TypeExpr.mapSpan, t.mapSpan_id]
  | .tuple ts => by rw [TypeExpr.mapSpan, mapSpanTypes_id ts]
  | .union ts => by rw [TypeExpr.mapSpan, mapSpanTypes_id ts]
  | .intersection ts => by rw [TypeExpr.mapSpan, mapSpanTypes_id ts]
  | .members ms => by rw [TypeExpr.mapSpan, mapSpanMembers_id ms]
  | .paren t => by rw [TypeExpr.mapSpan, t.mapSpan_id]
  | .keyword _ | .literal _ | .function | .query _ | .other => rfl

@[simp] theorem mapSpanTypes_id : ∀ ts : List TypeExpr, mapSpanTypes id ts = ts
  | [] => rfl
  | t :: ts => by rw [mapSpanTypes, t.mapSpan_id, mapSpanTypes_id ts]

@[simp] theorem mapSpanMembers_id : ∀ ms : List Member, mapSpanMembers id ms = ms
  | [] => rfl
  | m :: ms => by rw [mapSpanMembers, m.mapSpan_id, mapSpanMembers_id ms]

/-- Mapping spans to themselves leaves a member as it is, with its own span. -/
@[simp] theorem Member.mapSpan_id : ∀ m : Member, m.mapSpan id = m
  | ⟨_, _, none, _, _, _⟩ => rfl
  | ⟨_, _, some t, _, _, _⟩ => by rw [Member.mapSpan, mapSpanOption, t.mapSpan_id, id]

end

/-- An entry keeps its text, so only its type could change, and that does not. -/
@[simp] theorem Heritage.mapSpan_id (h : Heritage) : h.mapSpan id = h := by
  rw [Heritage.mapSpan, TypeExpr.mapSpan_id]

theorem map_mapSpan_id (hs : List Heritage) : hs.map (Heritage.mapSpan id) = hs :=
  List.map_id'' Heritage.mapSpan_id hs

/-- Declarations whose spans are mapped to themselves stay as they are. -/
@[simp] theorem Declaration.mapSpan_id (d : Declaration) : d.mapSpan id = d := by
  cases d with
  | ofClass c =>
      obtain ⟨_, _, _ | _, _, _, _, _⟩ := c <;> simp [Declaration.mapSpan, map_mapSpan_id]
  | ofInterface i => simp [Declaration.mapSpan, map_mapSpan_id]

mutual

/-- The same for statements, which may hold namespaces of statements again. -/
@[simp] theorem Statement.mapSpan_id : ∀ s : Statement, s.mapSpan id = s
  | .declaration d => by rw [Statement.mapSpan, d.mapSpan_id]
  | .scope n => by rw [Statement.mapSpan, n.mapSpan_id]
  | .importing _ | .exporting _ | .other _ => rfl

@[simp] theorem NamespaceDecl.mapSpan_id : ∀ n : NamespaceDecl, n.mapSpan id = n
  | ⟨_, body, _, _⟩ => by rw [NamespaceDecl.mapSpan, body.mapSpan_id, id]

@[simp] theorem NamespaceBody.mapSpan_id : ∀ b : NamespaceBody, b.mapSpan id = b
  | .block ss => by rw [NamespaceBody.mapSpan, mapSpanStatements_id ss]
  | .nested n => by rw [NamespaceBody.mapSpan, n.mapSpan_id]
  | .absent => rfl

@[simp] theorem mapSpanStatements_id : ∀ ss : List Statement, mapSpanStatements id ss = ss
  | [] => rfl
  | s :: ss => by rw [mapSpanStatements, s.mapSpan_id, mapSpanStatements_id ss]

end

-- ── Likeness that is a function ──────────────────────────────────────────────────

/-- A likeness under which spans are mapped, and texts that are cut out are the same. -/
structure Likeness.Maps (L : Likeness) (f : Span → Span) : Prop where
  span {s t : Span} : L.span s t → t = f s
  cut {ls ms : List Lexeme} : List.Forall₂ L.lexeme ls ms → cutText ms = cutText ls

/-- Rows that are alike token by token under equality are equal. -/
theorem Likeness.forall₂_equality {parts : Prop} {ls ms : List Lexeme} :
    List.Forall₂ (Likeness.equality parts).lexeme ls ms ↔ ls = ms := by
  show List.Forall₂ Eq ls ms ↔ ls = ms
  rw [List.forall₂_eq_eq_eq]

/-- Equality maps every span to itself. -/
theorem Likeness.equality_maps (parts : Prop) : (Likeness.equality parts).Maps id where
  span h := h.symm
  cut h := by rw [Likeness.forall₂_equality.mp h]

section Equality

variable (P : Prop)

mutual

/-- Every type is like itself under equality. -/
theorem TypeExpr.alike_self : ∀ t : TypeExpr, t.Alike (.equality P) t
  | .keyword k => .keyword k
  | .reference name args => .reference name (types_alike_self args)
  | .array t => .array t.alike_self
  | .tuple ts => .tuple (types_alike_self ts)
  | .union ts => .union (types_alike_self ts)
  | .intersection ts => .intersection (types_alike_self ts)
  | .literal text => .literal text
  | .function => .function
  | .members ms => .members (members_alike_self ms)
  | .paren t => .paren t.alike_self
  | .query name => .query name
  | .other => .other

theorem types_alike_self : ∀ ts : List TypeExpr, List.Forall₂ (TypeExpr.Alike (.equality P)) ts ts
  | [] => .nil
  | t :: ts => .cons t.alike_self (types_alike_self ts)

theorem members_alike_self : ∀ ms : List Member, List.Forall₂ (Member.Alike (.equality P)) ms ms
  | [] => .nil
  | m :: ms => .cons m.alike_self (members_alike_self ms)

/-- A member is like itself, with a type or without one. -/
theorem Member.alike_self : ∀ m : Member, m.Alike (.equality P) m
  | ⟨kind, name, none, isStatic, optional, _⟩ => .mk kind name isStatic optional .none rfl
  | ⟨kind, name, some t, isStatic, optional, _⟩ =>
    .mk kind name isStatic optional (.some t.alike_self) rfl

end

/-- An entry is like itself: its text is cut out of the one row that is spelled so. -/
theorem Heritage.alike_self (h : Heritage) : h.Alike (.equality P) h where
  text := by
    -- any text is that of one token
    refine ⟨[⟨.unknown, [], h.text.toList, .empty .origin⟩], _, .cons rfl .nil, ?_, ?_⟩ <;>
      simp [cutText, Lexeme.joinText]
  type := h.type.alike_self P

/-- An optional value is related to itself if every value is. -/
theorem rel_self {α : Type} {R : α → α → Prop} (hR : ∀ a, R a a) (a : Option α) :
    Option.Rel R a a := by
  cases a with
  | none => exact .none
  | some a => exact .some (hR a)

/-- Every class and every interface is like itself under equality. -/
theorem Declaration.alike_self (d : Declaration) : d.Alike (.equality P) d := by
  cases d with
  | ofClass c =>
      exact .ofClass _ _ _ (rel_self (Heritage.alike_self P) _)
        (List.forall₂_same.mpr fun h _ => h.alike_self P) (members_alike_self P _) rfl
  | ofInterface i =>
      exact .ofInterface _ _ _ (List.forall₂_same.mpr fun h _ => h.alike_self P)
        (members_alike_self P _) rfl

mutual

/-- Every statement is like itself under equality. -/
theorem Statement.alike_self : ∀ s : Statement, s.Alike (.equality P) s
  | .declaration d => .declaration (d.alike_self P)
  | .importing _ => .importing _ _ _ rfl
  | .exporting _ => .exporting _ _ _ rfl
  | .scope n => .scope n.alike_self
  | .other _ => .other rfl

/-- Every namespace is like itself, whatever stands in it. -/
theorem NamespaceDecl.alike_self : ∀ n : NamespaceDecl, n.Alike (.equality P) n
  | ⟨name, body, modifiers, _⟩ => .mk name modifiers body.alike_self rfl

theorem NamespaceBody.alike_self : ∀ b : NamespaceBody, b.Alike (.equality P) b
  | .block ss => .block (statements_alike_self ss)
  | .nested n => .nested n.alike_self
  | .absent => .absent

theorem statements_alike_self :
    ∀ ss : List Statement, List.Forall₂ (Statement.Alike (.equality P)) ss ss
  | [] => .nil
  | s :: ss => .cons s.alike_self (statements_alike_self ss)

end

end Equality

section Maps

variable {L : Likeness} {f : Span → Span}

mutual

/-- Where spans are mapped, a like type is the type with mapped spans: signed numbers, too, are cut
    out as the same text. -/
theorem TypeExpr.Alike.eq_mapSpan (hL : L.Maps f) :
    ∀ {t t' : TypeExpr}, t.Alike L t' → t' = t.mapSpan f
  | _, _, .keyword _ => rfl
  | _, _, .reference _ h => by rw [TypeExpr.mapSpan, eq_mapSpanTypes hL h]
  | _, _, .array h => by rw [TypeExpr.mapSpan, h.eq_mapSpan hL]
  | _, _, .tuple h => by rw [TypeExpr.mapSpan, eq_mapSpanTypes hL h]
  | _, _, .union h => by rw [TypeExpr.mapSpan, eq_mapSpanTypes hL h]
  | _, _, .intersection h => by rw [TypeExpr.mapSpan, eq_mapSpanTypes hL h]
  | _, _, .literal _ => rfl
  | _, _, .signedNumber h _ => by rw [TypeExpr.mapSpan, hL.cut h]
  | _, _, .function => rfl
  | _, _, .members h => by rw [TypeExpr.mapSpan, eq_mapSpanMembers hL h]
  | _, _, .paren h => by rw [TypeExpr.mapSpan, h.eq_mapSpan hL]
  | _, _, .query _ => rfl
  | _, _, .other => rfl

/-- Like types are the types with mapped spans, in their order. -/
theorem eq_mapSpanTypes (hL : L.Maps f) :
    ∀ {ts ts' : List TypeExpr}, List.Forall₂ (TypeExpr.Alike L) ts ts' → ts' = mapSpanTypes f ts
  | _, _, .nil => rfl
  | _, _, .cons h hs => by rw [mapSpanTypes, h.eq_mapSpan hL, eq_mapSpanTypes hL hs]

/-- Like members are the members with mapped spans, in their order. -/
theorem eq_mapSpanMembers (hL : L.Maps f) :
    ∀ {ms ms' : List Member}, List.Forall₂ (Member.Alike L) ms ms' → ms' = mapSpanMembers f ms
  | _, _, .nil => rfl
  | _, _, .cons h hs => by rw [mapSpanMembers, h.eq_mapSpan hL, eq_mapSpanMembers hL hs]

/-- A like member differs in its span and in those of its type. -/
theorem Member.Alike.eq_mapSpan (hL : L.Maps f) :
    ∀ {m m' : Member}, m.Alike L m' → m' = m.mapSpan f
  | _, _, .mk _ _ _ _ .none hspan => by rw [Member.mapSpan, mapSpanOption, hL.span hspan]
  | _, _, .mk _ _ _ _ (.some h) hspan => by
      rw [Member.mapSpan, mapSpanOption, hL.span hspan, h.eq_mapSpan hL]

end

/-- A like entry has the same text, and the type with mapped spans. -/
theorem Heritage.Alike.eq_mapSpan (hL : L.Maps f) {h h' : Heritage} (halike : h.Alike L h') :
    h' = h.mapSpan f := by
  obtain ⟨text, type⟩ := h
  obtain ⟨text', type'⟩ := h'
  obtain ⟨⟨ls, ms, hcut, htext, htext'⟩, htype⟩ := halike
  obtain rfl : text' = text := by
    rw [show text' = _ from htext', show text = _ from htext, hL.cut hcut]
  rw [Heritage.mapSpan, show type' = type.mapSpan f from htype.eq_mapSpan hL]

/-- Like entries are the entries with mapped spans, in their order. -/
theorem eq_mapSpan_heritage (hL : L.Maps f) {hs hs' : List Heritage}
    (h : List.Forall₂ (Heritage.Alike L) hs hs') : hs' = hs.map (Heritage.mapSpan f) := by
  induction h with
  | nil => rfl
  | cons h _ ih => rw [List.map_cons, h.eq_mapSpan hL, ih]

/-- A like declaration is the declaration with mapped spans. -/
theorem Declaration.Alike.eq_mapSpan (hL : L.Maps f) {d d' : Declaration} (h : d.Alike L d') :
    d' = d.mapSpan f := by
  cases h with
  | ofClass _ _ _ hparent hinterfaces hmembers hspan =>
      simp only [Declaration.mapSpan, eq_mapSpan_heritage hL hinterfaces,
        eq_mapSpanMembers hL hmembers, hL.span hspan]
      cases hparent with
      | none => rfl
      | some h => rw [h.eq_mapSpan hL]; rfl
  | ofInterface _ _ _ hparents hmembers hspan =>
      simp only [Declaration.mapSpan, eq_mapSpan_heritage hL hparents,
        eq_mapSpanMembers hL hmembers, hL.span hspan]

mutual

/-- **A like statement is the statement with mapped spans**, where a likeness maps spans. -/
theorem Statement.Alike.eq_mapSpan (hL : L.Maps f) :
    ∀ {s s' : Statement}, s.Alike L s' → s' = s.mapSpan f
  | _, _, .declaration h => by rw [Statement.mapSpan, h.eq_mapSpan hL]
  | _, _, .importing _ _ _ h => by rw [Statement.mapSpan, hL.span h]
  | _, _, .exporting _ _ _ h => by rw [Statement.mapSpan, hL.span h]
  | _, _, .scope h => by rw [Statement.mapSpan, h.eq_mapSpan hL]
  | _, _, .other h => by rw [Statement.mapSpan, hL.span h]

/-- A like namespace is the namespace with mapped spans, through all that it holds. -/
theorem NamespaceDecl.Alike.eq_mapSpan (hL : L.Maps f) :
    ∀ {n n' : NamespaceDecl}, n.Alike L n' → n' = n.mapSpan f
  | _, _, .mk _ _ hbody hspan => by
      rw [NamespaceDecl.mapSpan, hbody.eq_mapSpan hL, hL.span hspan]

theorem NamespaceBody.Alike.eq_mapSpan (hL : L.Maps f) :
    ∀ {b b' : NamespaceBody}, b.Alike L b' → b' = b.mapSpan f
  | _, _, .block h => by rw [NamespaceBody.mapSpan, eq_mapSpanStatements hL h]
  | _, _, .nested h => by rw [NamespaceBody.mapSpan, h.eq_mapSpan hL]
  | _, _, .absent => rfl

/-- Like statements are the statements with mapped spans, in their order. -/
theorem eq_mapSpanStatements (hL : L.Maps f) :
    ∀ {ss ss' : List Statement}, List.Forall₂ (Statement.Alike L) ss ss' →
      ss' = mapSpanStatements f ss
  | _, _, .nil => rfl
  | _, _, .cons h hs => by rw [mapSpanStatements, h.eq_mapSpan hL, eq_mapSpanStatements hL hs]

end

end Maps

end DeclAtlas

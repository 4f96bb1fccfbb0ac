import DeclAtlas.Proofs.Placement
import DeclAtlas.Syntax.Grammar.Module

/-!
# The spans of members

Every member of a type literal carries the span of the tokens it was read from.  This file says how
these spans lie: those of one literal follow one another without overlapping, each is within the
span of what holds the literal, and the same is true inside of each (`TypeExpr.Laid`,
`MembersLaid`).

The rules of types call one another, so the statement is made for all of them at once
(`Rule.TypesLaid`).  There is one lemma for each rule, about its body and for any callees that lay
out what they read; the statement for the parsers follows by induction on the budget.  What carries
the induction is the region between two cursors (`Cursor.regionTo`): everything that a parser reads
lies in the region from where it started to where it has come to, and regions only grow.

* **`Rule.typesLaid`** — on every budget, all parsers of types lay out what they read.
-/

namespace DeclAtlas

-- ── Spans and how they lie ───────────────────────────────────────────────────────

namespace Span

/-- The first span ends where the second one starts, or before. -/
def Before (a b : Span) : Prop := a.stop ≤ b.start.offset

/-- The span holds at least one byte. -/
def NonEmpty (s : Span) : Prop := s.start.offset < s.stop

/-- The second span lies inside the first one. -/
def Covers (a b : Span) : Prop := a.start.offset ≤ b.start.offset ∧ b.stop ≤ a.stop

/-- The span is one of a text of `size` bytes. -/
def Fits (size : Nat) (s : Span) : Prop := s.start.offset ≤ s.stop ∧ s.stop ≤ size

theorem Covers.trans {a b c : Span} (h : a.Covers b) (h' : b.Covers c) : a.Covers c :=
  ⟨Nat.le_trans h.1 h'.1, Nat.le_trans h'.2 h.2⟩

end Span

/-- The types that a type is directly made of. -/
def TypeExpr.parts : TypeExpr → List TypeExpr
  | .reference _ args => args
  | .array t | .paren t => [t]
  | .tuple ts | .union ts | .intersection ts => ts
  | _ => []

/-- The members of a type literal. -/
def TypeExpr.ownMembers : TypeExpr → List Member
  | .members ms => ms
  | _ => []

mutual

/-- All type literals in a type that stands inside `parent` are laid out inside `parent`. -/
inductive TypeExpr.Laid (size : Nat) : Span → TypeExpr → Prop
  | mk {parent : Span} {t : TypeExpr} (parts : ∀ u ∈ t.parts, TypeExpr.Laid size parent u)
      (members : MembersLaid size parent t.ownMembers) : TypeExpr.Laid size parent t

/-- Members follow one another without overlapping, lie inside `parent`, and are laid out
    themselves. -/
inductive MembersLaid (size : Nat) : Span → List Member → Prop
  | mk {parent : Span} {ms : List Member}
      (ordered : ms.Pairwise fun a b => a.span.Before b.span)
      (fits : ∀ m ∈ ms, m.span.Fits size)
      (inside : ∀ m ∈ ms, parent.Covers m.span)
      (types : ∀ m ∈ ms, ∀ t, m.type = some t → TypeExpr.Laid size m.span t) :
      MembersLaid size parent ms

end

theorem MembersLaid.mono {size : Nat} {parent outer : Span} {ms : List Member}
    (h : MembersLaid size parent ms) (hcovers : outer.Covers parent) :
    MembersLaid size outer ms := by
  obtain ⟨hordered, hfits, hinside, htypes⟩ := h
  exact ⟨hordered, hfits, fun m hm => hcovers.trans (hinside m hm), htypes⟩

theorem TypeExpr.Laid.mono {size : Nat} {parent outer : Span} (hcovers : outer.Covers parent) :
    ∀ {t : TypeExpr}, t.Laid size parent → t.Laid size outer
  | _, .mk hparts hmembers => .mk (fun u hu => (hparts u hu).mono hcovers) (hmembers.mono hcovers)

theorem MembersLaid.nil {size : Nat} {parent : Span} : MembersLaid size parent [] :=
  ⟨List.Pairwise.nil, List.forall_mem_nil _, List.forall_mem_nil _, List.forall_mem_nil _⟩

/-- A type that is made of others, and is no literal, is laid out if these are. -/
theorem TypeExpr.Laid.of_parts {size : Nat} {parent : Span} {t : TypeExpr}
    (hparts : ∀ u ∈ t.parts, u.Laid size parent) (hmembers : t.ownMembers = []) :
    t.Laid size parent :=
  .mk hparts (hmembers ▸ .nil)

theorem TypeExpr.Laid.leaf {size : Nat} {parent : Span} {t : TypeExpr} (hparts : t.parts = [])
    (hmembers : t.ownMembers = []) : t.Laid size parent :=
  .of_parts (hparts ▸ List.forall_mem_nil _) hmembers

theorem laid_other {size : Nat} {parent : Span} : TypeExpr.other.Laid size parent := .leaf rfl rfl

-- ── Regions between cursors ──────────────────────────────────────────────────────

/-- What was read between two cursors, from the token behind the first one on. -/
def Cursor.regionTo (c c' : Cursor) : Span := ⟨c.here.start, c'.back⟩

section Regions

variable {size : Nat} {c c₁ c₂ c₃ : Cursor}

/-- A region covers what was read in between. -/
theorem Cursor.Ordered.regionTo_covers (h : c.Ordered size) (h₁ : c.LeadsTo c₁)
    (h₂ : c₁.LeadsTo c₂) (h₃ : c₂.LeadsTo c₃) : (c.regionTo c₃).Covers (c₁.regionTo c₂) :=
  ⟨h.front_le h₁, (h.leadsTo (h₁.trans h₂)).back_le h₃⟩

/-- A span covers what was read in between. -/
theorem Cursor.Ordered.spanFrom_covers (h : c.Ordered size) (h₁ : c.LeadsTo c₁)
    (h₂ : c₁.LeadsTo c₂) (h₃ : c₂.LeadsTo c₃) : (c₃.spanFrom c.here).Covers (c₁.regionTo c₂) := by
  refine ⟨?_, Nat.le_trans ((h.leadsTo (h₁.trans h₂)).back_le h₃) (c₃.back_le_spanFrom _)⟩
  rw [Cursor.start_spanFrom]
  exact h.front_le h₁

theorem TypeExpr.Laid.widen {t : TypeExpr} (ht : t.Laid size (c₁.regionTo c₂)) (h : c.Ordered size)
    (h₁ : c.LeadsTo c₁) (h₂ : c₁.LeadsTo c₂) (h₃ : c₂.LeadsTo c₃) :
    t.Laid size (c.regionTo c₃) :=
  ht.mono (h.regionTo_covers h₁ h₂ h₃)

/-- A member that was read from `c` to `c'`. -/
structure Member.LaidFrom (size : Nat) (c c' : Cursor) (m : Member) : Prop where
  marks : c.Marks c' m.span
  type : ∀ t, m.type = some t → t.Laid size m.span

/-- One more member in front of others, if its first token was read before them. -/
theorem MembersLaid.cons {m : Member} {ms : List Member} (h : c.Ordered size)
    (h₁ : c.LeadsTo c₁) (h₂ : c₁.LeadsTo c₂) (h₃ : c₂.LeadsTo c₃)
    (hlt : c₂.remaining < c.remaining) (hm : m.LaidFrom size c c₁)
    (hms : MembersLaid size (c₂.regionTo c₃) ms) : MembersLaid size (c.regionTo c₃) (m :: ms) := by
  have hc₂ := h.leadsTo (h₁.trans h₂)
  have hstop : m.span.stop ≤ c₂.back := hm.marks.stop_le_back h h₁ h₂ hlt
  have hstart : m.span.start.offset = c.front := congrArg Position.offset hm.marks.start_eq
  obtain ⟨hordered, hfits, hinside, htypes⟩ :=
    hms.mono (h.regionTo_covers (h₁.trans h₂) h₃ (.refl c₃))
  refine ⟨List.pairwise_cons.mpr ⟨?_, hordered⟩, List.forall_mem_cons.mpr ⟨?_, hfits⟩,
    List.forall_mem_cons.mpr ⟨?_, hinside⟩, List.forall_mem_cons.mpr ⟨hm.type, htypes⟩⟩
  · intro m' hm'
    obtain ⟨-, -, hinside', -⟩ := hms
    calc m.span.stop ≤ c₂.back := hstop
      _ ≤ c₂.front := hc₂.back_le_front
      _ ≤ m'.span.start.offset := (hinside' m' hm').1
  · refine ⟨?_, Nat.le_trans hstop hc₂.back_le_size⟩
    rw [hstart]
    exact hm.marks.le_stop
  · refine ⟨Nat.le_of_eq hstart.symm, Nat.le_trans hstop (hc₂.back_le h₃)⟩

end Regions

-- ── What parsers lay out ─────────────────────────────────────────────────────────

namespace Parser

variable {size : Nat}

/-- The parser lays out the type that it reads. -/
def ReadsType (size : Nat) (p : Parser TypeExpr) : Prop :=
  ∀ c, c.Ordered size → p.Meets c fun t c' => t.Laid size (c.regionTo c')

/-- The parser lays out all types that it reads. -/
def ReadsTypes (size : Nat) (p : Parser (List TypeExpr)) : Prop :=
  ∀ c, c.Ordered size → p.Meets c fun ts c' => ∀ t ∈ ts, t.Laid size (c.regionTo c')

/-- The parser lays out the type that it reads, if it reads one. -/
def ReadsOptional (size : Nat) (p : Parser (Option TypeExpr)) : Prop :=
  ∀ c, c.Ordered size → p.Meets c fun o c' => ∀ t, o = some t → t.Laid size (c.regionTo c')

/-- The parser lays out the members that it reads. -/
def ReadsMembers (size : Nat) (p : Parser (List Member)) : Prop :=
  ∀ c, c.Ordered size → p.Meets c fun ms c' => MembersLaid size (c.regionTo c') ms

/-- The parser goes on with a member that began at an earlier cursor. -/
def ReadsMemberFrom (size : Nat) (p : Span → Parser Member) : Prop :=
  ∀ c₀ c, c₀.Ordered size → c₀.LeadsTo c → (p c₀.here).Meets c fun m c' => m.LaidFrom size c₀ c'

/-- A type that is read and not kept. -/
theorem ReadsType.drop {p : Parser TypeExpr} {q : Parser TypeExpr} {c : Cursor}
    {post : TypeExpr → Cursor → Prop} (hp : p.ReadsType size) (hc : c.Ordered size)
    (hq : ∀ c', c.LeadsTo c' → c'.Ordered size → q.Meets c' post) :
    (p >>= fun _ => q).Meets c post :=
  meets_bind ((hp c hc).mono fun _ c' hc' _ => hq c' hc' (hc.leadsTo hc'))

/-- A type behind one more token. -/
theorem ReadsType.behind {p : Parser TypeExpr} (hp : p.ReadsType size) :
    (bump >>= fun _ => p).ReadsType size := by
  intro c hc
  refine meets_bind (meets_bump ((hp c.bump hc.bump).mono ?_))
  intro t c₁ h₁ ht
  exact ht.widen hc c.leadsTo_bump h₁ (.refl c₁)

/-- Types behind one more token. -/
theorem ReadsTypes.behind {p : Parser (List TypeExpr)} (hp : p.ReadsTypes size) :
    (bump >>= fun _ => p).ReadsTypes size := by
  intro c hc
  refine meets_bind (meets_bump ((hp c.bump hc.bump).mono ?_))
  intro ts c₁ h₁ hts t ht
  exact (hts t ht).widen hc c.leadsTo_bump h₁ (.refl c₁)

/-- Members behind one more token. -/
theorem ReadsMembers.behind {p : Parser (List Member)} (hp : p.ReadsMembers size) :
    (bump >>= fun _ => p).ReadsMembers size := by
  intro c hc
  refine meets_bind (meets_bump ((hp c.bump hc.bump).mono ?_))
  intro ms c₁ h₁ hms
  exact hms.mono (hc.regionTo_covers c.leadsTo_bump h₁ (.refl c₁))

/-- Whatever token stands ahead, reading a dotted name moves on. -/
theorem meets_dottedName {c : Cursor} : dottedName.Meets c fun _ _ => True :=
  meets_bind (meets_takeIf (fun _ _ => meets_bind (meets_taking (meets_pure trivial)))
    fun _ => meets_bind (meets_taking (meets_pure trivial)))

/-- The tail of an imported type is moved over. -/
theorem meets_skipQualifiedTail {c : Cursor} : skipQualifiedTail.Meets c fun _ _ => True :=
  meets_bind (meets_skip (meets_get (meets_ite (fun _ => meets_skip trivial)
    fun _ => meets_pure trivial)))

/-- Reading the name of a member moves on. -/
theorem meets_memberName {c : Cursor} : memberName.Meets c fun _ _ => True := by
  refine meets_get ?_
  split
  · exact meets_pure trivial
  · split
    -- a word, a private name, a string or a number is one token
    · exact meets_bind (meets_bump (meets_pure trivial))
    · exact meets_bind (meets_bump (meets_pure trivial))
    · exact meets_bind (meets_bump (meets_pure trivial))
    · exact meets_bind (meets_bump (meets_pure trivial))
    -- a computed name is moved over
    · exact meets_bind (meets_skip (meets_pure trivial))
    · exact meets_pure trivial

/-- Reading the word of an accessor, or none, moves on. -/
theorem meets_accessorKind {c : Cursor} : accessorKind.Meets c fun _ _ => True := by
  refine meets_get (meets_ite (fun _ => ?_) fun _ => meets_ite (fun _ => ?_) fun _ => ?_)
  · exact meets_bind (meets_bump (meets_pure trivial))
  · exact meets_bind (meets_bump (meets_pure trivial))
  · exact meets_pure trivial

/-- A parser of a member gives a member that may be kept. -/
theorem meets_some {p : Parser Member} {c : Cursor} {post : Member → Cursor → Prop}
    (hp : p.Meets c post) :
    (do
      let m ← p
      pure (some m)).Meets c fun o c' => ∀ m, o = some m → post m c' := by
  refine meets_bind (hp.mono ?_)
  intro m c' _ hm
  refine meets_pure ?_
  rintro _ ⟨⟩
  exact hm

/-- A member that ends with a type, from the cursor where it began to the one behind the type. -/
theorem laidFrom_spanFrom {c₀ c₁ c₂ c₃ : Cursor} {m : Member} (h₀ : c₀.Ordered size)
    (h₁ : c₀.LeadsTo c₁) (h₂ : c₁.LeadsTo c₂) (h₃ : c₂.LeadsTo c₃)
    (htype : ∀ t, m.type = some t → t.Laid size (c₁.regionTo c₂))
    (hspan : m.span = c₃.spanFrom c₀.here) : m.LaidFrom size c₀ c₃ := by
  refine ⟨hspan ▸ h₀.marks_spanFrom c₃, ?_⟩
  intro t ht
  rw [hspan]
  exact (htype t ht).mono (h₀.spanFrom_covers h₁ h₂ h₃)

/-- Brackets behind a type make no literal of it, so it stays laid out. -/
theorem bracketSuffixes_laid {parent : Span} {t : TypeExpr} (ls : List Lexeme)
    (ht : t.Laid size parent) : (bracketSuffixes t ls).1.Laid size parent := by
  fun_induction bracketSuffixes t ls with
  | case1 => exact ht
  | case2 t l ls _ _ u n hu ih =>
      rw [hu] at ih
      exact ih (.of_parts (List.forall_mem_cons.mpr ⟨ht, List.forall_mem_nil _⟩) rfl)
  | case3 t l ls _ _ k u n hu ih =>
      rw [hu] at ih
      exact ih laid_other
  | case4 => exact ht

end Parser

-- ── What the rules of types lay out ──────────────────────────────────────────────

namespace Rule

open DeclAtlas.Parser

/-- All rules of types lay out what they read. -/
structure TypesLaid (size : Nat) (call : Callees) : Prop where
  typeExpr : (call typeExpr).ReadsType size
  resultType : (call resultType).ReadsType size
  unionType : (call unionType).ReadsType size
  unionRest : (call unionRest).ReadsTypes size
  intersectionType : (call intersectionType).ReadsType size
  intersectionRest : (call intersectionRest).ReadsTypes size
  postfixType : (call postfixType).ReadsType size
  primaryType : (call primaryType).ReadsType size
  wordType : ∀ w, (call (wordType w)).ReadsType size
  referenceType : (call referenceType).ReadsType size
  typeArgs : (call typeArgs).ReadsTypes size
  functionType : (call functionType).ReadsType size
  tupleElements : (call tupleElements).ReadsTypes size
  typeMembers : (call typeMembers).ReadsMembers size
  typeMember : ∀ c, c.Ordered size →
    (call typeMember).Meets c fun o c' => ∀ m, o = some m → m.LaidFrom size c c'
  signature : ∀ kind, ReadsMemberFrom size fun start => call (signature kind start)
  indexSignature : ∀ isStatic, ReadsMemberFrom size fun start =>
    call (indexSignature start isStatic)
  annotated : (call annotated).ReadsOptional size
  annotatedResult : (call annotatedResult).ReadsOptional size

section Bodies

variable {size : Nat} {call : Callees}

/-- A type is laid out as its first part is; a conditional type is not kept. -/
theorem typeExpr_laid (hcall : TypesLaid size call) : (typeExprBody call).ReadsType size := by
  intro c hc
  refine meets_bind ((hcall.unionType c hc).mono ?_)
  intro t c₁ h₁ ht
  have hc₁ := hc.leadsTo h₁
  refine meets_get (meets_ite ?_ ?_)
  · intro _
    refine meets_bind (meets_bump (hcall.unionType.drop hc₁.bump ?_))
    intro c₂ _ hc₂
    refine meets_bind (meets_eat (fun _ => ?_) fun _ => meets_pure laid_other)
    refine hcall.typeExpr.drop hc₂.bump ?_
    intro c₃ _ hc₃
    refine meets_bind (meets_eat (fun _ => ?_) fun _ => meets_pure laid_other)
    exact hcall.typeExpr.drop hc₃.bump fun _ _ _ => meets_pure laid_other
  · intro _
    exact meets_pure ht

/-- A result is a predicate, which is not kept, or a type. -/
theorem resultType_laid (hcall : TypesLaid size call) : (resultTypeBody call).ReadsType size := by
  intro c hc
  refine meets_get (meets_ite ?_ fun _ => meets_ite ?_ ?_)
  · intro hasserts
    refine meets_bind (meets_bump (meets_bind (meets_bump ?_)))
    refine meets_bind (meets_eat (fun _ => ?_) fun _ => meets_pure laid_other)
    exact hcall.typeExpr.drop hc.bump.bump.bump fun _ _ _ => meets_pure laid_other
  · intro his
    refine meets_bind (meets_bump (meets_bind (meets_bump ?_)))
    exact hcall.typeExpr.drop hc.bump.bump fun _ _ _ => meets_pure laid_other
  · intro _
    exact hcall.typeExpr c hc

/-- Parts between signs lie one behind the other, and the whole holds all of them. -/
theorem chain_laid {part : Rule TypeExpr} {rest : Rule (List TypeExpr)}
    {wrap : List TypeExpr → TypeExpr} (sign : Token) (hpart : (call part).ReadsType size)
    (hrest : (call rest).ReadsTypes size) (hparts : ∀ ts, (wrap ts).parts = ts)
    (hmembers : ∀ ts, (wrap ts).ownMembers = []) :
    (chainBody call sign part rest wrap).ReadsType size := by
  intro c hc
  refine meets_bind ((meets_any_eat sign).mono ?_)
  intro _ c₁ h₁ _
  refine meets_bind ((hpart c₁ (hc.leadsTo h₁)).mono ?_)
  intro u c₂ h₂ hu
  refine meets_get (meets_ite ?_ ?_)
  · intro _
    refine meets_bind ((hrest c₂ (hc.leadsTo (h₁.trans h₂))).mono ?_)
    intro us c₃ h₃ hus
    refine meets_pure (.of_parts ?_ (hmembers _))
    rw [hparts]
    refine List.forall_mem_cons.mpr ⟨hu.widen hc h₁ h₂ h₃, ?_⟩
    intro v hv
    exact (hus v hv).widen hc (h₁.trans h₂) h₃ (.refl c₃)
  · intro _
    exact meets_pure (hu.widen hc h₁ h₂ (.refl c₂))

/-- Further parts lie behind their signs. -/
theorem chainRest_laid {part : Rule TypeExpr} {rest : Rule (List TypeExpr)} (sign : Token)
    (hpart : (call part).ReadsType size) (hrest : (call rest).ReadsTypes size) :
    (chainRestBody call sign part rest).ReadsTypes size := by
  intro c hc
  refine meets_bind (meets_eat ?_ ?_)
  · intro _
    refine meets_bind ((hpart c.bump hc.bump).mono ?_)
    intro u c₁ h₁ hu
    refine meets_bind ((hrest c₁ (hc.bump.leadsTo h₁)).mono ?_)
    intro us c₂ h₂ hus
    refine meets_pure (List.forall_mem_cons.mpr ⟨hu.widen hc c.leadsTo_bump h₁ h₂, ?_⟩)
    intro v hv
    exact (hus v hv).widen hc (c.leadsTo_bump.trans h₁) h₂ (.refl c₂)
  · intro _
    exact meets_pure (List.forall_mem_nil _)

/-- A type with brackets behind it is laid out as the type is. -/
theorem postfixType_laid (hcall : TypesLaid size call) :
    (postfixTypeBody call).ReadsType size := by
  intro c hc
  refine meets_bind ((hcall.primaryType c hc).mono ?_)
  intro t c₁ h₁ ht
  exact meets_taking (bracketSuffixes_laid _ (ht.widen hc (.refl c) h₁ (c₁.leadsTo_advance _)))

/-- Every kind of token that a type can begin with leaves it laid out. -/
theorem primaryType_laid (hcall : TypesLaid size call) :
    (primaryTypeBody call).ReadsType size := by
  intro c hc
  have hleaf : ∀ s, (do bump; pure (.literal s) : Parser TypeExpr).Meets c fun t c' =>
      t.Laid size (c.regionTo c') :=
    fun s => meets_bind (meets_bump (meets_pure (.leaf rfl rfl)))
  refine meets_get ?_
  split
  · exact meets_pure laid_other
  · next l ls hrest =>
    split
    · -- a parenthesis
      refine meets_ite (fun _ => hcall.functionType c hc) fun _ => ?_
      refine meets_bind (meets_bump (meets_bind ((hcall.typeExpr c.bump hc.bump).mono ?_)))
      intro t c₁ h₁ ht
      refine meets_bind ((meets_any_eat .closeParen).mono ?_)
      intro _ c₂ h₂ _
      refine meets_pure (.of_parts (List.forall_mem_cons.mpr ⟨?_, List.forall_mem_nil _⟩) rfl)
      exact ht.widen hc c.leadsTo_bump h₁ h₂
    · -- type parameters
      exact hcall.functionType c hc
    · -- a brace
      refine meets_ite (fun _ => meets_bind (meets_skip (meets_pure laid_other))) fun _ => ?_
      refine meets_bind (meets_bump (meets_bind ((hcall.typeMembers c.bump hc.bump).mono ?_)))
      intro ms c₁ h₁ hms
      refine meets_pure (.mk (List.forall_mem_nil _) (hms.mono ?_))
      exact hc.regionTo_covers c.leadsTo_bump h₁ (.refl c₁)
    · -- a bracket
      refine meets_bind (meets_bump (meets_bind ((hcall.tupleElements c.bump hc.bump).mono ?_)))
      intro ts c₁ h₁ hts
      refine meets_pure (.of_parts ?_ rfl)
      intro u hu
      exact (hts u hu).widen hc c.leadsTo_bump h₁ (.refl c₁)
    · exact hleaf _
    · exact hleaf _
    · exact hleaf _
    · -- a number with a sign
      refine meets_ite (fun _ => ?_) fun _ => meets_pure laid_other
      exact meets_bind (meets_bump (meets_bind (meets_bump (meets_get
        (meets_pure (.leaf rfl rfl))))))
    · next w _ => exact hcall.wordType w c hc
    · exact meets_pure laid_other

/-- A function type has no parts that are kept. -/
theorem functionType_laid (hcall : TypesLaid size call) :
    (functionTypeBody call).ReadsType size := by
  intro c hc
  refine meets_get (meets_when (meets_skip trivial) ?_)
  intro c₁ h₁
  refine meets_get (meets_when (meets_skip trivial) ?_)
  intro c₂ h₂
  refine meets_bind (meets_eat (fun _ => ?_) fun _ => meets_pure (.leaf rfl rfl))
  exact hcall.resultType.drop (hc.leadsTo (h₁.trans h₂)).bump
    fun _ _ _ => meets_pure (.leaf rfl rfl)

/-- The parts of a reference are its arguments. -/
theorem referenceType_laid (hcall : TypesLaid size call) :
    (referenceTypeBody call).ReadsType size := by
  intro c hc
  refine meets_get (meets_ite (fun _ => ?_) fun _ => meets_pure laid_other)
  refine meets_bind (meets_dottedName.mono ?_)
  intro name c₁ h₁ _
  refine meets_get (meets_ite (fun _ => ?_) fun _ => meets_pure (.leaf rfl rfl))
  have h₂ := h₁.trans c₁.leadsTo_bump
  refine meets_bind (meets_bump (meets_bind ((hcall.typeArgs c₁.bump (hc.leadsTo h₂)).mono ?_)))
  intro args c₃ h₃ hargs
  refine meets_pure (.of_parts ?_ rfl)
  intro u hu
  exact (hargs u hu).widen hc h₂ h₃ (.refl c₃)

/-- Whatever word a type begins with, what is kept of it is laid out. -/
theorem wordType_laid (hcall : TypesLaid size call) (w : String) :
    (wordTypeBody call w).ReadsType size := by
  intro c hc
  refine meets_get ?_
  -- the dotted tail of an imported type, behind its parentheses
  have htail : ∀ c', (do skipQualifiedTail; pure .other : Parser TypeExpr).Meets c' fun t c' =>
      t.Laid size (c.regionTo c') :=
    fun c' => meets_bind (meets_skipQualifiedTail.mono fun _ _ _ _ => meets_pure laid_other)
  by_cases htypeof : w = "typeof"
  · rw [if_pos htypeof]
    refine meets_bind (meets_bump (meets_get (meets_ite ?_ ?_)))
    · intro himport
      refine meets_bind (meets_bump (meets_get (meets_when (meets_skip trivial) ?_)))
      intro c' _
      exact htail c'
    · intro hname
      refine meets_bind (meets_dottedName.mono ?_)
      intro name c₁ h₁ _
      refine meets_get (meets_ite ?_ fun _ => meets_pure (.leaf rfl rfl))
      intro hless
      have hc₁ := (hc.bump.leadsTo h₁).bump
      refine meets_bind (meets_bump (meets_bind ((hcall.typeArgs c₁.bump hc₁).mono ?_)))
      intro args _ _ _
      exact meets_pure (.leaf rfl rfl)
  rw [if_neg htypeof]
  by_cases hkeyof : w = "keyof" ∨ w = "unique"
  · rw [if_pos hkeyof]
    refine meets_bind (meets_bump (hcall.postfixType.drop hc.bump ?_))
    intro _ _ _
    exact meets_pure laid_other
  rw [if_neg hkeyof]
  by_cases hreadonly : w = "readonly"
  · rw [if_pos hreadonly]
    exact hcall.postfixType.behind c hc
  rw [if_neg hreadonly]
  by_cases hinfer : w = "infer"
  · rw [if_pos hinfer]
    exact meets_bind (meets_bump (meets_bind (meets_takeIf (fun _ _ => meets_pure laid_other)
      fun _ => meets_pure laid_other)))
  rw [if_neg hinfer]
  by_cases hnew : w = "new"
  · rw [if_pos hnew]
    exact hcall.functionType.behind c hc
  rw [if_neg hnew]
  by_cases habstract : w = "abstract" ∧ c.seesWord 1 "new"
  · rw [if_pos habstract]
    exact hcall.functionType.behind.behind c hc
  rw [if_neg habstract]
  by_cases himport : w = "import" ∧ c.sees 1 .openParen
  · rw [if_pos himport]
    exact meets_bind (meets_bump (meets_bind (meets_skip (htail _))))
  rw [if_neg himport]
  by_cases htruth : w = "true" ∨ w = "false"
  · rw [if_pos htruth]
    exact meets_bind (meets_bump (meets_pure (.leaf rfl rfl)))
  rw [if_neg htruth]
  split
  · next k hkeyword =>
    refine meets_ite (fun _ => hcall.referenceType c hc) fun _ => ?_
    exact meets_bind (meets_bump (meets_pure (.leaf rfl rfl)))
  · next hnone => exact hcall.referenceType c hc

/-- Type arguments follow one another up to where their list is closed. -/
theorem typeArgs_laid (hcall : TypesLaid size call) : (typeArgsBody call).ReadsTypes size := by
  intro c hc
  refine meets_bind (meets_eat (fun _ => meets_pure (List.forall_mem_nil _)) fun _ => ?_)
  refine meets_get (meets_ite (fun _ => meets_pure (List.forall_mem_nil _)) fun _ => ?_)
  refine meets_bind ((hcall.typeExpr c hc).mono ?_)
  intro t c₁ h₁ ht
  have hc₁ := hc.leadsTo h₁
  -- the last argument
  have hlast : ∀ c', c₁.LeadsTo c' → ∀ u ∈ [t], u.Laid size (c.regionTo c') :=
    fun c' h' => List.forall_mem_cons.mpr ⟨ht.widen hc (.refl c) h₁ h', List.forall_mem_nil _⟩
  refine meets_bind (meets_eat (fun _ => ?_) fun _ => ?_)
  · refine meets_bind ((hcall.typeArgs c₁.bump hc₁.bump).mono ?_)
    intro ts c₂ h₂ hts
    have h₂' := c₁.leadsTo_bump.trans h₂
    refine meets_pure (List.forall_mem_cons.mpr ⟨ht.widen hc (.refl c) h₁ h₂', ?_⟩)
    intro u hu
    exact (hts u hu).widen hc (h₁.trans c₁.leadsTo_bump) h₂ (.refl c₂)
  · refine meets_bind (meets_eat (fun _ => meets_pure (hlast _ c₁.leadsTo_bump)) fun _ => ?_)
    exact meets_get (meets_when (meets_skip trivial) fun c' h' => meets_pure (hlast c' h'))

/-- The elements of a tuple follow one another, with or without labels. -/
theorem tupleElements_laid (hcall : TypesLaid size call) :
    (tupleElementsBody call).ReadsTypes size := by
  intro c hc
  have hnil : ∀ c', ∀ u ∈ ([] : List TypeExpr), u.Laid size (c.regionTo c') :=
    fun _ => List.forall_mem_nil _
  refine meets_get ?_
  split
  · exact meets_pure (hnil c)
  · exact meets_pure (hnil c)
  · exact meets_pure (hnil c)
  · exact meets_bind (meets_bump (meets_pure (hnil _)))
  · exact hcall.tupleElements.behind c hc
  · exact hcall.tupleElements.behind c hc
  · refine meets_join ?_ fun hjoin => meets_ite (fun _ => ?_) fun _ => hjoin c (.refl c)
    · -- an element, behind its label
      intro c₁ h₁
      refine meets_get (meets_bind ((hcall.typeExpr c₁ (hc.leadsTo h₁)).mono ?_))
      intro t c₂ h₂ ht
      refine meets_bind ((meets_any_eat .question).mono ?_)
      intro _ c₃ h₃ _
      refine meets_get (meets_when (meets_bump trivial) ?_)
      intro c₄ h₄
      have h₁₄ := h₁.trans (h₂.trans (h₃.trans h₄))
      refine meets_bind ((hcall.tupleElements c₄ (hc.leadsTo h₁₄)).mono ?_)
      intro ts c₅ h₅ hts
      refine meets_pure (List.forall_mem_cons.mpr
        ⟨ht.widen hc h₁ h₂ (h₃.trans (h₄.trans h₅)), ?_⟩)
      intro u hu
      exact (hts u hu).widen hc h₁₄ h₅ (.refl c₅)
    · -- a label
      refine meets_bind (meets_bump (meets_bind ((meets_any_eat .question).mono ?_)))
      intro _ c₁ h₁ _
      refine meets_bind ((meets_any_eat .colon).mono ?_)
      intro _ c₂ h₂ _
      exact hjoin c₂ (c.leadsTo_bump.trans (h₁.trans h₂))

/-- A type behind a colon, if there is a colon. -/
theorem annotation_laid {part : Rule TypeExpr} (hpart : (call part).ReadsType size) :
    (annotationBody call part).ReadsOptional size := by
  intro c hc
  refine meets_bind (meets_eat ?_ ?_)
  · intro _
    refine meets_bind ((hpart c.bump hc.bump).mono ?_)
    intro u c₁ h₁ hu
    refine meets_pure ?_
    rintro _ ⟨⟩
    exact hu.widen hc c.leadsTo_bump h₁ (.refl c₁)
  · intro _
    refine meets_pure ?_
    rintro _ ⟨⟩

/-- A signature spans what was read of it, and its result lies inside. -/
theorem signature_laid (hcall : TypesLaid size call) (kind : MemberKind) :
    ReadsMemberFrom size fun start => signatureBody call kind start := by
  intro c₀ c h₀ hlead
  refine meets_get (meets_when (meets_skip trivial) ?_)
  intro c₁ h₁
  refine meets_get (meets_when (meets_skip trivial) ?_)
  intro c₂ h₂
  have h₀₂ := hlead.trans (h₁.trans h₂)
  refine meets_bind ((hcall.annotatedResult c₂ (h₀.leadsTo h₀₂)).mono ?_)
  intro type c₃ h₃ htype
  exact meets_get (meets_pure (laidFrom_spanFrom h₀ h₀₂ h₃ (.refl c₃) htype rfl))

/-- An index signature spans what was read of it, and its type lies inside. -/
theorem indexSignature_laid (hcall : TypesLaid size call) (isStatic : Bool) :
    ReadsMemberFrom size fun start => indexSignatureBody call start isStatic := by
  intro c₀ c h₀ hlead
  refine meets_bind (meets_skip (meets_bind ((meets_any_eat .question).mono ?_)))
  intro optional c₁ h₁ _
  have h₀₁ := hlead.trans ((c.leadsTo_advance _).trans h₁)
  refine meets_bind ((hcall.annotated c₁ (h₀.leadsTo h₀₁)).mono ?_)
  intro type c₂ h₂ htype
  exact meets_get (meets_pure (laidFrom_spanFrom h₀ h₀₁ h₂ (.refl c₂) htype rfl))

/-- A member spans what was read of it, whichever kind it is of. -/
theorem typeMember_laid (hcall : TypesLaid size call) (c : Cursor) (hc : c.Ordered size) :
    (typeMemberBody call).Meets c fun o c' => ∀ m, o = some m → m.LaidFrom size c c' := by
  refine meets_get (meets_ite (fun _ => ?_) fun _ => meets_ite (fun _ => ?_) fun _ => ?_)
  · -- a call signature
    exact meets_some (hcall.signature _ c c hc (.refl c))
  · -- a construct signature
    exact meets_bind (meets_bump (meets_some (hcall.signature _ c c.bump hc c.leadsTo_bump)))
  · refine meets_when (meets_bump trivial) ?_
    intro c₁ h₁
    refine meets_get (meets_ite (fun _ => ?_) fun _ => ?_)
    · -- an index signature
      exact meets_some (hcall.indexSignature _ c c₁ hc h₁)
    · refine meets_bind (meets_accessorKind.mono ?_)
      intro accessor c₂ h₂ _
      refine meets_bind (meets_memberName.mono ?_)
      intro name c₃ h₃ _
      cases name with
      | none =>
          refine meets_pure ?_
          rintro _ ⟨⟩
      | some name =>
          refine meets_bind ((meets_any_eat .question).mono ?_)
          intro optional c₄ h₄ _
          refine meets_get (meets_when (meets_skip trivial) ?_)
          intro c₅ h₅
          have h₀₅ := h₁.trans (h₂.trans (h₃.trans (h₄.trans h₅)))
          refine meets_get (meets_ite (fun _ => ?_) fun _ => ?_)
          · -- a method signature
            have h₀₆ := h₀₅.trans (c₅.leadsTo_advance (bracketExtent 0 c₅.rest))
            refine meets_bind (meets_skip (meets_bind
              ((hcall.annotatedResult _ (hc.leadsTo h₀₆)).mono ?_)))
            intro type c₇ h₇ htype
            refine meets_get (meets_pure ?_)
            rintro _ ⟨⟩
            exact laidFrom_spanFrom hc h₀₆ h₇ (.refl c₇) htype rfl
          · -- a property signature
            refine meets_bind ((hcall.annotated c₅ (hc.leadsTo h₀₅)).mono ?_)
            intro type c₆ h₆ htype
            refine meets_get (meets_pure ?_)
            rintro _ ⟨⟩
            exact laidFrom_spanFrom hc h₀₅ h₆ (.refl c₆) htype rfl

/-- The members of a literal follow one another: each turn of the loop reads a token, so that a
    member ends before the next one begins. -/
theorem typeMembers_laid (hcall : TypesLaid size call) :
    (typeMembersBody call).ReadsMembers size := by
  intro c hc
  refine meets_get ?_
  split
  · exact meets_pure .nil
  · exact meets_bind (meets_bump (meets_pure .nil))
  · exact hcall.typeMembers.behind c hc
  · exact hcall.typeMembers.behind c hc
  · next hnone _ _ _ =>
    have hne : c.rest ≠ [] := mt Cursor.peek_eq_none_iff.mpr hnone
    refine meets_bind ((hcall.typeMember c hc).mono ?_)
    intro o c₁ h₁ ho
    refine meets_get (meets_forced hne h₁ ?_)
    intro c₂ h₂ hlt
    refine meets_bind ((hcall.typeMembers c₂ (hc.leadsTo (h₁.trans h₂))).mono ?_)
    intro ms c₃ h₃ hms
    refine meets_pure ?_
    cases o with
    | none => exact hms.mono (hc.regionTo_covers (h₁.trans h₂) h₃ (.refl c₃))
    | some m => exact .cons hc h₁ h₂ h₃ hlt (ho m rfl) hms

end Bodies

/-- With nothing to spend, nothing is read. -/
theorem typesLaid_zero (size : Nat) : TypesLaid size (run 0) where
  typeExpr _ _ := meets_pure laid_other
  resultType _ _ := meets_pure laid_other
  unionType _ _ := meets_pure laid_other
  unionRest _ _ := meets_pure (List.forall_mem_nil _)
  intersectionType _ _ := meets_pure laid_other
  intersectionRest _ _ := meets_pure (List.forall_mem_nil _)
  postfixType _ _ := meets_pure laid_other
  primaryType _ _ := meets_pure laid_other
  wordType _ _ _ := meets_pure laid_other
  referenceType _ _ := meets_pure laid_other
  typeArgs _ _ := meets_pure (List.forall_mem_nil _)
  functionType _ _ := meets_pure (.leaf rfl rfl)
  tupleElements _ _ := meets_pure (List.forall_mem_nil _)
  typeMembers _ _ := meets_pure .nil
  typeMember _ _ := meets_pure (by rintro _ ⟨⟩)
  signature _ _ _ h₀ _ := meets_pure ⟨h₀.marks_here _, by rintro _ ⟨⟩⟩
  indexSignature _ _ _ h₀ _ := meets_pure ⟨h₀.marks_here _, by rintro _ ⟨⟩⟩
  annotated _ _ := meets_pure (by rintro _ ⟨⟩)
  annotatedResult _ _ := meets_pure (by rintro _ ⟨⟩)

/-- One unit of budget more: every rule is read by its body, on callees that lay out what they
    read. -/
theorem typesLaid_succ {size n : Nat} (ih : TypesLaid size (run n)) :
    TypesLaid size (run (n + 1)) where
  typeExpr := typeExpr_laid ih
  resultType := resultType_laid ih
  unionType := chain_laid .bar ih.intersectionType ih.unionRest (fun _ => rfl) fun _ => rfl
  unionRest := chainRest_laid .bar ih.intersectionType ih.unionRest
  intersectionType :=
    chain_laid .ampersand ih.postfixType ih.intersectionRest (fun _ => rfl) fun _ => rfl
  intersectionRest := chainRest_laid .ampersand ih.postfixType ih.intersectionRest
  postfixType := postfixType_laid ih
  primaryType := primaryType_laid ih
  wordType := wordType_laid ih
  referenceType := referenceType_laid ih
  typeArgs := typeArgs_laid ih
  functionType := functionType_laid ih
  tupleElements := tupleElements_laid ih
  typeMembers := typeMembers_laid ih
  typeMember := typeMember_laid ih
  signature := signature_laid ih
  indexSignature := indexSignature_laid ih
  annotated := annotation_laid ih.typeExpr
  annotatedResult := annotation_laid ih.resultType

/-- **All parsers of types lay out what they read**, on every budget. -/
theorem typesLaid (size n : Nat) : TypesLaid size (run n) := by
  induction n with
  | zero => exact typesLaid_zero size
  | succ n ih => exact typesLaid_succ ih

end Rule

end DeclAtlas

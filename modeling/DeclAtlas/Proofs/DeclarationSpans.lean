import DeclAtlas.Proofs.TypeSpans

/-!
# The spans of classes and interfaces

A class or an interface has the span of all tokens it was read from.  Its members follow one another
inside of it, and so do the members of type literals that stand in its heritage
(`Declaration.Laid`).  Both follow from what the rules of types do (`Rule.typesLaid`): the body
of a class is read by a loop like that of a type literal, and each entry of a heritage list is a
type.
-/

namespace DeclAtlas

/-- All entries of the heritage lists of a declaration. -/
def Declaration.heritage : Declaration → List Heritage
  | ofClass c => c.parent.toList ++ c.interfaces
  | ofInterface i => i.parents

/-- Members, and the members in the types of heritage lists, are laid out inside a declaration. -/
structure Declaration.Laid (size : Nat) (d : Declaration) : Prop where
  fits : d.span.Fits size
  members : MembersLaid size d.span d.members
  heritage : ∀ h ∈ d.heritage, h.type.Laid size d.span

theorem Cursor.Marks.fits {size : Nat} {c c' : Cursor} {s : Span} (hs : c.Marks c' s)
    (h : c.Ordered size) (hc : c.LeadsTo c') : s.Fits size := by
  have hstop := hs.stop_le
  have hhere := h.stop_le_size
  have hback := (h.leadsTo hc).back_le_size
  refine ⟨?_, by omega⟩
  rw [hs.start_eq]
  exact hs.le_stop

namespace Parser

variable {size : Nat}

/-- Type parameters are moved over. -/
theorem meets_typeParams {c : Cursor} : typeParams.Meets c fun _ _ => True :=
  meets_bind (meets_eat (fun _ => meets_taking trivial) fun _ => meets_pure trivial)

/-- Nothing more than moving on is asked of a token that is taken. -/
theorem meets_any_takeIf {α : Type} {c : Cursor} (f : Token → Option α) :
    (takeIf f).Meets c fun _ _ => True :=
  meets_takeIf (fun _ _ => trivial) fun _ => trivial

/-- A body between braces, if there is one. -/
theorem readsMembers_body {p : Parser (List Member)} (hp : p.ReadsMembers size) :
    (do
      if ← eat .openBrace then p
      else pure []).ReadsMembers size := by
  intro c hc
  refine meets_bind (meets_eat (fun _ => ?_) fun _ => meets_pure .nil)
  refine (hp c.bump hc.bump).mono ?_
  intro ms c₁ h₁ hms
  exact hms.mono (hc.regionTo_covers c.leadsTo_bump h₁ (.refl c₁))

end Parser

namespace Rule

open DeclAtlas.Parser

variable {size : Nat}

-- ── Class bodies ─────────────────────────────────────────────────────────────────

/-- A member of a class spans what was read of it, and its type lies inside. -/
theorem classMember_laid {call : Callees} (hcall : TypesLaid size call) (c : Cursor)
    (hc : c.Ordered size) :
    (classMemberBody call).Meets c fun m c' => m.LaidFrom size c c' := by
  refine meets_get (meets_bind (meets_skip (meets_bind (meets_taking ?_))))
  have h₁ := (c.leadsTo_advance (decoratorsExtent c.rest)).trans (Cursor.leadsTo_advance
    (leadingMemberModifiers (c.advance (decoratorsExtent c.rest)).rest).length _)
  generalize (c.advance (decoratorsExtent c.rest)).advance _ = c₁ at h₁ ⊢
  refine meets_get (meets_ite (fun _ => ?_) fun _ => meets_ite (fun _ => ?_) fun _ => ?_)
  · -- a static block
    refine meets_bind (meets_bump (meets_bind (meets_skip (meets_get (meets_pure ?_)))))
    exact ⟨hc.marks_spanFrom _, by rintro _ ⟨⟩⟩
  · exact hcall.indexSignature _ c c₁ hc h₁
  · refine meets_bind ((meets_any_eat .star).mono ?_)
    intro _ c₂ h₂ _
    refine meets_bind (meets_accessorKind.mono ?_)
    intro accessor c₃ h₃ _
    refine meets_bind (meets_memberName.mono ?_)
    intro name c₄ h₄ _
    refine meets_bind ((meets_any_eat .question).mono ?_)
    intro optional c₅ h₅ _
    refine meets_bind ((meets_any_eat .bang).mono ?_)
    intro _ c₆ h₆ _
    refine meets_get (meets_when (meets_skip trivial) ?_)
    intro c₇ h₇
    have h₀₇ := h₁.trans (h₂.trans (h₃.trans (h₄.trans (h₅.trans (h₆.trans h₇)))))
    refine meets_get (meets_ite (fun _ => ?_) fun _ => ?_)
    · -- a method or an accessor; its body is read over
      have h₀₈ := h₀₇.trans (c₇.leadsTo_advance (bracketExtent 0 c₇.rest))
      refine meets_bind (meets_skip (meets_bind
        ((hcall.annotatedResult _ (hc.leadsTo h₀₈)).mono ?_)))
      intro type c₉ h₉ htype
      refine meets_get (meets_join ?_ fun hjoin => meets_ite
        (fun _ => meets_bind (meets_skip (hjoin _ (c₉.leadsTo_advance _))))
        fun _ => meets_bind ((meets_any_eat .semicolon).mono fun _ c' h' _ => hjoin c' h'))
      intro c' h'
      exact meets_get (meets_pure (laidFrom_spanFrom hc h₀₈ h₉ h' htype rfl))
    · -- a property, with or without an initial value
      refine meets_bind ((hcall.annotated c₇ (hc.leadsTo h₀₇)).mono ?_)
      intro type c₈ h₈ htype
      refine meets_bind ((meets_any_eat .equals).mono ?_)
      intro _ c₉ h₉ _
      refine meets_when (meets_get (meets_skip trivial)) ?_
      intro c₁₀ h₁₀
      refine meets_bind ((meets_any_eat .semicolon).mono ?_)
      intro _ c₁₁ h₁₁ _
      have h₈₁₁ := h₉.trans (h₁₀.trans h₁₁)
      exact meets_get (meets_pure (laidFrom_spanFrom hc h₀₇ h₈ h₈₁₁ htype rfl))

/-- The members of a class follow one another, on every budget. -/
theorem classMembers_laid (n : Nat) : (run n classMembers).ReadsMembers size := by
  induction n with
  | zero => intro c _; exact meets_pure .nil
  | succ n ih =>
      intro c hc
      refine meets_get ?_
      split
      · exact meets_pure .nil
      · exact meets_bind (meets_bump (meets_pure .nil))
      · exact ih.behind c hc
      · next hnone _ _ =>
        have hne : c.rest ≠ [] := mt Cursor.peek_eq_none_iff.mpr hnone
        refine meets_bind ((classMember_laid (typesLaid size n) c hc).mono ?_)
        intro m c₁ h₁ hm
        refine meets_get (meets_forced hne h₁ ?_)
        intro c₂ h₂ hlt
        refine meets_bind ((ih c₂ (hc.leadsTo (h₁.trans h₂))).mono ?_)
        intro ms c₃ h₃ hms
        exact meets_pure (.cons hc h₁ h₂ h₃ hlt hm hms)

-- ── Heritage ─────────────────────────────────────────────────────────────────────

/-- The type of an entry is laid out; of a call nothing is kept. -/
theorem heritage_laid (n : Nat) (c : Cursor) (hc : c.Ordered size) :
    (heritageBody (run n)).Meets c fun h c' => h.type.Laid size (c.regionTo c') := by
  refine meets_get (meets_bind (((typesLaid size n).referenceType c hc).mono ?_))
  intro t c₁ h₁ ht
  refine meets_get (meets_ite (fun _ => ?_) fun _ => meets_pure ht)
  refine meets_bind (meets_skip (meets_get (meets_when (meets_skip trivial) ?_)))
  intro c₂ _
  exact meets_get (meets_pure laid_other)

/-- The entries of a heritage list are laid out in the region of the list. -/
theorem heritageList_laid (n : Nat) :
    ∀ c : Cursor, c.Ordered size →
      (run n heritageList).Meets c fun hs c' => ∀ h ∈ hs, h.type.Laid size (c.regionTo c') := by
  induction n with
  | zero => intro c _; exact meets_pure (List.forall_mem_nil _)
  | succ n ih =>
      intro c hc
      refine meets_bind ((heritage_laid n c hc).mono ?_)
      intro h c₁ h₁ hh
      refine meets_bind (meets_eat (fun _ => ?_) fun _ => ?_)
      · refine meets_bind ((ih c₁.bump (hc.leadsTo h₁).bump).mono ?_)
        intro hs c₂ h₂ hhs
        have h₁₂ := c₁.leadsTo_bump.trans h₂
        refine meets_pure (List.forall_mem_cons.mpr ⟨hh.widen hc (.refl c) h₁ h₁₂, ?_⟩)
        intro h' hh'
        exact (hhs h' hh').widen hc (h₁.trans c₁.leadsTo_bump) h₂ (.refl c₂)
      · exact meets_pure (List.forall_mem_cons.mpr ⟨hh, List.forall_mem_nil _⟩)

/-- Entries that were read before stay laid out, and those that are added are laid out behind
    them. -/
theorem classHeritage_laid (n : Nat) :
    ∀ (parent : Option Heritage) (interfaces : List Heritage) (c₀ c : Cursor), c₀.Ordered size →
      c₀.LeadsTo c → (∀ h ∈ parent.toList ++ interfaces, h.type.Laid size (c₀.regionTo c)) →
      (run n (classHeritage parent interfaces)).Meets c fun hs c' =>
        ∀ h ∈ hs.1.toList ++ hs.2, h.type.Laid size (c₀.regionTo c') := by
  induction n with
  | zero => intro parent interfaces c₀ c _ _ hold; exact meets_pure hold
  | succ n ih =>
      intro parent interfaces c₀ c hc₀ hlead hold
      -- what was read before, seen from a later cursor
      have hkeep : ∀ c', c.LeadsTo c' → ∀ h ∈ parent.toList ++ interfaces,
          h.type.Laid size (c₀.regionTo c') :=
        fun c' h' h hh => (hold h hh).widen hc₀ (.refl c₀) hlead h'
      have h₀₁ := hlead.trans c.leadsTo_bump
      have hc₁ := hc₀.leadsTo h₀₁
      refine meets_bind (meets_eat ?_ fun _ => meets_bind (meets_eat ?_ fun _ => meets_pure hold))
      · intro hextends
        refine meets_bind ((heritage_laid n c.bump hc₁).mono ?_)
        intro h c₁ h₁ hh
        refine ih (some h) interfaces c₀ c₁ hc₀ (h₀₁.trans h₁) ?_
        refine List.forall_mem_cons.mpr ⟨hh.widen hc₀ h₀₁ h₁ (.refl c₁), ?_⟩
        intro h' hh'
        exact hkeep c₁ (c.leadsTo_bump.trans h₁) h' (List.mem_append_right _ hh')
      · intro himplements
        refine meets_bind ((heritageList_laid n c.bump hc₁).mono ?_)
        intro hs c₁ h₁ hhs
        refine ih parent (interfaces ++ hs) c₀ c₁ hc₀ (h₀₁.trans h₁) ?_
        rw [← List.append_assoc]
        refine List.forall_mem_append.mpr ⟨hkeep c₁ (c.leadsTo_bump.trans h₁), ?_⟩
        intro h' hh'
        exact (hhs h' hh').widen hc₀ h₀₁ h₁ (.refl c₁)

-- ── Declarations ─────────────────────────────────────────────────────────────────

/-- A declaration that began at `c₀`: its heritage was read from `c₀` to `c₁`, its members from
    there to `c₂`. -/
theorem declaration_laid {c₀ c₁ c₂ : Cursor} {d : Declaration} (h₀ : c₀.Ordered size)
    (h₁ : c₀.LeadsTo c₁) (h₂ : c₁.LeadsTo c₂) (hspan : d.span = c₂.spanFrom c₀.here)
    (hheritage : ∀ h ∈ d.heritage, h.type.Laid size (c₀.regionTo c₁))
    (hmembers : MembersLaid size (c₁.regionTo c₂) d.members) : d.Laid size := by
  refine ⟨?_, ?_, ?_⟩
  · rw [hspan]
    exact (h₀.marks_spanFrom c₂).fits h₀ (h₁.trans h₂)
  · rw [hspan]
    exact hmembers.mono (h₀.spanFrom_covers h₁ h₂ (.refl c₂))
  · intro h hh
    rw [hspan]
    exact (hheritage h hh).mono (h₀.spanFrom_covers (.refl c₀) h₁ h₂)

/-- A class spans all that was read of it, and lays out what it holds. -/
theorem classDecl_laid (n : Nat) (m : Modifiers) (c₀ c : Cursor) (h₀ : c₀.Ordered size)
    (hlead : c₀.LeadsTo c) :
    (classDeclBody (run n) m c₀.here).Meets c fun d c' =>
      d.span = c'.spanFrom c₀.here ∧ (Declaration.ofClass d).Laid size ∧ c.bump.LeadsTo c' := by
  refine meets_bind (meets_bump (meets_get (meets_branch ?_)))
  refine Meets.mono (meets_ite (fun _ => meets_pure trivial) fun _ => meets_any_takeIf _) ?_
  intro name c₁ h₁ _
  refine meets_bind (meets_typeParams.mono ?_)
  intro params c₂ h₂ _
  have h₀₂ := (hlead.trans c.leadsTo_bump).trans (h₁.trans h₂)
  refine meets_bind ((classHeritage_laid n none [] c₀ c₂ h₀ h₀₂ (List.forall_mem_nil _)).mono ?_)
  rintro ⟨parent, interfaces⟩ c₃ h₃ hheritage
  refine meets_eat_branch ((readsMembers_body (classMembers_laid n) c₃
    (h₀.leadsTo (h₀₂.trans h₃))).mono ?_)
  intro ms c₄ h₄ hms
  refine meets_get (meets_pure ⟨rfl, ?_, h₁.trans (h₂.trans (h₃.trans h₄))⟩)
  exact declaration_laid h₀ (h₀₂.trans h₃) h₄ rfl hheritage hms

/-- An interface spans all that was read of it, and lays out what it holds. -/
theorem interfaceDecl_laid (n : Nat) (m : Modifiers) (c₀ c : Cursor) (h₀ : c₀.Ordered size)
    (hlead : c₀.LeadsTo c) :
    (interfaceDeclBody (run n) m c₀.here).Meets c fun d c' =>
      d.span = c'.spanFrom c₀.here ∧ (Declaration.ofInterface d).Laid size ∧
        c.bump.LeadsTo c' := by
  refine meets_bind (meets_bump (meets_bind ((meets_any_takeIf _).mono ?_)))
  intro name c₁ h₁ _
  refine meets_bind (meets_typeParams.mono ?_)
  intro params c₂ h₂ _
  have h₀₂ := (hlead.trans c.leadsTo_bump).trans (h₁.trans h₂)
  have hc₂ := h₀.leadsTo h₀₂
  have hparents : (do
      if ← eatWord "extends" then run n heritageList
      else pure [] : Parser (List Heritage)).Meets c₂ fun hs c' =>
        ∀ h ∈ hs, h.type.Laid size (c₀.regionTo c') := by
    refine meets_bind (meets_eat (fun _ => ?_) fun _ => meets_pure (List.forall_mem_nil _))
    refine (heritageList_laid n c₂.bump hc₂.bump).mono ?_
    intro hs c₃ h₃ hhs h hh
    exact (hhs h hh).widen h₀ (h₀₂.trans c₂.leadsTo_bump) h₃ (.refl c₃)
  refine meets_eat_branch (hparents.mono ?_)
  intro parents c₃ h₃ hheritage
  refine meets_eat_branch ((readsMembers_body (typesLaid size n).typeMembers c₃
    (hc₂.leadsTo h₃)).mono ?_)
  intro ms c₄ h₄ hms
  refine meets_get (meets_pure ⟨rfl, ?_, h₁.trans (h₂.trans (h₃.trans h₄))⟩)
  exact declaration_laid h₀ (h₀₂.trans h₃) h₄ rfl hheritage hms

end Rule

end DeclAtlas

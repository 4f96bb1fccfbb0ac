import DeclAtlas.Proofs.TypeReading

/-!
# Types are read back as they were written

Type literals, parentheses and function types are the forms that are told from others by looking far
ahead: a type literal begins like a mapped type, and a parenthesis is one of a function type if an
arrow follows the closing one.  With them every form has its lemma, and an induction on `Canonical`
reads all types back.

* **`Rule.readsAt_of_canonical`** — a canonical type of any level is read back by the rule of that
  level.
-/

namespace DeclAtlas

namespace Parser

variable {c : Cursor} {ps : List Piece}

-- ── Names of members ─────────────────────────────────────────────────────────────

/-- A word is read as the name of a member. -/
theorem memberName_word {w : String} {fresh : Bool} {ms : List Mark}
    (h : c.ahead = (.word w, fresh) :: ms) :
    memberName.Meets c fun name c' => name = some w ∧ c'.ahead = ms := by
  obtain ⟨l, ls, hr, hl, -, -⟩ := map_mark_eq_cons h
  refine meets_get ?_
  simp only [hr, hl]
  exact meets_bind (meets_bump_ahead h fun c₁ h₁ => meets_pure ⟨rfl, h₁⟩)

/-- The words `get` and `set` are names if no name follows. -/
theorem accessorKind_none {m m' : Mark} {ms : List Mark} (h : c.ahead = m :: m' :: ms)
    (hname : m'.1.startsMemberName = false) :
    accessorKind.Meets c fun kind c' => kind = none ∧ c' = c := by
  refine meets_get (meets_if_neg ?_ (meets_if_neg ?_ (meets_pure ⟨rfl, rfl⟩)))
  · simp [Cursor.seesMemberName, h, hname]
  · simp [Cursor.seesMemberName, h, hname]

/-- A question mark that may be absent, in front of another token. -/
theorem eat_optional {optional : Bool} {own : List Piece} {stops : List Token}
    (hstops : Token.question ∉ stops) (hown : Follows stops (Piece.marks false own))
    (h : c.ahead = Piece.marks false ((if optional then [.sign '?'] else []) ++ own)) :
    (eat .question).Meets c fun optional' c' =>
      optional' = optional ∧ c'.ahead = Piece.marks false own := by
  cases optional with
  | false =>
      obtain ⟨t, ms, hms, ht⟩ := hown
      have h : c.ahead = Piece.marks false own := h
      exact meets_eat_neg (h.trans hms) (ne_of_mem_of_not_mem ht hstops) ⟨rfl, h⟩
  | true => exact meets_eat_pos h fun c₁ h₁ => ⟨rfl, h₁⟩

/-- A parenthesis opens the parameters of a function type if an arrow follows the closing one. -/
theorem atFunctionType_eq {own : List Piece} (hown : Piece.Balanced own)
    (h : c.ahead = Piece.marks false (.sign '(' :: (own ++ .sign ')' :: ps))) :
    c.atFunctionType = ((Piece.tokens ps).head? == some .arrow) := by
  have htokens : c.rest.map Lexeme.token =
      .openParen :: (Piece.tokens own ++ .closeParen :: Piece.tokens ps) := by
    rw [Cursor.map_token_rest, h, Piece.map_fst_marks, Piece.tokens_cons, Piece.tokens_append,
      Piece.tokens_cons]
    rfl
  obtain ⟨l, ls, hrest, hl, htokens⟩ := List.map_eq_cons_iff.mp htokens
  obtain ⟨inner, ls', rfl, hinner, htokens⟩ := List.map_eq_append_iff.mp htokens
  obtain ⟨l', ls, rfl, hl', hls⟩ := List.map_eq_cons_iff.mp htokens
  have hlength : inner.length = (Piece.tokens own).length := by
    rw [← hinner, List.length_map]
  have hclose : closerIndex 1 (l' :: ls) = some 0 := by
    simp [closerIndex, hl', Token.opens, Token.closes]
  have hindex : closerIndex 0 c.rest = some (inner.length + 1) := by
    rw [hrest, closerIndex_opens _ (by rw [hl]; rfl), hown 0 inner _ hinner, hclose, hlength,
      Option.map_some, Option.map_some, Nat.zero_add]
  have hnext : c.rest[inner.length + 1 + 1]? = ls.head? := by
    rw [hrest, List.getElem?_cons_succ, List.getElem?_append_right (by omega),
      Nat.add_sub_cancel_left, List.getElem?_cons_succ, List.head?_eq_getElem?]
  rw [Cursor.atFunctionType, hindex, ← hls, List.head?_map, ← hnext]
  rfl

end Parser

namespace Rule

open DeclAtlas.Parser

variable {c : Cursor} {ps : List Piece}

-- ── Type literals ────────────────────────────────────────────────────────────────

/-- A colon and a type that is read back. -/
theorem annotationBody_type {part : Rule TypeExpr} {t : TypeExpr}
    (hread : part.ReadsBack closers t)
    (h : c.ahead = Piece.marks false (.sign ':' :: .space :: (t.pieces ++ ps)))
    (hps : Follows closers (Piece.marks false ps)) :
    (annotationBody total part).Meets c fun type c' =>
      mapSpanOption .unplaced type = mapSpanOption .unplaced (some t) ∧
        c'.ahead = Piece.marks false ps := by
  refine meets_bind (meets_eat_pos h fun c₁ h₁ => ?_)
  refine meets_bind ((hread h₁ hps).mono ?_)
  rintro t' c₂ - ⟨ht', h₂⟩
  exact meets_pure ⟨by rw [mapSpanOption, mapSpanOption, ht'], h₂⟩

/-- A property signature, up to its semicolon. -/
theorem typeMember_property {w : String} {optional : Bool} {t : TypeExpr}
    (hread : typeExpr.ReadsBack closers t)
    (h : c.ahead = Piece.marks false (.word w :: ((if optional then [.sign '?'] else []) ++
      .sign ':' :: .space :: (t.pieces ++ .sign ';' :: ps)))) :
    Meets (total typeMember) c fun m c' =>
      m.map (Member.mapSpan .unplaced) = some ⟨.propertySignature, some w,
        mapSpanOption .unplaced (some t), false, optional, .empty .origin⟩ ∧
      c'.ahead = Piece.marks false (.sign ';' :: ps) := by
  -- a colon or a question mark behind the name: it is neither a modifier nor a signature
  obtain ⟨t₁, ms, h', hnext⟩ : ∃ t₁ ms, c.ahead = (.word w, false) :: (t₁, false) :: ms ∧
      (t₁ = .colon ∨ t₁ = .question) := by
    cases optional with
    | false => exact ⟨_, _, h, Or.inl rfl⟩
    | true => exact ⟨_, _, h, Or.inr rfl⟩
  have hname : t₁.startsMemberName = false := by rcases hnext with rfl | rfl <;> rfl
  have hsignature : ¬ (c.atWord "new" && (c.sees 1 .openParen || c.sees 1 .less)) = true := by
    rcases hnext with rfl | rfl <;> simp [h']
  refine meets_total (meets_get (meets_if_neg (by simp [h']) (meets_if_neg hsignature ?_)))
  refine meets_if_neg (by simp [h', Cursor.seesMemberName, hname]) (meets_get ?_)
  refine meets_if_neg (by simp [h']) ?_
  refine meets_bind ((accessorKind_none h' hname).mono ?_)
  rintro _ _ - ⟨rfl, rfl⟩
  refine meets_bind ((memberName_word h).mono ?_)
  rintro _ c₁ - ⟨rfl, h₁⟩
  have hcolon : Follows [.colon]
      (Piece.marks false (.sign ':' :: .space :: (t.pieces ++ .sign ';' :: ps))) :=
    ⟨_, _, rfl, List.mem_singleton_self _⟩
  refine meets_bind ((eat_optional (by decide) hcolon h₁).mono ?_)
  rintro _ c₂ - ⟨rfl, h₂⟩
  refine meets_get (meets_if_neg (by simp [h₂, Piece.marks, loneToken]) (meets_get ?_))
  refine meets_if_neg (by simp [h₂, Piece.marks, loneToken]) ?_
  have hannotation := annotationBody_type hread h₂ ⟨_, _, rfl, by decide⟩
  refine meets_bind ((meets_total (r := annotated) hannotation).mono ?_)
  rintro type c₃ - ⟨htype, h₃⟩
  refine meets_get (meets_pure ⟨?_, h₃⟩)
  rw [Option.map_some, Member.mapSpan, htype]
  rfl

/-- A closing brace ends the members. -/
theorem typeMembers_close {fresh : Bool} {marks : List Mark}
    (h : c.ahead = (.closeBrace, fresh) :: marks) :
    Meets (total typeMembers) c fun ms c' => ms = [] ∧ c'.ahead = marks := by
  have hpeek : c.peek = some .closeBrace := by simp [h]
  refine meets_total (meets_get ?_)
  rw [hpeek]
  exact meets_bind (meets_bump_ahead h fun c₁ h₁ => meets_pure ⟨rfl, h₁⟩)

/-- A semicolon in front of members is read over. -/
theorem typeMembers_semicolon {fresh : Bool} {marks : List Mark}
    {post : List Member → Cursor → Prop} (h : c.ahead = (.semicolon, fresh) :: marks)
    (hnext : ∀ c', c'.ahead = marks → Meets (total typeMembers) c' post) :
    Meets (total typeMembers) c post := by
  have hpeek : c.peek = some .semicolon := by simp [h]
  refine meets_total (meets_get ?_)
  rw [hpeek]
  exact meets_bind (meets_bump_ahead h hnext)

/-- What is read of a member and of those behind it.  At least one token is passed. -/
theorem typeMembers_member {t : Token} {fresh : Bool} {marks : List Mark}
    {post : List Member → Cursor → Prop} (h : c.ahead = (t, fresh) :: marks)
    (ht : t ∉ [.closeBrace, .semicolon, .comma])
    (hmember : Meets (total typeMember) c fun m c₁ =>
      Meets (total typeMembers) (if c₁.remaining = c.remaining then c₁.bump else c₁)
        fun ms c₂ => post (m.toList ++ ms) c₂) :
    Meets (total typeMembers) c post := by
  have hpeek : c.peek = some t := by simp [h]
  simp only [List.mem_cons, List.not_mem_nil, not_or, or_false] at ht
  refine meets_total (meets_get ?_)
  rw [hpeek]
  split
  · next hnone => cases hnone
  · next hbrace => exact absurd (Option.some.inj hbrace) ht.1
  · next hsemicolon => exact absurd (Option.some.inj hsemicolon) ht.2.1
  · next hcomma => exact absurd (Option.some.inj hcomma) ht.2.2
  · refine meets_bind (hmember.mono fun m c₁ _ hnext => meets_get ?_)
    have hread : ∀ c₂, Meets (total typeMembers) c₂ (fun ms c₃ => post (m.toList ++ ms) c₃) →
        (total typeMembers >>= fun ms => pure (m.toList ++ ms)).Meets c₂ post :=
      fun c₂ hms => meets_bind (hms.mono fun ms c₃ _ hpost => meets_pure hpost)
    refine meets_ite (fun hsame => ?_) fun hmoved => ?_
    · rw [if_pos hsame] at hnext
      exact meets_bind (meets_bump (hread _ hnext))
    · rw [if_neg hmoved] at hnext
      exact hread _ hnext

/-- Property signatures between braces, through the closing one. -/
theorem typeMembers_properties {ms : List Member} (hms : ∀ m ∈ ms, m.IsProperty)
    (hread : ∀ m ∈ ms, ∀ t, m.type = some t → typeExpr.ReadsBack closers t) :
    ∀ {c : Cursor}, c.ahead = Piece.marks false (memberPieces ms ++ .sign '\x7d' :: ps) →
      Meets (total typeMembers) c fun ms' c' =>
        mapSpanMembers .unplaced ms' = mapSpanMembers .unplaced ms ∧
          c'.ahead = Piece.marks false ps := by
  induction ms with
  | nil =>
      intro c h
      refine (typeMembers_close h).mono ?_
      rintro _ c₁ - ⟨rfl, h₁⟩
      exact ⟨rfl, h₁⟩
  | cons m ms ih =>
      intro c h
      obtain ⟨hm, hms'⟩ := List.forall_mem_cons.mp hms
      obtain ⟨ht, hread'⟩ := List.forall_mem_cons.mp hread
      obtain ⟨w, t, optional, span, rfl, -⟩ := hm.exists_eq
      simp only [memberPieces, Member.pieces, annotationPieces, List.cons_append,
        List.append_assoc, List.nil_append, Option.getD_some] at h
      refine typeMembers_member h (by simp) ((typeMember_property (ht t rfl) h).mono ?_)
      rintro m' c₁ hlead ⟨hm', h₁⟩
      have hmoved : c₁.remaining ≠ c.remaining := by
        refine Nat.ne_of_lt (hlead.remaining_lt ?_)
        simp [h, h₁, Piece.marks, loneToken]
      rw [if_neg hmoved]
      refine typeMembers_semicolon h₁ fun c₂ h₂ => (ih hms' hread' h₂).mono ?_
      rintro rest c₃ - ⟨hrest, h₃⟩
      obtain ⟨m', rfl, hplain⟩ := Option.map_eq_some_iff.mp hm'
      refine ⟨?_, h₃⟩
      rw [Option.toList_some, List.singleton_append, mapSpanMembers, mapSpanMembers, hrest, hplain]
      rfl

/-- Property signatures are told from a mapped type, even if the first one is named `readonly`. -/
theorem atMappedType_members {ms : List Member} (hms : ∀ m ∈ ms, m.IsProperty)
    (h : c.ahead = Piece.marks false ((TypeExpr.members ms).pieces ++ ps)) :
    c.atMappedType = false := by
  rw [TypeExpr.pieces] at h
  cases ms with
  | nil => simp [Cursor.atMappedType, h, memberPieces, Piece.marks, loneToken]
  | cons m ms =>
      obtain ⟨w, t, optional, span, rfl, -⟩ := (hms m (List.mem_cons_self ..)).exists_eq
      simp only [memberPieces, Member.pieces] at h
      by_cases hw : w = "readonly"
      · cases optional <;> simp [Cursor.atMappedType, h, Piece.marks, loneToken, hw]
      · simp [Cursor.atMappedType, h, Piece.marks, loneToken, hw]

/-- A type literal: what stands between its braces are no parts of a mapped type. -/
theorem primaryType_members {ms : List Member} (hms : ∀ m ∈ ms, m.IsProperty)
    (hread : ∀ m ∈ ms, ∀ t, m.type = some t → typeExpr.ReadsBack closers t)
    (h : c.ahead = Piece.marks false ((TypeExpr.members ms).pieces ++ ps)) :
    Meets (total primaryType) c fun t' c' =>
      t'.mapSpan .unplaced = (TypeExpr.members ms).mapSpan .unplaced ∧
        c'.ahead = Piece.marks false ps := by
  have hmapped := atMappedType_members hms h
  rw [TypeExpr.pieces, List.cons_append, List.cons_append, List.append_assoc] at h
  obtain ⟨l, ls, hr, hl, -, -⟩ := map_mark_eq_cons h
  have hl : l.token = .openBrace := hl
  refine meets_total (meets_get ?_)
  simp only [hr, hl]
  refine meets_if_neg (by simp [hmapped]) ?_
  refine meets_bind (meets_bump_ahead h fun c₁ h₁ => ?_)
  refine meets_bind ((typeMembers_properties hms hread h₁).mono ?_)
  rintro ms' c₂ - ⟨hms', h₂⟩
  exact meets_pure ⟨by rw [TypeExpr.mapSpan, TypeExpr.mapSpan, hms'], h₂⟩

theorem readsBase_members {ms : List Member} (hms : ∀ m ∈ ms, m.IsProperty)
    (hread : ∀ m ∈ ms, ∀ t, m.type = some t → typeExpr.ReadsBack closers t) :
    ReadsBase baseStops (.members ms) :=
  readsBase_of fun h _ => primaryType_members hms hread h

-- ── Parentheses ──────────────────────────────────────────────────────────────────

/-- A type in parentheses, if no arrow follows the closing one. -/
theorem primaryType_paren {t : TypeExpr} (ht : Canonical .any t)
    (hread : typeExpr.ReadsBack closers t)
    (h : c.ahead = Piece.marks false ((TypeExpr.paren t).pieces ++ ps)) {m : Mark}
    {ms : List Mark} (hps : Piece.marks false ps = m :: ms) (harrow : m.1 ≠ .arrow) :
    Meets (total primaryType) c fun t' c' =>
      t'.mapSpan .unplaced = (TypeExpr.paren t).mapSpan .unplaced ∧
        c'.ahead = Piece.marks false ps := by
  rw [TypeExpr.pieces, List.cons_append, List.append_assoc, List.singleton_append] at h
  have hfunction : ¬ c.atFunctionType = true := by
    rw [atFunctionType_eq ht.balanced h, ← Piece.map_fst_marks false, hps]
    simp [harrow]
  obtain ⟨l, ls, hr, hl, -, -⟩ := map_mark_eq_cons h
  have hl : l.token = .openParen := hl
  refine meets_total (meets_get ?_)
  simp only [hr, hl]
  refine meets_if_neg hfunction ?_
  refine meets_bind (meets_bump_ahead h fun c₁ h₁ => ?_)
  refine meets_bind ((hread h₁ ⟨_, _, rfl, by decide⟩).mono ?_)
  rintro t' c₂ - ⟨ht', h₂⟩
  refine meets_bind (meets_eat_pos h₂ fun c₃ h₃ => meets_pure ⟨?_, h₃⟩)
  rw [TypeExpr.mapSpan, TypeExpr.mapSpan, ht']

theorem readsBase_paren {t : TypeExpr} (ht : Canonical .any t)
    (hread : typeExpr.ReadsBack closers t) : ReadsBase baseStops (.paren t) := by
  refine readsBase_of fun h hps => ?_
  obtain ⟨t₀, ms, hms, hstop⟩ := hps
  exact primaryType_paren ht hread h hms (ne_of_mem_of_not_mem hstop (by decide))

-- ── All types ────────────────────────────────────────────────────────────────────

/-- A type of a level is read back by the rule of that level. -/
def ReadsAt : Level → TypeExpr → Prop
  | .operand => ReadsBase baseStops
  | .intersection => intersectionType.ReadsBack Level.intersection.stops
  | .union => unionType.ReadsBack closers
  | .any => typeExpr.ReadsBack closers

/-- An operand is read back where an intersection may stand, if more brackets do not follow. -/
theorem readsBack_intersectionType {stops stops' : List Token} (hbase : stops ⊆ stops')
    (hsub : stops ⊆ Level.intersection.stops) {level : Level} {t : TypeExpr}
    (hcanonical : Canonical level t) (ht : ReadsBase stops' t) :
    intersectionType.ReadsBack stops t := by
  have hoperand : stops ⊆ Level.operand.stops := fun _ h => List.mem_cons_of_mem _ (hsub h)
  have hsign : loneToken '&' ∉ stops := fun h => absurd (hsub h) (by decide)
  have hbaseStops : stops ⊆ baseStops := fun _ h => List.mem_cons_of_mem _ (hoperand h)
  have hpostfix : postfixType.ReadsBack stops t := readsBack_postfixType hbase hoperand ht
  intro c ps h hps
  exact intersection_isChain.single hsign hbaseStops hcanonical hpostfix h hps

/-- A part of a union is read back where a union may stand. -/
theorem readsBack_unionType {level : Level} {t : TypeExpr} (hcanonical : Canonical level t)
    (ht : intersectionType.ReadsBack closers t) : unionType.ReadsBack closers t :=
  union_isChain.single (by decide) (by decide) hcanonical ht

/-- A keyword is read back where a whole type may stand. -/
theorem readsBack_keyword (k : Keyword) : typeExpr.ReadsBack closers (.keyword k) :=
  readsBack_typeExpr (readsBack_unionType (.keyword k)
    (readsBack_intersectionType (by decide) (by decide) (.keyword k) (readsBase_keyword k)))

/-- A result that is no predicate. -/
theorem resultType_keyword {k : Keyword} (hk : k.word ≠ "asserts")
    (h : c.ahead = Piece.marks false (.word k.word :: ps))
    (hps : Follows closers (Piece.marks false ps)) :
    Meets (total resultType) c fun _ c' => c'.ahead = Piece.marks false ps := by
  have hread := readsBack_keyword k h hps
  obtain ⟨t, ms, hms, hstop⟩ := hps
  have his : t ≠ .word "is" := ne_of_mem_of_not_mem hstop (by decide)
  refine meets_total (meets_get (meets_if_neg (by simp [h, Piece.marks, hk]) ?_))
  refine meets_if_neg (by simp [h, Piece.marks, hms, his]) ?_
  exact hread.mono fun _ _ _ hread => hread.2

/-- Parameters and a result, in front of what ends every type: anything else would go on with the
    result. -/
theorem readsBase_function : ReadsBase closers .function := by
  refine readsBase_of fun {c ps} h hps => ?_
  have hfunction : c.atFunctionType = true := by
    rw [atFunctionType_eq Piece.Balanced.nil h]
    rfl
  obtain ⟨l, ls, hr, hl, -, h'⟩ := map_mark_eq_cons h
  obtain ⟨l', ls, rfl, hl', -, h'⟩ := map_mark_eq_cons h'
  have hl : l.token = .openParen := hl
  have hl' : l'.token = .closeParen := hl'
  refine meets_total (meets_get ?_)
  simp only [hr, hl]
  refine meets_if_pos hfunction (meets_total ?_)
  -- the parameters are read over as one region, which is the two parentheses
  have hextent : bracketExtent 0 c.rest = 2 := by
    simp [hr, bracketExtent, hl, hl', Token.opens, Token.closes]
  refine meets_get (meets_if_neg (by simp [h, TypeExpr.pieces, Piece.marks, loneToken]) ?_)
  refine meets_get (meets_if_pos (by simp [h, TypeExpr.pieces, Piece.marks, loneToken]) ?_)
  refine meets_bind (meets_skip ?_)
  have h₁ : (c.advance 2).ahead =
      Piece.marks false (.space :: .arrow :: .space :: .word "void" :: ps) := by
    rw [Cursor.ahead_advance, h]
    rfl
  rw [hextent]
  refine meets_bind (meets_eat_pos h₁ fun c₂ h₂ => ?_)
  refine meets_bind ((resultType_keyword (k := .void) (by decide) h₂ hps).mono ?_)
  rintro _ c₃ - h₃
  exact meets_pure ⟨rfl, h₃⟩

/-- Every canonical type is read back by the rule of its level. -/
theorem readsAt_of_canonical {level : Level} {t : TypeExpr} (h : Canonical level t) :
    ReadsAt level t := by
  induction h with
  | keyword k => exact readsBase_keyword k
  | reference hname hargs ih => exact readsBase_reference hname hargs ih
  | array _ ih => exact readsBase_array ih
  | tuple hts ih => exact readsBase_tuple hts ih
  | literal s => exact readsBase_literal s
  | members hms _ ih => exact readsBase_members hms ih
  | paren ht ih => exact readsBase_paren ht ih
  | query hname => exact readsBase_query hname
  -- one level up, the type may stand in front of fewer tokens
  | ofOperand ht ih => exact readsBack_intersectionType (by decide) (List.Subset.refl _) ht ih
  | intersection hlength hts ih =>
      exact intersection_isChain.several (by decide) (by decide) hlength hts fun t ht =>
        readsBack_postfixType (by decide) (List.Subset.refl _) (ih t ht)
  | ofIntersection ht ih => exact readsBack_unionType ht (ih.mono (by decide))
  | union hlength hts ih =>
      exact union_isChain.several (by decide) (by decide) hlength hts ih
  | ofUnion _ ih => exact readsBack_typeExpr ih
  | function =>
      refine readsBack_typeExpr (readsBack_unionType .function ?_)
      exact readsBack_intersectionType (List.Subset.refl _) (by decide) .function readsBase_function

end Rule

end DeclAtlas

import DeclAtlas.Proofs.MemberReading

/-!
# Declarations are read back as they were written

Classes, interfaces and namespaces are put together from parts that are read back: modifiers, type
parameters, heritage entries and members.  Heritage entries keep their texts, so it has to be known
of the cursor how the tokens ahead are spelled (`Cursor.Spells`), and not only which they are.

The main result is `parse_drafts`: what is written of declarations, namespaces inside of namespaces
among them, is read to what they declare, up to spans.  A class that is the only statement is read
in the same way, so every type can be read back inside of one (`parse_class_of_type`).
-/

namespace DeclAtlas

open DeclAtlas.Parser

-- ── Heritage ─────────────────────────────────────────────────────────────────────

/-- Tokens that may stand behind what a declaration inherits from. -/
def baseEnds : List Token := [.openBrace, .word "implements"]

/-- A dotted name leaves no gap behind it. -/
theorem trail_dots (q : Quote) (ws : List String) :
    Piece.trail q [] (ws.flatMap fun v => [.dot, .word v]) = [] := by
  induction ws with
  | nil => rfl
  | cons w ws ih => exact ih

/-- A base is written from a first token to a last one. -/
theorem TypeExpr.IsBase.exists_pieces {t : TypeExpr} (ht : t.IsBase) (q : Quote) :
    ∃ p own, t.pieces = p :: own ∧ p.token? ≠ none ∧
      ∀ gap, Piece.trail q gap (p :: own) = [] := by
  obtain @⟨name, args, -, -⟩ := ht
  obtain ⟨w, ws, hws⟩ := List.exists_cons_of_ne_nil (nameWords_ne_nil name)
  rw [pieces_reference, hws, dottedPieces, List.cons_append]
  refine ⟨_, _, rfl, Option.some_ne_none _, fun gap => ?_⟩
  cases args with
  | nil =>
      show Piece.trail q [] (_ ++ []) = []
      rw [List.append_nil]
      exact trail_dots q ws
  | cons t ts =>
      rw [argPieces_cons, ← List.cons_append, ← List.cons_append, ← List.append_assoc]
      exact Piece.trail_concat q gap _ (Option.some_ne_none _)

theorem Cursor.newlineBeforeAt_one {c : Cursor} {m m' : Mark} {ms : List Mark}
    (h : c.ahead = m :: m' :: ms) : c.newlineBeforeAt 1 = m'.2 := by
  obtain ⟨l, ls, hr, -, -, hls⟩ := map_mark_eq_cons h
  obtain ⟨l', ls', rfl, -, hline, -⟩ := map_mark_eq_cons hls
  simp [newlineBeforeAt, hr, hline]

namespace Parser

variable {c : Cursor} {t : Token} {fresh : Bool} {ms : List Mark}

theorem eat_ahead (h : c.ahead = (t, fresh) :: ms) :
    (eat t).Meets c fun b c' => b = true ∧ c'.ahead = ms :=
  meets_eat_pos h fun _ h' => ⟨rfl, h'⟩

theorem bump_ahead (h : c.ahead = (t, fresh) :: ms) : bump.Meets c fun _ c' => c'.ahead = ms :=
  meets_bump_ahead h fun _ h' => h'

/-- A value that the token ahead has is taken. -/
theorem takeIf_ahead {α : Type} {f : Token → Option α} {a : α} (hf : f t = some a)
    (h : c.ahead = (t, fresh) :: ms) :
    (takeIf f).Meets c fun a' c' => a' = some a ∧ c'.ahead = ms :=
  meets_takeIf_pos h hf fun _ h' => ⟨rfl, h'⟩

end Parser

namespace Rule

variable {q : Quote} {c : Cursor} {ps : List Piece}

/-- A base is read back by the rule of references, which stops at what no reference goes on with. -/
theorem referenceType_total {t : TypeExpr} (ht : t.IsBase) {stops : List Token}
    (hdot : Token.dot ∉ stops) (hless : Token.less ∉ stops)
    (hps : Follows stops (Piece.marks false ps))
    (h : c.ahead = Piece.marks false (t.pieces ++ ps)) :
    Meets (total referenceType) c fun t' c' =>
      t'.mapSpan .unplaced = t.mapSpan .unplaced ∧ c'.ahead = Piece.marks false ps := by
  obtain @⟨name, args, -, hargs⟩ := ht
  obtain ⟨t, ms, hms, hstop⟩ := hps
  exact referenceType_pieces hargs (fun t ht => readsAt_of_canonical (hargs t ht)) h hms
    (ne_of_mem_of_not_mem hstop hdot) (ne_of_mem_of_not_mem hstop hless)

/-- An entry of a heritage list is read back with its text. -/
theorem heritageBody_pieces {t : TypeExpr} (ht : t.IsBase)
    (hps : Follows (.comma :: baseEnds) (Piece.marks false ps))
    (h : c.ahead = Piece.marks false (t.pieces ++ ps)) (hspells : c.Spells q (t.pieces ++ ps)) :
    (heritageBody total).Meets c fun e c' =>
      e.mapSpan .unplaced = (t.heritage q).mapSpan .unplaced ∧
        c'.ahead = Piece.marks false ps := by
  refine meets_get (meets_bind ((referenceType_total ht (by decide) (by decide) hps h).mono ?_))
  rintro t' c₁ hlead ⟨ht', h₁⟩
  have htext : c₁.textSince c = String.ofList (Piece.print q t.pieces) := by
    obtain ⟨p, own, hpieces, hp, htrail⟩ := ht.exists_pieces q
    rw [hpieces] at hspells ⊢
    exact hspells.textSince hp htrail hlead h₁
  obtain ⟨t₁, ms, hms, ht₁⟩ := hps
  have hparen : t₁ ≠ .openParen := ne_of_mem_of_not_mem ht₁ (by decide)
  refine meets_get (meets_if_neg (by simp [h₁, hms, hparen]) (meets_pure ⟨?_, h₁⟩))
  simp [Heritage.mapSpan, TypeExpr.heritage, htext, ht']

/-- Entries of a heritage list are read back, up to what ends it. -/
theorem heritageList_pieces {ts : List TypeExpr} :
    ∀ {t : TypeExpr} {c : Cursor}, (∀ u ∈ t :: ts, u.IsBase) →
      Follows baseEnds (Piece.marks false ps) →
      c.ahead = Piece.marks false (typePieces commas (t :: ts) ++ ps) →
      c.Spells q (typePieces commas (t :: ts) ++ ps) →
      Meets (total heritageList) c fun es c' =>
        es.map (Heritage.mapSpan .unplaced) =
          ((t :: ts).map (TypeExpr.heritage q)).map (Heritage.mapSpan .unplaced) ∧
        c'.ahead = Piece.marks false ps := by
  induction ts with
  | nil =>
      intro t c hts hps h hspells
      rw [typePieces, piecesAfter, List.append_nil] at h hspells
      have ht := hts t (List.mem_cons_self ..)
      have hends := hps.mono (List.subset_cons_self .comma baseEnds)
      refine meets_total (meets_bind ((heritageBody_pieces ht hends h hspells).mono ?_))
      rintro e c₁ - ⟨he, h₁⟩
      obtain ⟨t₁, ms, hms, ht₁⟩ := hps
      refine meets_bind (meets_eat_neg (h₁.trans hms) (ne_of_mem_of_not_mem ht₁ (by decide)) ?_)
      exact meets_pure ⟨by simp [he], h₁⟩
  | cons u ts ih =>
      intro t c hts hps h hspells
      obtain ⟨ht, hts⟩ := List.forall_mem_cons.mp hts
      rw [typePieces, List.append_assoc] at h hspells
      have hends : Follows (.comma :: baseEnds)
          (Piece.marks false (piecesAfter commas (u :: ts) ++ ps)) :=
        ⟨_, _, rfl, List.mem_cons_self ..⟩
      refine meets_total (meets_bind ((heritageBody_pieces ht hends h hspells).mono ?_))
      rintro e c₁ hlead ⟨he, h₁⟩
      have hspells₁ : c₁.Spells q (commas ++ (typePieces commas (u :: ts) ++ ps)) :=
        hspells.moveOn hlead h₁
      refine meets_bind ((eat_ahead h₁).mono ?_)
      rintro _ c₂ hlead₁ ⟨rfl, h₂⟩
      have hspells₂ := hspells₁.moveOn hlead₁ h₂
      refine meets_bind ((ih hts hps h₂ hspells₂).mono ?_)
      rintro es c₃ - ⟨hes, h₃⟩
      exact meets_pure ⟨by rw [List.map_cons, he, hes]; rfl, h₃⟩

/-- A clause of heritage begins with its word, or is not there. -/
theorem follows_basePieces (w : String) (ts : List TypeExpr) {stops : List Token}
    (hps : Follows stops (Piece.marks false ps)) :
    Follows (.word w :: stops) (Piece.marks false (basePieces w ts ++ ps)) := by
  cases ts with
  | nil => exact hps.mono (List.subset_cons_self ..)
  | cons t ts => exact ⟨_, _, rfl, List.mem_cons_self ..⟩

/-- The interfaces of a class are read back, up to its body. -/
theorem classHeritage_implements {ts : List TypeExpr} (hts : ∀ t ∈ ts, t.IsBase)
    (parent : Option Heritage)
    (h : c.ahead = Piece.marks false (basePieces "implements" ts ++ .space :: .sign '\x7b' :: ps))
    (hspells : c.Spells q (basePieces "implements" ts ++ .space :: .sign '\x7b' :: ps)) :
    Meets (total (classHeritage parent [])) c fun es c' =>
      es.1 = parent ∧
        es.2.map (Heritage.mapSpan .unplaced) =
          (ts.map (TypeExpr.heritage q)).map (Heritage.mapSpan .unplaced) ∧
        c'.ahead = Piece.marks false (.sign '\x7b' :: ps) := by
  have hbody {c : Cursor} {interfaces : List Heritage}
      (h : c.ahead = Piece.marks false (.sign '\x7b' :: ps)) :
      Meets (total (classHeritage parent interfaces)) c fun es c' =>
        es = (parent, interfaces) ∧ c'.ahead = Piece.marks false (.sign '\x7b' :: ps) := by
    refine meets_total (meets_bind (meets_eat_neg h Token.noConfusion ?_))
    exact meets_bind (meets_eat_neg h Token.noConfusion (meets_pure ⟨rfl, h⟩))
  cases ts with
  | nil =>
      refine (hbody h).mono ?_
      rintro _ c₁ - ⟨rfl, h₁⟩
      exact ⟨rfl, rfl, h₁⟩
  | cons t ts =>
      have h : c.ahead = (.word "implements", false) :: Piece.marks false
        (typePieces commas (t :: ts) ++ .space :: .sign '\x7b' :: ps) := h
      have hspells : c.Spells q ([.space, .word "implements", .space] ++
        (typePieces commas (t :: ts) ++ .space :: .sign '\x7b' :: ps)) := hspells
      refine meets_total (meets_bind (meets_eat_neg h (by decide) ?_))
      refine meets_bind ((eat_ahead h).mono ?_)
      rintro _ c₁ hlead ⟨rfl, h₁⟩
      have hspells₁ := hspells.moveOn hlead h₁
      refine meets_bind ((heritageList_pieces hts ⟨_, _, rfl, by decide⟩ h₁ hspells₁).mono ?_)
      rintro es c₂ - ⟨hes, h₂⟩
      refine (hbody h₂).mono ?_
      rintro _ c₃ - ⟨rfl, h₃⟩
      exact ⟨rfl, hes, h₃⟩

/-- What a class inherits from is read back, up to its body. -/
theorem classHeritage_pieces {parent : Option TypeExpr} {ts : List TypeExpr}
    (hparent : ∀ t ∈ parent, t.IsBase) (hts : ∀ t ∈ ts, t.IsBase)
    (h : c.ahead = Piece.marks false (basePieces "extends" parent.toList ++
      (basePieces "implements" ts ++ .space :: .sign '\x7b' :: ps)))
    (hspells : c.Spells q (basePieces "extends" parent.toList ++
      (basePieces "implements" ts ++ .space :: .sign '\x7b' :: ps))) :
    Meets (total (classHeritage none [])) c fun es c' =>
      es.1.map (Heritage.mapSpan .unplaced) =
          (parent.map (TypeExpr.heritage q)).map (Heritage.mapSpan .unplaced) ∧
        es.2.map (Heritage.mapSpan .unplaced) =
          (ts.map (TypeExpr.heritage q)).map (Heritage.mapSpan .unplaced) ∧
        c'.ahead = Piece.marks false (.sign '\x7b' :: ps) := by
  cases parent with
  | none =>
      refine (classHeritage_implements hts none h hspells).mono ?_
      rintro ⟨_, es⟩ c₁ - ⟨rfl, hes, h₁⟩
      exact ⟨rfl, hes, h₁⟩
  | some t =>
      have hends : Follows (.comma :: baseEnds) (Piece.marks false
          (basePieces "implements" ts ++ .space :: .sign '\x7b' :: ps)) :=
        (follows_basePieces "implements" ts ⟨_, _, rfl, List.mem_singleton_self _⟩).mono (by decide)
      rw [Option.toList_some, basePieces, typePieces, piecesAfter, List.append_nil] at h hspells
      have hspells : c.Spells q ([.space, .word "extends", .space] ++ (t.pieces ++
        (basePieces "implements" ts ++ .space :: .sign '\x7b' :: ps))) := hspells
      refine meets_total (meets_bind ((eat_ahead h).mono ?_))
      rintro _ c₁ hlead ⟨rfl, h₁⟩
      have hspells₁ := hspells.moveOn hlead h₁
      refine meets_bind ((heritageBody_pieces (hparent t rfl) hends h₁ hspells₁).mono ?_)
      rintro e c₂ hlead₁ ⟨he, h₂⟩
      refine (classHeritage_implements hts (some e) h₂ (hspells₁.moveOn hlead₁ h₂)).mono ?_
      rintro ⟨_, es⟩ c₃ - ⟨rfl, hes, h₃⟩
      exact ⟨congrArg some he, hes, h₃⟩

-- ── Classes and interfaces ───────────────────────────────────────────────────────

/-- Tokens that may stand behind the name and the type parameters of a declaration. -/
def headEnds : List Token := .word "extends" :: baseEnds

/-- Type parameters begin with a sign, or are not there. -/
theorem follows_listPieces (params : List TypeParam)
    (hps : Follows headEnds (Piece.marks false ps)) :
    Follows (.less :: headEnds) (Piece.marks false (TypeParam.listPieces params ++ ps)) := by
  cases params with
  | nil => exact hps.mono (List.subset_cons_self ..)
  | cons p params => exact ⟨_, _, rfl, List.mem_cons_self ..⟩

/-- The words `extends` and `implements` name no class. -/
theorem className_pieces {name : Option String}
    (hname : ∀ n ∈ name, n ≠ "extends" ∧ n ≠ "implements")
    (hps : Follows (.less :: headEnds) (Piece.marks false ps))
    (h : c.ahead = Piece.marks false ((name.toList.flatMap fun n => [.space, .word n]) ++ ps)) :
    (if c.atWord "extends" || c.atWord "implements" then pure none
      else takeWord : Parser (Option String)).Meets c fun name' c' =>
        name' = name ∧ c'.ahead = Piece.marks false ps := by
  cases name with
  | none =>
      have h : c.ahead = Piece.marks false ps := h
      refine meets_ite (fun _ => meets_pure ⟨rfl, h⟩) fun hnot => ?_
      obtain ⟨t, ms, hms, ht⟩ := hps
      have hword : t.word? = none := by
        simp only [h, hms, Cursor.atWord_eq, List.head?_cons, Option.map_some, Bool.or_eq_true,
          beq_iff_eq, Option.some.injEq, not_or] at hnot
        simp only [headEnds, baseEnds, List.mem_cons, List.not_mem_nil, or_false] at ht
        rcases ht with rfl | rfl | rfl | rfl
        · rfl
        · exact absurd rfl hnot.1
        · rfl
        · exact absurd rfl hnot.2
      exact meets_takeIf_neg (h.trans hms) hword ⟨rfl, h⟩
  | some n =>
      have h : c.ahead = (.word n, false) :: Piece.marks false ps := h
      obtain ⟨hextends, himplements⟩ := hname n rfl
      refine meets_if_neg (by simp [h, hextends, himplements]) ?_
      exact takeIf_ahead rfl h

/-- A class is read back from its word on, with all its parts. -/
theorem classDeclBody_pieces {name : Option String} {params : List TypeParam}
    {parent : Option TypeExpr} {ts : List TypeExpr} {members : List Member} {fresh : Bool}
    (hname : ∀ n ∈ name, n ≠ "extends" ∧ n ≠ "implements") (hparams : ∀ p ∈ params, p.Printable)
    (hparent : ∀ t ∈ parent, t.IsBase) (hts : ∀ t ∈ ts, t.IsBase)
    (hmembers : ∀ x ∈ members, x.OfClass) (m : Modifiers) (start : Span)
    (h : c.ahead = Piece.marks fresh (.word "class" ::
      ((name.toList.flatMap fun n => [.space, .word n]) ++ (TypeParam.listPieces params ++
        (basePieces "extends" parent.toList ++ (basePieces "implements" ts ++
          .space :: (bodyPieces members ++ ps)))))))
    (hspells : c.Spells q (.word "class" ::
      ((name.toList.flatMap fun n => [.space, .word n]) ++ (TypeParam.listPieces params ++
        (basePieces "extends" parent.toList ++ (basePieces "implements" ts ++
          .space :: (bodyPieces members ++ ps))))))) :
    (classDeclBody total m start).Meets c fun d c' =>
      (Declaration.ofClass d).mapSpan .unplaced =
        (Declaration.ofClass ⟨name, params.map (·.name), parent.map (·.heritage q),
          ts.map (·.heritage q), members, m, .empty .origin⟩).mapSpan .unplaced ∧
      c'.ahead = Piece.marks false ps := by
  have hbody : Follows [.openBrace] (Piece.marks false (.space :: (bodyPieces members ++ ps))) :=
    ⟨_, _, rfl, List.mem_singleton_self _⟩
  have hheads : Follows headEnds (Piece.marks false (basePieces "extends" parent.toList ++
      (basePieces "implements" ts ++ .space :: (bodyPieces members ++ ps)))) :=
    (follows_basePieces _ _ (follows_basePieces _ _ hbody)).mono (by decide)
  refine meets_bind ((bump_ahead h).mono fun _ c₁ hlead h₁ => meets_get ?_)
  refine meets_branch ((className_pieces hname (follows_listPieces params hheads) h₁).mono ?_)
  rintro name' c₂ hlead₁ ⟨hname', h₂⟩
  refine meets_bind ((typeParams_pieces hparams (by decide) hheads h₂).mono ?_)
  rintro _ c₃ hlead₂ ⟨rfl, h₃⟩
  rw [← List.append_assoc, ← List.cons_append] at hspells
  have hspells₃ := hspells.moveOn (hlead.trans (hlead₁.trans hlead₂)) h₃
  refine meets_bind ((classHeritage_pieces hparent hts h₃ hspells₃).mono ?_)
  rintro ⟨parent', interfaces⟩ c₄ - ⟨hparent', hinterfaces, h₄⟩
  refine meets_bind (meets_eat_pos h₄ fun c₅ h₅ => ?_)
  have h₅ : c₅.ahead = Piece.marks false
    ((members.flatMap Member.line ++ [.sign '\x7d']) ++ ps) := h₅
  rw [List.append_assoc] at h₅
  refine meets_bind ((classMembers_pieces hmembers h₅).mono ?_)
  rintro members' c₆ - ⟨hmembers', h₆⟩
  refine meets_get (meets_pure ⟨?_, h₆⟩)
  simp only [Declaration.mapSpan, hname', hparent', hinterfaces, hmembers']
  rfl

/-- An interface is read back up to its body, and is the interface of the members read there. -/
theorem interfaceDeclBody_head {name : String} {params : List TypeParam} {ts : List TypeExpr}
    {own : List Piece} {fresh : Bool} (hparams : ∀ p ∈ params, p.Printable)
    (hts : ∀ t ∈ ts, t.IsBase) (m : Modifiers) (start : Span)
    {post : List Member → Cursor → Prop}
    (hread : ∀ {c : Cursor}, c.ahead = Piece.marks false own → Meets (total typeMembers) c post)
    (h : c.ahead = Piece.marks fresh (.word "interface" :: .space :: .word name ::
      (TypeParam.listPieces params ++ (basePieces "extends" ts ++ .space :: .sign '\x7b' :: own))))
    (hspells : c.Spells q (.word "interface" :: .space :: .word name ::
      (TypeParam.listPieces params ++ (basePieces "extends" ts ++
        .space :: .sign '\x7b' :: own)))) :
    (interfaceDeclBody total m start).Meets c fun d c' =>
      ∃ es ms span, d = ⟨name, params.map (·.name), es, ms, m, span⟩ ∧
        es.map (Heritage.mapSpan .unplaced) =
          (ts.map (TypeExpr.heritage q)).map (Heritage.mapSpan .unplaced) ∧ post ms c' := by
  have hbody : Follows [.openBrace] (Piece.marks false (.space :: .sign '\x7b' :: own)) :=
    ⟨_, _, rfl, List.mem_singleton_self _⟩
  have hheads : Follows headEnds
      (Piece.marks false (basePieces "extends" ts ++ .space :: .sign '\x7b' :: own)) :=
    (follows_basePieces _ _ hbody).mono (by decide)
  refine meets_bind ((bump_ahead h).mono fun _ c₁ hlead h₁ => ?_)
  refine meets_bind ((takeIf_ahead (f := Token.word?) rfl h₁).mono ?_)
  rintro _ c₂ hlead₁ ⟨rfl, h₂⟩
  refine meets_bind ((typeParams_pieces hparams (by decide) hheads h₂).mono ?_)
  rintro _ c₃ hlead₂ ⟨rfl, h₃⟩
  rw [← List.cons_append, ← List.cons_append, ← List.cons_append] at hspells
  have hspells₃ := hspells.moveOn (hlead.trans (hlead₁.trans hlead₂)) h₃
  have hparents : (do if ← eatWord "extends" then total heritageList else pure [] :
      Parser (List Heritage)).Meets c₃ fun es c' =>
        es.map (Heritage.mapSpan .unplaced) =
          (ts.map (TypeExpr.heritage q)).map (Heritage.mapSpan .unplaced) ∧
        c'.ahead = Piece.marks false (.space :: .sign '\x7b' :: own) := by
    cases ts with
    | nil =>
        have h₃ : c₃.ahead = (.openBrace, false) :: _ := h₃
        exact meets_bind (meets_eat_neg h₃ Token.noConfusion (meets_pure ⟨rfl, h₃⟩))
    | cons t ts =>
        have hspells₃ : c₃.Spells q ([.space, .word "extends", .space] ++
          (typePieces commas (t :: ts) ++ .space :: .sign '\x7b' :: own)) := hspells₃
        refine meets_bind ((eat_ahead h₃).mono ?_)
        rintro _ c₄ hlead₃ ⟨rfl, h₄⟩
        exact heritageList_pieces hts (hbody.mono (by decide)) h₄ (hspells₃.moveOn hlead₃ h₄)
  refine meets_eat_branch (hparents.mono ?_)
  rintro es c₄ - ⟨hes, h₄⟩
  refine meets_bind (meets_eat_pos h₄ fun c₅ h₅ => meets_bind ((hread h₅).mono ?_))
  rintro ms c₆ - hms
  exact meets_get (meets_pure ⟨es, ms, _, rfl, hes, hms⟩)

theorem interfaceDeclBody_pieces {name : String} {params : List TypeParam}
    {ts : List TypeExpr} {members : List Member} {fresh : Bool}
    (hparams : ∀ p ∈ params, p.Printable) (hts : ∀ t ∈ ts, t.IsBase)
    (hmembers : ∀ x ∈ members, x.OfInterface) (m : Modifiers) (start : Span)
    (h : c.ahead = Piece.marks fresh (.word "interface" :: .space :: .word name ::
      (TypeParam.listPieces params ++ (basePieces "extends" ts ++
        .space :: (bodyPieces members ++ ps)))))
    (hspells : c.Spells q (.word "interface" :: .space :: .word name ::
      (TypeParam.listPieces params ++ (basePieces "extends" ts ++
        .space :: (bodyPieces members ++ ps))))) :
    (interfaceDeclBody total m start).Meets c fun d c' =>
      (Declaration.ofInterface d).mapSpan .unplaced =
        (Declaration.ofInterface ⟨name, params.map (·.name), ts.map (·.heritage q), members, m,
          .empty .origin⟩).mapSpan .unplaced ∧
      c'.ahead = Piece.marks false ps := by
  have hread {c : Cursor} (h : c.ahead = Piece.marks false
      (.space :: ((members.flatMap Member.line ++ [.sign '\x7d']) ++ ps))) :
      Meets (total typeMembers) c fun ms c' =>
        mapSpanMembers .unplaced ms = mapSpanMembers .unplaced members ∧
          c'.ahead = Piece.marks false ps := by
    rw [List.append_assoc] at h
    exact typeMembers_pieces hmembers h
  refine (interfaceDeclBody_head hparams hts m start hread h hspells).mono ?_
  rintro _ c' - ⟨es, ms, span, rfl, hes, hms, h'⟩
  refine ⟨?_, h'⟩
  simp only [Declaration.mapSpan, hes, hms]
  rfl

-- ── Modifiers ────────────────────────────────────────────────────────────────────

/-- Words that a declaration begins with, behind its modifiers. -/
def declarationWords : List String := ["class", "interface", "namespace", "module", "global"]

/-- A declaration behind its modifiers. -/
def declarationTail (call : Callees) (m : Modifiers) (start : Span) : Parser Statement := do
  let c ← get
  if c.atWord "class" then
    let d ← classDeclBody call m start
    pure (.declaration (.ofClass d))
  else if c.atWord "interface" && c.seesAnyWord 1 then
    let d ← interfaceDeclBody call m start
    pure (.declaration (.ofInterface d))
  else if (c.atWord "namespace" || c.atWord "module") && c.seesName 1 &&
      !c.newlineBeforeAt 1 then
    bump
    let name ← takeName
    let d ← call (namespaceDecl (name.getD "") m start)
    pure (.scope d)
  else if c.atWord "global" && m.ambient && c.sees 1 .openBrace then
    bump
    let d ← call (namespaceDecl "global" m start)
    pure (.scope d)
  else skipStatement start

/-- A declaration is read with its modifiers first. -/
theorem declarationBody_eq (call : Callees) (m : Modifiers) (start : Span) :
    declarationBody call m start = (do
      let m ← taking (leadingModifiers m)
      declarationTail call m start) := rfl

/-- The word of a declaration is no modifier. -/
theorem leadingModifiers_stop {w : String} (hw : w ∈ declarationWords) {ls : List Lexeme}
    {fresh : Bool} {ms : List Mark} (h : ls.map Lexeme.mark = (.word w, fresh) :: ms)
    (m : Modifiers) : leadingModifiers m ls = (m, 0) := by
  obtain ⟨l, ls, rfl, hl, -, -⟩ := map_mark_eq_cons h
  have hdeclare : w ≠ "declare" := ne_of_mem_of_not_mem hw (by decide)
  have habstract : w ≠ "abstract" := ne_of_mem_of_not_mem hw (by decide)
  rw [leadingModifiers]
  simp [hl, hdeclare, habstract]

/-- The word `abstract` in front of a class, if it is there, is a modifier. -/
theorem leadingModifiers_abstract {isAbstract fresh : Bool} {w : String}
    (hw : w ∈ declarationWords) (habstract : isAbstract = true → w = "class") (m : Modifiers)
    {ls : List Lexeme} (h : ls.map Lexeme.mark = Piece.marks fresh
      ((if isAbstract then [.word "abstract", .space] else []) ++ .word w :: ps)) :
    ∃ k, leadingModifiers m ls = ({ m with isAbstract := m.isAbstract || isAbstract }, k) ∧
      ∃ fresh', (ls.drop k).map Lexeme.mark = Piece.marks fresh' (.word w :: ps) := by
  cases isAbstract with
  | false =>
      refine ⟨0, ?_, fresh, h⟩
      rw [leadingModifiers_stop hw h, Bool.or_false]
  | true =>
      obtain rfl := habstract rfl
      obtain ⟨l, ls, rfl, hl, -, hls⟩ := map_mark_eq_cons h
      refine ⟨1, ?_, false, hls⟩
      have hstop := leadingModifiers_stop hw hls { m with isAbstract := true }
      obtain ⟨l', ls, rfl, hl', -, -⟩ := map_mark_eq_cons hls
      rw [leadingModifiers]
      simp [hl, hl', hstop]

/-- What stands in front of a declaration is read back, up to its first word. -/
theorem leadingModifiers_pieces {ambient isAbstract fresh : Bool} {w : String}
    (hw : w ∈ declarationWords) (habstract : isAbstract = true → w = "class") (m : Modifiers)
    (h : c.ahead = Piece.marks fresh ((if ambient then [.word "declare", .space] else []) ++
      ((if isAbstract then [.word "abstract", .space] else []) ++ .word w :: ps))) :
    (taking (leadingModifiers m)).Meets c fun m' c' =>
      m' = { m with
        ambient := m.ambient || ambient
        isAbstract := m.isAbstract || isAbstract } ∧
      ∃ fresh', c'.ahead = Piece.marks fresh' (.word w :: ps) := by
  refine meets_taking ?_
  cases ambient with
  | false =>
      obtain ⟨k, hk, fresh', hrest⟩ := leadingModifiers_abstract hw habstract m h
      rw [hk]
      refine ⟨by rw [Bool.or_false], fresh', ?_⟩
      rw [Cursor.ahead, Cursor.rest_advance]
      exact hrest
  | true =>
      obtain ⟨l, ls, hr, hl, -, hls⟩ := map_mark_eq_cons h
      obtain ⟨k, hk, fresh', hrest⟩ :=
        leadingModifiers_abstract hw habstract { m with ambient := true } hls
      -- a word follows on the same line
      obtain ⟨v, ms, hv⟩ : ∃ v ms, ls.map Lexeme.mark = (.word v, false) :: ms := by
        cases isAbstract <;> exact ⟨_, _, hls⟩
      obtain ⟨l', ls', rfl, hl', hline, -⟩ := map_mark_eq_cons hv
      have hmodifiers : leadingModifiers m c.rest =
          ({ m with ambient := true, isAbstract := m.isAbstract || isAbstract }, k + 1) := by
        rw [hr, leadingModifiers]
        simp [hl, hl', hline, hk, Token.word?]
      rw [hmodifiers]
      refine ⟨by rw [Bool.or_true], fresh', ?_⟩
      rw [Cursor.ahead, Cursor.rest_advance, hr]
      exact hrest

/-- A statement is the declaration behind its modifiers. -/
theorem statement_modifiers {m : Modifiers} (hm : m.Printable) {w : String} {fresh : Bool}
    (hw : w ∈ declarationWords) (habstract : m.isAbstract = true → w = "class")
    {post : Statement → Cursor → Prop}
    (h : c.ahead = Piece.marks fresh (m.pieces ++ .word w :: ps))
    (hdeclaration : ∀ start c' fresh', c.LeadsTo c' →
      c'.ahead = Piece.marks fresh' (.word w :: ps) →
      (declarationTail total m start).Meets c' post) :
    Meets (total statement) c post := by
  rw [Modifiers.pieces, List.append_assoc, List.append_assoc, List.append_assoc] at h
  have hrest {c₁ : Cursor} {fresh : Bool} {start : Span} (hlead : c.LeadsTo c₁)
      (h₁ : c₁.ahead = Piece.marks fresh
        ((if m.ambient then [.word "declare", .space] else []) ++
          ((if m.isAbstract then [.word "abstract", .space] else []) ++ .word w :: ps))) :
      Meets (total (declaration { exported := m.exported, isDefault := m.isDefault } start)) c₁
        post := by
    refine meets_total ?_
    show (declarationBody total _ start).Meets c₁ post
    rw [declarationBody_eq]
    refine meets_bind ((leadingModifiers_pieces hw habstract _ h₁).mono ?_)
    rintro _ c₂ hlead₁ ⟨rfl, fresh', h₂⟩
    exact hdeclaration start c₂ fresh' (hlead.trans hlead₁) h₂
  have hfirst (fresh : Bool) : ∃ v ms, Piece.marks fresh
      ((if m.ambient then [.word "declare", .space] else []) ++
        ((if m.isAbstract then [.word "abstract", .space] else []) ++ .word w :: ps)) =
      (.word v, fresh) :: ms ∧ v ∈ "declare" :: "abstract" :: declarationWords := by
    cases m.ambient with
    | true => exact ⟨_, _, rfl, by decide⟩
    | false =>
        cases m.isAbstract with
        | true => exact ⟨_, _, rfl, by decide⟩
        | false => exact ⟨_, _, rfl, List.mem_cons_of_mem _ (List.mem_cons_of_mem _ hw)⟩
  refine meets_total (meets_get ?_)
  cases hexported : m.exported with
  | false =>
      have hdefault : m.isDefault = false := by
        rw [Bool.eq_false_iff]
        intro hdefault
        exact Bool.false_ne_true (hexported.symm.trans (hm hdefault))
      rw [hexported, hdefault] at h
      rw [hexported, hdefault] at hrest
      obtain ⟨v, ms, hms, hv⟩ := hfirst fresh
      have h' : c.ahead = (.word v, fresh) :: ms := h.trans hms
      have himport : v ≠ "import" := ne_of_mem_of_not_mem hv (by decide)
      have hexport : v ≠ "export" := ne_of_mem_of_not_mem hv (by decide)
      refine meets_bind (meets_skipDecorators h' Token.noConfusion (meets_get ?_))
      refine meets_if_neg (by simp [h', himport]) (meets_if_neg (by simp [h', hexport]) ?_)
      exact hrest (.refl c) h
  | true =>
      rw [hexported] at h hrest
      refine meets_bind (meets_skipDecorators h Token.noConfusion (meets_get ?_))
      have h' : c.ahead = (.word "export", fresh) :: _ := h
      refine meets_if_neg (by simp [h']) (meets_if_pos (by simp [h']) (meets_total ?_))
      refine meets_bind ((bump_ahead h').mono fun _ c₁ hlead h₁ => meets_get ?_)
      cases hdefault : m.isDefault with
      | true =>
          rw [hdefault] at h₁ hrest
          have h₁' : c₁.ahead = (.word "default", false) :: _ := h₁
          refine meets_if_neg (by simp [h₁']) (meets_bind ((eat_ahead h₁').mono ?_))
          rintro _ c₂ hlead₁ ⟨rfl, h₂⟩
          exact hrest (hlead.trans hlead₁) h₂
      | false =>
          rw [hdefault] at h₁ hrest
          obtain ⟨v, ms, hms, hv⟩ := hfirst false
          have h₁' : c₁.ahead = (.word v, false) :: ms := h₁.trans hms
          have himport : v ≠ "import" := ne_of_mem_of_not_mem hv (by decide)
          have has : v ≠ "as" := ne_of_mem_of_not_mem hv (by decide)
          have htype : v ≠ "type" := ne_of_mem_of_not_mem hv (by decide)
          have hword : v ≠ "default" := ne_of_mem_of_not_mem hv (by decide)
          refine meets_if_neg (by simp [h₁', himport, has]) ?_
          refine meets_bind (meets_eat_neg h₁' (by simp [hword]) ?_)
          refine meets_if_neg Bool.false_ne_true (meets_if_neg (by simp [h₁', htype]) ?_)
          refine meets_bind (meets_bind (meets_eat_neg h₁' Token.noConfusion ?_))
          refine meets_bind (meets_eat_neg h₁' Token.noConfusion (meets_pure ?_))
          exact hrest hlead h₁

-- ── Statements ───────────────────────────────────────────────────────────────────

/-- A declaration is read back as the next statement, whatever follows it. -/
def ReadsDraft (q : Quote) (d : Draft) : Prop :=
  ∀ {c : Cursor} {ps : List Piece}, c.Spells q (d.pieces ++ ps) →
    Meets (total statement) c fun s c' =>
      s.mapSpan .unplaced = (d.statement q).mapSpan .unplaced ∧
        c'.ahead = Piece.marks false ps

/-- Whatever its modifiers, a declaration begins with a word. -/
theorem exists_word_modifiers (m : Modifiers) (v : String) (ps : List Piece) :
    ∃ w own, m.pieces ++ .word v :: ps = .word w :: own := by
  obtain ⟨exported, isDefault, ambient, isAbstract⟩ := m
  cases exported <;> cases isDefault <;> cases ambient <;> cases isAbstract <;>
    exact ⟨_, _, rfl⟩

theorem exists_word_draft (d : Draft) : ∃ w own, d.pieces = .word w :: own := by
  cases d with
  | ofClass m => rw [Draft.pieces]; exact exists_word_modifiers m _ _
  | ofInterface m => rw [Draft.pieces]; exact exists_word_modifiers m _ _
  | scope m => rw [Draft.pieces, scopePieces, List.append_assoc]; exact exists_word_modifiers m _ _
  | bare m => rw [Draft.pieces, scopePieces, List.append_assoc]; exact exists_word_modifiers m _ _
  | global m => rw [Draft.pieces]; exact exists_word_modifiers m _ _

/-- Statements end at the end of the text or, in a block, at its closing brace. -/
inductive EndsStatements : Bool → List Piece → Prop
  | text : EndsStatements false []
  | block {ps : List Piece} : EndsStatements true (.sign '\x7d' :: ps)

/-- A declaration in front of further statements is read back as the first of them. -/
theorem statements_draft {inBlock : Bool} {d : Draft} (hd : ReadsDraft q d)
    {posts : List Statement → Cursor → Prop} (hspells : c.Spells q (d.pieces ++ ps))
    (hrest : ∀ {c₁ : Cursor}, c.LeadsTo c₁ → c₁.ahead = Piece.marks false ps →
      Meets (total (statements inBlock)) c₁ posts) :
    Meets (total (statements inBlock)) c fun ss c' =>
      ∃ s ss', ss = s :: ss' ∧ s.mapSpan .unplaced = (d.statement q).mapSpan .unplaced ∧
        posts ss' c' := by
  obtain ⟨fresh, h⟩ := hspells.ahead
  obtain ⟨w, own, hpieces⟩ := exists_word_draft d
  have hpeek : c.peek = some (.word w) := by simp [h, hpieces, Piece.marks]
  refine meets_total (meets_get ?_)
  rw [hpeek]
  refine meets_bind ((hd hspells).mono ?_)
  rintro s c₁ hlead ⟨hs, h₁⟩
  have hmoved : c₁.remaining ≠ c.remaining := by
    rw [Cursor.remaining_eq_length, Cursor.remaining_eq_length, h, h₁, Piece.length_marks,
      Piece.length_marks, hpieces]
    simp [Piece.token?]
    omega
  refine meets_get (meets_if_neg hmoved (meets_bind ((hrest hlead h₁).mono ?_)))
  rintro ss c₂ - hss
  exact meets_pure ⟨s, ss, rfl, hs, hss⟩

/-- Declarations on lines of their own are read back, up to where the statements end. -/
theorem statements_pieces {inBlock : Bool} {tail : List Piece} (htail : EndsStatements inBlock tail)
    {ds : List Draft} (hds : ∀ d ∈ ds, ReadsDraft q d) :
    ∀ {c : Cursor}, c.Spells q (draftLines ds ++ tail) →
      Meets (total (statements inBlock)) c fun ss c' =>
        mapSpanStatements .unplaced ss =
          mapSpanStatements .unplaced (draftStatements q ds) ∧
        ∃ fresh, c'.ahead = Piece.marks fresh tail := by
  induction ds with
  | nil =>
      intro c hspells
      obtain ⟨fresh, h⟩ := hspells.ahead
      refine meets_total (meets_get ?_)
      cases htail with
      | text =>
          have hpeek : c.peek = none := by simp [h, draftLines, Piece.marks]
          rw [hpeek]
          exact meets_pure ⟨rfl, fresh, h⟩
      | block =>
          have hpeek : c.peek = some .closeBrace := by simp [h, draftLines, Piece.marks, loneToken]
          rw [hpeek]
          exact meets_if_pos rfl (meets_pure ⟨rfl, fresh, h⟩)
  | cons d ds ih =>
      intro c hspells
      obtain ⟨hd, hds⟩ := List.forall_mem_cons.mp hds
      rw [draftLines, List.append_assoc, List.cons_append] at hspells
      have hlines {c₁ : Cursor} (hlead : c.LeadsTo c₁)
          (h₁ : c₁.ahead = Piece.marks false (.lineFeed :: (draftLines ds ++ tail))) :
          c₁.Spells q (draftLines ds ++ tail) := by
        rw [List.append_cons] at hspells
        exact hspells.moveOn hlead h₁
      refine (statements_draft hd hspells fun hlead h₁ => ih hds (hlines hlead h₁)).mono ?_
      rintro _ c' - ⟨s, ss, rfl, hs, hss, hrest⟩
      refine ⟨?_, hrest⟩
      rw [mapSpanStatements, hs, hss]
      rfl

-- ── Namespaces ───────────────────────────────────────────────────────────────────

/-- The block of a namespace is read back, through its closing brace. -/
theorem namespaceDecl_block {block : List Draft} (hblock : ∀ d ∈ block, ReadsDraft q d)
    (name : String) (m : Modifiers) (start : Span)
    (h : c.ahead = Piece.marks false (.space :: .sign '\x7b' :: .lineFeed ::
      (draftLines block ++ .sign '\x7d' :: ps)))
    (hspells : c.Spells q (.space :: .sign '\x7b' :: .lineFeed ::
      (draftLines block ++ .sign '\x7d' :: ps))) :
    Meets (total (namespaceDecl name m start)) c fun n c' =>
      n.mapSpan .unplaced = (NamespaceDecl.mk name (.block (draftStatements q block)) m
          (.empty .origin)).mapSpan .unplaced ∧
        c'.ahead = Piece.marks false ps := by
  have hspells : c.Spells q ([.space, .sign '\x7b', .lineFeed] ++
    (draftLines block ++ .sign '\x7d' :: ps)) := hspells
  refine meets_total (meets_bind (meets_eat_neg h Token.noConfusion ?_))
  refine meets_bind ((eat_ahead h).mono ?_)
  rintro _ c₁ hlead ⟨rfl, h₁⟩
  have h₁ : c₁.ahead = Piece.marks true (draftLines block ++ .sign '\x7d' :: ps) := h₁
  have hspells₁ := hspells.moveOn hlead h₁
  refine meets_bind ((statements_pieces .block hblock hspells₁).mono ?_)
  rintro ss c₂ - ⟨hss, fresh, h₂⟩
  refine meets_bind (meets_eat_pos h₂ fun c₃ h₃ => meets_get (meets_pure ⟨?_, h₃⟩))
  simp only [NamespaceDecl.mapSpan, NamespaceBody.mapSpan, hss]
  rfl

/-- A namespace without a block is read back, through its semicolon. -/
theorem namespaceDecl_bare (name : String) (m : Modifiers) (start : Span)
    (h : c.ahead = Piece.marks false (.sign ';' :: ps)) :
    Meets (total (namespaceDecl name m start)) c fun n c' =>
      n.mapSpan .unplaced =
          (NamespaceDecl.mk name .absent m (.empty .origin)).mapSpan .unplaced ∧
        c'.ahead = Piece.marks false ps := by
  refine meets_total (meets_bind (meets_eat_neg h Token.noConfusion ?_))
  refine meets_bind (meets_eat_neg h Token.noConfusion ?_)
  exact meets_bind (meets_eat_pos h fun c₁ h₁ => meets_get (meets_pure ⟨rfl, h₁⟩))

/-- A dotted name is read as nested namespaces, if what follows the name is read back for every
    name. -/
theorem namespaceDecl_dotted {m : Modifiers} {body : NamespaceBody} {tail : List Piece}
    (htail : ∀ {c' : Cursor} (name : String) (start : Span), c.LeadsTo c' →
      c'.ahead = Piece.marks false tail →
      Meets (total (namespaceDecl name m start)) c' fun n c'' =>
        n.mapSpan .unplaced =
            (NamespaceDecl.mk name body m (.empty .origin)).mapSpan .unplaced ∧
          c''.ahead = Piece.marks false ps) {inner : List String} :
    ∀ {c' : Cursor} (name : String) (start : Span), c.LeadsTo c' →
      c'.ahead = Piece.marks false ((inner.flatMap fun v => [.dot, .word v]) ++ tail) →
      Meets (total (namespaceDecl name m start)) c' fun n c'' =>
        n.mapSpan .unplaced =
            (NamespaceDecl.dotted m body name inner).mapSpan .unplaced ∧
          c''.ahead = Piece.marks false ps := by
  induction inner with
  | nil => exact htail
  | cons v inner ih =>
      intro c₁ name start hlead h₁
      refine meets_total (meets_bind ((eat_ahead h₁).mono ?_))
      rintro _ c₂ hlead₁ ⟨rfl, h₂⟩
      refine meets_get (meets_bind ((takeIf_ahead (f := Token.word?) rfl h₂).mono ?_))
      rintro _ c₃ hlead₂ ⟨rfl, h₃⟩
      refine meets_bind ((ih v c₂.here (hlead.trans (hlead₁.trans hlead₂)) h₃).mono ?_)
      rintro n c₄ - ⟨hn, h₄⟩
      refine meets_get (meets_pure ⟨?_, h₄⟩)
      simp only [NamespaceDecl.dotted, NamespaceDecl.mapSpan, NamespaceBody.mapSpan, hn]
      rfl

/-- The head of a namespace is read back, and what is read behind its name. -/
theorem statement_scope {m : Modifiers} (hm : m.Printable) (habstract : m.isAbstract = false)
    {isModule fresh : Bool} {name : String} {inner : List String} {body : NamespaceBody}
    {tail : List Piece}
    (h : c.ahead = Piece.marks fresh (scopePieces m isModule name inner ++ tail))
    (htail : ∀ {c' : Cursor} (name : String) (start : Span), c.LeadsTo c' →
      c'.ahead = Piece.marks false tail →
      Meets (total (namespaceDecl name m start)) c' fun n c'' =>
        n.mapSpan .unplaced =
            (NamespaceDecl.mk name body m (.empty .origin)).mapSpan .unplaced ∧
          c''.ahead = Piece.marks false ps) :
    Meets (total statement) c fun s c' =>
      s.mapSpan .unplaced =
          (Statement.scope (NamespaceDecl.dotted m body name inner)).mapSpan .unplaced ∧
        c'.ahead = Piece.marks false ps := by
  rw [scopePieces, List.append_assoc] at h
  have hword : (if isModule then "module" else "namespace") ∈ declarationWords := by
    cases isModule <;> decide
  refine statement_modifiers hm hword (by simp [habstract]) h ?_
  intro start c₁ fresh' hlead h₁
  have h₁' : c₁.ahead = (.word (if isModule then "module" else "namespace"), fresh') ::
      (nameToken name, false) ::
        Piece.marks false ((inner.flatMap fun v => [.dot, .word v]) ++ tail) := by
    rw [h₁]
    simp [Piece.marks]
  have hscope : ((c₁.atWord "namespace" || c₁.atWord "module") && c₁.seesName 1 &&
      !c₁.newlineBeforeAt 1) = true := by
    rw [Cursor.newlineBeforeAt_one h₁']
    cases isModule <;> simp [Cursor.seesName, h₁']
  refine meets_get (meets_if_neg ?_ (meets_if_neg ?_ (meets_if_pos hscope ?_)))
  · cases isModule <;> simp [h₁']
  · cases isModule <;> simp [h₁']
  · refine meets_bind ((bump_ahead h₁').mono fun _ c₂ hlead₁ h₂ => ?_)
    refine meets_bind ((takeIf_ahead (name?_nameToken name) h₂).mono ?_)
    rintro _ c₃ hlead₂ ⟨rfl, h₃⟩
    have hlead₃ := hlead.trans (hlead₁.trans hlead₂)
    refine meets_bind ((namespaceDecl_dotted htail name start hlead₃ h₃).mono ?_)
    rintro n c₄ - ⟨hn, h₄⟩
    exact meets_pure ⟨congrArg Statement.scope hn, h₄⟩

/-- Every draft that can be read back is, by induction on the drafts in its blocks. -/
theorem readsDraft_of_printable {d : Draft} (hd : d.Printable) : ReadsDraft q d := by
  induction hd with
  | ofClass hm hname hparams hparent hinterfaces hmembers =>
      intro c ps hspells
      simp only [Draft.pieces, List.append_assoc, List.cons_append] at hspells
      obtain ⟨fresh, h⟩ := hspells.ahead
      refine statement_modifiers hm (by decide) (fun _ => rfl) h fun start c₁ fresh' hlead h₁ => ?_
      refine meets_get (meets_if_pos (by simp [h₁, Piece.marks]) ?_)
      refine meets_bind ((classDeclBody_pieces (fun n hn => (hname n hn).2) hparams hparent
        hinterfaces hmembers _ start h₁ (hspells.moveOn hlead h₁)).mono ?_)
      rintro d c₂ - ⟨hd, h₂⟩
      exact meets_pure ⟨congrArg Statement.declaration hd, h₂⟩
  | ofInterface hm habstract hname hparams hparents hmembers =>
      intro c ps hspells
      simp only [Draft.pieces, List.append_assoc, List.cons_append] at hspells
      obtain ⟨fresh, h⟩ := hspells.ahead
      refine statement_modifiers hm (by decide) (by simp [habstract]) h ?_
      intro start c₁ fresh' hlead h₁
      refine meets_get (meets_if_neg (by simp [h₁, Piece.marks]) (meets_if_pos ?_ ?_))
      · simp [h₁, Piece.marks, Token.word?]
      · refine meets_bind ((interfaceDeclBody_pieces hparams hparents hmembers _ start h₁
          (hspells.moveOn hlead h₁)).mono ?_)
        rintro d c₂ - ⟨hd, h₂⟩
        exact meets_pure ⟨congrArg Statement.declaration hd, h₂⟩
  | scope hm habstract hinner _ ih =>
      intro c ps hspells
      simp only [Draft.pieces, List.append_assoc, List.cons_append, List.nil_append] at hspells
      obtain ⟨fresh, h⟩ := hspells.ahead
      refine statement_scope hm habstract h fun name start hlead h' => ?_
      exact namespaceDecl_block ih name _ start h' (hspells.moveOn hlead h')
  | bare hm habstract hinner =>
      intro c ps hspells
      simp only [Draft.pieces, List.append_assoc, List.cons_append, List.nil_append] at hspells
      obtain ⟨fresh, h⟩ := hspells.ahead
      exact statement_scope hm habstract h fun name start _ h' => namespaceDecl_bare name _ start h'
  | global hm habstract hambient _ ih =>
      intro c ps hspells
      simp only [Draft.pieces, List.append_assoc, List.cons_append, List.nil_append] at hspells
      obtain ⟨fresh, h⟩ := hspells.ahead
      refine statement_modifiers hm (by decide) (by simp [habstract]) h ?_
      intro start c₁ fresh' hlead h₁
      have h₁' : c₁.ahead = (.word "global", fresh') :: (.openBrace, false) :: _ := h₁
      refine meets_get (meets_if_neg (by simp [h₁']) (meets_if_neg (by simp [h₁']) ?_))
      refine meets_if_neg (by simp [h₁']) (meets_if_pos (by simp [h₁', hambient]) ?_)
      refine meets_bind ((bump_ahead h₁').mono fun _ c₂ hlead₁ h₂ => ?_)
      rw [List.append_cons] at hspells
      refine meets_bind ((namespaceDecl_block ih "global" _ start h₂
        (hspells.moveOn (hlead.trans hlead₁) h₂)).mono ?_)
      rintro n c₃ - ⟨hn, h₃⟩
      exact meets_pure ⟨congrArg Statement.scope hn, h₃⟩

end Rule

/-- **Declarations are read back as they were written.**  Classes, interfaces and namespaces, each
    on a line of its own, are read to the statements that they stand for, in their order and with
    nothing else, up to spans. -/
theorem parse_drafts (q : Quote) (ds : List Draft) (hds : ∀ d ∈ ds, d.Printable) :
    mapSpanStatements .unplaced (parse (String.ofList (Piece.print q (draftLines ds)))) =
      mapSpanStatements .unplaced (draftStatements q ds) := by
  have hlegible : Piece.Legible q (draftLines ds ++ []) :=
    legible_draftLines (fun d hd => (hds d hd).legible) .nil
  have hread := Rule.statements_pieces .text
    (fun d hd => Rule.readsDraft_of_printable (hds d hd)) hlegible.spells_start
  rw [List.append_nil] at hread
  exact hread.2.1

/-- A class whose names are words of the grammar. -/
def awkwardClass : Draft :=
  .ofClass ⟨true, true, true, true⟩ (some "abstract")
    [⟨"extends", some (.reference "Map" [.keyword .string, .function]), none⟩,
      ⟨"T", none, some (.tuple [.literal "a>b", .keyword .null])⟩]
    (some (.reference "typeof.new" [.reference "class" []])) [.reference "implements" []]
    [⟨.property, some "static", none, true, true, .empty .origin⟩,
      ⟨.getter, some "get", some (.array (.paren (.query "is"))), true, false, .empty .origin⟩,
      ⟨.method, some "#set", some (.reference "asserts" []), false, true, .empty .origin⟩,
      ⟨.method, some "a\nb", none, false, false, .empty .origin⟩,
      ⟨.indexer, none, some (.query "is"), true, false, .empty .origin⟩,
      ⟨.constructor, some "constructor", none, false, false, .empty .origin⟩,
      ⟨.staticBlock, none, none, true, false, .empty .origin⟩]

/-- An interface with all kinds of members. -/
def awkwardInterface : Draft :=
  .ofInterface { ambient := true } "extends" [] [.reference "extends" [], .reference "A.B" []]
    [⟨.propertySignature, some "readonly", none, false, true, .empty .origin⟩,
      ⟨.methodSignature, some "new", none, false, true, .empty .origin⟩,
      ⟨.setter, some "set", none, false, false, .empty .origin⟩,
      ⟨.callSignature, none, some .function, false, false, .empty .origin⟩,
      ⟨.constructSignature, none, some (.keyword .void), false, false, .empty .origin⟩]

def awkwardDrafts : List Draft :=
  [.scope { exported := true } false "namespace" ["module"] [awkwardClass, awkwardInterface],
    .bare { ambient := true } true "a-b" [], .global { ambient := true } []]

set_option maxRecDepth 4000 in
example : String.ofList (Piece.print .single (draftLines awkwardDrafts)) =
    "export namespace namespace.module \x7b\n" ++
    "export default declare abstract class abstract" ++
    "<extends extends Map<string, () => void>, T = ['a>b', null]>" ++
    " extends typeof.new<class> implements implements \x7b" ++
    " static static?; static get get(): (typeof is)[]; #set?(): asserts; 'a\\nb'();" ++
    " static [k: string]: typeof is; constructor(); static \x7b \x7d; \x7d\n" ++
    "declare interface extends extends extends, A.B \x7b" ++
    " readonly?; new?(); set set(); (): () => void; new (): void; \x7d\n" ++
    "\x7d\n" ++
    "declare module 'a-b';\n" ++
    "declare global \x7b\n\x7d\n" := by
  repeat rw [← String.ofList_append]
  rfl

theorem printable_awkwardClass : awkwardClass.Printable := by
  have hquery : Canonical .any (.query "is") := Canonical.anywhere (.query (by decide))
  refine .ofClass (fun _ => rfl) ?_ ?_ ?_ ?_ ?_
  -- its name, its type parameters, its bases and its members
  · rintro _ ⟨⟩
    decide +kernel
  · refine List.forall_mem_cons.mpr ⟨⟨by decide +kernel, by decide, ?_, nofun⟩,
      List.forall_mem_singleton.mpr ⟨by decide +kernel, by decide, nofun, ?_⟩⟩
    · rintro _ ⟨⟩
      refine Canonical.anywhere (.reference (by decide) (List.forall_mem_cons.mpr ⟨?_, ?_⟩))
      · exact (Canonical.keyword .string).anywhere
      · exact List.forall_mem_singleton.mpr .function
    · rintro _ ⟨⟩
      refine Canonical.anywhere (.tuple (List.forall_mem_cons.mpr ⟨?_, ?_⟩))
      · exact (Canonical.literal _).anywhere
      · exact List.forall_mem_singleton.mpr (Canonical.keyword .null).anywhere
  · rintro _ ⟨⟩
    refine .reference (by decide +kernel) (List.forall_mem_singleton.mpr ?_)
    exact Canonical.plain (by decide)
  · exact List.forall_mem_singleton.mpr (.reference (by decide +kernel) (List.forall_mem_nil _))
  · simp only [List.forall_mem_cons]
    refine ⟨.property nofun, .getter ?_, .method (by decide) ?_, .method (by decide) nofun,
      .indexer ⟨hquery, nofun⟩, .constructor, .staticBlock, List.forall_mem_nil _⟩
    · rintro _ ⟨⟩
      exact ⟨Canonical.anywhere (.array (.paren hquery)), fun _ => by decide +kernel⟩
    · rintro _ ⟨⟩
      exact (Canonical.plain (by decide)).annotates rfl true

theorem printable_awkwardInterface : awkwardInterface.Printable := by
  refine .ofInterface nofun rfl (by decide +kernel) (List.forall_mem_nil _) ?_ ?_
  · refine List.forall_mem_cons.mpr ⟨?_, List.forall_mem_singleton.mpr ?_⟩
    · exact .reference (by decide +kernel) (List.forall_mem_nil _)
    · exact .reference (by decide +kernel) (List.forall_mem_nil _)
  · simp only [List.forall_mem_cons]
    refine ⟨.property nofun, .method (fun _ => rfl) nofun, .setter nofun, .call ?_, .construct ?_,
      List.forall_mem_nil _⟩
    · rintro _ ⟨⟩
      exact Canonical.function.annotates rfl true
    · rintro _ ⟨⟩
      exact (Canonical.keyword .void).anywhere.annotates rfl true

/-- Words of the grammar as names of declarations, members and namespaces. -/
theorem parse_drafts_awkward :
    (∀ d ∈ awkwardDrafts, d.Printable) ∧
      mapSpanStatements .unplaced
          (parse (String.ofList (Piece.print .single (draftLines awkwardDrafts)))) =
        mapSpanStatements .unplaced (draftStatements .single awkwardDrafts) := by
  have hprintable : ∀ d ∈ awkwardDrafts, d.Printable := by
    refine List.forall_mem_cons.mpr ⟨?_, List.forall_mem_cons.mpr ⟨?_, ?_⟩⟩
    · refine .scope nofun rfl (List.forall_mem_singleton.mpr (by decide +kernel)) ?_
      exact List.forall_mem_cons.mpr ⟨printable_awkwardClass,
        List.forall_mem_singleton.mpr printable_awkwardInterface⟩
    · exact .bare nofun rfl (List.forall_mem_nil _)
    · exact List.forall_mem_singleton.mpr (.global nofun rfl rfl (List.forall_mem_nil _))
  exact ⟨hprintable, parse_drafts .single awkwardDrafts hprintable⟩

-- ── A class around a type ────────────────────────────────────────────────────────

/-- A class with one property. -/
def propertyDraft (name w : String) (t : TypeExpr) : Draft :=
  .ofClass {} (some name) [] none [] [⟨.property, some w, some t, false, false, .empty .origin⟩]

/-- Only a class with one property of that type is, up to spans, what such a class declares. -/
theorem Statement.eq_of_mapSpan_property {q : Quote} {s : Statement} {name w : String}
    {t : TypeExpr}
    (h : s.mapSpan .unplaced = ((propertyDraft name w t).statement q).mapSpan .unplaced) :
    ∃ t' memberSpan span,
      s = .declaration (.ofClass ⟨some name, [], none, [],
        [⟨.property, some w, some t', false, false, memberSpan⟩], {}, span⟩) ∧
      t'.mapSpan .unplaced = t.mapSpan .unplaced := by
  rw [propertyDraft, Draft.statement] at h
  cases s with
  | importing | exporting | scope | other => simp [Statement.mapSpan] at h
  | declaration d =>
      cases d with
      | ofInterface => simp [Statement.mapSpan, Declaration.mapSpan] at h
      | ofClass d =>
          obtain ⟨name', params, parent, interfaces, members, m, span⟩ := d
          simp only [Statement.mapSpan, Declaration.mapSpan, Statement.declaration.injEq,
            Declaration.ofClass.injEq, ClassDecl.mk.injEq, Option.map_none, List.map_nil,
            Option.map_eq_none_iff, List.map_eq_nil_iff] at h
          obtain ⟨rfl, rfl, rfl, rfl, hmembers, rfl, -⟩ := h
          rcases members with _ | ⟨x, _ | ⟨y, members⟩⟩
          · simp [mapSpanMembers] at hmembers
          · obtain ⟨kind, name', type, isStatic, optional, memberSpan⟩ := x
            cases type with
            | none => simp [mapSpanMembers, Member.mapSpan, mapSpanOption] at hmembers
            | some t' =>
                simp only [mapSpanMembers, Member.mapSpan, mapSpanOption, List.cons.injEq,
                  Member.mk.injEq, Option.some.injEq] at hmembers
                obtain ⟨⟨rfl, rfl, ht, rfl, rfl, -⟩, -⟩ := hmembers
                exact ⟨t', memberSpan, span, rfl, ht⟩
          · simp [mapSpanMembers] at hmembers

/-- The text around a type that is read back alone. -/
theorem print_propertyDraft (q : Quote) (t : TypeExpr) :
    String.ofList (Piece.print q (propertyDraft "C" "p" t).pieces) =
      "class C \x7b p: " ++ String.ofList (Piece.print q t.pieces) ++ "; \x7d" := by
  have hname : memberNamePiece "p" = .word "p" := if_pos (by decide +kernel)
  have hpieces : (propertyDraft "C" "p" t).pieces =
      [.word "class", .space, .word "C", .space, .sign '\x7b', .space, .word "p", .sign ':',
        .space] ++ (t.pieces ++ [.sign ';', .space, .sign '\x7d']) := by
    simp [propertyDraft, Draft.pieces, Modifiers.pieces, TypeParam.listPieces, basePieces,
      bodyPieces, Member.line, Member.clause, MemberKind.pieces, hname, signaturePieces,
      callPieces, colonPieces, MemberKind.isCallable]
  rw [hpieces, Piece.print_append, Piece.print_append, String.ofList_append,
    String.ofList_append, String.append_assoc]
  rfl

/-- A class with a property of a canonical type can be read back. -/
theorem printable_propertyDraft {t : TypeExpr} (ht : Canonical .any t) :
    (propertyDraft "C" "p" t).Printable := by
  refine .ofClass nofun ?_ (List.forall_mem_nil _) nofun (List.forall_mem_nil _) ?_
  · rintro _ ⟨⟩
    decide +kernel
  · refine List.forall_mem_singleton.mpr (.property ?_)
    rintro _ ⟨⟩
    exact ⟨ht, nofun⟩

/-- **Types are read back as they were written.**  A canonical type, written on one line as the type
    of the property of a class, is read as that type, and the class as one with that property alone;
    only the spans are those of the text. -/
theorem parse_class_of_type (q : Quote) (t : TypeExpr) (ht : Canonical .any t) :
    ∃ t' memberSpan span,
      parse ("class C \x7b p: " ++ String.ofList (Piece.print q t.pieces) ++ "; \x7d") =
        [.declaration (.ofClass ⟨some "C", [], none, [],
          [⟨.property, some "p", some t', false, false, memberSpan⟩], {}, span⟩)] ∧
      t'.mapSpan .unplaced = t.mapSpan .unplaced := by
  have hd := printable_propertyDraft ht
  have hlegible : Piece.Legible q ((propertyDraft "C" "p" t).pieces ++ []) := hd.legible .nil
  have hend {c : Cursor} (h : c.ahead = Piece.marks false []) :
      Meets (Rule.total (.statements false)) c fun ss _ => ss = [] := by
    have hpeek : c.peek = none := by simp [h, Piece.marks]
    refine Rule.meets_total (meets_get ?_)
    rw [hpeek]
    exact meets_pure rfl
  have hread := Rule.statements_draft (Rule.readsDraft_of_printable hd) hlegible.spells_start
    fun _ h => hend h
  rw [List.append_nil, print_propertyDraft] at hread
  obtain ⟨-, s, _, hparse, hs, rfl⟩ := hread
  obtain ⟨t', memberSpan, span, rfl, ht'⟩ := Statement.eq_of_mapSpan_property hs
  exact ⟨t', memberSpan, span, hparse, ht'⟩

/-- Members whose names and types are words of the grammar. -/
def awkwardMembers : List Member :=
  [⟨.propertySignature, some "readonly", some (.array (.array (.paren .function))), false, true,
      .empty .origin⟩,
    ⟨.propertySignature, some "get", some (.reference "import" [.reference "string.new"
      [.reference "abstract" []], .tuple [.literal "a\"b\\\n", .keyword .null]]), false, false,
      .empty .origin⟩]

def awkwardType : TypeExpr :=
  .union [.intersection [.members awkwardMembers, .query "new.typeof"], .array (.tuple []),
    .keyword .this]

example : String.ofList (Piece.print .double awkwardType.pieces) =
    "\x7b readonly?: (() => void)[][]; " ++
    "get: import<string.new<abstract>, [\"a\\\"b\\\\\\n\", null]>; \x7d & typeof new.typeof" ++
    " | [][] | this" := by
  decide +kernel

theorem canonical_awkwardMembers : Canonical .operand (.members awkwardMembers) := by
  have hnested : Canonical .operand (.reference "string.new" [.reference "abstract" []]) := by
    refine .reference (by decide) (List.forall_mem_singleton.mpr ?_)
    exact (Canonical.reference (by decide) (List.forall_mem_nil _)).anywhere
  have hpair : Canonical .operand (.tuple [.literal "a\"b\\\n", .keyword .null]) := by
    refine .tuple (List.forall_mem_cons.mpr ⟨?_, List.forall_mem_singleton.mpr ?_⟩)
    · exact (Canonical.literal _).anywhere
    · exact (Canonical.keyword _).anywhere
  refine .members ?_ ?_
  · refine List.forall_mem_cons.mpr ⟨?_, List.forall_mem_singleton.mpr ?_⟩
    · exact ⟨rfl, ⟨_, rfl, rfl⟩, Option.some_ne_none _, rfl⟩
    · exact ⟨rfl, ⟨_, rfl, rfl⟩, Option.some_ne_none _, rfl⟩
  · refine List.forall_mem_cons.mpr ⟨?_, List.forall_mem_singleton.mpr ?_⟩
    · rintro t ⟨⟩
      exact Canonical.anywhere (.array (.array (.paren .function)))
    · rintro t ⟨⟩
      refine Canonical.anywhere (.reference (by decide) ?_)
      exact List.forall_mem_cons.mpr ⟨hnested.anywhere,
        List.forall_mem_singleton.mpr hpair.anywhere⟩

theorem awkwardType_reads_back :
    Canonical .any awkwardType ∧
    ∃ t' memberSpan span,
      parse ("class C \x7b p: " ++ String.ofList (Piece.print .double awkwardType.pieces) ++
          "; \x7d") =
        [.declaration (.ofClass ⟨some "C", [], none, [],
          [⟨.property, some "p", some t', false, false, memberSpan⟩], {}, span⟩)] ∧
      t'.mapSpan .unplaced = awkwardType.mapSpan .unplaced := by
  have hboth : Canonical .intersection (.intersection [.members awkwardMembers,
      .query "new.typeof"]) := by
    refine .intersection (by decide) (List.forall_mem_cons.mpr ⟨canonical_awkwardMembers, ?_⟩)
    exact List.forall_mem_singleton.mpr (.query (by decide))
  have hcanonical : Canonical .any awkwardType := by
    refine .ofUnion (.union (by decide) (List.forall_mem_cons.mpr ⟨hboth, ?_⟩))
    refine List.forall_mem_cons.mpr ⟨?_, List.forall_mem_singleton.mpr ?_⟩
    · exact .ofOperand (.array (.tuple (List.forall_mem_nil _)))
    · exact .ofOperand (.keyword .this)
  exact ⟨hcanonical, parse_class_of_type .double awkwardType hcanonical⟩

end DeclAtlas

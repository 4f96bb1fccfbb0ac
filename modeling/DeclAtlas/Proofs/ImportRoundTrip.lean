import DeclAtlas.Proofs.ImportPrinting
import DeclAtlas.Proofs.Totality

/-!
# Imports and exports read back

The grammar decides by one or two tokens ahead whether `type`, `from` and `as` are names.  Here
every such decision is followed on what was written: elements between braces
(`specifiers_listPieces`), what an import binds and whether only types are meant
(`atImportType_pieces`), and what an export makes public.

* **`parse_printed`** — what is written is read back, in its order and whatever the names are.
-/

namespace DeclAtlas

-- ── Reading elements ─────────────────────────────────────────────────────────────

/-- An element is read back if a new name can be read where it has one, and no name follows. -/
theorem specifierAt_pieces {alias? : Token → Option String} {s : Specifier} {l : Lexeme}
    {ls : List Lexeme} {ps : List Piece} {t : Token} {more : List Mark} (hs : s.Printable)
    (halias : s.renamed ≠ none → alias? (nameToken s.name) = some s.name)
    (h : (l :: ls).map Lexeme.mark = Piece.marks false (s.pieces ++ ps))
    (hps : Piece.marks false ps = (t, false) :: more) (ht : t.name? = none) :
    ∃ k, specifierAt alias? l ls = (s, k) ∧
      (ls.drop k).map Lexeme.mark = Piece.marks false ps := by
  have has : t ≠ .word "as" := by
    rintro rfl
    exact nomatch ht
  have htype : s.typeOnly = true → nameToken s.sourceName ≠ .word "as" := fun htypeOnly h =>
    hs htypeOnly (eq_of_nameToken_eq_word h)
  obtain ⟨name, renamed, typeOnly⟩ := s
  cases renamed with
  | none =>
      cases typeOnly with
      | false =>
          have h : (l :: ls).map Lexeme.mark = (nameToken name, false) :: (t, false) :: more := by
            simpa [Specifier.pieces, hps] using h
          obtain ⟨_, _, ⟨⟩, hl, -, h⟩ := map_mark_eq_cons h
          obtain ⟨a, ls, rfl, ha, -, -⟩ := map_mark_eq_cons h
          exact ⟨0, by simp [specifierAt, hl, ha, ht, has], h.trans hps.symm⟩
      | true =>
          have h : (l :: ls).map Lexeme.mark =
              (.word "type", false) :: (nameToken name, false) :: (t, false) :: more := by
            simpa [Specifier.pieces, Piece.marks, hps] using h
          obtain ⟨_, _, ⟨⟩, hl, -, h⟩ := map_mark_eq_cons h
          obtain ⟨a, ls, rfl, ha, -, h⟩ := map_mark_eq_cons h
          obtain ⟨b, ls, rfl, hb, -, -⟩ := map_mark_eq_cons h
          have hname : nameToken name ≠ .word "as" := htype rfl
          exact ⟨1, by simp [specifierAt, hl, ha, hb, hname, has], h.trans hps.symm⟩
  | some source =>
      have hnew := halias (Option.some_ne_none source)
      cases typeOnly with
      | false =>
          have h : (l :: ls).map Lexeme.mark = (nameToken source, false) :: (.word "as", false) ::
              (nameToken name, false) :: (t, false) :: more := by
            simpa [Specifier.pieces, Piece.marks, hps] using h
          obtain ⟨_, _, ⟨⟩, hl, -, h⟩ := map_mark_eq_cons h
          obtain ⟨a, ls, rfl, ha, -, h⟩ := map_mark_eq_cons h
          obtain ⟨b, ls, rfl, hb, -, h⟩ := map_mark_eq_cons h
          exact ⟨2, by simp [specifierAt, hl, ha, hb, hnew], h.trans hps.symm⟩
      | true =>
          have h : (l :: ls).map Lexeme.mark =
              (.word "type", false) :: (nameToken source, false) :: (.word "as", false) ::
                (nameToken name, false) :: (t, false) :: more := by
            simpa [Specifier.pieces, Piece.marks, hps] using h
          obtain ⟨_, _, ⟨⟩, hl, -, h⟩ := map_mark_eq_cons h
          obtain ⟨a, ls, rfl, ha, -, h⟩ := map_mark_eq_cons h
          obtain ⟨b, ls, rfl, hb, -, h⟩ := map_mark_eq_cons h
          obtain ⟨d, ls, rfl, hd, -, h⟩ := map_mark_eq_cons h
          have hname : nameToken source ≠ .word "as" := htype rfl
          exact ⟨3, by simp [specifierAt, hl, ha, hb, hd, hname, hnew], h.trans hps.symm⟩

theorem Specifier.exists_marks_pieces (s : Specifier) (ps : List Piece) :
    ∃ t ms, Piece.marks false (s.pieces ++ ps) = (t, false) :: ms ∧ t.name?.isSome = true := by
  have hword : (Token.word "type").name?.isSome = true := rfl
  obtain ⟨name, renamed, typeOnly⟩ := s
  cases typeOnly <;> cases renamed <;> simp [pieces, Piece.marks, hword]

/-- An element in front of others is the first one that is read. -/
theorem specifiers_of_pieces {alias? : Token → Option String} {s : Specifier}
    {ls : List Lexeme} {ps : List Piece} {t : Token} {more : List Mark} (hs : s.Printable)
    (halias : s.renamed ≠ none → alias? (nameToken s.name) = some s.name)
    (h : ls.map Lexeme.mark = Piece.marks false (s.pieces ++ ps))
    (hps : Piece.marks false ps = (t, false) :: more) (ht : t.name? = none) :
    ∃ k, (ls.drop k).map Lexeme.mark = Piece.marks false ps ∧
      specifiers alias? ls =
        (s :: (specifiers alias? (ls.drop k)).1, (specifiers alias? (ls.drop k)).2 + k) := by
  obtain ⟨t₀, ms, hms, hname⟩ := s.exists_marks_pieces ps
  obtain ⟨l, ls, rfl, hl, -, -⟩ := map_mark_eq_cons (h.trans hms)
  obtain ⟨k, hk, hdrop⟩ := specifierAt_pieces hs halias h hps ht
  refine ⟨k + 1, hdrop, ?_⟩
  rw [← hl] at hname
  have hbrace : l.token ≠ .closeBrace := by
    intro h
    rw [h] at hname
    exact nomatch hname
  rw [specifiers, if_neg hbrace, if_pos hname, hk]
  rfl

theorem specifiers_closeBrace (alias? : Token → Option String) {ls : List Lexeme} {ps : List Piece}
    (h : ls.map Lexeme.mark = Piece.marks false (.sign '\x7d' :: ps)) :
    (specifiers alias? ls).1 = [] ∧
      (ls.drop (specifiers alias? ls).2).map Lexeme.mark = Piece.marks false ps := by
  obtain ⟨l, ls, rfl, hl, -, h⟩ := map_mark_eq_cons h
  have hbrace : l.token = .closeBrace := hl
  rw [specifiers, if_pos hbrace]
  exact ⟨rfl, h⟩

/-- A comma between elements is no name. -/
theorem specifiers_comma (alias? : Token → Option String) {l : Lexeme} (hl : l.token = .comma)
    (ls : List Lexeme) :
    specifiers alias? (l :: ls) =
      ((specifiers alias? ls).1, (specifiers alias? ls).2 + 1) := by
  rw [specifiers, hl, if_neg Token.noConfusion, if_neg (by decide)]

/-- Elements of which each can be read back are read back, up to the closing brace. -/
theorem specifiers_listPieces {alias? : Token → Option String} (ps : List Piece) :
    ∀ {ss : List Specifier} {ls : List Lexeme}, (∀ s ∈ ss, s.Printable) →
      (∀ s ∈ ss, s.renamed ≠ none → alias? (nameToken s.name) = some s.name) →
      ls.map Lexeme.mark = Piece.marks false (Specifier.listPieces ss ++ .sign '\x7d' :: ps) →
      (specifiers alias? ls).1 = ss ∧
        (ls.drop (specifiers alias? ls).2).map Lexeme.mark = Piece.marks false ps
  | [], ls, _, _, h => specifiers_closeBrace alias? h
  | [s], ls, hprintable, halias, h => by
      rw [Specifier.listPieces, List.append_assoc] at h
      obtain ⟨k, hdrop, hk⟩ := specifiers_of_pieces (hprintable s (List.mem_cons_self ..))
        (halias s (List.mem_cons_self ..)) h rfl rfl
      obtain ⟨hrest, hend⟩ := specifiers_closeBrace alias? hdrop
      rw [List.drop_drop] at hend
      rw [hk, hrest, Nat.add_comm]
      exact ⟨rfl, hend⟩
  | s :: s' :: ss, ls, hprintable, halias, h => by
      rw [Specifier.listPieces, List.append_assoc] at h
      · obtain ⟨k, hdrop, hk⟩ := specifiers_of_pieces (hprintable s (List.mem_cons_self ..))
          (halias s (List.mem_cons_self ..)) h rfl rfl
        obtain ⟨l, ls', hls', hl, -, h'⟩ := map_mark_eq_cons hdrop
        obtain ⟨hrest, hend⟩ := specifiers_listPieces ps (fun x hx => hprintable x (.tail s hx))
          (fun x hx => halias x (.tail s hx)) h'
        rw [hk, hls', specifiers_comma alias? hl, hrest]
        refine ⟨rfl, ?_⟩
        rw [Nat.add_comm, ← List.drop_drop, hls']
        exact hend
      · exact List.cons_ne_nil s' ss

-- ── Reading declarations ─────────────────────────────────────────────────────────

namespace Parser

variable {c : Cursor} {ps : List Piece}

/-- Elements in braces are read back, with their brace. -/
theorem taking_specifiers {alias? : Token → Option String} {ss : List Specifier}
    (hprintable : ∀ s ∈ ss, s.Printable)
    (halias : ∀ s ∈ ss, s.renamed ≠ none → alias? (nameToken s.name) = some s.name)
    (h : c.ahead = Piece.marks false (Specifier.listPieces ss ++ .sign '\x7d' :: ps)) :
    (taking (specifiers alias?)).Meets c fun ss' c' =>
      ss' = ss ∧ c'.ahead = Piece.marks false ps := by
  obtain ⟨hss, hend⟩ := specifiers_listPieces ps hprintable halias h
  refine meets_taking ⟨hss, ?_⟩
  rw [Cursor.ahead, Cursor.rest_advance]
  exact hend

/-- A clause ends with its semicolon. -/
theorem endClause_semicolon {ms : List Mark} (h : c.ahead = (.semicolon, false) :: ms) :
    endClause.Meets c fun _ c' => c'.ahead = ms := by
  refine meets_bind (meets_get (meets_if_neg (by simp [h]) (meets_pure ?_)))
  exact meets_bind (meets_eat_pos h fun c' h' => meets_pure h')

/-- A name that is a word is read as one. -/
theorem word?_nameToken {name : String} (h : isIdentifier name = true) :
    (nameToken name).word? = some name := by
  rw [nameToken, if_pos h]
  rfl

/-- What an import binds behind its default, in front of the word `from`. -/
theorem importBindings_pieces {bindings : Option Bindings} (hb : ∀ b ∈ bindings, b.Printable)
    (h : c.ahead = Piece.marks false (bindingPieces bindings ++ .word "from" :: ps)) :
    importBindings.Meets c fun bindings' c' =>
      bindings' = bindings ∧ c'.ahead = Piece.marks false (.word "from" :: ps) := by
  cases bindings with
  | none =>
      refine meets_bind (meets_eat_neg h Token.noConfusion ?_)
      refine meets_bind (meets_eat_neg h Token.noConfusion ?_)
      exact meets_pure ⟨rfl, h⟩
  | some b =>
      cases b with
      | whole name =>
          refine meets_bind (meets_eat_pos h fun c₁ h₁ => ?_)
          refine meets_bind (meets_eat_pos h₁ fun c₂ h₂ => ?_)
          refine meets_bind (meets_takeIf_pos h₂ rfl fun c₃ h₃ => ?_)
          exact meets_pure ⟨rfl, h₃⟩
      | named elements =>
          have hb := hb _ rfl
          simp only [bindingPieces, Bindings.pieces, Specifier.bracePieces, List.cons_append,
            List.append_assoc, List.nil_append] at h
          refine meets_bind (meets_eat_neg h Token.noConfusion ?_)
          refine meets_bind (meets_eat_pos h fun c₁ h₁ => ?_)
          refine meets_bind ((taking_specifiers (fun s hs => (hb s hs).1)
            (fun s hs hne => word?_nameToken ((hb s hs).2 hne)) h₁).mono ?_)
          rintro ss c₂ - ⟨rfl, h₂⟩
          exact meets_pure ⟨rfl, h₂⟩

/-- The rest of an import, from what it binds on. -/
theorem importFrom_pieces (start : Span) (typeOnly : Bool) (defaultName : Option String)
    {bindings : Option Bindings} {specifier : String} (hb : ∀ b ∈ bindings, b.Printable)
    (h : c.ahead = Piece.marks false (bindingPieces bindings ++
      .word "from" :: .space :: .string specifier :: .sign ';' :: ps)) :
    (importFrom start typeOnly defaultName).Meets c fun s c' =>
      (∃ span, s = .importing ⟨specifier, some ⟨defaultName, bindings⟩, typeOnly, span⟩) ∧
        c'.ahead = Piece.marks false ps := by
  refine meets_bind ((importBindings_pieces hb h).mono ?_)
  rintro bindings' c₁ - ⟨rfl, h₁⟩
  refine meets_bind (meets_eat_pos h₁ fun c₂ h₂ => ?_)
  refine meets_bind (meets_takeIf_pos h₂ rfl fun c₃ h₃ => ?_)
  refine meets_bind ((endClause_semicolon h₃).mono ?_)
  intro _ c₄ _ h₄
  exact meets_get (meets_pure ⟨⟨_, rfl⟩, h₄⟩)

/-- The word `type` is taken for what it was written for. -/
theorem atImportType_pieces {clause : ImportClause} {typeOnly : Bool} {specifier : String}
    (hclause : clause = ⟨none, none⟩ → typeOnly = false)
    (h : c.ahead = Piece.marks false (typeWord typeOnly ++ (clause.pieces ++
      .word "from" :: .space :: .string specifier :: ps))) :
    atImportType c = typeOnly := by
  obtain ⟨_ | name, bindings⟩ := clause
  · -- a word behind `import` is `type`, or `from` with its string
    rcases bindings with _ | ⟨name⟩ | ⟨elements⟩
    · obtain rfl := hclause rfl
      simp [atImportType, h, typeWord, ImportClause.pieces, bindingPieces, Piece.marks]
    all_goals
      cases typeOnly <;>
        simp [atImportType, h, typeWord, ImportClause.pieces, bindingPieces, Bindings.pieces,
          Specifier.bracePieces, Piece.marks, loneToken]
  · -- the default may be called `type`; then a comma follows, or `from` with its string
    cases bindings <;> cases typeOnly <;>
      simp [atImportType, h, typeWord, ImportClause.pieces, Piece.marks, loneToken, Token.word?]

/-- No parenthesis and no point stands where the word `import` would be the start of an
    expression. -/
theorem import_starts_statement {i : Import} {fresh : Bool}
    (h : c.ahead = Piece.marks fresh (i.pieces ++ ps)) :
    ¬ (c.sees 1 .openParen || c.sees 1 .dot) = true := by
  obtain ⟨specifier, clause, typeOnly, span⟩ := i
  cases typeOnly with
  | true => simp [h, Import.pieces, typeWord, Piece.marks]
  | false =>
      rcases clause with _ | ⟨_ | name, _ | ⟨name'⟩ | ⟨elements⟩⟩ <;>
        simp [h, Import.pieces, typeWord, ImportClause.pieces, bindingPieces, Bindings.pieces,
          Specifier.bracePieces, Piece.marks, loneToken]

/-- An import is read back from its word on. -/
theorem importStatement_pieces (start : Span) {i : Import} (hi : i.Printable) {fresh : Bool}
    (h : c.ahead = Piece.marks fresh (i.pieces ++ ps)) :
    (importStatement start).Meets c fun s c' =>
      (∃ span, s = .importing { i with span := span }) ∧ c'.ahead = Piece.marks false ps := by
  refine meets_get (meets_if_neg (import_starts_statement h) ?_)
  refine meets_bind (meets_bump_ahead h fun c₁ h₁ => meets_get ?_)
  obtain ⟨specifier, clause, typeOnly, span⟩ := i
  cases clause with
  | none =>
      obtain rfl : typeOnly = false := hi
      have htype : atImportType c₁ = false := by simp [atImportType, h₁, typeWord, Piece.marks]
      refine meets_if_neg (Bool.eq_false_iff.mp htype) ?_
      refine meets_bind (meets_takeIf_pos h₁ rfl fun c₂ h₂ => ?_)
      refine meets_bind ((endClause_semicolon h₂).mono ?_)
      intro _ c₃ _ h₃
      exact meets_get (meets_pure ⟨⟨_, by rw [htype]⟩, h₃⟩)
  | some clause =>
      obtain ⟨hclause, htypeOnly⟩ := hi
      have h₁ : c₁.ahead = Piece.marks false (typeWord typeOnly ++ (clause.pieces ++
          .word "from" :: .space :: .string specifier :: .sign ';' :: ps)) := by
        simpa [Piece.marks] using h₁
      have htype := atImportType_pieces htypeOnly h₁
      rw [htype]
      refine meets_when_ahead (Piece.marks false (clause.pieces ++
          .word "from" :: .space :: .string specifier :: .sign ';' :: ps)) ?_ ?_ ?_
      · rintro rfl
        exact ⟨_, h₁⟩
      · rintro rfl
        exact h₁
      · intro c₂ h₂
        have hbindings := hclause.bindings
        obtain ⟨_ | name, bindings⟩ := clause
        · -- without a default the bindings follow, or the word `from` with its string
          have hfrom := importFrom_pieces start typeOnly none hbindings h₂
          rcases bindings with _ | ⟨name⟩ | ⟨elements⟩
          all_goals
            refine meets_bind (meets_takeIf_neg h₂ rfl (meets_get (meets_if_neg ?_ hfrom)))
            simp [h₂, ImportClause.pieces, bindingPieces, Bindings.pieces, Specifier.bracePieces,
              Piece.marks, loneToken, Token.word?]
        · cases bindings with
          | none =>
              refine meets_bind (meets_takeIf_neg h₂ rfl (meets_get (meets_if_pos ?_ ?_)))
              · simp [h₂, ImportClause.pieces, Piece.marks, Token.word?]
              · refine meets_bind (meets_takeIf_pos h₂ rfl fun c₃ h₃ => meets_get ?_)
                refine meets_if_neg (by simp [h₃, Piece.marks]) ?_
                refine meets_bind (meets_eat_neg h₃ Token.noConfusion ?_)
                exact importFrom_pieces start typeOnly (some name) hbindings h₃
          | some b =>
              refine meets_bind (meets_takeIf_neg h₂ rfl (meets_get (meets_if_pos ?_ ?_)))
              · simp [h₂, ImportClause.pieces, Piece.marks, Token.word?, loneToken]
              · refine meets_bind (meets_takeIf_pos h₂ rfl fun c₃ h₃ => meets_get ?_)
                refine meets_if_neg (by simp [h₃, Piece.marks, loneToken]) ?_
                refine meets_bind (meets_eat_pos h₃ fun c₄ h₄ => ?_)
                exact importFrom_pieces start typeOnly (some name) hbindings h₄

-- ── Exports ──────────────────────────────────────────────────────────────────────

/-- The module of an export is read back, or that there is none. -/
theorem exportFrom_pieces (start : Span) (typeOnly : Bool) (clause : Option ExportClause)
    {specifier : Option String}
    (h : c.ahead = Piece.marks false (Export.sourcePieces specifier ++ .sign ';' :: ps)) :
    (exportFrom start typeOnly clause).Meets c fun s c' =>
      (∃ span, s = .exporting ⟨clause, specifier, typeOnly, span⟩) ∧
        c'.ahead = Piece.marks false ps := by
  have hsource : (do
      if ← eatWord "from" then takeString
      else pure none : Parser (Option String)).Meets c fun specifier' c' =>
        specifier' = specifier ∧ c'.ahead = Piece.marks false (.sign ';' :: ps) := by
    cases specifier with
    | none => exact meets_bind (meets_eat_neg h Token.noConfusion (meets_pure ⟨rfl, h⟩))
    | some specifier =>
        refine meets_bind (meets_eat_pos h fun c₁ h₁ => ?_)
        exact meets_takeIf_pos h₁ rfl fun c₂ h₂ => ⟨rfl, h₂⟩
  refine meets_eat_branch (hsource.mono ?_)
  rintro specifier' c₁ - ⟨rfl, h₁⟩
  refine meets_bind ((endClause_semicolon h₁).mono ?_)
  intro _ c₂ _ h₂
  exact meets_get (meets_pure ⟨⟨_, rfl⟩, h₂⟩)

/-- An export is read back with what it exports. -/
theorem exportNames_pieces (start : Span) (typeOnly : Bool) {e : Export} (he : e.Printable)
    (h : c.ahead = Piece.marks false (Export.clausePieces e.clause ++
      (Export.sourcePieces e.specifier ++ .sign ';' :: ps))) :
    (exportNames? start typeOnly).Meets c fun o c' =>
      (∃ span, o = some (.exporting ⟨e.clause, e.specifier, typeOnly, span⟩)) ∧
        c'.ahead = Piece.marks false ps := by
  have hfrom : ∀ {c' : Cursor}, c'.ahead = Piece.marks false (Export.sourcePieces e.specifier ++
      .sign ';' :: ps) → (do
        let s ← exportFrom start typeOnly e.clause
        pure (some s) : Parser (Option Statement)).Meets c' fun o c' =>
          (∃ span, o = some (.exporting ⟨e.clause, e.specifier, typeOnly, span⟩)) ∧
            c'.ahead = Piece.marks false ps := by
    intro c' h'
    refine meets_bind ((exportFrom_pieces start typeOnly e.clause h').mono ?_)
    rintro _ c'' - ⟨⟨span, rfl⟩, h''⟩
    exact meets_pure ⟨⟨span, rfl⟩, h''⟩
  obtain ⟨clause, specifier, typeOnly', span⟩ := e
  rcases clause with _ | ⟨name⟩ | ⟨elements⟩
  · refine meets_bind (meets_eat_pos h fun c₁ h₁ => ?_)
    have hhead : ∃ t ms, c₁.ahead = (t, false) :: ms ∧ t ≠ .word "as" := by
      cases specifier with
      | none => exact ⟨_, _, h₁, by decide⟩
      | some s => exact ⟨_, _, h₁, by decide⟩
    obtain ⟨t, ms, ht, hne⟩ := hhead
    exact meets_bind (meets_eat_neg ht hne (hfrom h₁))
  · rw [Export.clausePieces] at h
    refine meets_bind (meets_eat_pos h fun c₁ h₁ => ?_)
    refine meets_bind (meets_eat_pos h₁ fun c₂ h₂ => ?_)
    refine meets_bind (meets_takeIf_pos (h₂.trans (marks_namePiece false name _))
      (name?_nameToken name) fun c₃ h₃ => hfrom h₃)
  · simp only [Export.clausePieces, Specifier.bracePieces, List.cons_append, List.append_assoc,
      List.nil_append] at h
    refine meets_bind (meets_eat_neg h Token.noConfusion ?_)
    refine meets_bind (meets_eat_pos h fun c₁ h₁ => ?_)
    refine meets_bind ((taking_specifiers he
      (fun s _ _ => name?_nameToken s.name) h₁).mono ?_)
    rintro _ c₂ - ⟨rfl, h₂⟩
    exact hfrom h₂

/-- The first token of what an export makes public. -/
theorem exists_marks_exportClause (clause : Option ExportClause) (ps : List Piece) :
    ∃ t ms, Piece.marks false (Export.clausePieces clause ++ ps) = (t, false) :: ms ∧
      (t = .star ∨ t = .openBrace) := by
  rcases clause with _ | ⟨name⟩ | ⟨elements⟩
  · exact ⟨_, _, rfl, Or.inl rfl⟩
  · exact ⟨_, _, rfl, Or.inl rfl⟩
  · exact ⟨_, _, rfl, Or.inr rfl⟩

end Parser

namespace Rule

open DeclAtlas.Parser

variable {c : Cursor} {ps : List Piece}

/-- An export is read back: nothing written of one begins with a declaration. -/
theorem exportStatement_pieces (start : Span) {e : Export} (he : e.Printable) {fresh : Bool}
    (h : c.ahead = Piece.marks fresh (e.pieces ++ ps)) :
    Meets (total (exportStatement start)) c fun s c' =>
      (∃ span, s = .exporting { e with span := span }) ∧ c'.ahead = Piece.marks false ps := by
  obtain ⟨t, ms, hms, ht⟩ := exists_marks_exportClause e.clause
    (Export.sourcePieces e.specifier ++ .sign ';' :: ps)
  simp only [Export.pieces, List.cons_append, List.append_assoc, List.nil_append] at h
  refine meets_total (meets_bind (meets_bump_ahead h fun c₁ h₁ => meets_get ?_))
  have h₁ : c₁.ahead = if e.typeOnly then (.word "type", false) :: (t, false) :: ms
      else (t, false) :: ms := by
    cases htype : e.typeOnly with
    | false => simpa [htype, typeWord, Piece.marks, hms] using h₁
    | true => simpa [htype, typeWord, Piece.marks, hms] using h₁
  have htype : (c₁.atWord "type" && (c₁.sees 1 .openBrace || c₁.sees 1 .star)) = e.typeOnly := by
    cases htype : e.typeOnly <;> rcases ht with rfl | rfl <;> simp [h₁, htype]
  have hskip : ¬ (c₁.isAt .equals || c₁.atWord "import" ||
      c₁.atWord "as" && c₁.seesWord 1 "namespace") = true := by
    cases htype : e.typeOnly <;> rcases ht with rfl | rfl <;> simp [h₁, htype]
  have hdefault : ¬ c₁.isAt (.word "default") = true := by
    cases htype : e.typeOnly <;> rcases ht with rfl | rfl <;> simp [h₁, htype]
  refine meets_if_neg hskip (meets_bind (meets_eat (fun h => absurd h hdefault) fun _ => ?_))
  refine meets_if_neg Bool.false_ne_true ?_
  rw [htype]
  refine meets_when_ahead ((t, false) :: ms) ?_ ?_ ?_
  · intro htypeOnly
    rw [if_pos htypeOnly] at h₁
    exact ⟨_, h₁⟩
  · intro htypeOnly
    rwa [htypeOnly, if_neg Bool.false_ne_true] at h₁
  · intro c₂ h₂
    refine meets_bind ((exportNames_pieces start e.typeOnly he (h₂.trans hms.symm)).mono ?_)
    rintro _ c₃ - ⟨⟨span, rfl⟩, h₃⟩
    exact meets_pure ⟨⟨span, rfl⟩, h₃⟩

-- ── Lists of declarations ────────────────────────────────────────────────────────

/-- Every statement that can be written is read back. -/
theorem statement_pieces {s : Statement} (hs : s.Printable) {fresh : Bool}
    (h : c.ahead = Piece.marks fresh (s.pieces ++ ps)) :
    Meets (total statement) c fun s' c' =>
      s'.mapSpan .unplaced = s.mapSpan .unplaced ∧ c'.ahead = Piece.marks false ps := by
  refine meets_total (meets_get ?_)
  cases hs with
  | @importing i hi =>
      refine meets_bind (meets_skipDecorators h Token.noConfusion (meets_get ?_))
      refine meets_if_pos (by simp [h, Statement.pieces, Import.pieces, Piece.marks]) ?_
      refine (importStatement_pieces c.here hi h).mono ?_
      rintro _ c' - ⟨⟨span, rfl⟩, h'⟩
      exact ⟨rfl, h'⟩
  | @exporting e he =>
      refine meets_bind (meets_skipDecorators h Token.noConfusion (meets_get ?_))
      refine meets_if_neg (by simp [h, Statement.pieces, Export.pieces, Piece.marks]) ?_
      refine meets_if_pos (by simp [h, Statement.pieces, Export.pieces, Piece.marks]) ?_
      refine (exportStatement_pieces c.here he h).mono ?_
      rintro _ c' - ⟨⟨span, rfl⟩, h'⟩
      exact ⟨rfl, h'⟩

/-- Imports and exports on lines of their own are read back, up to the end of the text. -/
theorem statements_lines {ss : List Statement} (hss : ∀ s ∈ ss, s.Printable) :
    ∀ {c : Cursor} {fresh : Bool}, c.ahead = Piece.marks fresh (Statement.lines ss) →
      Meets (total (statements false)) c fun ss' _ =>
        ss'.map (Statement.mapSpan .unplaced) = ss.map (Statement.mapSpan .unplaced) := by
  induction ss with
  | nil =>
      intro c fresh h
      have hpeek : c.peek = none := by simp [h, Statement.lines, Piece.marks]
      refine meets_total (meets_get ?_)
      rw [hpeek]
      exact meets_pure rfl
  | cons s ss ih =>
      intro c fresh h
      have hs := hss s (List.mem_cons_self ..)
      rw [Statement.lines, List.flatMap_cons, List.append_assoc, List.singleton_append] at h
      obtain ⟨w, ps, hpieces⟩ := hs.exists_pieces
      have hpeek : c.peek = some (.word w) := by simp [h, hpieces, Piece.marks]
      refine meets_total (meets_get ?_)
      rw [hpeek]
      refine meets_bind ((statement_pieces hs h).mono ?_)
      rintro s' c₁ - ⟨hs', h₁⟩
      have hfewer : c₁.remaining < c.remaining := by
        rw [Cursor.remaining_eq_length, Cursor.remaining_eq_length, h, h₁, hpieces,
          Piece.length_marks, Piece.length_marks]
        simp only [List.cons_append, Piece.tokens_cons, Piece.tokens_append, Piece.token?,
          Option.toList_some, List.length_append, List.length_cons, List.length_nil]
        omega
      refine meets_get (meets_if_neg (Nat.ne_of_lt hfewer) ?_)
      refine meets_bind ((ih (fun x hx => hss x (.tail s hx)) h₁).mono ?_)
      intro ss' c₂ _ hss'
      refine meets_pure ?_
      rw [List.map_cons, List.map_cons, hs', hss']

end Rule

/-- **Imports and exports are read back as they were written.**  A list of them, each written on its
    own line with either kind of quotes, is read as that list, in that order; only the spans are
    those of the text. -/
theorem parse_printed (q : Quote) (ss : List Statement) (hss : ∀ s ∈ ss, s.Printable) :
    (parse (String.ofList (Piece.print q (Statement.lines ss)))).map (Statement.mapSpan .unplaced) =
      ss.map (Statement.mapSpan .unplaced) := by
  have hahead := (Statement.legible_lines hss q).ahead_start
  exact (Rule.statements_lines hss hahead).2

/-- Names that are words of the grammar, and others that are no words. -/
def awkwardNames : List Statement :=
  [.importing ⟨"a\"b\\\nc", some ⟨some "type", some (.named [⟨"as", some "type", false⟩,
      ⟨"type", none, true⟩, ⟨"from", some "as", false⟩])⟩, false, .empty .origin⟩,
    .importing ⟨"m", some ⟨some "from", none⟩, true, .empty .origin⟩,
    .exporting ⟨some (.named [⟨"not a word", some "type", true⟩]), none, true, .empty .origin⟩,
    .exporting ⟨some (.whole "from"), some "", false, .empty .origin⟩]

example : String.ofList (Piece.print .double (Statement.lines awkwardNames)) =
    "import type, \x7b type as as, type type, as as from \x7d from \"a\\\"b\\\\\\nc\";\n" ++
    "import type from from \"m\";\n" ++
    "export type \x7b type type as \"not a word\" \x7d;\n" ++
    "export * as from from \"\";\n" := by
  decide +kernel

/-- Names that are words of the grammar as well, and names that are no words. -/
theorem awkwardNames_read_back :
    (∀ s ∈ awkwardNames, s.Printable) ∧
    (parse (String.ofList (Piece.print .double (Statement.lines awkwardNames)))).map
      (Statement.mapSpan .unplaced) = awkwardNames.map (Statement.mapSpan .unplaced) := by
  have hprintable : ∀ s ∈ awkwardNames, s.Printable := by decide
  exact ⟨hprintable, parse_printed .double awkwardNames hprintable⟩

end DeclAtlas

import DeclAtlas.Proofs.RulesAgree

/-!
# Rules that are read alike: declarations and statements

The rules for class bodies, heritage lists, namespaces and statements, and with them all rules: if
two families of parsers agree below a measure, the bodies of the rules with these families for their
callees agree one step further (`Rule.Agree.body`).  So the grammar agrees with itself under every
likeness, on all budgets that are large enough (`Rule.agree_run`).
-/

namespace DeclAtlas

open DeclAtlas.Parser DeclAtlas.Cursor

namespace Cursor

variable {L : Likeness} {φ : Border} {c d : Cursor} {t : Token} {α : Type}

-- ── At the start of a statement ──────────────────────────────────────────────────

/-- A statement begins with the same token on both sides, even where nothing is known of what is
    before it. -/
theorem Ahead.peek_eq (h : Ahead L φ c d) : d.peek = c.peek := by
  rcases h with h | ⟨-, -, l, ls, m, ms, hc, hd, hl, -⟩
  · exact h.peek_eq
  · simp [peek, peekAt, hc, hd, L.near_token hl]

theorem Ahead.isAt_eq (h : Ahead L φ c d) (t : Token) : d.isAt t = c.isAt t := by
  rw [isAt, isAt, sees, sees]
  exact congrArg (· == some t) h.peek_eq

theorem Ahead.atWord_eq (h : Ahead L φ c d) (w : String) : d.atWord w = c.atWord w :=
  h.isAt_eq _

theorem Ahead.here (h : Ahead L φ c d) : L.span c.here d.here := by
  rcases h with h | ⟨-, -, l, ls, m, ms, hc, hd, hl, -⟩
  · exact h.here
  · simpa [Cursor.here, hc, hd] using L.near_span hl

/-- Behind a token that is no fence, the cursors are alike. -/
theorem Ahead.bump (h : Ahead L φ c d) (hpeek : c.peek = some t) (ht : ¬ t.IsFence) :
    Alike L φ c.bump d.bump := by
  rcases h with h | ⟨-, -, l, ls, m, ms, -, -, -, -, h⟩
  · exact h.bump (h.within_one hpeek ht)
  · exact h

/-- A token that is no fence is read, and from then on the cursors are alike and less is left. -/
theorem Ahead.read (h : Ahead L φ c d) (hpeek : c.peek = some t) (ht : ¬ t.IsFence) :
    Together Parser.bump Parser.bump c d fun _ _ c' d' =>
      c' = c.bump ∧ c'.remaining < c.remaining ∧ Alike L φ c' d' :=
  ⟨leadsTo_bump c, leadsTo_bump d, rfl, remaining_bump_lt hpeek, h.bump hpeek ht⟩

theorem Ahead.readWord (h : Ahead L φ c d) {w : String} (hw : c.atWord w = true) :
    Together Parser.bump Parser.bump c d fun _ _ c' d' =>
      c' = c.bump ∧ c'.remaining < c.remaining ∧ Alike L φ c' d' :=
  h.read (peek_of_atWord hw) (by simp [Token.IsFence])

/-- Behind the word of a statement, the same token is seen. -/
theorem Ahead.peekAt_one (h : Ahead L φ c d) {w : String} (hw : c.atWord w = true) :
    d.peekAt 1 = c.peekAt 1 := by
  rw [← peekAt_bump, ← peekAt_bump]
  exact (h.bump (peek_of_atWord hw) (by simp [Token.IsFence])).peek_eq

/-- Whether the token after the next one starts a line. -/
theorem newlineBeforeAt_bump (c : Cursor) : c.bump.newlineBefore = c.newlineBeforeAt 1 := by
  rw [newlineBefore, newlineBeforeAt, newlineBeforeAt, show c.bump.rest = c.rest.drop 1 from
    rest_advance 1 c, List.getElem?_drop]

/-- Behind the word of a statement, both runs see a line break or neither does. -/
theorem Ahead.newlineBeforeAt_one (h : Ahead L φ c d) {w : String} (hw : c.atWord w = true) :
    d.newlineBeforeAt 1 = c.newlineBeforeAt 1 := by
  rw [← newlineBeforeAt_bump, ← newlineBeforeAt_bump]
  exact (h.bump (peek_of_atWord hw) (by simp [Token.IsFence])).newlineBefore_eq

/-- Readers that see of the first token only what it is. -/
theorem Ahead.taking (h : Ahead L φ c d) {f : List Lexeme → α × Nat} (hf : FencedIn f)
    (hfirst : ∀ {l m : Lexeme} (ls : List Lexeme), l.token = m.token → f (l :: ls) = f (m :: ls)) :
    Together (Parser.taking f) (Parser.taking f) c d fun a b c' d' =>
      a = b ∧ Ahead L φ c' d' ∧ ((f c.rest).2 ≠ 0 → Alike L φ c' d') := by
  rcases h with h | ⟨hparts, rfl, l, ls, m, ms, hc, hd, hl, hfence, h⟩
  · exact (h.taking hf).mono fun _ _ _ _ _ _ ⟨hab, h'⟩ => ⟨hab, .inl h', fun _ => h'⟩
  have heq : f d.rest = f c.rest := by
    obtain ⟨own, own', hc', hd', hrows, -⟩ := h.rows
    rw [bump_of_rest hc] at hc'
    rw [bump_of_rest hd] at hd'
    simp only [Border.left, Border.right, List.append_nil] at hc' hd'
    rw [hc, hd, hfirst ls (L.near_token hl)]
    refine eq_of_marks hf.bare ?_
    rw [List.map_cons, List.map_cons, hc', hd', map_mark_eq hrows]
  refine ⟨leadsTo_advance _ c, leadsTo_advance _ d, ?_⟩
  show (f c.rest).1 = (f d.rest).1 ∧
    Ahead L .finish (c.advance (f c.rest).2) (d.advance (f d.rest).2) ∧
      ((f c.rest).2 ≠ 0 → Alike L .finish (c.advance (f c.rest).2) (d.advance (f d.rest).2))
  rw [heq]
  cases hn : (f c.rest).2 with
  | zero =>
      exact ⟨rfl, .inr ⟨hparts, rfl, l, ls, m, ms, hc, hd, hl, hfence, h⟩, fun h => absurd rfl h⟩
  | succ n =>
      have halike : Alike L .finish (c.bump.advance n) (d.bump.advance n) := h.advance (.inl rfl)
      exact ⟨rfl, .inl halike, fun _ => halike⟩

/-- Decorators in front of a declaration are skipped on both sides, if there are any. -/
theorem Ahead.skipDecorators (h : Ahead L φ c d) :
    Together skipDecorators skipDecorators c d fun _ _ c' d' => Ahead L φ c' d' := by
  refine (h.taking fencedIn_decorators fun {l m} ls hlm => ?_).mono fun _ _ _ _ _ _ h => h.2.1
  rw [decoratorsExtent, decoratorsExtent, hlm]

/-- The modifiers of a declaration are the same, and what follows them may still begin a statement.
    -/
theorem Ahead.takeModifiers (h : Ahead L φ c d) (m : Modifiers) :
    Together (Parser.taking (leadingModifiers m)) (Parser.taking (leadingModifiers m)) c d
      fun a b c' d' => a = b ∧ Ahead L φ c' d' := by
  refine (h.taking (fencedIn_modifiers m) fun {l m} ls hlm => ?_).mono
    fun _ _ _ _ _ _ h => ⟨h.1, h.2.1⟩
  rw [leadingModifiers, leadingModifiers, hlm]

/-- A statement that is read over. -/
theorem Ahead.skipStatement (h : Ahead L φ c d) {start start' : Span}
    (hstart : L.span start start') :
    Together (skipStatement start) (skipStatement start') c d fun s s' c' d' =>
      s.Alike L s' ∧ EndsAt .semicolon L φ c' d' := by
  refine Together.bind (M := fun _ _ c' d' => Alike L φ c' d') ?_ fun _ _ c₁ d₁ _ _ h₁ => ?_
  · rcases h with h | h
    · exact h.skip fencedIn_statementRest
    · -- the first token of a statement belongs to it
      refine (Ahead.taking (.inr h) fencedIn_statementRest fun {l m} ls hlm => ?_).mono
        fun _ _ c' d' _ _ hread => hread.2.2 ?_
      · simp [outerExtent, endsStatement, statementBoundary, hlm]
      · obtain ⟨-, -, l, ls, m, ms, hc, -, -, hfence, -⟩ := h
        have hends : endsStatement none l = false := by
          simp only [Token.IsFence, not_or] at hfence
          simp [endsStatement, statementBoundary, hfence]
        simp [hc, outerExtent, hends]
  · refine h₁.eat_end.next ?_
    rintro _ _ c₂ d₂ _ ⟨_, h₂⟩
    exact together_get (together_pure ⟨.other (h₂.spanFrom hstart), h₂⟩)

theorem Ahead.sees_one (h : Ahead L φ c d) {w : String} (hw : c.atWord w = true) (t : Token) :
    d.sees 1 t = c.sees 1 t := by
  rw [sees, sees, h.peekAt_one hw]

-- ── Heads of declarations ────────────────────────────────────────────────────────

/-- Both cursors are behind the head of a declaration: its word, and a name that may be absent. -/
def Headed (L : Likeness) (φ : Border) (c d : Cursor) : Prop :=
  φ = .finish ∨ ∃ c₀ d₀ n k, Alike L φ c₀ d₀ ∧ φ.Within c₀ n ∧ c = c₀.advance n ∧
    d = d₀.advance n ∧ (k = "class" ∨ k = "interface") ∧
    ((c₀.rest.take n).map (·.token) = [.word k] ∨
      ∃ w, (c₀.rest.take n).map (·.token) = [.word k, .word w])

/-- What is next behind `n` tokens was seen from the start. -/
theorem peek_advance (c : Cursor) (n : Nat) : (c.advance n).peek = c.peekAt n := by
  rw [peek, peekAt, peekAt, rest_advance, List.getElem?_drop, Nat.add_zero]

theorem bump_advance (c : Cursor) (n : Nat) : (c.advance n).bump = c.advance (n + 1) :=
  (advance_add n 1 c).symm

/-- Type parameters end before the fence. -/
theorem Alike.typeParams (h : Alike L φ c d) (hheaded : Headed L φ c d) :
    Together typeParams typeParams c d (Same L φ) := by
  refine Together.bind (M := fun a b c' d' => a = b ∧ Alike L φ c' d' ∧
    (a = true → c.peek = some .less ∧ c' = c.bump)) ?_ ?_
  · refine h.eat_of (fun hc _ => ⟨rfl, h.bump (h.within_one hc (by decide)), fun _ => ⟨hc, rfl⟩⟩)
      ⟨rfl, h, fun hfalse => absurd hfalse Bool.false_ne_true⟩
  rintro a _ c₁ d₁ _ _ ⟨rfl, h₁, hread⟩
  refine together_ite Iff.rfl (fun ha => ?_) fun _ => together_pure ⟨rfl, h₁⟩
  obtain ⟨hless, rfl⟩ := hread ha
  refine h₁.taking_of (h₁.reads_of (typeParamNames_bare true) ?_)
  rintro l ls m ms own rfl hown -
  obtain ⟨c₀, d₀, n, k, h₀, hn, rfl, rfl, hk, hhead⟩ := hheaded.resolve_left Border.noConfusion
  obtain ⟨own₀, own₀', hc₀, -, -, -, henclosed⟩ := h₀.rows
  rw [peek_advance] at hless
  have hlength := (h₀.within_next hn hless (by decide)).resolve_left Border.noConfusion
  rw [remaining, hc₀, List.length_append] at hlength
  replace hlength : n + 1 ≤ own₀.length := Nat.le_of_add_le_add_right hlength
  rw [bump_advance, rest_advance, hc₀, List.drop_append_of_le_length hlength] at hown
  obtain rfl := List.append_cancel_right hown
  refine henclosed.settled.params (own₀.take (n + 1)) _
    ⟨[], by rw [List.nil_append, List.take_append_drop]⟩ ?_
  have htokens := tokens_take_succ hless
  rw [hc₀, List.take_append_of_le_length hlength, ← hc₀] at htokens
  refine ⟨k, hk, hhead.imp (fun hhead => ?_) (.imp fun w hhead => ?_)⟩ <;>
    rw [htokens, hhead] <;> rfl

/-- Behind the word `class` or `interface` both cursors are in a head, even if no name follows. -/
theorem Ahead.headed (h : Ahead L φ c d) {k : String} (hw : c.atWord k = true)
    (hk : k = "class" ∨ k = "interface") : Headed L φ c.bump d.bump := by
  rcases h with h | ⟨-, rfl, -⟩
  · refine .inr ⟨c, d, 1, k, h, h.within_atWord hw, rfl, rfl, hk, .inl ?_⟩
    exact tokens_take_succ (peek_of_atWord hw)
  · exact .inl rfl

/-- Taking a word moves over it if there is one. -/
theorem cursor_takeWord (c : Cursor) :
    (takeWord c).2 = if c.seesAnyWord 0 then c.bump else c := by
  have htake : takeWord.Meets c fun _ c' => c' = if c.seesAnyWord 0 then c.bump else c := by
    refine meets_takeIf (fun a ha => ?_) fun hnone => ?_
    · rw [seesAnyWord, ← peek, ha]
      rfl
    · rw [seesAnyWord, ← peek, hnone]
      rfl
  exact htake.2

/-- The name of a declaration, which may be absent. -/
theorem Ahead.headed_takeWord (h : Ahead L φ c d) {k : String} (hw : c.atWord k = true)
    (hk : k = "class" ∨ k = "interface") :
    Together takeWord takeWord c.bump d.bump fun a b c' d' =>
      Same L φ a b c' d' ∧ Headed L φ c' d' := by
  have h₁ := h.bump (peek_of_atWord hw) (by simp [Token.IsFence])
  have hend := h₁.takeWord
  refine ⟨hend.1, hend.2.1, hend.2.2, ?_⟩
  rcases h with h | ⟨-, rfl, -⟩
  swap
  · exact .inl rfl
  rw [cursor_takeWord, cursor_takeWord, h₁.seesAnyWord_eq h₁.within_zero]
  by_cases hany : c.bump.seesAnyWord 0 = true
  · rw [if_pos hany, if_pos hany]
    obtain ⟨w, hpeek⟩ := peekAt_of_seesAnyWord hany
    rw [peekAt_bump] at hpeek
    refine .inr ⟨c, d, 2, k, h, ?_, rfl, rfl, hk, .inr ⟨w, ?_⟩⟩
    · exact h.within_next (h.within_atWord hw) hpeek (by simp [Token.IsFence])
    · rw [tokens_take_succ hpeek, tokens_take_succ (peek_of_atWord hw)]
      rfl
  · rw [if_neg hany, if_neg hany]
    exact Ahead.headed (.inl h) hw hk

-- ── Blocks of members, and elements in braces ────────────────────────────────────

/-- What is read behind a token that may be there, and what is read without it. -/
theorem Alike.eat_or (h : Alike L φ c d) {p p' q q' : Parser α}
    {post : α → α → Cursor → Cursor → Prop}
    (htrue : c.peek = some t → Together p q c.bump d.bump post)
    (hfalse : Together p' q' c d post) :
    Together (do if ← Parser.eat t then p else p') (do if ← Parser.eat t then q else q')
      c d post := by
  refine Together.bind (M := fun a b c' d' =>
    if a then b = true ∧ c.peek = some t ∧ c' = c.bump ∧ d' = d.bump
    else b = false ∧ c' = c ∧ d' = d) ?_ fun a b c₁ d₁ _ _ h₁ => ?_
  · exact h.eat_of (fun hc _ => ⟨rfl, hc, rfl, rfl⟩) ⟨rfl, rfl, rfl⟩
  cases a with
  | false =>
      obtain ⟨rfl, rfl, rfl⟩ := h₁
      exact hfalse
  | true =>
      obtain ⟨rfl, hc, rfl, rfl⟩ := h₁
      exact htrue hc

/-- A block that may be absent. -/
theorem Alike.block_or_nil {β : Type} {R : β → β → Prop} {p q : Parser (List β)}
    {f g : List β → Parser α} {post : α → α → Cursor → Cursor → Prop} (h : Alike L φ c d)
    (hp : ∀ ψ c' d', Alike L ψ c' d' → ψ.InBlock → c'.remaining < c.remaining →
      Together p q c' d' fun xs ys c'' d'' =>
        List.Forall₂ R xs ys ∧ EndsAt .closeBrace L ψ c'' d'')
    (hf : ∀ xs ys c' d', List.Forall₂ R xs ys → Alike L φ c' d' →
      Together (f xs) (g ys) c' d' post) :
    Together (do if ← Parser.eat .openBrace then p >>= f else pure [] >>= f)
      (do if ← Parser.eat .openBrace then q >>= g else pure [] >>= g) c d post := by
  refine h.eat_or (fun hbrace => ?_) (hf [] [] c d .nil h)
  obtain ⟨ψ, hψ, hblock, hleave⟩ := h.block hbrace
  exact (hp ψ _ _ hψ hblock (remaining_bump_lt hbrace)).bind
    fun xs ys c₁ d₁ hc₁ _ ⟨hxs, h₁⟩ => hf xs ys c₁ d₁ hxs (hleave c₁ d₁ hc₁ h₁)

/-- Elements in braces end with the brace that closes them, in front of the fence. -/
theorem Alike.specifiers (h : Alike L φ c d) (hbrace : c.peek = some .openBrace)
    {alias? : Token → Option String} (halias : alias? .closeBrace = none) :
    Together (Parser.taking (specifiers alias?)) (Parser.taking (specifiers alias?)) c.bump d.bump
      (Same L φ) := by
  have h₁ := h.bump (h.within_one hbrace (by decide))
  refine h₁.taking_of (h₁.reads_of (specifiers_bare alias?) ?_)
  rintro l ls m ms own rfl hown -
  obtain ⟨own₀, own₀', hc, -, -, -, henclosed⟩ := h.rows
  obtain ⟨o, row, hrest, ho⟩ := peek_eq_some_iff.mp hbrace
  rw [hc] at hrest
  rcases own₀ with _ | ⟨o', own₀⟩
  · obtain ⟨rfl, -⟩ := List.cons.inj hrest
    exact absurd ho (henclosed.fence.ne (by decide))
  · obtain ⟨rfl, -⟩ := List.cons.inj hrest
    rw [bump_of_rest hc] at hown
    obtain rfl := List.append_cancel_right hown
    obtain ⟨inner, x, rest, rfl, hcloser, hinner, -⟩ :=
      henclosed.nested.exists_group (by rw [ho]; rfl)
    have hx : x.token = .closeBrace := by
      rw [ho] at hcloser
      exact (Option.some.inj hcloser).symm
    obtain ⟨v, hv, hstop⟩ := specifiers_stop alias? halias hx inner
    refine ⟨v, ?_, fun tail => ?_⟩
    · simp only [List.length_append, List.length_cons]
      omega
    · rw [List.append_assoc, List.cons_append, hstop]

-- ── Imports and exports ──────────────────────────────────────────────────────────

/-- Attributes of an import are skipped with their braces. -/
theorem Alike.skipAttributes (h : Alike L φ c d) :
    Together skipAttributes skipAttributes c d fun _ _ c' d' => Alike L φ c' d' := by
  have hone (hword : (c.atWord "assert" || c.atWord "with") = true) : φ.Within c 1 := by
    rcases Bool.or_eq_true_iff.mp hword with hword | hword <;> exact h.within_atWord hword
  refine together_get (together_ite ?_ (fun hattributes => ?_) fun _ => together_pure h)
  · rw [h.atWord_eq, h.atWord_eq, h.newlineBefore_eq, and_eq_and fun hboth =>
      h.sees_eq (hone (Bool.and_eq_true_iff.mp hboth).1) .openBrace]
  · obtain ⟨hboth, hbrace⟩ := Bool.and_eq_true_iff.mp hattributes
    refine (h.together_bump (hone (Bool.and_eq_true_iff.mp hboth).1)).next
      fun _ _ c₁ d₁ _ ⟨hc₁, h₁⟩ => h₁.skipBrackets (.inr ⟨.openBrace, ?_, rfl⟩)
    rw [hc₁]
    exact (peekAt_bump c 0).trans (peekAt_of_sees hbrace)

/-- A clause may end with a semicolon, and that may be the fence. -/
theorem Alike.endClause (h : Alike L φ c d) :
    Together endClause endClause c d fun _ _ c' d' => EndsAt .semicolon L φ c' d' :=
  h.skipAttributes.next fun _ _ _ _ _ h₁ => h₁.eat_end.next
    fun _ _ _ _ _ ⟨_, h₂⟩ => together_pure h₂

/-- Whether `type` is a modifier of an import is seen on both sides. -/
theorem Alike.atImportType_eq (h : Alike L φ c d) : atImportType d = atImportType c := by
  unfold atImportType
  rw [h.atWord_eq]
  refine and_eq_and fun htype => ?_
  have hone := h.within_atWord htype
  rw [h.sees_eq hone, h.sees_eq hone, h.seesAnyWord_eq hone]
  congr 1
  refine and_eq_and fun hany => ?_
  have htwo := h.within_word hone hany
  rw [h.sees_eq htwo, h.sees_eq htwo, h.seesWord_eq htwo]

/-- What an import binds: a default, a namespace, or elements in braces. -/
theorem Alike.importBindings (h : Alike L φ c d) :
    Together importBindings importBindings c d (Same L φ) := by
  refine (h.eat (h.token?_ne (by decide))).next fun a _ c₁ d₁ _ ⟨⟨hab, h₁⟩, _⟩ => ?_
  subst hab
  refine together_ite Iff.rfl (fun _ => ?_) fun _ => ?_
  · refine (h₁.eatWord "as").next fun _ _ c₂ d₂ _ ⟨⟨_, h₂⟩, _⟩ => ?_
    exact h₂.takeWord.next fun name _ c₃ d₃ _ ⟨hname, h₃⟩ => together_pure ⟨by rw [hname], h₃⟩
  refine h₁.eat_or (fun hbrace => ?_) (together_pure ⟨rfl, h₁⟩)
  exact (h₁.specifiers hbrace rfl).next fun elements _ c₃ d₃ _ ⟨helements, h₃⟩ =>
    together_pure ⟨by rw [helements], h₃⟩

/-- The rest of an import that binds something. -/
theorem Alike.importFrom (h : Alike L φ c d) {start start' : Span} (hstart : L.span start start')
    (typeOnly : Bool) (defaultName : Option String) :
    Together (importFrom start typeOnly defaultName) (importFrom start' typeOnly defaultName) c d
      fun s s' c' d' => s.Alike L s' ∧ EndsAt .semicolon L φ c' d' := by
  refine h.importBindings.next fun bindings _ c₁ d₁ _ ⟨hbindings, h₁⟩ => ?_
  subst hbindings
  refine (h₁.eatWord "from").next fun a _ c₂ d₂ _ ⟨⟨hab, h₂⟩, _⟩ => ?_
  subst hab
  refine together_ite Iff.rfl (fun _ => ?_) fun _ => Ahead.skipStatement (.inl h₂) hstart
  refine h₂.takeString.next fun specifier _ c₃ d₃ _ ⟨hspecifier, h₃⟩ => ?_
  subst hspecifier
  cases specifier with
  | none => exact Ahead.skipStatement (.inl h₃) hstart
  | some specifier =>
      exact h₃.endClause.next fun _ _ c₄ d₄ _ h₄ => together_get (together_pure
        ⟨.importing specifier _ typeOnly (h₄.spanFrom hstart), h₄⟩)

/-- An import binds the same on both sides; calls of `import` and assignments are skipped. -/
theorem Ahead.importStatement (h : Ahead L φ c d) (hsees : ∀ t, d.sees 1 t = c.sees 1 t)
    (hbump : Alike L φ c.bump d.bump) {start start' : Span} (hstart : L.span start start') :
    Together (importStatement start) (importStatement start') c d fun s s' c' d' =>
      s.Alike L s' ∧ EndsAt .semicolon L φ c' d' := by
  refine together_get (together_ite (by rw [hsees, hsees])
    (fun _ => h.skipStatement hstart) fun _ => ?_)
  refine Together.next (M := fun _ _ c' d' => Alike L φ c' d')
    ⟨leadsTo_bump c, leadsTo_bump d, hbump⟩ fun _ _ c₁ d₁ _ h₁ => together_get ?_
  rw [h₁.atImportType_eq]
  generalize htype : atImportType c₁ = typeOnly
  refine together_when (M := Alike L φ) Iff.rfl h₁ (fun htypeOnly => ?_)
    fun c₂ d₂ _ _ h₂ => ?_
  · rw [htypeOnly] at htype
    exact (h₁.readWord (Bool.and_eq_true_iff.mp htype).1).mono fun _ _ _ _ _ _ h => h.2.2
  refine h₂.takeString.next fun specifier _ c₃ d₃ _ ⟨hspecifier, h₃⟩ => ?_
  subst hspecifier
  cases specifier with
  | some specifier =>
      exact h₃.endClause.next fun _ _ c₄ d₄ _ h₄ => together_get (together_pure
        ⟨.importing specifier none typeOnly (h₄.spanFrom hstart), h₄⟩)
  | none =>
      have hfrom : c₃.atWord "from" = true → d₃.peekAt 1 = c₃.peekAt 1 := fun hfrom =>
        h₃.peekAt_eq (h₃.within_atWord hfrom)
      refine together_get (together_ite ?_ (fun _ => ?_) fun _ =>
        h₃.importFrom hstart typeOnly none)
      · rw [h₃.seesAnyWord_eq h₃.within_zero, h₃.atWord_eq]
        rw [and_eq_and (a := c₃.atWord "from") fun hat => by rw [hfrom hat]]
      · refine h₃.takeWord.next fun name _ c₄ d₄ _ ⟨hname, h₄⟩ => ?_
        subst hname
        refine together_get (together_ite (by rw [h₄.isAt_eq])
          (fun _ => Ahead.skipStatement (.inl h₄) hstart) fun _ => ?_)
        exact (h₄.eat (h₄.token?_ne (by decide))).next fun _ _ c₅ d₅ _ ⟨⟨_, h₅⟩, _⟩ =>
          h₅.importFrom hstart typeOnly name

/-- The rest of an export of names. -/
theorem Alike.exportFrom (h : Alike L φ c d) {start start' : Span} (hstart : L.span start start')
    (typeOnly : Bool) (clause : Option ExportClause) :
    Together (exportFrom start typeOnly clause) (exportFrom start' typeOnly clause) c d
      fun s s' c' d' => s.Alike L s' ∧ EndsAt .semicolon L φ c' d' := by
  refine together_eat_branch (Together.next (M := Same L φ) ?_
    fun specifier _ c₁ d₁ _ ⟨hspecifier, h₁⟩ => ?_)
  · exact h.eat_or (fun hfrom => (h.bump (h.within_one hfrom (by simp [Token.IsFence]))).takeString)
      (together_pure ⟨rfl, h⟩)
  · subst hspecifier
    exact h₁.endClause.next fun _ _ c₂ d₂ _ h₂ => together_get (together_pure
      ⟨.exporting clause specifier typeOnly (h₂.spanFrom hstart), h₂⟩)

/-- An export of names is recognized on both sides or on none; if on none, the cursors are still
    alike. -/
theorem Alike.exportNames? (h : Alike L φ c d) {start start' : Span}
    (hstart : L.span start start') (typeOnly : Bool) :
    Together (exportNames? start typeOnly) (exportNames? start' typeOnly) c d
      fun s s' c' d' => Option.Rel (Statement.Alike L) s s' ∧
        EndsAt .semicolon L φ c' d' ∧ (s = none → Alike L φ c' d') := by
  refine h.eat_or (fun hstar => ?_)
    (h.eat_or (fun hbrace => ?_) (together_pure ⟨.none, .inl h, fun _ => h⟩))
  · have h₁ := h.bump (h.within_one hstar (by decide))
    refine h₁.eat_or (fun has => ?_) ?_
    · have h₂ := h₁.bump (h₁.within_one has (by simp [Token.IsFence]))
      refine h₂.takeName.next ?_
      rintro name _ c₃ d₃ _ ⟨hname, h₃⟩
      subst hname
      refine (h₃.exportFrom hstart typeOnly _).next ?_
      rintro s s' c₄ d₄ _ ⟨hs, h₄⟩
      exact together_pure ⟨.some hs, h₄, by rintro ⟨⟩⟩
    · refine (h₁.exportFrom hstart typeOnly _).next ?_
      rintro s s' c₂ d₂ _ ⟨hs, h₂⟩
      exact together_pure ⟨.some hs, h₂, by rintro ⟨⟩⟩
  · refine (h.specifiers hbrace rfl).next ?_
    rintro elements _ c₁ d₁ _ ⟨helements, h₁⟩
    subst helements
    refine (h₁.exportFrom hstart typeOnly _).next ?_
    rintro s s' c₂ d₂ _ ⟨hs, h₂⟩
    exact together_pure ⟨.some hs, h₂, by rintro ⟨⟩⟩

end Cursor

-- ── Rules ────────────────────────────────────────────────────────────────────────

namespace Rule

variable {L : Likeness} {φ : Border} {k : Nat} {call₁ call₂ : Callees} {c d : Cursor}
  (hcall : Agree L k call₁ call₂)
include hcall

/-- One member of a class, with its modifiers and the block or value behind it. -/
theorem classMember_agrees (h : c.Alike L φ d) (hblock : φ.InBlock)
    (hk : 9 * c.remaining + 2 ≤ k) :
    Together (classMemberBody call₁) (classMemberBody call₂) c d
      (Yields L φ (Member.Alike L)) := by
  have hstart := h.here
  have hsemicolon : φ.token? ≠ some .semicolon := fun heq => Token.noConfusion (hblock _ heq)
  refine together_get (h.skipDecorators.next fun _ _ c₁ d₁ hle₁ h₁ => ?_)
  refine (h₁.taking fencedIn_memberModifiers).next ?_
  rintro modifiers _ c₂ d₂ hle₂ ⟨hmods, h₂⟩
  subst hmods
  have hstatic (hat : c₂.atWord "static" = true) := h₂.sees_eq (h₂.within_atWord hat) .openBrace
  refine together_get (together_ite (by rw [h₂.atWord_eq, and_eq_and hstatic]) (fun hblock => ?_)
    fun _ => together_ite (by rw [h₂.atIndexSignature_eq]) (fun hindex => ?_) fun _ => ?_)
  · -- a static block
    obtain ⟨hat, hbrace⟩ := Bool.and_eq_true_iff.mp hblock
    refine (h₂.readWord hat).next ?_
    rintro _ _ c₃ d₃ _ ⟨hc₃, _, h₃⟩
    refine (h₃.skipBrackets (.inr ⟨.openBrace, ?_, rfl⟩)).next fun _ _ c₄ d₄ _ h₄ => ?_
    · rw [hc₃]
      exact (peekAt_bump c₂ 0).trans (peekAt_of_sees hbrace)
    · exact together_get (together_pure ⟨.mk .staticBlock none true false .none
        (h₄.spanFrom hstart), h₄⟩)
  · obtain ⟨hboth, -⟩ := Bool.and_eq_true_iff.mp hindex
    obtain ⟨hopen, -⟩ := Bool.and_eq_true_iff.mp hboth
    exact hcall φ (.indexSignature _ hstart) ⟨h₂, .inr (peek_of_isAt hopen)⟩
      (by simp only [rank]; omega)
  refine (h₂.eat (h₂.token?_ne (by decide))).next ?_
  rintro _ _ c₃ d₃ hle₃ ⟨⟨_, h₃⟩, _⟩
  refine h₃.accessorKind.next ?_
  rintro accessor _ c₄ d₄ hle₄ ⟨haccessor, h₄⟩
  subst haccessor
  refine h₄.memberName.next ?_
  rintro name _ c₅ d₅ hle₅ ⟨hname, h₅⟩
  subst hname
  refine (h₅.eat (h₅.token?_ne (by decide))).next ?_
  rintro optional _ c₆ d₆ hle₆ ⟨⟨hoptional, h₆⟩, _⟩
  subst hoptional
  refine (h₆.eat (h₆.token?_ne (by decide))).next ?_
  rintro _ _ c₇ d₇ hle₇ ⟨⟨_, h₇⟩, _⟩
  refine together_get (h₇.skipAngles_when fun c₈ d₈ hle₈ h₈ => together_get ?_)
  refine together_ite (by rw [h₈.isAt_eq]) (fun hparen => ?_) fun _ => ?_
  · -- a method, with a body or without one
    refine (h₈.skipBrackets (.inr ⟨_, peek_of_isAt hparen, rfl⟩)).next fun _ _ c₉ d₉ hle₉ h₉ => ?_
    refine (hcall.call (r := annotatedResult) trivial h₉ (by simp only [rank]; omega)).next ?_
    rintro type type' c₁ d₁ _ ⟨htype, h₁⟩
    refine together_get ?_
    refine together_join (M := Cursor.Alike L φ) (fun c₂ d₂ h₂ => together_get (together_pure
      ⟨.mk (accessor.getD (if name = some "constructor" then .constructor else .method)) name
        (modifiers.contains "static") optional htype (h₂.spanFrom hstart), h₂⟩)) fun hjoin => ?_
    refine together_ite (by rw [h₁.isAt_eq]) (fun hbody => ?_) fun _ => ?_
    · exact (h₁.skipBrackets (.inr ⟨_, peek_of_isAt hbody, rfl⟩)).next
        fun _ _ c₂ d₂ _ h₂ => hjoin c₂ d₂ h₂
    · refine (h₁.eat hsemicolon).next ?_
      rintro _ _ c₂ d₂ _ ⟨⟨_, h₂⟩, _⟩
      exact hjoin c₂ d₂ h₂
  · refine (hcall.call (r := annotated) trivial h₈ (by simp only [rank]; omega)).next ?_
    rintro type type' c₁ d₁ _ ⟨htype, h₁⟩
    refine together_join (M := Cursor.Alike L φ) (fun c₂ d₂ h₂ => (h₂.eat hsemicolon).next
      fun _ _ c₃ d₃ _ h₃ => together_get (together_pure ⟨.mk .property name
        (modifiers.contains "static") optional htype (h₃.1.2.spanFrom hstart), h₃.1.2⟩))
      fun hjoin => ?_
    refine (h₁.eat (h₁.token?_ne (by decide))).next ?_
    rintro a _ c₂ d₂ _ ⟨⟨hab, h₂⟩, _⟩
    subst hab
    refine together_ite Iff.rfl (fun _ => ?_) fun _ => hjoin c₂ d₂ h₂
    exact h₂.skipInitializer.next fun _ _ c₃ d₃ _ h₃ => hjoin c₃ d₃ h₃

/-- The members of a class, through the brace that closes it, which may be the fence. -/
theorem classMembers_agrees (h : c.Alike L φ d) (hblock : φ.InBlock)
    (hk : 9 * c.remaining + 2 ≤ k) :
    Together (classMembersBody call₁) (classMembersBody call₂) c d fun ms ms' c' d' =>
      List.Forall₂ (Member.Alike L) ms ms' ∧ EndsAt .closeBrace L φ c' d' := by
  refine together_get ?_
  rw [h.peek_eq]
  split
  · exact together_pure ⟨.nil, .inl h⟩
  · next hpeek => exact ⟨leadsTo_bump c, leadsTo_bump d, .nil, h.bump_end hpeek⟩
  · next hpeek =>
    refine (h.together_bump (h.within_of_inBlock hblock (by rw [hpeek]; simp))).next ?_
    rintro _ _ c₁ d₁ _ ⟨hc₁, h₁⟩
    have hlt := remaining_bump_lt hpeek
    rw [← hc₁] at hlt
    exact hcall.call (r := classMembers) trivial ⟨h₁, hblock⟩ (by simp only [rank]; omega)
  · next hnone hbrace _ =>
    refine h.together_turn (J := List.cons) (h.within_of_inBlock hblock hbrace) hnone
      (classMember_agrees hcall h hblock hk)
      (fun c' d' h' hlt => hcall.call (r := classMembers) trivial ⟨h', hblock⟩
        (by simp only [rank]; omega)) ?_
    rintro _ _ _ _ _ _ hm ⟨hms, h'⟩
    exact ⟨.cons hm hms, h'⟩

/-- An entry of heritage has a like name and like arguments. -/
theorem heritage_agrees (h : c.Alike L φ d) (hk : 9 * c.remaining + 2 ≤ k) :
    Together (heritageBody call₁) (heritageBody call₂) c d (Yields L φ (Heritage.Alike L)) := by
  refine together_get ((hcall.call (r := referenceType) trivial h (by simp only [rank]; omega)).next
    fun t t' c₁ d₁ _ ⟨ht, h₁⟩ => together_get ?_)
  refine together_ite (by rw [h₁.isAt_eq]) (fun hparen => ?_)
    fun _ => together_pure ⟨⟨h.textSince h₁, ht⟩, h₁⟩
  -- the arguments of a call, behind which type arguments may stand
  refine (h₁.skipBrackets (.inr ⟨_, peek_of_isAt hparen, rfl⟩)).next fun _ _ c₂ d₂ _ h₂ => ?_
  exact together_get (h₂.skipAngles_when fun c₃ d₃ _ h₃ =>
    together_get (together_pure ⟨⟨h.textSince h₃, .other⟩, h₃⟩))

/-- A list of heritage goes on while commas follow. -/
theorem heritageList_agrees (h : c.Alike L φ d) (hk : 9 * c.remaining + 2 ≤ k) :
    Together (heritageListBody call₁) (heritageListBody call₂) c d
      (Yields L φ (List.Forall₂ (Heritage.Alike L))) := by
  refine (heritage_agrees hcall h hk).next fun t t' c₁ d₁ hle₁ ⟨ht, h₁⟩ => ?_
  refine (h₁.eat (h₁.token?_ne (by decide))).next fun a _ c₂ d₂ _ ⟨⟨hab, h₂⟩, hlt₂⟩ => ?_
  subst hab
  refine together_ite Iff.rfl (fun hcomma => ?_) fun _ => together_pure ⟨.cons ht .nil, h₂⟩
  have hlt := hlt₂ hcomma
  exact (hcall.call (r := heritageList) trivial h₂ (by simp only [rank]; omega)).next
    fun ts ts' c₃ d₃ _ ⟨hts, h₃⟩ => together_pure ⟨.cons ht hts, h₃⟩

/-- The clauses of a class: a later `extends` takes the place of an earlier one, and lists of
    `implements` are joined. -/
theorem classHeritage_agrees {parent parent' : Option Heritage}
    {interfaces interfaces' : List Heritage}
    (hparent : Option.Rel (Heritage.Alike L) parent parent')
    (hinterfaces : List.Forall₂ (Heritage.Alike L) interfaces interfaces')
    (h : c.Alike L φ d) (hk : 9 * c.remaining ≤ k) :
    Together (classHeritageBody call₁ parent interfaces)
      (classHeritageBody call₂ parent' interfaces') c d
      (Yields L φ fun p q => Option.Rel (Heritage.Alike L) p.1 q.1 ∧
        List.Forall₂ (Heritage.Alike L) p.2 q.2) := by
  refine (h.eatWord "extends").next ?_
  rintro a _ c₁ d₁ hle₁ ⟨⟨hab, h₁⟩, hlt₁⟩
  subst hab
  refine together_ite Iff.rfl (fun hextends => ?_) fun _ => ?_
  · have hlt := hlt₁ hextends
    refine (heritage_agrees hcall h₁ (by omega)).next ?_
    rintro t t' c₂ d₂ hle₂ ⟨ht, h₂⟩
    exact hcall φ (.classHeritage (.some ht) hinterfaces) h₂ (by simp only [rank]; omega)
  refine (h₁.eatWord "implements").next ?_
  rintro a _ c₂ d₂ _ ⟨⟨hab, h₂⟩, hlt₂⟩
  subst hab
  refine together_ite Iff.rfl (fun himplements => ?_)
    fun _ => together_pure ⟨⟨hparent, hinterfaces⟩, h₂⟩
  have hlt := hlt₂ himplements
  refine (hcall.call (r := heritageList) trivial h₂ (by simp only [rank]; omega)).next ?_
  rintro ts ts' c₃ d₃ hle₃ ⟨hts, h₃⟩
  exact hcall φ (.classHeritage hparent (List.rel_append hinterfaces hts)) h₃
    (by simp only [rank]; omega)

/-- A class behind its word: name, type parameters, heritage and members. -/
theorem classDecl_agrees (m : Modifiers) {start start' : Span} (hstart : L.span start start')
    (h₁ : c.bump.Alike L φ d.bump) (hheaded : Headed L φ c.bump d.bump)
    (hname : Together takeWord takeWord c.bump d.bump fun a b c' d' =>
      Same L φ a b c' d' ∧ Headed L φ c' d')
    (hk : 9 * c.bump.remaining < k) :
    Together (classDeclBody call₁ m start) (classDeclBody call₂ m start') c d
      (Yields L φ fun x y => Declaration.Alike L (.ofClass x) (.ofClass y)) := by
  refine Together.bind (M := fun _ _ c' d' => c' = c.bump ∧ d' = d.bump)
    ⟨leadsTo_bump c, leadsTo_bump d, rfl, rfl⟩ fun _ _ _ _ _ _ ⟨hc₁, hd₁⟩ => ?_
  subst hc₁ hd₁
  refine together_get (together_branch (Together.next
    (M := fun a b c' d' => Same L φ a b c' d' ∧ Headed L φ c' d') ?_
    fun name _ c₂ d₂ hle₂ ⟨⟨hname, h₂⟩, hheaded⟩ => ?_))
  · exact together_ite (by rw [h₁.atWord_eq, h₁.atWord_eq])
      (fun _ => together_pure ⟨⟨rfl, h₁⟩, hheaded⟩) fun _ => hname
  subst hname
  refine (h₂.typeParams hheaded).next fun params _ c₃ d₃ hle₃ ⟨hparams, h₃⟩ => ?_
  subst hparams
  refine (hcall φ (.classHeritage .none .nil) h₃ (by simp only [rank]; omega)).next
    fun p p' c₄ d₄ hle₄ ⟨⟨hparent, hinterfaces⟩, h₄⟩ => ?_
  obtain ⟨parent, interfaces⟩ := p
  obtain ⟨parent', interfaces'⟩ := p'
  refine h₄.block_or_nil (fun ψ c' d' h' hψ hlt' => hcall.call (r := classMembers) trivial ⟨h', hψ⟩
    (by simp only [rank]; omega)) fun ms ms' c₅ d₅ hms h₅ => ?_
  exact together_get (together_pure
    ⟨.ofClass name params m hparent hinterfaces hms (h₅.spanFrom hstart), h₅⟩)

theorem interfaceDecl_agrees (m : Modifiers) {start start' : Span} (hstart : L.span start start')
    (hname : Together takeWord takeWord c.bump d.bump fun a b c' d' =>
      Same L φ a b c' d' ∧ Headed L φ c' d')
    (hk : 9 * c.bump.remaining < k) :
    Together (interfaceDeclBody call₁ m start) (interfaceDeclBody call₂ m start') c d
      (Yields L φ fun x y => Declaration.Alike L (.ofInterface x) (.ofInterface y)) := by
  refine Together.bind (M := fun _ _ c' d' => c' = c.bump ∧ d' = d.bump)
    ⟨leadsTo_bump c, leadsTo_bump d, rfl, rfl⟩ fun _ _ _ _ _ _ ⟨hc₁, hd₁⟩ => ?_
  subst hc₁ hd₁
  refine hname.next
    fun name _ c₂ d₂ hle₂ ⟨⟨hname, h₂⟩, hheaded⟩ => ?_
  subst hname
  refine (h₂.typeParams hheaded).next fun params _ c₃ d₃ hle₃ ⟨hparams, h₃⟩ => ?_
  subst hparams
  refine together_eat_branch (Together.next (M := Yields L φ (List.Forall₂ (Heritage.Alike L))) ?_
    fun parents parents' c₄ d₄ hle₄ ⟨hparents, h₄⟩ => ?_)
  · refine h₃.eat_or (fun hextends => ?_) (together_pure ⟨.nil, h₃⟩)
    have hlt' := remaining_bump_lt hextends
    exact hcall.call (r := heritageList) trivial
      (h₃.bump (h₃.within_one hextends (by simp [Token.IsFence]))) (by simp only [rank]; omega)
  refine h₄.block_or_nil (fun ψ c' d' h' hψ hlt' => hcall.call (r := typeMembers) trivial ⟨h', hψ⟩
    (by simp only [rank]; omega)) fun ms ms' c₅ d₅ hms h₅ => ?_
  exact together_get (together_pure
    ⟨.ofInterface _ params m hparents hms (h₅.spanFrom hstart), h₅⟩)

/-- A row of statements, in a block or up to the end of the text. -/
theorem statements_agrees (inBlock : Bool) (h : c.Alike L φ d) (hblock : φ.InBlock)
    (hborder : φ = .finish ∨ inBlock = true) (hk : 9 * c.remaining + 4 ≤ k) :
    Together (statementsBody call₁ inBlock) (statementsBody call₂ inBlock) c d
      (Yields L φ (List.Forall₂ (Statement.Alike L))) := by
  have hnext {c' d' : Cursor} (h' : c'.Alike L φ d') (hlt : c'.remaining < c.remaining) :
      Together (call₁ (statements inBlock)) (call₂ (statements inBlock)) c' d'
        (Yields L φ (List.Forall₂ (Statement.Alike L))) :=
    hcall.call (r := statements inBlock) trivial ⟨h', hblock, hborder⟩
      (by simp only [rank]; omega)
  refine together_get ?_
  rw [h.peek_eq]
  split
  · exact together_pure ⟨.nil, h⟩
  · next hpeek =>
    refine (h.together_bump (h.within_of_inBlock hblock (by rw [hpeek]; simp))).next ?_
    rintro _ _ c₁ d₁ _ ⟨hc₁, h₁⟩
    refine hnext h₁ ?_
    rw [hc₁]
    exact remaining_bump_lt hpeek
  · next hpeek =>
    refine together_ite Iff.rfl (fun _ => together_pure ⟨.nil, h⟩) fun hfalse => ?_
    -- outside a block there is no fence
    obtain rfl := hborder.resolve_right hfalse
    refine (h.together_bump (.inl rfl)).next ?_
    rintro _ _ c₁ d₁ _ ⟨hc₁, h₁⟩
    refine (hnext h₁ (by rw [hc₁]; exact remaining_bump_lt hpeek)).next ?_
    rintro ss ss' c₂ d₂ _ ⟨hss, h₂⟩
    exact together_pure ⟨.cons (.other h.here) hss, h₂⟩
  · next hnone _ hbrace =>
    refine h.together_turn (J := List.cons) (h.within_of_inBlock hblock hbrace) hnone
      ((hcall.call (r := statement) trivial (.inl h) (by simp only [rank]; omega)).mono
        fun s s' c' d' _ _ hs => ⟨hs.1, hs.2.alike_of_inBlock hblock⟩)
      (fun c' d' h' hlt => hnext h' hlt)
      fun _ _ _ _ _ _ hs hss => ⟨.cons hs hss.1, hss.2⟩

/-- One statement, from the first word of it on. -/
theorem statement_agrees (h : Ahead L φ c d) (hk : 9 * c.remaining + 3 ≤ k) :
    Together (statementBody call₁) (statementBody call₂) c d fun s s' c' d' =>
      s.Alike L s' ∧ EndsAt .semicolon L φ c' d' := by
  have hstart := h.here
  refine together_get (h.skipDecorators.next fun _ _ c₁ d₁ hle₁ h₁ => together_get ?_)
  refine together_ite (by rw [h₁.atWord_eq]) (fun himport => h₁.importStatement
    (h₁.sees_one himport) (h₁.bump (peek_of_atWord himport) (by simp [Token.IsFence])) hstart)
    fun _ => together_ite (by rw [h₁.atWord_eq]) (fun hexport => ?_) fun _ => ?_
  · exact hcall φ (.exportStatement hstart) ⟨h₁, _, peek_of_atWord hexport⟩
      (by simp only [rank]; omega)
  · exact hcall φ (.declaration {} hstart) h₁ (by simp only [rank]; omega)

/-- Behind its modifiers, a statement is a class, an interface or a namespace, or it is skipped. -/
theorem declaration_agrees (m : Modifiers) {start start' : Span} (hstart : L.span start start')
    (h : Ahead L φ c d) (hk : 9 * c.remaining + 1 ≤ k) :
    Together (declarationBody call₁ m start) (declarationBody call₂ m start') c d
      fun s s' c' d' => s.Alike L s' ∧ EndsAt .semicolon L φ c' d' := by
  refine (h.takeModifiers m).next ?_
  rintro m _ c₁ d₁ hle₁ ⟨hm, h₁⟩
  subst hm
  have hany {w : String} (hat : c₁.atWord w = true) : d₁.seesAnyWord 1 = c₁.seesAnyWord 1 := by
    rw [seesAnyWord, seesAnyWord, h₁.peekAt_one hat]
  have hname (hat : (c₁.atWord "namespace" || c₁.atWord "module") = true) :
      d₁.seesName 1 = c₁.seesName 1 ∧ d₁.newlineBeforeAt 1 = c₁.newlineBeforeAt 1 := by
    rcases Bool.or_eq_true_iff.mp hat with hat | hat <;>
      exact ⟨by rw [seesName, seesName, h₁.peekAt_one hat], h₁.newlineBeforeAt_one hat⟩
  refine together_get (together_ite (by rw [h₁.atWord_eq]) (fun hclass => ?_) fun _ => ?_)
  · -- a class
    have hpeek := peek_of_atWord hclass
    have hlt := remaining_bump_lt hpeek
    refine (classDecl_agrees hcall m hstart (h₁.bump hpeek (by simp [Token.IsFence]))
      (h₁.headed hclass (.inl rfl)) (h₁.headed_takeWord hclass (.inl rfl)) (by omega)).next ?_
    rintro x y c₂ d₂ _ ⟨hxy, h₂⟩
    exact together_pure ⟨.declaration hxy, .inl h₂⟩
  refine together_ite (by rw [h₁.atWord_eq, and_eq_and hany]) (fun hinterface => ?_) fun _ => ?_
  · -- an interface
    have hat := (Bool.and_eq_true_iff.mp hinterface).1
    have hlt := remaining_bump_lt (peek_of_atWord hat)
    have hheaded := h₁.headed_takeWord hat (.inr rfl)
    refine (interfaceDecl_agrees hcall m hstart hheaded (by omega)).next ?_
    rintro x y c₂ d₂ _ ⟨hxy, h₂⟩
    exact together_pure ⟨.declaration hxy, .inl h₂⟩
  refine together_ite ?_ (fun hscope => ?_) fun _ => ?_
  · rw [h₁.atWord_eq, h₁.atWord_eq, and_eq_and fun hat => (hname hat).1, and_eq_and fun hboth => by
      rw [(hname (Bool.and_eq_true_iff.mp hboth).1).2]]
  · -- a namespace
    have hword : ∃ w, c₁.atWord w = true := by
      obtain ⟨hboth, -⟩ := Bool.and_eq_true_iff.mp hscope
      exact (Bool.or_eq_true_iff.mp (Bool.and_eq_true_iff.mp hboth).1).elim (⟨_, ·⟩) (⟨_, ·⟩)
    obtain ⟨w, hat⟩ := hword
    refine (h₁.readWord hat).next ?_
    rintro _ _ c₂ d₂ _ ⟨_, hlt₂, h₂⟩
    refine h₂.takeName.next ?_
    rintro name _ c₃ d₃ hle₃ ⟨hname, h₃⟩
    subst hname
    refine (hcall φ (.namespaceDecl (name.getD "") m hstart) h₃
      (by simp only [rank]; omega)).next ?_
    rintro x y c₄ d₄ _ ⟨hxy, h₄⟩
    exact together_pure ⟨.scope hxy, h₄⟩
  refine together_ite ?_ (fun hglobal => ?_) fun _ => h₁.skipStatement hstart
  · rw [h₁.atWord_eq, and_eq_and fun hboth => h₁.sees_one (Bool.and_eq_true_iff.mp hboth).1 _]
  · have hat := (Bool.and_eq_true_iff.mp (Bool.and_eq_true_iff.mp hglobal).1).1
    refine (h₁.readWord hat).next ?_
    rintro _ _ c₂ d₂ _ ⟨_, hlt₂, h₂⟩
    refine (hcall φ (.namespaceDecl "global" m hstart) h₂ (by simp only [rank]; omega)).next ?_
    rintro x y c₃ d₃ _ ⟨hxy, h₃⟩
    exact together_pure ⟨.scope hxy, h₃⟩

/-- What follows `export` decides between names, a default and a declaration; the rest is skipped.
    -/
theorem exportStatement_agrees {start start' : Span} (hstart : L.span start start')
    (h : c.bump.Alike L φ d.bump) (hk : 9 * c.bump.remaining + 1 < k) :
    Together (exportStatementBody call₁ start) (exportStatementBody call₂ start') c d
      fun s s' c' d' => s.Alike L s' ∧ EndsAt .semicolon L φ c' d' := by
  refine Together.next (M := fun _ _ c' d' => c' = c.bump ∧ c'.Alike L φ d')
    ⟨leadsTo_bump c, leadsTo_bump d, rfl, h⟩ ?_
  rintro _ _ c₁ d₁ _ ⟨hc₁, h₁⟩
  rw [← hc₁] at hk
  have hone {w : String} (hat : c₁.atWord w = true) := h₁.within_atWord hat
  refine together_get (together_ite ?_ (fun _ => Ahead.skipStatement (.inl h₁) hstart) fun _ => ?_)
  · rw [h₁.isAt_eq, h₁.atWord_eq, h₁.atWord_eq,
      and_eq_and fun hat => h₁.seesWord_eq (hone hat) "namespace"]
  refine h₁.eat_or (fun hdefault => ?_) ?_
  · have hlt₂ := remaining_bump_lt hdefault
    exact hcall φ (.declaration _ hstart)
      (.inl (h₁.bump (h₁.within_one hdefault (by simp [Token.IsFence]))))
      (by simp only [rank]; omega)
  have htype : (d₁.atWord "type" && (d₁.sees 1 .openBrace || d₁.sees 1 .star)) =
      (c₁.atWord "type" && (c₁.sees 1 .openBrace || c₁.sees 1 .star)) := by
    rw [h₁.atWord_eq]
    exact and_eq_and fun hat => by rw [h₁.sees_eq (hone hat), h₁.sees_eq (hone hat)]
  rw [htype]
  generalize hat : (c₁.atWord "type" && (c₁.sees 1 .openBrace || c₁.sees 1 .star)) = typeOnly
  refine together_when (M := fun c' d' => c'.Alike L φ d' ∧ c'.remaining ≤ c₁.remaining) Iff.rfl
    ⟨h₁, Nat.le_refl _⟩ (fun htypeOnly => ?_) ?_
  · rw [htypeOnly] at hat
    refine (h₁.readWord (Bool.and_eq_true_iff.mp hat).1).mono ?_
    rintro _ _ c₂ d₂ hc₂ _ ⟨_, _, h₂⟩
    exact ⟨h₂, hc₂.remaining_le⟩
  rintro c₂ d₂ _ _ ⟨h₂, hle₂⟩
  refine (h₂.exportNames? hstart typeOnly).next ?_
  rintro s s' c₃ d₃ hle₃ ⟨hs, hends, hnone⟩
  cases hs with
  | some hs => exact together_pure ⟨hs, hends⟩
  | none => exact hcall φ (.declaration _ hstart) (.inl (hnone rfl)) (by simp only [rank]; omega)

/-- A namespace behind its name, with all its statements. -/
theorem namespaceDecl_agrees (name : String) (m : Modifiers) {start start' : Span}
    (hstart : L.span start start') (h : c.Alike L φ d) (hk : 9 * c.remaining ≤ k) :
    Together (namespaceDeclBody call₁ name m start) (namespaceDeclBody call₂ name m start') c d
      fun n n' c' d' => n.Alike L n' ∧ EndsAt .semicolon L φ c' d' := by
  refine h.eat_or (fun hdot => ?_) (h.eat_or (fun hbrace => ?_) ?_)
  · -- a namespace inside
    have h₁ := h.bump (h.within_one hdot (by decide))
    have hlt := remaining_bump_lt hdot
    refine together_get (h₁.takeWord.next ?_)
    rintro inner _ c₂ d₂ hle₂ ⟨hinner, h₂⟩
    subst hinner
    refine (hcall φ (.namespaceDecl (inner.getD "") m h₁.here) h₂
      (by simp only [rank]; omega)).next ?_
    rintro n n' c₃ d₃ _ ⟨hn, h₃⟩
    exact together_get (together_pure ⟨.mk name m (.nested hn) (h₃.spanFrom hstart), h₃⟩)
  · obtain ⟨ψ, hψ, hblock, hleave⟩ := h.block hbrace
    have hlt := remaining_bump_lt hbrace
    refine (hcall.call (r := statements true) trivial ⟨hψ, hblock, .inr rfl⟩
      (by simp only [rank]; omega)).bind ?_
    rintro ss ss' c₁ d₁ hc₁ _ ⟨hss, h₁⟩
    refine h₁.eat_end.bind ?_
    rintro _ _ c₂ d₂ hc₂ _ ⟨_, h₂⟩
    have h₃ := hleave c₂ d₂ (hc₁.trans hc₂) h₂
    exact together_get (together_pure
      ⟨.mk name m (.block hss) (h₃.spanFrom hstart), .inl h₃⟩)
  · refine h.eat_end.next ?_
    rintro _ _ c₁ d₁ _ ⟨_, h₁⟩
    exact together_get (together_pure ⟨.mk name m .absent (h₁.spanFrom hstart), h₁⟩)

-- ── All rules ────────────────────────────────────────────────────────────────────

/-- If the callees agree below a measure, the bodies of the rules agree one step further. -/
theorem Agree.body : Agree L (k + 1) (Rule.body call₁) (Rule.body call₂) := by
  intro φ α r r' c d hr h hk
  have hk := Nat.le_of_lt_succ hk
  cases hr with
  | signature kind hstart => exact signature_agrees hcall kind hstart h hk
  | indexSignature isStatic hstart => exact indexSignature_agrees hcall isStatic hstart h.1 h.2 hk
  | classHeritage hparent hinterfaces => exact classHeritage_agrees hcall hparent hinterfaces h hk
  | declaration m hstart => exact declaration_agrees hcall m hstart h hk
  | exportStatement hstart =>
      obtain ⟨h, w, hpeek⟩ := h
      have hlt := remaining_bump_lt hpeek
      exact exportStatement_agrees hcall hstart (h.bump hpeek (by simp [Token.IsFence]))
        (by simp only [rank] at hk; omega)
  | namespaceDecl name m hstart => exact namespaceDecl_agrees hcall name m hstart h hk
  | @plain _ r hplain =>
      cases r with
      | typeExpr => exact typeExpr_agrees hcall h hk
      | resultType => exact resultType_agrees hcall h hk
      | unionType =>
          exact chain_agrees (n := 6) (by decide) .union
            (fun h hk => hcall.call (r := intersectionType) trivial h (by simp only [rank]; omega))
            (fun h hk => hcall.call (r := unionRest) trivial h (by simp only [rank]; omega)) h hk
      | unionRest =>
          exact chainRest_agrees (by decide)
            (fun h hk => hcall.call (r := intersectionType) trivial h (by simp only [rank]; omega))
            (fun h hk => hcall.call (r := unionRest) trivial h (by simp only [rank]; omega)) h hk
      | intersectionType =>
          exact chain_agrees (n := 5) (by decide) .intersection
            (fun h hk => hcall.call (r := postfixType) trivial h (by simp only [rank]; omega))
            (fun h hk => hcall.call (r := intersectionRest) trivial h (by simp only [rank]; omega))
            h hk
      | intersectionRest =>
          exact chainRest_agrees (by decide)
            (fun h hk => hcall.call (r := postfixType) trivial h (by simp only [rank]; omega))
            (fun h hk => hcall.call (r := intersectionRest) trivial h (by simp only [rank]; omega))
            h hk
      | postfixType => exact postfixType_agrees hcall h hk
      | primaryType => exact primaryType_agrees hcall h hk
      | wordType w =>
          obtain ⟨h, v, hpeek⟩ := h
          have hlt := remaining_bump_lt hpeek
          exact wordType_agrees hcall w h (h.within_one hpeek (by simp [Token.IsFence])) hk
            (by simp only [rank] at hk; omega)
      | referenceType => exact referenceType_agrees hcall h hk
      | typeArgs => exact typeArgs_agrees hcall h hk
      | functionType => exact functionType_agrees hcall h hk
      | tupleElements => exact tupleElements_agrees hcall h.1 h.2 hk
      | typeMembers => exact typeMembers_agrees hcall h.1 h.2 hk
      | typeMember => exact typeMember_agrees hcall h hk
      | annotated =>
          exact annotation_agrees hcall typeExpr trivial (fun h => h) (fun h => h) h hk
      | annotatedResult =>
          exact annotation_agrees hcall resultType trivial (fun h => h) (fun h => h) h hk
      | classMembers => exact classMembers_agrees hcall h.1 h.2 hk
      | heritageList => exact heritageList_agrees hcall h hk
      | statements inBlock => exact statements_agrees hcall inBlock h.1 h.2.1 h.2.2 hk
      | statement => exact statement_agrees hcall h hk
      | signature | indexSignature | classHeritage | declaration | exportStatement
      | namespaceDecl => exact hplain.elim

omit hcall

/-- **The grammar reads like texts alike.**  Under every likeness, two runs on like tokens agree on
    all budgets that are large enough, whatever the rules do where a budget is spent. -/
theorem agree_run (L : Likeness) {m n : Nat} (hm : k ≤ m) (hn : k ≤ n) :
    Agree L k (run m) (run n) := by
  induction k generalizing m n with
  | zero => exact fun _ _ _ _ _ _ _ _ hk => absurd hk (Nat.not_lt_zero _)
  | succ k ih =>
      obtain ⟨m, rfl⟩ := Nat.exists_eq_add_of_le' (Nat.le_trans (Nat.le_add_left 1 k) hm)
      obtain ⟨n, rfl⟩ := Nat.exists_eq_add_of_le' (Nat.le_trans (Nat.le_add_left 1 k) hn)
      intro φ α r r' c d hr h hk
      show Together (run (m + 1) r) (run (n + 1) r') c d _
      rw [run_succ, run_succ]
      exact (ih (Nat.le_of_succ_le_succ hm) (Nat.le_of_succ_le_succ hn)).body φ hr h hk

/-- Statement lists to the ends of two texts. -/
theorem statements_together (L : Likeness) {m n : Nat} (h : c.Alike L .finish d)
    (hm : 9 * c.remaining + 4 < m) (hn : 9 * c.remaining + 4 < n) :
    Together (run m (statements false)) (run n (statements false)) c d
      (Yields L .finish (List.Forall₂ (Statement.Alike L))) :=
  agree_run L hm hn .finish (r := statements false) (.plain trivial) ⟨h, nofun, .inl rfl⟩
    (Nat.lt_succ_self _)

end Rule

/-- The budget of a cursor is enough for every rule that may be called there. -/
theorem Cursor.lt_budget {c : Cursor} : 9 * c.remaining + 8 < c.budget := by
  rw [Cursor.budget]
  omega

/-- Texts with like tokens are read to like statements. -/
theorem parse_alike (L : Likeness) {t u : String}
    (hfinish : L.span (.empty (tokenize t).finish) (.empty (tokenize u).finish))
    (h : List.Forall₂ L.lexeme (tokenize t).lexemes (tokenize u).lexemes) :
    List.Forall₂ (Statement.Alike L) (parse t) (parse u) := by
  have halike : (Cursor.start (tokenize t)).Alike L .finish (Cursor.start (tokenize u)) :=
    ⟨.none, fun _ => hfinish, _, _, (List.append_nil _).symm, (List.append_nil _).symm, h, trivial⟩
  have hlength : (Cursor.start (tokenize u)).remaining = (Cursor.start (tokenize t)).remaining :=
    h.length_eq.symm
  have ht := (Cursor.start (tokenize t)).lt_budget
  have hu := (Cursor.start (tokenize u)).lt_budget
  rw [hlength] at hu
  exact (Rule.statements_together L halike (by omega) (by omega)).2.2.1

/-!
## The layout of a text

How tokens are set apart is not part of what a text says: with other blanks and other comments
between the same tokens, a text is read to the same statements, as long as line breaks stand between
the same tokens (`parse_layout_independent`).  Only what is copied from the text can differ: spans,
and the texts of heritage entries and of numbers behind a sign, which are cut out together with what
stands between their tokens.

In particular no place in the text decides how the text is read on, although loops over members and
statements ask whether they have moved on.
-/

/-- The same token: of one kind and value, spelled in one way, and first on a line or not. -/
structure Lexeme.SameButLayout (l m : Lexeme) : Prop where
  token : l.token = m.token
  text : l.text = m.text
  newlineBefore : l.newlineBefore = m.newlineBefore

instance (l m : Lexeme) : Decidable (l.SameButLayout m) :=
  decidable_of_iff (l.token = m.token ∧ l.text = m.text ∧ l.newlineBefore = m.newlineBefore)
    ⟨fun ⟨ht, hx, hl⟩ => ⟨ht, hx, hl⟩, fun h => ⟨h.token, h.text, h.newlineBefore⟩⟩

/-- Tokens are alike that are the same, and stand at one place of two token lists; all spans are
    alike. -/
def Likeness.layout (ls ms : List Lexeme) : Likeness where
  lexeme l m := (l, m) ∈ ls.zip ms ∧ l.SameButLayout m
  span _ _ := True
  near l m := l.token = m.token
  parts := False
  mark_eq h := Prod.ext h.2.token h.2.newlineBefore
  text_eq h := h.2.text
  near_of h := h.2.token
  near_token h := h
  near_span _ := trivial
  through _ _ := trivial

/-- **The layout of a text does not matter.**  Two texts whose tokens are the same but for the
    blanks and comments in front of them are read to the same statements, up to spans and up to the
    layout of the texts that are cut out of them. -/
theorem parse_layout_independent {t u : String}
    (h : List.Forall₂ Lexeme.SameButLayout (tokenize t).lexemes (tokenize u).lexemes) :
    List.Forall₂
      (Statement.Alike (.layout (tokenize t).lexemes (tokenize u).lexemes)) (parse t) (parse u) := by
  obtain ⟨hlength, hsame⟩ := List.forall₂_iff_zip.mp h
  exact parse_alike _ trivial (List.forall₂_iff_zip.mpr ⟨hlength, fun hmem => ⟨hmem, hsame hmem⟩⟩)

/-- A class with a heritage entry and a number behind a sign, set in two ways. -/
theorem parse_layout_independent_class :
    let t := "class A extends B<C> \x7b x: -1 \x7d"
    let u := " class/* name */A extends B < C >\x7bx :- /* sign */ 1\x7d // end"
    List.Forall₂
      (Statement.Alike (.layout (tokenize t).lexemes (tokenize u).lexemes)) (parse t) (parse u) :=
  parse_layout_independent (by decide +kernel)

end DeclAtlas

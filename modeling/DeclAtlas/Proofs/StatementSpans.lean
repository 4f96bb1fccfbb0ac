import DeclAtlas.Proofs.DeclarationSpans
import Mathlib.Data.List.Pairwise

/-!
# The spans of statements

The statements of a text take up all its tokens but the semicolons between them: every statement
has a row of tokens of its own, and its span runs from the start of the first to the end of the last
one (`Tiles`).  The same holds of the statements in the block of a namespace, and further down
everything lies inside of what it belongs to (`Statement.Laid`).

The parsers of statements have a budget, and a statement on which the budget ran out would not have
its full span.  So here the budget is part of the induction: it is kept above five times the number
of tokens ahead, since of any six nested calls one reads a token (`Rule.StatementsLaid`).

* **`parse_lays_out`** — the spans of all that is read from a text.
-/

namespace DeclAtlas

-- ── Statements and their tokens ──────────────────────────────────────────────────

/-- Statements take up a row of tokens: each has tokens of its own, from the first to the last of
    which it spans, and what stands between them are semicolons. -/
inductive Tiles : List Lexeme → List Statement → Prop
  | nil : Tiles [] []
  | separator {l : Lexeme} {ls : List Lexeme} {ss : List Statement} :
      l.token = .semicolon → Tiles ls ss → Tiles (l :: ls) ss
  | statement {s : Statement} {own ls : List Lexeme} {first last : Lexeme} {ss : List Statement} :
      own.head? = some first → own.getLast? = some last →
      s.span = ⟨first.span.start, last.span.stop⟩ → Tiles ls ss → Tiles (own ++ ls) (s :: ss)

mutual

/-- All spans in a statement fit into the text, and lie as the text does. -/
inductive Statement.Laid (size : Nat) : Statement → Prop
  | declaration {d : Declaration} : d.Laid size → Statement.Laid size (.declaration d)
  | importing {i : Import} : i.span.Fits size → Statement.Laid size (.importing i)
  | exporting {e : Export} : e.span.Fits size → Statement.Laid size (.exporting e)
  | scope {d : NamespaceDecl} : NamespaceDecl.Laid size d → Statement.Laid size (.scope d)
  | other {s : Span} : s.Fits size → Statement.Laid size (.other s)

/-- The statements in a namespace follow one another inside of it, and none of their spans is
    empty; a namespace in a namespace lies inside of it, unless its span is empty. -/
inductive NamespaceDecl.Laid (size : Nat) : NamespaceDecl → Prop
  | block {name : String} {ss : List Statement} {m : Modifiers} {span : Span} :
      span.Fits size → ss.Pairwise (fun a b => a.span.Before b.span) →
      (∀ s ∈ ss, s.span.NonEmpty) → (∀ s ∈ ss, span.Covers s.span) →
      (∀ s ∈ ss, Statement.Laid size s) → NamespaceDecl.Laid size ⟨name, .block ss, m, span⟩
  | nested {name : String} {inner : NamespaceDecl} {m : Modifiers} {span : Span} :
      span.Fits size → (inner.span.NonEmpty → span.Covers inner.span) →
      NamespaceDecl.Laid size inner → NamespaceDecl.Laid size ⟨name, .nested inner, m, span⟩
  | absent {name : String} {m : Modifiers} {span : Span} :
      span.Fits size → NamespaceDecl.Laid size ⟨name, .absent, m, span⟩

end

-- ── What tiles say of spans ──────────────────────────────────────────────────────

namespace Lexeme.InOrder

variable {hi lo : Nat} {l first last : Lexeme} {ls own : List Lexeme}

/-- A row of tokens and those behind it are in order by themselves, on either side of where the row
    ends. -/
theorem split (own : List Lexeme) (hlast : own.getLast? = some last) :
    ∀ {lo : Nat}, Lexeme.InOrder hi lo (own ++ ls) →
      Lexeme.InOrder last.span.stop lo own ∧ Lexeme.InOrder hi last.span.stop ls := by
  induction own with
  | nil => exact nomatch hlast
  | cons l own ih =>
      intro lo h
      obtain ⟨hlo, hne, htail⟩ := h
      cases own with
      | nil =>
          obtain rfl : l = last := Option.some.inj hlast
          exact ⟨⟨hlo, hne, Nat.le_refl _⟩, htail⟩
      | cons l' own =>
          rw [List.getLast?_cons_cons] at hlast
          obtain ⟨hown, hls⟩ := ih hlast htail
          exact ⟨⟨hlo, hne, hown⟩, hls⟩

/-- Tokens in order lie within the bounds of the row, and none of them is empty. -/
theorem bounds (ls : List Lexeme) :
    ∀ {lo : Nat}, Lexeme.InOrder hi lo ls → ∀ l ∈ ls,
      lo ≤ l.span.start.offset ∧ l.span.start.offset < l.span.stop ∧ l.span.stop ≤ hi := by
  induction ls with
  | nil => intro lo _; exact List.forall_mem_nil _
  | cons l ls ih =>
      intro lo h
      obtain ⟨hlo, hne, htail⟩ := h
      refine List.forall_mem_cons.mpr ⟨⟨hlo, hne, htail.le⟩, ?_⟩
      intro l' hl'
      obtain ⟨hlo', hne', hhi'⟩ := ih htail l' hl'
      exact ⟨by omega, hne', hhi'⟩

/-- No token of a row starts before the first one. -/
theorem head_le (h : Lexeme.InOrder hi lo own) (hfirst : own.head? = some first) :
    ∀ l ∈ own, first.span.start.offset ≤ l.span.start.offset := by
  cases own with
  | nil => exact nomatch hfirst
  | cons l own =>
      obtain rfl : l = first := Option.some.inj hfirst
      obtain ⟨-, hne, htail⟩ := h
      refine List.forall_mem_cons.mpr ⟨Nat.le_refl _, ?_⟩
      intro l' hl'
      have := (htail.bounds own l' hl').1
      omega

end Lexeme.InOrder

namespace Tiles

variable {hi : Nat} {ls : List Lexeme} {ss : List Statement}

/-- The spans of statements that take up tokens are not empty, follow one another, and stand
    where the tokens stand. -/
theorem spans (h : Tiles ls ss) :
    ∀ {lo : Nat}, Lexeme.InOrder hi lo ls →
      (ss.Pairwise fun a b => a.span.Before b.span) ∧
        ∀ s ∈ ss, s.span.NonEmpty ∧ lo ≤ s.span.start.offset ∧ s.span.stop ≤ hi := by
  induction h with
  | nil => intro lo _; exact ⟨List.Pairwise.nil, List.forall_mem_nil _⟩
  | @separator l ls ss _ _ ih =>
      intro lo h
      obtain ⟨hlo, hne, htail⟩ := h
      obtain ⟨hordered, hspans⟩ := ih htail
      refine ⟨hordered, ?_⟩
      intro s hs
      obtain ⟨hnonempty, hstart, hstop⟩ := hspans s hs
      exact ⟨hnonempty, by omega, hstop⟩
  | @statement s own ls first last ss hfirst hlast hspan _ ih =>
      intro lo h
      obtain ⟨hown, hls⟩ := Lexeme.InOrder.split own hlast h
      obtain ⟨hordered, hspans⟩ := ih hls
      obtain ⟨hlo, hne, hle⟩ := hown.bounds own first (List.mem_of_head? hfirst)
      have hhi := hls.le
      refine ⟨List.pairwise_cons.mpr ⟨?_, hordered⟩, List.forall_mem_cons.mpr ⟨?_, ?_⟩⟩
      · intro s' hs'
        rw [hspan]
        exact (hspans s' hs').2.1
      · rw [hspan]
        exact ⟨Nat.lt_of_lt_of_le hne hle, hlo, hhi⟩
      · intro s' hs'
        obtain ⟨hnonempty, hstart, hstop⟩ := hspans s' hs'
        exact ⟨hnonempty, by omega, hstop⟩

/-- A token is inside of a statement, or is a semicolon outside of all statements. -/
theorem tokens (h : Tiles ls ss) :
    ∀ {lo : Nat}, Lexeme.InOrder hi lo ls → ∀ l ∈ ls,
      (∃ s ∈ ss, s.span.Covers l.span) ∨
        (l.token = .semicolon ∧ ∀ s ∈ ss, s.span.Before l.span ∨ l.span.Before s.span) := by
  induction h with
  | nil => intro lo _; exact List.forall_mem_nil _
  | @separator l ls ss hl htiles ih =>
      intro lo h
      obtain ⟨-, -, htail⟩ := h
      refine List.forall_mem_cons.mpr ⟨Or.inr ⟨hl, ?_⟩, ih htail⟩
      intro s hs
      exact Or.inr ((htiles.spans htail).2 s hs).2.1
  | @statement s own ls first last ss hfirst hlast hspan _ ih =>
      intro lo h
      obtain ⟨hown, hls⟩ := Lexeme.InOrder.split own hlast h
      refine List.forall_mem_append.mpr ⟨?_, ?_⟩
      · intro l hl
        refine Or.inl ⟨s, List.mem_cons_self .., ?_⟩
        rw [hspan]
        exact ⟨hown.head_le hfirst l hl, (hown.bounds own l hl).2.2⟩
      · intro l hl
        rcases ih hls l hl with ⟨s', hs', hcovers⟩ | ⟨hsemicolon, houtside⟩
        · exact Or.inl ⟨s', List.mem_cons_of_mem s hs', hcovers⟩
        · refine Or.inr ⟨hsemicolon, List.forall_mem_cons.mpr ⟨Or.inl ?_, houtside⟩⟩
          rw [hspan]
          exact (hls.bounds ls l hl).1

end Tiles

/-- Of statements that follow one another, at most one covers something that is not empty. -/
theorem covering_unique {ss : List Statement} {x : Span}
    (hordered : ss.Pairwise fun a b => a.span.Before b.span) (hx : x.NonEmpty) {s s' : Statement}
    (hs : s ∈ ss) (hs' : s' ∈ ss) (hcovers : s.span.Covers x) (hcovers' : s'.span.Covers x) :
    s' = s := by
  have hclash : ∀ {a b : Statement}, a.span.Covers x → b.span.Covers x →
      ¬ a.span.Before b.span := by
    intro a b ha hb hbefore
    have hstop := ha.2
    have hstart := hb.1
    unfold Span.Before at hbefore
    unfold Span.NonEmpty at hx
    omega
  have hapart : ss.Pairwise fun a b => a.span.Before b.span ∨ b.span.Before a.span :=
    hordered.imp Or.inl
  have hsymm : Std.Symm fun a b : Statement => a.span.Before b.span ∨ b.span.Before a.span :=
    ⟨fun _ _ h => h.symm⟩
  by_contra hne
  rcases hapart.forall hs' hs hne with h | h
  · exact hclash hcovers' hcovers h
  · exact hclash hcovers hcovers' h

-- ── Statements that were read ────────────────────────────────────────────────────

namespace Cursor

variable {size : Nat} {c₀ c c' : Cursor}

/-- The tokens that were read between two cursors. -/
theorem Ordered.read (h : c.Ordered size) (hc : c.LeadsTo c') :
    ∃ own, c.rest = own ++ c'.rest ∧ Lexeme.InOrder c'.back c.back own ∧
      c'.prev = own.getLast?.or c.prev := by
  obtain ⟨n, rfl⟩ := hc
  induction n generalizing c with
  | zero => exact ⟨[], rfl, Nat.le_refl _, rfl⟩
  | succ n ih =>
      cases hr : c.rest with
      | nil =>
          rw [advance_of_rest_nil hr]
          exact ⟨[], hr.symm, Nat.le_refl _, rfl⟩
      | cons l ls =>
          have hin := h.inOrder
          rw [hr] at hin
          obtain ⟨own, hown, hinOrder, hprev⟩ := ih h.bump
          rw [bump_of_rest hr] at hown hinOrder hprev
          rw [advance, bump_of_rest hr]
          refine ⟨l :: own, congrArg (l :: ·) hown, ⟨hin.1, hin.2.1, hinOrder⟩, ?_⟩
          rw [hprev, List.getLast?_cons]
          cases own.getLast? <;> rfl

/-- What is read from some cursor on lies inside of what is read from an earlier one on, unless it
    is empty. -/
theorem Ordered.covers_spanFrom (h : c₀.Ordered size) (h₁ : c₀.LeadsTo c) (h₂ : c.LeadsTo c')
    (hmoved : c'.remaining < c₀.remaining) (hnonempty : (c'.spanFrom c.here).NonEmpty) :
    (c'.spanFrom c₀.here).Covers (c'.spanFrom c.here) := by
  obtain ⟨own, hown, -, hprev⟩ := h.read (h₁.trans h₂)
  have hstop : (c'.spanFrom c.here).stop = c'.back := by
    cases hlast : own.getLast? with
    | none =>
        rw [List.getLast?_eq_none_iff.mp hlast, List.nil_append] at hown
        simp [remaining, hown] at hmoved
    | some l =>
        rw [hlast, Option.some_or] at hprev
        simp only [Span.NonEmpty, spanFrom, back, hprev, Span.through] at hnonempty ⊢
        omega
  have hcovers := h.spanFrom_covers h₁ h₂ (.refl c')
  refine ⟨?_, ?_⟩
  · rw [start_spanFrom c' c.here]
    exact hcovers.1
  · rw [hstop]
    exact hcovers.2

/-- A token is next that a statement can begin with. -/
def AtStatement (c : Cursor) : Prop :=
  ∃ l ls, c.rest = l :: ls ∧ l.token ≠ .closeBrace ∧ l.token ≠ .semicolon

/-- A statement that began at `c₀` is under way: a token of it was read, or one is next. -/
def Underway (c₀ c : Cursor) : Prop := c.remaining < c₀.remaining ∨ c.AtStatement

/-- Moving on keeps a statement under way. -/
theorem Underway.leadsTo (h : c₀.Underway c) (h₀ : c₀.LeadsTo c) (hc : c.LeadsTo c') :
    c₀.Underway c' := by
  rcases Nat.lt_or_ge c'.remaining c.remaining with hlt | hge
  · exact Or.inl (Nat.lt_of_lt_of_le hlt h₀.remaining_le)
  · rwa [hc.eq_of_remaining (Nat.le_antisymm hc.remaining_le hge)]

/-- Where a token is next, tokens are left. -/
theorem rest_ne_nil_of_isAt {t : Token} (h : c.isAt t = true) : c.rest ≠ [] := by
  obtain ⟨l, ls, hr, -⟩ := peek_eq_some_iff.mp (isAt_iff.mp h)
  rw [hr]
  exact List.cons_ne_nil l ls

/-- A statement can begin with any word. -/
theorem atStatement_of_atWord {w : String} (h : c.atWord w = true) : c.AtStatement := by
  obtain ⟨l, ls, hr, hl⟩ := peek_eq_some_iff.mp (isAt_iff.mp h)
  refine ⟨l, ls, hr, ?_, ?_⟩
  · rw [hl]
    exact Token.noConfusion
  · rw [hl]
    exact Token.noConfusion

/-- Where a statement can begin, tokens are left. -/
theorem AtStatement.rest_ne_nil (h : c.AtStatement) : c.rest ≠ [] := by
  obtain ⟨l, ls, hr, -⟩ := h
  rw [hr]
  exact List.cons_ne_nil l ls

/-- Moving over a token leaves fewer of them. -/
theorem remaining_bump_lt_of_rest (hne : c.rest ≠ []) : c.bump.remaining < c.remaining := by
  obtain ⟨l, ls, hr⟩ := List.exists_cons_of_ne_nil hne
  rw [bump_of_rest hr]
  simp [remaining, hr]

end Cursor

/-- A statement that was read from `c` to `c'`, at least one token. -/
structure Statement.ReadFrom (size : Nat) (c c' : Cursor) (s : Statement) : Prop where
  moved : c'.remaining < c.remaining
  span_eq : s.span = c'.spanFrom c.here
  laid : s.Laid size

/-- A span from one cursor to a later one is within the text. -/
theorem Cursor.Ordered.fits_spanFrom {size : Nat} {c c' : Cursor} (h : c.Ordered size)
    (hc : c.LeadsTo c') : (c'.spanFrom c.here).Fits size :=
  (h.marks_spanFrom c').fits h hc

/-- One token that is read over as a statement. -/
theorem Cursor.Ordered.readFrom_here {size : Nat} {c : Cursor} (h : c.Ordered size)
    (hne : c.rest ≠ []) : (Statement.other c.here).ReadFrom size c c.bump := by
  have hmoved := Cursor.remaining_bump_lt_of_rest hne
  refine ⟨hmoved, ?_, .other ⟨h.front_le_stop, h.stop_le_size⟩⟩
  have hstart := c.bump.start_spanFrom c.here
  have hstop := h.stop_spanFrom c.leadsTo_bump hmoved
  rw [Cursor.back_bump hne] at hstop
  exact congrArg₂ Span.mk hstart.symm hstop.symm

/-- A statement that was read takes up its tokens, in front of others. -/
theorem Tiles.read {size : Nat} {c c' : Cursor} {s : Statement} {own ls : List Lexeme}
    {ss : List Statement} (h : c.Ordered size) (hc : c.LeadsTo c') (hs : s.ReadFrom size c c')
    (hown : c.rest = own ++ c'.rest) (hls : Tiles ls ss) : Tiles (own ++ ls) (s :: ss) := by
  obtain ⟨own', hown', -, hprev⟩ := h.read hc
  obtain rfl : own = own' := List.append_cancel_right (hown.symm.trans hown')
  have hne : own ≠ [] := by
    rintro rfl
    have hmoved := hs.moved
    simp [Cursor.remaining, hown] at hmoved
  obtain ⟨first, tail, rfl⟩ := List.exists_cons_of_ne_nil hne
  obtain ⟨last, hlast⟩ := Option.ne_none_iff_exists'.mp (mt List.getLast?_eq_none_iff.mp hne)
  have hhere : c.here = first.span := Cursor.here_of_rest hown
  have hback : c'.back = last.span.stop := by rw [Cursor.back, hprev, hlast]; rfl
  refine .statement rfl hlast ?_ hls
  rw [hs.span_eq, ← hback, ← h.stop_spanFrom hc hs.moved, ← hhere, ← c'.start_spanFrom c.here]

namespace Parser

variable {size : Nat} {c₀ c : Cursor}

-- ── Statements without parts ─────────────────────────────────────────────────────

/-- Where a statement can begin, reading over it takes at least one token. -/
theorem outerExtent_pos (h : c.AtStatement) :
    0 < outerExtent endsStatement none 0 c.rest := by
  obtain ⟨l, ls, hr, hbrace, hsemicolon⟩ := h
  have hgoes : endsStatement none l = false := by
    simp [endsStatement, statementBoundary, hbrace, hsemicolon]
  rw [hr, outerExtent, hgoes]
  exact Nat.succ_pos _

/-- A statement that is read over spans what was read from its start on. -/
theorem skipStatement_reads (h₀ : c₀.Ordered size) (hlead : c₀.LeadsTo c)
    (hway : c₀.Underway c) :
    (skipStatement c₀.here).Meets c fun s c' => s.ReadFrom size c₀ c' := by
  refine meets_bind (meets_skip (meets_bind ((meets_any_eat .semicolon).mono ?_)))
  intro _ c₁ h₁ _
  have h₀₁ := hlead.trans ((c.leadsTo_advance _).trans h₁)
  refine meets_get (meets_pure ⟨?_, rfl, .other (h₀.fits_spanFrom h₀₁)⟩)
  rcases hway with hmoved | hat
  · exact Nat.lt_of_le_of_lt ((c.leadsTo_advance _).trans h₁).remaining_le hmoved
  · have hpos := outerExtent_pos hat
    have hlen := List.length_pos_iff.mpr hat.rest_ne_nil
    have hle := h₁.remaining_le
    have hle₀ := hlead.remaining_le
    simp only [Cursor.remaining, Cursor.rest_advance, List.length_drop] at *
    omega

-- ── Imports and exports ──────────────────────────────────────────────────────────

/-- The end of an import or export clause is moved over. -/
theorem meets_endClause : endClause.Meets c fun _ _ => True := by
  refine meets_bind (meets_get (meets_ite (fun _ => ?_) fun _ => ?_))
  · refine meets_bind (meets_bump (meets_skip (meets_bind ((meets_any_eat _).mono ?_))))
    intro _ _ _ _
    exact meets_pure trivial
  · refine meets_pure (meets_bind ((meets_any_eat _).mono ?_))
    intro _ _ _ _
    exact meets_pure trivial

/-- The bindings of an import are moved over. -/
theorem meets_importBindings : importBindings.Meets c fun _ _ => True := by
  refine meets_bind (meets_eat (fun _ => ?_) fun _ => meets_bind (meets_eat (fun _ => ?_)
    fun _ => meets_pure trivial))
  · refine meets_bind ((meets_any_eat _).mono ?_)
    intro _ _ _ _
    exact meets_bind ((meets_any_takeIf _).mono fun _ _ _ _ => meets_pure trivial)
  · exact meets_bind (meets_taking (meets_pure trivial))

/-- The part of an import behind its first words, which was begun at an earlier cursor. -/
theorem importFrom_reads (h₀ : c₀.Ordered size) (hlead : c₀.LeadsTo c)
    (hmoved : c.remaining < c₀.remaining) (typeOnly : Bool) (defaultName : Option String) :
    (importFrom c₀.here typeOnly defaultName).Meets c fun s c' => s.ReadFrom size c₀ c' := by
  have hskip : ∀ c', c.LeadsTo c' →
      (skipStatement c₀.here).Meets c' fun s c' => s.ReadFrom size c₀ c' := fun c' h' =>
    skipStatement_reads h₀ (hlead.trans h') (Or.inl (Nat.lt_of_le_of_lt h'.remaining_le hmoved))
  refine meets_bind (meets_importBindings.mono ?_)
  intro bindings c₁ h₁ _
  refine meets_bind (meets_eat (fun _ => ?_) fun _ => hskip c₁ h₁)
  refine meets_bind ((meets_any_takeIf _).mono ?_)
  intro specifier c₂ h₂ _
  have h₀₂ := h₁.trans (c₁.leadsTo_bump.trans h₂)
  cases specifier with
  | none => exact hskip c₂ h₀₂
  | some specifier =>
      refine meets_bind (meets_endClause.mono ?_)
      intro _ c₃ h₃ _
      have h₃' := h₀₂.trans h₃
      exact meets_get (meets_pure ⟨Nat.lt_of_le_of_lt h₃'.remaining_le hmoved, rfl,
        .importing (h₀.fits_spanFrom (hlead.trans h₃'))⟩)

/-- An import of any form spans all that was read of it, and so does what turns out to be none. -/
theorem importStatement_reads (h₀ : c₀.Ordered size) (hlead : c₀.LeadsTo c)
    (hword : c.atWord "import" = true) :
    (importStatement c₀.here).Meets c fun s c' => s.ReadFrom size c₀ c' := by
  have hat := Cursor.atStatement_of_atWord hword
  have hbump : c.bump.remaining < c₀.remaining :=
    Nat.lt_of_lt_of_le (Cursor.remaining_bump_lt_of_rest hat.rest_ne_nil) hlead.remaining_le
  have hlead' := hlead.trans c.leadsTo_bump
  refine meets_get (meets_ite (fun _ => skipStatement_reads h₀ hlead (Or.inr hat)) fun _ => ?_)
  refine meets_bind (meets_bump (meets_get (meets_when (meets_bump trivial) ?_)))
  intro c₁ h₁
  have hmoved : ∀ c', c₁.LeadsTo c' → c'.remaining < c₀.remaining :=
    fun c' h' => Nat.lt_of_le_of_lt (h₁.trans h').remaining_le hbump
  refine meets_bind ((meets_any_takeIf _).mono ?_)
  intro specifier c₂ h₂ _
  have h₀₂ := hlead'.trans (h₁.trans h₂)
  cases specifier with
  | some specifier =>
      refine meets_bind (meets_endClause.mono ?_)
      intro _ c₃ h₃ _
      exact meets_get (meets_pure ⟨hmoved c₃ (h₂.trans h₃), rfl,
        .importing (h₀.fits_spanFrom (h₀₂.trans h₃))⟩)
  | none =>
      refine meets_get (meets_ite (fun _ => ?_) fun _ =>
        importFrom_reads h₀ h₀₂ (hmoved c₂ h₂) _ _)
      refine meets_bind ((meets_any_takeIf _).mono ?_)
      intro defaultName c₃ h₃ _
      have h₀₃ := h₀₂.trans h₃
      refine meets_get (meets_ite (fun _ => ?_) fun _ => ?_)
      · exact skipStatement_reads h₀ h₀₃ (Or.inl (hmoved c₃ (h₂.trans h₃)))
      · refine meets_bind ((meets_any_eat _).mono ?_)
        intro _ c₄ h₄ _
        exact importFrom_reads h₀ (h₀₃.trans h₄) (hmoved c₄ (h₂.trans (h₃.trans h₄))) _ _

/-- An export of names spans all that was read of it, its source included. -/
theorem exportFrom_reads (h₀ : c₀.Ordered size) (hlead : c₀.LeadsTo c)
    (hmoved : c.remaining < c₀.remaining) (typeOnly : Bool) (clause : Option ExportClause) :
    (exportFrom c₀.here typeOnly clause).Meets c fun s c' => s.ReadFrom size c₀ c' := by
  refine meets_eat_branch (Meets.mono (meets_bind (meets_eat (fun _ => meets_any_takeIf _)
    fun _ => meets_pure trivial)) ?_)
  intro specifier c₁ h₁ _
  refine meets_bind (meets_endClause.mono ?_)
  intro _ c₂ h₂ _
  have h₁₂ := h₁.trans h₂
  exact meets_get (meets_pure ⟨Nat.lt_of_le_of_lt h₁₂.remaining_le hmoved, rfl,
    .exporting (h₀.fits_spanFrom (hlead.trans h₁₂))⟩)

/-- Either an export of names was read from where it began, or there is none here. -/
theorem exportNames_reads (h₀ : c₀.Ordered size) (hlead : c₀.LeadsTo c)
    (hmoved : c.remaining < c₀.remaining) (typeOnly : Bool) :
    (exportNames? c₀.here typeOnly).Meets c fun o c' => ∀ s, o = some s →
      s.ReadFrom size c₀ c' := by
  have hfrom : ∀ c', c.LeadsTo c' → ∀ clause, (do
      let s ← exportFrom c₀.here typeOnly clause
      pure (some s)).Meets c' fun o c' => ∀ s, o = some s → s.ReadFrom size c₀ c' := by
    intro c' h' clause
    have hmoved' := Nat.lt_of_le_of_lt h'.remaining_le hmoved
    refine meets_bind ((exportFrom_reads h₀ (hlead.trans h') hmoved' typeOnly clause).mono ?_)
    intro s c'' _ hs
    refine meets_pure ?_
    rintro _ ⟨⟩
    exact hs
  refine meets_bind (meets_eat (fun _ => ?_) fun _ => meets_bind (meets_eat (fun _ => ?_)
    fun _ => ?_))
  · refine meets_bind (meets_eat (fun _ => ?_) fun _ => hfrom c.bump c.leadsTo_bump _)
    refine meets_bind ((meets_any_takeIf _).mono ?_)
    intro name c₁ h₁ _
    exact hfrom c₁ (c.leadsTo_bump.trans (c.bump.leadsTo_bump.trans h₁)) _
  · exact meets_bind (meets_taking
      (hfrom _ (c.leadsTo_bump.trans (c.bump.leadsTo_advance _)) _))
  · refine meets_pure ?_
    rintro _ ⟨⟩

-- ── Statements with parts ────────────────────────────────────────────────────────

/-- Statements that were read from `c` to `c'`; outside of a block all that is left was read. -/
structure ReadsAll (size : Nat) (inBlock : Bool) (c c' : Cursor) (ss : List Statement) : Prop where
  tiles : ∃ own, c.rest = own ++ c'.rest ∧ Tiles own ss
  laid : ∀ s ∈ ss, s.Laid size
  all : inBlock = false → c'.rest = []

/-- One more statement in front of others: its tokens stand before theirs. -/
theorem ReadsAll.cons {inBlock : Bool} {c₁ c₂ : Cursor} {s : Statement} {ss : List Statement}
    (hss : ReadsAll size inBlock c₁ c₂ ss) (hc : c.Ordered size) (h₁ : c.LeadsTo c₁)
    (hs : s.ReadFrom size c c₁) : ReadsAll size inBlock c c₂ (s :: ss) := by
  obtain ⟨own, hown, -, -⟩ := hc.read h₁
  obtain ⟨own', hown', htiles⟩ := hss.tiles
  refine ⟨⟨own ++ own', ?_, .read hc h₁ hs hown htiles⟩, ?_, hss.all⟩
  · rw [hown, hown', List.append_assoc]
  · exact List.forall_mem_cons.mpr ⟨hs.laid, hss.laid⟩

end Parser

namespace Rule

open DeclAtlas.Parser

variable {size : Nat}

/-- What the parsers of statements do, with a budget that is large enough.  Each of them may call
    those below it on the same tokens; only with a token less it is back at the top. -/
structure StatementsLaid (size n : Nat) : Prop where
  statements : ∀ (inBlock : Bool) (c : Cursor), c.Ordered size → 5 * c.remaining + 5 ≤ n →
    (run n (statements inBlock)).Meets c fun ss c' => ReadsAll size inBlock c c' ss
  statement : ∀ c : Cursor, c.Ordered size → c.AtStatement → 5 * c.remaining + 4 ≤ n →
    (run n statement).Meets c fun s c' => s.ReadFrom size c c'
  exportStatement : ∀ c₀ c : Cursor, c₀.Ordered size → c₀.LeadsTo c →
    c.atWord "export" = true → 5 * c.remaining + 3 ≤ n →
    (run n (exportStatement c₀.here)).Meets c fun s c' => s.ReadFrom size c₀ c'
  declaration : ∀ (m : Modifiers) (c₀ c : Cursor), c₀.Ordered size → c₀.LeadsTo c →
    c₀.Underway c → 5 * c.remaining + 2 ≤ n →
    (run n (declaration m c₀.here)).Meets c fun s c' => s.ReadFrom size c₀ c'
  namespaceDecl : ∀ (name : String) (m : Modifiers) (c₀ c : Cursor), c₀.Ordered size →
    c₀.LeadsTo c → 5 * c.remaining + 1 ≤ n →
    (run n (namespaceDecl name m c₀.here)).Meets c fun d c' =>
      d.span = c'.spanFrom c₀.here ∧ d.Laid size

/-- No budget at all is never large enough. -/
theorem statementsLaid_zero (size : Nat) : StatementsLaid size 0 where
  statements _ c _ h := absurd h (by omega)
  statement c _ _ h := absurd h (by omega)
  exportStatement _ c _ _ _ h := absurd h (by omega)
  declaration _ _ c _ _ _ h := absurd h (by omega)
  namespaceDecl _ _ _ c _ _ h := absurd h (by omega)

section Step

variable {n : Nat} (ih : StatementsLaid size n)
include ih

/-- A namespace covers the statements or the namespace inside of it. -/
theorem namespaceDecl_step (name : String) (m : Modifiers) (c₀ c : Cursor) (h₀ : c₀.Ordered size)
    (hlead : c₀.LeadsTo c) (hn : 5 * c.remaining + 1 ≤ n + 1) :
    (namespaceDeclBody (run n) name m c₀.here).Meets c fun d c' =>
      d.span = c'.spanFrom c₀.here ∧ d.Laid size := by
  have hbump := hlead.trans c.leadsTo_bump
  refine meets_bind (meets_eat (fun hdot => ?_) fun _ => meets_bind (meets_eat (fun hopen => ?_)
    fun _ => ?_))
  · refine meets_get (meets_bind ((meets_any_takeIf _).mono ?_))
    intro innerName c₁ h₁ _
    have hfewer := Cursor.remaining_bump_lt_of_rest (Cursor.rest_ne_nil_of_isAt hdot)
    have hle := h₁.remaining_le
    refine meets_bind ((ih.namespaceDecl _ m c.bump c₁ (h₀.leadsTo hbump) h₁ (by omega)).mono ?_)
    rintro inner c₂ h₂ ⟨hspan, hinner⟩
    refine meets_get (meets_pure ⟨rfl, .nested (h₀.fits_spanFrom ((hbump.trans h₁).trans h₂)) ?_
      hinner⟩)
    intro hnonempty
    have hle' := h₂.remaining_le
    have hlead' := hlead.remaining_le
    rw [hspan] at hnonempty ⊢
    exact h₀.covers_spanFrom hbump (h₁.trans h₂) (by omega) hnonempty
  · have hne := Cursor.rest_ne_nil_of_isAt hopen
    have hfewer := Cursor.remaining_bump_lt_of_rest hne
    refine meets_bind ((ih.statements true c.bump (h₀.leadsTo hbump) (by omega)).mono ?_)
    intro ss c₁ h₁ hss
    refine meets_bind ((meets_any_eat .closeBrace).mono ?_)
    intro _ c₂ h₂ _
    have h₀₂ := (hbump.trans h₁).trans h₂
    obtain ⟨own, hown, htiles⟩ := hss.tiles
    obtain ⟨own', hown', hinOrder, -⟩ := (h₀.leadsTo hbump).read h₁
    obtain rfl : own = own' := List.append_cancel_right (hown.symm.trans hown')
    obtain ⟨hordered, hspans⟩ := htiles.spans hinOrder
    have hcovers := h₀.spanFrom_covers hlead (c.leadsTo_bump.trans h₁) h₂
    refine meets_get (meets_pure ⟨rfl, .block (h₀.fits_spanFrom h₀₂) hordered
      (fun s hs => (hspans s hs).1) ?_ hss.laid⟩)
    intro s hs
    obtain ⟨-, hstart, hstop⟩ := hspans s hs
    refine hcovers.trans ⟨Nat.le_trans ?_ hstart, hstop⟩
    rw [Cursor.back_bump hne]
    exact (h₀.leadsTo hlead).front_le_stop
  · refine meets_bind ((meets_any_eat .semicolon).mono ?_)
    intro _ c₁ h₁ _
    exact meets_get (meets_pure ⟨rfl, .absent (h₀.fits_spanFrom (hlead.trans h₁))⟩)

/-- A declaration of any kind spans what was read from its modifiers on. -/
theorem declaration_step (m : Modifiers) (c₀ c : Cursor) (h₀ : c₀.Ordered size)
    (hlead : c₀.LeadsTo c) (hway : c₀.Underway c) (hn : 5 * c.remaining + 2 ≤ n + 1) :
    (declarationBody (run n) m c₀.here).Meets c fun s c' => s.ReadFrom size c₀ c' := by
  refine meets_bind (meets_taking ?_)
  have h₁ := c.leadsTo_advance (leadingModifiers m c.rest).2
  generalize c.advance (leadingModifiers m c.rest).2 = c₁ at h₁ ⊢
  generalize (leadingModifiers m c.rest).1 = m
  have h₀₁ := hlead.trans h₁
  have hle := h₁.remaining_le
  -- a word that is next has not been read before
  have hmoved : ∀ {w : String}, c₁.atWord w = true → ∀ {c'}, c₁.bump.LeadsTo c' →
      c'.remaining < c₀.remaining := by
    intro w hw c' h'
    have hfewer := Cursor.remaining_bump_lt_of_rest (Cursor.atStatement_of_atWord hw).rest_ne_nil
    have hle₀ := h₀₁.remaining_le
    have hle' := h'.remaining_le
    omega
  -- a namespace, from behind its name on
  have hscope : ∀ {w : String}, c₁.atWord w = true → ∀ (name : String) {c'}, c₁.bump.LeadsTo c' →
      (do
        let d ← run n (namespaceDecl name m c₀.here)
        pure (Statement.scope d)).Meets c' fun s c' => s.ReadFrom size c₀ c' := by
    intro w hw name c' h'
    have hle' := (c₁.leadsTo_bump.trans h').remaining_le
    refine meets_bind ((ih.namespaceDecl name m c₀ c' h₀
      (h₀₁.trans (c₁.leadsTo_bump.trans h')) (by omega)).mono ?_)
    rintro d c'' h'' ⟨hspan, hd⟩
    exact meets_pure ⟨hmoved hw (h'.trans h''), hspan, .scope hd⟩
  refine meets_get (meets_ite ?_ fun _ => meets_ite ?_ fun _ => meets_ite ?_ fun _ =>
    meets_ite ?_ fun _ => ?_)
  · intro hclass
    refine meets_bind ((classDecl_laid n m c₀ c₁ h₀ h₀₁).mono ?_)
    rintro d c' - ⟨hspan, hd, h'⟩
    exact meets_pure ⟨hmoved hclass h', hspan, .declaration hd⟩
  · intro hinterface
    simp only [Bool.and_eq_true] at hinterface
    refine meets_bind ((interfaceDecl_laid n m c₀ c₁ h₀ h₀₁).mono ?_)
    rintro d c' - ⟨hspan, hd, h'⟩
    exact meets_pure ⟨hmoved hinterface.1 h', hspan, .declaration hd⟩
  · intro hnamespace
    simp only [Bool.and_eq_true, Bool.or_eq_true] at hnamespace
    refine meets_bind (meets_bump (meets_bind ((meets_any_takeIf _).mono ?_)))
    intro name c' h' _
    rcases hnamespace.1.1 with hword | hword
    · exact hscope hword _ h'
    · exact hscope hword _ h'
  · intro hglobal
    simp only [Bool.and_eq_true] at hglobal
    exact meets_bind (meets_bump (hscope hglobal.1.1 _ (.refl _)))
  · exact skipStatement_reads h₀ h₀₁ (hway.leadsTo hlead h₁)

/-- An export is a list of names or a declaration, with the span of the whole statement. -/
theorem exportStatement_step (c₀ c : Cursor) (h₀ : c₀.Ordered size) (hlead : c₀.LeadsTo c)
    (hword : c.atWord "export" = true) (hn : 5 * c.remaining + 3 ≤ n + 1) :
    (exportStatementBody (run n) c₀.here).Meets c fun s c' => s.ReadFrom size c₀ c' := by
  have hbump := Cursor.remaining_bump_lt_of_rest (Cursor.atStatement_of_atWord hword).rest_ne_nil
  have hlead' := hlead.trans c.leadsTo_bump
  have hle₀ := hlead.remaining_le
  have hmoved : ∀ {c'}, c.bump.LeadsTo c' → c'.remaining < c₀.remaining := by
    intro c' h'
    have hle' := h'.remaining_le
    omega
  have hdeclaration : ∀ (m : Modifiers) {c'}, c.bump.LeadsTo c' →
      (run n (declaration m c₀.here)).Meets c' fun s c' => s.ReadFrom size c₀ c' := by
    intro m c' h'
    have hle' := h'.remaining_le
    exact ih.declaration m c₀ c' h₀ (hlead'.trans h') (Or.inl (hmoved h')) (by omega)
  refine meets_bind (meets_bump (meets_get (meets_ite (fun _ => ?_) fun _ => ?_)))
  · exact skipStatement_reads h₀ hlead' (Or.inl (hmoved (.refl _)))
  · refine meets_bind (meets_eat (fun _ => hdeclaration _ c.bump.leadsTo_bump) fun _ => ?_)
    refine meets_ite (fun h => absurd h Bool.false_ne_true) fun _ =>
      meets_when (meets_bump trivial) ?_
    intro c₁ h₁
    refine meets_bind ((exportNames_reads h₀ (hlead'.trans h₁) (hmoved h₁) _).mono ?_)
    intro o c₂ h₂ ho
    cases o with
    | some s => exact meets_pure (ho s rfl)
    | none => exact hdeclaration _ (h₁.trans h₂)

/-- A statement begins with its decorators, and each kind of statement has read a token. -/
theorem statement_step (c : Cursor) (hc : c.Ordered size) (hat : c.AtStatement)
    (hn : 5 * c.remaining + 4 ≤ n + 1) :
    (statementBody (run n)).Meets c fun s c' => s.ReadFrom size c c' := by
  refine meets_get (meets_bind (meets_skip (meets_get ?_)))
  have h₁ := c.leadsTo_advance (decoratorsExtent c.rest)
  generalize c.advance (decoratorsExtent c.rest) = c₁ at h₁ ⊢
  have hle := h₁.remaining_le
  refine meets_ite (fun hw => ?_) fun _ => meets_ite (fun hw => ?_) fun _ => ?_
  · exact importStatement_reads hc h₁ hw
  · exact ih.exportStatement c c₁ hc h₁ hw (by omega)
  · exact ih.declaration {} c c₁ hc h₁ (Cursor.Underway.leadsTo (Or.inr hat) (.refl c) h₁)
      (by omega)

/-- Statements divide the tokens among them: an empty statement is a semicolon between them, and a
    closing brace outside of all blocks is a statement by itself. -/
theorem statements_step (inBlock : Bool) (c : Cursor) (hc : c.Ordered size)
    (hn : 5 * c.remaining + 5 ≤ n + 1) :
    (statementsBody (run n) inBlock).Meets c fun ss c' => ReadsAll size inBlock c c' ss := by
  refine meets_get ?_
  split
  · next hnone =>
    -- the end of the text
    have hnil := Cursor.peek_eq_none_iff.mp hnone
    exact meets_pure ⟨⟨[], rfl, .nil⟩, List.forall_mem_nil _, fun _ => hnil⟩
  · next hsome =>
    -- a semicolon
    obtain ⟨l, ls, hr, hl⟩ := Cursor.peek_eq_some_iff.mp hsome
    have hfewer := Cursor.remaining_bump_lt_of_rest (c := c) (by simp [hr])
    refine meets_bind (meets_bump ((ih.statements inBlock c.bump hc.bump (by omega)).mono ?_))
    intro ss c₁ h₁ hss
    obtain ⟨own, hown, htiles⟩ := hss.tiles
    refine ⟨⟨l :: own, ?_, .separator hl htiles⟩, hss.laid, hss.all⟩
    rw [List.cons_append, ← hown, Cursor.bump_of_rest hr, hr]
  · next hsome =>
    -- a closing brace, which ends a block
    refine meets_ite (fun hin => ?_) fun _ => ?_
    · exact meets_pure ⟨⟨[], rfl, .nil⟩, List.forall_mem_nil _,
        fun hout => absurd hin (Bool.eq_false_iff.mp hout)⟩
    · have hne := Cursor.rest_ne_nil_of_isAt (Cursor.isAt_iff.mpr hsome)
      have hfewer := Cursor.remaining_bump_lt_of_rest hne
      refine meets_bind (meets_bump (meets_bind
        ((ih.statements inBlock c.bump hc.bump (by omega)).mono ?_)))
      intro ss c₁ _ hss
      exact meets_pure (hss.cons hc c.leadsTo_bump (hc.readFrom_here hne))
  · next hnone hsemicolon hbrace =>
    obtain ⟨l, ls, hr⟩ := List.exists_cons_of_ne_nil (mt Cursor.peek_eq_none_iff.mpr hnone)
    have hpeek : c.peek = some l.token := Cursor.peek_eq_some_iff.mpr ⟨l, ls, hr, rfl⟩
    rw [hpeek] at hsemicolon hbrace
    have hat : c.AtStatement :=
      ⟨l, ls, hr, fun h => hbrace (congrArg some h), fun h => hsemicolon (congrArg some h)⟩
    refine meets_bind ((ih.statement c hc hat (by omega)).mono ?_)
    intro s c₁ h₁ hs
    have hmoved := hs.moved
    refine meets_get (meets_ite (fun heq => absurd heq (Nat.ne_of_lt hmoved)) fun _ => ?_)
    refine meets_bind ((ih.statements inBlock c₁ (hc.leadsTo h₁) (by omega)).mono ?_)
    intro ss c₂ _ hss
    exact meets_pure (hss.cons hc h₁ hs)

end Step

/-- What the parsers of statements do, they do on every budget that is large enough. -/
theorem statementsLaid (size n : Nat) : StatementsLaid size n := by
  induction n with
  | zero => exact statementsLaid_zero size
  | succ n ih =>
      exact ⟨statements_step ih, statement_step ih, exportStatement_step ih, declaration_step ih,
        namespaceDecl_step ih⟩

end Rule

/-- **The statements of a text divide its tokens.**  Each has a row of tokens for itself, from the
    start of the first to the end of the last of which it spans, and only semicolons stand
    between them.  So the spans are not empty, follow one another, and every token either lies
    in exactly one of them or is a semicolon that lies in none.

    Below the statements, all spans fit into the text; what a namespace, a class, an interface
    or a type literal holds follows one another without overlapping, and lies inside of it. -/
theorem parse_lays_out (text : String) :
    Tiles (tokenize text).lexemes (parse text) ∧
    ((parse text).Pairwise fun a b => a.span.Before b.span) ∧
    (∀ s ∈ parse text, s.span.NonEmpty) ∧
    (∀ l ∈ (tokenize text).lexemes,
      (∃! s, s ∈ parse text ∧ s.span.Covers l.span) ∨
        (l.token = .semicolon ∧
          ∀ s ∈ parse text, s.span.Before l.span ∨ l.span.Before s.span)) ∧
    ∀ s ∈ parse text, s.Laid text.utf8ByteSize := by
  have hstart := Cursor.ordered_start text
  have hbudget : 5 * (Cursor.start (tokenize text)).remaining + 5 ≤
      (Cursor.start (tokenize text)).budget := by
    unfold Cursor.budget
    omega
  obtain ⟨-, ⟨own, hown, htiles⟩, hlaid, hall⟩ :=
    (Rule.statementsLaid _ _).statements false _ hstart hbudget
  rw [hall rfl, List.append_nil] at hown
  rw [← hown] at htiles
  have hinOrder := inOrder_tokenize text
  obtain ⟨hordered, hspans⟩ := htiles.spans hinOrder
  refine ⟨htiles, hordered, fun s hs => (hspans s hs).1, ?_, hlaid⟩
  intro l hl
  rcases htiles.tokens hinOrder l hl with ⟨s, hs, hcovers⟩ | hbetween
  · refine Or.inl ⟨s, ⟨hs, hcovers⟩, ?_⟩
    rintro s' ⟨hs', hcovers'⟩
    exact covering_unique hordered (hinOrder.bounds _ l hl).2.1 hs hs' hcovers hcovers'
  · exact Or.inr hbetween

end DeclAtlas

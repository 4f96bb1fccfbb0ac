import DeclAtlas.Proofs.Containment

/-!
# Statements that are read over

Most statements of a text declare nothing, and are read over to the semicolon that ends them.  On
the way there may be anything in brackets: blocks, other semicolons, words that begin declarations.
Outside of brackets a line break may end the statement before its semicolon does, but only behind a
finished expression and in front of a token that begins a statement.

A row of tokens that is read over as one statement (`RunsOn`) is balanced, begins like no
declaration and is broken nowhere outside of brackets.  It is one opaque statement, and what follows
the semicolon is read as if nothing stood before it (`parse_reads_over`).

Brackets of all three kinds are counted together (`depthBehind`), as the scan does that reads over
them (`outerExtent_append`).
-/

namespace DeclAtlas

open DeclAtlas.Parser DeclAtlas.Cursor

-- ── Depths ───────────────────────────────────────────────────────────────────────

/-- The depth behind a row of tokens that begins at some depth.  Brackets of all kinds are counted
    together; there is no depth behind a bracket that closes none. -/
def depthBehind : Nat → List Lexeme → Option Nat
  | depth, [] => some depth
  | depth, l :: ls =>
    if l.token.opens then depthBehind (depth + 1) ls
    else if l.token.closes then
      if depth = 0 then none else depthBehind (depth - 1) ls
    else depthBehind depth ls

/-- The last token of a row that stands behind `prev`. -/
def lastToken : Option Token → List Lexeme → Option Token
  | prev, [] => prev
  | _, l :: ls => lastToken (some l.token) ls

section Depth

variable {l : Lexeme} {ls own rest : List Lexeme}

/-- A bracket that opens is one level deeper. -/
theorem depthBehind_opens (d : Nat) (ls : List Lexeme) (h : l.token.opens = true) :
    depthBehind d (l :: ls) = depthBehind (d + 1) ls := by
  rw [depthBehind, if_pos h]

/-- Outside of brackets, none can be closed. -/
theorem depthBehind_closes_zero (ls : List Lexeme) (hopens : l.token.opens = false)
    (hcloses : l.token.closes = true) : depthBehind 0 (l :: ls) = none := by
  rw [depthBehind, if_neg (ne_true_of_eq_false hopens), if_pos hcloses, if_pos rfl]

/-- Inside, one that closes is a level less. -/
theorem depthBehind_closes_succ (d : Nat) (ls : List Lexeme) (hopens : l.token.opens = false)
    (hcloses : l.token.closes = true) : depthBehind (d + 1) (l :: ls) = depthBehind d ls := by
  rw [depthBehind, if_neg (ne_true_of_eq_false hopens), if_pos hcloses, if_neg (Nat.succ_ne_zero d)]
  rfl

theorem depthBehind_plain (d : Nat) (ls : List Lexeme) (hopens : l.token.opens = false)
    (hcloses : l.token.closes = false) : depthBehind d (l :: ls) = depthBehind d ls := by
  rw [depthBehind, if_neg (ne_true_of_eq_false hopens), if_neg (ne_true_of_eq_false hcloses)]

/-- What holds of a row with a depth behind it goes from its end to its front, over tokens that open
    a bracket, close the last one that is open, or do neither. -/
@[elab_as_elim]
theorem depthBehind_induction {e : Nat}
    {motive : ∀ (d : Nat) (own : List Lexeme), depthBehind d own = some e → Prop}
    (nil : motive e [] rfl)
    (opens : ∀ {d : Nat} {l : Lexeme} {ls : List Lexeme} (hopens : l.token.opens = true)
      (h : depthBehind (d + 1) ls = some e), motive (d + 1) ls h →
        motive d (l :: ls) ((depthBehind_opens d ls hopens).trans h))
    (closes : ∀ {d : Nat} {l : Lexeme} {ls : List Lexeme} (hopens : l.token.opens = false)
      (hcloses : l.token.closes = true) (h : depthBehind d ls = some e), motive d ls h →
        motive (d + 1) (l :: ls) ((depthBehind_closes_succ d ls hopens hcloses).trans h))
    (plain : ∀ {d : Nat} {l : Lexeme} {ls : List Lexeme} (hopens : l.token.opens = false)
      (hcloses : l.token.closes = false) (h : depthBehind d ls = some e), motive d ls h →
        motive d (l :: ls) ((depthBehind_plain d ls hopens hcloses).trans h))
    {d : Nat} {own : List Lexeme} (h : depthBehind d own = some e) : motive d own h := by
  induction own generalizing d with
  | nil =>
      obtain rfl : d = e := Option.some.inj h
      exact nil
  | cons l ls ih =>
      by_cases hopens : l.token.opens = true
      · exact opens hopens _ (ih ((depthBehind_opens d ls hopens).symm.trans h))
      rw [Bool.not_eq_true] at hopens
      by_cases hcloses : l.token.closes = true
      · cases d with
        | zero =>
            rw [depthBehind_closes_zero _ hopens hcloses] at h
            cases h
        | succ d =>
            exact closes hopens hcloses _
              (ih ((depthBehind_closes_succ d ls hopens hcloses).symm.trans h))
      · rw [Bool.not_eq_true] at hcloses
        exact plain hopens hcloses _ (ih ((depthBehind_plain d ls hopens hcloses).symm.trans h))

/-- The depth behind two rows is that behind the second one, from where the first one leads. -/
theorem depthBehind_append {d e : Nat} (h : depthBehind d own = some e) (rest : List Lexeme) :
    depthBehind d (own ++ rest) = depthBehind e rest := by
  induction h using depthBehind_induction with
  | nil => rfl
  | opens hopens _ ih => rw [List.cons_append, depthBehind_opens _ _ hopens, ih]
  | closes hopens hcloses _ ih =>
      rw [List.cons_append, depthBehind_closes_succ _ _ hopens hcloses, ih]
  | plain hopens hcloses _ ih => rw [List.cons_append, depthBehind_plain _ _ hopens hcloses, ih]

section Outer

variable {stop : Option Token → Lexeme → Bool} {prev : Option Token} {d : Nat}

/-- A scan that does not stop at a bracket goes on inside of it. -/
theorem outerExtent_opens (hgoes : d = 0 → stop prev l = false) (hopens : l.token.opens = true) :
    outerExtent stop prev d (l :: ls) = outerExtent stop (some l.token) (d + 1) ls + 1 := by
  cases d with
  | zero => rw [outerExtent, if_neg (ne_true_of_eq_false (hgoes rfl)), if_pos hopens]
  | succ d => rw [outerExtent, if_pos hopens]

/-- Where the bracket closes, it goes on outside. -/
theorem outerExtent_closes (hopens : l.token.opens = false) (hcloses : l.token.closes = true) :
    outerExtent stop prev (d + 1) (l :: ls) = outerExtent stop (some l.token) d ls + 1 := by
  rw [outerExtent, if_neg (ne_true_of_eq_false hopens), if_pos hcloses]

/-- It goes on at the same depth behind a token that is no bracket. -/
theorem outerExtent_plain (hgoes : d = 0 → stop prev l = false) (hopens : l.token.opens = false)
    (hcloses : l.token.closes = false) :
    outerExtent stop prev d (l :: ls) = outerExtent stop (some l.token) d ls + 1 := by
  have hopens := ne_true_of_eq_false hopens
  cases d with
  | zero => rw [outerExtent, if_neg (ne_true_of_eq_false (hgoes rfl)), if_neg hopens]
  | succ d => rw [outerExtent, if_neg hopens, if_neg (ne_true_of_eq_false hcloses)]

end Outer

/-- A scan passes a row in which it does not stop outside of brackets, whatever is inside. -/
theorem outerExtent_append (stop : Option Token → Lexeme → Bool) {prev : Option Token} {d e : Nat}
    (h : depthBehind d own = some e)
    (hstop : ∀ before l after, own = before ++ l :: after → depthBehind d before = some 0 →
      stop (lastToken prev before) l = false) (rest : List Lexeme) :
    outerExtent stop prev d (own ++ rest) =
      outerExtent stop (lastToken prev own) e rest + own.length := by
  induction h using depthBehind_induction generalizing prev with
  | nil => rfl
  | @opens d l ls hopens _ ih =>
      have hgoes : d = 0 → stop prev l = false := fun hd => hstop [] l ls rfl (congrArg some hd)
      rw [List.cons_append, outerExtent_opens hgoes hopens, ih fun before m after hsplit hdepth =>
        hstop (l :: before) m after (congrArg (l :: ·) hsplit)
          ((depthBehind_opens d before hopens).trans hdepth)]
      rfl
  | @closes d l ls hopens hcloses _ ih =>
      rw [List.cons_append, outerExtent_closes hopens hcloses,
        ih fun before m after hsplit hdepth =>
          hstop (l :: before) m after (congrArg (l :: ·) hsplit)
            ((depthBehind_closes_succ d before hopens hcloses).trans hdepth)]
      rfl
  | @plain d l ls hopens hcloses _ ih =>
      have hgoes : d = 0 → stop prev l = false := fun hd => hstop [] l ls rfl (congrArg some hd)
      rw [List.cons_append, outerExtent_plain hgoes hopens hcloses,
        ih fun before m after hsplit hdepth =>
          hstop (l :: before) m after (congrArg (l :: ·) hsplit)
            ((depthBehind_plain d before hopens hcloses).trans hdepth)]
      rfl

end Depth

-- ── Rows that are read over ──────────────────────────────────────────────────────

/-- Words that may begin something other than a statement that is read over. -/
def modelledWords : List String :=
  ["import", "export", "class", "interface", "declare", "abstract", "namespace", "module", "global"]

/-- A row of tokens that is read over as one statement, up to a semicolon behind it. -/
structure RunsOn (own : List Lexeme) : Prop where
  ne_nil : own ≠ []
  balanced : depthBehind 0 own = some 0
  /-- It begins with no decorator, and like no import, export or declaration. -/
  opaque_head : ∀ l ∈ own.head?, l.token ≠ .atSign ∧ ∀ w ∈ modelledWords, l.token ≠ .word w
  /-- Outside of brackets there is no semicolon, and no line break that ends the statement. -/
  unbroken : ∀ i (h : i < own.length), depthBehind 0 (own.take i) = some 0 →
    own[i].token ≠ .semicolon ∧ statementBoundary (lastToken none (own.take i)) own[i] = false

theorem runsOn_iff {own : List Lexeme} : RunsOn own ↔
    own ≠ [] ∧ depthBehind 0 own = some 0 ∧
      (∀ l ∈ own.head?, l.token ≠ .atSign ∧ ∀ w ∈ modelledWords, l.token ≠ .word w) ∧
      ∀ i (h : i < own.length), depthBehind 0 (own.take i) = some 0 →
        own[i].token ≠ .semicolon ∧ statementBoundary (lastToken none (own.take i)) own[i] = false :=
  ⟨fun ⟨h₁, h₂, h₃, h₄⟩ => ⟨h₁, h₂, h₃, h₄⟩, fun ⟨h₁, h₂, h₃, h₄⟩ => ⟨h₁, h₂, h₃, h₄⟩⟩

instance : DecidablePred RunsOn := fun _ => decidable_of_iff _ runsOn_iff.symm

section RunsOn

variable {own : List Lexeme}

/-- Nowhere in such a row a statement ends. -/
theorem RunsOn.endsStatement_eq_false (h : RunsOn own) {before after : List Lexeme} {l : Lexeme}
    (hown : own = before ++ l :: after) (hdepth : depthBehind 0 before = some 0) :
    endsStatement (lastToken none before) l = false := by
  have hlt : before.length < own.length := by
    rw [hown, List.length_append, List.length_cons]
    omega
  have htake : own.take before.length = before := by rw [hown, List.take_left]
  have hget : own[before.length] = l := by
    simp [hown]
  obtain ⟨hsemicolon, hboundary⟩ := h.unbroken before.length hlt (by rw [htake]; exact hdepth)
  rw [hget] at hsemicolon hboundary
  rw [htake] at hboundary
  have hbrace : l.token ≠ .closeBrace := by
    intro hbrace
    have hrest := h.balanced
    rw [hown, depthBehind_append hdepth, depthBehind_closes_zero _ (by rw [hbrace]; rfl)
      (by rw [hbrace]; rfl)] at hrest
    cases hrest
  rw [endsStatement, hboundary, beq_eq_false_iff_ne.mpr hbrace, beq_eq_false_iff_ne.mpr hsemicolon]
  rfl

variable {b l : Lexeme} {ls more : List Lexeme} {c : Cursor}

/-- Such a row is read over, and the semicolon behind it. -/
theorem RunsOn.skipStatement (h : RunsOn own) (hb : b.token = .semicolon)
    (hc : c.rest = own ++ b :: ls) (start : Span) :
    (Parser.skipStatement start).Meets c fun s c' =>
      s = .other (start.through b.span) ∧ c' = ⟨some b, ls, c.finish⟩ := by
  have hstop (prev : Option Token) : endsStatement prev b = true := by
    rw [endsStatement, hb]
    simp
  have hextent : outerExtent endsStatement none 0 c.rest = own.length := by
    rw [hc, outerExtent_append endsStatement h.balanced
      (fun before l after hown hdepth => h.endsStatement_eq_false hown hdepth), outerExtent,
      if_pos (hstop _), Nat.zero_add]
  refine meets_bind (meets_skip ?_)
  rw [hextent]
  have hrest : (c.advance own.length).rest = b :: ls := by
    rw [rest_advance, hc, List.drop_left]
  have hbump := bump_of_rest hrest
  rw [finish_advance] at hbump
  refine meets_bind (meets_eat (fun _ => ?_) fun hnot => ?_)
  · rw [hbump]
    exact meets_get (meets_pure ⟨rfl, rfl⟩)
  · have hat : (c.advance own.length).isAt .semicolon = true :=
      isAt_iff.mpr (peek_eq_some_iff.mpr ⟨b, ls, hrest, hb⟩)
    rw [hat] at hnot
    cases hnot

theorem atWord_eq_false {w : String} (hc : c.rest = l :: ls) (hw : l.token ≠ .word w) :
    c.atWord w = false := by
  rw [Bool.eq_false_iff]
  intro hat
  obtain ⟨m, ms, hrest, hm⟩ := peek_eq_some_iff.mp (isAt_iff.mp hat)
  rw [hc] at hrest
  exact hw ((List.cons.inj hrest).1 ▸ hm)

/-- What begins like no declaration is read over. -/
theorem Rule.statement_opaque (hc : c.rest = l :: ls) (hat : l.token ≠ .atSign)
    (hwords : ∀ w ∈ modelledWords, l.token ≠ .word w) {post : Statement → Cursor → Prop}
    (h : (Parser.skipStatement c.here).Meets c post) :
    (total Rule.statement).Meets c post := by
  have hword {w : String} (hw : w ∈ modelledWords) : ¬ c.atWord w = true :=
    ne_true_of_eq_false (atWord_eq_false hc (hwords w hw))
  have hno {w : String} {b : Bool} (hw : w ∈ modelledWords) : ¬ (c.atWord w && b) = true := by
    rw [atWord_eq_false hc (hwords w hw)]
    exact Bool.false_ne_true
  have hmodifiers : leadingModifiers {} c.rest = ({}, 0) := by
    rw [hc, leadingModifiers, if_neg hat, if_neg fun h => hwords "declare" (by decide) h.1,
      if_neg fun h => hwords "abstract" (by decide) h.1]
  have hdecorators : decoratorsExtent c.rest = 0 := by
    rw [hc, decoratorsExtent, if_neg hat]
  refine meets_total (meets_get (meets_bind (meets_skip ?_)))
  rw [hdecorators]
  refine meets_get (meets_if_neg (hword (by decide)) (meets_if_neg (hword (by decide)) ?_))
  refine meets_total (meets_bind (meets_taking ?_))
  rw [show leadingModifiers {} (c.advance 0).rest = ({}, 0) from hmodifiers]
  refine meets_get (meets_if_neg (hword (by decide)) (meets_if_neg (hno (by decide))
    (meets_if_neg ?_ (meets_if_neg ?_ h))))
  · show ¬ ((c.atWord "namespace" || c.atWord "module") && c.seesName 1 && !c.newlineBeforeAt 1) =
      true
    rw [atWord_eq_false hc (hwords "namespace" (by decide)),
      atWord_eq_false hc (hwords "module" (by decide))]
    exact Bool.false_ne_true
  · show ¬ (c.atWord "global" && _ && c.sees 1 .openBrace) = true
    rw [atWord_eq_false hc (hwords "global" (by decide))]
    exact Bool.false_ne_true

/-- A row that is read over is one statement in front of those behind its semicolon. -/
theorem RunsOn.statements (h : RunsOn (l :: more)) (hb : b.token = .semicolon)
    (hc : c.rest = l :: more ++ b :: ls) :
    (Rule.total (.statements false) c).1 = .other (c.here.through b.span) ::
      (Rule.total (.statements false) ⟨some b, ls, c.finish⟩).1 := by
  obtain ⟨hat, hwords⟩ := h.opaque_head l rfl
  have hhead : c.rest = l :: (more ++ b :: ls) := hc
  have hne : c.rest ≠ [] := by
    rw [hhead]
    exact List.cons_ne_nil _ _
  obtain ⟨-, hs, hc'⟩ := Rule.statement_opaque hhead hat hwords (h.skipStatement hb hc c.here)
  have hfence : ¬ l.token.IsFence := by
    have hends : endsStatement (lastToken none []) l = false := h.endsStatement_eq_false rfl rfl
    rintro (hbrace | hsemicolon)
    · rw [endsStatement, hbrace] at hends
      simp at hends
    · rw [endsStatement, hsemicolon] at hends
      simp at hends
  have hpeek : c.peek = some l.token := peek_eq_some_iff.mpr ⟨l, _, hhead, rfl⟩
  have hbehind : Rule.behindStatement c = ⟨some b, ls, c.finish⟩ := by
    have hlt : (Rule.total .statement c).2.remaining ≠ c.remaining := by
      rw [hc']
      simp only [remaining, hhead, List.length_cons, List.length_append]
      omega
    show (if _ then _ else _) = _
    rw [if_neg hlt, hc']
  rw [Rule.statements_eq_turn hne, Rule.statementTurn_statement hpeek hfence, hbehind, hs]
  rfl

end RunsOn

-- ── Texts with a statement that is read over ─────────────────────────────────────

/-- The statements of a text behind a semicolon that ends a statement which is read over. -/
theorem statements_behind_opaque {u : String} {ss : List Segment}
    (h : segments (u ++ ";").toList = ss ++ [.semicolon])
    (hruns : RunsOn (tokenize (u ++ ";")).lexemes.dropLast) (t : String) :
    ∃ first ∈ (tokenize (u ++ ";")).lexemes.dropLast.head?,
      parse (u ++ ";\n" ++ t) = .other ⟨first.span.start, (u ++ ";").utf8ByteSize⟩ ::
        mapSpanStatements (Span.shift (u ++ ";\n").utf8ByteSize
          ((u ++ ";\n").toList.count '\n')) (parse t) := by
  obtain ⟨own, b, rest, hown, hb, hstop, hlexemes, hrest⟩ := tokens_behind_semicolon h t
  rw [hown, List.dropLast_concat] at hruns ⊢
  obtain ⟨first, more, rfl⟩ := List.exists_cons_of_ne_nil hruns.ne_nil
  refine ⟨first, rfl, ?_⟩
  -- the first token ends before the text does, and the text ends with the semicolon
  have hspan : first.span.through b.span = ⟨first.span.start, (u ++ ";").utf8ByteSize⟩ := by
    have horder := inOrder_tokenize (u ++ ";")
    rw [hown] at horder
    obtain ⟨-, hlt, hbounds⟩ := horder
    have hle := Lexeme.InOrder.le _ hbounds
    rw [Span.through, hstop, Nat.max_eq_left (by omega)]
  have hhere : (Cursor.start (tokenize (u ++ ";\n" ++ t))).here = first.span :=
    Cursor.here_of_rest hlexemes
  have hread := hruns.statements hb (c := Cursor.start (tokenize (u ++ ";\n" ++ t))) hlexemes
  rw [hhere, hspan] at hread
  exact hread.trans (congrArg _ hrest)

/-- **A statement without declarations is one opaque statement, and disturbs nothing.**  Let the
    tokens in front of a semicolon on a line of its own be balanced, begin like no import, export or
    declaration, and let neither a semicolon nor a line break end a statement among those outside of
    brackets.  Then they are one statement, from the first of them through the semicolon, and the
    statements behind it are those of the second text at their places. -/
theorem parse_reads_over {x : String}
    (hlexed : (segments (x ++ "\n;").toList).getLast? = some .semicolon)
    (hruns : RunsOn (tokenize (x ++ "\n;")).lexemes.dropLast) (t₂ : String) :
    ∃ first ∈ (tokenize (x ++ "\n;")).lexemes.dropLast.head?,
      parse (x ++ "\n;\n" ++ t₂) = .other ⟨first.span.start, (x ++ "\n;").utf8ByteSize⟩ ::
        mapSpanStatements (Span.shift (x ++ "\n;\n").utf8ByteSize
          ((x ++ "\n;\n").toList.count '\n')) (parse t₂) := by
  have hsemicolon : x ++ "\n;" = x ++ "\n" ++ ";" := by rw [String.append_assoc]; rfl
  have hbehind : x ++ "\n;\n" = x ++ "\n" ++ ";\n" := by
    rw [String.append_assoc]
    rfl
  rw [hsemicolon] at hlexed hruns ⊢
  obtain ⟨ss, hss⟩ := List.getLast?_eq_some_iff.mp hlexed
  rw [hbehind]
  exact statements_behind_opaque hss hruns t₂

/-- Words that begin statements, semicolons and line breaks in brackets, and brackets of different
    kinds that close one another, are all read over. -/
theorem parse_reads_over_brackets :
    let x := "const f = [function () \x7b\n  import; export class A \x7b\x7d\n\x7d\n) + class |\n  g"
    let t₂ := "class B \x7b x: A \x7d"
    ∃ first ∈ (tokenize (x ++ "\n;")).lexemes.dropLast.head?,
      parse (x ++ "\n;\n" ++ t₂) = .other ⟨first.span.start, (x ++ "\n;").utf8ByteSize⟩ ::
        mapSpanStatements (Span.shift (x ++ "\n;\n").utf8ByteSize
          ((x ++ "\n;\n").toList.count '\n')) (parse t₂) :=
  parse_reads_over (by decide +kernel) (by decide +kernel) _

end DeclAtlas

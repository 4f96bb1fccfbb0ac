import DeclAtlas.Proofs.Balance
import DeclAtlas.Proofs.DeclarationPrinting
import DeclAtlas.Proofs.TypeReading
import DeclAtlas.Syntax.Grammar.Class

/-!
# Type parameters are read back by their names

Bounds and defaults of type parameters are read over without reading them as types: brackets are
skipped as regions, angle brackets by counting them, and a comma outside of both announces the next
parameter.  So what may stand in a bound is said by which signs stand outside of brackets
(`Woven`); every type that is written is woven without commas (`Canonical.woven`), and the scans
pass it as a whole.

With this the names of type parameters are found where they stand (`typeParams_pieces`).
-/

namespace DeclAtlas

-- ── Rows of brackets and angle brackets ──────────────────────────────────────────

/-- Where tokens stand: alone outside of brackets, in a list outside of brackets, or inside of
    brackets. -/
inductive Ground
  | single
  | list
  | block
deriving DecidableEq, Repr

/-- Tokens that the scans stop at or count. -/
def Ground.refused : Ground → List Token
  | single => [.less, .greater, .semicolon, .comma]
  | list => [.less, .greater, .semicolon]
  | block => []

/-- Every bracket and angle bracket is closed by one of its kind, and outside of them stands nothing
    that the scans stop at. -/
inductive Woven : Ground → List Token → Prop
  | nil {g : Ground} : Woven g []
  | plain {g : Ground} {t : Token} {ts : List Token} : t.opens = false → t.closes = false →
      t ∉ g.refused → Woven g ts → Woven g (t :: ts)
  | group {g : Ground} {o c : Token} {inner ts : List Token} : o.closer? = some c →
      Woven .block inner → Woven g ts → Woven g (o :: (inner ++ c :: ts))
  | angles {g : Ground} {inner ts : List Token} : Woven .list inner → Woven g ts →
      Woven g (.less :: (inner ++ .greater :: ts))

/-- Lexemes for a token, a row, another token and what follows. -/
theorem map_token_eq_group {o c : Token} {inner ts : List Token} {own : List Lexeme}
    (h : own.map Lexeme.token = o :: (inner ++ c :: ts)) :
    ∃ l own₁ l' own₂, own = l :: (own₁ ++ l' :: own₂) ∧ l.token = o ∧
      own₁.map Lexeme.token = inner ∧ l'.token = c ∧ own₂.map Lexeme.token = ts := by
  obtain ⟨l, ls, rfl, hl, hls⟩ := List.map_eq_cons_iff.mp h
  obtain ⟨own₁, ls', rfl, hinner, hls⟩ := List.map_eq_append_iff.mp hls
  obtain ⟨l', own₂, rfl, hl', hown₂⟩ := List.map_eq_cons_iff.mp hls
  exact ⟨l, own₁, l', own₂, rfl, hl, hinner, hl', hown₂⟩

namespace Woven

variable {g g' : Ground} {ts ts' : List Token}

/-- A pair of brackets with nothing inside. -/
theorem pair {o c : Token} (hcloser : o.closer? = some c) (h : Woven g ts) :
    Woven g (o :: c :: ts) := by
  have hgroup : Woven g (o :: ([] ++ c :: ts)) := .group hcloser .nil h
  exact hgroup

theorem append (h : Woven g ts) (h' : Woven g ts') : Woven g (ts ++ ts') := by
  induction h with
  | nil => exact h'
  | plain hopens hcloses hallowed _ ih => exact .plain hopens hcloses hallowed (ih h')
  | group hcloser hinner _ _ ih =>
      rw [List.cons_append, List.append_assoc]
      exact .group hcloser hinner (ih h')
  | angles hinner _ _ ih =>
      rw [List.cons_append, List.append_assoc]
      exact .angles hinner (ih h')

/-- What may stand alone may stand in a list, and anything inside of brackets. -/
theorem mono (h : Woven g ts) (hsub : g'.refused ⊆ g.refused) : Woven g' ts := by
  induction h with
  | nil => exact .nil
  | plain hopens hcloses hallowed _ ih =>
      exact .plain hopens hcloses (fun hmem => hallowed (hsub hmem)) (ih hsub)
  | group hcloser hinner _ _ ih => exact .group hcloser hinner (ih hsub)
  | angles hinner _ _ ih => exact .angles hinner (ih hsub)

/-- A woven row is balanced, since its angle brackets are no brackets. -/
theorem balanced (h : Woven g ts) : ∀ {own : List Lexeme}, own.map Lexeme.token = ts →
    Balanced own := by
  induction h with
  | nil =>
      intro own hown
      rw [List.map_eq_nil_iff.mp hown]
      exact .nil
  | plain hopens hcloses _ _ ih =>
      intro own hown
      obtain ⟨l, ls, rfl, rfl, hls⟩ := List.map_eq_cons_iff.mp hown
      exact .plain hopens hcloses (ih hls)
  | group hcloser _ _ ihinner ih =>
      intro own hown
      obtain ⟨l, inner, l', ls, rfl, rfl, hinner, rfl, hls⟩ := map_token_eq_group hown
      exact .group hcloser (ihinner hinner) (ih hls)
  | angles _ _ ihinner ih =>
      intro own hown
      obtain ⟨l, inner, l', ls, rfl, hl, hinner, hl', hls⟩ := map_token_eq_group hown
      refine .plain (by rw [hl]; rfl) (by rw [hl]; rfl) ((ihinner hinner).append ?_)
      exact .plain (by rw [hl']; rfl) (by rw [hl']; rfl) (ih hls)

end Woven

-- ── Scans over woven rows ────────────────────────────────────────────────────────

/-- Counting angle brackets goes past what closes all that it opens. -/
theorem angleExtent_woven {g : Ground} {ts : List Token} (h : Woven g ts)
    (hg : Ground.list.refused ⊆ g.refused) (a : Nat) :
    ∀ {own : List Lexeme} (rest : List Lexeme), own.map Lexeme.token = ts →
      angleExtent (a + 1) 0 (own ++ rest) = angleExtent (a + 1) 0 rest + own.length := by
  induction h generalizing a with
  | nil =>
      intro own rest hown
      rw [List.map_eq_nil_iff.mp hown]
      rfl
  | plain hopens hcloses hallowed _ ih =>
      intro own rest hown
      obtain ⟨l, ls, rfl, rfl, hls⟩ := List.map_eq_cons_iff.mp hown
      have hnot : l.token ∉ Ground.list.refused := fun hmem => hallowed (hg hmem)
      simp only [Ground.refused, List.mem_cons, List.not_mem_nil, not_or, or_false] at hnot
      have hbrace : l.token ≠ .closeBrace := by
        intro heq
        rw [heq] at hcloses
        cases hcloses
      rw [List.cons_append, angleExtent, if_neg hnot.1, if_neg hnot.2.1, hopens,
        if_neg Bool.false_ne_true, if_neg (by simp [hnot.2.2, hbrace]), ih hg a rest hls]
      rfl
  | group hcloser hinner _ _ ih =>
      intro own rest hown
      obtain ⟨l, inner, l', ls, rfl, rfl, hmap, rfl, hls⟩ := map_token_eq_group hown
      obtain ⟨hcloses, hopens'⟩ := Token.closes_of_closer? hcloser
      have hopens := Token.opens_of_closer? hcloser
      have hless : l.token ≠ .less := by
        intro heq
        rw [heq] at hopens
        cases hopens
      have hgreater : l.token ≠ .greater := by
        intro heq
        rw [heq] at hopens
        cases hopens
      rw [List.cons_append, List.append_assoc, List.cons_append, angleExtent, if_neg hless,
        if_neg hgreater, if_pos hopens, angleExtent_balanced (hinner.balanced hmap), angleExtent,
        hopens', if_neg Bool.false_ne_true, if_pos hcloses, ih hg a rest hls]
      simp only [List.length_cons, List.length_append]
      omega
  | angles _ _ ihinner ih =>
      intro own rest hown
      obtain ⟨l, inner, l', ls, rfl, hl, hmap, hl', hls⟩ := map_token_eq_group hown
      rw [List.cons_append, List.append_assoc, List.cons_append, angleExtent, if_pos hl,
        ihinner (List.Subset.refl _) (a + 1) _ hmap, angleExtent, hl', if_neg (by decide),
        if_pos rfl, if_neg (by omega), Nat.add_sub_cancel, ih hg a rest hls]
      simp only [List.length_cons, List.length_append]
      omega

/-- An angle bracket that is open is closed behind a woven list. -/
theorem angleExtent_angles {inner : List Token} (h : Woven .list inner) {own : List Lexeme}
    {c : Lexeme} (hown : own.map Lexeme.token = inner) (hc : c.token = .greater)
    (rest : List Lexeme) : angleExtent 1 0 (own ++ c :: rest) = own.length + 1 := by
  rw [angleExtent_woven h (List.Subset.refl _) 0 _ hown, angleExtent, hc, if_neg (by decide),
    if_pos rfl, if_pos (by decide)]
  omega

/-- A word where a name is expected is one, unless it could mark the name behind it. -/
theorem typeParamNames_word {l : Lexeme} {w : String} (hl : l.token = .word w)
    (hw : w ∉ ["in", "out", "const"]) (ls : List Lexeme) :
    typeParamNames true (l :: ls) =
      (w :: (typeParamNames false ls).1, (typeParamNames false ls).2 + 1) := by
  have hnot : ["in", "out", "const"].contains w = false := by simpa using hw
  rw [typeParamNames]
  simp only [hl, hnot, Bool.false_and, if_true, Bool.false_eq_true, if_false]

/-- A region of one piece behind an opening token is read over. -/
theorem typeParamNames_region {o c : Lexeme} {inner rest : List Lexeme}
    (h : (o.token.closer? = some c.token ∧ Balanced inner) ∨
      (o.token = .less ∧ angleExtent 1 0 (inner ++ c :: rest) = inner.length + 1)) :
    typeParamNames false (o :: (inner ++ c :: rest)) =
      ((typeParamNames false rest).1, (typeParamNames false rest).2 + (inner.length + 2)) := by
  have hdrop : (inner ++ c :: rest).drop (inner.length + 1) = rest := by
    rw [List.append_cons, ← List.length_concat (a := c), List.concat_eq_append, List.drop_left]
  have hbrackets (hcloser : o.token.closer? = some c.token) (hinner : Balanced inner) :
      bracketExtent 1 (inner ++ c :: rest) = inner.length + 1 := by
    have hgroup : bracketExtent 0 (o :: (inner ++ c :: rest)) = inner.length + 2 :=
      bracketExtent_group hcloser hinner
    rwa [bracketExtent_opens _ (Token.opens_of_closer? hcloser), Nat.add_right_cancel_iff] at hgroup
  rw [typeParamNames]
  rcases h with ⟨hcloser, hinner⟩ | ⟨ho, hextent⟩
  · have hextent := hbrackets hcloser hinner
    cases ho : o.token <;> first
      | (simp only [hextent, hdrop]; rfl)
      | (rw [ho] at hcloser; cases hcloser)
  · simp only [ho, hextent, hdrop]
    rfl

/-- Names are not looked for in what is woven without commas. -/
theorem typeParamNames_woven {ts : List Token} (h : Woven .single ts) :
    ∀ {own : List Lexeme} (rest : List Lexeme), own.map Lexeme.token = ts →
      typeParamNames false (own ++ rest) =
        ((typeParamNames false rest).1, (typeParamNames false rest).2 + own.length) := by
  generalize hg : Ground.single = g at h
  induction h with
  | nil =>
      intro own rest hown
      rw [List.map_eq_nil_iff.mp hown]
      rfl
  | plain hopens hcloses hallowed _ ih =>
      subst hg
      intro own rest hown
      obtain ⟨l, ls, rfl, rfl, hls⟩ := List.map_eq_cons_iff.mp hown
      have hstep : typeParamNames false (l :: (ls ++ rest)) =
          ((typeParamNames false (ls ++ rest)).1, (typeParamNames false (ls ++ rest)).2 + 1) := by
        rw [typeParamNames]
        cases hl : l.token <;> first
          | rfl
          | simp [hl, Token.opens, Ground.refused] at hopens hallowed
      rw [List.cons_append, hstep, ih rfl rest hls]
      rfl
  | group hcloser hinner _ _ ih =>
      subst hg
      intro own rest hown
      obtain ⟨l, inner, l', ls, rfl, rfl, hmap, rfl, hls⟩ := map_token_eq_group hown
      rw [List.cons_append, List.append_assoc, List.cons_append,
        typeParamNames_region (.inl ⟨hcloser, hinner.balanced hmap⟩), ih rfl rest hls]
      simp only [List.length_cons, List.length_append]
      congr 1
      omega
  | angles hinner _ _ ih =>
      subst hg
      intro own rest hown
      obtain ⟨l, inner, l', ls, rfl, hl, hmap, hl', hls⟩ := map_token_eq_group hown
      rw [List.cons_append, List.append_assoc, List.cons_append,
        typeParamNames_region (.inr ⟨hl, angleExtent_angles hinner hmap hl' _⟩), ih rfl rest hls]
      simp only [List.length_cons, List.length_append]
      congr 1
      omega

-- ── Types are woven ──────────────────────────────────────────────────────────────

/-- A dotted name may stand anywhere. -/
theorem woven_dottedPieces (g : Ground) (ws : List String) :
    Woven g (Piece.tokens (dottedPieces ws)) := by
  have hword : ∀ {w : String} {ts : List Token}, Woven g ts → Woven g (.word w :: ts) :=
    fun h => .plain rfl rfl (by cases g <;> simp [Ground.refused]) h
  have hdots : ∀ ws : List String,
      Woven g (Piece.tokens (ws.flatMap fun v => [.dot, .word v])) := by
    intro ws
    induction ws with
    | nil => exact .nil
    | cons w ws ih => exact .plain rfl rfl (by cases g <;> decide) (hword ih)
  cases ws with
  | nil => exact .nil
  | cons w ws => exact hword (hdots ws)

/-- Types between separators are woven where the separators are. -/
theorem woven_typePieces {g : Ground} {sep : List Piece} {ts : List TypeExpr}
    (hsep : Woven g (Piece.tokens sep)) (hts : ∀ t ∈ ts, Woven g (Piece.tokens t.pieces)) :
    Woven g (Piece.tokens (typePieces sep ts)) := by
  refine typePieces_all (P := fun ps => Woven g (Piece.tokens ps)) .nil ?_ hsep hts
  intro ps qs hps hqs
  rw [Piece.tokens_append]
  exact hps.append hqs

/-- Members of a type literal stand inside of braces, where semicolons do not matter. -/
theorem woven_memberPieces {ms : List Member}
    (hms : ∀ m ∈ ms, ∀ t, m.type = some t → Woven .single (Piece.tokens t.pieces)) :
    Woven .block (Piece.tokens (memberPieces ms)) := by
  have hsign : ∀ {t : Token} {ts : List Token}, t.opens = false → t.closes = false →
      Woven .block ts → Woven .block (t :: ts) :=
    fun hopens hcloses h => .plain hopens hcloses List.not_mem_nil h
  induction ms with
  | nil => exact .nil
  | cons m ms ih =>
      obtain ⟨ht, hms'⟩ := List.forall_mem_cons.mp hms
      obtain ⟨kind, name, type, isStatic, optional, span⟩ := m
      have htype : Woven .block (Piece.tokens (annotationPieces type)) := by
        cases type with
        | none => exact .nil
        | some t => exact (ht t rfl).mono (List.nil_subset _)
      have hcolon : Woven .block (Piece.tokens (.sign ':' :: .space ::
          (annotationPieces type ++ [.sign ';', .space]))) := by
        rw [Piece.tokens_cons, Piece.tokens_cons, Piece.tokens_append]
        exact hsign rfl rfl (htype.append (hsign rfl rfl .nil))
      rw [memberPieces, Piece.tokens_append]
      refine .append ?_ (ih hms')
      cases optional with
      | false => exact hsign rfl rfl hcolon
      | true => exact hsign rfl rfl (hsign rfl rfl hcolon)

/-- Every canonical type is woven without commas outside of brackets. -/
theorem Canonical.woven {level : Level} {t : TypeExpr} (h : Canonical level t) :
    Woven .single (Piece.tokens t.pieces) := by
  have hlist {ts : List TypeExpr} (ih : ∀ t ∈ ts, Woven .single (Piece.tokens t.pieces)) :
      Woven .list (Piece.tokens (typePieces commas ts)) :=
    woven_typePieces (.plain rfl rfl (by decide) .nil) fun t ht => (ih t ht).mono (by decide)
  have hblock {ts : List Token} {g : Ground} (h : Woven g ts) : Woven .block ts :=
    h.mono (List.nil_subset _)
  induction h with
  | keyword k => exact .plain rfl rfl (by simp [Ground.refused]) .nil
  | @reference name args _ _ ih =>
      rw [pieces_reference, Piece.tokens_append]
      refine (woven_dottedPieces .single _).append ?_
      cases args with
      | nil => exact .nil
      | cons t ts =>
          rw [argPieces_cons, Piece.tokens_cons, Piece.tokens_append]
          exact .angles (hlist ih) .nil
  | array _ ih =>
      rw [TypeExpr.pieces, Piece.tokens_append]
      exact ih.append (.pair (o := .openBracket) rfl .nil)
  | tuple _ ih =>
      rw [TypeExpr.pieces, Piece.tokens_cons, Piece.tokens_append]
      exact .group (o := .openBracket) rfl (hblock (hlist ih)) .nil
  | literal s => exact .plain rfl rfl (by simp [Ground.refused]) .nil
  | members _ _ ih =>
      rw [TypeExpr.pieces, Piece.tokens_cons, Piece.tokens_cons, Piece.tokens_append]
      exact .group (o := .openBrace) rfl (woven_memberPieces ih) .nil
  | paren _ ih =>
      rw [TypeExpr.pieces, Piece.tokens_cons, Piece.tokens_append]
      exact .group (o := .openParen) rfl (hblock ih) .nil
  | query => exact .plain rfl rfl (by decide) (woven_dottedPieces .single _)
  | ofOperand _ ih => exact ih
  | intersection _ _ ih =>
      rw [TypeExpr.pieces]
      exact woven_typePieces (.plain rfl rfl (by decide) .nil) ih
  | ofIntersection _ ih => exact ih
  | union _ _ ih => exact woven_typePieces (.plain rfl rfl (by decide) .nil) ih
  | ofUnion _ ih => exact ih
  | function =>
      refine .pair (o := .openParen) rfl ?_
      exact .plain rfl rfl (by decide) (.plain rfl rfl (by decide) .nil)

-- ── Type parameters ──────────────────────────────────────────────────────────────

namespace TypeParam

theorem Printable.woven {p : TypeParam} (hp : p.Printable) :
    Woven .single (Piece.tokens (p.boundPieces ++ p.defaultPieces)) := by
  rw [Piece.tokens_append]
  refine .append ?_ ?_
  · unfold boundPieces
    cases hb : p.bound with
    | none => exact .nil
    | some t => exact .plain rfl rfl (by decide) (hp.bound t hb).woven
  · unfold defaultPieces
    cases hd : p.default with
    | none => exact .nil
    | some t => exact .plain rfl rfl (by decide) (hp.default t hd).woven

/-- The name of a parameter is found, and what belongs to it is read over. -/
theorem typeParamNames_pieces {p : TypeParam} (hp : p.Printable) {own : List Lexeme}
    (hown : own.map Lexeme.token = Piece.tokens p.pieces) (rest : List Lexeme) :
    typeParamNames true (own ++ rest) =
      (p.name :: (typeParamNames false rest).1, (typeParamNames false rest).2 + own.length) := by
  obtain ⟨l, ls, rfl, hl, hls⟩ := List.map_eq_cons_iff.mp hown
  rw [List.cons_append, typeParamNames_word hl hp.notVariance,
    typeParamNames_woven hp.woven rest hls]
  rfl

/-- The names of all parameters are found, up to the closing angle bracket. -/
theorem typeParamNames_piecesAfter {params : List TypeParam} (hparams : ∀ p ∈ params, p.Printable)
    {c : Lexeme} (hc : c.token = .greater) (rest : List Lexeme) :
    ∀ {own : List Lexeme}, own.map Lexeme.token = Piece.tokens (piecesAfter params) →
      typeParamNames false (own ++ c :: rest) = (params.map (·.name), own.length + 1) := by
  induction params with
  | nil =>
      intro own hown
      rw [List.map_eq_nil_iff.mp hown, List.nil_append, typeParamNames, hc]
      rfl
  | cons p params ih =>
      intro own hown
      obtain ⟨hp, hparams⟩ := List.forall_mem_cons.mp hparams
      rw [piecesAfter, List.flatMap_cons, List.append_assoc, Piece.tokens_append,
        Piece.tokens_append] at hown
      have hown : own.map Lexeme.token =
        .comma :: (Piece.tokens p.pieces ++ Piece.tokens (piecesAfter params)) := hown
      obtain ⟨l, ls, rfl, hl, hls⟩ := List.map_eq_cons_iff.mp hown
      obtain ⟨own₁, own₂, rfl, hown₁, hown₂⟩ := List.map_eq_append_iff.mp hls
      rw [List.cons_append, List.append_assoc, typeParamNames, hl]
      simp only [typeParamNames_pieces hp hown₁, ih hparams hown₂, List.map_cons, List.length_cons,
        List.length_append]
      congr 1
      omega

end TypeParam

/-- **Type parameters are read back by their names**, whatever their bounds and defaults are. -/
theorem Parser.typeParams_pieces {c : Cursor} {params : List TypeParam} {ps : List Piece}
    (hparams : ∀ p ∈ params, p.Printable) {stops : List Token} (hless : Token.less ∉ stops)
    (hps : Follows stops (Piece.marks false ps))
    (h : c.ahead = Piece.marks false (TypeParam.listPieces params ++ ps)) :
    typeParams.Meets c fun names c' =>
      names = params.map (·.name) ∧ c'.ahead = Piece.marks false ps := by
  cases params with
  | nil =>
      obtain ⟨t, ms, hms, ht⟩ := hps
      have h : c.ahead = Piece.marks false ps := h
      refine meets_bind (meets_eat_neg (h.trans hms) (ne_of_mem_of_not_mem ht hless) ?_)
      exact meets_pure ⟨rfl, h⟩
  | cons p params =>
      obtain ⟨hp, hparams⟩ := List.forall_mem_cons.mp hparams
      rw [TypeParam.listPieces, List.cons_append, List.append_assoc, List.append_assoc,
        List.singleton_append] at h
      refine meets_bind (meets_eat_pos h fun c₁ h₁ => meets_taking ?_)
      have htokens : c₁.rest.map Lexeme.token = Piece.tokens p.pieces ++
          (Piece.tokens (TypeParam.piecesAfter params) ++ .greater :: Piece.tokens ps) := by
        rw [Cursor.map_token_rest, h₁, Piece.map_fst_marks, Piece.tokens_append,
          Piece.tokens_append]
        rfl
      obtain ⟨own₁, ls, hrest, hown₁, hls⟩ := List.map_eq_append_iff.mp htokens
      obtain ⟨own₂, ls, rfl, hown₂, hls⟩ := List.map_eq_append_iff.mp hls
      obtain ⟨l, ls, rfl, hl, -⟩ := List.map_eq_cons_iff.mp hls
      have hnames := TypeParam.typeParamNames_pieces hp hown₁ (own₂ ++ l :: ls)
      rw [TypeParam.typeParamNames_piecesAfter hparams hl ls hown₂] at hnames
      rw [hrest, hnames]
      refine ⟨rfl, ?_⟩
      have hlength : own₂.length + 1 + own₁.length =
          (Piece.tokens (p.pieces ++ TypeParam.piecesAfter params)).length + 1 := by
        rw [Piece.tokens_append, ← hown₁, ← hown₂, List.length_append, List.length_map,
          List.length_map]
        omega
      rw [hlength, Cursor.ahead_advance, h₁, ← List.append_assoc]
      exact Piece.drop_marks false _ (p := .sign '>') (Option.some_ne_none _) ps

end DeclAtlas

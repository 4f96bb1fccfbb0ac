import DeclAtlas.Proofs.Totality
import DeclAtlas.Proofs.TypePrinting

/-!
# Reading types level by level

Where a type ends is decided by the token behind it, and each level of the grammar has its own
tokens that end it (`Level.stops`).  `Rule.ReadsBack` says of a rule that it reads a type back in
front of such tokens.  The parsers are taken without a budget, as `Rule.total`, so nothing is said
here of how much of it they need.

Unions and intersections are read in the same way, which is said once (`IsChain`).  Brackets behind
a type are read after it and in a loop, so for the innermost level it is only said that the brackets
are still ahead (`ReadsBase`).

Nothing here supposes that all types are read back: the lemmas on arguments and elements ask it of
the types that they are about.
-/

namespace DeclAtlas

-- ── What may follow a type ───────────────────────────────────────────────────────

/-- The marks begin with one of the tokens, on the same line. -/
def Follows (stops : List Token) (ms : List Mark) : Prop :=
  ∃ t ms', ms = (t, false) :: ms' ∧ t ∈ stops

/-- Tokens that end a type wherever it stands. -/
def closers : List Token := [.comma, .semicolon, .closeBracket, .closeParen, .greater]

/-- Tokens that end a type of a level. -/
def Level.stops : Level → List Token
  | operand => .ampersand :: .bar :: closers
  | intersection => .bar :: closers
  | union | any => closers

/-- Tokens that end a type without the brackets behind it. -/
def baseStops : List Token := .openBracket :: Level.operand.stops

namespace Follows

variable {stops stops' : List Token} {ms : List Mark}

theorem mono (h : Follows stops ms) (hsub : stops ⊆ stops') : Follows stops' ms := by
  obtain ⟨t, ms', hms, ht⟩ := h
  exact ⟨t, ms', hms, hsub ht⟩

/-- None of the tokens behind a type makes a label of it. -/
theorem noLabel (h : Follows stops ms) (hsub : stops ⊆ baseStops) : NoLabel ms := by
  obtain ⟨t, ms', hms, ht⟩ := h
  exact ⟨_, ms', hms, ne_of_mem_of_not_mem (hsub ht) (by decide),
    ne_of_mem_of_not_mem (hsub ht) (by decide)⟩

end Follows

-- ── Names ────────────────────────────────────────────────────────────────────────

/-- Words that points are put between make up the name that they were taken from. -/
theorem foldl_nameWords {name w : String} {ws : List String} (h : nameWords name = w :: ws) :
    ws.foldl (fun name part => name ++ "." ++ part) w = name := by
  have hfold : ∀ (ws : List String) (w : String),
      (ws.foldl (fun name part => name ++ "." ++ part) w).toList =
        Text.joinWith '.' (w.toList :: ws.map String.toList) := by
    intro ws
    induction ws with
    | nil => intro w; rfl
    | cons v ws ih =>
        intro w
        rw [List.foldl_cons, ih]
        cases ws with
        | nil => simp [Text.joinWith]
        | cons u ws => simp [Text.joinWith]
  have hwords : (w :: ws).map String.toList = Text.pieces (· == '.') name.toList := by
    rw [← h, nameWords, List.map_map]
    exact List.map_id'' (fun _ => String.toList_ofList) _
  rw [← String.toList_inj, hfold, ← List.map_cons, hwords, Text.joinWith_pieces]

/-- The words of a dotted name are read up to where no point follows. -/
theorem qualifiers_dots {ps : List Piece} {t : Token} {fresh : Bool} {ms : List Mark}
    (hps : Piece.marks false ps = (t, fresh) :: ms) (ht : t ≠ .dot) :
    ∀ {ws : List String} {ls : List Lexeme},
      ls.map Lexeme.mark = Piece.marks false ((ws.flatMap fun v => [.dot, .word v]) ++ ps) →
      qualifiers ls = ws ∧ (ls.drop (2 * ws.length)).map Lexeme.mark = Piece.marks false ps
  | [], ls, h => by
      obtain ⟨l, ls', rfl, hl, -, -⟩ := map_mark_eq_cons (h.trans hps)
      refine ⟨?_, h⟩
      cases ls' with
      | nil => rfl
      | cons l' ls' => simp [qualifiers, hl, ht]
  | v :: ws, ls, h => by
      obtain ⟨l, ls', rfl, hl, -, h⟩ := map_mark_eq_cons h
      obtain ⟨l', ls', rfl, hl', -, h⟩ := map_mark_eq_cons h
      obtain ⟨hws, hrest⟩ := qualifiers_dots hps ht h
      refine ⟨?_, ?_⟩
      · simp [qualifiers, hl, hl', hws]
      · exact hrest

namespace Parser

variable {c : Cursor} {ps : List Piece}

theorem dottedName_pieces {name : String} {t : Token} {fresh : Bool} {ms : List Mark}
    (h : c.ahead = Piece.marks false (dottedPieces (nameWords name) ++ ps))
    (hps : Piece.marks false ps = (t, fresh) :: ms) (ht : t ≠ .dot) :
    dottedName.Meets c fun name' c' => name' = name ∧ c'.ahead = Piece.marks false ps := by
  obtain ⟨w, ws, hwords, hmarks⟩ := marks_dottedPieces name ps
  refine meets_bind (meets_takeIf_pos (h.trans hmarks) rfl fun c₁ h₁ => ?_)
  obtain ⟨hws, hrest⟩ := qualifiers_dots hps ht h₁
  refine meets_bind (meets_taking (meets_pure ⟨?_, ?_⟩))
  · rw [hws]
    exact foldl_nameWords hwords
  · rw [hws, Cursor.ahead, Cursor.rest_advance]
    exact hrest

/-- There is a token ahead where something follows. -/
theorem remaining_pos {stops : List Token} {own ps : List Piece}
    (h : c.ahead = Piece.marks false (own ++ ps)) (hps : Follows stops (Piece.marks false ps)) :
    0 < c.remaining := by
  obtain ⟨t, ms, hms, -⟩ := hps
  have htokens := Piece.map_fst_marks false ps
  rw [Cursor.remaining_eq_length, h, Piece.length_marks, Piece.tokens_append, ← htokens, hms]
  simp only [List.length_append, List.length_map, List.length_cons]
  omega

/-- Behind a type another token is next than at its start. -/
theorem moved_past {level : Level} {t : TypeExpr} {stops : List Token} {c' : Cursor}
    (ht : Canonical level t) (h : c.ahead = Piece.marks false (t.pieces ++ ps))
    (hps : Follows stops (Piece.marks false ps)) (hsub : stops ⊆ Level.operand.stops)
    (hlead : c.LeadsTo c') (h' : c'.ahead = Piece.marks false ps) :
    c'.remaining < c.remaining := by
  obtain ⟨t₀, ms, hms, hstarts, -⟩ := ht.opensType (hps.noLabel fun x hx =>
    List.mem_cons_of_mem _ (hsub hx))
  obtain ⟨t₁, ms', hms', hstop⟩ := hps
  refine hlead.remaining_lt fun heq => ?_
  obtain rfl : t₁ = t₀ := by simpa [h', h, hms, hms'] using heq
  have hnone : ∀ t ∈ Level.operand.stops, t.startsType = false := by decide
  rw [hnone t₁ (hsub hstop)] at hstarts
  exact nomatch hstarts

end Parser

/-- Behind a type stands the sign of a further part, or what ends them all. -/
theorem follows_piecesAfter {ps : List Piece} {sign : Char} {stops : List Token}
    (ts : List TypeExpr) (hps : Follows stops (Piece.marks false ps)) :
    Follows (loneToken sign :: stops)
      (Piece.marks false (piecesAfter (spaced sign) ts ++ ps)) := by
  cases ts with
  | nil => exact hps.mono (List.subset_cons_self ..)
  | cons t ts => exact ⟨_, _, rfl, List.mem_cons_self ..⟩

/-- What follows an element of a list that ends with one of the closers. -/
theorem follows_commas {ps : List Piece} (ts : List TypeExpr)
    (hps : Follows closers (Piece.marks false ps)) :
    Follows closers (Piece.marks false (piecesAfter commas ts ++ ps)) := by
  cases ts with
  | nil => exact hps
  | cons t ts => exact ⟨_, _, rfl, List.mem_cons_self ..⟩

namespace Rule

open DeclAtlas.Parser

variable {c : Cursor} {ps : List Piece}

-- ── Reading back ─────────────────────────────────────────────────────────────────

/-- A type that stands in front of one of the tokens `stops` is read back by the rule. -/
def ReadsBack (r : Rule TypeExpr) (stops : List Token) (t : TypeExpr) : Prop :=
  ∀ {c : Cursor} {ps : List Piece}, c.ahead = Piece.marks false (t.pieces ++ ps) →
    Follows stops (Piece.marks false ps) →
    Meets (total r) c fun t' c' =>
      t'.mapSpan .unplaced = t.mapSpan .unplaced ∧ c'.ahead = Piece.marks false ps

/-- What is read back in front of some tokens is so in front of fewer. -/
theorem ReadsBack.mono {r : Rule TypeExpr} {stops stops' : List Token} {t : TypeExpr}
    (h : r.ReadsBack stops' t) (hsub : stops ⊆ stops') : r.ReadsBack stops t :=
  fun hc hps => h hc (hps.mono hsub)

-- ── Unions and intersections ─────────────────────────────────────────────────────

/-- The rule `whole` reads parts by `part` with a sign between them, the further ones by `rest`, and
    makes a type of several parts by `wrap`. -/
structure IsChain (part whole : Rule TypeExpr) (rest : Rule (List TypeExpr))
    (wrap : List TypeExpr → TypeExpr) (sign : Char) : Prop where
  whole_eq (call : Callees) : whole.body call = chainBody call (loneToken sign) part rest wrap
  rest_eq (call : Callees) : rest.body call = chainRestBody call (loneToken sign) part rest
  pieces_eq (ts : List TypeExpr) : (wrap ts).pieces = typePieces (spaced sign) ts
  mapSpan_eq (ts : List TypeExpr) (f : Span → Span) :
    (wrap ts).mapSpan f = wrap (mapSpanTypes f ts)
  not_starts : (loneToken sign).startsType = false

/-- Intersections are chains of operands. -/
theorem intersection_isChain :
    IsChain postfixType intersectionType intersectionRest .intersection '&' where
  whole_eq _ := rfl
  rest_eq _ := rfl
  pieces_eq _ := by rw [TypeExpr.pieces]
  mapSpan_eq _ _ := by rw [TypeExpr.mapSpan]
  not_starts := rfl

/-- Unions are chains of intersections. -/
theorem union_isChain : IsChain intersectionType unionType unionRest .union '|' where
  whole_eq _ := rfl
  rest_eq _ := rfl
  pieces_eq _ := by rw [TypeExpr.pieces]
  mapSpan_eq _ _ := by rw [TypeExpr.mapSpan]
  not_starts := rfl

namespace IsChain

variable {part whole : Rule TypeExpr} {rest : Rule (List TypeExpr)}
  {wrap : List TypeExpr → TypeExpr} {sign : Char} {stops : List Token}
  {post : TypeExpr → Cursor → Prop} {posts : List TypeExpr → Cursor → Prop}

/-- The rule of the whole does what chains do. -/
theorem meets_whole (hchain : IsChain part whole rest wrap sign)
    (h : (chainBody total (loneToken sign) part rest wrap).Meets c post) :
    Meets (total whole) c post :=
  meets_total (hchain.whole_eq total ▸ h)

/-- The rule of further parts does what further parts of chains do. -/
theorem meets_rest (hchain : IsChain part whole rest wrap sign)
    (h : (chainRestBody total (loneToken sign) part rest).Meets c posts) :
    Meets (total rest) c posts :=
  meets_total (hchain.rest_eq total ▸ h)

/-- Parts that stand behind a sign each. -/
theorem rest_pieces (hchain : IsChain part whole rest wrap sign) (hsign : loneToken sign ∉ stops)
    {ts : List TypeExpr} (hts : ∀ t ∈ ts, part.ReadsBack (loneToken sign :: stops) t) :
    ∀ {c : Cursor} {ps : List Piece},
      c.ahead = Piece.marks false (piecesAfter (spaced sign) ts ++ ps) →
      Follows stops (Piece.marks false ps) →
      Meets (total rest) c fun ts' c' =>
        mapSpanTypes .unplaced ts' = mapSpanTypes .unplaced ts ∧
          c'.ahead = Piece.marks false ps := by
  induction ts with
  | nil =>
      intro c ps h hps
      obtain ⟨t, ms, hms, ht⟩ := hps
      exact hchain.meets_rest (meets_bind (meets_eat_neg (h.trans hms)
        (ne_of_mem_of_not_mem ht hsign) (meets_pure ⟨rfl, h⟩)))
  | cons t ts ih =>
      intro c ps h hps
      obtain ⟨ht, hts⟩ := List.forall_mem_cons.mp hts
      rw [piecesAfter, List.append_assoc, List.append_assoc] at h
      refine hchain.meets_rest (meets_bind (meets_eat_pos h fun c₁ h₁ => ?_))
      refine meets_bind ((ht h₁ (follows_piecesAfter ts hps)).mono ?_)
      rintro t' c₂ - ⟨ht', h₂⟩
      refine meets_bind ((ih hts h₂ hps).mono ?_)
      rintro ts' c₃ - ⟨hts', h₃⟩
      exact meets_pure ⟨by rw [mapSpanTypes, mapSpanTypes, ht', hts'], h₃⟩

/-- The sign of a chain may stand in front of the first part, but was not written there. -/
theorem eat_sign (hchain : IsChain part whole rest wrap sign) {level : Level} {t : TypeExpr}
    (ht : Canonical level t) (h : c.ahead = Piece.marks false (t.pieces ++ ps))
    (hps : NoLabel (Piece.marks false ps)) :
    (eat (loneToken sign)).Meets c fun _ c' => c' = c := by
  obtain ⟨t₀, ms, hms, hfirst, -⟩ := ht.opensType hps
  refine meets_eat_neg (h.trans hms) ?_ rfl
  rintro rfl
  rw [hchain.not_starts] at hfirst
  exact nomatch hfirst

/-- A single part is read by the rule of the whole as well. -/
theorem single (hchain : IsChain part whole rest wrap sign) (hsign : loneToken sign ∉ stops)
    (hsub : stops ⊆ baseStops) {level : Level} {t : TypeExpr} (hcanonical : Canonical level t)
    (ht : part.ReadsBack stops t) : whole.ReadsBack stops t := by
  intro c ps h hps
  refine hchain.meets_whole (meets_bind
    ((hchain.eat_sign hcanonical h (hps.noLabel hsub)).mono ?_))
  rintro _ _ - rfl
  refine meets_bind ((ht h hps).mono ?_)
  rintro t' c₁ - ⟨ht', h₁⟩
  obtain ⟨t₁, ms', hms', hstop⟩ := hps
  have hother : ¬ c₁.isAt (loneToken sign) = true := by
    simp [h₁, hms', ne_of_mem_of_not_mem hstop hsign]
  exact meets_get (meets_if_neg hother (meets_pure ⟨ht', h₁⟩))

/-- Several parts are read as a chain of them. -/
theorem several (hchain : IsChain part whole rest wrap sign) (hsign : loneToken sign ∉ stops)
    (hsub : loneToken sign :: stops ⊆ Level.operand.stops) {level : Level} {ts : List TypeExpr}
    (hlength : 2 ≤ ts.length) (hcanonical : ∀ t ∈ ts, Canonical level t)
    (hts : ∀ t ∈ ts, part.ReadsBack (loneToken sign :: stops) t) :
    whole.ReadsBack stops (wrap ts) := by
  intro c ps h hps
  rcases ts with _ | ⟨t, _ | ⟨u, ts⟩⟩
  · exact absurd hlength (by simp)
  · exact absurd hlength (by simp)
  obtain ⟨ht, hts⟩ := List.forall_mem_cons.mp hts
  obtain ⟨ht₀, -⟩ := List.forall_mem_cons.mp hcanonical
  have hmore : Follows (loneToken sign :: stops) _ := follows_piecesAfter (u :: ts) hps
  have hlabel := hmore.noLabel (List.subset_cons_of_subset _ hsub)
  rw [hchain.pieces_eq, typePieces, List.append_assoc] at h
  refine hchain.meets_whole (meets_bind ((hchain.eat_sign ht₀ h hlabel).mono ?_))
  rintro _ _ - rfl
  refine meets_bind ((ht h hmore).mono ?_)
  rintro t' c₁ - ⟨ht', h₁⟩
  refine meets_get (meets_if_pos (by simp [h₁, piecesAfter, spaced, Piece.marks]) ?_)
  refine meets_bind ((hchain.rest_pieces hsign hts h₁ hps).mono ?_)
  rintro ts' c₂ - ⟨hts', h₂⟩
  refine meets_pure ⟨?_, h₂⟩
  rw [hchain.mapSpan_eq, hchain.mapSpan_eq, mapSpanTypes, ht', hts']
  rfl

end IsChain

/-- A union is read back where a whole type may stand: no condition follows it. -/
theorem readsBack_typeExpr {t : TypeExpr} (ht : unionType.ReadsBack closers t) :
    typeExpr.ReadsBack closers t := by
  intro c ps h hps
  refine meets_total (meets_bind ((ht h hps).mono ?_))
  rintro t' c₁ - ⟨ht', h₁⟩
  obtain ⟨t₀, ms, hms, hstop⟩ := hps
  have hextends : t₀ ≠ .word "extends" := ne_of_mem_of_not_mem hstop (by decide)
  exact meets_get (meets_if_neg (by simp [h₁, hms, hextends]) (meets_pure ⟨ht', h₁⟩))

-- ── Arrays ───────────────────────────────────────────────────────────────────────

/-- A type with a number of empty pairs of brackets behind it. -/
def arrays : Nat → TypeExpr → TypeExpr
  | 0, t => t
  | k + 1, t => arrays k (.array t)

theorem arrays_succ (k : Nat) (t : TypeExpr) : arrays (k + 1) t = .array (arrays k t) := by
  induction k generalizing t with
  | zero => rfl
  | succ k ih => exact ih (.array t)

/-- Empty pairs of brackets. -/
def brackets : Nat → List Piece
  | 0 => []
  | k + 1 => .sign '[' :: .sign ']' :: brackets k

theorem brackets_append (k : Nat) (ps : List Piece) :
    brackets k ++ .sign '[' :: .sign ']' :: ps = brackets (k + 1) ++ ps := by
  induction k with
  | zero => rfl
  | succ k ih => rw [brackets, List.cons_append, List.cons_append, ih]; rfl

/-- Pairs of brackets behind a type are read as so many arrays. -/
theorem bracketSuffixes_brackets {ps : List Piece} {m : Mark} {ms : List Mark}
    (hps : Piece.marks false ps = m :: ms) (hm : m.1 ≠ .openBracket) :
    ∀ (k : Nat) {t : TypeExpr} {ls : List Lexeme},
      ls.map Lexeme.mark = Piece.marks false (brackets k ++ ps) →
      (bracketSuffixes t ls).1 = arrays k t ∧
        (ls.drop (bracketSuffixes t ls).2).map Lexeme.mark = Piece.marks false ps
  | 0, t, ls, h => by
      obtain ⟨l, ls, rfl, hl, -, -⟩ := map_mark_eq_cons (t := m.1) (h.trans hps)
      have hne : l.token ≠ .openBracket := by rwa [hl]
      rw [bracketSuffixes, if_neg fun hbracket => hne hbracket.1]
      exact ⟨rfl, h⟩
  | k + 1, t, ls, h => by
      obtain ⟨l, ls, rfl, hl, hfresh, h⟩ := map_mark_eq_cons h
      obtain ⟨l', ls, rfl, hl', -, h⟩ := map_mark_eq_cons h
      obtain ⟨htype, hrest⟩ := bracketSuffixes_brackets hps hm k (t := .array t) h
      have hopen : l.token = .openBracket := hl
      have hclose : l'.token = .closeBracket := hl'
      rw [bracketSuffixes, if_pos ⟨hopen, hfresh⟩, List.head?_cons, Option.map_some, hclose,
        if_pos rfl]
      exact ⟨htype, hrest⟩

/-- A type that stands in front of one of the tokens `stops` is read back up to the brackets behind
    it. -/
def ReadsBase (stops : List Token) (t : TypeExpr) : Prop :=
  ∀ {c : Cursor} {ps : List Piece}, c.ahead = Piece.marks false (t.pieces ++ ps) →
    Follows stops (Piece.marks false ps) →
    Meets (total primaryType) c fun t' c' => ∃ k,
      (arrays k t').mapSpan .unplaced = t.mapSpan .unplaced ∧
        c'.ahead = Piece.marks false (brackets k ++ ps)

/-- With the brackets behind it, the whole type is read. -/
theorem readsBack_postfixType {stops stops' : List Token} (hbase : stops ⊆ stops')
    (hsub : stops ⊆ Level.operand.stops) {t : TypeExpr} (ht : ReadsBase stops' t) :
    postfixType.ReadsBack stops t := by
  intro c ps h hps
  refine meets_total (meets_bind ((ht h (hps.mono hbase)).mono ?_))
  rintro t' c₁ - ⟨k, ht', h₁⟩
  obtain ⟨t₀, ms, hms, hstop⟩ := hps
  obtain ⟨htype, hrest⟩ := bracketSuffixes_brackets hms
    (ne_of_mem_of_not_mem (hsub hstop) (by decide)) k h₁
  refine meets_taking ⟨by rw [htype, ht'], ?_⟩
  rw [Cursor.ahead, Cursor.rest_advance]
  exact hrest

/-- Of an array the element is read, and its brackets stay ahead. -/
theorem primaryType_array {t : TypeExpr} (ht : ReadsBase baseStops t)
    (h : c.ahead = Piece.marks false ((TypeExpr.array t).pieces ++ ps)) :
    Meets (total primaryType) c fun t' c' => ∃ k,
      (arrays k t').mapSpan .unplaced = (TypeExpr.array t).mapSpan .unplaced ∧
        c'.ahead = Piece.marks false (brackets k ++ ps) := by
  rw [TypeExpr.pieces, List.append_assoc] at h
  refine (ht h ⟨_, _, rfl, List.mem_cons_self ..⟩).mono ?_
  rintro t' c₁ - ⟨k, ht', h₁⟩
  refine ⟨k + 1, ?_, ?_⟩
  · rw [arrays_succ, TypeExpr.mapSpan, TypeExpr.mapSpan, ht']
  · rw [h₁]
    exact congrArg (Piece.marks false) (brackets_append k ps)

/-- An array of what is read back is read back. -/
theorem readsBase_array {t : TypeExpr} (ht : ReadsBase baseStops t) :
    ReadsBase baseStops (.array t) :=
  fun h _ => primaryType_array ht h

-- ── Types that begin with a word ─────────────────────────────────────────────────

/-- A type without brackets behind it. -/
theorem readsBase_of {stops : List Token} {t : TypeExpr} (ht : primaryType.ReadsBack stops t) :
    ReadsBase stops t := by
  intro c ps h hps
  refine (ht h hps).mono ?_
  rintro t' c' - ht'
  exact ⟨0, ht'⟩

/-- A literal type is read from its string. -/
theorem primaryType_literal {s : String}
    (h : c.ahead = Piece.marks false ((TypeExpr.literal s).pieces ++ ps)) :
    Meets (total primaryType) c fun t' c' =>
      t'.mapSpan .unplaced = (TypeExpr.literal s).mapSpan .unplaced ∧
        c'.ahead = Piece.marks false ps := by
  obtain ⟨l, ls, hr, hl, -, -⟩ := map_mark_eq_cons h
  refine meets_total (meets_get ?_)
  simp only [hr, hl]
  exact meets_bind (meets_bump_ahead h fun c' h' => meets_pure ⟨rfl, h'⟩)

theorem readsBase_literal (s : String) : ReadsBase baseStops (.literal s) :=
  readsBase_of fun h _ => primaryType_literal h

/-- A type that begins with a word is read by the rule of words. -/
theorem primaryType_word {w : String} {fresh : Bool} {ms : List Mark}
    {post : TypeExpr → Cursor → Prop} (h : c.ahead = (.word w, fresh) :: ms)
    (hw : Meets (total (wordType w)) c post) : Meets (total primaryType) c post := by
  obtain ⟨l, ls, hr, hl, -, -⟩ := map_mark_eq_cons h
  refine meets_total (meets_get ?_)
  simp only [hr, hl]
  exact hw

/-- A word that is the start of no other form is a keyword or begins a name. -/
theorem wordType_plain {w : String} {m m' : Mark} {ms : List Mark}
    {post : TypeExpr → Cursor → Prop} (hw : w ∉ formWords) (h : c.ahead = m :: m' :: ms)
    (hnew : w = "abstract" → m'.1 ≠ .word "new") (hparen : m'.1 ≠ .openParen)
    (hkeyword : ∀ k, Keyword.ofWord? w = some k → m'.1 ≠ .dot →
      Meets (do bump; pure (.keyword k)) c post)
    (hreference : (Keyword.ofWord? w ≠ none → m'.1 = .dot) →
      Meets (total referenceType) c post) :
    Meets (total (wordType w)) c post := by
  simp only [formWords, List.mem_cons, List.not_mem_nil, not_or, or_false] at hw
  obtain ⟨htypeof, hkeyof, hunique, hreadonly, hinfer, hnewWord, htrue, hfalse⟩ := hw
  refine meets_total (meets_get ?_)
  rw [if_neg htypeof, if_neg (by simp [hkeyof, hunique]), if_neg hreadonly, if_neg hinfer,
    if_neg hnewWord, if_neg (by simpa [h] using hnew), if_neg (by simp [h, hparen]),
    if_neg (by simp [htrue, hfalse])]
  cases hword : Keyword.ofWord? w with
  | none => exact hreference (absurd hword)
  | some k =>
      by_cases hdot : m'.1 = .dot
      · exact meets_if_pos (by simp [h, hdot]) (hreference fun _ => hdot)
      · exact meets_if_neg (by simp [h, hdot]) (hkeyword k hword hdot)

/-- A keyword is read as one, where no point makes a name of it. -/
theorem primaryType_keyword {k : Keyword} {m : Mark} {ms : List Mark}
    (h : c.ahead = Piece.marks false ((TypeExpr.keyword k).pieces ++ ps))
    (hps : Piece.marks false ps = m :: ms) (hdot : m.1 ≠ .dot) (hparen : m.1 ≠ .openParen) :
    Meets (total primaryType) c fun t' c' =>
      t'.mapSpan .unplaced = (TypeExpr.keyword k).mapSpan .unplaced ∧
        c'.ahead = Piece.marks false ps := by
  have h' : c.ahead = (.word k.word, false) :: m :: ms := by
    rw [h, ← hps]
    rfl
  have hword : k.word ∉ formWords := by cases k <;> decide
  have hnew : k.word ≠ "abstract" := by cases k <;> decide
  refine primaryType_word h (wordType_plain hword h' (absurd · hnew) hparen ?_ ?_)
  · intro k' hk' _
    obtain rfl : k = k' := Option.some.inj (k.ofWord?_word.symm.trans hk')
    exact meets_bind (meets_bump_ahead h fun c₁ h₁ => meets_pure ⟨rfl, h₁⟩)
  · intro hname
    refine absurd (hname ?_) hdot
    rw [Keyword.ofWord?_word]
    exact Option.some_ne_none k

theorem readsBase_keyword (k : Keyword) : ReadsBase baseStops (.keyword k) := by
  refine readsBase_of fun h hps => ?_
  obtain ⟨t, ms, hms, hstop⟩ := hps
  exact primaryType_keyword h hms (ne_of_mem_of_not_mem hstop (by decide))
    (ne_of_mem_of_not_mem hstop (by decide))

/-- Behind `typeof` stands a name, which does not begin like an imported type. -/
theorem primaryType_query {name : String} (hname : IsValueName name) {m : Mark} {ms : List Mark}
    (h : c.ahead = Piece.marks false ((TypeExpr.query name).pieces ++ ps))
    (hps : Piece.marks false ps = m :: ms) (hdot : m.1 ≠ .dot) (hless : m.1 ≠ .less) :
    Meets (total primaryType) c fun t' c' =>
      t'.mapSpan .unplaced = (TypeExpr.query name).mapSpan .unplaced ∧
        c'.ahead = Piece.marks false ps := by
  refine primaryType_word h (meets_total (meets_get (meets_if_pos rfl ?_)))
  refine meets_bind (meets_bump_ahead h fun c₁ h₁ => meets_get ?_)
  have h₁ : c₁.ahead = Piece.marks false (dottedPieces (nameWords name) ++ ps) := h₁
  obtain ⟨w, ws, hwords, hmarks⟩ := marks_dottedPieces name ps
  have himport : w ≠ "import" := hname.first w (by simp [hwords])
  refine meets_if_neg (by simp [h₁, hmarks, himport]) ?_
  refine meets_bind ((dottedName_pieces h₁ hps hdot).mono ?_)
  rintro _ c₂ - ⟨rfl, h₂⟩
  exact meets_get (meets_if_neg (by simp [h₂, hps, hless]) (meets_pure ⟨rfl, h₂⟩))

/-- The query of a name is read back. -/
theorem readsBase_query {name : String} (hname : IsValueName name) :
    ReadsBase baseStops (.query name) := by
  refine readsBase_of fun h hps => ?_
  obtain ⟨t, ms, hms, hstop⟩ := hps
  exact primaryType_query hname h hms (ne_of_mem_of_not_mem hstop (by decide))
    (ne_of_mem_of_not_mem hstop (by decide))

-- ── Lists of types ───────────────────────────────────────────────────────────────

/-- Arguments between commas, through the closing bracket. -/
theorem typeArgs_pieces {args : List TypeExpr} (hargs : ∀ t ∈ args, Canonical .any t)
    (hread : ∀ t ∈ args, typeExpr.ReadsBack closers t) :
    ∀ {c : Cursor} {ps : List Piece},
      c.ahead = Piece.marks false (typePieces commas args ++ .sign '>' :: ps) →
      Meets (total typeArgs) c fun ts c' =>
        mapSpanTypes .unplaced ts = mapSpanTypes .unplaced args ∧
          c'.ahead = Piece.marks false ps := by
  induction args with
  | nil =>
      intro c ps h
      exact meets_total (meets_bind (meets_eat_pos h fun c₁ h₁ => meets_pure ⟨rfl, h₁⟩))
  | cons t ts ih =>
      intro c ps h
      obtain ⟨ht, hargs⟩ := List.forall_mem_cons.mp hargs
      obtain ⟨htread, hread⟩ := List.forall_mem_cons.mp hread
      rw [typePieces, List.append_assoc] at h
      have hend : Follows closers (Piece.marks false (.sign '>' :: ps)) :=
        ⟨_, _, rfl, by decide⟩
      have hmore := follows_commas ts hend
      obtain ⟨t₀, ms, hms, hstarts, -⟩ := ht.opensType (hmore.noLabel (by decide))
      have hgreater : t₀ ≠ .greater := by
        rintro rfl
        exact Bool.false_ne_true hstarts
      refine meets_total (meets_bind (meets_eat_neg (h.trans hms) hgreater (meets_get ?_)))
      refine meets_if_neg (Nat.ne_of_gt (remaining_pos h hmore)) ?_
      refine meets_bind ((htread h hmore).mono ?_)
      rintro t' c₁ - ⟨ht', h₁⟩
      cases ts with
      | nil =>
          refine meets_bind (meets_eat_neg h₁ Token.noConfusion ?_)
          refine meets_bind (meets_eat_pos h₁ fun c₂ h₂ => meets_pure ⟨?_, h₂⟩)
          simp only [mapSpanTypes, ht']
      | cons u ts =>
          refine meets_bind (meets_eat_pos h₁ fun c₂ h₂ => ?_)
          refine meets_bind ((ih hargs hread h₂).mono ?_)
          rintro ts' c₃ - ⟨hts', h₃⟩
          refine meets_pure ⟨?_, h₃⟩
          rw [mapSpanTypes, mapSpanTypes, ht', hts']

/-- A name with its arguments, if what follows goes on with neither. -/
theorem referenceType_pieces {name : String} {args : List TypeExpr}
    (hargs : ∀ t ∈ args, Canonical .any t) (hread : ∀ t ∈ args, typeExpr.ReadsBack closers t)
    (h : c.ahead = Piece.marks false ((TypeExpr.reference name args).pieces ++ ps))
    {m : Mark} {ms : List Mark} (hps : Piece.marks false ps = m :: ms) (hdot : m.1 ≠ .dot)
    (hless : m.1 ≠ .less) :
    Meets (total referenceType) c fun t' c' =>
      t'.mapSpan .unplaced = (TypeExpr.reference name args).mapSpan .unplaced ∧
        c'.ahead = Piece.marks false ps := by
  rw [pieces_reference, List.append_assoc] at h
  obtain ⟨w, ws, hwords, hmarks⟩ := marks_dottedPieces name (argPieces args ++ ps)
  refine meets_total (meets_get (meets_if_pos (by simp [h, hmarks, Token.word?]) ?_))
  cases args with
  | nil =>
      refine meets_bind ((dottedName_pieces h hps hdot).mono ?_)
      rintro _ c₁ - ⟨rfl, h₁⟩
      have h₁ : c₁.ahead = Piece.marks false ps := h₁
      exact meets_get (meets_if_neg (by simp [h₁, hps, hless]) (meets_pure ⟨rfl, h₁⟩))
  | cons t ts =>
      rw [argPieces_cons, List.cons_append, List.append_assoc] at h
      refine meets_bind ((dottedName_pieces h rfl (by decide)).mono ?_)
      rintro _ c₁ - ⟨rfl, h₁⟩
      have hline := Cursor.newlineBefore_eq h₁
      refine meets_get (meets_if_pos (by simp [h₁, hline, Piece.marks, loneToken]) ?_)
      refine meets_bind (meets_bump_ahead h₁ fun c₂ h₂ => ?_)
      refine meets_bind ((typeArgs_pieces hargs hread h₂).mono ?_)
      rintro ts' c₃ - ⟨hts', h₃⟩
      exact meets_pure ⟨by rw [TypeExpr.mapSpan, TypeExpr.mapSpan, hts'], h₃⟩

/-- In front of `new`, the word `abstract` is no name. -/
theorem primaryType_reference {name : String} (hname : IsTypeName name) {args : List TypeExpr}
    (hargs : ∀ t ∈ args, Canonical .any t) (hread : ∀ t ∈ args, typeExpr.ReadsBack closers t)
    (h : c.ahead = Piece.marks false ((TypeExpr.reference name args).pieces ++ ps))
    {m : Mark} {ms : List Mark} (hps : Piece.marks false ps = m :: ms) (hdot : m.1 ≠ .dot)
    (hless : m.1 ≠ .less) (hparen : m.1 ≠ .openParen)
    (hnew : nameWords name = ["abstract"] → args = [] → m.1 ≠ .word "new") :
    Meets (total primaryType) c fun t' c' =>
      t'.mapSpan .unplaced = (TypeExpr.reference name args).mapSpan .unplaced ∧
        c'.ahead = Piece.marks false ps := by
  have href := referenceType_pieces hargs hread h hps hdot hless
  rw [pieces_reference, List.append_assoc] at h
  obtain ⟨w, ws, hwords, hmarks⟩ := marks_dottedPieces name (argPieces args ++ ps)
  have hfirst : w ∉ formWords := hname.first w (by simp [hwords])
  refine primaryType_word (h.trans hmarks) ?_
  cases ws with
  | nil =>
      -- a single word, which is no keyword
      obtain ⟨m', ms', hms', hnew', hparen'⟩ : ∃ m' ms',
          Piece.marks false (argPieces args ++ ps) = m' :: ms' ∧
            (w = "abstract" → m'.1 ≠ .word "new") ∧ m'.1 ≠ .openParen := by
        cases args with
        | nil => exact ⟨m, ms, hps, fun hw => hnew (hw ▸ hwords) rfl, hparen⟩
        | cons t ts => exact ⟨_, _, rfl, fun _ => by decide, by decide⟩
      have h' : c.ahead = (.word w, false) :: m' :: ms' := by
        rw [h, hmarks, List.flatMap_nil, List.nil_append, hms']
      refine wordType_plain hfirst h' hnew' hparen' ?_ fun _ => href
      intro k hk
      rw [hname.single w hwords] at hk
      cases hk
  | cons v ws =>
      -- a point behind the first word, so that it is no keyword here
      have h' : c.ahead = (.word w, false) :: (.dot, false) :: _ := h.trans hmarks
      refine wordType_plain hfirst h' (fun _ => Token.noConfusion) Token.noConfusion ?_
        fun _ => href
      intro _ _ hnodot
      exact absurd rfl hnodot

/-- A reference is read back with its arguments. -/
theorem readsBase_reference {name : String} (hname : IsTypeName name) {args : List TypeExpr}
    (hargs : ∀ t ∈ args, Canonical .any t) (hread : ∀ t ∈ args, typeExpr.ReadsBack closers t) :
    ReadsBase baseStops (.reference name args) := by
  refine readsBase_of fun h hps => ?_
  obtain ⟨t, ms, hms, hstop⟩ := hps
  exact primaryType_reference hname hargs hread h hms
    (ne_of_mem_of_not_mem hstop (by decide)) (ne_of_mem_of_not_mem hstop (by decide))
    (ne_of_mem_of_not_mem hstop (by decide)) fun _ _ => ne_of_mem_of_not_mem hstop (by decide)

/-- One element of a tuple, and the others behind it. -/
theorem tupleElements_element {t : TypeExpr} {ts : List TypeExpr} {own : List Piece}
    (ht : Canonical .any t) (hread : typeExpr.ReadsBack closers t)
    (h : c.ahead = Piece.marks false (t.pieces ++ own))
    (hown : Follows closers (Piece.marks false own))
    (hrest : ∀ c', c'.ahead = Piece.marks false own →
      Meets (total tupleElements) c' fun ts' c'' =>
        mapSpanTypes .unplaced ts' = mapSpanTypes .unplaced ts ∧
          c''.ahead = Piece.marks false ps) :
    Meets (total tupleElements) c fun ts' c' =>
      mapSpanTypes .unplaced ts' = mapSpanTypes .unplaced (t :: ts) ∧
        c'.ahead = Piece.marks false ps := by
  obtain ⟨t₀, ms, hms, hstarts, hlabel⟩ := ht.opensType (hown.noLabel (by decide))
  have h₀ := h.trans hms
  have hother : ¬ c.atTupleLabel = true := by
    cases hword : t₀.word? with
    | none => simp [Cursor.atTupleLabel, h₀, hword]
    | some w =>
        obtain ⟨m, ms', rfl, hcolon, hquestion⟩ := hlabel (by simp [hword])
        simp [Cursor.atTupleLabel, h₀, hcolon, hquestion]
  have hpeek : ∀ x, x.startsType = false → c.peek ≠ some x := by
    intro x hx hsome
    simp only [Cursor.peek_eq, h₀, List.head?_cons, Option.map_some, Option.some.injEq] at hsome
    rw [hsome, hx] at hstarts
    exact nomatch hstarts
  refine meets_total (meets_get ?_)
  -- no sign that the list ends at or reads over begins a type
  split
  · next hnone => simp [h₀] at hnone
  · next hsome => exact absurd hsome (hpeek _ rfl)
  · next hsome => exact absurd hsome (hpeek _ rfl)
  · next hsome => exact absurd hsome (hpeek _ rfl)
  · next hsome => exact absurd hsome (hpeek _ rfl)
  · next hsome => exact absurd hsome (hpeek _ rfl)
  · refine meets_if_neg hother (meets_get ?_)
    refine meets_bind ((hread h hown).mono ?_)
    rintro t' c₁ hlead ⟨ht', h₁⟩
    have hmoved := moved_past ht h hown (by decide) hlead h₁
    obtain ⟨t₁, ms₁, hms₁, hstop⟩ := hown
    refine meets_bind (meets_eat_neg (h₁.trans hms₁) (ne_of_mem_of_not_mem hstop (by decide)) ?_)
    refine meets_get (meets_if_neg (Nat.ne_of_lt hmoved) ?_)
    refine meets_bind ((hrest c₁ h₁).mono ?_)
    rintro ts' c₂ - ⟨hts', h₂⟩
    exact meets_pure ⟨by rw [mapSpanTypes, mapSpanTypes, ht', hts'], h₂⟩

/-- Elements of a tuple that stand behind a comma each. -/
theorem tupleElements_piecesAfter {ts : List TypeExpr} (hts : ∀ t ∈ ts, Canonical .any t)
    (hread : ∀ t ∈ ts, typeExpr.ReadsBack closers t) :
    ∀ {c : Cursor},
      c.ahead = Piece.marks false (piecesAfter commas ts ++ .sign ']' :: ps) →
      Meets (total tupleElements) c fun ts' c' =>
        mapSpanTypes .unplaced ts' = mapSpanTypes .unplaced ts ∧
          c'.ahead = Piece.marks false ps := by
  induction ts with
  | nil =>
      intro c h
      have hpeek : c.peek = some .closeBracket := by simp [h, piecesAfter, Piece.marks, loneToken]
      refine meets_total (meets_get ?_)
      rw [hpeek]
      exact meets_bind (meets_bump_ahead h fun c₁ h₁ => meets_pure ⟨rfl, h₁⟩)
  | cons t ts ih =>
      intro c h
      obtain ⟨ht, hts⟩ := List.forall_mem_cons.mp hts
      obtain ⟨htread, hread⟩ := List.forall_mem_cons.mp hread
      rw [piecesAfter, List.append_assoc, List.append_assoc] at h
      have hpeek : c.peek = some .comma := by simp [h, commas, Piece.marks, loneToken]
      have hend : Follows closers (Piece.marks false (.sign ']' :: ps)) := ⟨_, _, rfl, by decide⟩
      refine meets_total (meets_get ?_)
      rw [hpeek]
      refine meets_bind (meets_bump_ahead h fun c₁ h₁ => ?_)
      exact tupleElements_element ht htread h₁ (follows_commas ts hend) fun c₂ h₂ =>
        ih hts hread h₂

/-- A tuple: its first element stands behind the bracket, the others behind commas. -/
theorem primaryType_tuple {ts : List TypeExpr} (hts : ∀ t ∈ ts, Canonical .any t)
    (hread : ∀ t ∈ ts, typeExpr.ReadsBack closers t)
    (h : c.ahead = Piece.marks false ((TypeExpr.tuple ts).pieces ++ ps)) :
    Meets (total primaryType) c fun t' c' =>
      t'.mapSpan .unplaced = (TypeExpr.tuple ts).mapSpan .unplaced ∧
        c'.ahead = Piece.marks false ps := by
  rw [TypeExpr.pieces, List.cons_append, List.append_assoc] at h
  obtain ⟨l, ls, hr, hl, -, -⟩ := map_mark_eq_cons h
  have hl : l.token = .openBracket := hl
  refine meets_total (meets_get ?_)
  simp only [hr, hl]
  refine meets_bind (meets_bump_ahead h fun c₁ h₁ => ?_)
  have helements : Meets (total tupleElements) c₁ fun ts' c' =>
      mapSpanTypes .unplaced ts' = mapSpanTypes .unplaced ts ∧ c'.ahead = Piece.marks false ps := by
    cases ts with
    | nil => exact tupleElements_piecesAfter hts hread h₁
    | cons t ts =>
        obtain ⟨ht, hts⟩ := List.forall_mem_cons.mp hts
        obtain ⟨htread, hread⟩ := List.forall_mem_cons.mp hread
        have hend : Follows closers (Piece.marks false (.sign ']' :: ps)) := ⟨_, _, rfl, by decide⟩
        rw [typePieces, List.append_assoc] at h₁
        exact tupleElements_element ht htread h₁ (follows_commas ts hend) fun c₂ h₂ =>
          tupleElements_piecesAfter hts hread h₂
  refine meets_bind (helements.mono ?_)
  rintro ts' c₂ - ⟨hts', h₂⟩
  exact meets_pure ⟨by rw [TypeExpr.mapSpan, TypeExpr.mapSpan, hts'], h₂⟩

/-- A tuple is read back with its elements. -/
theorem readsBase_tuple {ts : List TypeExpr} (hts : ∀ t ∈ ts, Canonical .any t)
    (hread : ∀ t ∈ ts, typeExpr.ReadsBack closers t) : ReadsBase baseStops (.tuple ts) :=
  readsBase_of fun h _ => primaryType_tuple hts hread h

end Rule

end DeclAtlas

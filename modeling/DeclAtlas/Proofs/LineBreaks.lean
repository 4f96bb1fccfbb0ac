import DeclAtlas.Proofs.MemberReading

/-!
# Types at the end of a line

In the body of an interface a type may stand at the end of a line, with no sign behind it, and the
next line begins with the name of a member or with the closing brace (`NextLine`).  Whether the type
goes on there is decided form by form: `extends`, `<` and `[` go on with a type only on its own
line, and every other sign that goes on with one begins no line.

Two readers do not ask for line breaks.  Behind a single word `is` makes a predicate, also behind
`void` in a function type, and behind `asserts` so does every word; and `new` goes on with a type
that ends in `abstract`.  There the name on the next line is taken for a part of the type, and
`TypeExpr.runsInto` and `TypeExpr.resultRunsInto` say exactly where that is.

* **`Rule.typeExpr_line`**, **`Rule.resultType_line`** — a canonical type at the end of a line is
  read back, up to the next line, unless it runs into that line; then the reader comes to what
  stands behind the name there.
-/

namespace DeclAtlas

open DeclAtlas.Parser

-- ── Lines ────────────────────────────────────────────────────────────────────────

/-- What stands on the next line, and the token it begins with: a member with a type, or the closing
    brace.  A method is not named `new`. -/
inductive NextLine : Token → List Piece → Prop
  | brace {ps : List Piece} : NextLine .closeBrace (.sign '\x7d' :: ps)
  | member {name : String} {optional callable : Bool} {t : TypeExpr} {ps : List Piece} :
      (name = "new" → callable = false) →
      NextLine (.word name) (.word name :: (signaturePieces optional callable (some t) ++ ps))

/-- The name of a member has been read, and what stands in front of its type is still ahead. -/
def Cursor.AtSignature (c : Cursor) : Prop :=
  ∃ optional callable t ps,
    c.ahead = Piece.marks false (signaturePieces optional callable (some t) ++ ps)

/-- What is next does not go on with a type. -/
def Cursor.EndsType (c : Cursor) : Prop :=
  ∃ m ms, c.ahead = m :: ms ∧ m.1 ∉ [.ampersand, .bar, .openBracket] ∧
    (m.1 = .word "extends" → m.2 = true)

/-- Where a type at the end of a line has been read: if the reader has run on, behind the name on
    the next line; if not, in front of that line, and then the type is read back. -/
def LineEnd (run : Bool) (line : List Piece) (t t' : TypeExpr) (c : Cursor) : Prop :=
  if run then c.AtSignature
  else t'.mapSpan .unplaced = t.mapSpan .unplaced ∧ c.ahead = Piece.marks true line

/-- The same for the last parts of a type. -/
def PartsEnd (run : Bool) (line : List Piece) (ts ts' : List TypeExpr) (c : Cursor) : Prop :=
  if run then c.AtSignature
  else mapSpanTypes .unplaced ts' = mapSpanTypes .unplaced ts ∧ c.ahead = Piece.marks true line

/-- What stands behind the name of a member begins with one of three signs. -/
theorem marks_signature (optional callable : Bool) (t : TypeExpr) (ps : List Piece) :
    ∃ x ms, Piece.marks false (signaturePieces optional callable (some t) ++ ps) =
      (x, false) :: ms ∧ x ∈ [.question, .openParen, .colon] := by
  cases optional with
  | true => exact ⟨_, _, rfl, by decide⟩
  | false => cases callable <;> exact ⟨_, _, rfl, by decide⟩

theorem Cursor.AtSignature.endsType {c : Cursor} (h : c.AtSignature) : c.EndsType := by
  obtain ⟨optional, callable, t, ps, h⟩ := h
  obtain ⟨x, ms, hms, hx⟩ := marks_signature optional callable t ps
  refine ⟨_, _, h.trans hms, fun hmem => ?_, fun hword => ?_⟩
  · have hnot : ∀ x ∈ [Token.ampersand, .bar, .openBracket],
        x ∉ [Token.question, .openParen, .colon] := by decide
    exact hnot x hmem hx
  · obtain rfl : x = .word "extends" := hword
    exact absurd hx (by decide)

namespace NextLine

variable {x : Token} {line : List Piece} (hline : NextLine x line)

include hline

theorem marks_eq : ∃ ms, Piece.marks true line = (x, true) :: ms := by
  cases hline <;> exact ⟨_, rfl⟩

/-- A line begins with a word or a brace. -/
theorem not_mem (ts : List Token) (hts : ∀ t ∈ ts, t.word? = none ∧ t ≠ .closeBrace) : x ∉ ts := by
  intro hmem
  obtain ⟨hword, hbrace⟩ := hts x hmem
  cases hline with
  | brace => exact hbrace rfl
  | member => cases hword

theorem noLabel : NoLabel (Piece.marks false (.lineFeed :: line)) := by
  obtain ⟨ms, hms⟩ := hline.marks_eq
  have hnot := hline.not_mem [.colon, .question] (by decide)
  simp only [List.mem_cons, List.not_mem_nil, not_or, or_false] at hnot
  exact ⟨_, ms, hms, hnot⟩

/-- Whether the reader has run on or not, the type has ended. -/
theorem endsType {run : Bool} {t t' : TypeExpr} {c : Cursor} (h : LineEnd run line t t' c) :
    c.EndsType := by
  cases run with
  | true => exact h.endsType
  | false =>
      obtain ⟨ms, hms⟩ := hline.marks_eq
      exact ⟨_, ms, h.2.trans hms, hline.not_mem _ (by decide), fun _ => rfl⟩

end NextLine

-- ── Running on ───────────────────────────────────────────────────────────────────

mutual

/-- Reading the type goes on on the next line if that begins with `x`. -/
def TypeExpr.runsInto (x : Token) : TypeExpr → Bool
  | .function => x == .word "is"
  | .reference name args => name == "abstract" && args.isEmpty && x == .word "new"
  | .union ts => lastRunsInto x ts
  | .intersection ts => lastRunsInto x ts
  | _ => false

/-- The same for the last part of a type. -/
def lastRunsInto (x : Token) : List TypeExpr → Bool
  | [] => false
  | t :: ts => if ts.isEmpty then t.runsInto x else lastRunsInto x ts

end

mutual

/-- No type runs into the closing brace. -/
theorem TypeExpr.runsInto_closeBrace : ∀ t : TypeExpr, t.runsInto .closeBrace = false
  | .reference _ _ => Bool.and_false _
  | .union ts => lastRunsInto_closeBrace ts
  | .intersection ts => lastRunsInto_closeBrace ts
  | .function | .keyword _ | .array _ | .tuple _ | .literal _ | .members _ | .paren _ | .query _
  | .other => rfl

theorem lastRunsInto_closeBrace : ∀ ts : List TypeExpr, lastRunsInto .closeBrace ts = false
  | [] => rfl
  | t :: ts => by
    rw [lastRunsInto, t.runsInto_closeBrace, lastRunsInto_closeBrace ts, ite_self]

end

/-- Reading the type as a result goes on on the next line if that begins with `x`. -/
def TypeExpr.resultRunsInto (x : Token) (t : TypeExpr) : Bool :=
  t.runsInto x || t.word?.any fun w => x.word?.isSome && (w == "asserts" || x == .word "is")

section Parts

variable {x : Token} {line : List Piece} {t t' u : TypeExpr} {ts ts' : List TypeExpr} {c : Cursor}

/-- A single part ends the line as the row of it does. -/
theorem LineEnd.singleton (h : LineEnd (t.runsInto x) line t t' c) :
    PartsEnd (lastRunsInto x [t]) line [t] [t'] c := by
  rw [lastRunsInto, if_pos List.isEmpty_nil]
  cases hrun : t.runsInto x with
  | true => rwa [hrun] at h
  | false =>
      rw [hrun] at h
      exact ⟨congrArg (· :: []) h.1, h.2⟩

/-- A part that was read back stands in front of others, of which the last one ends the line. -/
theorem PartsEnd.cons (h : PartsEnd (lastRunsInto x (u :: ts)) line (u :: ts) ts' c)
    (ht : t'.mapSpan .unplaced = t.mapSpan .unplaced) :
    PartsEnd (lastRunsInto x (t :: u :: ts)) line (t :: u :: ts) (t' :: ts') c := by
  rw [lastRunsInto, if_neg (by simp)]
  cases hrun : lastRunsInto x (u :: ts) with
  | true => rwa [hrun] at h
  | false =>
      rw [hrun] at h
      exact ⟨congrArg₂ List.cons ht h.1, h.2⟩

end Parts

namespace Rule

variable {c : Cursor} {x : Token} {line ps : List Piece} {t : TypeExpr}

/-- The type is read at the end of a line. -/
def ReadsLine (r : Rule TypeExpr) (x : Token) (line : List Piece) (t : TypeExpr) : Prop :=
  ∀ {c : Cursor}, c.ahead = Piece.marks false (t.pieces ++ .lineFeed :: line) →
    Meets (total r) c (LineEnd (t.runsInto x) line t)

-- ── Operands ─────────────────────────────────────────────────────────────────────

/-- What is no bracket on the same line is not read. -/
theorem postfixType_stop {post : TypeExpr → Cursor → Prop}
    (h : Meets (total primaryType) c fun t' c' => c'.EndsType ∧ post t' c') :
    Meets (total postfixType) c post := by
  refine meets_total (meets_bind (h.mono ?_))
  rintro t' c₁ - ⟨⟨m, ms, h₁, hm, -⟩, hpost⟩
  simp only [List.mem_cons, List.not_mem_nil, not_or, or_false] at hm
  obtain ⟨l, ls, hr, hl, -, -⟩ := map_mark_eq_cons (t := m.1) h₁
  have hbracket : l.token ≠ .openBracket := by
    rw [hl]
    exact hm.2.2
  refine meets_taking ?_
  rw [hr, bracketSuffixes, if_neg fun hopen => hbracket hopen.1]
  exact hpost

/-- The empty pairs of brackets behind a type are read up to the end of the line. -/
theorem postfixType_brackets (hline : NextLine x line)
    (h : Meets (total primaryType) c fun t' c' => ∃ k,
      (arrays k t').mapSpan .unplaced = t.mapSpan .unplaced ∧
        c'.ahead = Piece.marks false (brackets k ++ .lineFeed :: line)) :
    Meets (total postfixType) c (LineEnd false line t) := by
  refine meets_total (meets_bind (h.mono ?_))
  rintro t' c₁ - ⟨k, ht', h₁⟩
  obtain ⟨ms, hms⟩ := hline.marks_eq
  have hms : Piece.marks false (.lineFeed :: line) = (x, true) :: ms := hms
  have hbracket : x ≠ .openBracket := by
    rintro rfl
    exact hline.not_mem [.openBracket] (by decide) (List.mem_singleton_self _)
  obtain ⟨htype, hrest⟩ := bracketSuffixes_brackets hms hbracket k h₁
  refine meets_taking ⟨by rw [htype, ht'], ?_⟩
  rw [Cursor.ahead, Cursor.rest_advance]
  exact hrest

/-- In front of a signature there is no function type. -/
theorem functionType_signature {optional : Bool} {t : TypeExpr}
    (h : c.ahead = Piece.marks false (signaturePieces optional false (some t) ++ ps)) :
    Meets (total functionType) c fun _ c' => c'.AtSignature := by
  obtain ⟨y, ms, hms, hless, hparen, harrow⟩ : ∃ y ms, c.ahead = (y, false) :: ms ∧
      y ≠ .less ∧ y ≠ .openParen ∧ y ≠ .arrow := by
    cases optional <;> exact ⟨_, _, h, by decide, by decide, by decide⟩
  refine meets_total (meets_get (meets_if_neg (by simp [hms, hless]) (meets_get ?_)))
  refine meets_if_neg (by simp [hms, hparen]) (meets_bind (meets_eat_neg hms harrow ?_))
  exact meets_pure ⟨_, _, _, _, h⟩

/-- **The word `abstract` runs into a property named `new`.** -/
theorem primaryType_abstract {fresh fresh' optional : Bool} {t : TypeExpr}
    (h : c.ahead = (.word "abstract", fresh) :: (.word "new", fresh') ::
      Piece.marks false (signaturePieces optional false (some t) ++ ps)) :
    Meets (total primaryType) c fun _ c' => c'.AtSignature := by
  have hfirst : "abstract" ∉ formWords := by decide
  simp only [formWords, List.mem_cons, List.not_mem_nil, not_or, or_false] at hfirst
  obtain ⟨htypeof, hkeyof, hunique, hreadonly, hinfer, hnew, -, -⟩ := hfirst
  have habstract : c.seesWord 1 "new" = true := by simp [h]
  refine primaryType_word h (meets_total (meets_get ?_))
  rw [if_neg htypeof, if_neg (by simp [hkeyof, hunique]), if_neg hreadonly, if_neg hinfer,
    if_neg hnew, if_pos ⟨rfl, habstract⟩]
  refine meets_bind (meets_bump_ahead h fun c₁ h₁ => ?_)
  exact meets_bind (meets_bump_ahead h₁ fun c₂ h₂ => functionType_signature h₂)

/-- An operand at the end of a line is read back, unless it is the word `abstract`. -/
theorem postfixType_line (ht : Canonical .operand t) (hline : NextLine x line) :
    postfixType.ReadsLine x line t := by
  intro c h
  obtain ⟨ms, hms⟩ := hline.marks_eq
  have hms : Piece.marks false (.lineFeed :: line) = (x, true) :: ms := hms
  have hnot := hline.not_mem [.dot, .less, .openParen, .arrow] (by decide)
  simp only [List.mem_cons, List.not_mem_nil, not_or, or_false] at hnot
  obtain ⟨hdot, hless, hparen, harrow⟩ := hnot
  have hplain (hprimary : Meets (total primaryType) c fun t' c' =>
      t'.mapSpan .unplaced = t.mapSpan .unplaced ∧
        c'.ahead = Piece.marks false (.lineFeed :: line)) :
      Meets (total postfixType) c (LineEnd false line t) :=
    postfixType_brackets hline (hprimary.mono fun _ _ _ hread => ⟨0, hread⟩)
  cases ht with
  | keyword k => exact hplain (primaryType_keyword h hms hdot hparen)
  | query hname => exact hplain (primaryType_query hname h hms hdot hless)
  | literal s => exact hplain (primaryType_literal h)
  | @tuple ts hts =>
      have hread : ∀ t ∈ ts, typeExpr.ReadsBack closers t := fun t ht =>
        readsAt_of_canonical (hts t ht)
      exact hplain (primaryType_tuple hts hread h)
  | @members ms' hproperties hts =>
      have hread : ∀ m ∈ ms', ∀ t, m.type = some t → typeExpr.ReadsBack closers t :=
        fun m hm t ht => readsAt_of_canonical (hts m hm t ht)
      exact hplain (primaryType_members hproperties hread h)
  | paren ht => exact hplain (primaryType_paren ht (readsAt_of_canonical ht) h hms harrow)
  | array ht =>
      exact postfixType_brackets hline (primaryType_array (readsAt_of_canonical ht) h)
  | @reference name args hname hargs =>
      cases hrun : (TypeExpr.reference name args).runsInto x with
      | true =>
          simp only [TypeExpr.runsInto, Bool.and_eq_true, beq_iff_eq, List.isEmpty_iff] at hrun
          obtain ⟨⟨rfl, rfl⟩, rfl⟩ := hrun
          have hword : (TypeExpr.reference "abstract" []).word? = some "abstract" := by decide
          rw [TypeExpr.pieces_of_word? hword] at h
          -- the line begins with `new`, so it is a member's, which is no method
          obtain _ | @⟨_, optional, _, t, ps, hcallable⟩ := hline
          obtain rfl := hcallable rfl
          refine postfixType_stop ((primaryType_abstract h).mono ?_)
          exact fun _ _ _ hsignature => ⟨hsignature.endsType, hsignature⟩
      | false =>
          have hread : ∀ t ∈ args, typeExpr.ReadsBack closers t := fun t ht =>
            readsAt_of_canonical (hargs t ht)
          have hnew : nameWords name = ["abstract"] → args = [] → x ≠ .word "new" := by
            rintro hwords rfl rfl
            obtain rfl : "abstract" = name := foldl_nameWords hwords
            cases hrun
          exact hplain (primaryType_reference hname hargs hread h hms hdot hless hparen hnew)

-- ── Unions and intersections ─────────────────────────────────────────────────────

/-- A chain of parts with a sign between them, as a rule, and where it runs on. -/
structure Chain (part whole : Rule TypeExpr) (rest : Rule (List TypeExpr))
    (wrap : List TypeExpr → TypeExpr) (sign : Char) : Prop
    extends IsChain part whole rest wrap sign where
  runs_eq : ∀ x ts, (wrap ts).runsInto x = lastRunsInto x ts
  sign_mem : loneToken sign ∈ [.ampersand, .bar, .openBracket]

theorem intersection_chain :
    Chain postfixType intersectionType intersectionRest .intersection '&' where
  toIsChain := intersection_isChain
  runs_eq _ _ := by rw [TypeExpr.runsInto]
  sign_mem := by decide

theorem union_chain : Chain intersectionType unionType unionRest .union '|' where
  toIsChain := union_isChain
  runs_eq _ _ := by rw [TypeExpr.runsInto]
  sign_mem := by decide

namespace Chain

variable {part whole : Rule TypeExpr} {rest : Rule (List TypeExpr)}
  {wrap : List TypeExpr → TypeExpr} {sign : Char} {level : Level} {stops : List Token}

/-- Where a type has ended, no sign of a chain follows. -/
theorem not_isAt (hchain : Chain part whole rest wrap sign) (h : c.EndsType) :
    ¬ c.isAt (loneToken sign) = true := by
  obtain ⟨m, ms, h, hm, -⟩ := h
  have hsign : m.1 ≠ loneToken sign := fun heq => hm (heq ▸ hchain.sign_mem)
  simp [h, hsign]

/-- A part with no sign in front of it and none behind. -/
theorem meets_single (hchain : Chain part whole rest wrap sign)
    {post : TypeExpr → Cursor → Prop} (hsign : ¬ c.isAt (loneToken sign) = true)
    (hpart : Meets (total part) c fun t c' => c'.EndsType ∧ post t c') :
    Meets (total whole) c fun t c' => c'.EndsType ∧ post t c' := by
  refine hchain.meets_whole (meets_bind (meets_eat (absurd · hsign) fun _ => ?_))
  refine meets_bind (hpart.mono ?_)
  rintro t c₁ - ⟨hends, hpost⟩
  exact meets_get (meets_if_neg (hchain.not_isAt hends) (meets_pure ⟨hends, hpost⟩))

/-- Behind the last part there is no sign. -/
theorem rest_nil (hchain : Chain part whole rest wrap sign) (h : c.EndsType) :
    Meets (total rest) c fun ts c' => ts = [] ∧ c' = c :=
  hchain.meets_rest (meets_bind (meets_eat (absurd · (hchain.not_isAt h)) fun _ =>
    meets_pure ⟨rfl, rfl⟩))

/-- A single part at the end of a line. -/
theorem readsLine_single (hchain : Chain part whole rest wrap sign) (ht : Canonical level t)
    (hline : NextLine x line) (hpart : part.ReadsLine x line t) : whole.ReadsLine x line t := by
  intro c h
  have hsign : ¬ c.isAt (loneToken sign) = true := by
    obtain ⟨t₀, ms, hms, hstarts, -⟩ := ht.opensType hline.noLabel
    have hne : t₀ ≠ loneToken sign := by
      rintro rfl
      rw [hchain.not_starts] at hstarts
      cases hstarts
    simp [h, hms, hne]
  refine (hchain.meets_single hsign ((hpart h).mono ?_)).mono fun _ _ _ hread => hread.2
  exact fun _ _ _ hread => ⟨hline.endsType hread, hread⟩

/-- A chain ends the line as its last part does. -/
theorem wrap_end (hchain : Chain part whole rest wrap sign) {run : Bool} {ts ts' : List TypeExpr}
    (h : PartsEnd run line ts ts' c) : LineEnd run line (wrap ts) (wrap ts') c := by
  cases run with
  | true => exact h
  | false => exact ⟨by rw [hchain.mapSpan_eq, hchain.mapSpan_eq, h.1], h.2⟩

/-- Further parts, of which the last one stands at the end of a line. -/
theorem rest_line (hchain : Chain part whole rest wrap sign) (hline : NextLine x line)
    {ts : List TypeExpr} (hne : ts ≠ [])
    (hback : ∀ t ∈ ts, part.ReadsBack (loneToken sign :: stops) t)
    (hlast : ∀ t ∈ ts, part.ReadsLine x line t) :
    ∀ {c : Cursor},
      c.ahead = Piece.marks false (piecesAfter (spaced sign) ts ++ .lineFeed :: line) →
      Meets (total rest) c (PartsEnd (lastRunsInto x ts) line ts) := by
  induction ts with
  | nil => exact absurd rfl hne
  | cons t ts ih =>
      intro c h
      obtain ⟨ht, hback⟩ := List.forall_mem_cons.mp hback
      obtain ⟨htline, hlast⟩ := List.forall_mem_cons.mp hlast
      rw [piecesAfter, List.append_assoc, List.append_assoc] at h
      refine hchain.meets_rest (meets_bind (meets_eat_pos h fun c₁ h₁ => ?_))
      cases ts with
      | nil =>
          refine meets_bind ((htline h₁).mono ?_)
          rintro t' c₂ - hend
          refine meets_bind ((hchain.rest_nil (hline.endsType hend)).mono ?_)
          rintro _ _ - ⟨rfl, rfl⟩
          exact meets_pure hend.singleton
      | cons u us =>
          refine meets_bind ((ht h₁ ⟨_, _, rfl, List.mem_cons_self ..⟩).mono ?_)
          rintro t' c₂ - ⟨ht', h₂⟩
          refine meets_bind ((ih (List.cons_ne_nil u us) hback hlast h₂).mono ?_)
          rintro ts' c₃ - hend
          exact meets_pure (hend.cons ht')

/-- Several parts, of which the last one stands at the end of a line. -/
theorem readsLine_several (hchain : Chain part whole rest wrap sign) (hline : NextLine x line)
    {ts : List TypeExpr} (hlength : 2 ≤ ts.length) (hts : ∀ t ∈ ts, Canonical level t)
    (hback : ∀ t ∈ ts, part.ReadsBack (loneToken sign :: stops) t)
    (hlast : ∀ t ∈ ts, part.ReadsLine x line t) : whole.ReadsLine x line (wrap ts) := by
  intro c h
  rcases ts with _ | ⟨t, _ | ⟨u, ts⟩⟩
  · exact absurd hlength (by simp)
  · exact absurd hlength (by simp)
  obtain ⟨ht, hback⟩ := List.forall_mem_cons.mp hback
  obtain ⟨-, hlast⟩ := List.forall_mem_cons.mp hlast
  have hmore : Follows (loneToken sign :: stops) (Piece.marks false
      (piecesAfter (spaced sign) (u :: ts) ++ .lineFeed :: line)) :=
    ⟨_, _, rfl, List.mem_cons_self ..⟩
  rw [hchain.pieces_eq, typePieces, List.append_assoc] at h
  have hlabel : NoLabel (Piece.marks false
      (piecesAfter (spaced sign) (u :: ts) ++ .lineFeed :: line)) :=
    ⟨_, _, rfl, ne_of_mem_of_not_mem hchain.sign_mem (by decide),
      ne_of_mem_of_not_mem hchain.sign_mem (by decide)⟩
  have hfirst := hts t (List.mem_cons_self ..)
  refine hchain.meets_whole (meets_bind ((hchain.eat_sign hfirst h hlabel).mono ?_))
  rintro _ _ - rfl
  refine meets_bind ((ht h hmore).mono ?_)
  rintro t' c₁ - ⟨ht', h₁⟩
  refine meets_get (meets_if_pos (by simp [h₁, piecesAfter, spaced, Piece.marks]) ?_)
  refine meets_bind ((hchain.rest_line hline (List.cons_ne_nil u ts) hback hlast h₁).mono ?_)
  rintro ts' c₂ - hend
  refine meets_pure ?_
  rw [hchain.runs_eq]
  exact hchain.wrap_end (hend.cons ht')

end Chain

-- ── Whole types ──────────────────────────────────────────────────────────────────

/-- Behind a union that has ended, no `extends` makes a conditional type of it. -/
theorem typeExpr_of_unionType {post : TypeExpr → Cursor → Prop}
    (h : Meets (total unionType) c fun t c' => c'.EndsType ∧ post t c') :
    Meets (total typeExpr) c post := by
  refine meets_total (meets_bind (h.mono ?_))
  rintro t c₁ - ⟨⟨m, ms, h₁, -, hextends⟩, hpost⟩
  have hline := Cursor.newlineBefore_eq h₁
  exact meets_get (meets_if_neg (by simpa [h₁, hline] using hextends) (meets_pure hpost))

theorem typeExpr_of_postfixType {m : Mark} {ms : List Mark} {post : TypeExpr → Cursor → Prop}
    (h : c.ahead = m :: ms) (hm : m.1 ∉ [.ampersand, .bar])
    (hpost : Meets (total postfixType) c fun t c' => c'.EndsType ∧ post t c') :
    Meets (total typeExpr) c post := by
  simp only [List.mem_cons, List.not_mem_nil, not_or, or_false] at hm
  have hand : ¬ c.isAt (loneToken '&') = true := by simp [h, hm.1, loneToken]
  have hbar : ¬ c.isAt (loneToken '|') = true := by simp [h, hm.2, loneToken]
  exact typeExpr_of_unionType (union_chain.meets_single hbar
    (intersection_chain.meets_single hand hpost))

/-- Where no type begins, no token is read. -/
theorem typeExpr_none {y : Token} {ms : List Mark} (h : c.ahead = (y, false) :: ms)
    (hy : y ∈ [.question, .colon, .closeParen]) :
    Meets (total typeExpr) c fun _ c' => c'.ahead = c.ahead := by
  obtain ⟨l, ls, hr, hl, -, -⟩ := map_mark_eq_cons h
  have hends : c.EndsType := by
    refine ⟨_, _, h, fun hmem => ?_, fun hword => ?_⟩
    · have hnot : ∀ y ∈ [Token.question, .colon, .closeParen],
          y ∉ [Token.ampersand, .bar, .openBracket] := by decide
      exact hnot y hy hmem
    · obtain rfl : y = .word "extends" := hword
      exact absurd hy (by decide)
  have hprimary : Meets (total primaryType) c fun _ c' => c' = c := by
    refine meets_total (meets_get ?_)
    simp only [List.mem_cons, List.not_mem_nil, or_false] at hy
    rcases hy with rfl | rfl | rfl <;> simp only [hr, hl] <;> exact meets_pure rfl
  refine typeExpr_of_postfixType h (fun hmem => ?_) (postfixType_stop (hprimary.mono ?_))
  · have hnot : ∀ y ∈ [Token.question, .colon, .closeParen], y ∉ [Token.ampersand, .bar] := by
      decide
    exact hnot y hy hmem
  · rintro _ _ - rfl
    exact ⟨hends, hends, rfl⟩

/-- In front of a signature there is no type but its parentheses. -/
theorem typeExpr_signature (h : c.AtSignature) :
    Meets (total typeExpr) c fun _ c' => c'.AtSignature := by
  obtain ⟨optional, callable, t, ps, h⟩ := h
  cases optional with
  | true =>
      refine (typeExpr_none h (by decide)).mono fun _ _ _ h₁ => ?_
      exact ⟨true, callable, t, ps, h₁.trans h⟩
  | false =>
      cases callable with
      | false =>
          refine (typeExpr_none h (by decide)).mono fun _ _ _ h₁ => ?_
          exact ⟨false, false, t, ps, h₁.trans h⟩
      | true =>
          have hfunction : ¬ c.atFunctionType = true := by
            rw [atFunctionType_eq Piece.Balanced.nil h]
            exact Bool.false_ne_true
          obtain ⟨l, ls, hr, hl, -, -⟩ := map_mark_eq_cons h
          have hl : l.token = .openParen := hl
          refine typeExpr_of_postfixType h (by decide) (postfixType_stop ?_)
          refine meets_total (meets_get ?_)
          simp only [hr, hl]
          refine meets_if_neg hfunction (meets_bind (meets_bump_ahead h fun c₁ h₁ => ?_))
          refine meets_bind ((typeExpr_none h₁ (by decide)).mono fun _ c₂ _ h₂ => ?_)
          refine meets_bind (meets_eat_pos (h₂.trans h₁) fun c₃ h₃ => meets_pure ?_)
          have hsignature : c₃.AtSignature := ⟨false, false, t, ps, h₃⟩
          exact ⟨hsignature.endsType, hsignature.endsType, hsignature⟩

/-- An intersection at the end of a line, or an operand alone. -/
theorem intersectionType_line (ht : Canonical .intersection t) (hline : NextLine x line) :
    intersectionType.ReadsLine x line t := by
  cases ht with
  | ofOperand ht =>
      exact intersection_chain.readsLine_single ht hline (postfixType_line ht hline)
  | intersection hlength hts =>
      exact intersection_chain.readsLine_several hline hlength hts
        (fun t ht => readsBack_postfixType (by decide) (List.Subset.refl _)
          (readsAt_of_canonical (hts t ht))) fun t ht => postfixType_line (hts t ht) hline

/-- A union at the end of a line, or an intersection alone. -/
theorem unionType_line (ht : Canonical .union t) (hline : NextLine x line) :
    unionType.ReadsLine x line t := by
  cases ht with
  | ofIntersection ht =>
      exact union_chain.readsLine_single ht hline (intersectionType_line ht hline)
  | union hlength hts =>
      exact union_chain.readsLine_several hline hlength hts
        (fun t ht => readsAt_of_canonical (hts t ht))
        fun t ht => intersectionType_line (hts t ht) hline

/-- A type at the end of a line that is no function type. -/
theorem typeExpr_union_line (ht : Canonical .union t) (hline : NextLine x line) :
    typeExpr.ReadsLine x line t := by
  intro c h
  refine typeExpr_of_unionType ((unionType_line ht hline h).mono ?_)
  exact fun _ _ _ hend => ⟨hline.endsType hend, hend⟩

-- ── Results ──────────────────────────────────────────────────────────────────────

/-- Behind a single word, `is` and the end of `asserts` are not asked to stand on its line. -/
theorem resultType_runsOn {w v : String} {fresh fresh' : Bool} {ms : List Mark}
    (h : c.ahead = (.word w, fresh) :: (.word v, fresh') :: ms) (hforms : w = "asserts" ∨ v = "is")
    (hms : ∀ {c' : Cursor}, c'.ahead = ms → c'.AtSignature) :
    Meets (total resultType) c fun _ c' => c'.AtSignature := by
  by_cases his : v = "is"
  · refine meets_total (meets_get (meets_if_neg (by simp [h, his]) ?_))
    refine meets_if_pos (by simp [h, his, Token.word?]) ?_
    refine meets_bind (meets_bump_ahead h fun c₁ h₁ => meets_bind (meets_bump_ahead h₁ ?_))
    intro c₂ h₂
    exact meets_bind ((typeExpr_signature (hms h₂)).mono fun _ _ _ h₃ => meets_pure h₃)
  · obtain rfl := hforms.resolve_right his
    refine meets_total (meets_get (meets_if_pos (by simp [h, his, Token.word?]) ?_))
    refine meets_bind (meets_bump_ahead h fun c₁ h₁ => meets_bind (meets_bump_ahead h₁ ?_))
    intro c₂ h₂
    obtain ⟨optional, callable, t, ps, hsignature⟩ := hms h₂
    obtain ⟨y, ms', hms', hy⟩ := marks_signature optional callable t ps
    have hword : y ≠ .word "is" := ne_of_mem_of_not_mem hy (by decide)
    refine meets_bind (meets_eat_neg (hsignature.trans hms') hword (meets_pure ?_))
    exact ⟨optional, callable, t, ps, hsignature⟩

/-- A result at the end of a line is read like a type, unless it begins like a predicate. -/
theorem resultType_of_typeExpr (ht : Canonical .any t) (hquery : t.hasQuery = false)
    (hline : NextLine x line) (htype : typeExpr.ReadsLine x line t)
    (h : c.ahead = Piece.marks false (t.pieces ++ .lineFeed :: line)) :
    Meets (total resultType) c (LineEnd (t.resultRunsInto x) line t) := by
  unfold TypeExpr.resultRunsInto
  cases hword : t.word?.any fun w => x.word?.isSome && (w == "asserts" || x == .word "is") with
  | true =>
      rw [Bool.or_true]
      simp only [Option.any_eq_true, Bool.and_eq_true, Bool.or_eq_true, beq_iff_eq] at hword
      obtain ⟨w, hw, hx, hforms⟩ := hword
      obtain _ | @⟨v, optional, callable, u, ps, -⟩ := hline
      · cases hx
      rw [TypeExpr.pieces_of_word? hw] at h
      refine resultType_runsOn h (by simpa using hforms) fun h' => ⟨_, _, _, _, h'⟩
  | false =>
      rw [Bool.or_false]
      refine resultType_plain ?_ (htype h)
      intro w v fresh fresh' ms hahead
      rcases ht.second_word (h.symm.trans hahead) with ⟨rfl, ps, hps⟩ | ⟨hw, hmarks⟩
      · exact absurd (by rw [← hps]; rfl) (ht.head_ne_typeof hquery)
      · obtain ⟨ms', hms'⟩ := hline.marks_eq
        obtain rfl : x = .word v := congrArg Prod.fst (List.cons.inj (hms'.symm.trans hmarks)).1
        simpa [hw, Token.word?] using hword

-- ── Function types ───────────────────────────────────────────────────────────────

theorem resultRunsInto_void (x : Token) :
    (TypeExpr.keyword .void).resultRunsInto x = TypeExpr.function.runsInto x := by
  cases x <;> rfl

/-- A function type goes on where its result does. -/
theorem postfixType_function (hline : NextLine x line) :
    postfixType.ReadsLine x line .function := by
  intro c h
  have h : c.ahead = Piece.marks false (.sign '(' :: .sign ')' ::
    ([.space, .arrow, .space, .word "void"] ++ .lineFeed :: line)) := h
  have hfunction : c.atFunctionType = true := by
    rw [atFunctionType_eq Piece.Balanced.nil h]
    rfl
  have hvoid : typeExpr.ReadsLine x line (.keyword .void) :=
    typeExpr_union_line (.ofIntersection (.ofOperand (.keyword .void))) hline
  have hprimary : Meets (total primaryType) c
      (LineEnd (TypeExpr.function.runsInto x) line .function) := by
    obtain ⟨l, ls, hr, hl, -, -⟩ := map_mark_eq_cons h
    have hl : l.token = .openParen := hl
    refine meets_total (meets_get ?_)
    simp only [hr, hl]
    refine meets_if_pos hfunction (meets_total (meets_get (meets_if_neg ?_ (meets_get ?_))))
    · simp [h, Piece.marks, loneToken]
    refine meets_if_pos (by simp [h, Piece.marks, loneToken]) (meets_bind (meets_parens h ?_))
    intro c₁ h₁
    refine meets_bind (meets_eat_pos h₁ fun c₂ h₂ => ?_)
    refine meets_bind ((resultType_of_typeExpr (Canonical.keyword .void).anywhere rfl hline hvoid
      h₂).mono ?_)
    rintro t' c₃ - hend
    rw [resultRunsInto_void] at hend
    refine meets_pure ?_
    cases hrun : TypeExpr.function.runsInto x with
    | true => rwa [hrun] at hend
    | false =>
        rw [hrun] at hend
        exact ⟨rfl, hend.2⟩
  refine postfixType_stop (hprimary.mono ?_)
  exact fun _ _ _ hend => ⟨hline.endsType hend, hend⟩

-- ── All types ────────────────────────────────────────────────────────────────────

/-- **A type at the end of a line** is read back, unless it runs into the next line. -/
theorem typeExpr_line (ht : Canonical .any t) (hline : NextLine x line) :
    typeExpr.ReadsLine x line t := by
  cases ht with
  | ofUnion ht => exact typeExpr_union_line ht hline
  | function =>
      intro c h
      refine typeExpr_of_postfixType h (by decide) ((postfixType_function hline h).mono ?_)
      exact fun _ _ _ hend => ⟨hline.endsType hend, hend⟩

/-- **A result at the end of a line** is read back, unless it runs into the next line. -/
theorem resultType_line (ht : Canonical .any t) (hquery : t.hasQuery = false)
    (hline : NextLine x line)
    (h : c.ahead = Piece.marks false (t.pieces ++ .lineFeed :: line)) :
    Meets (total resultType) c (LineEnd (t.resultRunsInto x) line t) :=
  resultType_of_typeExpr ht hquery hline (typeExpr_line ht hline) h

end Rule

end DeclAtlas

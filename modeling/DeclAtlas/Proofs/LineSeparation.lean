import DeclAtlas.Proofs.Colons
import DeclAtlas.Proofs.DeclarationRoundTrip
import DeclAtlas.Proofs.LineBreaks

/-!
# Line breaks between the members of an interface

The members of an interface may stand on lines of their own with nothing between them.  They are
then read as if each line ended with a semicolon, if no member runs into the next one
(`Separated`); and if one does, they are read as other members.

Up to the first member that runs on, all are read back.  There the name on the next line is taken
for a part of the type, and the colon behind it belongs to no signature any more.  As every
signature needs a colon of its own (`Rule.total_pays`), something is missing from what is read.

* **`line_breaks_separate`** — for every interface with property and method signatures: the members
  that are read from lines without semicolons are those that are written exactly if `Separated`
  holds.
-/

namespace DeclAtlas

open DeclAtlas.Parser

-- ── Lines ────────────────────────────────────────────────────────────────────────

/-- A property or method signature with a word for its name and a type without queries.  A method
    is not named `new`. -/
structure Member.IsSignature (m : Member) : Prop where
  kind : m.kind.isNamedSignature = true
  name : ∃ w ∈ m.name, isIdentifier w = true
  notNew : m.kind = .methodSignature → m.name ≠ some "new"
  type : ∃ t ∈ m.type, Canonical .any t ∧ t.hasQuery = false
  isStatic : m.isStatic = false

/-- The type of the member runs into the next line if that begins with `x`. -/
def Member.runsInto (x : Token) (m : Member) : Bool :=
  m.type.any fun t => if m.kind.isCallable then t.resultRunsInto x else t.runsInto x

/-- No member runs into the name of the next one. -/
def Separated (ms : List Member) : Prop :=
  ms.IsChain fun m next => m.runsInto (.word (next.name.getD "")) = false

instance (ms : List Member) : Decidable (Separated ms) :=
  inferInstanceAs (Decidable (List.IsChain _ ms))

/-- What stands behind a member on its line. -/
def lineEnd (semicolons : Bool) : List Piece :=
  if semicolons then [.sign ';', .lineFeed] else [.lineFeed]

/-- Each member on a line of its own, with or without a semicolon. -/
def memberLines (semicolons : Bool) (ms : List Member) : List Piece :=
  ms.flatMap fun m => m.clause ++ lineEnd semicolons

/-- An interface with a line for each member. -/
def interfaceLines (semicolons : Bool) (name : String) (ms : List Member) : List Piece :=
  .word "interface" :: .space :: .word name :: .space :: .sign '\x7b' :: .lineFeed ::
    (memberLines semicolons ms ++ [.sign '\x7d'])

def interfaceText (q : Quote) (semicolons : Bool) (name : String) (ms : List Member) : String :=
  String.ofList (Piece.print q (interfaceLines semicolons name ms))

/-- A signature in full: its name is a word, its type is canonical, and it holds no query. -/
theorem Member.IsSignature.exists_eq {m : Member} (h : m.IsSignature) :
    ∃ kind w t optional span, m = ⟨kind, some w, some t, false, optional, span⟩ ∧
      kind.isNamedSignature = true ∧ (w = "new" → kind.isCallable = false) ∧
      isIdentifier w = true ∧ Canonical .any t ∧ t.hasQuery = false := by
  obtain ⟨kind, name, type, isStatic, optional, span⟩ := m
  obtain ⟨hkind, ⟨w, rfl, hw⟩, hnew, ⟨t, rfl, ht⟩, rfl⟩ := h
  refine ⟨kind, w, t, optional, span, rfl, hkind, fun hname => ?_, hw, ht⟩
  cases kind with
  | propertySignature => rfl
  | methodSignature => exact absurd (congrArg some hname) (hnew rfl)
  | _ => cases hkind

section Clause

variable {kind : MemberKind} (hkind : kind.isNamedSignature = true)

include hkind

theorem MemberKind.named_signature : kind.named .methodSignature .propertySignature = kind := by
  cases kind <;> first | rfl | cases hkind

/-- A named signature is written as its name and what follows it. -/
theorem Member.clause_signature (w : String) (type : Option TypeExpr) (isStatic optional : Bool)
    (span : Span) : (Member.mk kind (some w) type isStatic optional span).clause =
      kind.pieces ++ memberNamePiece w :: signaturePieces optional kind.isCallable type := by
  cases kind <;> first | rfl | cases hkind

theorem MemberKind.pieces_name {w : String} (hw : isIdentifier w = true) (ps : List Piece) :
    kind.pieces ++ memberNamePiece w :: ps = .word w :: ps := by
  rw [memberNamePiece, if_pos hw]
  cases kind <;> first | rfl | cases hkind

end Clause

/-- The token that the lines of members begin with, or the closing brace behind them. -/
def lineToken : List Member → Token
  | [] => .closeBrace
  | m :: _ => .word (m.name.getD "")

theorem memberLines_cons (semicolons : Bool) (m : Member) (ms : List Member) (ps : List Piece) :
    memberLines semicolons (m :: ms) ++ ps =
      m.clause ++ (lineEnd semicolons ++ (memberLines semicolons ms ++ ps)) := by
  rw [memberLines, List.flatMap_cons, List.append_assoc, List.append_assoc, memberLines]

/-- Behind a member on its line stands the next one, or the closing brace. -/
theorem nextLine_memberLines {ms : List Member} (hms : ∀ m ∈ ms, m.IsSignature) :
    NextLine (lineToken ms) (memberLines false ms ++ [.sign '\x7d']) := by
  cases ms with
  | nil => exact .brace
  | cons m ms =>
      obtain ⟨kind, w, t, optional, span, rfl, hkind, hnew, hw, -⟩ :=
        (hms m (List.mem_cons_self ..)).exists_eq
      rw [memberLines_cons, Member.clause_signature hkind, MemberKind.pieces_name hkind hw,
        List.cons_append]
      exact .member hnew

/-- No member runs into the closing brace. -/
theorem Member.runsInto_closeBrace (m : Member) : m.runsInto .closeBrace = false := by
  unfold Member.runsInto
  cases m.type with
  | none => rfl
  | some t =>
      have hresult : (t.word?.any fun w => Token.closeBrace.word?.isSome &&
          (w == "asserts" || Token.closeBrace == .word "is")) = false := by
        cases t.word? <;> rfl
      simp [TypeExpr.resultRunsInto, t.runsInto_closeBrace, hresult]

/-- Members are separated if the first one is from the second, and the others are. -/
theorem separated_cons (m : Member) (ms : List Member) :
    Separated (m :: ms) ↔ m.runsInto (lineToken ms) = false ∧ Separated ms := by
  cases ms with
  | nil => exact ⟨fun _ => ⟨m.runsInto_closeBrace, .nil⟩, fun _ => .singleton m⟩
  | cons next ms => exact List.isChain_cons_cons

/-- As many colons are written as there are types of named signatures. -/
theorem colons_memberLines {ms : List Member} (hms : ∀ m ∈ ms, m.IsSignature) :
    Piece.colons (memberLines false ms ++ [.sign '\x7d']) = membersColons ms := by
  induction ms with
  | nil => rfl
  | cons m ms ih =>
      obtain ⟨hm, hms⟩ := List.forall_mem_cons.mp hms
      obtain ⟨kind, w, t, optional, span, hm', hkind, -, hw, ht, -⟩ := hm.exists_eq
      have hclause : Piece.colons m.clause = m.colons := by
        rw [hm', Member.clause_signature hkind, MemberKind.pieces_name hkind hw, Member.colons,
          if_pos hkind, annotationColons, ← ht.count_colon]
        cases optional <;> cases kind.isCallable <;>
          simp [signaturePieces, callPieces, colonPieces, Piece.token?, loneToken, Nat.add_comm]
      rw [memberLines_cons, Piece.colons_append, hclause, membersColons, ← ih hms]
      rfl

namespace Rule

variable {c : Cursor} {x : Token} {line ps : List Piece} {m : Member} {ms : List Member}

-- ── One member ───────────────────────────────────────────────────────────────────

section Named

variable {kind : MemberKind} {w : String} {t : TypeExpr} {optional fresh : Bool}

/-- The name of a method is not taken for the word of a constructor. -/
theorem optional_of_new (hnew : w = "new" → kind.isCallable = false) :
    kind = .methodSignature → w = "new" → optional = true := by
  rintro rfl hname
  cases hnew hname

/-- A colon and a type at the end of a line. -/
theorem annotation_line {part : Rule TypeExpr} {run : Bool}
    (hpart : ∀ {c : Cursor}, c.ahead = Piece.marks false (t.pieces ++ .lineFeed :: line) →
      Meets (total part) c (LineEnd run line t))
    (h : c.ahead = Piece.marks false (colonPieces (some t) ++ .lineFeed :: line)) :
    (annotationBody total part).Meets c fun type c' =>
      ∃ t', type = some t' ∧ LineEnd run line t t' c' := by
  refine meets_bind (meets_eat_pos h fun c₁ h₁ => meets_bind ((hpart h₁).mono ?_))
  exact fun t' c₂ _ hend => meets_pure ⟨t', rfl, hend⟩

/-- A member at the end of a line is read back, unless it runs into the next line. -/
theorem typeMember_line (hm : m.IsSignature) (hline : NextLine x line)
    (h : c.ahead = Piece.marks fresh (m.clause ++ .lineFeed :: line)) :
    Meets (total typeMember) c fun m' c' =>
      if m.runsInto x then c'.AtSignature
      else m'.map (Member.mapSpan .unplaced) = some (m.mapSpan .unplaced) ∧
        c'.ahead = Piece.marks true line := by
  obtain ⟨kind, w, t, optional, span, rfl, hkind, hnew, hw, ht, hquery⟩ := hm.exists_eq
  have hruns : Member.runsInto x ⟨kind, some w, some t, false, optional, span⟩ =
      if kind.isCallable then t.resultRunsInto x else t.runsInto x := rfl
  have hread {c : Cursor}
      (h : c.ahead = Piece.marks false (colonPieces (some t) ++ .lineFeed :: line)) :
      Meets (total (if kind.isCallable then annotatedResult else annotated)) c fun type' c' =>
        ∃ t', type' = some t' ∧
          LineEnd (if kind.isCallable then t.resultRunsInto x else t.runsInto x) line t t' c' := by
    cases kind.isCallable with
    | true => exact meets_total (annotation_line (resultType_line ht hquery hline) h)
    | false => exact meets_total (annotation_line (typeExpr_line ht hline) h)
  rw [Member.clause_signature hkind, List.append_assoc, List.cons_append] at h
  refine (typeMember_named (by rintro ⟨⟩) (MemberKind.named_signature hkind) (optional_of_new hnew)
    hread h).mono ?_
  rintro m' c₁ - ⟨_, hm', t', rfl, hend⟩
  rw [← hruns] at hend
  cases hrun : Member.runsInto x ⟨kind, some w, some t, false, optional, span⟩ with
  | true => rwa [hrun] at hend
  | false =>
      rw [hrun] at hend
      refine ⟨?_, hend.2⟩
      rw [hm', mapSpanOption, hend.1]
      rfl

/-- A member is read back up to a semicolon. -/
theorem typeMember_closed (hm : m.IsSignature)
    (h : c.ahead = Piece.marks fresh (m.clause ++ .sign ';' :: ps)) :
    Meets (total typeMember) c fun m' c' =>
      m'.map (Member.mapSpan .unplaced) = some (m.mapSpan .unplaced) ∧
        c'.ahead = Piece.marks false (.sign ';' :: ps) := by
  obtain ⟨kind, w, t, optional, span, rfl, hkind, hnew, hw, ht, hquery⟩ := hm.exists_eq
  rw [Member.clause_signature hkind, List.append_assoc, List.cons_append] at h
  have htype : ∀ u ∈ some t, u.Annotates kind.isCallable := by
    rintro _ ⟨⟩
    exact ht.annotates hquery _
  exact typeMember_semicolon (MemberKind.named_signature hkind) (optional_of_new hnew) htype h

end Named

-- ── Members ──────────────────────────────────────────────────────────────────────

/-- A cursor behind a member has moved. -/
theorem moved_of_clause {c₁ : Cursor} (hm : m.IsSignature) {fresh : Bool}
    (h : c.ahead = Piece.marks fresh (m.clause ++ ps)) (h₁ : c₁.ahead = Piece.marks false ps) :
    c₁.remaining ≠ c.remaining := by
  obtain ⟨kind, w, t, optional, span, rfl, hkind, -, hw, -⟩ := hm.exists_eq
  rw [Cursor.remaining_eq_length, Cursor.remaining_eq_length, h, h₁, Piece.length_marks,
    Piece.length_marks, Member.clause_signature hkind, MemberKind.pieces_name hkind hw]
  simp [Piece.token?]
  omega

/-- Every signature begins with a word. -/
theorem marks_clause (hm : m.IsSignature) (fresh : Bool) (ps : List Piece) :
    ∃ w ms, Piece.marks fresh (m.clause ++ ps) = (.word w, fresh) :: ms := by
  obtain ⟨kind, w, t, optional, span, rfl, hkind, -, hw, -⟩ := hm.exists_eq
  rw [Member.clause_signature hkind, MemberKind.pieces_name hkind hw]
  exact ⟨_, _, rfl⟩

/-- A member that is read back, and those behind it. -/
theorem typeMembers_next (hm : m.IsSignature) {fresh : Bool}
    (h : c.ahead = Piece.marks fresh (m.clause ++ ps)) {post : List Member → Cursor → Prop}
    (hmember : Meets (total typeMember) c fun m' c' =>
      m'.map (Member.mapSpan .unplaced) = some (m.mapSpan .unplaced) ∧
        c'.ahead = Piece.marks false ps)
    (hnext : ∀ {m' : Member} {c' : Cursor}, m'.mapSpan .unplaced = m.mapSpan .unplaced →
      c'.ahead = Piece.marks false ps →
      Meets (total typeMembers) c' fun ms c'' => post (m' :: ms) c'') :
    Meets (total typeMembers) c post := by
  obtain ⟨w, marks, hmarks⟩ := marks_clause hm fresh ps
  refine typeMembers_member (h.trans hmarks) (by simp) (hmember.mono ?_)
  rintro m' c₁ - ⟨hm', h₁⟩
  obtain ⟨m', rfl, hplain⟩ := Option.map_eq_some_iff.mp hm'
  rw [if_neg (moved_of_clause hm h h₁)]
  exact hnext hplain h₁

/-- A member on its line is read back if that ends with a semicolon or the member does not run into
    the next one. -/
theorem typeMembers_step {semicolons : Bool} (hm : m.IsSignature) (hms : ∀ m ∈ ms, m.IsSignature)
    (hrun : semicolons = true ∨ m.runsInto (lineToken ms) = false) {fresh : Bool}
    (h : c.ahead = Piece.marks fresh (memberLines semicolons (m :: ms) ++ [.sign '\x7d']))
    {post : List Member → Cursor → Prop}
    (hnext : ∀ {m' : Member} {c' : Cursor}, m'.mapSpan .unplaced = m.mapSpan .unplaced →
      c'.ahead = Piece.marks true (memberLines semicolons ms ++ [.sign '\x7d']) →
      Meets (total typeMembers) c' fun ms' c'' => post (m' :: ms') c'') :
    Meets (total typeMembers) c post := by
  rw [memberLines_cons] at h
  cases semicolons with
  | true =>
      refine typeMembers_next hm h (typeMember_closed hm h) fun {m' c₁} hm' h₁ => ?_
      exact typeMembers_semicolon h₁ fun c₂ h₂ => hnext hm' h₂
  | false =>
      have hline := hrun.resolve_left Bool.false_ne_true
      refine typeMembers_next hm h ((typeMember_line hm (nextLine_memberLines hms) h).mono ?_) hnext
      intro m' c₁ _ hread
      rwa [hline, if_neg Bool.false_ne_true] at hread

/-- Members are read back if their lines end with semicolons or none runs into the next one. -/
theorem typeMembers_lines {semicolons : Bool} (hms : ∀ m ∈ ms, m.IsSignature)
    (hsep : semicolons = true ∨ Separated ms) :
    ∀ {c : Cursor} {fresh : Bool},
      c.ahead = Piece.marks fresh (memberLines semicolons ms ++ [.sign '\x7d']) →
      Meets (total typeMembers) c fun ms' c' =>
        mapSpanMembers .unplaced ms' = mapSpanMembers .unplaced ms ∧ c'.ahead = [] := by
  induction ms with
  | nil =>
      intro c fresh h
      refine (typeMembers_close h).mono ?_
      rintro _ c₁ - ⟨rfl, h₁⟩
      exact ⟨rfl, h₁⟩
  | cons m ms ih =>
      intro c fresh h
      obtain ⟨hm, hms⟩ := List.forall_mem_cons.mp hms
      have hsep' := hsep.imp_right (separated_cons m ms).mp
      refine typeMembers_step hm hms (hsep'.imp_right And.left) h fun {m' c₁} hm' h₁ => ?_
      refine (ih hms (hsep'.imp_right And.right) h₁).mono ?_
      rintro ms' c₂ - ⟨hms', h₂⟩
      exact ⟨by rw [mapSpanMembers, mapSpanMembers, hm', hms'], h₂⟩

-- ── Running on ───────────────────────────────────────────────────────────────────

/-- A sign that begins no member is skipped. -/
theorem typeMembers_skip {y : Token} {marks : List Mark} {fresh : Bool}
    (h : c.ahead = (y, fresh) :: marks) (hy : y ∈ [.question, .colon])
    {post : List Member → Cursor → Prop} (hnext : Meets (total typeMembers) c.bump post) :
    Meets (total typeMembers) c post := by
  obtain ⟨l, ls, hr, hl, -, -⟩ := map_mark_eq_cons h
  simp only [List.mem_cons, List.not_mem_nil, or_false] at hy
  have hmember : Meets (total typeMember) c fun m c₁ => m = none ∧ c₁ = c := by
    rcases hy with rfl | rfl
    all_goals
      refine meets_total (meets_get (meets_if_neg (by simp [h]) (meets_if_neg (by simp [h]) ?_)))
      refine meets_if_neg (by simp [h]) (meets_get (meets_if_neg (by simp [h]) ?_))
      refine meets_bind (meets_get (meets_if_neg (by simp [h]) (meets_if_neg (by simp [h]) ?_)))
      refine meets_pure (meets_bind (meets_get ?_))
      simp only [hr, hl]
      exact meets_pure (meets_pure ⟨rfl, rfl⟩)
  refine typeMembers_member h (by rcases hy with rfl | rfl <;> decide) (hmember.mono ?_)
  rintro _ _ - ⟨rfl, rfl⟩
  rw [if_pos rfl]
  exact hnext

/-- Parentheses with a type behind them are a member without a name, whose colon counts for no
    signature. -/
theorem typeMember_call {t : TypeExpr}
    (h : c.ahead = Piece.marks false (callPieces true (some t) ++ ps)) :
    Meets (total typeMember) c fun m c' => membersColons m.toList + c'.colons + 1 ≤ c.colons := by
  have h' : c.ahead = (.openParen, false) :: _ := h
  have hsignature : Meets (total (signature .callSignature c.here)) c fun m c' =>
      m.colons + c'.colons + 1 ≤ c.colons := by
    refine meets_total (meets_get (meets_if_neg (by simp [h']) (meets_get ?_)))
    refine meets_if_pos (by simp [h']) (meets_bind (meets_parens h fun c₁ h₁ => ?_))
    refine meets_bind (meets_total (meets_bind (meets_eat_pos h₁ fun c₂ h₂ => ?_)))
    refine meets_bind ((total_pays resultType rfl c₂).mono fun t' c₃ hlead _ => ?_)
    refine meets_pure (meets_get (meets_pure ?_))
    have hcolon : c.colons = c₂.colons + 1 := by
      rw [Cursor.colons_of_ahead h, Cursor.colons_of_ahead h₂]
      simp [callPieces, colonPieces, Piece.token?, loneToken, Nat.add_comm]
    have hle := hlead.colons_le
    have hfree : (Member.mk .callSignature none (some t') false false (c₃.spanFrom c.here)).colons
      = 0 := rfl
    omega
  refine meets_total (meets_get (meets_if_pos (by simp [h']) (meets_bind (hsignature.mono ?_))))
  exact fun m c₁ _ hm => meets_pure hm

/-- Where the name of a member is missing, its colon serves no signature. -/
theorem typeMembers_signature (h : c.AtSignature) :
    Meets (total typeMembers) c fun ms _ => membersColons ms + 1 ≤ c.colons := by
  obtain ⟨optional, callable, t, ps, h⟩ := h
  have hcall {c : Cursor} (h : c.ahead = Piece.marks false (callPieces callable (some t) ++ ps)) :
      Meets (total typeMembers) c fun ms _ => membersColons ms + 1 ≤ c.colons := by
    cases callable with
    | true =>
        refine typeMembers_member h (by decide) ((typeMember_call h).mono fun m c₁ hlead hm => ?_)
        have hle : (if c₁.remaining = c.remaining then c₁.bump else c₁).colons ≤ c₁.colons := by
          split
          · exact c₁.leadsTo_bump.colons_le
          · exact Nat.le_refl _
        refine (total_pays typeMembers rfl _).mono fun ms c₂ _ hms => ?_
        rw [membersColons_append]
        have hms : membersColons ms + c₂.colons ≤ Cursor.colons (if _ then _ else _) := hms
        omega
    | false =>
        have hcolon := c.colons_bump (by simp [h, callPieces, colonPieces, Piece.marks, loneToken])
        refine typeMembers_skip h (by decide) ((total_pays typeMembers rfl _).mono ?_)
        intro ms c₁ _ hms
        have hms : membersColons ms + c₁.colons ≤ c.bump.colons := hms
        omega
  cases optional with
  | false => exact hcall h
  | true =>
      have h' : c.ahead = (.question, false) ::
        Piece.marks false (callPieces callable (some t) ++ ps) := h
      refine typeMembers_skip h' (by decide) ((hcall (by simp [h'])).mono fun ms c₁ _ hms => ?_)
      exact Nat.le_trans hms c.leadsTo_bump.colons_le

/-- Behind a member that runs into the next line a colon is lost. -/
theorem typeMembers_lost (hm : m.IsSignature) (hline : NextLine x line)
    (hrun : m.runsInto x = true) {fresh : Bool}
    (h : c.ahead = Piece.marks fresh (m.clause ++ .lineFeed :: line)) :
    Meets (total typeMembers) c fun ms _ => membersColons ms + 1 ≤ c.colons := by
  obtain ⟨w, marks, hmarks⟩ := marks_clause hm fresh (.lineFeed :: line)
  have hpays := total_pays typeMember rfl c
  have hmember : Meets (total typeMember) c fun m' c' => c'.AtSignature ∧
      membersColons m'.toList + c'.colons ≤ c.colons := by
    refine ⟨hpays.1, ?_, hpays.2⟩
    have hend := (typeMember_line hm hline h).2
    rwa [hrun, if_pos rfl] at hend
  refine typeMembers_member (h.trans hmarks) (by simp) (hmember.mono ?_)
  rintro m' c₁ hlead ⟨hat, hpaid⟩
  have hmoved : c₁.remaining ≠ c.remaining := by
    intro hsame
    rw [hlead.eq_of_remaining hsame] at hat
    obtain ⟨optional, callable, t, ps, hsignature⟩ := hat
    obtain ⟨y, ms, hms, hy⟩ := marks_signature optional callable t ps
    obtain rfl : Token.word w = y :=
      congrArg Prod.fst (List.cons.inj ((h.trans hmarks).symm.trans (hsignature.trans hms))).1
    simp at hy
  rw [if_neg hmoved]
  refine (typeMembers_signature hat).mono fun ms c₂ _ hms => ?_
  rw [membersColons_append]
  omega

/-- If a member runs into the next one, other members are read. -/
theorem typeMembers_runOn (hms : ∀ m ∈ ms, m.IsSignature) (hsep : ¬ Separated ms) :
    ∀ {c : Cursor} {fresh : Bool},
      c.ahead = Piece.marks fresh (memberLines false ms ++ [.sign '\x7d']) →
      Meets (total typeMembers) c fun ms' _ =>
        mapSpanMembers .unplaced ms' ≠ mapSpanMembers .unplaced ms := by
  induction ms with
  | nil => exact absurd .nil hsep
  | cons m ms ih =>
      intro c fresh h
      have hcolons := (Cursor.colons_of_ahead h).trans (colons_memberLines hms)
      obtain ⟨hm, hms⟩ := List.forall_mem_cons.mp hms
      cases hrun : m.runsInto (lineToken ms) with
      | false =>
          have hsep : ¬ Separated ms := fun hsep' => hsep ((separated_cons m ms).mpr ⟨hrun, hsep'⟩)
          refine typeMembers_step hm hms (.inr hrun) h fun {m' c₁} _ h₁ => ?_
          refine (ih hms hsep h₁).mono fun ms' c₂ _ hms' heq => hms' ?_
          exact (List.cons.inj heq).2
      | true =>
          rw [memberLines_cons] at h
          refine (typeMembers_lost hm (nextLine_memberLines hms) hrun h).mono ?_
          intro ms' c₁ _ hle heq
          have hsame := congrArg membersColons heq
          rw [membersColons_mapSpan, membersColons_mapSpan] at hsame
          omega

-- ── The interface ────────────────────────────────────────────────────────────────

/-- An interface is the next statement, with the members that are read behind its brace. -/
theorem statement_interface {q : Quote} {name : String} {own : List Piece}
    {post : List Member → Cursor → Prop}
    (hread : ∀ {c : Cursor}, c.ahead = Piece.marks false own → Meets (total typeMembers) c post)
    (hspells : c.Spells q (.word "interface" :: .space :: .word name :: .space ::
      .sign '\x7b' :: own)) :
    Meets (total statement) c fun s c' => ∃ ms span,
      s = .declaration (.ofInterface ⟨name, [], [], ms, {}, span⟩) ∧ post ms c' := by
  have hplain : Modifiers.Printable {} := by rintro ⟨⟩
  -- with no type parameters and no bases
  have hspells : c.Spells q (Modifiers.pieces {} ++ .word "interface" :: .space :: .word name ::
    (TypeParam.listPieces [] ++ (basePieces "extends" [] ++ .space :: .sign '\x7b' :: own))) :=
    hspells
  obtain ⟨fresh, h⟩ := hspells.ahead
  refine statement_modifiers hplain (by decide) (by rintro ⟨⟩) h fun start c₁ fresh' hlead h₁ => ?_
  refine meets_get (meets_if_neg (by simp [h₁, Piece.marks]) (meets_if_pos ?_ ?_))
  · simp [h₁, Piece.marks, Token.word?]
  · refine meets_bind ((interfaceDeclBody_head (List.forall_mem_nil _) (List.forall_mem_nil _) _
      start hread h₁ (hspells.moveOn hlead h₁)).mono ?_)
    rintro _ c₂ - ⟨es, ms, span, rfl, hes, hpost⟩
    obtain rfl : es = [] := by simpa using hes
    exact meets_pure ⟨ms, span, rfl, hpost⟩

/-- The statements of a text that begins with an interface. -/
theorem statements_interface {q : Quote} {name : String} {own : List Piece}
    {post : List Member → Cursor → Prop}
    (hread : ∀ {c : Cursor}, c.ahead = Piece.marks false own → Meets (total typeMembers) c post)
    (hspells : c.Spells q (.word "interface" :: .space :: .word name :: .space ::
      .sign '\x7b' :: own)) :
    Meets (total (statements false)) c fun ss _ => ∃ ms span rest c',
      ss = .declaration (.ofInterface ⟨name, [], [], ms, {}, span⟩) :: rest ∧ post ms c' ∧
        (c'.ahead = [] → rest = []) := by
  obtain ⟨fresh, h⟩ := hspells.ahead
  have hpeek : c.peek = some (.word "interface") := by simp [h, Piece.marks]
  refine meets_total (meets_get ?_)
  rw [hpeek]
  refine meets_bind ((statement_interface hread hspells).mono ?_)
  rintro _ c₁ - ⟨ms, span, rfl, hpost⟩
  have hrest (c₂ : Cursor) (h₂ : c₁.ahead = [] → c₂.ahead = []) :
      Meets (total (statements false)) c₂ fun rest _ => c₁.ahead = [] → rest = [] := by
    by_cases hend : c₂.ahead = []
    · have hnone : c₂.peek = none := by simp [hend]
      refine meets_total (meets_get ?_)
      rw [hnone]
      exact meets_pure fun _ => rfl
    · exact (meets_statements false c₂).mono fun _ _ _ _ hnil => absurd (h₂ hnil) hend
  refine meets_get (meets_ite (fun _ => meets_bind (meets_bump ?_)) fun _ => ?_)
  · refine meets_bind ((hrest c₁.bump fun hnil => by simp [hnil]).mono fun rest c₂ _ hnil => ?_)
    exact meets_pure ⟨ms, span, rest, c₁, rfl, hpost, hnil⟩
  · refine meets_bind ((hrest c₁ id).mono fun rest c₂ _ hnil => ?_)
    exact meets_pure ⟨ms, span, rest, c₁, rfl, hpost, hnil⟩

end Rule

-- ── Texts ────────────────────────────────────────────────────────────────────────

/-- Members on lines of their own are legible, with semicolons or without. -/
theorem legible_memberLines {q : Quote} (semicolons : Bool)
    (hms : ∀ m ∈ ms, ∀ t ∈ m.type, Canonical .any t) :
    Piece.Legible q (memberLines semicolons ms ++ [.sign '\x7d']) := by
  induction ms with
  | nil => exact .sign (by decide) .nil
  | cons m ms ih =>
      obtain ⟨hm, hms⟩ := List.forall_mem_cons.mp hms
      rw [memberLines_cons]
      cases semicolons with
      | true => exact Member.legible_clause hm rfl (.sign (by decide) (.lineFeed (ih hms)))
      | false => exact Member.legible_clause hm rfl (.lineFeed (ih hms))

/-- The members of the interface that the statements begin with, and the other statements. -/
def leadingInterface : List Statement → Option (List Member × List Statement)
  | .declaration (.ofInterface d) :: rest => some (d.members, rest)
  | _ => none

/-- What is read between the braces is what the interface of the text has for members. -/
theorem leadingInterface_parse {q : Quote} {semicolons : Bool} {name : String} {ms : List Member}
    (hname : isIdentifier name = true) (hms : ∀ m ∈ ms, m.IsSignature)
    {post : List Member → Cursor → Prop}
    (hread : ∀ {c : Cursor},
      c.ahead = Piece.marks true (memberLines semicolons ms ++ [.sign '\x7d']) →
      (Rule.total .typeMembers).Meets c post) :
    ∃ ms' rest c',
      leadingInterface (parse (interfaceText q semicolons name ms)) = some (ms', rest) ∧
      post ms' c' ∧ (c'.ahead = [] → rest = []) := by
  have hlegible : Piece.Legible q (interfaceLines semicolons name ms) := by
    refine .word rfl rfl (.space (.word hname rfl (.space (.sign (by decide) (.lineFeed ?_)))))
    refine legible_memberLines semicolons fun m hm t ht => ?_
    obtain ⟨t', rfl', ht', -⟩ := (hms m hm).type
    obtain rfl : t' = t := Option.some.inj (rfl'.symm.trans ht)
    exact ht'
  have hstatements := Rule.statements_interface hread hlegible.spells_start
  obtain ⟨ms', span, rest, c', hss, hpost, hrest⟩ := hstatements.2
  exact ⟨ms', rest, c', congrArg leadingInterface hss, hpost, hrest⟩

/-- **Line breaks separate members as well as semicolons do, exactly if no member runs into the next
    one.**  With semicolons all members are read back, and nothing else is read.  Without them the
    same members are read, and again nothing else, if `Separated` holds, and other ones if not. -/
theorem line_breaks_separate (q : Quote) {name : String} (hname : isIdentifier name = true)
    {ms : List Member} (hms : ∀ m ∈ ms, m.IsSignature) :
    ∃ closed opened rest,
      leadingInterface (parse (interfaceText q true name ms)) = some (closed, []) ∧
      leadingInterface (parse (interfaceText q false name ms)) = some (opened, rest) ∧
      mapSpanMembers .unplaced closed = mapSpanMembers .unplaced ms ∧
      (mapSpanMembers .unplaced opened = mapSpanMembers .unplaced closed ↔ Separated ms) ∧
      (Separated ms → rest = []) := by
  obtain ⟨closed, rest', c, hclosed, ⟨hback, hend⟩, hrest'⟩ :=
    leadingInterface_parse (q := q) hname hms (Rule.typeMembers_lines hms (.inl rfl))
  obtain rfl := hrest' hend
  by_cases hsep : Separated ms
  · obtain ⟨opened, rest, c', hopened, ⟨hback', hend'⟩, hrest⟩ :=
      leadingInterface_parse (q := q) hname hms (Rule.typeMembers_lines hms (.inr hsep))
    refine ⟨closed, opened, rest, hclosed, hopened, hback, ?_, fun _ => hrest hend'⟩
    exact iff_of_true (hback'.trans hback.symm) hsep
  · obtain ⟨opened, rest, c', hopened, hother, -⟩ :=
      leadingInterface_parse (q := q) hname hms (Rule.typeMembers_runOn hms hsep)
    refine ⟨closed, opened, rest, hclosed, hopened, hback, ?_, fun hsep' => absurd hsep' hsep⟩
    exact iff_of_false (fun heq => hother (heq.trans hback)) hsep

/-- Members that would run into other ones than those that follow them. -/
def awkwardLines : List Member :=
  [⟨.propertySignature, some "is", some (.reference "abstract" []), false, false, .empty .origin⟩,
    ⟨.methodSignature, some "extends", some .function, false, true, .empty .origin⟩,
    ⟨.propertySignature, some "new", some (.reference "asserts" []), false, true, .empty .origin⟩,
    ⟨.propertySignature, some "is", some (.array (.reference "abstract" [])), false, false,
      .empty .origin⟩,
    ⟨.methodSignature, some "typeof", some (.reference "abstract" []), false, false,
      .empty .origin⟩]

/-- Lines with all the words that a type might go on with, and that are separated nevertheless. -/
theorem line_breaks_separate_awkward :
    isIdentifier "I" = true ∧ (∀ m ∈ awkwardLines, m.IsSignature) ∧ ∃ closed opened,
      leadingInterface (parse (interfaceText .single true "I" awkwardLines)) = some (closed, []) ∧
      leadingInterface (parse (interfaceText .single false "I" awkwardLines)) = some (opened, []) ∧
      mapSpanMembers .unplaced opened = mapSpanMembers .unplaced closed := by
  have hname : isIdentifier "I" = true := by decide
  have hms : ∀ m ∈ awkwardLines, m.IsSignature := by
    have habstract : Canonical .any (.reference "abstract" []) := .plain (by decide)
    have harray : Canonical .operand (.array (.reference "abstract" [])) :=
      .array (.reference (by decide) (List.forall_mem_nil _))
    simp only [awkwardLines, List.forall_mem_cons]
    refine ⟨⟨rfl, ⟨_, rfl, by decide⟩, by decide, ⟨_, rfl, habstract, rfl⟩, rfl⟩,
      ⟨rfl, ⟨_, rfl, by decide⟩, by decide, ⟨_, rfl, .function, rfl⟩, rfl⟩,
      ⟨rfl, ⟨_, rfl, by decide⟩, by decide, ⟨_, rfl, .plain (by decide), rfl⟩, rfl⟩,
      ⟨rfl, ⟨_, rfl, by decide⟩, by decide, ⟨_, rfl, harray.anywhere, rfl⟩, rfl⟩,
      ⟨rfl, ⟨_, rfl, by decide⟩, by decide, ⟨_, rfl, habstract, rfl⟩, rfl⟩, List.forall_mem_nil _⟩
  obtain ⟨closed, opened, rest, hclosed, hopened, -, hiff, hrest⟩ :=
    line_breaks_separate .single hname hms
  have hsep : Separated awkwardLines := by decide
  obtain rfl := hrest hsep
  exact ⟨hname, hms, closed, opened, hclosed, hopened, hiff.mpr hsep⟩

/-- A method in front of a property named `is`. -/
def predicateLines : List Member :=
  [⟨.methodSignature, some "a", some (.reference "b" []), false, false, .empty .origin⟩,
    ⟨.propertySignature, some "is", some (.reference "c" []), false, false, .empty .origin⟩]

example : interfaceText .single false "I" predicateLines =
    "interface I \x7b\na(): b\nis: c\n\x7d" := rfl

/-- **The result of a method runs into a property named `is`.**  That is not read, and its type is
    read as a property. -/
theorem result_runs_into_is :
    (∀ m ∈ predicateLines, m.IsSignature) ∧
    (leadingInterface (parse (interfaceText .single true "I" predicateLines))).map
      (fun r => r.1.map (·.name)) = some [some "a", some "is"] ∧
    (leadingInterface (parse (interfaceText .single false "I" predicateLines))).map
      (fun r => r.1.map (·.name)) = some [some "a", some "c"] := by
  refine ⟨?_, by decide +kernel, by decide +kernel⟩
  simp only [predicateLines, List.forall_mem_cons]
  exact ⟨⟨rfl, ⟨_, rfl, by decide⟩, by decide, ⟨_, rfl, .plain (by decide), rfl⟩, rfl⟩,
    ⟨rfl, ⟨_, rfl, by decide⟩, by decide, ⟨_, rfl, .plain (by decide), rfl⟩, rfl⟩,
    List.forall_mem_nil _⟩

end DeclAtlas

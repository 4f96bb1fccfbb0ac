import DeclAtlas.Proofs.Totality
import DeclAtlas.Proofs.TypeParameters
import DeclAtlas.Proofs.TypeRoundTrip

/-!
# Members are read back as they were written

The words `static`, `get`, `set`, `new` and `readonly` and all modifiers may be names of members,
and are told from modifiers by what follows them: behind a name stands a question mark, a
parenthesis, a colon or a semicolon (`signatureStops`), and none of them begins a name.

The types of members are read back as in every other place, except that a result must not look like
a predicate (`Rule.readsBack_resultType`).
-/

namespace DeclAtlas

open DeclAtlas.Parser

-- ── Results ──────────────────────────────────────────────────────────────────────

/-- The word that a type consists of, if it is a single one. -/
def TypeExpr.word? : TypeExpr → Option String
  | .keyword k => some k.word
  | .reference name [] => if nameWords name = [name] then some name else none
  | _ => none

/-- A name of one word is read as that word. -/
theorem TypeExpr.word?_reference {name w : String} (h : nameWords name = [w]) :
    (TypeExpr.reference name []).word? = some w := by
  obtain rfl : w = name := foldl_nameWords h
  exact if_pos h

/-- What is a word is written as one. -/
theorem TypeExpr.pieces_of_word? {t : TypeExpr} {w : String} (h : t.word? = some w) :
    t.pieces = [.word w] := by
  unfold TypeExpr.word? at h
  split at h
  · next k =>
    obtain rfl := Option.some.inj h
    rw [TypeExpr.pieces]
  · next name =>
    split at h
    · next hname =>
      obtain rfl := Option.some.inj h
      rw [pieces_reference, hname]
      rfl
    · cases h
  · cases h

/-- Two words stand one behind the other only in a type that begins with `typeof`, or behind a type
    that is a single word. -/
theorem Canonical.second_word {level : Level} {t : TypeExpr} (h : Canonical level t) :
    ∀ {ps : List Piece} {w v : String} {fresh fresh' : Bool} {ms : List Mark},
      Piece.marks false (t.pieces ++ ps) = (.word w, fresh) :: (.word v, fresh') :: ms →
      w = "typeof" ∧ [.word w, .space, .word v] <+: t.pieces ∨
        t.word? = some w ∧ Piece.marks false ps = (.word v, fresh') :: ms := by
  have hparts {sign : Char} (hsign : (loneToken sign).word? = none) {t : TypeExpr}
      {ts : List TypeExpr} {ps : List Piece} {w v : String} {fresh' : Bool} {ms : List Mark}
      (hlength : 2 ≤ (t :: ts).length)
      (ih : w = "typeof" ∧ [.word w, .space, .word v] <+: t.pieces ∨ t.word? = some w ∧
        Piece.marks false (piecesAfter (spaced sign) ts ++ ps) = (.word v, fresh') :: ms) :
      w = "typeof" ∧ [.word w, .space, .word v] <+: typePieces (spaced sign) (t :: ts) := by
    rcases ih with ⟨hw, hprefix⟩ | ⟨-, hmarks⟩
    · exact ⟨hw, hprefix.trans (List.prefix_append ..)⟩
    · cases ts with
      | nil => exact absurd hlength (by simp)
      | cons u ts =>
          have hword : loneToken sign = .word v := congrArg Prod.fst (List.cons.inj hmarks).1
          rw [hword] at hsign
          cases hsign
  induction h with
  | keyword k =>
      intro ps w v fresh fresh' ms heq
      obtain ⟨hw, htail⟩ := List.cons.inj heq
      exact .inr ⟨congrArg some (Token.word.inj (congrArg Prod.fst hw)), htail⟩
  | @reference name args _ _ _ =>
      intro ps w v fresh fresh' ms heq
      rw [pieces_reference, List.append_assoc] at heq
      obtain ⟨w', ws, hwords, hmarks⟩ := marks_dottedPieces name (argPieces args ++ ps)
      obtain ⟨hw, htail⟩ := List.cons.inj (hmarks.symm.trans heq)
      obtain rfl := Token.word.inj (congrArg Prod.fst hw)
      cases ws with
      | cons u ws => cases (List.cons.inj htail).1
      | nil =>
          cases args with
          | nil => exact .inr ⟨TypeExpr.word?_reference hwords, htail⟩
          | cons t ts => cases (List.cons.inj htail).1
  | array _ ih =>
      intro ps w v fresh fresh' ms heq
      rw [TypeExpr.pieces, List.append_assoc] at heq
      rcases ih heq with ⟨hw, hprefix⟩ | ⟨-, hmarks⟩
      · exact .inl ⟨hw, hprefix.trans (List.prefix_append ..)⟩
      · cases (List.cons.inj hmarks).1
  | tuple | literal | members | paren | function =>
      intro ps w v fresh fresh' ms heq
      cases (List.cons.inj heq).1
  | @query name _ =>
      intro ps w v fresh fresh' ms heq
      obtain ⟨v', ws, hwords, hmarks⟩ := marks_dottedPieces name ps
      obtain ⟨hw, htail⟩ := List.cons.inj heq
      obtain rfl : "typeof" = w := by simpa using congrArg Prod.fst hw
      obtain rfl : v' = v := by
        simpa using congrArg Prod.fst (List.cons.inj (hmarks.symm.trans htail)).1
      refine .inl ⟨rfl, ?_⟩
      rw [TypeExpr.pieces, hwords, dottedPieces]
      exact List.prefix_append [_, _, _] _
  | ofOperand _ ih | ofIntersection _ ih | ofUnion _ ih => exact ih
  | @intersection ts hlength _ ih | @union ts hlength _ ih =>
      intro ps w v fresh fresh' ms heq
      cases ts with
      | nil => exact absurd hlength (by decide)
      | cons t ts =>
          rw [TypeExpr.pieces, typePieces, List.append_assoc] at heq
          rw [TypeExpr.pieces]
          exact .inl (hparts rfl hlength (ih t (List.mem_cons_self ..) heq))

theorem Token.eq_word_of_word? {t : Token} (h : t.word?.isSome = true) : ∃ w, t = .word w := by
  cases t <;> first | exact ⟨_, rfl⟩ | exact nomatch h

theorem Cursor.seesAnyWord_of_seesWord {c : Cursor} {n : Nat} {w : String}
    (h : c.seesWord n w = true) : c.seesAnyWord n = true := by
  have hpeek : c.peekAt n = some (.word w) := beq_iff_eq.mp h
  rw [seesAnyWord, hpeek]
  rfl

/-- Two words ahead, with what follows them. -/
theorem Cursor.ahead_of_words {c : Cursor} (h₀ : c.seesAnyWord 0 = true)
    (h₁ : c.seesAnyWord 1 = true) :
    ∃ w v fresh fresh' ms, c.ahead = (.word w, fresh) :: (.word v, fresh') :: ms := by
  rcases h : c.ahead with _ | ⟨⟨t, fresh⟩, _ | ⟨⟨t', fresh'⟩, ms⟩⟩
  · simp [h] at h₀
  · simp [h] at h₁
  · simp only [seesAnyWord_eq, h, List.getElem?_cons_zero, List.getElem?_cons_succ,
      Option.map_some, Option.bind_some] at h₀ h₁
    obtain ⟨w, rfl⟩ := Token.eq_word_of_word? h₀
    obtain ⟨v, rfl⟩ := Token.eq_word_of_word? h₁
    exact ⟨w, v, fresh, fresh', ms, rfl⟩

namespace Rule

variable {c : Cursor} {ps : List Piece}

/-- A result that does not begin like a predicate is a type. -/
theorem resultType_plain {post : TypeExpr → Cursor → Prop}
    (hplain : ∀ {w v fresh fresh' ms}, c.ahead = (.word w, fresh) :: (.word v, fresh') :: ms →
      w ≠ "asserts" ∧ v ≠ "is")
    (h : Meets (total typeExpr) c post) : Meets (total resultType) c post := by
  refine meets_total (meets_get (meets_if_neg ?_ (meets_if_neg ?_ h)))
  · intro hasserts
    simp only [Bool.and_eq_true] at hasserts
    obtain ⟨w, v, fresh, fresh', ms, hahead⟩ := Cursor.ahead_of_words
      (Cursor.seesAnyWord_of_seesWord hasserts.1.1) hasserts.1.2
    exact (hplain hahead).1 (by simpa [hahead] using hasserts.1.1)
  · intro his
    simp only [Bool.and_eq_true] at his
    obtain ⟨w, v, fresh, fresh', ms, hahead⟩ := Cursor.ahead_of_words his.1
      (Cursor.seesAnyWord_of_seesWord his.2)
    exact (hplain hahead).2 (by simpa [hahead] using his.2)

/-- A type that does not look like a predicate is read back as a result. -/
theorem readsBack_resultType {t : TypeExpr} (ht : t.Annotates true) :
    resultType.ReadsBack closers t := by
  intro c ps h hps
  refine resultType_plain ?_ (readsAt_of_canonical ht.canonical h hps)
  intro w v fresh fresh' ms hahead
  rcases ht.canonical.second_word (h.symm.trans hahead) with ⟨rfl, hprefix⟩ | ⟨-, hmarks⟩
  · refine ⟨by decide, ?_⟩
    rintro rfl
    exact ht.result rfl hprefix
  · obtain ⟨t, ms', hms, hstop⟩ := hps
    have hclosers : ∀ t ∈ closers, t.word? = none := by decide
    obtain rfl : t = .word v := congrArg Prod.fst (List.cons.inj (hms.symm.trans hmarks)).1
    cases hclosers _ hstop

/-- A colon and a type, if there is one, in front of a semicolon. -/
theorem annotationBody_pieces {part : Rule TypeExpr} {type : Option TypeExpr}
    (htype : ∀ t ∈ type, part.ReadsBack closers t)
    (h : c.ahead = Piece.marks false (colonPieces type ++ .sign ';' :: ps)) :
    (annotationBody total part).Meets c fun type' c' =>
      mapSpanOption .unplaced type' = mapSpanOption .unplaced type ∧
        c'.ahead = Piece.marks false (.sign ';' :: ps) := by
  cases type with
  | none => exact meets_bind (meets_eat_neg h Token.noConfusion (meets_pure ⟨rfl, h⟩))
  | some t => exact annotationBody_type (htype t rfl) h ⟨_, _, rfl, by decide⟩

/-- A type behind a colon, or none, is read up to the semicolon. -/
theorem annotation_pieces {type : Option TypeExpr} (htype : ∀ t ∈ type, t.Annotates false)
    (h : c.ahead = Piece.marks false (colonPieces type ++ .sign ';' :: ps)) :
    Meets (total annotated) c fun type' c' =>
      mapSpanOption .unplaced type' = mapSpanOption .unplaced type ∧
        c'.ahead = Piece.marks false (.sign ';' :: ps) :=
  meets_total (annotationBody_pieces (fun t ht => readsAt_of_canonical (htype t ht).canonical) h)

/-- So is a result, which must not look like a predicate. -/
theorem resultAnnotation_pieces {type : Option TypeExpr} (htype : ∀ t ∈ type, t.Annotates true)
    (h : c.ahead = Piece.marks false (colonPieces type ++ .sign ';' :: ps)) :
    Meets (total annotatedResult) c fun type' c' =>
      mapSpanOption .unplaced type' = mapSpanOption .unplaced type ∧
        c'.ahead = Piece.marks false (.sign ';' :: ps) :=
  meets_total (annotationBody_pieces (fun t ht => readsBack_resultType (htype t ht)) h)

end Rule

-- ── Names of members ─────────────────────────────────────────────────────────────

/-- The token that the name of a member is read as. -/
def memberNameToken (name : String) : Token :=
  if isIdentifier name then .word name
  else if isPrivateName name then .privateName name
  else .string name

@[simp] theorem marks_memberNamePiece (fresh : Bool) (name : String) (ps : List Piece) :
    Piece.marks fresh (memberNamePiece name :: ps) =
      (memberNameToken name, fresh) :: Piece.marks false ps := by
  unfold memberNamePiece memberNameToken
  split
  · rfl
  · split <;> rfl

/-- A name of a member is a word, a private name or a string. -/
theorem memberNameToken_eq (name : String) : memberNameToken name = .word name ∨
    memberNameToken name = .privateName name ∨ memberNameToken name = .string name := by
  unfold memberNameToken
  split
  · exact .inl rfl
  · split
    · exact .inr (.inl rfl)
    · exact .inr (.inr rfl)

/-- Tokens that the names of members, and the words in front of them, are read as. -/
def Token.isNominal : Token → Bool
  | .word _ | .privateName _ | .string _ => true
  | _ => false

theorem isNominal_memberNameToken (name : String) : (memberNameToken name).isNominal = true := by
  rcases memberNameToken_eq name with h | h | h <;> rw [h] <;> rfl

theorem Token.startsMemberName_of_isNominal {t : Token} (h : t.isNominal = true) :
    t.startsMemberName = true := by
  cases t <;> first | rfl | exact nomatch h

theorem Token.ne_of_isNominal {t t' : Token} (h : t.isNominal = true) (h' : t'.isNominal = false) :
    t ≠ t' := by
  rintro rfl
  exact Bool.false_ne_true (h'.symm.trans h)

/-- Tokens that may stand behind the name of a member. -/
def signatureStops : List Token := [.question, .openParen, .colon, .semicolon]

/-- Behind a member without a type there is a semicolon. -/
def EndsSignature (type : Option TypeExpr) (tail : List Piece) : Prop :=
  type = none → Follows [.semicolon] (Piece.marks false tail)

/-- A semicolon ends a member of any kind. -/
theorem endsSignature_semicolon (type : Option TypeExpr) (ps : List Piece) :
    EndsSignature type (.sign ';' :: ps) :=
  fun _ => ⟨_, _, rfl, List.mem_singleton_self _⟩

/-- What follows a name without a mark: parentheses, a type or the end. -/
theorem follows_callPieces (callable : Bool) {type : Option TypeExpr} {tail : List Piece}
    (htail : EndsSignature type tail) :
    Follows [.openParen, .colon, .semicolon]
      (Piece.marks false (callPieces callable type ++ tail)) := by
  cases callable with
  | true => exact ⟨_, _, rfl, by decide⟩
  | false =>
      cases type with
      | none => exact (htail rfl).mono (by decide)
      | some t => exact ⟨_, _, rfl, by decide⟩

/-- What follows the name of a member ends it. -/
theorem follows_signature (optional callable : Bool) {type : Option TypeExpr} {tail : List Piece}
    (htail : EndsSignature type tail) :
    Follows signatureStops
      (Piece.marks false (signaturePieces optional callable type ++ tail)) := by
  cases optional with
  | true => exact ⟨_, _, rfl, by decide⟩
  | false => exact (follows_callPieces callable htail).mono (by decide)

/-- A member with a name begins with a word, a private name or a string, and a second name stands
    only behind the words of accessors. -/
theorem marks_named (kind : MemberKind) (name : String) {own : List Piece} (fresh : Bool)
    (hown : Follows signatureStops (Piece.marks false own)) :
    ∃ t₁ t₂ ms, Piece.marks fresh (kind.pieces ++ memberNamePiece name :: own) =
        (t₁, fresh) :: (t₂, false) :: ms ∧ t₁.isNominal = true ∧ t₂ ≠ .openBrace ∧
      (t₂.startsMemberName = true → t₁ = .word "get" ∨ t₁ = .word "set") := by
  have hname := isNominal_memberNameToken name
  have hplain : ∃ t₁ t₂ ms, Piece.marks fresh (memberNamePiece name :: own) =
        (t₁, fresh) :: (t₂, false) :: ms ∧ t₁.isNominal = true ∧ t₂ ≠ .openBrace ∧
      (t₂.startsMemberName = true → t₁ = .word "get" ∨ t₁ = .word "set") := by
    obtain ⟨t, ms, hms, ht⟩ := hown
    have hnot : ∀ t ∈ signatureStops, t.startsMemberName = false := by decide
    refine ⟨memberNameToken name, t, ms, by simp [hms], hname,
      ne_of_mem_of_not_mem ht (by decide), fun hstarts => ?_⟩
    rw [hnot t ht] at hstarts
    exact nomatch hstarts
  cases kind with
  | getter =>
      refine ⟨.word "get", memberNameToken name, Piece.marks false own, ?_, rfl,
        Token.ne_of_isNominal hname rfl, fun _ => .inl rfl⟩
      simp [MemberKind.pieces, Piece.marks]
  | setter =>
      refine ⟨.word "set", memberNameToken name, Piece.marks false own, ?_, rfl,
        Token.ne_of_isNominal hname rfl, fun _ => .inr rfl⟩
      simp [MemberKind.pieces, Piece.marks]
  | _ => exact hplain

/-- The accessor that members of a kind are. -/
def MemberKind.accessor? : MemberKind → Option MemberKind
  | .getter => some .getter
  | .setter => some .setter
  | _ => none

/-- The kind that a member with a name is read as: an accessor, `called` if it has parentheses, and
    else `plain`. -/
def MemberKind.named (kind called plain : MemberKind) : MemberKind :=
  if kind.isCallable then kind.accessor?.getD called else plain

namespace Parser

variable {c : Cursor} {ps : List Piece}

/-- A name of a member is read as it was written. -/
theorem memberName_pieces {name : String} {fresh : Bool} {ms : List Mark}
    (h : c.ahead = (memberNameToken name, fresh) :: ms) :
    memberName.Meets c fun name' c' => name' = some name ∧ c'.ahead = ms := by
  obtain ⟨l, ls, hr, hl, -, -⟩ := map_mark_eq_cons h
  refine meets_get ?_
  rcases memberNameToken_eq name with hname | hname | hname <;> rw [hname] at hl <;>
    simp only [hr, hl] <;>
    exact meets_bind (meets_bump_ahead h fun c₁ h₁ => meets_pure ⟨rfl, h₁⟩)

/-- The word of an accessor is read if it was written, and only then. -/
theorem accessorKind_pieces {kind : MemberKind} {name : String} {fresh : Bool} {own : List Piece}
    (hown : Follows signatureStops (Piece.marks false own))
    (h : c.ahead = Piece.marks fresh (kind.pieces ++ memberNamePiece name :: own)) :
    accessorKind.Meets c fun accessor c' => accessor = kind.accessor? ∧
      ∃ fresh, c'.ahead = (memberNameToken name, fresh) :: Piece.marks false own := by
  have hname := Token.startsMemberName_of_isNominal (isNominal_memberNameToken name)
  have hplain (h : c.ahead = Piece.marks fresh (memberNamePiece name :: own)) :
      accessorKind.Meets c fun accessor c' => accessor = none ∧
        ∃ fresh, c'.ahead = (memberNameToken name, fresh) :: Piece.marks false own := by
    obtain ⟨t, ms, hms, ht⟩ := hown
    rw [marks_memberNamePiece] at h
    have h' := h
    rw [hms] at h'
    have hnot : ∀ t ∈ signatureStops, t.startsMemberName = false := by decide
    refine (accessorKind_none h' (hnot t ht)).mono ?_
    rintro _ _ - ⟨rfl, rfl⟩
    exact ⟨rfl, fresh, h⟩
  cases kind with
  | getter =>
      have h : c.ahead = (.word "get", fresh) :: (memberNameToken name, false) ::
          Piece.marks false own := by
        simpa [MemberKind.pieces, Piece.marks] using h
      refine meets_get (meets_if_pos (by simp [Cursor.seesMemberName, h, hname]) ?_)
      exact meets_bind (meets_bump_ahead h fun c₁ h₁ => meets_pure ⟨rfl, false, h₁⟩)
  | setter =>
      have h : c.ahead = (.word "set", fresh) :: (memberNameToken name, false) ::
          Piece.marks false own := by
        simpa [MemberKind.pieces, Piece.marks] using h
      refine meets_get (meets_if_neg (by simp [h]) (meets_if_pos ?_ ?_))
      · simp [Cursor.seesMemberName, h, hname]
      · exact meets_bind (meets_bump_ahead h fun c₁ h₁ => meets_pure ⟨rfl, false, h₁⟩)
  | _ => exact hplain h

/-- A bracketed region is read over as a whole. -/
theorem meets_skipBrackets_pieces {o k : Char} {fresh : Bool} {own : List Piece}
    (hcloser : (loneToken o).closer? = some (loneToken k))
    (hown : Woven .block (Piece.tokens own)) {post : Unit → Cursor → Prop}
    (h : c.ahead = Piece.marks fresh (.sign o :: (own ++ .sign k :: ps)))
    (hpost : ∀ c', c'.ahead = Piece.marks false ps → post () c') :
    skipBrackets.Meets c post := by
  have htokens : c.rest.map Lexeme.token =
      loneToken o :: (Piece.tokens own ++ loneToken k :: Piece.tokens ps) := by
    rw [Cursor.map_token_rest, h, Piece.map_fst_marks, Piece.tokens_cons, Piece.tokens_append,
      Piece.tokens_cons]
    rfl
  obtain ⟨l, inner, l', ls, hrest, hl, hinner, hl', -⟩ := map_token_eq_group htokens
  rw [← hl, ← hl'] at hcloser
  refine meets_skip ?_
  rw [hrest, bracketExtent_group hcloser (hown.balanced hinner)]
  refine hpost _ ?_
  have hlength : inner.length + 2 = (Piece.tokens (.sign o :: own)).length + 1 := by
    rw [Piece.tokens_cons, ← hinner]
    simp [Piece.token?]
  rw [Cursor.ahead_advance, h, hlength, ← List.cons_append]
  exact Piece.drop_marks fresh _ (p := .sign k) (Option.some_ne_none _) ps

/-- Parentheses with nothing between them. -/
theorem meets_parens {fresh : Bool} {post : Unit → Cursor → Prop}
    (h : c.ahead = Piece.marks fresh (.sign '(' :: .sign ')' :: ps))
    (hpost : ∀ c', c'.ahead = Piece.marks false ps → post () c') : skipBrackets.Meets c post := by
  have h : c.ahead = Piece.marks fresh (.sign '(' :: ([] ++ .sign ')' :: ps)) := h
  exact meets_skipBrackets_pieces rfl .nil h hpost

end Parser

-- ── Members of classes ───────────────────────────────────────────────────────────

namespace Rule

variable {c : Cursor} {ps : List Piece} (call : Callees)

/-- A class member behind its name. -/
def classMemberNamed (start : Span) (isStatic : Bool) (accessor : Option MemberKind)
    (name : Option String) : Parser Member := do
  let optional ← eat .question
  let _ ← eat .bang
  let c ← get
  if c.isAt .less then skipAngles
  let c ← get
  if c.isAt .openParen then
    skipBrackets
    let type ← call annotatedResult
    let c ← get
    if c.isAt .openBrace then skipBrackets
    else
      let _ ← eat .semicolon
    let kind := accessor.getD (if name = some "constructor" then .constructor else .method)
    let c ← get
    pure ⟨kind, name, type, isStatic, optional, c.spanFrom start⟩
  else
    let type ← call annotated
    if ← eat .equals then skipInitializer
    let _ ← eat .semicolon
    let c ← get
    pure ⟨.property, name, type, isStatic, optional, c.spanFrom start⟩

/-- A class member behind its modifiers. -/
def classMemberTail (start : Span) (isStatic : Bool) : Parser Member := do
  let c ← get
  if c.atWord "static" && c.sees 1 .openBrace then
    bump
    skipBrackets
    let c ← get
    pure ⟨.staticBlock, none, none, true, false, c.spanFrom start⟩
  else if c.atIndexSignature then call (indexSignature start isStatic)
  else
    let _ ← eat .star
    let accessor ← accessorKind
    let name ← memberName
    classMemberNamed call start isStatic accessor name

/-- A member of a class is read with its modifiers first, and then with what they say. -/
theorem classMemberBody_eq : classMemberBody call = (do
    let start := (← get).here
    skipDecorators
    let modifiers ← taking fun ls =>
      (leadingMemberModifiers ls, (leadingMemberModifiers ls).length)
    classMemberTail call start (modifiers.contains "static")) := rfl

/-- Without parentheses, none are found. -/
theorem not_isAt_openParen {type : Option TypeExpr} {tail : List Piece}
    (htail : EndsSignature type tail)
    (h : c.ahead = Piece.marks false (callPieces false type ++ tail)) :
    ¬ c.isAt .openParen = true := by
  cases type with
  | none =>
      obtain ⟨t, ms, hms, ht⟩ := htail rfl
      have hparen : t ≠ .openParen := ne_of_mem_of_not_mem ht (by decide)
      simp [h, callPieces, colonPieces, hms, hparen]
  | some t => simp [h, callPieces, colonPieces, Piece.marks, loneToken]

/-- Behind its name, a member of a class is read through its semicolon. -/
theorem classMemberNamed_pieces {kind : MemberKind} {name : String} {type : Option TypeExpr}
    {optional : Bool} (start : Span) (isStatic : Bool)
    (htype : ∀ t ∈ type, t.Annotates kind.isCallable)
    (h : c.ahead = Piece.marks false
      (signaturePieces optional kind.isCallable type ++ .sign ';' :: ps)) :
    (classMemberNamed total start isStatic kind.accessor? (some name)).Meets c fun m c' =>
      m.mapSpan .unplaced =
          ⟨kind.named (if name = "constructor" then .constructor else .method) .property, some name,
            mapSpanOption .unplaced type, isStatic, optional, .empty .origin⟩ ∧
        c'.ahead = Piece.marks false ps := by
  have hcall := follows_callPieces kind.isCallable (endsSignature_semicolon type ps)
  rw [signaturePieces, List.append_assoc] at h
  refine meets_bind ((eat_optional (by decide) hcall h).mono ?_)
  rintro _ c₁ - ⟨rfl, h₁⟩
  obtain ⟨t₁, ms, hms, ht₁⟩ := hcall
  have h₁' := h₁.trans hms
  have hless : t₁ ≠ .less := ne_of_mem_of_not_mem ht₁ (by decide)
  refine meets_bind (meets_eat_neg h₁' (ne_of_mem_of_not_mem ht₁ (by decide)) (meets_get ?_))
  refine meets_if_neg (by simp [h₁', hless]) (meets_get ?_)
  cases hcallable : kind.isCallable with
  | true =>
      rw [hcallable] at htype h₁
      refine meets_if_pos (by simp [h₁, callPieces, Piece.marks, loneToken]) ?_
      refine meets_bind (meets_parens h₁ fun c₂ h₂ => ?_)
      refine meets_bind ((resultAnnotation_pieces htype h₂).mono ?_)
      rintro type' c₃ - ⟨htype', h₃⟩
      refine meets_get (meets_if_neg (by simp [h₃, Piece.marks, loneToken]) ?_)
      refine meets_bind (meets_eat_pos h₃ fun c₄ h₄ => meets_get (meets_pure ⟨?_, h₄⟩))
      simp [Member.mapSpan, MemberKind.named, htype', hcallable]
  | false =>
      rw [hcallable] at htype h₁
      refine meets_if_neg (not_isAt_openParen (endsSignature_semicolon _ _) h₁) ?_
      refine meets_bind ((annotation_pieces htype h₁).mono ?_)
      rintro type' c₂ - ⟨htype', h₂⟩
      refine meets_bind (meets_eat_neg h₂ Token.noConfusion ?_)
      refine meets_bind (meets_eat_pos h₂ fun c₃ h₃ => meets_get (meets_pure ⟨?_, h₃⟩))
      simp [Member.mapSpan, MemberKind.named, htype', hcallable]

/-- A class member with a name, behind its modifiers. -/
theorem classMemberTail_named {kind : MemberKind} {name : String} {type : Option TypeExpr}
    {optional fresh : Bool} (start : Span) (isStatic : Bool)
    (htype : ∀ t ∈ type, t.Annotates kind.isCallable)
    (h : c.ahead = Piece.marks fresh (kind.pieces ++ memberNamePiece name ::
      (signaturePieces optional kind.isCallable type ++ .sign ';' :: ps))) :
    (classMemberTail total start isStatic).Meets c fun m c' =>
      m.mapSpan .unplaced =
          ⟨kind.named (if name = "constructor" then .constructor else .method) .property, some name,
            mapSpanOption .unplaced type, isStatic, optional, .empty .origin⟩ ∧
        c'.ahead = Piece.marks false ps := by
  have hsignature := follows_signature optional kind.isCallable (endsSignature_semicolon type ps)
  obtain ⟨t₁, t₂, ms, hms, ht₁, ht₂, -⟩ := marks_named kind name fresh hsignature
  have h' := h.trans hms
  have hbracket : t₁ ≠ .openBracket := Token.ne_of_isNominal ht₁ rfl
  refine meets_get (meets_if_neg (by simp [h', ht₂]) ?_)
  refine meets_if_neg (by simp [h', Cursor.atIndexSignature, hbracket]) ?_
  refine meets_bind (meets_eat_neg h' (Token.ne_of_isNominal ht₁ rfl) ?_)
  refine meets_bind ((accessorKind_pieces hsignature h).mono ?_)
  rintro _ c₁ - ⟨rfl, fresh', h₁⟩
  refine meets_bind ((memberName_pieces h₁).mono ?_)
  rintro _ c₂ - ⟨rfl, h₂⟩
  exact classMemberNamed_pieces start isStatic htype h₂

/-- An index signature, up to its semicolon. -/
theorem indexSignature_pieces {t : TypeExpr} {fresh : Bool} (start : Span) (isStatic : Bool)
    (ht : t.Annotates false)
    (h : c.ahead = Piece.marks fresh (.sign '[' :: .word "k" :: .sign ':' :: .space ::
      .word "string" :: .sign ']' :: (colonPieces (some t) ++ .sign ';' :: ps))) :
    Meets (total (indexSignature start isStatic)) c fun m c' =>
      m.mapSpan .unplaced =
          ⟨.indexer, none, some (t.mapSpan .unplaced), isStatic, false, .empty .origin⟩ ∧
        c'.ahead = Piece.marks false (.sign ';' :: ps) := by
  have h : c.ahead = Piece.marks fresh (.sign '[' ::
    ([.word "k", .sign ':', .space, .word "string"] ++ .sign ']' ::
      (colonPieces (some t) ++ .sign ';' :: ps))) := h
  have hkey : Woven .block (Piece.tokens [.word "k", .sign ':', .space, .word "string"]) :=
    .plain rfl rfl (by decide) (.plain rfl rfl (by decide) (.plain rfl rfl (by decide) .nil))
  refine meets_total (meets_bind (meets_skipBrackets_pieces rfl hkey h fun c₁ h₁ => ?_))
  refine meets_bind (meets_eat_neg h₁ Token.noConfusion ?_)
  refine meets_bind ((annotation_pieces (fun _ heq => Option.some.inj heq ▸ ht) h₁).mono ?_)
  rintro type' c₂ - ⟨htype', h₂⟩
  refine meets_get (meets_pure ⟨?_, h₂⟩)
  rw [Member.mapSpan, htype']
  rfl

/-- The pieces begin like a member without modifiers. -/
def Unmodified (own : List Piece) : Prop :=
  ∀ fresh, ∃ t₁ t₂ ms, Piece.marks fresh own = (t₁, fresh) :: (t₂, false) :: ms ∧
    t₁.startsMemberName = true ∧
    ∀ w, t₁ = .word w → memberModifiers.contains w = true → t₂.startsMemberName = false

/-- A member with a name is not taken for a modifier, although its name may be the word for one. -/
theorem unmodified_named (kind : MemberKind) (name : String) {own : List Piece}
    (hown : Follows signatureStops (Piece.marks false own)) :
    Unmodified (kind.pieces ++ memberNamePiece name :: own) := by
  intro fresh
  obtain ⟨t₁, t₂, ms, hms, ht₁, -, haccessor⟩ := marks_named kind name fresh hown
  refine ⟨t₁, t₂, ms, hms, Token.startsMemberName_of_isNominal ht₁, fun w hw hmodifier => ?_⟩
  rw [Bool.eq_false_iff]
  intro hstarts
  -- the words of accessors are no modifiers
  rcases haccessor hstarts with hget | hset
  · obtain rfl : w = "get" := by simpa using hw.symm.trans hget
    exact absurd hmodifier (by decide)
  · obtain rfl : w = "set" := by simpa using hw.symm.trans hset
    exact absurd hmodifier (by decide)

/-- A word in front of no name is no modifier. -/
theorem leadingMemberModifiers_eq_nil {ls : List Lexeme} {t₁ t₂ : Token} {fresh fresh' : Bool}
    {ms : List Mark} (h : ls.map Lexeme.mark = (t₁, fresh) :: (t₂, fresh') :: ms)
    (hnot : ∀ w, t₁ = .word w → memberModifiers.contains w = true →
      t₂.startsMemberName = false) : leadingMemberModifiers ls = [] := by
  obtain ⟨l, ls, rfl, hl, -, h⟩ := map_mark_eq_cons h
  obtain ⟨l', ls, rfl, hl', -, -⟩ := map_mark_eq_cons h
  rw [leadingMemberModifiers]
  split
  · next w hw =>
    refine if_neg ?_
    simp only [Bool.and_eq_true, not_and]
    intro hmodifier
    rw [hl', hnot w (hl.symm.trans hw) hmodifier]
    exact Bool.false_ne_true
  · rfl

/-- The word `static` in front of a member is its only modifier. -/
theorem classMemberBody_modified {own : List Piece} {isStatic fresh : Bool}
    (hown : Unmodified own) {post : Member → Cursor → Prop}
    (h : c.ahead = Piece.marks fresh ((if isStatic then [.word "static", .space] else []) ++ own))
    (htail : ∀ start c' fresh', c'.ahead = Piece.marks fresh' own →
      (classMemberTail total start isStatic).Meets c' post) :
    (classMemberBody total).Meets c post := by
  rw [classMemberBody_eq]
  cases isStatic with
  | false =>
      have h : c.ahead = Piece.marks fresh own := h
      obtain ⟨t₁, t₂, ms, hms, ht₁, hnot⟩ := hown fresh
      have hdecorator : t₁ ≠ .atSign := by
        rintro rfl
        exact nomatch ht₁
      refine meets_get (meets_bind (meets_skipDecorators (h.trans hms) hdecorator ?_))
      refine meets_bind (meets_taking ?_)
      rw [leadingMemberModifiers_eq_nil (h.trans hms) hnot]
      exact htail _ _ _ h
  | true =>
      have h : c.ahead = (.word "static", fresh) :: Piece.marks false own := h
      obtain ⟨t₁, t₂, ms, hms, ht₁, hnot⟩ := hown false
      have hmodifiers : leadingMemberModifiers c.rest = ["static"] := by
        obtain ⟨l, ls, hr, hl, -, hls⟩ := map_mark_eq_cons h
        have hrest := leadingMemberModifiers_eq_nil (hls.trans hms) hnot
        obtain ⟨l', ls, rfl, hl', -, -⟩ := map_mark_eq_cons (hls.trans hms)
        rw [hr, leadingMemberModifiers]
        simp [hl, hl', ht₁, hrest, memberModifiers]
      refine meets_get (meets_bind (meets_skipDecorators h Token.noConfusion ?_))
      refine meets_bind (meets_taking ?_)
      rw [hmodifiers]
      exact htail _ _ _ (by rw [Cursor.ahead_advance, h]; rfl)

/-- A static block, up to its semicolon. -/
theorem classMemberBody_staticBlock {fresh : Bool}
    (h : c.ahead = Piece.marks fresh (.word "static" :: .space :: .sign '\x7b' :: .space ::
      .sign '\x7d' :: ps)) :
    (classMemberBody total).Meets c fun m c' =>
      m.mapSpan .unplaced = ⟨.staticBlock, none, none, true, false, .empty .origin⟩ ∧
        c'.ahead = Piece.marks false ps := by
  have h' : c.ahead = (.word "static", fresh) :: (.openBrace, false) :: _ := h
  rw [classMemberBody_eq]
  refine meets_get (meets_bind (meets_skipDecorators h Token.noConfusion ?_))
  refine meets_bind (meets_taking ?_)
  rw [leadingMemberModifiers_eq_nil h' fun _ _ _ => rfl]
  refine meets_get (meets_if_pos (by simp [h', Cursor.advance]) ?_)
  refine meets_bind (meets_bump_ahead h' fun c₁ h₁ => ?_)
  have h₁ : c₁.ahead = Piece.marks false (.sign '\x7b' :: ([.space] ++ .sign '\x7d' :: ps)) := h₁
  refine meets_bind (meets_skipBrackets_pieces rfl .nil h₁ fun c₂ h₂ => ?_)
  exact meets_get (meets_pure ⟨rfl, h₂⟩)

theorem unmodified_clause {m : Member} (hm : m.OfClass) (hkind : m.kind ≠ .staticBlock)
    (ps : List Piece) : Unmodified (m.clause ++ .sign ';' :: ps) := by
  have hnamed (kind : MemberKind) (name : String) (optional callable : Bool)
      (type : Option TypeExpr) : Unmodified ((kind.pieces ++ memberNamePiece name ::
        signaturePieces optional callable type) ++ .sign ';' :: ps) := by
    rw [List.append_assoc, List.cons_append]
    exact unmodified_named kind name (follows_signature _ _ (endsSignature_semicolon _ _))
  cases hm with
  | property | method | getter | setter | constructor => exact hnamed _ _ _ _ _
  | indexer => exact fun fresh => ⟨_, _, _, rfl, rfl, nofun⟩
  | staticBlock => exact absurd rfl hkind

/-- A class member is read back.  Index signatures and static blocks leave the semicolon. -/
theorem classMemberBody_pieces {m : Member} (hm : m.OfClass) {fresh : Bool}
    (h : c.ahead = Piece.marks fresh (m.line ++ ps)) :
    (classMemberBody total).Meets c fun m' c' => m'.mapSpan .unplaced = m.mapSpan .unplaced ∧
      (c'.ahead = Piece.marks false ps ∨ c'.ahead = Piece.marks false (.sign ';' :: ps)) := by
  rw [Member.line, List.append_assoc, List.append_assoc] at h
  have hnamed (kind : MemberKind) {name : String} {type : Option TypeExpr}
      {isStatic optional : Bool} (htype : ∀ t ∈ type, t.Annotates kind.isCallable)
      (hkind : kind.named (if name = "constructor" then .constructor else .method) .property = kind)
      (h : c.ahead = Piece.marks fresh ((if isStatic then [.word "static", .space] else []) ++
        ((kind.pieces ++ memberNamePiece name :: signaturePieces optional kind.isCallable type) ++
          .sign ';' :: .space :: ps))) :
      (classMemberBody total).Meets c fun m' c' =>
        m'.mapSpan .unplaced =
            ⟨kind, some name, mapSpanOption .unplaced type, isStatic, optional, .empty .origin⟩ ∧
          (c'.ahead = Piece.marks false ps ∨ c'.ahead = Piece.marks false (.sign ';' :: ps)) := by
    rw [List.append_assoc kind.pieces, List.cons_append] at h
    refine classMemberBody_modified (unmodified_named kind name
      (follows_signature _ _ (endsSignature_semicolon _ _))) h ?_
    intro start c₁ fresh' h₁
    refine (classMemberTail_named start isStatic htype h₁).mono ?_
    rintro m' c₂ - ⟨hm', h₂⟩
    rw [hkind] at hm'
    exact ⟨hm', .inl h₂⟩
  have hm' := hm
  cases hm with
  | property htype => exact hnamed .property htype rfl h
  | method hname htype =>
      refine hnamed .method htype ?_ h
      simp [MemberKind.named, MemberKind.isCallable, MemberKind.accessor?, hname]
  | getter htype => exact hnamed .getter htype rfl h
  | setter htype => exact hnamed .setter htype rfl h
  | constructor => exact hnamed .constructor (by rintro _ ⟨⟩) rfl h
  | @indexer t isStatic span ht =>
      refine classMemberBody_modified (unmodified_clause hm' MemberKind.noConfusion _) h ?_
      intro start c₁ fresh' h₁
      refine meets_get (meets_if_neg ?_ (meets_if_pos ?_ ?_))
      · simp [h₁, Member.clause, Piece.marks]
      · simp [h₁, Member.clause, Piece.marks, Cursor.atIndexSignature, loneToken, Token.word?]
      · refine (indexSignature_pieces start isStatic ht h₁).mono ?_
        rintro m' c₂ - ⟨hm', h₂⟩
        exact ⟨hm', .inr h₂⟩
  | staticBlock =>
      refine (classMemberBody_staticBlock h).mono ?_
      rintro m' c₁ - ⟨hm', h₁⟩
      exact ⟨hm', .inr h₁⟩

/-- The line of a member begins with what members begin with. -/
theorem marks_line {m : Member} (hm : m.OfClass) (fresh : Bool) (ps : List Piece) :
    ∃ t ms, Piece.marks fresh (m.line ++ ps) = (t, fresh) :: ms ∧ t.startsMemberName = true := by
  rw [Member.line, List.append_assoc, List.append_assoc]
  cases hstatic : m.isStatic with
  | true => exact ⟨_, _, rfl, rfl⟩
  | false =>
      have hkind : m.kind ≠ .staticBlock := by
        cases hm with
        | staticBlock => cases hstatic
        | _ => exact MemberKind.noConfusion
      obtain ⟨t, _, ms, hms, ht, -⟩ := unmodified_clause hm hkind (.space :: ps) fresh
      exact ⟨t, _, hms, ht⟩

/-- The members of a class are read back, one line after the other. -/
theorem classMembers_pieces {ms : List Member} (hms : ∀ m ∈ ms, m.OfClass) :
    ∀ {c : Cursor} {fresh : Bool},
      c.ahead = Piece.marks fresh (ms.flatMap Member.line ++ .sign '\x7d' :: ps) →
      Meets (total classMembers) c fun ms' c' =>
        mapSpanMembers .unplaced ms' = mapSpanMembers .unplaced ms ∧
          c'.ahead = Piece.marks false ps := by
  induction ms with
  | nil =>
      intro c fresh h
      have hpeek : c.peek = some .closeBrace := by simp [h, Piece.marks, loneToken]
      refine meets_total (meets_get ?_)
      rw [hpeek]
      exact meets_bind (meets_bump_ahead h fun c₁ h₁ => meets_pure ⟨rfl, h₁⟩)
  | cons m ms ih =>
      intro c fresh h
      obtain ⟨hm, hms⟩ := List.forall_mem_cons.mp hms
      rw [List.flatMap_cons, List.append_assoc] at h
      generalize hrest : ms.flatMap Member.line ++ .sign '\x7d' :: ps = rest at h ih
      obtain ⟨t, marks, hmarks, ht⟩ := marks_line hm fresh rest
      have hpeek : c.peek = some t := by simp [h, hmarks]
      -- where the semicolon is left, the next turn reads it
      have hnext {c₁ : Cursor} (h₁ : c₁.ahead = Piece.marks false rest ∨
          c₁.ahead = Piece.marks false (.sign ';' :: rest)) :
          Meets (total classMembers) c₁ fun ms' c' =>
            mapSpanMembers .unplaced ms' = mapSpanMembers .unplaced ms ∧
              c'.ahead = Piece.marks false ps := by
        rcases h₁ with h₁ | h₁
        · exact ih hms h₁
        · have hpeek : c₁.peek = some .semicolon := by simp [h₁, Piece.marks, loneToken]
          refine meets_total (meets_get ?_)
          rw [hpeek]
          exact meets_bind (meets_bump_ahead h₁ fun c₂ h₂ => ih hms h₂)
      refine meets_total (meets_get ?_)
      rw [hpeek]
      split
      · next hnone => cases hnone
      · next hbrace => exact absurd ht (by rw [Option.some.inj hbrace]; decide)
      · next hsemicolon => exact absurd ht (by rw [Option.some.inj hsemicolon]; decide)
      · refine meets_bind ((classMemberBody_pieces hm h).mono ?_)
        rintro m' c₁ hlead ⟨hm', h₁⟩
        refine meets_get (meets_if_neg ?_ (meets_bind ((hnext h₁).mono ?_)))
        · intro heq
          rw [hlead.eq_of_remaining heq] at h₁
          rcases h₁ with h₁ | h₁
          · have hsame := congrArg List.length (h.symm.trans h₁)
            have hline : Piece.tokens m.line ≠ [] := by simp [Member.line, Piece.token?]
            rw [Piece.length_marks, Piece.length_marks, Piece.tokens_append, List.length_append,
              Nat.add_eq_right, List.length_eq_zero_iff] at hsame
            exact hline hsame
          · obtain rfl : t = .semicolon :=
              congrArg Prod.fst (List.cons.inj (hmarks.symm.trans (h.symm.trans h₁))).1
            cases ht
        · rintro ms' c₂ - ⟨hms', h₂⟩
          exact meets_pure ⟨by rw [mapSpanMembers, mapSpanMembers, hm', hms'], h₂⟩

-- ── Members of interfaces ────────────────────────────────────────────────────────

/-- Parentheses and a result, up to the semicolon. -/
theorem signature_pieces (kind : MemberKind) (start : Span) {type : Option TypeExpr} {fresh : Bool}
    (htype : ∀ t ∈ type, t.Annotates true)
    (h : c.ahead = Piece.marks fresh (signaturePieces false true type ++ .sign ';' :: ps)) :
    Meets (total (signature kind start)) c fun m c' =>
      m.mapSpan .unplaced =
          ⟨kind, none, mapSpanOption .unplaced type, false, false, .empty .origin⟩ ∧
        c'.ahead = Piece.marks false (.sign ';' :: ps) := by
  have h' : c.ahead = (.openParen, fresh) :: _ := h
  refine meets_total (meets_get (meets_if_neg (by simp [h']) (meets_get ?_)))
  refine meets_if_pos (by simp [h']) (meets_bind (meets_parens h fun c₁ h₁ => ?_))
  refine meets_bind ((resultAnnotation_pieces htype h₁).mono ?_)
  rintro type' c₂ - ⟨htype', h₂⟩
  exact meets_get (meets_pure ⟨by rw [Member.mapSpan, htype', Span.unplaced_eq], h₂⟩)

/-- The word `new` is told from the name of a method by what follows it. -/
theorem not_atConstruct {kind : MemberKind} {name : String} {type : Option TypeExpr}
    {optional fresh : Bool} {tail : List Piece} (htail : EndsSignature type tail)
    (hkind : kind.named .methodSignature .propertySignature = kind)
    (hnew : kind = .methodSignature → name = "new" → optional = true)
    (h : c.ahead = Piece.marks fresh (kind.pieces ++ memberNamePiece name ::
      (signaturePieces optional kind.isCallable type ++ tail))) :
    ¬ (c.atWord "new" && (c.sees 1 .openParen || c.sees 1 .less)) = true := by
  cases kind with
  | getter | setter => simp [h, MemberKind.pieces, Piece.marks]
  | propertySignature =>
      obtain ⟨t, ms, hms, ht⟩ : Follows [.question, .colon, .semicolon]
          (Piece.marks false (signaturePieces optional false type ++ tail)) := by
        cases optional with
        | true => exact ⟨_, _, rfl, by decide⟩
        | false =>
            cases type with
            | none => exact (htail rfl).mono (by decide)
            | some t => exact ⟨_, _, rfl, by decide⟩
      have hparen : t ≠ .openParen := ne_of_mem_of_not_mem ht (by decide)
      have hless : t ≠ .less := ne_of_mem_of_not_mem ht (by decide)
      simp [h, MemberKind.pieces, MemberKind.isCallable, hms, hparen, hless]
  | methodSignature =>
      cases optional with
      | true => simp [h, MemberKind.pieces, signaturePieces, Piece.marks, loneToken]
      | false =>
          have hname : memberNameToken name ≠ .word "new" := by
            intro htoken
            rcases memberNameToken_eq name with hword | hword | hword
            · exact Bool.false_ne_true (hnew rfl (Token.word.inj (hword.symm.trans htoken)))
            · cases hword.symm.trans htoken
            · cases hword.symm.trans htoken
          simp [h, MemberKind.pieces, hname]
  | _ => cases hkind

/-- A member of an interface with a name is read as far as its type is. -/
theorem typeMember_named {kind : MemberKind} {name : String} {type : Option TypeExpr}
    {optional fresh : Bool} {tail : List Piece} (htail : EndsSignature type tail)
    (hkind : kind.named .methodSignature .propertySignature = kind)
    (hnew : kind = .methodSignature → name = "new" → optional = true)
    {post : Option TypeExpr → Cursor → Prop}
    (hread : ∀ {c : Cursor}, c.ahead = Piece.marks false (colonPieces type ++ tail) →
      Meets (total (if kind.isCallable then annotatedResult else annotated)) c post)
    (h : c.ahead = Piece.marks fresh (kind.pieces ++ memberNamePiece name ::
      (signaturePieces optional kind.isCallable type ++ tail))) :
    Meets (total typeMember) c fun m c' => ∃ type',
      m.map (Member.mapSpan .unplaced) =
        some ⟨kind, some name, mapSpanOption .unplaced type', false, optional, .empty .origin⟩ ∧
      post type' c' := by
  have hsignature := follows_signature optional kind.isCallable htail
  obtain ⟨t₁, t₂, ms, hms, ht₁, -, haccessor⟩ := marks_named kind name fresh hsignature
  have h' := h.trans hms
  have hparen : t₁ ≠ .openParen := Token.ne_of_isNominal ht₁ rfl
  have hless : t₁ ≠ .less := Token.ne_of_isNominal ht₁ rfl
  have hbracket : t₁ ≠ .openBracket := Token.ne_of_isNominal ht₁ rfl
  have hreadonly : ¬ (c.atWord "readonly" && c.seesMemberName 1) = true := by
    simp only [Bool.and_eq_true, not_and]
    intro hword hstarts
    have hword : t₁ = .word "readonly" := by simpa [h'] using hword
    have hstarts : t₂.startsMemberName = true := by simpa [Cursor.seesMemberName, h'] using hstarts
    rcases haccessor hstarts with hget | hset
    · exact absurd (hword.symm.trans hget) (by decide)
    · exact absurd (hword.symm.trans hset) (by decide)
  refine meets_total (meets_get (meets_if_neg (by simp [h', hparen, hless]) ?_))
  refine meets_if_neg (not_atConstruct htail hkind hnew h) (meets_if_neg hreadonly (meets_get ?_))
  refine meets_if_neg (by simp [h', hbracket]) ?_
  refine meets_bind ((accessorKind_pieces hsignature h).mono ?_)
  rintro _ c₁ - ⟨rfl, fresh', h₁⟩
  refine meets_bind ((memberName_pieces h₁).mono ?_)
  rintro _ c₂ - ⟨rfl, h₂⟩
  have hcall := follows_callPieces kind.isCallable htail
  rw [signaturePieces, List.append_assoc] at h₂
  refine meets_bind ((eat_optional (by decide) hcall h₂).mono ?_)
  rintro _ c₃ - ⟨rfl, h₃⟩
  obtain ⟨t₃, ms₃, hms₃, ht₃⟩ := hcall
  have hless₃ : t₃ ≠ .less := ne_of_mem_of_not_mem ht₃ (by decide)
  refine meets_get (meets_if_neg (by simp [h₃, hms₃, hless₃]) (meets_get ?_))
  cases hcallable : kind.isCallable with
  | true =>
      rw [hcallable] at h₃ hread
      rw [MemberKind.named, hcallable] at hkind
      refine meets_if_pos (by simp [h₃, callPieces, Piece.marks, loneToken]) ?_
      refine meets_bind (meets_parens h₃ fun c₄ h₄ => ?_)
      refine meets_bind ((hread h₄).mono ?_)
      rintro type' c₅ - h₅
      refine meets_get (meets_pure ⟨type', ?_, h₅⟩)
      rw [Option.map_some, Member.mapSpan]
      exact congrArg (fun k => some (Member.mk k _ _ _ _ _)) hkind
  | false =>
      rw [hcallable] at h₃ hread
      rw [MemberKind.named, hcallable] at hkind
      refine meets_if_neg (not_isAt_openParen htail h₃) ?_
      refine meets_bind ((hread h₃).mono ?_)
      rintro type' c₄ - h₄
      refine meets_get (meets_pure ⟨type', ?_, h₄⟩)
      rw [Option.map_some, Member.mapSpan]
      exact congrArg (fun k => some (Member.mk k _ _ _ _ _)) hkind

/-- A member of an interface with a name, up to its semicolon. -/
theorem typeMember_semicolon {kind : MemberKind} {name : String} {type : Option TypeExpr}
    {optional fresh : Bool}
    (hkind : kind.named .methodSignature .propertySignature = kind)
    (hnew : kind = .methodSignature → name = "new" → optional = true)
    (htype : ∀ t ∈ type, t.Annotates kind.isCallable)
    (h : c.ahead = Piece.marks fresh (kind.pieces ++ memberNamePiece name ::
      (signaturePieces optional kind.isCallable type ++ .sign ';' :: ps))) :
    Meets (total typeMember) c fun m c' =>
      m.map (Member.mapSpan .unplaced) =
        some ⟨kind, some name, mapSpanOption .unplaced type, false, optional, .empty .origin⟩ ∧
        c'.ahead = Piece.marks false (.sign ';' :: ps) := by
  have hread {c : Cursor}
      (h : c.ahead = Piece.marks false (colonPieces type ++ .sign ';' :: ps)) :
      Meets (total (if kind.isCallable then annotatedResult else annotated)) c fun type' c' =>
        mapSpanOption .unplaced type' = mapSpanOption .unplaced type ∧
          c'.ahead = Piece.marks false (.sign ';' :: ps) := by
    cases hcallable : kind.isCallable with
    | true => exact resultAnnotation_pieces (hcallable ▸ htype) h
    | false => exact annotation_pieces (hcallable ▸ htype) h
  refine (typeMember_named (endsSignature_semicolon _ _) hkind hnew hread h).mono ?_
  rintro m c' - ⟨type', hm, htype', h'⟩
  exact ⟨by rw [hm, htype'], h'⟩

/-- A member of an interface is read back, up to its semicolon. -/
theorem typeMember_pieces {m : Member} (hm : m.OfInterface) {fresh : Bool}
    (h : c.ahead = Piece.marks fresh (m.line ++ ps)) :
    Meets (total typeMember) c fun m' c' =>
      m'.map (Member.mapSpan .unplaced) = some (m.mapSpan .unplaced) ∧
        c'.ahead = Piece.marks false (.sign ';' :: ps) := by
  have hstatic : m.isStatic = false := by cases hm <;> rfl
  rw [Member.line, hstatic, List.append_assoc, List.append_assoc] at h
  have hnamed (kind : MemberKind) {name : String} {type : Option TypeExpr} {optional : Bool}
      (hkind : kind.named .methodSignature .propertySignature = kind)
      (hnew : kind = .methodSignature → name = "new" → optional = true)
      (htype : ∀ t ∈ type, t.Annotates kind.isCallable)
      (h : c.ahead = Piece.marks fresh ((kind.pieces ++ memberNamePiece name ::
        signaturePieces optional kind.isCallable type) ++ .sign ';' :: .space :: ps)) :
      Meets (total typeMember) c fun m' c' =>
        m'.map (Member.mapSpan .unplaced) =
          some ⟨kind, some name, mapSpanOption .unplaced type, false, optional, .empty .origin⟩ ∧
        c'.ahead = Piece.marks false (.sign ';' :: ps) := by
    rw [List.append_assoc kind.pieces, List.cons_append] at h
    have hread := typeMember_semicolon hkind hnew htype h
    exact hread
  cases hm with
  | property htype => exact hnamed .propertySignature rfl MemberKind.noConfusion htype h
  | method hnew htype => exact hnamed .methodSignature rfl (fun _ => hnew) htype h
  | getter htype => exact hnamed .getter rfl MemberKind.noConfusion htype h
  | setter htype => exact hnamed .setter rfl MemberKind.noConfusion htype h
  | @indexer t span ht =>
      have h' : c.ahead = (.openBracket, fresh) :: (.word "k", false) :: _ := h
      refine meets_total (meets_get (meets_if_neg (by simp [h']) (meets_if_neg (by simp [h']) ?_)))
      refine meets_if_neg (by simp [h']) (meets_get (meets_if_pos (by simp [h']) ?_))
      refine meets_bind ((indexSignature_pieces c.here false ht h).mono ?_)
      rintro m' c₁ - ⟨hm', h₁⟩
      exact meets_pure ⟨congrArg some hm', h₁⟩
  | call htype =>
      have h' : c.ahead = (.openParen, fresh) :: _ := h
      refine meets_total (meets_get (meets_if_pos (by simp [h']) ?_))
      refine meets_bind ((signature_pieces .callSignature c.here htype h).mono ?_)
      rintro m' c₁ - ⟨hm', h₁⟩
      exact meets_pure ⟨congrArg some hm', h₁⟩
  | construct htype =>
      have h' : c.ahead = (.word "new", fresh) :: (.openParen, false) :: _ := h
      refine meets_total (meets_get (meets_if_neg (by simp [h']) (meets_if_pos (by simp [h']) ?_)))
      refine meets_bind (meets_bump_ahead h fun c₁ h₁ => ?_)
      refine meets_bind ((signature_pieces .constructSignature c.here htype h₁).mono ?_)
      rintro m' c₂ - ⟨hm', h₂⟩
      exact meets_pure ⟨congrArg some hm', h₂⟩

/-- The line of a signature begins with nothing that ends a list of members. -/
theorem marks_signature_line {m : Member} (hm : m.OfInterface) (fresh : Bool) (ps : List Piece) :
    ∃ t ms, Piece.marks fresh (m.line ++ ps) = (t, fresh) :: ms ∧
      t ∉ [.closeBrace, .semicolon, .comma] := by
  have hstatic : m.isStatic = false := by cases hm <;> rfl
  rw [Member.line, hstatic, List.append_assoc, List.append_assoc]
  have hnamed (kind : MemberKind) (name : String) (optional : Bool) (type : Option TypeExpr) :
      ∃ t ms, Piece.marks fresh ((kind.pieces ++ memberNamePiece name ::
          signaturePieces optional kind.isCallable type) ++ .sign ';' :: .space :: ps) =
        (t, fresh) :: ms ∧ t ∉ [.closeBrace, .semicolon, .comma] := by
    rw [List.append_assoc kind.pieces, List.cons_append]
    obtain ⟨t, t₂, ms, hms, ht, -⟩ := marks_named kind name fresh
      (follows_signature _ _ (endsSignature_semicolon _ _))
    refine ⟨t, _, hms, fun hmem => ?_⟩
    have hnot : ∀ t ∈ [Token.closeBrace, .semicolon, .comma], t.isNominal = false := by decide
    rw [hnot t hmem] at ht
    cases ht
  cases hm with
  | property | method | getter | setter => exact hnamed _ _ _ _
  | indexer | call => exact ⟨_, _, rfl, by decide⟩
  | construct => exact ⟨_, _, rfl, by decide⟩

/-- The members of an interface are read back in the same way. -/
theorem typeMembers_pieces {ms : List Member} (hms : ∀ m ∈ ms, m.OfInterface) :
    ∀ {c : Cursor} {fresh : Bool},
      c.ahead = Piece.marks fresh (ms.flatMap Member.line ++ .sign '\x7d' :: ps) →
      Meets (total typeMembers) c fun ms' c' =>
        mapSpanMembers .unplaced ms' = mapSpanMembers .unplaced ms ∧
          c'.ahead = Piece.marks false ps := by
  induction ms with
  | nil =>
      intro c fresh h
      refine (typeMembers_close h).mono ?_
      rintro _ c₁ - ⟨rfl, h₁⟩
      exact ⟨rfl, h₁⟩
  | cons m ms ih =>
      intro c fresh h
      obtain ⟨hm, hms⟩ := List.forall_mem_cons.mp hms
      rw [List.flatMap_cons, List.append_assoc] at h
      obtain ⟨t, marks, hmarks, ht⟩ := marks_signature_line hm fresh
        (ms.flatMap Member.line ++ .sign '\x7d' :: ps)
      refine typeMembers_member (h.trans hmarks) ht ((typeMember_pieces hm h).mono ?_)
      rintro m' c₁ hlead ⟨hm', h₁⟩
      have hmoved : c₁.remaining ≠ c.remaining := by
        intro heq
        rw [hlead.eq_of_remaining heq] at h₁
        obtain rfl : t = .semicolon :=
          congrArg Prod.fst (List.cons.inj ((h.trans hmarks).symm.trans h₁)).1
        simp at ht
      rw [if_neg hmoved]
      refine typeMembers_semicolon h₁ fun c₂ h₂ => (ih hms h₂).mono ?_
      rintro ms' c₃ - ⟨hms', h₃⟩
      obtain ⟨m', rfl, hplain⟩ := Option.map_eq_some_iff.mp hm'
      refine ⟨?_, h₃⟩
      rw [Option.toList_some, List.singleton_append, mapSpanMembers, mapSpanMembers, hms', hplain]

end Rule

end DeclAtlas

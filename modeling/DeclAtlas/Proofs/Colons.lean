import DeclAtlas.Proofs.Totality
import DeclAtlas.Proofs.TypePrinting
import DeclAtlas.Proofs.TypeSpans

/-!
# Every signature with a type has a colon of its own

A property or method signature gets its type from behind a colon, and no colon serves two of them.
So the number of such signatures in what a parser reads, those inside of type literals included
(`TypeExpr.colons`), is at most the number of colons that it has moved past.

This holds on every token list, whatever the parser makes of it, and bounds what can have been read
where the tokens are not taken as they were meant: a colon that is passed in another way is missing
from the result.

* **`Rule.total_pays`** — every parser of types moves past as many colons as are counted in what it
  reads.
* **`Canonical.count_colon`** — of a canonical type just as many are written.
-/

namespace DeclAtlas

open DeclAtlas.Parser

-- ── Counting colons ──────────────────────────────────────────────────────────────

/-- Members of this kind are signatures with a name. -/
def MemberKind.isNamedSignature : MemberKind → Bool
  | .propertySignature | .methodSignature => true
  | _ => false

mutual

/-- The colons in front of the types of the named signatures in a type. -/
def TypeExpr.colons : TypeExpr → Nat
  | .reference _ args => typesColons args
  | .array t => t.colons
  | .tuple ts => typesColons ts
  | .union ts => typesColons ts
  | .intersection ts => typesColons ts
  | .members ms => membersColons ms
  | .paren t => t.colons
  | .keyword _ | .literal _ | .function | .query _ | .other => 0

def typesColons : List TypeExpr → Nat
  | [] => 0
  | t :: ts => t.colons + typesColons ts

def membersColons : List Member → Nat
  | [] => 0
  | m :: ms => m.colons + membersColons ms

def Member.colons : Member → Nat
  | ⟨kind, _, type, _, _, _⟩ => if kind.isNamedSignature then annotationColons type else 0

/-- The colon in front of a type counts as well. -/
def annotationColons : Option TypeExpr → Nat
  | none => 0
  | some t => t.colons + 1

end

section MapSpan

variable (f : Span → Span)

mutual

/-- Where members stand does not matter. -/
theorem TypeExpr.colons_mapSpan : ∀ t : TypeExpr, (t.mapSpan f).colons = t.colons
  | .reference _ args => typesColons_mapSpan args
  | .array t => t.colons_mapSpan
  | .tuple ts => typesColons_mapSpan ts
  | .union ts => typesColons_mapSpan ts
  | .intersection ts => typesColons_mapSpan ts
  | .members ms => membersColons_mapSpan ms
  | .paren t => t.colons_mapSpan
  | .keyword _ | .literal _ | .function | .query _ | .other => rfl

theorem typesColons_mapSpan :
    ∀ ts : List TypeExpr, typesColons (mapSpanTypes f ts) = typesColons ts
  | [] => rfl
  | t :: ts => congrArg₂ (· + ·) t.colons_mapSpan (typesColons_mapSpan ts)

theorem membersColons_mapSpan :
    ∀ ms : List Member, membersColons (mapSpanMembers f ms) = membersColons ms
  | [] => rfl
  | m :: ms => congrArg₂ (· + ·) m.colons_mapSpan (membersColons_mapSpan ms)

theorem Member.colons_mapSpan : ∀ m : Member, (m.mapSpan f).colons = m.colons
  | ⟨_, _, none, _, _, _⟩ => rfl
  | ⟨kind, _, some t, _, _, _⟩ =>
    congrArg (fun n => if kind.isNamedSignature then n + 1 else 0) t.colons_mapSpan

end

end MapSpan

theorem membersColons_append (ms ms' : List Member) :
    membersColons (ms ++ ms') = membersColons ms + membersColons ms' := by
  induction ms with
  | nil => exact (Nat.zero_add _).symm
  | cons m ms ih => rw [List.cons_append, membersColons, membersColons, ih, Nat.add_assoc]

/-- A member counts no more colons than its type with a colon in front. -/
theorem Member.colons_le (m : Member) : m.colons ≤ annotationColons m.type := by
  obtain ⟨kind, name, type, isStatic, optional, span⟩ := m
  rw [Member.colons]
  split
  · exact Nat.le_refl _
  · exact Nat.zero_le _

/-- How many colons are ahead. -/
def Cursor.colons (c : Cursor) : Nat := (c.rest.map (·.token)).count .colon

namespace Cursor

variable {c c' : Cursor}

/-- No colon is ahead that was not ahead before. -/
theorem LeadsTo.colons_le (h : c.LeadsTo c') : c'.colons ≤ c.colons := by
  obtain ⟨n, rfl⟩ := h
  rw [colons, rest_advance, List.map_drop]
  exact (List.drop_sublist n _).count_le _

/-- A colon that is passed is one less ahead. -/
theorem colons_bump (h : c.isAt .colon = true) : c.bump.colons + 1 = c.colons := by
  obtain ⟨l, ls, hr, hl⟩ := peek_eq_some_iff.mp (isAt_iff.mp h)
  rw [bump_of_rest hr, colons, colons, hr, List.map_cons, hl, List.count_cons_self]

end Cursor

-- ── What is read has been paid for ───────────────────────────────────────────────

namespace Rule

/-- The rules that read types and their members. -/
def ofTypes {α : Type} : Rule α → Bool
  | classMembers | heritageList | classHeritage _ _ | statements _ | statement | declaration _ _
  | exportStatement _ | namespaceDecl _ _ _ => false
  | _ => true

/-- The colons that are counted in what a rule reads. -/
def price {α : Type} : Rule α → α → Nat
  | typeExpr, t | resultType, t | unionType, t | intersectionType, t | postfixType, t
  | primaryType, t | wordType _, t | referenceType, t | functionType, t => t.colons
  | unionRest, ts | intersectionRest, ts | typeArgs, ts | tupleElements, ts => typesColons ts
  | typeMembers, ms => membersColons ms
  | typeMember, m => membersColons m.toList
  | signature _ _, m | indexSignature _ _, m => m.colons
  | annotated, type | annotatedResult, type => annotationColons type
  | _, _ => 0

/-- The parser moves past as many colons as are counted in what it reads. -/
def Pays {α : Type} (price : α → Nat) (p : Parser α) : Prop :=
  ∀ c, p.Meets c fun a c' => price a + c'.colons ≤ c.colons

/-- So do all parsers of types. -/
def Thrifty (call : Callees) : Prop :=
  ∀ {α : Type} (r : Rule α), r.ofTypes = true → Pays r.price (call r)

/-- Nothing has to be paid for what has no signatures. -/
theorem meets_free {α : Type} {price : α → Nat} {p : Parser α} {c : Cursor} {n : Nat}
    (hn : c.colons ≤ n) (h : p.Meets c fun a _ => price a = 0) :
    p.Meets c fun a c' => price a + c'.colons ≤ n := by
  refine h.mono fun a c' hlead ha => ?_
  rw [ha, Nat.zero_add]
  exact Nat.le_trans hlead.colons_le hn

/-- Parts with a sign between them pay for themselves. -/
theorem chain_pays {call : Callees} (sign : Token) {part : Rule TypeExpr}
    {rest : Rule (List TypeExpr)} {wrap : List TypeExpr → TypeExpr}
    (hpart : Pays TypeExpr.colons (call part)) (hrest : Pays typesColons (call rest))
    (hwrap : ∀ ts, (wrap ts).colons = typesColons ts) :
    Pays TypeExpr.colons (chainBody call sign part rest wrap) := by
  intro c
  refine meets_bind ((meets_any_eat sign).mono fun _ c₁ h₁ _ => ?_)
  have hle := h₁.colons_le
  refine meets_bind ((hpart c₁).mono fun t c₂ _ ht => meets_get (meets_ite ?_ ?_))
  · intro _
    refine meets_bind ((hrest c₂).mono fun ts c₃ _ hts => meets_pure ?_)
    rw [hwrap, typesColons]
    omega
  · exact fun _ => meets_pure (Nat.le_trans ht hle)

theorem chainRest_pays {call : Callees} (sign : Token) {part : Rule TypeExpr}
    {rest : Rule (List TypeExpr)} (hpart : Pays TypeExpr.colons (call part))
    (hrest : Pays typesColons (call rest)) :
    Pays typesColons (chainRestBody call sign part rest) := by
  intro c
  refine meets_bind (meets_eat (fun _ => ?_) fun _ => meets_pure (Nat.le_of_eq (Nat.zero_add _)))
  have hle := c.leadsTo_bump.colons_le
  refine meets_bind ((hpart c.bump).mono fun t c₁ _ ht => ?_)
  refine meets_bind ((hrest c₁).mono fun ts c₂ _ hts => meets_pure ?_)
  rw [typesColons]
  omega

/-- A colon in front of a type is one more than those in the type. -/
theorem annotation_pays {call : Callees} {part : Rule TypeExpr}
    (hpart : Pays TypeExpr.colons (call part)) :
    Pays annotationColons (annotationBody call part) := by
  intro c
  refine meets_bind (meets_eat (fun hcolon => ?_) fun _ => ?_)
  · have hpaid := c.colons_bump hcolon
    refine meets_bind ((hpart c.bump).mono fun t c₁ _ ht => meets_pure ?_)
    rw [annotationColons]
    omega
  · exact meets_pure (Nat.le_of_eq (Nat.zero_add _))

/-- Brackets behind a type add no signatures to it, and may take all of them away. -/
theorem colons_bracketSuffixes (t : TypeExpr) (ls : List Lexeme) :
    (bracketSuffixes t ls).1.colons ≤ t.colons := by
  fun_induction bracketSuffixes t ls with
  | case1 | case4 => exact Nat.le_refl _
  | case2 t l ls _ _ u n hu ih =>
      rw [hu] at ih
      exact ih
  | case3 t l ls _ _ k u n hu ih =>
      rw [hu] at ih
      exact Nat.le_trans ih (Nat.zero_le _)

section Bodies

variable {call : Callees} (h : Thrifty call)

include h

/-- What is read by a callee and not kept. -/
theorem Thrifty.drop {α β : Type} {r : Rule α} (hr : r.ofTypes = true) {q : Parser β} {c : Cursor}
    {post : β → Cursor → Prop} (hq : ∀ c', q.Meets c' post) :
    (call r >>= fun _ => q).Meets c post :=
  meets_bind ((h r hr c).mono fun _ c' _ _ => hq c')

/-- A conditional type is not kept, and any other is its first part. -/
theorem typeExpr_pays : Pays TypeExpr.colons (typeExprBody call) := by
  intro c
  refine meets_bind ((h unionType rfl c).mono fun t c₁ h₁ ht => meets_get (meets_ite ?_ ?_))
  · intro _
    refine meets_free h₁.colons_le (meets_bind (meets_bump (h.drop rfl fun c₂ => ?_)))
    refine meets_bind (meets_eat (fun _ => h.drop rfl fun c₃ => ?_) fun _ => meets_pure rfl)
    exact meets_bind (meets_eat (fun _ => h.drop rfl fun _ => meets_pure rfl)
      fun _ => meets_pure rfl)
  · exact fun _ => meets_pure ht

theorem resultType_pays : Pays TypeExpr.colons (resultTypeBody call) := by
  intro c
  refine meets_get (meets_ite ?_ fun _ => meets_ite ?_ fun _ => h typeExpr rfl c)
  · intro hasserts
    refine meets_free (Nat.le_refl _) (meets_bind (meets_bump (meets_bind (meets_bump ?_))))
    refine meets_bind (meets_eat ?_ fun _ => meets_pure rfl)
    exact fun _ => h.drop rfl fun _ => meets_pure rfl
  · intro his
    refine meets_free (Nat.le_refl _) (meets_bind (meets_bump (meets_bind (meets_bump ?_))))
    exact h.drop rfl fun _ => meets_pure rfl

theorem postfixType_pays : Pays TypeExpr.colons (postfixTypeBody call) := by
  intro c
  refine meets_bind ((h primaryType rfl c).mono fun t c₁ _ ht => meets_taking ?_)
  have hsuffixes := colons_bracketSuffixes t c₁.rest
  have hle := (c₁.leadsTo_advance (bracketSuffixes t c₁.rest).2).colons_le
  have ht : t.colons + c₁.colons ≤ c.colons := ht
  omega

/-- Each form of a type, by what it begins with. -/
theorem primaryType_pays : Pays TypeExpr.colons (primaryTypeBody call) := by
  intro c
  have hbump := c.leadsTo_bump.colons_le
  have hfree {p : Parser TypeExpr} (hp : p.Meets c fun t _ => t.colons = 0) :=
    meets_free (Nat.le_refl c.colons) hp
  refine meets_get ?_
  split
  · exact hfree (meets_pure rfl)
  · split
    · -- a parenthesis
      refine meets_ite (fun _ => h functionType rfl c) fun _ => meets_bind (meets_bump ?_)
      refine meets_bind ((h typeExpr rfl c.bump).mono ?_)
      intro t c₁ _ ht
      refine meets_bind ((meets_any_eat .closeParen).mono ?_)
      intro _ c₂ h₂ _
      have hle := h₂.colons_le
      have ht : t.colons + c₁.colons ≤ c.bump.colons := ht
      refine meets_pure ?_
      rw [TypeExpr.colons]
      omega
    · -- type parameters
      exact h functionType rfl c
    · -- a brace
      refine meets_ite (fun _ => hfree (meets_bind (meets_skip (meets_pure rfl)))) fun _ => ?_
      refine meets_bind (meets_bump (meets_bind ((h typeMembers rfl c.bump).mono ?_)))
      intro ms c₁ _ hms
      exact meets_pure (Nat.le_trans hms hbump)
    · -- a bracket
      refine meets_bind (meets_bump (meets_bind ((h tupleElements rfl c.bump).mono ?_)))
      intro ts c₁ _ hts
      exact meets_pure (Nat.le_trans hts hbump)
    · exact hfree (meets_bind (meets_bump (meets_pure rfl)))
    · exact hfree (meets_bind (meets_bump (meets_pure rfl)))
    · exact hfree (meets_bind (meets_bump (meets_pure rfl)))
    · -- a number with a sign
      refine hfree (meets_ite (fun _ => ?_) fun _ => meets_pure rfl)
      exact meets_bind (meets_bump (meets_bind (meets_bump (meets_get (meets_pure rfl)))))
    · next w _ => exact h (wordType w) rfl c
    · exact hfree (meets_pure rfl)

/-- A reference pays with its arguments. -/
theorem referenceType_pays : Pays TypeExpr.colons (referenceTypeBody call) := by
  intro c
  refine meets_get (meets_ite (fun _ => ?_) fun _ => meets_free (Nat.le_refl _) (meets_pure rfl))
  refine meets_bind (meets_dottedName.mono fun name c₁ h₁ _ => meets_get ?_)
  refine meets_ite (fun _ => ?_) fun _ => meets_free h₁.colons_le (meets_pure rfl)
  have hle := (h₁.trans c₁.leadsTo_bump).colons_le
  refine meets_bind (meets_bump (meets_bind ((h typeArgs rfl c₁.bump).mono ?_)))
  exact fun args c₂ _ hargs => meets_pure (Nat.le_trans hargs hle)

theorem wordType_pays (w : String) : Pays TypeExpr.colons (wordTypeBody call w) := by
  intro c
  have hbump := c.leadsTo_bump.colons_le
  have hfree {p : Parser TypeExpr} (hp : p.Meets c fun t _ => t.colons = 0) :=
    meets_free (Nat.le_refl c.colons) hp
  have himport (c') : (do skipQualifiedTail; pure .other : Parser TypeExpr).Meets c'
      fun t _ => t.colons = 0 :=
    meets_bind (meets_skipQualifiedTail.mono fun _ _ _ _ => meets_pure rfl)
  refine meets_get ?_
  by_cases htypeof : w = "typeof"
  · rw [if_pos htypeof]
    refine hfree (meets_bind (meets_bump (meets_get (meets_ite ?_ ?_))))
    · intro _
      refine meets_bind (meets_bump (meets_get (meets_when (meets_skip trivial) ?_)))
      exact fun c' _ => himport c'
    · intro _
      refine meets_bind (meets_dottedName.mono ?_)
      intro name c₁ _ _
      refine meets_get (meets_ite ?_ fun _ => meets_pure rfl)
      intro _
      exact meets_bind (meets_bump (h.drop rfl fun _ => meets_pure rfl))
  rw [if_neg htypeof]
  by_cases hkeyof : w = "keyof" ∨ w = "unique"
  · rw [if_pos hkeyof]
    exact hfree (meets_bind (meets_bump (h.drop rfl fun _ => meets_pure rfl)))
  rw [if_neg hkeyof]
  by_cases hreadonly : w = "readonly"
  · rw [if_pos hreadonly]
    refine meets_bind (meets_bump ((h postfixType rfl c.bump).mono ?_))
    intro t c₁ _ ht
    exact Nat.le_trans ht hbump
  rw [if_neg hreadonly]
  by_cases hinfer : w = "infer"
  · rw [if_pos hinfer]
    exact hfree (meets_bind (meets_bump (meets_bind (meets_takeIf (fun _ _ => meets_pure rfl)
      fun _ => meets_pure rfl))))
  rw [if_neg hinfer]
  by_cases hnew : w = "new"
  · rw [if_pos hnew]
    refine meets_bind (meets_bump ((h functionType rfl c.bump).mono ?_))
    intro t c₁ _ ht
    exact Nat.le_trans ht hbump
  rw [if_neg hnew]
  by_cases habstract : w = "abstract" ∧ c.seesWord 1 "new"
  · rw [if_pos habstract]
    have hbump' := c.bump.leadsTo_bump.colons_le
    refine meets_bind (meets_bump (meets_bind (meets_bump ((h functionType rfl _).mono ?_))))
    intro t c₁ _ ht
    exact Nat.le_trans ht (Nat.le_trans hbump' hbump)
  rw [if_neg habstract]
  by_cases himported : w = "import" ∧ c.sees 1 .openParen
  · rw [if_pos himported]
    exact hfree (meets_bind (meets_bump (meets_bind (meets_skip (himport _)))))
  rw [if_neg himported]
  by_cases htruth : w = "true" ∨ w = "false"
  · rw [if_pos htruth]
    exact hfree (meets_bind (meets_bump (meets_pure rfl)))
  rw [if_neg htruth]
  split
  · next k hkeyword =>
    refine meets_ite (fun _ => h referenceType rfl c) fun _ => ?_
    exact hfree (meets_bind (meets_bump (meets_pure rfl)))
  · next hnone => exact h referenceType rfl c

/-- Of the type of a function nothing is kept. -/
theorem functionType_pays : Pays TypeExpr.colons (functionTypeBody call) := by
  intro c
  refine meets_free (Nat.le_refl _) (meets_get (meets_when (meets_skip trivial) fun c₁ _ => ?_))
  refine meets_get (meets_when (meets_skip trivial) fun c₂ _ => ?_)
  exact meets_bind (meets_eat (fun _ => h.drop rfl fun _ => meets_pure rfl) fun _ => meets_pure rfl)

/-- Type arguments, one after the other. -/
theorem typeArgs_pays : Pays typesColons (typeArgsBody call) := by
  intro c
  have hfree {p : Parser (List TypeExpr)} (hp : p.Meets c fun ts _ => typesColons ts = 0) :=
    meets_free (Nat.le_refl c.colons) hp
  refine meets_bind (meets_eat (fun _ => ?_) fun _ => ?_)
  · exact meets_free c.leadsTo_bump.colons_le (meets_pure rfl)
  refine meets_get (meets_ite (fun _ => ?_) fun _ => ?_)
  · exact hfree (meets_pure rfl)
  · refine meets_bind ((h typeExpr rfl c).mono fun t c₁ _ ht => ?_)
    have ht : t.colons + c₁.colons ≤ c.colons := ht
    have hbump := c₁.leadsTo_bump.colons_le
    -- the last argument
    have hlast {c'} (h' : c₁.LeadsTo c') : typesColons [t] + c'.colons ≤ c.colons := by
      have hle := h'.colons_le
      simp only [typesColons]
      omega
    refine meets_bind (meets_eat (fun _ => ?_) fun _ => ?_)
    · refine meets_bind ((h typeArgs rfl c₁.bump).mono fun ts c₂ _ hts => meets_pure ?_)
      have hts : typesColons ts + c₂.colons ≤ c₁.bump.colons := hts
      rw [typesColons]
      omega
    · refine meets_bind (meets_eat (fun _ => meets_pure (hlast c₁.leadsTo_bump)) fun _ => ?_)
      exact meets_get (meets_when (meets_skip trivial) fun c' h' => meets_pure (hlast h'))

/-- Elements of tuples; the colon of a label is passed and not counted. -/
theorem tupleElements_pays : Pays typesColons (tupleElementsBody call) := by
  intro c
  have hbump := c.leadsTo_bump.colons_le
  have hfree {p : Parser (List TypeExpr)} (hp : p.Meets c fun ts _ => typesColons ts = 0) :=
    meets_free (Nat.le_refl c.colons) hp
  have hnext : (bump >>= fun _ => call tupleElements).Meets c
      fun ts c' => typesColons ts + c'.colons ≤ c.colons := by
    refine meets_bind (meets_bump ((h tupleElements rfl c.bump).mono fun ts c₁ _ hts => ?_))
    exact Nat.le_trans hts hbump
  refine meets_get ?_
  split
  -- the end of the text, a fence or the closing bracket ends the list
  · exact hfree (meets_pure rfl)
  · exact hfree (meets_pure rfl)
  · exact hfree (meets_pure rfl)
  · exact hfree (meets_bind (meets_bump (meets_pure rfl)))
  -- commas and points in front of an element are read over
  · exact hnext
  · exact hnext
  -- an element, behind its label if it has one
  · refine meets_join ?_ fun hjoin => meets_ite (fun _ => ?_) fun _ => hjoin c (.refl c)
    · intro c₁ h₁
      have hle := h₁.colons_le
      refine meets_get (meets_bind ((h typeExpr rfl c₁).mono fun t c₂ _ ht => ?_))
      refine meets_bind ((meets_any_eat .question).mono fun _ c₃ h₃ _ => meets_get ?_)
      refine meets_when (meets_bump trivial) fun c₄ h₄ => ?_
      have hle' := (h₃.trans h₄).colons_le
      refine meets_bind ((h tupleElements rfl c₄).mono fun ts c₅ _ hts => meets_pure ?_)
      have ht : t.colons + c₂.colons ≤ c₁.colons := ht
      have hts : typesColons ts + c₅.colons ≤ c₄.colons := hts
      rw [typesColons]
      omega
    · refine meets_bind (meets_bump (meets_bind ((meets_any_eat .question).mono ?_)))
      intro _ c₁ h₁ _
      refine meets_bind ((meets_any_eat .colon).mono fun _ c₂ h₂ _ => ?_)
      exact hjoin c₂ (c.leadsTo_bump.trans (h₁.trans h₂))

/-- A signature costs no more than its result with the colon in front of that. -/
theorem signature_pays (kind : MemberKind) (start : Span) :
    Pays Member.colons (signatureBody call kind start) := by
  intro c
  refine meets_get (meets_when (meets_skip trivial) fun c₁ h₁ => ?_)
  refine meets_get (meets_when (meets_skip trivial) fun c₂ h₂ => ?_)
  have hle := (h₁.trans h₂).colons_le
  refine meets_bind ((h annotatedResult rfl c₂).mono fun type c₃ _ htype => ?_)
  refine meets_get (meets_pure (Nat.le_trans (Nat.add_le_add_right (Member.colons_le _) _) ?_))
  exact Nat.le_trans htype hle

/-- An index signature is not counted. -/
theorem indexSignature_pays (start : Span) (isStatic : Bool) :
    Pays Member.colons (indexSignatureBody call start isStatic) := by
  intro c
  refine meets_free (Nat.le_refl _) (meets_bind (meets_skip ?_))
  refine meets_bind ((meets_any_eat .question).mono fun _ _ _ _ => ?_)
  exact meets_bind ((h annotated rfl _).mono fun _ _ _ _ => meets_get (meets_pure rfl))

/-- A named signature is paid for with the colon in front of its type. -/
theorem typeMember_pays : Pays (fun m => membersColons m.toList) (typeMemberBody call) := by
  intro c
  -- a member read from a later cursor
  have hsome {p : Parser Member} (hp : Pays Member.colons p) {c' : Cursor} (hlead : c.LeadsTo c') :
      (p >>= fun m => pure (some m)).Meets c' fun m c'' =>
        membersColons m.toList + c''.colons ≤ c.colons := by
    have hle := hlead.colons_le
    exact meets_bind ((hp c').mono fun m _ _ hm => meets_pure (Nat.le_trans hm hle))
  have htyped {m : Member} {c₁ c₂ : Cursor} (hlead : c.LeadsTo c₁)
      (htype : annotationColons m.type + c₂.colons ≤ c₁.colons) :
      membersColons (some m).toList + c₂.colons ≤ c.colons :=
    Nat.le_trans (Nat.add_le_add_right m.colons_le _) (Nat.le_trans htype hlead.colons_le)
  refine meets_get (meets_ite (fun _ => ?_) fun _ => meets_ite (fun _ => ?_) fun _ => ?_)
  · -- a call signature
    exact hsome (h (signature .callSignature c.here) rfl) (.refl c)
  · -- a construct signature
    refine meets_bind (meets_bump ?_)
    exact hsome (h (signature .constructSignature c.here) rfl) c.leadsTo_bump
  refine meets_when (meets_bump trivial) fun c₁ h₁ => meets_get ?_
  refine meets_ite (fun _ => ?_) fun _ => ?_
  · -- an index signature
    exact hsome (h (indexSignature c.here false) rfl) h₁
  refine meets_bind (meets_accessorKind.mono fun accessor c₂ h₂ _ => ?_)
  refine meets_bind (meets_memberName.mono fun name c₃ h₃ _ => ?_)
  have h₀₃ := h₁.trans (h₂.trans h₃)
  cases name with
  | none => exact meets_free h₀₃.colons_le (meets_pure rfl)
  | some name =>
      refine meets_bind ((meets_any_eat .question).mono fun optional c₄ h₄ _ => meets_get ?_)
      refine meets_when (meets_skip trivial) fun c₅ h₅ => meets_get ?_
      have h₀₅ := h₀₃.trans (h₄.trans h₅)
      refine meets_ite (fun _ => meets_bind (meets_skip (meets_bind ?_))) fun _ => meets_bind ?_
      · -- a method signature
        have h₀₆ := h₀₅.trans (c₅.leadsTo_advance (bracketExtent 0 c₅.rest))
        refine (h annotatedResult rfl _).mono fun type c₆ _ htype => meets_get (meets_pure ?_)
        exact htyped h₀₆ htype
      · -- a property signature
        refine (h annotated rfl c₅).mono fun type c₆ _ htype => meets_get (meets_pure ?_)
        exact htyped h₀₅ htype

/-- Members of a type literal, one after the other. -/
theorem typeMembers_pays : Pays membersColons (typeMembersBody call) := by
  intro c
  have hbump := c.leadsTo_bump.colons_le
  have hnext : (bump >>= fun _ => call typeMembers).Meets c
      fun ms c' => membersColons ms + c'.colons ≤ c.colons := by
    refine meets_bind (meets_bump ((h typeMembers rfl c.bump).mono fun ms c₁ _ hms => ?_))
    exact Nat.le_trans hms hbump
  refine meets_get ?_
  split
  · exact meets_free (Nat.le_refl _) (meets_pure rfl)
  · exact meets_free (Nat.le_refl _) (meets_bind (meets_bump (meets_pure rfl)))
  · exact hnext
  · exact hnext
  · refine meets_bind ((h typeMember rfl c).mono fun m c₁ _ hm => meets_get ?_)
    refine meets_when (meets_bump trivial) fun c₂ h₂ => ?_
    have hle := h₂.colons_le
    refine meets_bind ((h typeMembers rfl c₂).mono fun ms c₃ _ hms => meets_pure ?_)
    have hm : membersColons m.toList + c₁.colons ≤ c.colons := hm
    have hms : membersColons ms + c₃.colons ≤ c₂.colons := hms
    rw [membersColons_append]
    omega

/-- What pays with callees that pay, pays. -/
theorem Thrifty.body {α : Type} (r : Rule α) (hr : r.ofTypes = true) :
    Pays r.price (r.body call) := by
  cases r with
  | typeExpr => exact typeExpr_pays h
  | resultType => exact resultType_pays h
  | unionType =>
      exact chain_pays _ (h intersectionType rfl) (h unionRest rfl) fun _ => by rw [TypeExpr.colons]
  | unionRest => exact chainRest_pays _ (h intersectionType rfl) (h unionRest rfl)
  | intersectionType =>
      exact chain_pays _ (h postfixType rfl) (h intersectionRest rfl) fun _ => by
        rw [TypeExpr.colons]
  | intersectionRest => exact chainRest_pays _ (h postfixType rfl) (h intersectionRest rfl)
  | postfixType => exact postfixType_pays h
  | primaryType => exact primaryType_pays h
  | wordType w => exact wordType_pays h w
  | referenceType => exact referenceType_pays h
  | typeArgs => exact typeArgs_pays h
  | functionType => exact functionType_pays h
  | tupleElements => exact tupleElements_pays h
  | typeMembers => exact typeMembers_pays h
  | typeMember => exact typeMember_pays h
  | signature kind start => exact signature_pays h kind start
  | indexSignature start isStatic => exact indexSignature_pays h start isStatic
  | annotated => exact annotation_pays (h typeExpr rfl)
  | annotatedResult => exact annotation_pays (h resultType rfl)
  | _ => cases hr

end Bodies

/-- With nothing to spend, nothing is read. -/
theorem thrifty_zero : Thrifty (run 0) := by
  intro α r hr c
  refine meets_free (Nat.le_refl _) ?_
  cases r with
  | signature kind start => exact meets_pure (Nat.le_zero.mp (Member.colons_le _))
  | _ => first | exact meets_pure rfl | cases hr

/-- On every budget, all parsers of types pay, by induction with one step of all bodies. -/
theorem thrifty_run (n : Nat) : Thrifty (run n) := by
  induction n with
  | zero => exact thrifty_zero
  | succ n ih =>
      intro α r hr
      show Pays r.price (run (n + 1) r)
      rw [run_succ]
      exact ih.body r hr

/-- **Every signature with a type has a colon of its own.** -/
theorem total_pays {α : Type} (r : Rule α) (hr : r.ofTypes = true) : Pays r.price (total r) := by
  intro c
  rw [Meets, total]
  exact thrifty_run c.budget r hr c

end Rule

-- ── Colons that are written ──────────────────────────────────────────────────────

namespace Piece

def colons (ps : List Piece) : Nat := (tokens ps).count .colon

@[simp] theorem colons_nil : colons [] = 0 := rfl

@[simp] theorem colons_cons (p : Piece) (ps : List Piece) :
    colons (p :: ps) = p.token?.toList.count .colon + colons ps := by
  rw [colons, tokens_cons, List.count_append, colons]

/-- Colons of pieces one after the other. -/
@[simp] theorem colons_append (ps ps' : List Piece) :
    colons (ps ++ ps') = colons ps + colons ps' := by
  rw [colons, tokens_append, List.count_append, colons, colons]

end Piece

/-- Where pieces are ahead as they were written, so are their colons. -/
theorem Cursor.colons_of_ahead {c : Cursor} {fresh : Bool} {ps : List Piece}
    (h : c.ahead = Piece.marks fresh ps) : c.colons = Piece.colons ps := by
  rw [colons, Piece.colons, ← Piece.map_fst_marks fresh, ← h, ← map_token_rest]

/-- There is no colon in a dotted name. -/
theorem colons_dottedPieces (ws : List String) : Piece.colons (dottedPieces ws) = 0 := by
  have hdots (ws : List String) : Piece.colons (ws.flatMap fun v => [.dot, .word v]) = 0 := by
    induction ws with
    | nil => rfl
    | cons w ws ih => simpa [Piece.token?] using ih
  cases ws with
  | nil => rfl
  | cons w ws => simpa [dottedPieces, Piece.token?] using hdots ws

/-- Separators without colons add none to the types between them. -/
theorem colons_typePieces {sep : List Piece} {ts : List TypeExpr} (hsep : Piece.colons sep = 0)
    (hts : ∀ t ∈ ts, Piece.colons t.pieces = t.colons) :
    Piece.colons (typePieces sep ts) = typesColons ts := by
  have hafter {ts : List TypeExpr} (hts : ∀ t ∈ ts, Piece.colons t.pieces = t.colons) :
      Piece.colons (piecesAfter sep ts) = typesColons ts := by
    induction ts with
    | nil => rfl
    | cons t ts ih =>
        obtain ⟨ht, hts⟩ := List.forall_mem_cons.mp hts
        rw [piecesAfter, Piece.colons_append, Piece.colons_append, hsep, ht, ih hts, typesColons,
          Nat.zero_add]
  cases ts with
  | nil => rfl
  | cons t ts =>
      obtain ⟨ht, hts⟩ := List.forall_mem_cons.mp hts
      rw [typePieces, Piece.colons_append, ht, hafter hts, typesColons]

/-- Each property is written with one colon, and with those of its type. -/
theorem colons_memberPieces {ms : List Member} (hms : ∀ m ∈ ms, m.IsProperty)
    (hts : ∀ m ∈ ms, ∀ t, m.type = some t → Piece.colons t.pieces = t.colons) :
    Piece.colons (memberPieces ms) = membersColons ms := by
  induction ms with
  | nil => rfl
  | cons m ms ih =>
      obtain ⟨hm, hms'⟩ := List.forall_mem_cons.mp hms
      obtain ⟨ht, hts'⟩ := List.forall_mem_cons.mp hts
      obtain ⟨w, t, optional, span, rfl, -⟩ := hm.exists_eq
      rw [memberPieces, Piece.colons_append, ih hms' hts', membersColons, Member.colons]
      cases optional <;>
        simp [Member.pieces, annotationPieces, annotationColons, MemberKind.isNamedSignature,
          ht t rfl, Piece.token?, loneToken, Nat.add_comm]

/-- Of a canonical type just as many colons are written as are counted in it. -/
theorem Canonical.count_colon {level : Level} {t : TypeExpr} (h : Canonical level t) :
    Piece.colons t.pieces = t.colons := by
  induction h with
  | keyword k => rfl
  | @reference name args _ _ ih =>
      rw [pieces_reference, Piece.colons_append, colons_dottedPieces, Nat.zero_add, TypeExpr.colons]
      cases args with
      | nil => rfl
      | cons t ts =>
          rw [argPieces_cons, Piece.colons_cons, Piece.colons_append, colons_typePieces rfl ih]
          simp [Piece.token?, loneToken]
  | array _ ih => simpa [TypeExpr.pieces, TypeExpr.colons, Piece.token?, loneToken] using ih
  | tuple _ ih =>
      rw [TypeExpr.pieces, Piece.colons_cons, Piece.colons_append, colons_typePieces rfl ih]
      simp [TypeExpr.colons, Piece.token?, loneToken]
  | literal s => rfl
  | members hms _ ih =>
      rw [TypeExpr.pieces, Piece.colons_cons, Piece.colons_cons, Piece.colons_append,
        colons_memberPieces hms ih]
      simp [TypeExpr.colons, Piece.token?, loneToken]
  | paren _ ih => simpa [TypeExpr.pieces, TypeExpr.colons, Piece.token?, loneToken] using ih
  | query =>
      rw [TypeExpr.pieces, Piece.colons_cons, Piece.colons_cons, colons_dottedPieces]
      rfl
  | ofOperand _ ih | ofIntersection _ ih | ofUnion _ ih => exact ih
  | intersection _ _ ih => rw [TypeExpr.pieces, colons_typePieces rfl ih, TypeExpr.colons]
  | union _ _ ih => rw [TypeExpr.pieces, colons_typePieces rfl ih, TypeExpr.colons]
  | function => rfl

end DeclAtlas

import DeclAtlas.Proofs.TwoRuns

/-!
# Rules that are read alike: types

Two families of parsers agree below a measure if, from cursors that are alike, each rule is read
alike by both, as long as nine times the number of tokens ahead and the rank of the rule stay below
that measure (`Rule.Agree`).  If the callees agree, the bodies of the rules agree one step further.
For, whenever a rule calls one of the same rank or of a higher one, a token has been read; so the
measure drops with every call.

This module holds the rules for types and for the members of types.
-/

namespace DeclAtlas

open DeclAtlas.Parser DeclAtlas.Cursor

namespace Parser

/-- Values that are related, and cursors that are alike. -/
def Yields {α : Type} (L : Likeness) (φ : Border) (R : α → α → Prop) (a b : α) (c d : Cursor) :
    Prop :=
  R a b ∧ c.Alike L φ d

end Parser

namespace Cursor

/-- At the start of a text of which nothing before is known: the next token of both cursors is of
    one kind and no fence, and behind it they are alike. -/
def Fresh (L : Likeness) (φ : Border) (c d : Cursor) : Prop :=
  L.parts ∧ φ = .finish ∧ ∃ l ls m ms, c.rest = l :: ls ∧ d.rest = m :: ms ∧ L.near l m ∧
    ¬ l.token.IsFence ∧ c.bump.Alike L φ d.bump

/-- Cursors from which a statement is read alike. -/
def Ahead (L : Likeness) (φ : Border) (c d : Cursor) : Prop := c.Alike L φ d ∨ Fresh L φ c d

end Cursor

-- ── Rules and their results ──────────────────────────────────────────────────────

namespace Rule

/-- A rule without arguments that could differ. -/
def Plain {α : Type} : Rule α → Prop
  | signature .. | indexSignature .. | classHeritage .. | declaration .. | exportStatement ..
  | namespaceDecl .. => False
  | _ => True

/-- The same rule with like arguments. -/
inductive Alike (L : Likeness) : {α : Type} → Rule α → Rule α → Prop
  | plain {α : Type} {r : Rule α} : r.Plain → Alike L r r
  | signature (kind : MemberKind) {start start' : Span} : L.span start start' →
      Alike L (.signature kind start) (.signature kind start')
  | indexSignature (isStatic : Bool) {start start' : Span} : L.span start start' →
      Alike L (.indexSignature start isStatic) (.indexSignature start' isStatic)
  | classHeritage {parent parent' : Option Heritage} {interfaces interfaces' : List Heritage} :
      Option.Rel (Heritage.Alike L) parent parent' →
      List.Forall₂ (Heritage.Alike L) interfaces interfaces' →
      Alike L (.classHeritage parent interfaces) (.classHeritage parent' interfaces')
  | declaration (m : Modifiers) {start start' : Span} : L.span start start' →
      Alike L (.declaration m start) (.declaration m start')
  | exportStatement {start start' : Span} : L.span start start' →
      Alike L (.exportStatement start) (.exportStatement start')
  | namespaceDecl (name : String) (m : Modifiers) {start start' : Span} : L.span start start' →
      Alike L (.namespaceDecl name m start) (.namespaceDecl name m start')

/-- Results of a rule that are alike. -/
def Likes (L : Likeness) : {α : Type} → Rule α → α → α → Prop
  | _, typeExpr | _, resultType | _, unionType | _, intersectionType | _, postfixType
  | _, primaryType | _, wordType _ | _, referenceType | _, functionType => TypeExpr.Alike L
  | _, unionRest | _, intersectionRest | _, typeArgs | _, tupleElements =>
    List.Forall₂ (TypeExpr.Alike L)
  | _, typeMembers | _, classMembers => List.Forall₂ (Member.Alike L)
  | _, typeMember => Option.Rel (Member.Alike L)
  | _, signature .. | _, indexSignature .. => Member.Alike L
  | _, annotated | _, annotatedResult => Option.Rel (TypeExpr.Alike L)
  | _, heritageList => List.Forall₂ (Heritage.Alike L)
  | _, classHeritage .. => fun p q =>
    Option.Rel (Heritage.Alike L) p.1 q.1 ∧ List.Forall₂ (Heritage.Alike L) p.2 q.2
  | _, statements _ => List.Forall₂ (Statement.Alike L)
  | _, statement | _, declaration .. | _, exportStatement _ => Statement.Alike L
  | _, namespaceDecl .. => NamespaceDecl.Alike L

/-- Where two runs of a rule may begin.  In front of a fence a rule for what stands in a block must
    be inside that block, one that moves over its first token must not stand at the fence, and
    elements of a tuple must end in front of it. -/
def Begins (L : Likeness) (φ : Border) {α : Type} : Rule α → Cursor → Cursor → Prop
  | wordType _ => fun c d => c.Alike L φ d ∧ ∃ w, c.peek = some (.word w)
  | indexSignature .. => fun c d =>
    c.Alike L φ d ∧ (φ = .finish ∨ c.peek = some .openBracket)
  | tupleElements => fun c d => c.Alike L φ d ∧ φ.Unlabelled c
  | typeMembers | classMembers => fun c d => c.Alike L φ d ∧ φ.InBlock
  | statements inBlock => fun c d =>
    c.Alike L φ d ∧ φ.InBlock ∧ (φ = .finish ∨ inBlock = true)
  | statement | declaration .. => Ahead L φ
  | exportStatement _ => fun c d => Ahead L φ c d ∧ ∃ w, c.peek = some (.word w)
  | _ => fun c d => c.Alike L φ d

/-- Where two runs of a rule end. -/
def Ends (L : Likeness) (φ : Border) {α : Type} : Rule α → Cursor → Cursor → Prop
  | typeMembers | classMembers => EndsAt .closeBrace L φ
  | statement | declaration .. | exportStatement _ | namespaceDecl .. => EndsAt .semicolon L φ
  | _ => fun c d => c.Alike L φ d

/-- Rules that call one another without reading a token are of falling rank. -/
def rank {α : Type} : Rule α → Nat
  | annotated | annotatedResult | unionRest | intersectionRest | classHeritage ..
  | namespaceDecl .. | exportStatement _ => 0
  | referenceType | functionType | signature .. | indexSignature .. | declaration .. => 1
  | wordType _ | typeMember | heritageList | classMembers => 2
  | primaryType | typeMembers | statement => 3
  | postfixType | statements _ => 4
  | intersectionType => 5
  | unionType => 6
  | typeExpr => 7
  | resultType | tupleElements | typeArgs => 8

/-- Ranks are small, so nine tokens of measure are enough to call any rule behind a token. -/
theorem rank_le {α : Type} (r : Rule α) : r.rank ≤ 8 := by
  cases r <;> simp [rank]

/-- Two families of parsers read every rule alike, below a measure. -/
def Agree (L : Likeness) (k : Nat) (call₁ call₂ : Callees) : Prop :=
  ∀ (φ : Border) {α : Type} {r r' : Rule α} {c d : Cursor}, r.Alike L r' → r.Begins L φ c d →
    9 * c.remaining + r.rank < k →
    Together (call₁ r) (call₂ r') c d fun a b c' d' => r.Likes L a b ∧ r.Ends L φ c' d'

section Steps

variable {L : Likeness} {φ : Border} {k : Nat} {call₁ call₂ : Callees} {c d : Cursor}

/-- A call of a rule whose arguments are the same on both sides. -/
theorem Agree.call (hcall : Agree L k call₁ call₂) {α : Type} {r : Rule α} (hr : r.Plain)
    (h : r.Begins L φ c d) (hk : 9 * c.remaining + r.rank < k) :
    Together (call₁ r) (call₂ r) c d fun a b c' d' => r.Likes L a b ∧ r.Ends L φ c' d' :=
  hcall φ (.plain hr) h hk

/-- Brackets make like types of like types. -/
theorem bracketSuffixes_alike (t : TypeExpr) (ls : List Lexeme) : ∀ {t' : TypeExpr}, t.Alike L t' →
    (bracketSuffixes t ls).1.Alike L (bracketSuffixes t' ls).1 ∧
      (bracketSuffixes t' ls).2 = (bracketSuffixes t ls).2 := by
  fun_induction bracketSuffixes t ls with
  | case1 t =>
      intro t' ht
      rw [bracketSuffixes]
      exact ⟨ht, rfl⟩
  | case2 t l ls hbracket hhead u n heq ih =>
      intro t' ht
      have hrest := ih (.array ht)
      rw [heq] at hrest
      rw [bracketSuffixes, if_pos hbracket, if_pos hhead]
      exact ⟨hrest.1, congrArg (· + 2) hrest.2⟩
  | case3 t l ls hbracket hhead k u n heq =>
      rename_i ih
      intro t' _
      simp only [bracketSuffixes, if_pos hbracket, if_neg hhead]
      have hrest := ih .other
      rw [heq] at hrest ⊢
      exact ⟨hrest.1, rfl⟩
  | case4 t l ls hbracket =>
      intro t' ht
      rw [bracketSuffixes, if_neg hbracket]
      exact ⟨ht, rfl⟩

/-- Parts between signs: alternatives between bars, and parts between ampersands. -/
theorem chain_agrees {sign : Token} (hsign : ¬ sign.IsFence) {part : Rule TypeExpr}
    {rest : Rule (List TypeExpr)} {wrap : List TypeExpr → TypeExpr} {n : Nat}
    (hwrap : ∀ {ts ts'}, List.Forall₂ (TypeExpr.Alike L) ts ts' → (wrap ts).Alike L (wrap ts'))
    (hpart : ∀ {c d : Cursor}, c.Alike L φ d → 9 * c.remaining + n ≤ k →
      Together (call₁ part) (call₂ part) c d (Yields L φ (TypeExpr.Alike L)))
    (hrest : ∀ {c d : Cursor}, c.Alike L φ d → 9 * c.remaining + n ≤ k →
      Together (call₁ rest) (call₂ rest) c d (Yields L φ (List.Forall₂ (TypeExpr.Alike L))))
    (h : c.Alike L φ d) (hk : 9 * c.remaining + n ≤ k) :
    Together (chainBody call₁ sign part rest wrap) (chainBody call₂ sign part rest wrap) c d
      (Yields L φ (TypeExpr.Alike L)) := by
  refine (h.eat (h.token?_ne hsign)).next fun _ _ c₁ d₁ hle₁ ⟨⟨_, h₁⟩, _⟩ => ?_
  refine (hpart h₁ (by omega)).next fun t t' c₂ d₂ hle₂ ⟨ht, h₂⟩ => ?_
  refine together_get (together_ite (by rw [h₂.isAt_eq]) (fun _ => ?_)
    fun _ => together_pure ⟨ht, h₂⟩)
  exact (hrest h₂ (by omega)).next fun ts ts' c₃ d₃ _ ⟨hts, h₃⟩ =>
    together_pure ⟨hwrap (.cons ht hts), h₃⟩

/-- The rest of a chain of parts with a sign between them, such as that of a union. -/
theorem chainRest_agrees {sign : Token} (hsign : ¬ sign.IsFence) {part : Rule TypeExpr}
    {rest : Rule (List TypeExpr)}
    (hpart : ∀ {c d : Cursor}, c.Alike L φ d → 9 * c.remaining + 9 ≤ k →
      Together (call₁ part) (call₂ part) c d (Yields L φ (TypeExpr.Alike L)))
    (hrest : ∀ {c d : Cursor}, c.Alike L φ d → 9 * c.remaining + 9 ≤ k →
      Together (call₁ rest) (call₂ rest) c d (Yields L φ (List.Forall₂ (TypeExpr.Alike L))))
    (h : c.Alike L φ d) (hk : 9 * c.remaining ≤ k) :
    Together (chainRestBody call₁ sign part rest) (chainRestBody call₂ sign part rest) c d
      (Yields L φ (List.Forall₂ (TypeExpr.Alike L))) := by
  refine (h.eat (h.token?_ne hsign)).next fun a _ c₁ d₁ hle₁ ⟨⟨rfl, h₁⟩, hlt₁⟩ => ?_
  refine together_ite Iff.rfl (fun ha => ?_) fun _ => together_pure ⟨.nil, h₁⟩
  have hlt := hlt₁ ha
  refine (hpart h₁ (by omega)).next fun t t' c₂ d₂ hle₂ ⟨ht, h₂⟩ => ?_
  exact (hrest h₂ (by omega)).next fun ts ts' c₃ d₃ _ ⟨hts, h₃⟩ =>
    together_pure ⟨.cons ht hts, h₃⟩

variable (hcall : Agree L k call₁ call₂)
include hcall

/-- A conditional type agrees in all four of its parts; its `extends` must stand on the same line.
    -/
theorem typeExpr_agrees (h : c.Alike L φ d) (hk : 9 * c.remaining + 7 ≤ k) :
    Together (typeExprBody call₁) (typeExprBody call₂) c d (Yields L φ (TypeExpr.Alike L)) := by
  refine (hcall.call (r := unionType) trivial h (by simp only [rank]; omega)).next
    fun t t' c₁ d₁ hle₁ ⟨ht, h₁⟩ => ?_
  refine together_get (together_ite (by rw [h₁.atWord_eq, h₁.newlineBefore_eq]) (fun hext => ?_)
    fun _ => together_pure ⟨ht, h₁⟩)
  refine (h₁.readWord (Bool.and_eq_true_iff.mp hext).1).next fun _ _ c₂ d₂ _ ⟨_, hlt₂, h₂⟩ => ?_
  refine (hcall.call (r := unionType) trivial h₂ (by simp only [rank]; omega)).next
    fun _ _ c₃ d₃ hle₃ ⟨_, h₃⟩ => ?_
  refine (h₃.eat (h₃.token?_ne (by decide))).next fun a _ c₄ d₄ hle₄ ⟨⟨rfl, h₄⟩, _⟩ => ?_
  refine together_ite Iff.rfl (fun _ => ?_) fun _ => together_pure ⟨.other, h₄⟩
  refine (hcall.call (r := typeExpr) trivial h₄ (by simp only [rank]; omega)).next
    fun _ _ c₅ d₅ hle₅ ⟨_, h₅⟩ => ?_
  refine (h₅.eat (h₅.token?_ne (by decide))).next fun a _ c₆ d₆ hle₆ ⟨⟨rfl, h₆⟩, _⟩ => ?_
  refine together_ite Iff.rfl (fun _ => ?_) fun _ => together_pure ⟨.other, h₆⟩
  exact (hcall.call (r := typeExpr) trivial h₆ (by simp only [rank]; omega)).next
    fun _ _ c₇ d₇ _ ⟨_, h₇⟩ => together_pure ⟨.other, h₇⟩

/-- A result may be a predicate, with or without `asserts`, and both runs say which. -/
theorem resultType_agrees (h : c.Alike L φ d) (hk : 9 * c.remaining + 8 ≤ k) :
    Together (resultTypeBody call₁) (resultTypeBody call₂) c d
      (Yields L φ (TypeExpr.Alike L)) := by
  have hword {w : String} : ¬ (Token.word w).IsFence := by simp [Token.IsFence]
  refine together_get (together_ite ?_ (fun hasserts => ?_) fun _ =>
    together_ite ?_ (fun his => ?_) fun _ => ?_)
  · rw [h.atWord_eq]
    have hone (hat : c.atWord "asserts" = true) := h.within_atWord hat
    rw [and_eq_and fun hat => h.seesAnyWord_eq (hone hat), and_eq_and fun hboth => by
      rw [h.seesWord_eq (hone (Bool.and_eq_true_iff.mp hboth).1)]]
  · obtain ⟨hboth, -⟩ := Bool.and_eq_true_iff.mp hasserts
    obtain ⟨hat, hany⟩ := Bool.and_eq_true_iff.mp hboth
    obtain ⟨w, hw⟩ := peekAt_of_seesAnyWord hany
    refine (h.readWord hat).next ?_
    rintro _ _ c₁ d₁ _ ⟨hc₁, hlt₁, h₁⟩
    refine (h₁.read (by rw [hc₁]; exact (peekAt_bump c 0).trans hw) hword).next ?_
    rintro _ _ c₂ d₂ _ ⟨_, hlt₂, h₂⟩
    refine (h₂.eatWord "is").next ?_
    rintro a _ c₃ d₃ hle₃ ⟨⟨rfl, h₃⟩, _⟩
    refine together_ite Iff.rfl (fun _ => ?_) fun _ => together_pure ⟨.other, h₃⟩
    refine (hcall.call (r := typeExpr) trivial h₃ (by simp only [rank]; omega)).next ?_
    rintro _ _ c₄ d₄ _ ⟨_, h₄⟩
    exact together_pure ⟨.other, h₄⟩
  · rw [h.seesAnyWord_eq h.within_zero, and_eq_and fun hany =>
      h.seesWord_eq (h.within_word h.within_zero hany) "is"]
  · obtain ⟨hany, hw⟩ := Bool.and_eq_true_iff.mp his
    obtain ⟨w, hat⟩ := peekAt_of_seesAnyWord hany
    refine (h.read hat hword).next ?_
    rintro _ _ c₁ d₁ _ ⟨hc₁, hlt₁, h₁⟩
    refine (h₁.read (by rw [hc₁]; exact (peekAt_bump c 0).trans (peekAt_of_sees hw)) hword).next ?_
    rintro _ _ c₂ d₂ _ ⟨_, hlt₂, h₂⟩
    refine (hcall.call (r := typeExpr) trivial h₂ (by simp only [rank]; omega)).next ?_
    rintro _ _ c₃ d₃ _ ⟨_, h₃⟩
    exact together_pure ⟨.other, h₃⟩
  · exact hcall.call (r := typeExpr) trivial h (by simp only [rank]; omega)

/-- Behind a primary type, brackets are read by one reader that is fenced in. -/
theorem postfixType_agrees (h : c.Alike L φ d) (hk : 9 * c.remaining + 4 ≤ k) :
    Together (postfixTypeBody call₁) (postfixTypeBody call₂) c d
      (Yields L φ (TypeExpr.Alike L)) := by
  refine (hcall.call (r := primaryType) trivial h (by simp only [rank]; omega)).next
    fun t t' c₁ d₁ _ ⟨ht, h₁⟩ => ?_
  obtain ⟨hsame, hk⟩ := h₁.reads (fencedIn_bracketSuffixes t)
  obtain ⟨halike, hlength⟩ := bracketSuffixes_alike t d₁.rest ht
  rw [hsame] at halike hlength
  refine ⟨leadsTo_advance _ c₁, leadsTo_advance _ d₁, halike, ?_⟩
  show Cursor.Alike L φ (c₁.advance (bracketSuffixes t c₁.rest).2)
    (d₁.advance (bracketSuffixes t' d₁.rest).2)
  rw [hlength]
  exact h₁.advance hk

/-- What a type begins with decides on the rule, and the next token is the same on both sides. -/
theorem primaryType_agrees (h : c.Alike L φ d) (hk : 9 * c.remaining + 3 ≤ k) :
    Together (primaryTypeBody call₁) (primaryTypeBody call₂) c d
      (Yields L φ (TypeExpr.Alike L)) := by
  refine together_get ?_
  rcases h.heads with ⟨hc, hd⟩ | ⟨l, ls, m, ms, hc, hd, hl⟩
  · rw [hc, hd]
    exact together_pure ⟨.other, h⟩
  rw [hc, hd]
  have hpeek : c.peek = some l.token := by simp [peek, peekAt, hc]
  simp only [← L.near_token (L.near_of hl), ← L.text_eq hl]
  cases hl : l.token with
  | openParen =>
      rw [hl] at hpeek
      refine together_ite (by rw [h.atFunctionType_eq hpeek]) (fun _ => ?_) fun _ => ?_
      · exact hcall.call (r := functionType) trivial h (by simp only [rank]; omega)
      · refine (h.read hpeek (by decide)).next ?_
        rintro _ _ c₁ d₁ _ ⟨_, hlt₁, h₁⟩
        refine (hcall.call (r := typeExpr) trivial h₁ (by simp only [rank]; omega)).next ?_
        rintro t t' c₂ d₂ _ ⟨ht, h₂⟩
        refine (h₂.eat (h₂.token?_ne (by decide))).next ?_
        rintro _ _ c₃ d₃ _ ⟨⟨_, h₃⟩, _⟩
        exact together_pure ⟨.paren ht, h₃⟩
  | less => exact hcall.call (r := functionType) trivial h (by simp only [rank]; omega)
  | openBrace =>
      rw [hl] at hpeek
      refine together_ite (by rw [h.atMappedType_eq hpeek]) (fun _ => ?_) fun _ => ?_
      · exact (h.skipBrackets (.inr ⟨_, hpeek, rfl⟩)).next fun _ _ c₁ d₁ _ h₁ =>
          together_pure ⟨.other, h₁⟩
      · obtain ⟨ψ, hψ, hblock, hleave⟩ := h.block hpeek
        have hlt := remaining_bump_lt hpeek
        refine Together.bind (M := fun _ _ c' d' => c' = c.bump ∧ d' = d.bump)
          ⟨leadsTo_bump c, leadsTo_bump d, rfl, rfl⟩ ?_
        rintro _ _ c₁ d₁ _ _ ⟨hc₁, hd₁⟩
        subst hc₁ hd₁
        refine (hcall.call (r := typeMembers) trivial ⟨hψ, hblock⟩
          (by simp only [rank]; omega)).bind ?_
        rintro ms ms' c₂ d₂ hc₂ _ ⟨hms, h₂⟩
        exact together_pure ⟨.members hms, hleave c₂ d₂ hc₂ h₂⟩
  | openBracket =>
      rw [hl] at hpeek
      obtain ⟨ψ, hψ, hfree, hleave⟩ := h.tuple hpeek
      have hlt := remaining_bump_lt hpeek
      refine Together.bind (M := fun _ _ c' d' => c' = c.bump ∧ d' = d.bump)
        ⟨leadsTo_bump c, leadsTo_bump d, rfl, rfl⟩ ?_
      rintro _ _ c₁ d₁ _ _ ⟨hc₁, hd₁⟩
      subst hc₁ hd₁
      refine (hcall.call (r := tupleElements) trivial ⟨hψ, hfree⟩
        (by simp only [rank]; omega)).bind ?_
      rintro ts ts' c₂ d₂ hc₂ _ ⟨hts, h₂⟩
      exact together_pure ⟨.tuple hts, hleave c₂ d₂ hc₂ h₂⟩
  | string s =>
      rw [hl] at hpeek
      refine (h.read hpeek (by simp [Token.IsFence])).next ?_
      rintro _ _ c₁ d₁ _ ⟨_, _, h₁⟩
      exact together_pure ⟨.literal s, h₁⟩
  | template | number =>
      rw [hl] at hpeek
      refine (h.read hpeek (by decide)).next ?_
      rintro _ _ c₁ d₁ _ ⟨_, _, h₁⟩
      exact together_pure ⟨.literal _, h₁⟩
  | operator =>
      rw [hl] at hpeek
      have hone := h.within_one hpeek (by decide)
      refine together_ite (by rw [h.sees_eq hone]) (fun hnumber => ?_) fun _ =>
        together_pure ⟨.other, h⟩
      refine (h.read hpeek (by decide)).bind ?_
      rintro _ _ c₁ d₁ _ _ ⟨hc₁, _, h₁⟩
      refine (h₁.read (by rw [hc₁]; exact (peekAt_bump c 0).trans (peekAt_of_sees hnumber))
        (by decide)).bind ?_
      rintro _ _ c₂ d₂ _ _ ⟨hc₂, _, h₂⟩
      refine together_get (together_pure ⟨.signedNumber (h.rowSince h₂) ?_, h₂⟩)
      have hnext := (peekAt_bump c 0).trans (peekAt_of_sees hnumber)
      obtain ⟨n, ls', hrest, hn⟩ := peek_eq_some_iff.mp hnext
      rw [hc₂, hc₁, bump_of_rest hrest]
      rw [bump_of_rest hc] at hrest
      simp only [remaining, hc, show ls = n :: ls' from hrest, List.length_cons,
        show ls'.length + 1 + 1 - ls'.length = 2 by omega, List.take_succ_cons, List.take_zero,
        List.map_cons, List.map_nil, hl, hn]
  | word w =>
      rw [hl] at hpeek
      exact hcall.call (r := wordType w) trivial
        ⟨h, w, hpeek⟩ (by simp only [rank]; omega)
  | _ => exact together_pure ⟨.other, h⟩

/-- Type arguments behind `typeof` and a name only count on the same line. -/
theorem typeofTail_agrees (h : c.Alike L φ d) (hk : 9 * c.remaining + 10 ≤ k) (name : String) :
    Together
      (do
        let c ← get
        if c.isAt .less && !c.newlineBefore then
          bump
          let _ ← call₁ typeArgs
        pure (TypeExpr.query name))
      (do
        let c ← get
        if c.isAt .less && !c.newlineBefore then
          bump
          let _ ← call₂ typeArgs
        pure (TypeExpr.query name)) c d (Yields L φ (TypeExpr.Alike L)) := by
  refine together_get (together_ite (by rw [h.isAt_eq, h.newlineBefore_eq]) (fun hargs => ?_)
    fun _ => together_pure ⟨.query name, h⟩)
  refine (h.read (peek_of_isAt (Bool.and_eq_true_iff.mp hargs).1) (by decide)).next
    fun _ _ c₁ d₁ _ ⟨_, hlt₁, h₁⟩ => ?_
  exact (hcall.call (r := typeArgs) trivial h₁ (by simp only [rank]; omega)).next
    fun _ _ c₂ d₂ _ ⟨_, h₂⟩ => together_pure ⟨.query name, h₂⟩

/-- A type that begins with a word: each of the words with a meaning of its own, and references. -/
theorem wordType_agrees (w : String) (h : c.Alike L φ d) (hone : φ.Within c 1)
    (hk : 9 * c.remaining + 2 ≤ k) (hnext : 9 * c.bump.remaining + 9 < k) :
    Together (wordTypeBody call₁ w) (wordTypeBody call₂ w) c d
      (Yields L φ (TypeExpr.Alike L)) := by
  have hbump : Together bump bump c d fun _ _ c' d' =>
      c' = c.bump ∧ 9 * c'.remaining + 9 < k ∧ c'.Alike L φ d' :=
    (h.together_bump hone).mono fun _ _ _ _ _ _ ⟨hc₁, h₁⟩ => ⟨hc₁, hc₁ ▸ hnext, h₁⟩
  refine together_get ?_
  refine together_ite Iff.rfl (fun htypeof => ?_) fun _ => ?_
  · -- the type of a value, or of an imported module
    refine hbump.next fun _ _ c₁ d₁ _ ⟨hc₁, hlt₁, h₁⟩ => ?_
    refine together_get (together_ite (by rw [h₁.atWord_eq]) (fun himport => ?_) fun _ => ?_)
    · refine (h₁.readWord himport).next fun _ _ c₂ d₂ _ ⟨_, _, h₂⟩ => ?_
      refine together_get (h₂.skipBrackets_when rfl fun c₃ d₃ _ h₃ => ?_)
      exact h₃.skipQualifiedTail.next fun _ _ c₄ d₄ _ h₄ => together_pure ⟨.other, h₄⟩
    · refine h₁.dottedName.next fun name _ c₂ d₂ hle₂ ⟨hname, h₂⟩ => ?_
      subst hname
      exact typeofTail_agrees hcall h₂ (by omega) name
  refine together_ite Iff.rfl (fun hkeyof => ?_) fun _ => ?_
  · refine hbump.next fun _ _ c₁ d₁ _ ⟨hc₁, hlt₁, h₁⟩ => ?_
    exact (hcall.call (r := postfixType) trivial h₁ (by simp only [rank]; omega)).next
      fun _ _ c₂ d₂ _ ⟨_, h₂⟩ => together_pure ⟨.other, h₂⟩
  refine together_ite Iff.rfl (fun hreadonly => ?_) fun _ => ?_
  · refine hbump.next fun _ _ c₁ d₁ _ ⟨hc₁, hlt₁, h₁⟩ => ?_
    exact hcall.call (r := postfixType) trivial h₁ (by simp only [rank]; omega)
  refine together_ite Iff.rfl (fun hinfer => ?_) fun _ => ?_
  · refine hbump.next fun _ _ c₁ d₁ _ ⟨hc₁, hlt₁, h₁⟩ => ?_
    exact h₁.takeWord.next fun _ _ c₂ d₂ _ ⟨_, h₂⟩ => together_pure ⟨.other, h₂⟩
  refine together_ite Iff.rfl (fun hnew => ?_) fun _ => ?_
  · refine hbump.next fun _ _ c₁ d₁ _ ⟨hc₁, hlt₁, h₁⟩ => ?_
    exact hcall.call (r := functionType) trivial h₁ (by simp only [rank]; omega)
  refine together_ite (by rw [h.seesWord_eq hone]) (fun habstract => ?_) fun _ => ?_
  · refine hbump.next fun _ _ c₁ d₁ _ ⟨hc₁, hlt₁, h₁⟩ => ?_
    refine (h₁.read (by rw [hc₁]; exact (peekAt_bump c 0).trans (peekAt_of_sees habstract.2))
      (by simp [Token.IsFence])).next fun _ _ c₂ d₂ _ ⟨_, hlt₂, h₂⟩ => ?_
    exact hcall.call (r := functionType) trivial h₂ (by simp only [rank]; omega)
  refine together_ite (by rw [h.sees_eq hone]) (fun himported => ?_) fun _ => ?_
  · -- an imported type
    refine hbump.next fun _ _ c₁ d₁ _ ⟨hc₁, hlt₁, h₁⟩ => ?_
    refine (h₁.skipBrackets (.inr ⟨.openParen, ?_, rfl⟩)).next fun _ _ c₂ d₂ _ h₂ => ?_
    · rw [hc₁]
      exact (peekAt_bump c 0).trans (peekAt_of_sees himported.2)
    exact h₂.skipQualifiedTail.next fun _ _ c₃ d₃ _ h₃ => together_pure ⟨.other, h₃⟩
  refine together_ite Iff.rfl (fun htruth => ?_) fun _ => ?_
  · exact hbump.next fun _ _ c₁ d₁ _ ⟨_, _, h₁⟩ => together_pure ⟨.literal w, h₁⟩
  cases Keyword.ofWord? w with
  | none => exact hcall.call (r := referenceType) trivial h (by simp only [rank]; omega)
  | some key =>
      refine together_ite (by rw [h.sees_eq hone]) (fun hqualified => ?_) fun _ => ?_
      · exact hcall.call (r := referenceType) trivial h (by simp only [rank]; omega)
      · exact hbump.next fun _ _ c₁ d₁ _ ⟨_, _, h₁⟩ =>
          together_pure ⟨.keyword key, h₁⟩

/-- A reference has the same dotted name and like arguments. -/
theorem referenceType_agrees (h : c.Alike L φ d) (hk : 9 * c.remaining + 1 ≤ k) :
    Together (referenceTypeBody call₁) (referenceTypeBody call₂) c d
      (Yields L φ (TypeExpr.Alike L)) := by
  refine together_get (together_ite (by rw [h.seesAnyWord_eq h.within_zero]) (fun _ => ?_)
    fun _ => together_pure ⟨.other, h⟩)
  refine h.dottedName.next fun name _ c₁ d₁ hle₁ ⟨hname, h₁⟩ => ?_
  subst hname
  refine together_get (together_ite (by rw [h₁.isAt_eq, h₁.newlineBefore_eq]) (fun hargs => ?_)
    fun _ => together_pure ⟨.reference name .nil, h₁⟩)
  refine (h₁.read (peek_of_isAt (Bool.and_eq_true_iff.mp hargs).1) (by decide)).next
    fun _ _ c₂ d₂ _ ⟨_, hlt₂, h₂⟩ => ?_
  exact (hcall.call (r := typeArgs) trivial h₂ (by simp only [rank]; omega)).next
    fun ts ts' c₃ d₃ _ ⟨hts, h₃⟩ => together_pure ⟨.reference name hts, h₃⟩

/-- Type arguments end behind the sign that closes them, or they are given up on both sides. -/
theorem typeArgs_agrees (h : c.Alike L φ d) (hk : 9 * c.remaining + 8 ≤ k) :
    Together (typeArgsBody call₁) (typeArgsBody call₂) c d
      (Yields L φ (List.Forall₂ (TypeExpr.Alike L))) := by
  refine (h.eat (h.token?_ne (by decide))).next ?_
  rintro a _ c₁ d₁ hle₁ ⟨⟨rfl, h₁⟩, _⟩
  refine together_ite Iff.rfl (fun _ => together_pure ⟨.nil, h₁⟩) fun _ => ?_
  refine together_get (together_ite ?_ (fun _ => together_pure ⟨.nil, h₁⟩) fun _ => ?_)
  · rcases h₁.heads with ⟨hc, hd⟩ | ⟨l, ls, m, ms, hc, hd, -⟩ <;> simp [remaining, hc, hd]
  refine (hcall.call (r := typeExpr) trivial h₁ (by simp only [rank]; omega)).bind ?_
  rintro t t' c₂ d₂ hc₂ _ ⟨ht, h₂⟩
  have hle₂ := hc₂.remaining_le
  refine (h₂.eat (h₂.token?_ne (by decide))).bind ?_
  rintro a _ c₃ d₃ hc₃ _ ⟨⟨hab, h₃⟩, hlt₃⟩
  subst hab
  refine together_ite Iff.rfl (fun hcomma => ?_) fun _ => ?_
  · have hlt := hlt₃ hcomma
    refine (hcall.call (r := typeArgs) trivial h₃ (by simp only [rank]; omega)).next ?_
    rintro ts ts' c₄ d₄ _ ⟨hts, h₄⟩
    exact together_pure ⟨.cons ht hts, h₄⟩
  refine (h₃.eat (h₃.token?_ne (by decide))).bind ?_
  rintro a _ c₄ d₄ hc₄ _ ⟨⟨hab, h₄⟩, _⟩
  subst hab
  refine together_ite Iff.rfl (fun _ => together_pure ⟨.cons ht .nil, h₄⟩) fun _ => ?_
  refine together_get (together_ite (h₁.remaining_eq_iff h₄) (fun _ => ?_)
    fun _ => together_pure ⟨.cons ht .nil, h₄⟩)
  exact h₄.skipAngleTail.next fun _ _ c₅ d₅ _ h₅ => together_pure ⟨.cons ht .nil, h₅⟩

/-- The type of a function is that of its result, behind parameters that are skipped alike. -/
theorem functionType_agrees (h : c.Alike L φ d) (hk : 9 * c.remaining + 1 ≤ k) :
    Together (functionTypeBody call₁) (functionTypeBody call₂) c d
      (Yields L φ (TypeExpr.Alike L)) := by
  refine together_get (h.skipAngles_when fun c₁ d₁ hle₁ h₁ => ?_)
  refine together_get (h₁.skipBrackets_when rfl fun c₂ d₂ hle₂ h₂ => ?_)
  refine (h₂.eat (h₂.token?_ne (by decide))).next fun a _ c₃ d₃ _ ⟨⟨hab, h₃⟩, hlt₃⟩ => ?_
  subst hab
  refine together_ite Iff.rfl (fun harrow => ?_) fun _ => together_pure ⟨.function, h₃⟩
  have hlt := hlt₃ harrow
  exact (hcall.call (r := resultType) trivial h₃ (by simp only [rank]; omega)).next
    fun _ _ c₄ d₄ _ ⟨_, h₄⟩ => together_pure ⟨.function, h₄⟩

/-- The elements of a tuple, which must not end with a label in front of the fence. -/
theorem tupleElements_agrees (h : c.Alike L φ d) (hfree : φ.Unlabelled c)
    (hk : 9 * c.remaining + 8 ≤ k) :
    Together (tupleElementsBody call₁) (tupleElementsBody call₂) c d
      (Yields L φ (List.Forall₂ (TypeExpr.Alike L))) := by
  have hnext {t : Token} (hpeek : c.peek = some t) (ht : ¬ t.IsFence) :
      Together (bump >>= fun _ => call₁ tupleElements) (bump >>= fun _ => call₂ tupleElements) c d
        (Yields L φ (List.Forall₂ (TypeExpr.Alike L))) :=
    (h.read hpeek ht).bind fun _ _ c₁ d₁ hc₁ _ h₁ =>
      hcall.call (r := tupleElements) trivial ⟨h₁.2.2, hfree.leadsTo hc₁⟩
        (by have hlt₁ := h₁.2.1; simp only [rank]; omega)
  refine together_get ?_
  rw [h.peek_eq]
  split
  · exact together_pure ⟨.nil, h⟩
  · exact together_pure ⟨.nil, h⟩
  · exact together_pure ⟨.nil, h⟩
  · next hpeek =>
    refine (h.read hpeek (by decide)).next ?_
    rintro _ _ c₁ d₁ _ ⟨_, _, h₁⟩
    exact together_pure ⟨.nil, h₁⟩
  · next hpeek => exact hnext hpeek (by decide)
  · next hpeek => exact hnext hpeek (by decide)
  · next hnone hbrace hsemicolon _ _ _ =>
    -- the element begins behind its label, in front of the fence
    refine together_join (M := fun c' d' => c'.Alike L φ d' ∧ φ.Within c' 1 ∧ c.LeadsTo c' ∧
      (c'.peek = none → c'.remaining < c.remaining))
      ?_ fun hjoin =>
        together_ite (by rw [h.atTupleLabel_eq]) (fun hlabel => ?_)
          fun _ => hjoin c d ⟨h, ?_, .refl c, fun h => (hnone h).elim⟩
    · rintro c₁ d₁ ⟨h₁, hwithin, hc₁, hlt₁⟩
      have hle₁ := hc₁.remaining_le
      refine together_get ?_
      refine (hcall.call (r := typeExpr) trivial h₁ (by simp only [rank]; omega)).bind ?_
      rintro t t' c₂ d₂ hc₂ _ ⟨ht, h₂⟩
      refine (h₂.eat (h₂.token?_ne (by decide))).bind ?_
      rintro _ _ c₃ d₃ hc₃ _ ⟨⟨_, h₃⟩, _⟩
      refine together_get (h₁.together_forced hwithin hle₁ hlt₁ h₃ (hc₂.trans hc₃)
        fun c₄ d₄ hc₄ _ hlt₄ h₄ => ?_)
      have hfree₄ := hfree.leadsTo (hc₁.trans (hc₂.trans (hc₃.trans hc₄)))
      refine (hcall.call (r := tupleElements) trivial ⟨h₄, hfree₄⟩
        (by simp only [rank]; omega)).next ?_
      rintro ts ts' c₅ d₅ _ ⟨hts, h₅⟩
      exact together_pure ⟨.cons ht hts, h₅⟩
    · obtain ⟨w, hw, hwithin⟩ := h.within_behind_label hfree hlabel
      refine (h.read hw (by simp [Token.IsFence])).bind ?_
      rintro _ _ c₁ d₁ hlead₁ _ ⟨hc₁, hlt₁, h₁⟩
      refine (h₁.eat_exact (h₁.token?_ne (by decide))).bind ?_
      rintro _ _ c₂ d₂ hlead₂ _ ⟨hc₂, h₂⟩
      refine (h₂.eat_exact (h₂.token?_ne (by decide))).bind ?_
      rintro _ _ c₃ d₃ hlead₃ _ ⟨hc₃, h₃⟩
      have hle₃ := (hlead₂.trans hlead₃).remaining_le
      refine hjoin c₃ d₃ ⟨h₃, ?_, hlead₁.trans (hlead₂.trans hlead₃), fun _ => by omega⟩
      have hpeek₁ : c₁.peek = c.peekAt 1 := by rw [hc₁]; exact peekAt_bump c 0
      rcases hwithin with ⟨hcolon, hwithin⟩ | ⟨hquestion, hcolon, hwithin⟩
      · rw [hcolon] at hpeek₁
        rw [if_neg (by rw [hpeek₁]; decide)] at hc₂
        rw [hc₃, hc₂, if_pos hpeek₁, hc₁]
        exact within_bump (within_bump hwithin)
      · have hpeek₂ : c₁.bump.peek = some .colon := by
          rw [hc₁]
          exact ((peekAt_bump _ 0).trans (peekAt_bump c 1)).trans hcolon
        rw [hquestion] at hpeek₁
        rw [if_pos hpeek₁] at hc₂
        rw [hc₃, hc₂, if_pos hpeek₂, hc₁]
        exact within_bump (within_bump (within_bump hwithin))
    · cases hpeek : c.peek with
      | none => exact (hnone hpeek).elim
      | some t =>
          refine h.within_one hpeek ?_
          rintro (rfl | rfl)
          · exact hbrace hpeek
          · exact hsemicolon hpeek

/-- The members of a type literal, through the brace that closes it, which may be the fence. -/
theorem typeMembers_agrees (h : c.Alike L φ d) (hblock : φ.InBlock)
    (hk : 9 * c.remaining + 3 ≤ k) :
    Together (typeMembersBody call₁) (typeMembersBody call₂) c d fun ms ms' c' d' =>
      List.Forall₂ (Member.Alike L) ms ms' ∧ EndsAt .closeBrace L φ c' d' := by
  have hnext {t : Token} (hpeek : c.peek = some t) (ht : t ≠ .closeBrace) :
      Together (bump >>= fun _ => call₁ typeMembers) (bump >>= fun _ => call₂ typeMembers) c d
        fun ms ms' c' d' =>
          List.Forall₂ (Member.Alike L) ms ms' ∧ EndsAt .closeBrace L φ c' d' := by
    refine (h.together_bump (h.within_of_inBlock hblock (by rw [hpeek]; simpa))).next
      fun _ _ c₁ d₁ _ ⟨hc₁, h₁⟩ => ?_
    have hlt := remaining_bump_lt hpeek
    rw [← hc₁] at hlt
    exact hcall.call (r := typeMembers) trivial ⟨h₁, hblock⟩ (by simp only [rank]; omega)
  refine together_get ?_
  rw [h.peek_eq]
  split
  · exact together_pure ⟨.nil, .inl h⟩
  · next hpeek => exact ⟨leadsTo_bump c, leadsTo_bump d, .nil, h.bump_end hpeek⟩
  · next hpeek => exact hnext hpeek (by decide)
  · next hpeek => exact hnext hpeek (by decide)
  · next hnone hbrace _ _ =>
    refine h.together_turn (J := fun (m : Option Member) ms => m.toList ++ ms)
      (h.within_of_inBlock hblock hbrace) hnone
      (hcall.call (r := typeMember) trivial h (by simp only [rank]; omega))
      (fun c' d' h' hlt => hcall.call (r := typeMembers) trivial ⟨h', hblock⟩
        (by simp only [rank]; omega)) ?_
    rintro m m' ms ms' c' d' hm ⟨hms, h'⟩
    cases hm with
    | none => exact ⟨hms, h'⟩
    | some hm => exact ⟨.cons hm hms, h'⟩

/-- One member of a type literal, or none where only a separator stands. -/
theorem typeMember_agrees (h : c.Alike L φ d) (hk : 9 * c.remaining + 2 ≤ k) :
    Together (typeMemberBody call₁) (typeMemberBody call₂) c d
      (Yields L φ (Option.Rel (Member.Alike L))) := by
  have hstart := h.here
  refine together_get (together_ite (by rw [h.isAt_eq, h.isAt_eq]) (fun _ => ?_) fun _ => ?_)
  · exact (hcall φ (.signature .callSignature hstart) h (by simp only [rank]; omega)).next
      fun m m' c₁ d₁ _ ⟨hm, h₁⟩ => together_pure ⟨.some hm, h₁⟩
  refine together_ite ?_ (fun hnew => ?_) fun _ => ?_
  · rw [h.atWord_eq, and_eq_and fun hat => by
      rw [h.sees_eq (h.within_atWord hat), h.sees_eq (h.within_atWord hat)]]
  · refine (h.readWord (Bool.and_eq_true_iff.mp hnew).1).next
      fun _ _ c₁ d₁ _ ⟨_, hlt₁, h₁⟩ => ?_
    exact (hcall φ (.signature .constructSignature hstart) h₁ (by simp only [rank]; omega)).next
      fun m m' c₂ d₂ _ ⟨hm, h₂⟩ => together_pure ⟨.some hm, h₂⟩
  -- a modifier that changes nothing
  refine together_when (M := fun c' d' => c'.Alike L φ d' ∧ c'.remaining ≤ c.remaining) ?_
    ⟨h, Nat.le_refl _⟩ (fun hreadonly => ?_) fun c₁ d₁ _ _ ⟨h₁, hle₁⟩ => ?_
  · rw [h.atWord_eq, and_eq_and fun hat => h.seesMemberName_eq (h.within_atWord hat)]
  · exact (h.readWord (Bool.and_eq_true_iff.mp hreadonly).1).mono
      fun _ _ c₁ d₁ hc₁ _ ⟨_, _, h₁⟩ => ⟨h₁, hc₁.remaining_le⟩
  refine together_get (together_ite (by rw [h₁.isAt_eq]) (fun hopen => ?_) fun _ => ?_)
  · exact (hcall φ (.indexSignature false hstart) ⟨h₁, .inr (peek_of_isAt hopen)⟩
      (by simp only [rank]; omega)).next fun m m' c₂ d₂ _ ⟨hm, h₂⟩ => together_pure ⟨.some hm, h₂⟩
  refine h₁.accessorKind.next fun accessor _ c₂ d₂ hle₂ ⟨haccessor, h₂⟩ => ?_
  subst haccessor
  refine h₂.memberName.next fun name _ c₃ d₃ hle₃ ⟨hname, h₃⟩ => ?_
  subst hname
  cases name with
  | none => exact together_pure ⟨.none, h₃⟩
  | some name =>
      refine (h₃.eat (h₃.token?_ne (by decide))).next
        fun optional _ c₄ d₄ hle₄ ⟨⟨hoptional, h₄⟩, _⟩ => ?_
      subst hoptional
      refine together_get (h₄.skipAngles_when fun c₅ d₅ hle₅ h₅ => together_get ?_)
      refine together_ite (by rw [h₅.isAt_eq]) (fun hparen => ?_) fun _ => ?_
      · refine (h₅.skipBrackets (.inr ⟨_, peek_of_isAt hparen, rfl⟩)).next
          fun _ _ c₆ d₆ hle₆ h₆ => ?_
        refine (hcall.call (r := annotatedResult) trivial h₆ (by simp only [rank]; omega)).next
          fun type type' c₇ d₇ _ ⟨htype, h₇⟩ => together_get (together_pure ⟨.some ?_, h₇⟩)
        exact .mk _ (some name) false optional htype (h₇.spanFrom hstart)
      · refine (hcall.call (r := annotated) trivial h₅ (by simp only [rank]; omega)).next
          fun type type' c₆ d₆ _ ⟨htype, h₆⟩ => together_get (together_pure ⟨.some ?_, h₆⟩)
        exact .mk _ (some name) false optional htype (h₆.spanFrom hstart)

/-- A signature keeps its kind and where it starts; parameters are skipped and the result is read.
    -/
theorem signature_agrees (kind : MemberKind) {start start' : Span} (hstart : L.span start start')
    (h : c.Alike L φ d) (hk : 9 * c.remaining + 1 ≤ k) :
    Together (signatureBody call₁ kind start) (signatureBody call₂ kind start') c d
      (Yields L φ (Member.Alike L)) := by
  refine together_get (h.skipAngles_when fun c₁ d₁ hle₁ h₁ => ?_)
  refine together_get (h₁.skipBrackets_when rfl fun c₂ d₂ hle₂ h₂ => ?_)
  refine (hcall.call (r := annotatedResult) trivial h₂ (by simp only [rank]; omega)).next
    fun type type' c₃ d₃ _ ⟨htype, h₃⟩ => together_get (together_pure ⟨?_, h₃⟩)
  exact .mk kind none false false htype (h₃.spanFrom hstart)

/-- An index signature from its bracket on, which is skipped with all that it holds. -/
theorem indexSignature_agrees (isStatic : Bool) {start start' : Span}
    (hstart : L.span start start') (h : c.Alike L φ d)
    (hopen : φ = .finish ∨ c.peek = some .openBracket) (hk : 9 * c.remaining + 1 ≤ k) :
    Together (indexSignatureBody call₁ start isStatic) (indexSignatureBody call₂ start' isStatic)
      c d (Yields L φ (Member.Alike L)) := by
  refine (h.skipBrackets (hopen.imp_right fun hpeek => ⟨_, hpeek, rfl⟩)).next
    fun _ _ c₁ d₁ hle₁ h₁ => ?_
  refine (h₁.eat (h₁.token?_ne (by decide))).next fun optional _ c₂ d₂ hle₂ ⟨⟨hopt, h₂⟩, _⟩ => ?_
  subst hopt
  refine (hcall.call (r := annotated) trivial h₂ (by simp only [rank]; omega)).next
    fun type type' c₃ d₃ _ ⟨htype, h₃⟩ => together_get (together_pure ⟨?_, h₃⟩)
  exact .mk .indexer none isStatic optional htype (h₃.spanFrom hstart)

/-- A type behind a colon, for each of the two rules that may be asked for it. -/
theorem annotation_agrees (part : Rule TypeExpr) (hplain : part.Plain)
    (hbegins : ∀ {c d : Cursor}, c.Alike L φ d → part.Begins L φ c d)
    (hends : ∀ {t t' : TypeExpr} {c d : Cursor}, part.Likes L t t' ∧ part.Ends L φ c d →
      Yields L φ (TypeExpr.Alike L) t t' c d)
    (h : c.Alike L φ d) (hk : 9 * c.remaining ≤ k) :
    Together (annotationBody call₁ part) (annotationBody call₂ part) c d
      (Yields L φ (Option.Rel (TypeExpr.Alike L))) := by
  refine (h.eat (h.token?_ne (by decide))).next fun a _ c₁ d₁ _ ⟨⟨hab, h₁⟩, hlt₁⟩ => ?_
  subst hab
  refine together_ite Iff.rfl (fun hcolon => ?_) fun _ => together_pure ⟨.none, h₁⟩
  have hlt := hlt₁ hcolon
  have hrank := part.rank_le
  exact (hcall.call hplain (hbegins h₁) (by omega)).next fun t t' c₂ d₂ _ h₂ =>
    together_pure ⟨.some (hends h₂).1, (hends h₂).2⟩

end Steps

end Rule

end DeclAtlas

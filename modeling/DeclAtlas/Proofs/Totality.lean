import DeclAtlas.Proofs.Placement
import DeclAtlas.Proofs.StatementsAgree

/-!
# The grammar is total

The parsers of the grammar run on budgets, and a budget can be spent.  It never is: every call that
a rule makes comes before it in the lexicographic order of the tokens left and of the rank
(`Rule.Precedes`), so the rules can be followed without any budget, and doing so is what the parsers
do on every budget that is large enough (`Rule.total`).  From this equation follows where parsers
end, and how many statements there are.

All of it is put together in `grammar_total`.
-/

namespace DeclAtlas

open DeclAtlas.Parser DeclAtlas.Cursor

-- ── Readers take no more than there is ───────────────────────────────────────────

/-- A reader that takes no more tokens than there are. -/
def StaysWithin {α : Type} (f : List Lexeme → α × Nat) : Prop := ∀ ls, (f ls).2 ≤ ls.length

/-- A bracketed region ends within the tokens that are left, closed or not. -/
theorem bracketExtent_le (depth : Nat) (ls : List Lexeme) : bracketExtent depth ls ≤ ls.length := by
  fun_induction bracketExtent depth ls <;> simp only [List.length_cons, List.length_nil] <;> omega

/-- So does a region in angle brackets. -/
theorem angleExtent_le (angles depth : Nat) (ls : List Lexeme) :
    angleExtent angles depth ls ≤ ls.length := by
  fun_induction angleExtent angles depth ls <;>
    simp only [List.length_cons, List.length_nil] <;> omega

/-- So does what is read over up to a token outside brackets. -/
theorem outerExtent_le (stop : Option Token → Lexeme → Bool) (prev : Option Token) (depth : Nat)
    (ls : List Lexeme) : outerExtent stop prev depth ls ≤ ls.length := by
  fun_induction outerExtent stop prev depth ls <;> simp only [List.length_cons, List.length_nil] <;>
    omega

/-- The qualifiers of a name take two tokens each, and all of these are there. -/
theorem qualifiers_le (ls : List Lexeme) : 2 * (qualifiers ls).length ≤ ls.length := by
  fun_induction qualifiers ls <;> simp only [List.length_cons, List.length_nil] <;> omega

/-- The brackets behind a type take no more tokens than there are, by induction on them with the
    bound of one bracketed region at each step. -/
theorem bracketSuffixes_le (t : TypeExpr) : StaysWithin (bracketSuffixes t) := by
  intro ls
  fun_induction bracketSuffixes t ls with
  | case1 | case4 => exact Nat.zero_le _
  | case2 t l ls _ hhead u n heq ih =>
      rcases ls with _ | ⟨m, ls⟩
      · cases hhead
      · rw [heq] at ih
        simpa using ih
  | case3 t l ls _ _ k u n heq =>
      rename_i ih
      have hk : k ≤ ls.length := bracketExtent_le 1 ls
      rw [heq, List.length_drop] at ih
      simp only [List.length_cons]
      omega

/-- A dotted name takes its first word, if there is one, and then its qualifiers. -/
theorem nameExtent_le (ls : List Lexeme) : nameExtent ls ≤ ls.length := by
  have hfirst : (if ls.head?.any (·.token.word?.isSome) then 1 else 0) ≤ ls.length := by
    have hone : ∀ b : Bool, (if b then 1 else 0 : Nat) ≤ 1 := by decide
    cases ls with
    | nil => exact Nat.le_refl 0
    | cons l ls => exact Nat.le_trans (hone _) (Nat.le_add_left 1 _)
  have hrest := qualifiers_le (ls.drop (if ls.head?.any (·.token.word?.isSome) then 1 else 0))
  rw [List.length_drop] at hrest
  simp only [nameExtent]
  omega

/-- A decorator takes a name and arguments behind it. -/
theorem decoratorExtent_le (ls : List Lexeme) : decoratorExtent ls ≤ ls.length := by
  have hname := nameExtent_le ls
  have harguments : argumentsExtent (ls.drop (nameExtent ls)) ≤ ls.length - nameExtent ls := by
    rw [argumentsExtent, ← List.length_drop]
    split
    · exact bracketExtent_le 0 _
    · exact Nat.zero_le _
  rw [decoratorExtent_eq]
  omega

/-- Any number of decorators, each behind its sign. -/
theorem decoratorsExtent_le (ls : List Lexeme) : decoratorsExtent ls ≤ ls.length := by
  fun_induction decoratorsExtent ls with
  | case1 | case3 => exact Nat.zero_le _
  | case2 l ls _ n ih =>
      have hn : n ≤ ls.length := decoratorExtent_le ls
      rw [List.length_drop] at ih
      simp only [List.length_cons]
      omega

/-- Modifiers in front of a declaration take no more tokens than there are, decorators among them.
    -/
theorem leadingModifiers_le (m : Modifiers) : StaysWithin (leadingModifiers m) := by
  intro ls
  fun_induction leadingModifiers m ls with
  | case1 | case5 => exact Nat.zero_le _
  | case2 m l ls _ k m' n heq =>
      rename_i ih
      have hk : k ≤ ls.length := decoratorExtent_le ls
      rw [heq, List.length_drop] at ih
      simp only [List.length_cons]
      omega
  | case3 m l ls next _ _ m' n heq ih =>
      rw [heq] at ih
      exact Nat.succ_le_succ ih
  | case4 m l ls next _ _ _ m' n heq ih =>
      rw [heq] at ih
      exact Nat.succ_le_succ ih

/-- Modifiers of a class member are read from a word each. -/
theorem leadingMemberModifiers_le (ls : List Lexeme) :
    (leadingMemberModifiers ls).length ≤ ls.length := by
  fun_induction leadingMemberModifiers ls <;> simp only [List.length_cons, List.length_nil] at * <;>
    omega

/-- Type parameters stay within the tokens, with the brackets that are skipped among them. -/
theorem typeParamNames_le (expectName : Bool) : StaysWithin (typeParamNames expectName) := by
  intro ls
  fun_induction typeParamNames expectName ls with
  | case4 e l ls _ k names n heq =>
      rename_i ih
      have hk : k ≤ ls.length := angleExtent_le 1 0 ls
      rw [heq, List.length_drop] at ih
      simp only [List.length_cons]
      omega
  | case5 e l ls _ k names n heq | case6 e l ls _ k names n heq | case7 e l ls _ k names n heq =>
      rename_i ih
      have hk : k ≤ ls.length := bracketExtent_le 1 ls
      rw [heq, List.length_drop] at ih
      simp only [List.length_cons]
      omega
  | _ => simp_all

/-- A new name behind the word `as` takes at most what is left. -/
theorem aliasAt_le (alias? : Token → Option String) : StaysWithin (aliasAt alias?) := by
  rintro (_ | ⟨a, ls⟩)
  · exact Nat.le_refl 0
  · by_cases ha : a.token = .word "as"
    · rcases ls with _ | ⟨b, ls⟩
      · simp [aliasAt, ha]
      · cases hb : alias? b.token <;> simp [aliasAt, ha, hb]
    · simp [aliasAt, ha]

/-- An element of an import or export takes a name and, if there is one, its new name. -/
theorem specifierAt_le (alias? : Token → Option String) (l : Lexeme) :
    StaysWithin (specifierAt alias? l) := by
  intro ls
  simp only [specifierAt_eq]
  generalize htype : marksTypeOnly l (ls.head?.map (·.token)) = typeOnly
  have hle : (if typeOnly then 1 else 0) ≤ ls.length := by
    rcases ls with _ | ⟨m, ls⟩
    · simp [marksTypeOnly] at htype
      simp [← htype]
    · cases typeOnly <;> simp
  have hnew := aliasAt_le alias? (ls.drop (if typeOnly then 1 else 0))
  rw [List.length_drop] at hnew
  omega

/-- The elements in braces stay within the tokens, one element at a time. -/
theorem specifiers_le (alias? : Token → Option String) : StaysWithin (specifiers alias?) := by
  intro ls
  fun_induction specifiers alias? ls with
  | case1 => exact Nat.le_refl 0
  | case2 => exact Nat.le_add_left 1 _
  | case3 l ls _ _ s k hs rest n heq ih =>
      have hk : k ≤ ls.length := by simpa only [hs] using specifierAt_le alias? l ls
      rw [heq, List.length_drop] at ih
      simp only [List.length_cons]
      omega
  | case4 l ls _ _ rest n heq ih =>
      rw [heq] at ih
      exact Nat.succ_le_succ ih

-- ── Runs that are equal ──────────────────────────────────────────────────────────

/-- Rows with equal elements are equal. -/
theorem eq_of_forall₂ {α : Type} {R : α → α → Prop} (hR : ∀ {a b}, R a b → a = b)
    {as bs : List α} (h : List.Forall₂ R as bs) : as = bs := by
  have heq : List.Forall₂ Eq as bs := h.imp fun _ _ => hR
  rwa [List.forall₂_eq_eq_eq] at heq

theorem eq_of_rel {α : Type} {R : α → α → Prop} (hR : ∀ {a b}, R a b → a = b) {a b : Option α}
    (h : Option.Rel R a b) : a = b := by
  cases h with
  | none => rfl
  | some h => rw [hR h]

namespace Cursor

variable {φ : Border} {c d : Cursor} {t : Token}

/-- Under equality, a cursor is alike to itself up to the end of the text. -/
theorem alike_refl (c : Cursor) : c.Alike (.equality False) .finish c where
  prev := rel_self (fun _ => rfl) c.prev
  finish _ := rfl
  rows := ⟨c.rest, c.rest, (List.append_nil _).symm, (List.append_nil _).symm,
    Likeness.forall₂_equality.mpr rfl, trivial⟩

/-- Where no parts are compared, cursors are alike only with themselves. -/
theorem Alike.eq (h : c.Alike (.equality False) φ d) : φ = .finish ∧ c = d := by
  obtain ⟨own, own', hc, hd, hrows, hborder⟩ := h.rows
  cases φ with
  | fence => exact hborder.1.1.elim
  | finish =>
      obtain rfl := Likeness.forall₂_equality.mp hrows
      have hfinish : Span.empty c.finish = Span.empty d.finish := h.finish rfl
      obtain ⟨prev, rest, finish⟩ := c
      obtain ⟨prev', rest', finish'⟩ := d
      obtain rfl : prev = prev' := eq_of_rel id h.prev
      obtain rfl : finish = finish' := congrArg Span.start hfinish
      obtain rfl : rest = rest' := hc.trans hd.symm
      exact ⟨rfl, rfl⟩

/-- With no fence, runs that end alike end at the same cursor. -/
theorem EndsAt.eq (h : EndsAt t (.equality False) φ c d) (hφ : φ = .finish) : c = d := by
  subst hφ
  exact (h.resolve_right fun h => h.2).eq.2

theorem Ahead.eq (h : Ahead (.equality False) φ c d) : φ = .finish ∧ c = d :=
  (h.resolve_right fun h => h.1).eq

end Cursor

section Equal

variable {P : Prop}

/-- Types that are alike under equality are equal; so are members, declarations and statements. -/
theorem TypeExpr.Alike.eq {t t' : TypeExpr} (h : t.Alike (.equality P) t') : t = t' := by
  rw [h.eq_mapSpan (Likeness.equality_maps P), TypeExpr.mapSpan_id]

theorem Member.Alike.eq {m m' : Member} (h : m.Alike (.equality P) m') : m = m' := by
  rw [h.eq_mapSpan (Likeness.equality_maps P), Member.mapSpan_id]

theorem Heritage.Alike.eq {h h' : Heritage} (halike : h.Alike (.equality P) h') : h = h' := by
  rw [halike.eq_mapSpan (Likeness.equality_maps P), Heritage.mapSpan_id]

theorem Declaration.Alike.eq {d d' : Declaration} (h : d.Alike (.equality P) d') : d = d' := by
  rw [h.eq_mapSpan (Likeness.equality_maps P), Declaration.mapSpan_id]

theorem Statement.Alike.eq {s s' : Statement} (h : s.Alike (.equality P) s') : s = s' := by
  rw [h.eq_mapSpan (Likeness.equality_maps P), Statement.mapSpan_id]

theorem NamespaceDecl.Alike.eq {n n' : NamespaceDecl} (h : n.Alike (.equality P) n') : n = n' := by
  rw [h.eq_mapSpan (Likeness.equality_maps P), NamespaceDecl.mapSpan_id]

end Equal

namespace Rule

variable {α : Type} {P : Prop}

/-- Under equality, a rule is only alike to itself. -/
theorem Alike.eq {r r' : Rule α} (h : r.Alike (.equality P) r') : r = r' := by
  cases h with
  | plain => rfl
  | signature kind h | indexSignature _ h | declaration m h | exportStatement h
  | namespaceDecl name m h =>
      obtain rfl : _ = _ := h
      rfl
  | classHeritage hparent hinterfaces =>
      rw [eq_of_rel Heritage.Alike.eq hparent, eq_of_forall₂ Heritage.Alike.eq hinterfaces]

/-- What a rule gives is equal if it is alike. -/
theorem Likes.eq {r : Rule α} {a b : α} (h : r.Likes (.equality P) a b) : a = b := by
  cases r with
  | typeExpr | resultType | unionType | intersectionType | postfixType | primaryType | wordType
  | referenceType | functionType => exact TypeExpr.Alike.eq h
  | unionRest | intersectionRest | typeArgs | tupleElements =>
      exact eq_of_forall₂ TypeExpr.Alike.eq h
  | typeMembers | classMembers => exact eq_of_forall₂ Member.Alike.eq h
  | typeMember => exact eq_of_rel Member.Alike.eq h
  | signature | indexSignature => exact Member.Alike.eq h
  | annotated | annotatedResult => exact eq_of_rel TypeExpr.Alike.eq h
  | heritageList => exact eq_of_forall₂ Heritage.Alike.eq h
  | classHeritage =>
      exact Prod.ext (eq_of_rel Heritage.Alike.eq h.1) (eq_of_forall₂ Heritage.Alike.eq h.2)
  | statements => exact eq_of_forall₂ Statement.Alike.eq h
  | statement | declaration | exportStatement => exact Statement.Alike.eq h
  | namespaceDecl => exact NamespaceDecl.Alike.eq h

-- ── Calls descend ────────────────────────────────────────────────────────────────

/-- Two rules move over their first token unseen, and are only called at a word. -/
def Starts : Rule α → Cursor → Prop
  | wordType _, c | exportStatement _, c => ∃ w, c.peek = some (.word w)
  | _, _ => True

/-- Two runs of a rule that may begin under equality are one run, where the rule starts. -/
theorem starts_of_begins {r : Rule α} {φ : Border} {c d : Cursor}
    (h : r.Begins (.equality False) φ c d) : φ = .finish ∧ c = d ∧ r.Starts c := by
  cases r with
  | wordType =>
      obtain ⟨hφ, rfl⟩ := h.1.eq
      exact ⟨hφ, rfl, h.2⟩
  | exportStatement =>
      obtain ⟨hφ, rfl⟩ := h.1.eq
      exact ⟨hφ, rfl, h.2⟩
  | indexSignature | tupleElements | typeMembers | classMembers | statements =>
      exact ⟨h.1.eq.1, h.1.eq.2, trivial⟩
  | statement | declaration => exact ⟨(Ahead.eq h).1, (Ahead.eq h).2, trivial⟩
  | _ => exact ⟨(Cursor.Alike.eq h).1, (Cursor.Alike.eq h).2, trivial⟩

/-- Where a rule starts, it may begin next to itself. -/
theorem Starts.begins {r : Rule α} {c : Cursor} (h : r.Starts c) :
    r.Begins (.equality False) .finish c c := by
  have hc := alike_refl c
  cases r with
  | wordType => exact ⟨hc, h⟩
  | exportStatement => exact ⟨.inl hc, h⟩
  | indexSignature | tupleElements => exact ⟨hc, .inl rfl⟩
  | typeMembers | classMembers => exact ⟨hc, nofun⟩
  | statements => exact ⟨hc, nofun, .inl rfl⟩
  | statement | declaration => exact .inl hc
  | _ => exact hc

/-- Two runs that end under equality end at one place. -/
theorem eq_of_ends {r : Rule α} {c d : Cursor} (h : r.Ends (.equality False) .finish c d) :
    c = d := by
  cases r with
  | typeMembers | classMembers | statement | declaration | exportStatement | namespaceDecl =>
      exact EndsAt.eq h rfl
  | _ => exact (Cursor.Alike.eq h).2

/-- The one parser moves on and does what the other does. -/
def Matches (p q : Parser α) (c : Cursor) : Prop := c.LeadsTo (p c).2 ∧ p c = q c

/-- Every rule is alike to itself under equality. -/
theorem alike_self (r : Rule α) : r.Alike (.equality P) r := by
  cases r with
  | signature kind => exact .signature kind rfl
  | indexSignature _ isStatic => exact .indexSignature isStatic rfl
  | classHeritage =>
      exact .classHeritage (rel_self (Heritage.alike_self P) _)
        (List.forall₂_same.mpr fun h _ => h.alike_self P)
  | declaration m => exact .declaration m rfl
  | exportStatement => exact .exportStatement rfl
  | namespaceDecl name m => exact .namespaceDecl name m rfl
  | _ => exact .plain trivial

/-- Whatever a rule gives is alike to itself. -/
theorem likes_self (r : Rule α) (a : α) : r.Likes (.equality P) a a := by
  cases r with
  | typeExpr | resultType | unionType | intersectionType | postfixType | primaryType | wordType
  | referenceType | functionType => exact a.alike_self P
  | unionRest | intersectionRest | typeArgs | tupleElements => exact types_alike_self P a
  | typeMembers | classMembers => exact members_alike_self P a
  | typeMember => exact rel_self (Member.alike_self P) a
  | signature | indexSignature => exact a.alike_self P
  | annotated | annotatedResult => exact rel_self (TypeExpr.alike_self P) a
  | heritageList => exact List.forall₂_same.mpr fun h _ => h.alike_self P
  | classHeritage =>
      exact ⟨rel_self (Heritage.alike_self P) a.1, List.forall₂_same.mpr fun h _ => h.alike_self P⟩
  | statements => exact statements_alike_self P a
  | statement | declaration | exportStatement | namespaceDecl => exact a.alike_self P

/-- Wherever a rule ends, two equal runs of it may end. -/
theorem ends_self (r : Rule α) (c : Cursor) : r.Ends (.equality False) .finish c c := by
  cases r with
  | typeMembers | classMembers | statement | declaration | exportStatement | namespaceDecl =>
      exact .inl (alike_refl c)
  | _ => exact alike_refl c

/-- Under equality, families of parsers agree where the one moves on and does what the other
    does. -/
theorem agree_equality {k : Nat} {call₁ call₂ : Callees} :
    Agree (.equality False) k call₁ call₂ ↔
      ∀ {α : Type} (r : Rule α) c, r.Starts c → 9 * c.remaining + r.rank < k →
        Matches (call₁ r) (call₂ r) c := by
  constructor
  · intro h α r c hstarts hk
    obtain ⟨hlead, -, hlikes, hends⟩ := h .finish r.alike_self hstarts.begins hk
    exact ⟨hlead, Prod.ext hlikes.eq (eq_of_ends hends)⟩
  · intro h φ α r r' c d hr hbegins hk
    obtain ⟨rfl, rfl, hstarts⟩ := starts_of_begins hbegins
    obtain rfl := hr.eq
    obtain ⟨hlead, heq⟩ := h r c hstarts hk
    show c.LeadsTo (call₁ r c).2 ∧ c.LeadsTo (call₂ r c).2 ∧
      r.Likes (.equality False) (call₁ r c).1 (call₂ r c).1 ∧
      r.Ends (.equality False) .finish (call₁ r c).2 (call₂ r c).2
    rw [← heq]
    exact ⟨hlead, hlead, r.likes_self _, r.ends_self _⟩

/-- A call comes before another one if fewer tokens are left, or equally many and the rule is of a
    lower rank.  So between two calls of one rule, a token has been read. -/
def Precedes {β : Type} (r' : Rule β) (c' : Cursor) (r : Rule α) (c : Cursor) : Prop :=
  c'.remaining < c.remaining ∨ c'.remaining = c.remaining ∧ r'.rank < r.rank

/-- The order on calls is one on numbers: nine for each token that is left, and the rank of the
    rule. -/
theorem precedes_iff {β : Type} {r' : Rule β} {c' : Cursor} {r : Rule α} {c : Cursor} :
    r'.Precedes c' r c ↔ 9 * c'.remaining + r'.rank < 9 * c.remaining + r.rank := by
  have hr' := r'.rank_le
  have hr := r.rank_le
  unfold Precedes
  omega

/-- **Every call descends.**  What a rule does depends on its callees at calls before it only. -/
theorem body_eq_of_precedes {call₁ call₂ : Callees} (r : Rule α) (c : Cursor) (hstarts : r.Starts c)
    (hcall : ∀ {β : Type} (r' : Rule β) c', r'.Starts c' → r'.Precedes c' r c →
      Matches (call₁ r') (call₂ r') c') :
    Matches (r.body call₁) (r.body call₂) c := by
  have hagree : Agree (.equality False) (9 * c.remaining + r.rank) call₁ call₂ :=
    agree_equality.mpr fun r' c' hstarts' hk => hcall r' c' hstarts' (precedes_iff.mpr hk)
  exact agree_equality.mp hagree.body r c hstarts (Nat.lt_succ_self _)

/-- Everywhere else, too, a body does the same on callees that match. -/
theorem body_matches {k : Nat} {call₁ call₂ : Callees}
    (hcall : Agree (.equality False) k call₁ call₂)
    (r : Rule α) (c : Cursor) (hk : 9 * c.remaining + 9 < k) :
    Matches (r.body call₁) (r.body call₂) c := by
  have hrank := r.rank_le
  have hbump := (leadsTo_bump c).remaining_le
  have hspan (s : Span) : (Likeness.equality False).span s s := rfl
  cases r with
  | wordType w =>
      obtain ⟨hlead, -, hlikes, hends⟩ :=
        wordType_agrees hcall w (alike_refl c) (.inl rfl) (by omega) (by omega)
      exact ⟨hlead, Prod.ext hlikes.eq hends.eq.2⟩
  | exportStatement start =>
      obtain ⟨hlead, -, hlikes, hends⟩ :=
        exportStatement_agrees hcall (hspan start) (alike_refl c.bump) (by omega)
      exact ⟨hlead, Prod.ext hlikes.eq (hends.eq rfl)⟩
  | _ => exact agree_equality.mp hcall.body _ c trivial (by omega)

-- ── Without a budget ─────────────────────────────────────────────────────────────

/-- The parser of a rule, on as much as it needs. -/
def total : Callees := fun r c => run c.budget r c

/-- The parsers without a budget do what those on a large budget do: the agreement of all bodies,
    under equality. -/
theorem agree_total {k n : Nat} (hn : k ≤ n) : Agree (.equality False) k (run n) total := by
  refine agree_equality.mpr ?_
  intro α r c hstarts hk
  have hrank := r.rank_le
  have hbudget := c.lt_budget
  have hagree := agree_run (.equality False) (Nat.le_trans hk hn)
    (show 9 * c.remaining + r.rank + 1 ≤ c.budget by omega)
  obtain ⟨hlead, heq⟩ := agree_equality.mp hagree r c hstarts (Nat.lt_succ_self _)
  exact ⟨hlead, heq⟩

/-- The grammar is its rules, also without a budget; and every budget is as good as none that is
    large enough. -/
theorem run_matches (r : Rule α) (c : Cursor) {n : Nat} (hn : c.budget ≤ n) :
    Matches (run n r) (r.body total) c := by
  obtain ⟨n, rfl⟩ : ∃ m, n = m + 1 := ⟨n - 1, by rw [Cursor.budget] at hn; omega⟩
  rw [run_succ]
  refine body_matches (agree_total (Nat.le_refl n)) r c ?_
  rw [Cursor.budget] at hn
  omega

/-- The parsers are the bodies of their rules, with the parsers themselves for all that these call.
    -/
theorem total_eq (r : Rule α) (c : Cursor) : total r c = r.body total c :=
  (run_matches r c (Nat.le_refl _)).2

/-- A budget that is large enough is never spent, so it does not matter which one it is. -/
theorem run_eq_total (r : Rule α) (c : Cursor) {n : Nat} (hn : c.budget ≤ n) :
    run n r c = total r c :=
  (run_matches r c hn).2.trans (total_eq r c).symm

/-- Every rule moves on only. -/
theorem leadsTo_total (r : Rule α) (c : Cursor) : c.LeadsTo (total r c).2 :=
  (run_matches r c (Nat.le_refl _)).1

/-- What holds of the body of a rule holds of the rule. -/
theorem meets_total {r : Rule α} {c : Cursor} {post : α → Cursor → Prop}
    (h : (r.body total).Meets c post) : Meets (total r) c post := by
  rw [Meets, total_eq]
  exact h

/-- Statement lists end at the end of the text or, in a block, at a closing brace; and there are no
    more statements than tokens. -/
theorem meets_statements (inBlock : Bool) (c : Cursor) :
    Meets (total (statements inBlock)) c fun ss c' => ss.length ≤ c.remaining ∧
      (c'.rest = [] ∨ inBlock = true ∧ c'.peek = some .closeBrace) := by
  induction hn : c.remaining using Nat.strongRecOn generalizing c with
  | ind n ih =>
    subst hn
    have hnext {c' : Cursor} (hlt : c'.remaining < c.remaining) := ih c'.remaining hlt c' rfl
    refine meets_total (meets_get ?_)
    split
    · next hpeek => exact meets_pure ⟨Nat.zero_le _, .inl (peek_eq_none_iff.mp hpeek)⟩
    · next hpeek =>
      have hlt := remaining_bump_lt hpeek
      exact meets_bind (meets_bump ((hnext hlt).mono fun ss c' _ ⟨hlength, hends⟩ =>
        ⟨Nat.le_trans hlength (Nat.le_of_lt hlt), hends⟩))
    · next hpeek =>
      have hlt := remaining_bump_lt hpeek
      refine meets_ite (fun hblock => meets_pure ⟨Nat.zero_le _, .inr ⟨hblock, hpeek⟩⟩) fun _ => ?_
      refine meets_bind (meets_bump (meets_bind ((hnext hlt).mono ?_)))
      rintro ss c' - ⟨hlength, hends⟩
      exact meets_pure ⟨Nat.lt_of_le_of_lt hlength hlt, hends⟩
    · next hnone _ _ =>
      refine meets_bind ⟨leadsTo_total statement c, meets_get ?_⟩
      refine meets_forced (fun hnil => hnone (peek_eq_none_iff.mpr hnil))
        (leadsTo_total statement c) fun c' _ hlt => meets_bind ((hnext hlt).mono ?_)
      rintro ss c'' - ⟨hlength, hends⟩
      exact meets_pure ⟨Nat.lt_of_le_of_lt hlength hlt, hends⟩

/-- The parts of rules that are parsers of their own. -/
theorem parts_match (c : Cursor) {n : Nat} (hn : c.budget ≤ n) (m : Modifiers) (start : Span) :
    Matches (classMemberBody (run n)) (classMemberBody total) c ∧
      Matches (heritageBody (run n)) (heritageBody total) c ∧
      Matches (classDeclBody (run n) m start) (classDeclBody total m start) c ∧
      Matches (interfaceDeclBody (run n) m start) (interfaceDeclBody total m start) c := by
  have hbudget := c.lt_budget
  have hbump := (leadsTo_bump c).remaining_le
  have hcall := agree_total (Nat.le_refl n)
  have hspan : (Likeness.equality False).span start start := rfl
  have hname : Together takeWord takeWord c.bump c.bump fun a b c' d' =>
      Same (.equality False) .finish a b c' d' ∧ Headed (.equality False) .finish c' d' :=
    (alike_refl c.bump).takeWord.mono fun _ _ _ _ _ _ h => ⟨h, .inl rfl⟩
  refine ⟨?_, ?_, ?_, ?_⟩
  · obtain ⟨hlead, -, hlikes, hends⟩ :=
      classMember_agrees hcall (alike_refl c) nofun (by omega)
    exact ⟨hlead, Prod.ext hlikes.eq hends.eq.2⟩
  · obtain ⟨hlead, -, hlikes, hends⟩ := heritage_agrees hcall (alike_refl c) (by omega)
    exact ⟨hlead, Prod.ext hlikes.eq hends.eq.2⟩
  · obtain ⟨hlead, -, hlikes, hends⟩ := classDecl_agrees hcall m hspan
      (alike_refl c.bump) (.inl rfl) hname (by omega)
    exact ⟨hlead, Prod.ext (Declaration.ofClass.inj hlikes.eq) hends.eq.2⟩
  · obtain ⟨hlead, -, hlikes, hends⟩ :=
      interfaceDecl_agrees hcall m hspan hname (by omega)
    exact ⟨hlead, Prod.ext (Declaration.ofInterface.inj hlikes.eq) hends.eq.2⟩

end Rule

-- ── Totality ─────────────────────────────────────────────────────────────────────

/-- A parser that only moves on. -/
def Parser.Moves {α : Type} (p : Parser α) : Prop := ∀ c : Cursor, c.LeadsTo (p c).2

/-- A cursor that lies further on is reached by moving over tokens that are there. -/
theorem Cursor.LeadsTo.exists_le {c c' : Cursor} (h : c.LeadsTo c') :
    ∃ n ≤ c.remaining, c' = c.advance n := by
  obtain ⟨n, rfl⟩ := h
  rcases Nat.le_total n c.remaining with hle | hge
  · exact ⟨n, hle, rfl⟩
  · obtain ⟨k, rfl⟩ := Nat.exists_eq_add_of_le hge
    refine ⟨c.remaining, Nat.le_refl _, ?_⟩
    rw [advance_add, advance_of_rest_nil]
    rw [rest_advance]
    exact List.drop_length

/-- The start of the next token tells whether a cursor has moved. -/
theorem Cursor.Ordered.front_eq_iff {size : Nat} {c c' : Cursor} (h : c.Ordered size)
    (hc : c.LeadsTo c') : c'.front = c.front ↔ c'.remaining = c.remaining := by
  constructor
  · intro hfront
    refine Nat.le_antisymm hc.remaining_le (Nat.le_of_not_lt fun hlt => ?_)
    have := (h.here_bounds (rest_ne_nil_of_lt hlt)).1
    have := h.stop_le_back hc hlt
    have := (h.leadsTo hc).back_le_front
    omega
  · intro hremaining
    rw [hc.eq_of_remaining hremaining]

open Rule in
/-- What it is for the grammar to be total. -/
structure GrammarTotal : Prop where
  /-- What a rule does, on callees that only move on, is decided by calls that come before it: of
      two families of callees that do the same there, it makes the same.  So no rule can be called
      for ever, and each turn of a loop, which is a call of a rule by itself, has read a token. -/
  descends {α : Type} (r : Rule α) (c : Cursor) {call₁ call₂ : Callees} : r.Starts c →
    (∀ {β : Type} (r' : Rule β) c', r'.Starts c' → r'.Precedes c' r c →
      Matches (call₁ r') (call₂ r') c') →
    Matches (r.body call₁) (r.body call₂) c
  wellFounded : WellFounded fun p q : (Σ α : Type, Rule α) × Cursor =>
    p.1.2.Precedes p.2 q.1.2 q.2
  /-- The parsers do what the rules say, at every place, and need no more than their budgets. -/
  unfolds {α : Type} (r : Rule α) (c : Cursor) : total r c = r.body total c
  enough {α : Type} (r : Rule α) (c : Cursor) {n : Nat} : c.budget ≤ n → run n r c = total r c
  /-- They only move on, and not past the end. -/
  forward {α : Type} (r : Rule α) (c : Cursor) : ∃ n ≤ c.remaining, (total r c).2 = c.advance n
  parts (c : Cursor) {n : Nat} : c.budget ≤ n → ∀ m start,
    Matches (classMemberBody (run n)) (classMemberBody total) c ∧
    Matches (heritageBody (run n)) (heritageBody total) c ∧
    Matches (classDeclBody (run n) m start) (classDeclBody total m start) c ∧
    Matches (interfaceDeclBody (run n) m start) (interfaceDeclBody total m start) c
  skips : ∀ p ∈ [skipBrackets, skipAngles, skipAngleTail, skipDecorators, skipInitializer,
    skipQualifiedTail, skipAttributes, endClause], p.Moves
  names : dottedName.Moves ∧ accessorKind.Moves ∧ memberName.Moves ∧ typeParams.Moves
  imports (start : Span) (typeOnly : Bool) : (skipStatement start).Moves ∧
    (importStatement start).Moves ∧ (exportNames? start typeOnly).Moves
  /-- Nothing is read that is not there. -/
  extents (angles depth : Nat) (stop : Option Token → Lexeme → Bool) (prev : Option Token)
    (ls : List Lexeme) : bracketExtent depth ls ≤ ls.length ∧
    angleExtent angles depth ls ≤ ls.length ∧ outerExtent stop prev depth ls ≤ ls.length ∧
    2 * (qualifiers ls).length ≤ ls.length ∧ decoratorsExtent ls ≤ ls.length ∧
    (leadingMemberModifiers ls).length ≤ ls.length
  readers (t : TypeExpr) (m : Modifiers) (expectName : Bool) (alias? : Token → Option String) :
    StaysWithin (bracketSuffixes t) ∧ StaysWithin (leadingModifiers m) ∧
    StaysWithin (typeParamNames expectName) ∧ StaysWithin (specifiers alias?)
  /-- Where tokens start tells whether one has been read. -/
  progress (text : String) {c c' : Cursor} : (Cursor.start (tokenize text)).LeadsTo c →
    c.LeadsTo c' → (c'.here.start.offset = c.here.start.offset ↔ c'.remaining = c.remaining)
  /-- Statement lists end at the end of the text or, in a block, also at a closing brace. -/
  ends (c : Cursor) : (total (statements false) c).2.rest = []
  endsBlock (c : Cursor) : (total (statements true) c).2.rest = [] ∨
    (total (statements true) c).2.peek = some .closeBrace
  /-- A text has no more statements than tokens. -/
  count (text : String) : (parse text).length ≤ (tokenize text).lexemes.length

/-- **The grammar is total.** -/
theorem grammar_total : GrammarTotal where
  descends r c := Rule.body_eq_of_precedes r c
  wellFounded := by
    refine Subrelation.wf (fun {_ _} h => Rule.precedes_iff.mp h) (InvImage.wf
      (fun p : (Σ α : Type, Rule α) × Cursor => 9 * p.2.remaining + p.1.2.rank) Nat.lt_wfRel.wf)
  unfolds := Rule.total_eq
  enough r c := Rule.run_eq_total r c
  forward r c := (Rule.leadsTo_total r c).exists_le
  parts c _ hn m start := Rule.parts_match c hn m start
  skips := by
    simp only [List.forall_mem_cons]
    have h (c : Cursor) := alike_refl c
    exact ⟨fun c => ((h c).skipBrackets (.inl rfl)).1, fun c => (h c).skipAngles.1,
      fun c => (h c).skipAngleTail.1, fun c => (h c).skipDecorators.1,
      fun c => (h c).skipInitializer.1, fun c => (h c).skipQualifiedTail.1,
      fun c => (h c).skipAttributes.1, fun c => (h c).endClause.1, nofun⟩
  names := ⟨fun c => (alike_refl c).dottedName.1, fun c => (alike_refl c).accessorKind.1,
    fun c => (alike_refl c).memberName.1, fun c => ((alike_refl c).typeParams (.inl rfl)).1⟩
  imports start typeOnly := ⟨fun c => (Ahead.skipStatement (.inl (alike_refl c)) rfl).1,
    fun c => (Ahead.importStatement (.inl (alike_refl c)) (fun _ => rfl) (alike_refl c.bump) rfl).1,
    fun c => ((alike_refl c).exportNames? rfl typeOnly).1⟩
  extents angles depth stop prev ls := ⟨bracketExtent_le depth ls, angleExtent_le angles depth ls,
    outerExtent_le stop prev depth ls, qualifiers_le ls, decoratorsExtent_le ls,
    leadingMemberModifiers_le ls⟩
  readers t m expectName alias? := ⟨bracketSuffixes_le t, leadingModifiers_le m,
    typeParamNames_le expectName, specifiers_le alias?⟩
  progress text _ _ hc hc' := ((ordered_start text).leadsTo hc).front_eq_iff hc'
  ends c := (Rule.meets_statements false c).2.2.resolve_right nofun
  endsBlock c := (Rule.meets_statements true c).2.2.imp_right And.right
  count text := (Rule.meets_statements false (Cursor.start (tokenize text))).2.1

end DeclAtlas

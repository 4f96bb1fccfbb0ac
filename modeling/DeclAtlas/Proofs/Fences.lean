import DeclAtlas.Proofs.Balance
import DeclAtlas.Proofs.Spelling
import DeclAtlas.Syntax.Grammar.Module
import Mathlib.Data.List.Induction

/-!
# What readers look at, and where they stop

A reader is a function of the tokens ahead that says how many of them it takes.  All readers of the
grammar look at nothing but the marks of the tokens, so that `f (ls.map Lexeme.bare) = f ls` holds
for each of them.

A fence is a token at which scans stop, a semicolon or a closing brace.  A reader is fenced in if it
stops at the first fence behind a nested row, and what it reads does not depend on anything behind
that fence (`FencedIn`).  All readers are, but for the one over type parameters, which passes a
closing brace without looking at it: that one is only known to read the same whatever follows if it
stays in front of the fence (`typeParamNames_within`).
-/

namespace DeclAtlas

-- ── Nothing but marks ────────────────────────────────────────────────────────────

/-- A token with nothing but what the grammar sees of it. -/
def Lexeme.bare (l : Lexeme) : Lexeme :=
  ⟨l.token, if l.newlineBefore then ['\n'] else [], [], .empty .origin⟩

@[simp] theorem Lexeme.token_bare (l : Lexeme) : l.bare.token = l.token := rfl

@[simp] theorem Lexeme.newlineBefore_bare (l : Lexeme) :
    l.bare.newlineBefore = l.newlineBefore := by
  cases h : l.newlineBefore <;> rw [bare, h] <;> rfl

/-- What is left of a token without its text and its place is what its mark says. -/
theorem Lexeme.bare_eq_bare {l m : Lexeme} (h : l.mark = m.mark) : l.bare = m.bare := by
  obtain ⟨htoken, hline⟩ := Prod.mk.inj h
  rw [bare, bare, htoken, hline]

/-- How far a bracketed region reaches does not depend on texts and places. -/
@[simp] theorem bracketExtent_bare (d : Nat) (ls : List Lexeme) :
    bracketExtent d (ls.map Lexeme.bare) = bracketExtent d ls := by
  induction ls generalizing d with
  | nil => rfl
  | cons l ls ih => simp only [List.map_cons, bracketExtent, Lexeme.token_bare, ih]

@[simp] theorem closerIndex_bare (d : Nat) (ls : List Lexeme) :
    closerIndex d (ls.map Lexeme.bare) = closerIndex d ls := by
  induction ls generalizing d with
  | nil => rfl
  | cons l ls ih => simp only [List.map_cons, closerIndex, Lexeme.token_bare, ih]

/-- Nor does how far a region in angle brackets reaches. -/
@[simp] theorem angleExtent_bare (a d : Nat) (ls : List Lexeme) :
    angleExtent a d (ls.map Lexeme.bare) = angleExtent a d ls := by
  induction ls generalizing a d with
  | nil => rfl
  | cons l ls ih => cases d <;> simp only [List.map_cons, angleExtent, Lexeme.token_bare, ih]

/-- Nor does the first token outside brackets at which a condition holds, if that is one on kinds
    and line breaks. -/
theorem outerExtent_bare {stop : Option Token → Lexeme → Bool}
    (hstop : ∀ prev l, stop prev l.bare = stop prev l) (prev : Option Token) (d : Nat)
    (ls : List Lexeme) :
    outerExtent stop prev d (ls.map Lexeme.bare) = outerExtent stop prev d ls := by
  induction ls generalizing prev d with
  | nil => rfl
  | cons l ls ih =>
      cases d <;> simp only [List.map_cons, outerExtent, Lexeme.token_bare, hstop, ih] <;> rfl

/-- The further words of a dotted name are told by the kinds of tokens. -/
@[simp] theorem qualifiers_bare : ∀ ls : List Lexeme,
    qualifiers (ls.map Lexeme.bare) = qualifiers ls
  | [] | [_] => rfl
  | p :: w :: rest => by
      simp only [List.map_cons, qualifiers, Lexeme.token_bare, qualifiers_bare rest]

/-- So are the brackets behind a type; the first one must be on its line. -/
@[simp] theorem bracketSuffixes_bare (t : TypeExpr) (ls : List Lexeme) :
    bracketSuffixes t (ls.map Lexeme.bare) = bracketSuffixes t ls := by
  fun_induction bracketSuffixes t ls <;>
    simp_all +zetaDelta [bracketSuffixes, Function.comp_def, ← List.map_drop, ← List.map_tail]

/-- The number of tokens of a dotted name, which may be absent. -/
def nameExtent (ls : List Lexeme) : Nat :=
  let first := if ls.head?.any (·.token.word?.isSome) then 1 else 0
  first + 2 * (qualifiers (ls.drop first)).length

/-- The number of tokens of an argument list, which may be absent. -/
def argumentsExtent (ls : List Lexeme) : Nat :=
  if ls.head?.any (·.token = .openParen) then bracketExtent 0 ls else 0

/-- A decorator is a dotted name and an argument list behind it. -/
theorem decoratorExtent_eq (ls : List Lexeme) :
    decoratorExtent ls = nameExtent ls + argumentsExtent (ls.drop (nameExtent ls)) := by
  cases ls with
  | nil => rfl
  | cons l tail =>
      rw [decoratorExtent]
      split
      · next m rest hrest =>
        have hdrop : (l :: tail).drop (nameExtent (l :: tail)) = m :: rest := hrest
        show (if m.token = .openParen then nameExtent (l :: tail) + bracketExtent 0 (m :: rest)
          else nameExtent (l :: tail)) = _
        by_cases hm : m.token = .openParen <;> simp [argumentsExtent, hdrop, hm]
      · next hrest =>
        have hdrop : (l :: tail).drop (nameExtent (l :: tail)) = [] := hrest
        rw [hdrop]
        rfl

@[simp] theorem nameExtent_bare (ls : List Lexeme) :
    nameExtent (ls.map Lexeme.bare) = nameExtent ls := by
  simp [nameExtent, Option.any_map, ← List.map_drop]

@[simp] theorem argumentsExtent_bare (ls : List Lexeme) :
    argumentsExtent (ls.map Lexeme.bare) = argumentsExtent ls := by
  simp [argumentsExtent, Option.any_map]
  rfl

@[simp] theorem decoratorExtent_bare (ls : List Lexeme) :
    decoratorExtent (ls.map Lexeme.bare) = decoratorExtent ls := by
  simp [decoratorExtent_eq, ← List.map_drop]

/-- Decorators are told from what follows by the kinds of tokens. -/
@[simp] theorem decoratorsExtent_bare (ls : List Lexeme) :
    decoratorsExtent (ls.map Lexeme.bare) = decoratorsExtent ls := by
  fun_induction decoratorsExtent ls <;>
    simp_all +zetaDelta [decoratorsExtent, ← List.map_drop]

/-- The modifiers of a member are told by words and by what kind of token follows them. -/
@[simp] theorem leadingMemberModifiers_bare : ∀ ls : List Lexeme,
    leadingMemberModifiers (ls.map Lexeme.bare) = leadingMemberModifiers ls
  | [] | [_] => rfl
  | l :: m :: rest => by
      have ih := leadingMemberModifiers_bare (m :: rest)
      rw [List.map_cons] at ih
      simp only [List.map_cons, leadingMemberModifiers, Lexeme.token_bare, ih]

/-- The modifiers of a declaration are told by words, and by whether the next one is on the same
    line. -/
@[simp] theorem leadingModifiers_bare (m : Modifiers) (ls : List Lexeme) :
    leadingModifiers m (ls.map Lexeme.bare) = leadingModifiers m ls := by
  have hnext (ls : List Lexeme) :
      (ls.map Lexeme.bare).head?.any (fun x => x.token.word?.isSome && !x.newlineBefore) =
        ls.head?.any (fun x => x.token.word?.isSome && !x.newlineBefore) := by
    cases ls <;> simp
  have hclass (ls : List Lexeme) :
      (ls.map Lexeme.bare).head?.map (·.token) = ls.head?.map (·.token) := by
    cases ls <;> rfl
  fun_induction leadingModifiers m ls with
  | case1 => simp [leadingModifiers]
  | case2 m l ls hat k m' n heq ih =>
      simp only [List.map_cons, leadingModifiers, Lexeme.token_bare, if_pos hat,
        decoratorExtent_bare, ← List.map_drop]
      rw [ih, heq]
  | case3 m l ls next hat hdeclare m' n heq ih =>
      rw [List.map_cons, leadingModifiers, Lexeme.token_bare, if_neg hat, hnext, if_pos hdeclare,
        ih, heq]
  | case4 m l ls next hat hdeclare habstract m' n heq ih =>
      rw [List.map_cons, leadingModifiers, Lexeme.token_bare, if_neg hat, hnext, if_neg hdeclare,
        hclass, if_pos habstract, ih, heq]
  | case5 m l ls next hat hdeclare habstract =>
      rw [List.map_cons, leadingModifiers, Lexeme.token_bare, if_neg hat, hnext, if_neg hdeclare,
        hclass, if_neg habstract]

/-- The names of type parameters are words, found by brackets and commas. -/
@[simp] theorem typeParamNames_bare (e : Bool) (ls : List Lexeme) :
    typeParamNames e (ls.map Lexeme.bare) = typeParamNames e ls := by
  fun_induction typeParamNames e ls with
  | case9 l ls w hw isModifier names n heq ih =>
      have hhead : (ls.map Lexeme.bare).head?.bind (·.token.word?) =
          ls.head?.bind (·.token.word?) := by
        cases ls <;> rfl
      simp only [List.map_cons, typeParamNames, Lexeme.token_bare, hw, hhead, if_true]
      rw [ih, heq]
  | _ => simp_all +zetaDelta [typeParamNames, ← List.map_drop]

/-- An element of an import or an export is told by its next four tokens. -/
theorem specifierAt_bare (alias? : Token → Option String) (l : Lexeme) (ls : List Lexeme) :
    specifierAt alias? l.bare (ls.map Lexeme.bare) = specifierAt alias? l ls := by
  have hhead : (ls.map Lexeme.bare).head?.map (·.token) = ls.head?.map (·.token) := by
    cases ls <;> rfl
  simp only [specifierAt, Lexeme.token_bare, hhead, ← List.map_drop]
  generalize ls.drop _ = rest
  rcases rest with _ | ⟨a, _ | ⟨b, rest⟩⟩ <;> rfl

/-- The elements of a list are read one by one, so they are told by kinds of tokens as well. -/
@[simp] theorem specifiers_bare (alias? : Token → Option String) (ls : List Lexeme) :
    specifiers alias? (ls.map Lexeme.bare) = specifiers alias? ls := by
  fun_induction specifiers alias? ls <;>
    simp_all +zetaDelta [specifiers, specifierAt_bare, ← List.map_drop]

-- ── Fences ───────────────────────────────────────────────────────────────────────

namespace Token

/-- A token at which every scan stops. -/
def IsFence (t : Token) : Prop := t = .closeBrace ∨ t = .semicolon

instance (t : Token) : Decidable t.IsFence :=
  inferInstanceAs (Decidable (t = .closeBrace ∨ t = .semicolon))

theorem IsFence.not_opens {t : Token} (h : t.IsFence) : t.opens = false := by
  rcases h with rfl | rfl <;> rfl

theorem IsFence.word?_eq {t : Token} (h : t.IsFence) : t.word? = none := by
  rcases h with rfl | rfl <;> rfl

/-- What is no fence is another token than one that is. -/
theorem IsFence.ne {t u : Token} (h : t.IsFence) (hu : ¬ u.IsFence) : t ≠ u := by
  rintro rfl
  exact hu h

end Token

/-- What is read in front of a fence lies in front of it, and is the same whatever follows. -/
def StopsBefore (f : List Lexeme → α × Nat) (own : List Lexeme) (b : Lexeme) : Prop :=
  ∃ v, v.2 ≤ own.length ∧ ∀ tail, f (own ++ b :: tail) = v

/-- What is read in front of the fence when `k` tokens have been taken. -/
theorem StopsBefore.drop {f : List Lexeme → α × Nat} {own : List Lexeme} {b : Lexeme} {k : Nat}
    (h : StopsBefore f (own.drop k) b) (hk : k ≤ own.length) :
    ∃ v : α × Nat, v.2 + k ≤ own.length ∧ ∀ tail, f ((own ++ b :: tail).drop k) = v := by
  obtain ⟨v, hv, hstop⟩ := h
  rw [List.length_drop] at hv
  refine ⟨v, by omega, fun tail => ?_⟩
  rw [List.drop_append_of_le_length hk, hstop]

/-- A reader that only looks at marks, and stops at the first fence behind a nested row. -/
structure FencedIn (f : List Lexeme → α × Nat) : Prop where
  bare : ∀ ls, f (ls.map Lexeme.bare) = f ls
  fence : ∀ {own : List Lexeme} {b : Lexeme}, Nested own → b.token.IsFence → StopsBefore f own b

/-- How far a fenced reader reaches is fenced itself. -/
theorem FencedIn.extent {f : List Lexeme → α × Nat} (hf : FencedIn f) :
    FencedIn fun ls => ((), (f ls).2) where
  bare ls := by rw [hf.bare]
  fence := by
    intro own b h hb
    obtain ⟨v, hv, hstop⟩ := hf.fence h hb
    exact ⟨((), v.2), hv, fun tail => congrArg (fun v => ((), v.2)) (hstop tail)⟩

/-- A reader that does not look at texts and places reads the same of tokens with the same marks. -/
theorem eq_of_marks {f : List Lexeme → α} (hbare : ∀ ls, f (ls.map Lexeme.bare) = f ls)
    {ls ms : List Lexeme} (h : ls.map Lexeme.mark = ms.map Lexeme.mark) : f ls = f ms := by
  have hmap : ls.map Lexeme.bare = ms.map Lexeme.bare := by
    induction ls generalizing ms with
    | nil => rw [List.map_eq_nil_iff.mp h.symm]
    | cons l ls ih =>
        obtain ⟨m, ms, rfl, hl, hls⟩ := List.map_eq_cons_iff.mp h.symm
        rw [List.map_cons, List.map_cons, Lexeme.bare_eq_bare hl.symm, ih hls.symm]
  rw [← hbare ls, hmap, hbare ms]

section Readers

variable {own : List Lexeme} {b : Lexeme}

/-- A bracketed region that is opened in a nested row is closed in it. -/
theorem bracketExtent_nested {o : Lexeme} (h : Nested (o :: own)) (hopens : o.token.opens = true) :
    ∃ k, k ≤ own.length ∧ ∀ rest, bracketExtent 1 (own ++ rest) = k := by
  obtain ⟨inner, c, ls', rfl, hcloser, hinner, -⟩ := h.exists_group hopens
  refine ⟨inner.length + 1, by simp, fun rest => ?_⟩
  have hgroup : bracketExtent 0 (o :: (inner ++ c :: (ls' ++ rest))) = inner.length + 2 :=
    bracketExtent_group hcloser hinner
  rw [bracketExtent_opens _ hopens, Nat.add_right_cancel_iff] at hgroup
  rw [List.append_assoc, List.cons_append, hgroup]

/-- Angle brackets are given up before a fence. -/
theorem fencedIn_angles (a : Nat) : FencedIn fun ls => ((), angleExtent a 0 ls) where
  bare ls := by rw [angleExtent_bare]
  fence := by
    intro own b h hb
    induction h generalizing a with
    | nil =>
        refine ⟨((), 0), Nat.le_refl _, fun tail => ?_⟩
        rcases hb with hb | hb <;> simp [angleExtent, hb, Token.opens]
    | @other l ls hopens _ ih =>
        by_cases hless : l.token = .less
        · obtain ⟨⟨_, k⟩, hk, h⟩ := ih (a + 1)
          refine ⟨((), k + 1), Nat.succ_le_succ hk, fun tail => ?_⟩
          simp only [Prod.mk.injEq, true_and] at h
          simp only [List.cons_append, angleExtent, hless, if_true, h tail]
        by_cases hgreater : l.token = .greater ∧ a ≤ 1
        · -- the last of the angle brackets is closed
          refine ⟨((), 1), Nat.le_add_left _ _, fun tail => ?_⟩
          simp [List.cons_append, angleExtent, hgreater.1, hgreater.2]
        by_cases hfence : l.token = .semicolon ∨ l.token = .closeBrace
        · refine ⟨((), 0), Nat.zero_le _, fun tail => ?_⟩
          rcases hfence with hl | hl <;> simp [angleExtent, hl, Token.opens]
        · obtain ⟨⟨_, k⟩, hk, h⟩ := ih (if l.token = .greater then a - 1 else a)
          refine ⟨((), k + 1), Nat.succ_le_succ hk, fun tail => ?_⟩
          simp only [Prod.mk.injEq, true_and] at h
          simp only [List.cons_append, angleExtent, if_neg hless, hopens, if_neg hfence,
            Bool.false_eq_true, if_false, Prod.mk.injEq, true_and]
          split
          · next hl =>
            rw [if_neg fun ha => hgreater ⟨hl, ha⟩, ← h tail, if_pos hl]
          · next hl => rw [← h tail, if_neg hl]
    | @group o c inner ls hcloser hinner _ ih =>
        obtain ⟨hcloses, hopens'⟩ := Token.closes_of_closer? hcloser
        have hopens := Token.opens_of_closer? hcloser
        obtain ⟨⟨_, k⟩, hk, h⟩ := ih a
        simp only [Prod.mk.injEq, true_and] at h
        refine ⟨((), k + inner.length + 2), ?_, fun tail => ?_⟩
        · simp only [List.length_cons, List.length_append]
          omega
        · have hless : o.token ≠ .less := fun h => by simp [h, Token.opens] at hopens
          have hgreater : o.token ≠ .greater := fun h => by simp [h, Token.opens] at hopens
          simp only [List.cons_append, List.append_assoc, angleExtent, if_neg hless,
            if_neg hgreater, hopens, angleExtent_balanced hinner, hopens', hcloses,
            Bool.false_eq_true, if_true, if_false, h tail, Prod.mk.injEq, true_and]
          omega

/-- A scan for a token outside brackets ends at a fence, if it ends at all fences. -/
theorem fencedIn_outer {stop : Option Token → Lexeme → Bool}
    (hbare : ∀ prev l, stop prev l.bare = stop prev l)
    (hfence : ∀ prev l, l.token.IsFence → stop prev l = true) (prev : Option Token) :
    FencedIn fun ls => ((), outerExtent stop prev 0 ls) where
  bare ls := by rw [outerExtent_bare hbare]
  fence := by
    intro own b h hb
    induction h generalizing prev with
    | nil =>
        refine ⟨((), 0), Nat.le_refl _, fun tail => ?_⟩
        simp [outerExtent, hfence prev b hb]
    | @other l ls hopens _ ih =>
        by_cases hstop : stop prev l = true
        · refine ⟨((), 0), Nat.zero_le _, fun tail => ?_⟩
          simp [outerExtent, hstop]
        · obtain ⟨⟨_, k⟩, hk, h⟩ := ih (some l.token)
          simp only [Prod.mk.injEq, true_and] at h
          refine ⟨((), k + 1), Nat.succ_le_succ hk, fun tail => ?_⟩
          simp [outerExtent, hstop, hopens, h tail]
    | @group o c inner ls hcloser hinner _ ih =>
        obtain ⟨hcloses, hopens'⟩ := Token.closes_of_closer? hcloser
        have hopens := Token.opens_of_closer? hcloser
        by_cases hstop : stop prev o = true
        · refine ⟨((), 0), Nat.zero_le _, fun tail => ?_⟩
          simp [outerExtent, hstop]
        · obtain ⟨prev', hprev'⟩ := outerExtent_balanced stop hinner (some o.token) 0
          obtain ⟨⟨_, k⟩, hk, h⟩ := ih (some c.token)
          simp only [Prod.mk.injEq, true_and] at h
          refine ⟨((), k + inner.length + 2), ?_, fun tail => ?_⟩
          · simp only [List.length_cons, List.length_append]
            omega
          · simp only [List.cons_append, List.append_assoc, outerExtent, if_neg hstop, hopens,
              hprev', hopens', hcloses, Bool.false_eq_true, if_true, if_false, h tail,
              Prod.mk.injEq, true_and]
            omega

/-- A dotted name ends before a fence. -/
theorem fencedIn_qualifiers :
    FencedIn fun ls => (qualifiers ls, 2 * (qualifiers ls).length) where
  bare ls := by rw [qualifiers_bare]
  fence := by
    intro own b h hb
    have hdot : b.token ≠ .dot := hb.ne (by decide)
    have hword := hb.word?_eq
    obtain ⟨ws, hlength, hws⟩ : ∃ ws, 2 * ws.length ≤ own.length ∧
        ∀ tail, qualifiers (own ++ b :: tail) = ws := by
      clear h
      induction own using List.twoStepInduction with
      | nil =>
          refine ⟨[], Nat.le_refl _, fun tail => ?_⟩
          cases tail <;> simp [qualifiers, hdot]
      | singleton p =>
          refine ⟨[], Nat.zero_le _, fun tail => ?_⟩
          rw [List.singleton_append, qualifiers]
          split
          · next hs => simp [hs, Token.word?] at hword
          · rfl
      | cons_cons p w own ih =>
          obtain ⟨ws, hlength, hws⟩ := ih
          simp only [List.cons_append, qualifiers]
          split
          · next s _ _ =>
            refine ⟨s :: ws, by simp only [List.length_cons]; omega, fun tail => ?_⟩
            rw [hws]
          · exact ⟨[], Nat.zero_le _, fun tail => rfl⟩
    exact ⟨(ws, 2 * ws.length), hlength, fun tail => by simp only [hws]⟩

/-- The brackets behind a type end before a fence: each pair is closed in the row. -/
theorem fencedIn_bracketSuffixes (t : TypeExpr) : FencedIn (bracketSuffixes t) where
  bare := bracketSuffixes_bare t
  fence := by
    intro own b h hb
    have hopen : b.token ≠ .openBracket := hb.ne (by decide)
    have hclose : b.token ≠ .closeBracket := hb.ne (by decide)
    induction own using suffix_induction generalizing t with
    | nil =>
      refine ⟨(t, 0), Nat.le_refl _, fun tail => ?_⟩
      rw [List.nil_append, bracketSuffixes, if_neg fun h => hopen h.1]
    | cons l own ih =>
      by_cases hl : l.token = .openBracket ∧ l.newlineBefore = false
      · obtain ⟨k, hk, hextent⟩ := bracketExtent_nested h (by rw [hl.1]; rfl)
        -- the bracket behind is not the fence, since the row closes its own
        have hhead : ∀ tail, (own ++ b :: tail).head?.map (·.token) = some .closeBracket ↔
            own.head?.map (·.token) = some .closeBracket := by
          intro tail
          cases own with
          | nil => simp [hclose]
          | cons m own => rfl
        by_cases hempty : own.head?.map (·.token) = some .closeBracket
        · rcases own with _ | ⟨m, own⟩
          · cases hempty
          · obtain ⟨⟨u, n⟩, hn, hrest⟩ := ih own (List.suffix_cons m own) (.array t) h.tail.tail
            refine ⟨(u, n + 2), by simp only [List.length_cons]; omega, fun tail => ?_⟩
            rw [List.cons_append, bracketSuffixes, if_pos hl, if_pos ((hhead tail).mpr hempty),
              List.cons_append, List.tail_cons, hrest]
        · obtain ⟨⟨u, n⟩, hn, hrest⟩ :=
            (ih (own.drop k) (List.drop_suffix k own) .other (h.tail.drop k)).drop hk
          refine ⟨(u, n + k + 1), Nat.succ_le_succ hn, fun tail => ?_⟩
          simp only [List.cons_append, bracketSuffixes, if_pos hl,
            if_neg (mt (hhead tail).mp hempty), hextent, hrest]
      · refine ⟨(t, 0), Nat.zero_le _, fun tail => ?_⟩
        rw [List.cons_append, bracketSuffixes, if_neg hl]

/-- A decorator ends before a fence, whatever stands behind that. -/
theorem decoratorExtent_stops (h : Nested own) (hb : b.token.IsFence) :
    ∃ k, k ≤ own.length ∧ ∀ tail, decoratorExtent (own ++ b :: tail) = k := by
  have hword := hb.word?_eq
  have hparen : b.token ≠ .openParen := hb.ne (by decide)
  obtain ⟨k, hk, hname⟩ : ∃ k, k ≤ own.length ∧ ∀ tail, nameExtent (own ++ b :: tail) = k := by
    generalize hfirst : (if own.head?.any (·.token.word?.isSome) then 1 else 0) = first
    have hle : first ≤ own.length := by
      subst hfirst
      cases own with
      | nil => exact Nat.le_refl _
      | cons l own => split <;> simp
    obtain ⟨v, hv, hq⟩ := (fencedIn_qualifiers.fence (h.drop first) hb).drop hle
    refine ⟨first + v.2, by omega, fun tail => ?_⟩
    have hhead : (own ++ b :: tail).head?.any (·.token.word?.isSome) =
        own.head?.any (·.token.word?.isSome) := by
      cases own <;> simp [hword]
    rw [nameExtent, hhead, hfirst, ← hq tail]
  obtain ⟨m, hm, hargs⟩ :
      ∃ m, m ≤ (own.drop k).length ∧ ∀ tail, argumentsExtent (own.drop k ++ b :: tail) = m := by
    have hdrop := h.drop k
    rcases hown : own.drop k with _ | ⟨l, rest⟩
    · exact ⟨0, Nat.zero_le _, fun tail => by simp [argumentsExtent, hparen]⟩
    by_cases hl : l.token = .openParen
    · rw [hown] at hdrop
      obtain ⟨m, hm, hextent⟩ := bracketExtent_nested hdrop (by rw [hl]; rfl)
      refine ⟨m + 1, Nat.succ_le_succ hm, fun tail => ?_⟩
      simp only [argumentsExtent, List.cons_append, List.head?_cons, Option.any_some, hl,
        decide_true, if_true]
      rw [bracketExtent_opens _ (by rw [hl]; rfl), hextent]
    · exact ⟨0, Nat.zero_le _, fun tail => by simp [argumentsExtent, hl]⟩
  rw [List.length_drop] at hm
  refine ⟨k + m, by omega, fun tail => ?_⟩
  rw [decoratorExtent_eq, hname, List.drop_append_of_le_length hk, hargs]

/-- A row of decorators ends before a fence. -/
theorem fencedIn_decorators : FencedIn fun ls => ((), decoratorsExtent ls) where
  bare ls := by rw [decoratorsExtent_bare]
  fence := by
    intro own b h hb
    induction own using suffix_induction with
    | nil =>
      refine ⟨((), 0), Nat.le_refl _, fun tail => ?_⟩
      rcases hb with hb | hb <;> simp [decoratorsExtent, hb]
    | cons l own ih =>
      by_cases hl : l.token = .atSign
      · obtain ⟨k, hk, hextent⟩ := decoratorExtent_stops h.tail hb
        obtain ⟨⟨_, n⟩, hn, hrest⟩ :=
          (ih (own.drop k) (List.drop_suffix k own) (h.tail.drop k)).drop hk
        refine ⟨((), n + k + 1), Nat.succ_le_succ hn, fun tail => ?_⟩
        simp only [Prod.mk.injEq, true_and] at hrest
        simp only [List.cons_append, decoratorsExtent, if_pos hl, hextent, hrest]
      · exact ⟨((), 0), Nat.zero_le _, fun tail => by simp [decoratorsExtent, hl]⟩

/-- The modifiers of a member end before a fence, which could not stand behind one. -/
theorem fencedIn_memberModifiers :
    FencedIn fun ls => (leadingMemberModifiers ls, (leadingMemberModifiers ls).length) where
  bare ls := by rw [leadingMemberModifiers_bare]
  fence := by
    intro own b h hb
    have hname : b.token.startsMemberName = false := by rcases hb with hb | hb <;> rw [hb] <;> rfl
    obtain ⟨ws, hlength, hws⟩ : ∃ ws, ws.length ≤ own.length ∧
        ∀ tail, leadingMemberModifiers (own ++ b :: tail) = ws := by
      clear h
      induction own with
      | nil =>
          refine ⟨[], Nat.le_refl _, fun tail => ?_⟩
          rcases hb with hb | hb <;> cases tail <;> simp [leadingMemberModifiers, hb]
      | cons l own ih =>
          obtain ⟨ws, hlength, hws⟩ := ih
          cases own with
          | nil =>
              refine ⟨[], Nat.zero_le _, fun tail => ?_⟩
              cases hl : l.token <;> simp [leadingMemberModifiers, hl, hname]
          | cons m own =>
              simp only [List.cons_append] at hws
              simp only [List.cons_append, leadingMemberModifiers, hws]
              split
              · split
                · exact ⟨_ :: ws, Nat.succ_le_succ hlength, fun tail => rfl⟩
                · exact ⟨[], Nat.zero_le _, fun tail => rfl⟩
              · exact ⟨[], Nat.zero_le _, fun tail => rfl⟩
    exact ⟨(ws, ws.length), hlength, fun tail => by simp only [hws]⟩

/-- The modifiers of a declaration end before a fence. -/
theorem fencedIn_modifiers (m : Modifiers) : FencedIn (leadingModifiers m) where
  bare := leadingModifiers_bare m
  fence := by
    intro own b h hb
    have hword := hb.word?_eq
    have hclass : b.token ≠ .word "class" := hb.ne (by simp [Token.IsFence])
    induction own using suffix_induction generalizing m with
    | nil =>
      refine ⟨(m, 0), Nat.le_refl _, fun tail => ?_⟩
      rcases hb with hb | hb <;> simp [leadingModifiers, hb]
    | cons l own ih =>
      have hnext : ∀ tail, (own ++ b :: tail).head?.any
          (fun x => x.token.word?.isSome && !x.newlineBefore) =
            own.head?.any (fun x => x.token.word?.isSome && !x.newlineBefore) := by
        cases own <;> simp [hword]
      have hclass : ∀ tail, (own ++ b :: tail).head?.map (·.token) = some (.word "class") ↔
          own.head?.map (·.token) = some (.word "class") := by
        cases own <;> simp [hclass]
      have hrest (m : Modifiers) (k : Nat) : StopsBefore (leadingModifiers m) (own.drop k) b :=
        ih (own.drop k) (List.drop_suffix k own) m (h.tail.drop k)
      simp only [StopsBefore, List.cons_append, leadingModifiers, hnext, hclass]
      split
      · -- a decorator
        obtain ⟨k, hk, hextent⟩ := decoratorExtent_stops h.tail hb
        obtain ⟨⟨m', n⟩, hn, hrest⟩ := (hrest m k).drop hk
        refine ⟨(m', n + k + 1), Nat.succ_le_succ hn, fun tail => ?_⟩
        simp only [hextent, hrest]
      · split
        · -- the word of ambient declarations
          obtain ⟨⟨m', n⟩, hn, hrest⟩ := hrest { m with ambient := true } 0
          refine ⟨(m', n + 1), Nat.succ_le_succ hn, fun tail => ?_⟩
          rw [show leadingModifiers _ (own ++ b :: tail) = (m', n) from hrest tail]
        · split
          · -- the word of abstract classes
            obtain ⟨⟨m', n⟩, hn, hrest⟩ := hrest { m with isAbstract := true } 0
            refine ⟨(m', n + 1), Nat.succ_le_succ hn, fun tail => ?_⟩
            rw [show leadingModifiers _ (own ++ b :: tail) = (m', n) from hrest tail]
          · exact ⟨(m, 0), Nat.zero_le _, fun tail => rfl⟩

/-- What is skipped of a statement ends before a fence. -/
theorem fencedIn_statementRest : FencedIn fun ls => ((), outerExtent endsStatement none 0 ls) :=
  fencedIn_outer
    (fun prev l => by simp [endsStatement, statementBoundary])
    (fun prev l h => by rcases h with h | h <;> simp [endsStatement, h]) none

/-- What is skipped as an initial value ends before a fence. -/
theorem fencedIn_initializer (prev : Option Token) :
    FencedIn fun ls => ((), outerExtent endsInitializer prev 0 ls) :=
  fencedIn_outer
    (fun prev l => by simp [endsInitializer, memberBoundary])
    (fun prev l h => by rcases h with h | h <;> simp [endsInitializer, h]) prev

/-- The scan over type parameters stops before a semicolon, and before a closing brace if it once
    stays in front of it. -/
theorem typeParamNames_within (h : Nested own) (hb : b.token.IsFence) (expectName : Bool)
    {tail : List Lexeme} (hle : b.token = .semicolon ∨
      (typeParamNames expectName (own ++ b :: tail)).2 ≤ own.length) :
    StopsBefore (typeParamNames expectName) own b := by
  induction own using suffix_induction generalizing expectName with
  | nil =>
    refine ⟨([], 0), Nat.le_refl _, fun tail' => ?_⟩
    rcases hb with hb | hb
    · simp [typeParamNames, hb] at hle
    · simp [typeParamNames, hb]
  | cons l own ih =>
    -- what is left of the row is read alike, by the hypothesis for what stands behind
    have hrest (e : Bool) (k : Nat) (hk : k ≤ own.length) (hle : b.token = .semicolon ∨
        (typeParamNames e ((own ++ b :: tail).drop k)).2 + k ≤ own.length) :
        ∃ v : List String × Nat, v.2 + k ≤ own.length ∧
          ∀ tail, typeParamNames e ((own ++ b :: tail).drop k) = v := by
      rw [List.drop_append_of_le_length hk] at hle
      refine (ih (own.drop k) (List.drop_suffix k own) (h.tail.drop k) e ?_).drop hk
      exact hle.imp_right fun hle => by rw [List.length_drop]; omega
    have hone (e : Bool) (hle : b.token = .semicolon ∨
        (typeParamNames e (own ++ b :: tail)).2 + 1 ≤ own.length + 1) :
        ∃ v : List String × Nat, v.2 + 1 ≤ own.length + 1 ∧
          ∀ tail, typeParamNames e (own ++ b :: tail) = v := by
      obtain ⟨v, hv, hone⟩ := hrest e 0 (Nat.zero_le _) (hle.imp_right Nat.le_of_succ_le_succ)
      exact ⟨v, Nat.succ_le_succ hv, hone⟩
    have hnext : ∀ tail, (own ++ b :: tail).head?.bind (·.token.word?) =
        own.head?.bind (·.token.word?) := by
      cases own with
      | nil => intro tail; exact hb.word?_eq
      | cons m own => exact fun _ => rfl
    obtain ⟨⟨_, ka⟩, hka, hangles⟩ := (fencedIn_angles 1).fence h.tail hb
    simp only [Prod.mk.injEq, true_and] at hangles
    simp only [List.cons_append, List.length_cons] at hle
    simp only [StopsBefore, List.cons_append, List.length_cons]
    cases hl : l.token with
    | greater => exact ⟨([], 1), Nat.le_add_left _ _, fun _ => by simp only [typeParamNames, hl]⟩
    | semicolon => exact ⟨([], 0), Nat.zero_le _, fun _ => by simp only [typeParamNames, hl]⟩
    | less =>
        simp only [typeParamNames, hl, hangles] at hle ⊢
        obtain ⟨v, hv, hrest⟩ := hrest false ka hka (hle.imp_right Nat.le_of_succ_le_succ)
        exact ⟨(v.1, v.2 + ka + 1), Nat.succ_le_succ hv, fun tail => by rw [hrest]⟩
    | openBrace | openParen | openBracket =>
        obtain ⟨k, hk, hextent⟩ := bracketExtent_nested h (by rw [hl]; rfl)
        simp only [typeParamNames, hl, hextent] at hle ⊢
        obtain ⟨v, hv, hrest⟩ := hrest false k hk (hle.imp_right Nat.le_of_succ_le_succ)
        exact ⟨(v.1, v.2 + k + 1), Nat.succ_le_succ hv, fun tail => by rw [hrest]⟩
    | comma =>
        simp only [typeParamNames, hl] at hle ⊢
        obtain ⟨v, hv, hone⟩ := hone true hle
        exact ⟨(v.1, v.2 + 1), hv, fun tail => by rw [hone]⟩
    | word w =>
        simp only [typeParamNames, hl, hnext] at hle ⊢
        cases expectName with
        | true =>
            simp only [if_true] at hle ⊢
            obtain ⟨v, hv, hone⟩ := hone _ hle
            exact ⟨(_, v.2 + 1), hv, fun tail => by rw [hone]⟩
        | false =>
            simp only [Bool.false_eq_true, if_false] at hle ⊢
            obtain ⟨v, hv, hone⟩ := hone false hle
            exact ⟨(v.1, v.2 + 1), hv, fun tail => by rw [hone]⟩
    | _ =>
        simp only [typeParamNames, hl] at hle ⊢
        obtain ⟨v, hv, hone⟩ := hone false hle
        exact ⟨(v.1, v.2 + 1), hv, fun tail => by rw [hone]⟩

/-- The new name of an element, which may be absent, and the number of its tokens. -/
def aliasAt (alias? : Token → Option String) : List Lexeme → Option (Option String) × Nat
  | [] => (none, 0)
  | a :: rest =>
    if a.token = .word "as" then
      match rest.head?.bind (alias? ·.token) with
      | some new => (some (some new), 2)
      | none => (some none, 1)
    else (none, 0)

/-- The word `type` at `l` belongs to the name `next`. -/
def marksTypeOnly (l : Lexeme) (next : Option Token) : Bool :=
  decide (l.token = .word "type" ∧ (next.bind Token.name?).isSome ∧ next ≠ some (.word "as"))

/-- An element is a word `type`, a name and a new name; the first and the last may be absent. -/
theorem specifierAt_eq (alias? : Token → Option String) (l : Lexeme) (ls : List Lexeme) :
    specifierAt alias? l ls =
      let next := ls.head?.map (·.token)
      let typeOnly := marksTypeOnly l next
      let name := ((if typeOnly then next else some l.token).bind Token.name?).getD ""
      let k := if typeOnly then 1 else 0
      let v := aliasAt alias? (ls.drop k)
      (⟨(v.1.bind id).getD name, v.1.map fun _ => name, typeOnly⟩, k + v.2) := by
  simp only [specifierAt, marksTypeOnly, decide_eq_true_eq]
  generalize ls.drop _ = rest
  rcases rest with _ | ⟨a, rest⟩
  · rfl
  by_cases ha : a.token = .word "as"
  · cases hnew : rest.head?.bind (alias? ·.token) <;> simp [aliasAt, ha, hnew]
  · simp [aliasAt, ha]

/-- An element between braces ends before the closing one, which is no name to rename to. -/
theorem specifierAt_stops (alias? : Token → Option String) (halias : alias? .closeBrace = none)
    (hb : b.token = .closeBrace) (l : Lexeme) (own : List Lexeme) :
    ∃ v, v.2 ≤ own.length ∧ ∀ tail, specifierAt alias? l (own ++ b :: tail) = v := by
  have hnew (own : List Lexeme) :
      ∃ v, v.2 ≤ own.length ∧ ∀ tail, aliasAt alias? (own ++ b :: tail) = v := by
    rcases own with _ | ⟨a, own⟩
    · exact ⟨(none, 0), Nat.le_refl _, fun tail => by simp [aliasAt, hb]⟩
    by_cases ha : a.token = .word "as"
    · rcases own with _ | ⟨c, own⟩
      · exact ⟨(some none, 1), Nat.le_refl _, fun tail => by simp [aliasAt, ha, hb, halias]⟩
      · cases hc : alias? c.token with
        | none => exact ⟨(some none, 1), by simp, fun tail => by simp [aliasAt, ha, hc]⟩
        | some new => exact ⟨(some (some new), 2), by simp, fun tail => by simp [aliasAt, ha, hc]⟩
    · exact ⟨(none, 0), Nat.zero_le _, fun tail => by simp [aliasAt, ha]⟩
  -- what stands behind a word `type` is the same token for all rests
  have hnext : ∃ next : Token, (own = [] → next.name? = none) ∧
      ∀ tail, (own ++ b :: tail).head?.map (·.token) = some next := by
    rcases own with _ | ⟨a, own⟩
    · exact ⟨b.token, fun _ => by rw [hb]; rfl, fun _ => rfl⟩
    · exact ⟨a.token, by rintro ⟨⟩, fun _ => rfl⟩
  obtain ⟨next, hempty, hnext⟩ := hnext
  simp only [specifierAt_eq, hnext]
  generalize htype : marksTypeOnly l (some next) = typeOnly
  have hle : (if typeOnly then 1 else 0) ≤ own.length := by
    split
    · next h =>
      refine List.length_pos_iff.mpr fun hnil => ?_
      simp [← htype, marksTypeOnly, hempty hnil] at h
    · exact Nat.zero_le _
  generalize (if typeOnly then 1 else 0) = k at hle ⊢
  generalize (((if typeOnly then some next else some l.token).bind Token.name?).getD "") = name
  obtain ⟨v, hv, hnew⟩ := hnew (own.drop k)
  rw [List.length_drop] at hv
  refine ⟨(⟨(v.1.bind id).getD name, v.1.map fun _ => name, typeOnly⟩, k + v.2), ?_,
    fun tail => ?_⟩
  · show k + v.2 ≤ own.length
    omega
  · rw [List.drop_append_of_le_length hle, hnew]

/-- The elements in braces end with the first closing brace. -/
theorem specifiers_stop (alias? : Token → Option String) (halias : alias? .closeBrace = none)
    (hb : b.token = .closeBrace) (own : List Lexeme) :
    ∃ v, v.2 ≤ own.length + 1 ∧ ∀ tail, specifiers alias? (own ++ b :: tail) = v := by
  induction own using suffix_induction with
  | nil => exact ⟨([], 1), Nat.le_refl _, fun tail => by simp [specifiers, hb]⟩
  | cons l own ih =>
    by_cases hclose : l.token = .closeBrace
    · exact ⟨([], 1), Nat.le_add_left _ _, fun tail => by simp [specifiers, hclose]⟩
    by_cases hname : l.token.name?.isSome
    · obtain ⟨⟨s, k⟩, hk, hs⟩ := specifierAt_stops alias? halias hb l own
      obtain ⟨⟨rest, n⟩, hn, hrest⟩ := ih (own.drop k) (List.drop_suffix k own)
      rw [List.length_drop] at hn
      refine ⟨(s :: rest, n + k + 1), by simp only [List.length_cons]; omega, fun tail => ?_⟩
      simp only [List.cons_append, specifiers, if_neg hclose, if_pos hname, hs]
      rw [List.drop_append_of_le_length hk, hrest]
    · obtain ⟨⟨rest, n⟩, hn, hrest⟩ := ih own List.suffix_rfl
      refine ⟨(rest, n + 1), Nat.succ_le_succ hn, fun tail => ?_⟩
      simp only [List.cons_append, specifiers, if_neg hclose, if_neg hname, hrest]

end Readers

end DeclAtlas

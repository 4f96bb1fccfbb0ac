import DeclAtlas.Proofs.Segmentation
import DeclAtlas.Proofs.Totality
import Mathlib.Data.List.Infix

/-!
# What a semicolon contains

However malformed a text is, what follows a semicolon outside of all brackets should not be affected
by it.  For most texts with balanced brackets this holds (`parse_append_semicolon`): the statements
in front of the semicolon are those that the first text has alone, and the ones behind it those of
the second text, at other places.

There are two ways out of brackets, and the texts that take them are excluded (`Orderly`).  A label
of a tuple element with nothing behind it makes the tuple read one token more.  If that is the `]`
of the tuple, elements are read on behind it, and at the next such label the token is the brace that
closes the block or the semicolon.  And type parameters that are not closed are read through the end
of their block; a class behind the semicolon then becomes part of it (`not_contained`).
-/

namespace DeclAtlas

open DeclAtlas.Parser DeclAtlas.Cursor

-- ── Orderly rows ─────────────────────────────────────────────────────────────────

/-- The last tokens are a label of a tuple element. -/
def endsWithLabel (ts : List Token) : Bool :=
  match ts.reverse with
  | .colon :: .word _ :: _ | .colon :: .question :: .word _ :: _ => true
  | _ => false

/-- Elements of a tuple end in front of a closing brace, and of a semicolon behind no label. -/
def endsElements (prev : Option Token) (l : Lexeme) : Bool :=
  l.token == .closeBrace || l.token == .semicolon && prev != some .colon

/-- The number of tokens among which a tuple ends whose elements begin the row. -/
def elementsExtent (ls : List Lexeme) : Nat := outerExtent endsElements none 0 ls

/-- No label stands last among the tokens behind a `[` in which its tuple ends. -/
def tupleEndsAt : List Lexeme → Bool
  | [] => true
  | l :: ls =>
    l.token != .openBracket || !endsWithLabel ((ls.take (elementsExtent ls)).map (·.token))

/-- The number of tokens of the head of a declaration, through the `<` behind its name. -/
def headExtent : List Token → Nat
  | .word k :: .less :: _ => if k = "class" ∨ k = "interface" then 2 else 0
  | .word k :: .word _ :: .less :: _ => if k = "class" ∨ k = "interface" then 3 else 0
  | _ => 0

/-- The number of tokens before the closing brace of the block. -/
def blockExtentOf (ls : List Lexeme) : Nat :=
  outerExtent (fun _ l => l.token == .closeBrace) none 0 ls

/-- Type parameters at the front of the row end before the block does. -/
def paramsEndAt (ls : List Lexeme) : Bool :=
  let head := headExtent (ls.map (·.token))
  head == 0 || decide ((typeParamNames true (ls.drop head)).2 ≤ blockExtentOf (ls.drop head))

/-- Nowhere in the row a label of a tuple lacks its type in front of the end of the block, or type
    parameters lack their end. -/
def Orderly (ls : List Lexeme) : Prop :=
  ∀ s ∈ ls.tails, (tupleEndsAt s && paramsEndAt s) = true

instance : DecidablePred Orderly := fun ls => inferInstanceAs (Decidable (∀ s ∈ ls.tails, _))

/-- A property may lack its type, also behind a tuple, but not where the elements of the tuple are
    read that far. -/
example : Orderly (tokenize "class C \x7b x: [a: A]; y: \x7d").lexemes ∧
    ¬ Orderly (tokenize "class C \x7b x: [a: ] y: \x7d").lexemes := by
  decide +kernel

section Orderly

variable {own rest : List Lexeme} {b : Lexeme}

/-- A row that ends with a label is found to do so. -/
theorem endsWithLabel_eq_true (h : EndsWithLabel own) :
    endsWithLabel (own.map (·.token)) = true := by
  obtain ⟨label, ⟨s, rfl⟩, w, h | h⟩ := h <;>
    simp [endsWithLabel, List.map_append, h]

/-- What opens type parameters is found, with its extent. -/
theorem headExtent_of_opensParams {head : List Lexeme} (h : OpensParams head)
    (rest : List Lexeme) :
    headExtent ((head ++ rest).map (·.token)) = head.length ∧ head.length ≠ 0 := by
  obtain ⟨k, hk, h | ⟨w, h⟩⟩ := h <;>
    rw [List.map_append, ← List.length_map (fun l : Lexeme => l.token), h] <;>
    exact ⟨if_pos hk, nofun⟩

/-- Type parameters in an orderly row end before the block. -/
theorem Orderly.params_le (h : Orderly own) {head rest : List Lexeme}
    (hsuffix : head ++ rest <:+ own) (hhead : OpensParams head) :
    (typeParamNames true rest).2 ≤ blockExtentOf rest := by
  have hat := (Bool.and_eq_true_iff.mp (h _ ((List.mem_tails _ _).mpr hsuffix))).2
  obtain ⟨hextent, hne⟩ := headExtent_of_opensParams hhead rest
  simp only [paramsEndAt, hextent, List.drop_left] at hat
  simpa [hne] using hat

/-- A block ends in front of the brace that closes it. -/
theorem blockExtentOf_le (hown : Nested own) (hb : b.token = .closeBrace) (rest : List Lexeme) :
    blockExtentOf (own ++ b :: rest) ≤ own.length := by
  have hle (prev : Option Token) : outerExtent (fun _ l => l.token == .closeBrace) prev 0
      (own ++ b :: rest) ≤ own.length := by
    induction hown generalizing prev with
    | nil => simp [outerExtent, hb]
    | @other l ls hopens _ ih =>
        simp only [List.cons_append, outerExtent, hopens, List.length_cons]
        split
        · exact Nat.zero_le _
        · exact Nat.succ_le_succ (ih _)
    | @group o c inner ls hcloser hinner _ ih =>
        obtain ⟨hcloses, hopens⟩ := Token.closes_of_closer? hcloser
        have ho := Token.opens_of_closer? hcloser
        have hbrace : (o.token == .closeBrace) = false := by
          cases h : o.token <;> rw [h] at ho <;> first | rfl | cases ho
        obtain ⟨prev', hprev'⟩ :=
          outerExtent_balanced (fun _ l => l.token == .closeBrace) hinner (some o.token) 0
        have := ih (some c.token)
        simp only [List.cons_append, List.append_assoc, outerExtent, ho, hopens, hcloses, hbrace,
          Bool.false_eq_true, if_true, if_false, hprev', List.length_cons, List.length_append]
        omega
  exact hle none

/-- Elements of a tuple are given up before a fence only. -/
theorem endsElements_isFence {prev : Option Token} {l : Lexeme}
    (h : endsElements prev l = true) : l.token.IsFence := by
  rcases Bool.or_eq_true_iff.mp h with hbrace | hsemicolon
  · exact .inl (eq_of_beq hbrace)
  · exact .inr (eq_of_beq (Bool.and_eq_true_iff.mp hsemicolon).1)

/-- The tokens among which a tuple ends are nested, and there is a fence behind them or nothing. -/
theorem exists_elements (hown : Nested own) (hrest : ∀ p ∈ rest.head?, p.token = .closeBrace)
    (prev : Option Token) :
    ∃ elements more, own = elements ++ more ∧ Nested elements ∧
      (∀ p ∈ more.head?, p.token.IsFence) ∧
      outerExtent endsElements prev 0 (own ++ rest) = elements.length := by
  induction hown generalizing prev with
  | nil =>
      refine ⟨[], [], rfl, .nil, by rintro _ ⟨⟩, ?_⟩
      rcases rest with _ | ⟨b, rest⟩
      · rfl
      · simp [outerExtent, endsElements, hrest b rfl]
  | @other l ls hopens hls ih =>
      cases hends : endsElements prev l with
      | true =>
          refine ⟨[], l :: ls, rfl, .nil, ?_, by simp [outerExtent, hends]⟩
          rintro _ ⟨⟩
          exact endsElements_isFence hends
      | false =>
          obtain ⟨elements, more, rfl, helements, hmore, hextent⟩ := ih (some l.token)
          refine ⟨l :: elements, more, rfl, .other hopens helements, hmore, ?_⟩
          simp only [List.cons_append, outerExtent, hends, hopens, Bool.false_eq_true, if_false,
            hextent, List.length_cons]
  | @group o c inner ls hcloser hinner hls ih =>
      obtain ⟨hcloses, hopens⟩ := Token.closes_of_closer? hcloser
      have ho := Token.opens_of_closer? hcloser
      have hends : endsElements prev o = false := by
        rw [Bool.eq_false_iff]
        intro hends
        exact absurd ho (Bool.eq_false_iff.mp (endsElements_isFence hends).not_opens)
      obtain ⟨prev', hprev'⟩ := outerExtent_balanced endsElements hinner (some o.token) 0
      obtain ⟨elements, more, rfl, helements, hmore, hextent⟩ := ih (some c.token)
      refine ⟨o :: (inner ++ c :: elements), more, by simp, .group hcloser hinner helements, hmore,
        ?_⟩
      simp only [List.cons_append, List.append_assoc] at hextent ⊢
      simp only [outerExtent, hends, ho, hopens, hcloses, Bool.false_eq_true, if_true, if_false,
        hprev', hextent, List.length_cons, List.length_append]
      omega

/-- Tuples in an orderly row end in front of a closing brace, or in front of the end. -/
theorem Orderly.tupleEnds (h : Orderly own) {o : Lexeme} {s : List Lexeme}
    (hsuffix : o :: (s ++ rest) <:+ own) (ho : o.token = .openBracket) (hs : Nested s)
    (hrest : ∀ p ∈ rest.head?, p.token = .closeBrace) : TupleEnds s := by
  have hat := (Bool.and_eq_true_iff.mp (h _ ((List.mem_tails _ _).mpr hsuffix))).1
  obtain ⟨elements, more, rfl, helements, hmore, hextent⟩ := exists_elements hs hrest none
  have htake : (elements ++ more ++ rest).take (elementsExtent (elements ++ more ++ rest)) =
      elements := by
    rw [elementsExtent, hextent, List.append_assoc, List.take_left]
  refine ⟨elements, more, rfl, helements, hmore, fun hlabel => ?_⟩
  rw [tupleEndsAt, htake, endsWithLabel_eq_true hlabel, ho] at hat
  cases hat

/-- In front of a closing brace an orderly row is settled. -/
theorem Orderly.settled (h : Orderly own) {s : List Lexeme} {c : Lexeme}
    (hsuffix : s ++ c :: rest <:+ own) (hs : Nested s) (hc : c.token = .closeBrace) :
    Settled s c where
  tuples o s' hs' ho := by
    obtain ⟨s₀, rfl⟩ := hs'
    have hbehind : o :: (s' ++ c :: rest) <:+ s₀ ++ o :: s' ++ c :: rest := ⟨s₀, by simp⟩
    have hnested : Nested s' := by
      have := hs.drop (s₀.length + 1)
      rwa [List.drop_length_add_append] at this
    refine h.tupleEnds (hbehind.trans hsuffix) ho hnested ?_
    rintro _ ⟨⟩
    exact hc
  params head s' hs' hhead := by
    obtain ⟨s₀, rfl⟩ := hs'
    have hbehind : head ++ (s' ++ c :: rest) <:+ s₀ ++ (head ++ s') ++ c :: rest := ⟨s₀, by simp⟩
    have hle := h.params_le (hbehind.trans hsuffix) hhead
    have hnested : Nested s' := by
      have := hs.drop (s₀ ++ head).length
      rwa [← List.append_assoc, List.drop_left] at this
    exact typeParamNames_within hnested (.inl hc) true
      (.inr (Nat.le_trans hle (blockExtentOf_le hnested hc rest)))

/-- A balanced and orderly row is enclosed by a semicolon. -/
theorem Orderly.enclosed (h : Orderly own) (hown : Nested own) (hb : b.token = .semicolon) :
    Enclosed own b where
  nested := hown
  fence := .inr hb
  settled := {
    tuples := fun o s hsuffix ho => by
      have hnested : Nested s := by
        rw [List.suffix_iff_eq_drop.mp ((List.suffix_cons o s).trans hsuffix)]
        exact hown.drop _
      rw [← List.append_nil s] at hsuffix
      exact h.tupleEnds hsuffix ho hnested (by rintro _ ⟨⟩)
    params := fun head s hsuffix _ => stopsBefore_semicolon hown hsuffix hb }
  tidy s c rest hsuffix hs hc := h.settled hsuffix hs hc

end Orderly

-- ── One statement after the other ────────────────────────────────────────────────

namespace Rule

variable {α : Type} {L : Likeness} {φ : Border} {c d : Cursor}

/-- Two runs on like tokens agree, whatever budgets they would need. -/
theorem together_total {r r' : Rule α} (hr : r.Alike L r') (h : r.Begins L φ c d) :
    Together (total r) (total r') c d fun a b c' d' => r.Likes L a b ∧ r.Ends L φ c' d' := by
  have hrank := r.rank_le
  have hbudget := c.lt_budget
  have htogether := agree_run L (k := 9 * c.remaining + r.rank + 1) (m := c.budget + d.budget)
    (n := c.budget + d.budget) (by omega) (by omega) φ hr h (Nat.lt_succ_self _)
  have hc := run_eq_total r c (Nat.le_add_right c.budget d.budget)
  have hd := run_eq_total r' d (Nat.le_add_left d.budget c.budget)
  simpa only [Together, hc, hd] using htogether

/-- The cursor behind a statement, of which at least one token is read. -/
def behindStatement (c : Cursor) : Cursor :=
  let c' := (total statement c).2
  if c'.remaining = c.remaining then c'.bump else c'

/-- What a list of statements outside blocks begins with: a statement, or a semicolon that belongs
    to none. -/
def statementTurn : Parser (Option Statement) := fun c =>
  match c.peek with
  | none => (none, c)
  | some .semicolon => (none, c.bump)
  | some .closeBrace => (some (.other c.here), c.bump)
  | _ => (some (total statement c).1, behindStatement c)

theorem statementTurn_semicolon (h : c.peek = some .semicolon) :
    statementTurn c = (none, c.bump) := by
  rw [statementTurn, h]

theorem statementTurn_closeBrace (h : c.peek = some .closeBrace) :
    statementTurn c = (some (.other c.here), c.bump) := by
  rw [statementTurn, h]

/-- In front of any token that is no fence, a statement is read. -/
theorem statementTurn_statement {t : Token} (h : c.peek = some t) (ht : ¬ t.IsFence) :
    statementTurn c = (some (total statement c).1, behindStatement c) := by
  rw [statementTurn, h]
  split
  · contradiction
  · next heq => exact absurd (.inr (Option.some.inj heq)) ht
  · next heq => exact absurd (.inl (Option.some.inj heq)) ht
  · rfl

/-- Behind a statement, less is left. -/
theorem behindStatement_lt (h : c.rest ≠ []) : (behindStatement c).remaining < c.remaining := by
  have hlead := leadsTo_total statement c
  unfold behindStatement
  dsimp only
  split
  · next heq =>
    rw [hlead.eq_of_remaining heq]
    obtain ⟨l, ls, hc⟩ := List.exists_cons_of_ne_nil h
    simp [bump_of_rest hc, remaining, hc]
  · next hne => exact Nat.lt_of_le_of_ne hlead.remaining_le hne

/-- At the end of a text there are no statements. -/
theorem statements_of_rest_nil (h : c.rest = []) : (total (statements false) c).1 = [] := by
  have hlength := (meets_statements false c).2.1
  rw [remaining, h] at hlength
  exact List.eq_nil_of_length_eq_zero (Nat.le_zero.mp hlength)

/-- A list of statements is its first turn and what follows. -/
theorem statements_eq_turn (h : c.rest ≠ []) :
    (total (statements false) c).1 =
      (statementTurn c).1.toList ++ (total (statements false) (statementTurn c).2).1 := by
  have hmeets : Meets (total (statements false)) c fun ss _ =>
      ss = (statementTurn c).1.toList ++ (total (statements false) (statementTurn c).2).1 := by
    have hcall (c : Cursor) : Meets (total (statements false)) c fun ss _ =>
        ss = (total (statements false) c).1 := ⟨leadsTo_total _ c, rfl⟩
    refine meets_total (meets_get ?_)
    split
    · next hpeek => exact absurd (peek_eq_none_iff.mp hpeek) h
    · next hpeek =>
      -- a semicolon stands for no statement
      rw [statementTurn_semicolon hpeek]
      exact meets_bind (meets_bump (hcall c.bump))
    · next hpeek =>
      -- a closing brace is a statement by itself
      rw [statementTurn_closeBrace hpeek]
      refine meets_bind (meets_bump (meets_bind ((hcall c.bump).mono fun ss c' _ heq => ?_)))
      exact meets_pure (congrArg _ heq)
    · next hnone hsemicolon hbrace =>
      obtain ⟨t, ht⟩ := Option.ne_none_iff_exists'.mp hnone
      have hfence : ¬ t.IsFence := by
        rintro (rfl | rfl)
        exacts [hbrace ht, hsemicolon ht]
      rw [statementTurn_statement ht hfence]
      refine meets_bind ⟨leadsTo_total statement c, meets_get ?_⟩
      unfold behindStatement
      dsimp only
      split
      · exact meets_bind (meets_bump (meets_bind ((hcall _).mono fun ss c' _ heq =>
          meets_pure (congrArg _ heq))))
      · exact meets_bind ((hcall _).mono fun ss c' _ heq => meets_pure (congrArg _ heq))
  exact hmeets.2

/-- Cursors from which lists of statements are read alike: what is next is of one kind, and behind
    it the cursors are alike. -/
structure Abreast (L : Likeness) (φ : Border) (c d : Cursor) : Prop where
  peek_eq : d.peek = c.peek
  here : L.span c.here d.here
  ahead {t : Token} : c.peek = some t → ¬ t.IsFence → Ahead L φ c d
  bump_end {t : Token} : c.peek = some t → EndsAt t L φ c.bump d.bump

/-- Cursors that are alike are abreast. -/
theorem abreast_of_alike (h : c.Alike L φ d) : Abreast L φ c d :=
  ⟨h.peek_eq, h.here, fun _ _ => .inl h, h.bump_end⟩

/-- Where parts may be compared, nothing needs to be known of what stands before the first tokens.
    -/
theorem abreast_of_near (hparts : L.parts) {l m : Lexeme} {ls ms : List Lexeme}
    (hc : c.rest = l :: ls) (hd : d.rest = m :: ms) (hl : L.near l m)
    (h : c.bump.Alike L .finish d.bump) : Abreast L .finish c d where
  peek_eq := by simp [peek, peekAt, hc, hd, L.near_token hl]
  here := by simpa [Cursor.here, hc, hd] using L.near_span hl
  ahead {t} hpeek ht := by
    obtain rfl : l.token = t := by simpa [peek, peekAt, hc] using hpeek
    exact .inr ⟨hparts, rfl, l, ls, m, ms, hc, hd, hl, ht, h⟩
  bump_end _ := .inl h

/-- Both sides have moved by equally many tokens, also where they are behind the border now. -/
theorem EndsAt.remaining_add {t : Token} {c' d' : Cursor} (h : c.Alike L φ d)
    (h' : EndsAt t L φ c' d') : c.remaining + d'.remaining = c'.remaining + d.remaining := by
  rcases h' with h' | ⟨-, hbehind⟩
  · exact h.remaining_add h'
  · cases φ with
    | finish => exact hbehind.elim
    | fence l ls m ms =>
        obtain ⟨own, own', hc, hd, hrows, -⟩ := h.rows
        obtain ⟨-, -, hc', -, hd'⟩ := hbehind
        have hlength := hrows.length_eq
        simp only [remaining, hc, hd, hc', hd', Border.left, Border.right, List.length_append,
          List.length_cons]
        omega

/-- Behind a statement, both sides have read a token or none. -/
theorem behindStatement_together (h : Ahead L φ c d) {t : Token} (hpeek : c.peek = some t)
    (ht : ¬ t.IsFence) : EndsAt .semicolon L φ (behindStatement c) (behindStatement d) := by
  obtain ⟨hc, hd, -, hends⟩ := together_total (r := statement) (.plain trivial) h
  have hbump := h.bump hpeek ht
  have hsame := EndsAt.remaining_add hbump hends
  have hlt := remaining_bump_lt hpeek
  have hlt' := remaining_bump_lt (h.peek_eq.trans hpeek)
  rw [remaining_bump, remaining_bump] at hsame
  rw [remaining_bump] at hlt hlt'
  unfold behindStatement
  dsimp only
  by_cases heq : (total statement c).2.remaining = c.remaining
  · have heq' : (total statement d).2.remaining = d.remaining := by omega
    rw [if_pos heq, if_pos heq', hc.eq_of_remaining heq, hd.eq_of_remaining heq']
    exact .inl hbump
  · have hne' : (total statement d).2.remaining ≠ d.remaining := by omega
    rw [if_neg heq, if_neg hne']
    exact hends

/-- Both sides read the same statement, or a semicolon. -/
theorem statementTurn_together (h : Abreast L φ c d) (hne : c.rest ≠ [])
    (hφ : φ.token? ≠ some .closeBrace) :
    Option.Rel (Statement.Alike L) (statementTurn c).1 (statementTurn d).1 ∧
      EndsAt .semicolon L φ (statementTurn c).2 (statementTurn d).2 := by
  obtain ⟨t, hpeek⟩ := Option.ne_none_iff_exists'.mp (mt peek_eq_none_iff.mp hne)
  have hpeek' := h.peek_eq.trans hpeek
  by_cases ht : t.IsFence
  · have hends := h.bump_end hpeek
    rcases ht with rfl | rfl
    · rw [statementTurn_closeBrace hpeek, statementTurn_closeBrace hpeek']
      exact ⟨.some (.other h.here), .inl (hends.resolve_right fun hbehind => hφ hbehind.1)⟩
    · rw [statementTurn_semicolon hpeek, statementTurn_semicolon hpeek']
      exact ⟨.none, hends⟩
  · rw [statementTurn_statement hpeek ht, statementTurn_statement hpeek' ht]
    have hahead := h.ahead hpeek ht
    obtain ⟨-, -, hs, -⟩ := together_total (r := statement) (.plain trivial) hahead
    exact ⟨.some hs, behindStatement_together hahead hpeek ht⟩

theorem leadsTo_statementTurn (c : Cursor) : c.LeadsTo (statementTurn c).2 := by
  unfold statementTurn behindStatement
  split
  · exact .refl c
  · exact leadsTo_bump c
  · exact leadsTo_bump c
  · dsimp only
    split
    · exact (leadsTo_total statement c).trans (leadsTo_bump _)
    · exact leadsTo_total statement c

/-- Every turn reads a token. -/
theorem statementTurn_lt (h : c.rest ≠ []) : (statementTurn c).2.remaining < c.remaining := by
  obtain ⟨t, hpeek⟩ := Option.ne_none_iff_exists'.mp (mt peek_eq_none_iff.mp h)
  unfold statementTurn
  split
  · next hnone => exact absurd (peek_eq_none_iff.mp hnone) h
  · exact remaining_bump_lt hpeek
  · exact remaining_bump_lt hpeek
  · exact behindStatement_lt h

-- ── In front of the semicolon ────────────────────────────────────────────────────

/-- The statements in front of a semicolon that encloses them are those without the rest, and the
    ones behind it are read from there. -/
theorem statements_append {b : Lexeme} {ls : List Lexeme} (hb : b.token = .semicolon)
    (h : c.Alike (.equality True) (.fence b [] b ls) d) :
    (total (statements false) d).1 =
      (total (statements false) c).1 ++ (total (statements false) ⟨some b, ls, d.finish⟩).1 := by
  induction hn : c.remaining using Nat.strongRecOn generalizing c d with
  | ind n ih =>
    subst hn
    obtain ⟨own, own', hc, hd, -⟩ := h.rows
    have hne : c.rest ≠ [] := by simp [hc, Border.left]
    have hne' : d.rest ≠ [] := by simp [hd, Border.right]
    have hfinish : (statementTurn d).2.finish = d.finish := by
      obtain ⟨n, hn⟩ := leadsTo_statementTurn d
      rw [hn, finish_advance]
    obtain ⟨hs, hends⟩ :=
      statementTurn_together (abreast_of_alike h) hne (by simp [Border.token?, hb])
    rw [statements_eq_turn hne, statements_eq_turn hne', eq_of_rel Statement.Alike.eq hs,
      List.append_assoc]
    congr 1
    rcases hends with h' | ⟨-, -, -, hc', hprev, hrest⟩
    · rw [ih _ (statementTurn_lt hne) h' rfl, hfinish]
    · rw [statements_of_rest_nil hc', List.nil_append, ← hprev, ← hrest, ← hfinish]

/-- Abreast, two texts are read to their ends alike. -/
theorem Abreast.statements (h : Abreast L .finish c d) :
    List.Forall₂ (Statement.Alike L) (total (statements false) c).1
      (total (statements false) d).1 := by
  by_cases hne : c.rest = []
  · have hd : d.rest = [] := peek_eq_none_iff.mp (h.peek_eq.trans (peek_eq_none_iff.mpr hne))
    rw [statements_of_rest_nil hne, statements_of_rest_nil hd]
    exact .nil
  have hne' : d.rest ≠ [] := fun hd =>
    hne (peek_eq_none_iff.mp (h.peek_eq.symm.trans (peek_eq_none_iff.mpr hd)))
  obtain ⟨hs, hends⟩ := statementTurn_together h hne nofun
  have halike := hends.resolve_right fun hbehind => hbehind.2
  obtain ⟨-, -, hss, -⟩ := together_total (r := .statements false) (.plain trivial)
    ⟨halike, nofun, .inl rfl⟩
  rw [statements_eq_turn hne, statements_eq_turn hne']
  refine List.rel_append ?_ hss
  generalize (statementTurn c).1 = s, (statementTurn d).1 = s' at hs
  cases hs with
  | none => exact .nil
  | some h => exact .cons h .nil

-- ── Behind the semicolon ─────────────────────────────────────────────────────────

end Rule

/-- Tokens and spans are alike that are the same, but stand behind so many more bytes and lines. -/
def Likeness.shifted (bytes lines : Nat) : Likeness where
  lexeme l m := m = l.shift bytes lines
  span s t := t = s.shift bytes lines
  near l m := m.token = l.token ∧ m.span = l.span.shift bytes lines
  parts := True
  mark_eq := by rintro l _ rfl; rfl
  text_eq := by rintro l _ rfl; rfl
  near_of := by rintro l _ rfl; exact ⟨rfl, rfl⟩
  near_token h := h.1.symm
  near_span h := h.2
  through := by rintro s _ l _ rfl rfl; exact (Span.through_shift bytes lines s l).symm

section Shifted

variable (bytes lines : Nat)

/-- Rows are alike up to a shift if one is the other, shifted. -/
theorem Likeness.forall₂_shifted {ls ms : List Lexeme} :
    List.Forall₂ (Likeness.shifted bytes lines).lexeme ls ms ↔
      ms = ls.map (Lexeme.shift bytes lines) := by
  constructor
  · intro h
    induction h with
    | nil => rfl
    | cons h _ ih => rw [List.map_cons, ← ih, h]
  · rintro rfl
    induction ls with
    | nil => exact .nil
    | cons l ls ih => exact .cons rfl ih

/-- Shifting is a mapping of spans, and keeps all texts. -/
theorem Likeness.shifted_maps : (Likeness.shifted bytes lines).Maps (Span.shift bytes lines) where
  span h := h
  cut {ls ms} h := by
    obtain rfl := (Likeness.forall₂_shifted bytes lines).mp h
    rcases ls with _ | ⟨l, ls⟩
    · rfl
    · simp only [cutText, Lexeme.joinText, List.map_cons, List.flatMap_map]
      rfl

/-- Behind the semicolon, the statements are those of the second text, at other places. -/
theorem Rule.statements_shifted (ts : TokenList) (gap : List Char) (prev : Option Lexeme) :
    (total (statements false) ⟨prev,
        Lexeme.after gap (ts.lexemes.map (Lexeme.shift bytes lines)),
        ts.finish.shift bytes lines⟩).1 =
      mapSpanStatements (Span.shift bytes lines)
        (total (statements false) (Cursor.start ts)).1 := by
  obtain ⟨lexemes, trail, finish⟩ := ts
  rcases lexemes with _ | ⟨l, ls⟩
  · rw [statements_of_rest_nil rfl, statements_of_rest_nil rfl, mapSpanStatements]
  refine eq_mapSpanStatements (Likeness.shifted_maps bytes lines) (Abreast.statements ?_)
  refine abreast_of_near trivial rfl rfl ⟨rfl, rfl⟩ ⟨.some ⟨rfl, rfl⟩, fun _ => rfl, ls,
    ls.map (Lexeme.shift bytes lines), (List.append_nil _).symm, (List.append_nil _).symm, ?_,
    trivial⟩
  exact (Likeness.forall₂_shifted bytes lines).mpr rfl

end Shifted

-- ── Two texts with a semicolon between them ──────────────────────────────────────

/-- A text whose last segment is a token ends with that token. -/
theorem TokenList.place_concat {s : Segment} {t : Token} (hs : s.token? = some t)
    (ss : List Segment) (p : Position) (gap : List Char) :
    ∃ own b, (place p gap (ss ++ [s])).lexemes = own ++ [b] ∧ b.token = t ∧
      b.span.stop = (place p gap (ss ++ [s])).finish.offset := by
  induction ss generalizing p gap with
  | nil =>
      refine ⟨[], ⟨t, gap, s.text, ⟨p.after gap, ((p.after gap).after s.text).offset⟩⟩, ?_, rfl, ?_⟩
      · simp only [List.nil_append, place, hs]
      · simp only [List.nil_append, place, hs, Position.after_nil]
  | cons s' ss ih =>
      simp only [List.cons_append, place]
      cases s'.token? with
      | none => exact ih p (gap ++ s'.text)
      | some t' =>
          obtain ⟨own, b, heq, hb, hstop⟩ := ih ((p.after gap).after s'.text) []
          simp only [heq]
          exact ⟨_ :: own, b, rfl, hb, hstop⟩

/-- A text that ends with a semicolon, and another text behind it: the tokens are those of both,
    and behind the semicolon the statements of the second text are read, at its places. -/
theorem tokens_behind_semicolon {u : String} {ss : List Segment}
    (h : segments (u ++ ";").toList = ss ++ [.semicolon]) (t : String) :
    ∃ own b rest, (tokenize (u ++ ";")).lexemes = own ++ [b] ∧ b.token = .semicolon ∧
      b.span.stop = (u ++ ";").utf8ByteSize ∧
      (tokenize (u ++ ";\n" ++ t)).lexemes = own ++ b :: rest ∧
      (Rule.total (.statements false) ⟨some b, rest, (tokenize (u ++ ";\n" ++ t)).finish⟩).1 =
        mapSpanStatements (Span.shift (u ++ ";\n").utf8ByteSize
          ((u ++ ";\n").toList.count '\n')) (parse t) := by
  obtain ⟨hlexemes, hfinish⟩ := tokenize_append_semicolon (t := t) h
  obtain ⟨own, b, hown, hb, hstop⟩ : ∃ own b, (tokenize (u ++ ";")).lexemes = own ++ [b] ∧
      b.token = .semicolon ∧ b.span.stop = (tokenize (u ++ ";")).finish.offset := by
    rw [tokenize, h]
    exact TokenList.place_concat rfl ss .origin []
  rw [finish_tokenize] at hstop
  rw [hown, List.append_assoc, List.singleton_append] at hlexemes
  refine ⟨own, b, _, hown, hb, hstop, hlexemes, ?_⟩
  rw [hfinish]
  exact Rule.statements_shifted _ _ (tokenize t) ['\n'] (some b)

/-- The statements of a text behind a semicolon. -/
theorem statements_append_semicolon {u : String} {ss : List Segment}
    (h : segments (u ++ ";").toList = ss ++ [.semicolon])
    (hbalanced : Balanced (tokenize (u ++ ";")).lexemes.dropLast)
    (horderly : Orderly (tokenize (u ++ ";")).lexemes.dropLast) (t : String) :
    parse (u ++ ";\n" ++ t) = parse (u ++ ";") ++
      mapSpanStatements (Span.shift (u ++ ";\n").utf8ByteSize
        ((u ++ ";\n").toList.count '\n')) (parse t) := by
  obtain ⟨own, b, rest, hown, hb, -, hlexemes, hrest⟩ := tokens_behind_semicolon h t
  rw [hown, List.dropLast_concat] at hbalanced horderly
  have halike : (Cursor.start (tokenize (u ++ ";"))).Alike (.equality True) (.fence b [] b rest)
      (Cursor.start (tokenize (u ++ ";\n" ++ t))) :=
    ⟨.none, Border.noConfusion, own, own, hown, hlexemes, Likeness.forall₂_equality.mpr rfl,
      ⟨trivial, rfl⟩, horderly.enclosed hbalanced.nested hb⟩
  exact (Rule.statements_append hb halike).trans (congrArg _ hrest)

/-- **A semicolon outside brackets contains what stands before it.**  Where the tokens in front of a
    semicolon on a line of its own are balanced and orderly, however malformed otherwise, the
    statements of the whole text are those of the first part, followed by those of the second part
    at their places. -/
theorem parse_append_semicolon {t₁ : String}
    (hlexed : (segments (t₁ ++ "\n;").toList).getLast? = some .semicolon)
    (hbalanced : Balanced (tokenize (t₁ ++ "\n;")).lexemes.dropLast)
    (horderly : Orderly (tokenize (t₁ ++ "\n;")).lexemes.dropLast) (t₂ : String) :
    parse (t₁ ++ "\n;\n" ++ t₂) = parse (t₁ ++ "\n;") ++
      mapSpanStatements (Span.shift (t₁ ++ "\n;\n").utf8ByteSize
        ((t₁ ++ "\n;\n").toList.count '\n')) (parse t₂) := by
  have hsemicolon : t₁ ++ "\n;" = t₁ ++ "\n" ++ ";" := by rw [String.append_assoc]; rfl
  have hbehind : t₁ ++ "\n;\n" = t₁ ++ "\n" ++ ";\n" := by
    rw [String.append_assoc]
    rfl
  rw [hsemicolon] at hlexed hbalanced horderly
  obtain ⟨ss, hss⟩ := List.getLast?_eq_some_iff.mp hlexed
  rw [hsemicolon, hbehind]
  exact statements_append_semicolon hss hbalanced horderly t₂

/-- A malformed namespace, whose brackets are balanced, in front of a class. -/
theorem parse_append_semicolon_namespace :
    let t₁ := "namespace N \x7b class A<T> extends B<[a: C, ( \x7b [ ] \x7d ) > x: ] = \x7d import <"
    let t₂ := "class B \x7b x: N \x7d"
    parse (t₁ ++ "\n;\n" ++ t₂) = parse (t₁ ++ "\n;") ++
      mapSpanStatements (Span.shift (t₁ ++ "\n;\n").utf8ByteSize
        ((t₁ ++ "\n;\n").toList.count '\n')) (parse t₂) :=
  parse_append_semicolon (by decide +kernel) (by decide +kernel) (by decide +kernel) _

/-- **Type parameters that are not closed run out of a block.**  The brackets of the first text are
    balanced, and yet the class behind the semicolon is not among the statements: it has become part
    of the namespace. -/
theorem not_contained :
    let t₁ := "namespace N \x7b class A<T \x7d"
    let t₂ := "class B \x7b\x7d"
    (segments (t₁ ++ "\n;").toList).getLast? = some .semicolon ∧
      Balanced (tokenize (t₁ ++ "\n;")).lexemes.dropLast ∧
      parse (t₁ ++ "\n;\n" ++ t₂) ≠ parse (t₁ ++ "\n;") ++
        mapSpanStatements (Span.shift (t₁ ++ "\n;\n").utf8ByteSize
          ((t₁ ++ "\n;\n").toList.count '\n')) (parse t₂) := by
  refine ⟨by decide +kernel, by decide +kernel, fun h => ?_⟩
  have hlength := congrArg List.length h
  revert hlength
  decide +kernel

end DeclAtlas

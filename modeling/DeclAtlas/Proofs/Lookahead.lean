import DeclAtlas.Proofs.ParserLogic
import DeclAtlas.Proofs.Spelling

/-!
# Reading what is known to be ahead

When it is known which tokens are ahead of a cursor (`Cursor.ahead`), every look ahead has a known
answer, and every parser takes one branch.  The answers are equations on the marks ahead, for the
simplifier; the rules are those of `Parser.Meets` with the branch that is taken.
-/

namespace DeclAtlas

/-- A row with a first mark has a first lexeme, with its token and what is known of a line break
    before it. -/
theorem map_mark_eq_cons {ls : List Lexeme} {t : Token} {fresh : Bool} {ms : List Mark}
    (h : ls.map Lexeme.mark = (t, fresh) :: ms) :
    ∃ l ls', ls = l :: ls' ∧ l.token = t ∧ l.newlineBefore = fresh ∧ ls'.map Lexeme.mark = ms := by
  obtain ⟨l, ls', rfl, hl, hls'⟩ := List.map_eq_cons_iff.mp h
  obtain ⟨ht, hfresh⟩ := Prod.mk.inj hl
  exact ⟨l, ls', rfl, ht, hfresh, hls'⟩

namespace Cursor

variable {c : Cursor}

/-- The marks of the tokens ahead. -/
def ahead (c : Cursor) : List Mark := c.rest.map Lexeme.mark

/-- Moving over tokens leaves the marks behind them. -/
@[simp] theorem ahead_advance (n : Nat) (c : Cursor) : (c.advance n).ahead = c.ahead.drop n := by
  rw [ahead, rest_advance, List.map_drop, ahead]

@[simp] theorem ahead_bump (c : Cursor) : c.bump.ahead = c.ahead.tail := by
  rw [← List.drop_one]
  exact ahead_advance 1 c

/-- There are as many tokens left as marks ahead. -/
theorem remaining_eq_length (c : Cursor) : c.remaining = c.ahead.length := by
  rw [ahead, List.length_map, remaining]

/-- Where another token is next, the cursor has moved on. -/
theorem LeadsTo.remaining_lt {c' : Cursor} (hlead : c.LeadsTo c') (h : c'.peek ≠ c.peek) :
    c'.remaining < c.remaining := by
  refine Nat.lt_of_le_of_ne hlead.remaining_le fun heq => h ?_
  rw [hlead.eq_of_remaining heq]

/-- The tokens ahead are in their marks. -/
theorem map_token_rest (c : Cursor) : c.rest.map Lexeme.token = c.ahead.map Prod.fst := by
  rw [ahead, List.map_map]
  rfl

/-- What is seen `n` tokens ahead is in the mark there. -/
@[simp] theorem peekAt_eq (c : Cursor) (n : Nat) : c.peekAt n = c.ahead[n]?.map Prod.fst := by
  rw [peekAt, ahead, List.getElem?_map, Option.map_map]
  rfl

@[simp] theorem peek_eq (c : Cursor) : c.peek = c.ahead.head?.map Prod.fst := by
  rw [peek, peekAt_eq, List.head?_eq_getElem?]

@[simp] theorem sees_eq (c : Cursor) (n : Nat) (t : Token) :
    c.sees n t = (c.ahead[n]?.map Prod.fst == some t) := by
  rw [sees, peekAt_eq]

@[simp] theorem isAt_eq (c : Cursor) (t : Token) :
    c.isAt t = (c.ahead.head?.map Prod.fst == some t) := by
  rw [isAt, sees_eq, List.head?_eq_getElem?]

@[simp] theorem seesWord_eq (c : Cursor) (n : Nat) (w : String) :
    c.seesWord n w = (c.ahead[n]?.map Prod.fst == some (.word w)) :=
  sees_eq c n _

@[simp] theorem atWord_eq (c : Cursor) (w : String) :
    c.atWord w = (c.ahead.head?.map Prod.fst == some (.word w)) :=
  isAt_eq c _

@[simp] theorem seesAnyWord_eq (c : Cursor) (n : Nat) :
    c.seesAnyWord n = ((c.ahead[n]?.map Prod.fst).bind Token.word?).isSome := by
  rw [seesAnyWord, peekAt_eq]

/-- Whether a line begins with the next token is in its mark. -/
theorem newlineBefore_eq {m : Mark} {ms : List Mark} (h : c.ahead = m :: ms) :
    c.newlineBefore = m.2 := by
  obtain ⟨l, ls, hr, rfl, -⟩ := List.map_eq_cons_iff.mp h
  simp [newlineBefore, newlineBeforeAt, hr, Lexeme.mark]

end Cursor

/-- The cursor at the start of legible pieces. -/
theorem Piece.Legible.cuts_start {q : Quote} {ps : List Piece} (h : Piece.Legible q ps) :
    (Cursor.start (tokenize (String.ofList (Piece.print q ps)))).rest.map Lexeme.cut =
      Piece.cuts q [] ps := by
  have hcuts := map_cut_tokenize (String.ofList (Piece.print q ps))
  rw [String.toList_ofList, h []] at hcuts
  exact hcuts

/-- The marks ahead are those of the cuts ahead. -/
theorem Cursor.ahead_eq_cuts (c : Cursor) : c.ahead = (c.rest.map Lexeme.cut).map Cut.mark := by
  rw [ahead, List.map_map]
  rfl

/-- At the start of a legible text, the marks of its pieces are ahead. -/
theorem Piece.Legible.ahead_start {q : Quote} {ps : List Piece} (h : Piece.Legible q ps) :
    (Cursor.start (tokenize (String.ofList (Piece.print q ps)))).ahead = Piece.marks false ps := by
  rw [Cursor.ahead_eq_cuts, h.cuts_start, Piece.map_mark_cuts]
  rfl

namespace Cursor

/-- The tokens ahead are those of the pieces, as they are spelled. -/
def Spells (q : Quote) (c : Cursor) (ps : List Piece) : Prop :=
  ∃ gap, c.rest.map Lexeme.cut = Piece.cuts q gap ps

namespace Spells

variable {q : Quote} {c c' : Cursor} {own ps : List Piece}

/-- Where pieces are spelled, their marks are ahead; only of the first one is it open whether it
    begins a line. -/
theorem ahead (h : c.Spells q ps) : ∃ fresh, c.ahead = Piece.marks fresh ps := by
  obtain ⟨gap, hgap⟩ := h
  exact ⟨gap.contains '\n', by rw [ahead_eq_cuts, hgap, Piece.map_mark_cuts]⟩

/-- A cursor that has as many tokens ahead as the pieces behind `own` is behind `own`. -/
theorem rest_of_leadsTo {gap : List Char} (h : c.rest.map Lexeme.cut = Piece.cuts q gap (own ++ ps))
    (hlead : c.LeadsTo c') (hlength : c'.remaining = (Piece.tokens ps).length) :
    (c.rest.take (c.remaining - c'.remaining)).map Lexeme.cut = Piece.cuts q gap own ∧
      c'.rest.map Lexeme.cut = Piece.cuts q (Piece.trail q gap own) ps := by
  obtain ⟨n, rfl⟩ := hlead
  have hremaining : c.remaining = (Piece.tokens own).length + (Piece.tokens ps).length := by
    rw [remaining, ← List.length_map (f := Lexeme.cut), h, Piece.length_cuts, Piece.tokens_append,
      List.length_append]
  have hdrop : c.rest.drop n = c.rest.drop (Piece.tokens own).length := by
    rw [remaining, rest_advance, List.length_drop] at hlength
    rw [remaining] at hremaining
    by_cases hn : n ≤ c.rest.length
    · rw [show n = (Piece.tokens own).length by omega]
    · rw [List.drop_eq_nil_of_le (by omega), List.drop_eq_nil_of_le (by omega)]
  have hown : (Piece.cuts q gap own).length = (Piece.tokens own).length := Piece.length_cuts ..
  rw [Piece.cuts_append] at h
  constructor
  · rw [hlength, hremaining, Nat.add_sub_cancel, List.map_take, h, ← hown, List.take_left]
  · rw [rest_advance, hdrop, List.map_drop, h, ← hown, List.drop_left]

/-- A cursor that has moved on to marks of pieces has moved on to the pieces. -/
theorem moveOn (h : c.Spells q (own ++ ps)) (hlead : c.LeadsTo c') {fresh : Bool}
    (h' : c'.ahead = Piece.marks fresh ps) : c'.Spells q ps := by
  obtain ⟨gap, hgap⟩ := h
  refine ⟨_, (rest_of_leadsTo hgap hlead ?_).2⟩
  rw [remaining_eq_length, h', Piece.length_marks]

/-- What is cut out between two cursors is the text of the pieces between them, if these begin and
    end with tokens. -/
theorem textSince {p : Piece} (h : c.Spells q (p :: own ++ ps)) (hp : p.token? ≠ none)
    (htrail : ∀ gap, Piece.trail q gap (p :: own) = []) (hlead : c.LeadsTo c') {fresh : Bool}
    (h' : c'.ahead = Piece.marks fresh ps) :
    c'.textSince c = String.ofList (Piece.print q (p :: own)) := by
  obtain ⟨gap, hgap⟩ := h
  obtain ⟨t, ht⟩ := Option.ne_none_iff_exists'.mp hp
  have hlength : c'.remaining = (Piece.tokens ps).length := by
    rw [remaining_eq_length, h', Piece.length_marks]
  have htaken := (rest_of_leadsTo hgap hlead hlength).1
  have htext := Piece.flatMap_cuts q gap (p :: own)
  rw [htrail, List.append_nil] at htext
  simp only [Piece.cuts, ht] at htaken htext
  obtain ⟨l, ls, htake, hl, hls⟩ := List.map_eq_cons_iff.mp htaken
  rw [List.flatMap_cons, List.append_assoc, List.append_cancel_left_eq, ← hls,
    List.flatMap_map] at htext
  have hcut : l.text = p.text q := congrArg (·.2.2) hl
  rw [Cursor.textSince, htake, Lexeme.joinText, hcut, ← htext]
  rfl

end Spells

end Cursor

/-- A legible text spells its pieces from the start. -/
theorem Piece.Legible.spells_start {q : Quote} {ps : List Piece} (h : Piece.Legible q ps) :
    (Cursor.start (tokenize (String.ofList (Piece.print q ps)))).Spells q ps :=
  ⟨[], h.cuts_start⟩

namespace Parser

variable {α : Type} {c : Cursor} {post : α → Cursor → Prop}

/-- The branch that is known to be taken. -/
theorem meets_if_pos {b : Prop} [Decidable b] {p q : Parser α} (h : b) (hp : p.Meets c post) :
    (if b then p else q).Meets c post := by
  rwa [if_pos h]

/-- The branch that is taken if the condition is known to fail. -/
theorem meets_if_neg {b : Prop} [Decidable b] {p q : Parser α} (h : ¬ b) (hq : q.Meets c post) :
    (if b then p else q).Meets c post := by
  rwa [if_neg h]

/-- The token that is asked for is next. -/
theorem meets_eat_pos {t : Token} {fresh : Bool} {ms : List Mark} {post : Bool → Cursor → Prop}
    (h : c.ahead = (t, fresh) :: ms) (hpost : ∀ c', c'.ahead = ms → post true c') :
    (eat t).Meets c post := by
  refine meets_eat (fun _ => hpost _ (by simp [h])) fun hfalse => ?_
  simp [h] at hfalse

/-- Another token than the one that is asked for is next. -/
theorem meets_eat_neg {t : Token} {m : Mark} {ms : List Mark} {post : Bool → Cursor → Prop}
    (h : c.ahead = m :: ms) (hne : m.1 ≠ t) (hpost : post false c) : (eat t).Meets c post := by
  refine meets_eat (fun htrue => ?_) fun _ => hpost
  simp [h, hne] at htrue

/-- The next token has a value. -/
theorem meets_takeIf_pos {f : Token → Option α} {a : α} {m : Mark} {ms : List Mark}
    {post : Option α → Cursor → Prop} (h : c.ahead = m :: ms) (hf : f m.1 = some a)
    (hpost : ∀ c', c'.ahead = ms → post (some a) c') : (takeIf f).Meets c post := by
  refine meets_takeIf (fun b hb => ?_) fun hnone => ?_
  · simp only [Cursor.peek_eq, h, List.head?_cons, Option.map_some, Option.bind_some, hf,
      Option.some.injEq] at hb
    rw [← hb]
    exact hpost _ (by simp [h])
  · simp [h, hf] at hnone

/-- The next token has no value. -/
theorem meets_takeIf_neg {f : Token → Option α} {m : Mark} {ms : List Mark}
    {post : Option α → Cursor → Prop} (h : c.ahead = m :: ms) (hf : f m.1 = none)
    (hpost : post none c) : (takeIf f).Meets c post := by
  refine meets_takeIf (fun b hb => ?_) fun _ => hpost
  simp [h, hf] at hb

/-- Behind the first mark are the others. -/
theorem meets_bump_ahead {m : Mark} {ms : List Mark} {post : Unit → Cursor → Prop}
    (h : c.ahead = m :: ms) (hpost : ∀ c', c'.ahead = ms → post () c') : bump.Meets c post :=
  meets_bump (hpost _ (by simp [h]))

/-- Where no decorator is ahead, none is skipped. -/
theorem meets_skipDecorators {m : Mark} {ms : List Mark} {post : Unit → Cursor → Prop}
    (h : c.ahead = m :: ms) (hm : m.1 ≠ .atSign) (hpost : post () c) :
    skipDecorators.Meets c post := by
  obtain ⟨l, ls, hr, hl, -, -⟩ := map_mark_eq_cons (t := m.1) h
  rw [← hl] at hm
  refine meets_skip ?_
  rw [hr, decoratorsExtent, if_neg hm]
  exact hpost

/-- A token that is only there under a condition is read under the same condition. -/
theorem meets_when_ahead {b : Bool} {f : Unit → Parser α} (ms : List Mark)
    (hpos : b = true → ∃ m, c.ahead = m :: ms) (hneg : b = false → c.ahead = ms)
    (hf : ∀ c', c'.ahead = ms → (f ()).Meets c' post) :
    (if b = true then bump >>= f else f ()).Meets c post := by
  refine meets_ite (fun hb => ?_) fun hb => hf c (hneg (Bool.eq_false_iff.mpr hb))
  obtain ⟨m, hm⟩ := hpos hb
  exact meets_bind (meets_bump_ahead hm hf)

end Parser

end DeclAtlas

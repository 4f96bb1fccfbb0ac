import DeclAtlas.Proofs.Fences
import DeclAtlas.Proofs.Likeness
import DeclAtlas.Proofs.Lookahead

/-!
# Two cursors side by side

Two runs of a parser are compared step by step.  What is kept is that the tokens ahead are alike
(`Cursor.Alike`): either all of them, to the ends of both texts, or those in front of a fence, with
anything behind it.  The fence is the brace that closes the block which is being read, or a
semicolon outside all brackets.

In front of a fence the tokens are nested, and the two readings that look behind a closing brace are
excluded: no tuple is read up to a label directly in front of a fence, and type parameters end
before it (`Settled`).  Then every look ahead that a parser takes finds like tokens, and every
reader takes equally many on both sides.
-/

namespace DeclAtlas

-- ── In front of a fence ──────────────────────────────────────────────────────────

/-- A label of a tuple element: a word, a question mark that may be absent, and a colon. -/
def IsLabel (ls : List Lexeme) : Prop :=
  ∃ w, ls.map (·.token) = [.word w, .colon] ∨ ls.map (·.token) = [.word w, .question, .colon]

/-- The head of a declaration through the `<` that opens its type parameters. -/
def OpensParams (ls : List Lexeme) : Prop :=
  ∃ k, (k = "class" ∨ k = "interface") ∧
    (ls.map (·.token) = [.word k, .less] ∨ ∃ w, ls.map (·.token) = [.word k, .word w, .less])

/-- The last tokens of the row are a label. -/
def EndsWithLabel (own : List Lexeme) : Prop := ∃ label, label <:+ own ∧ IsLabel label

/-- Elements of a tuple that are read from the front of the row are all read in it: up to the first
    fence outside brackets or up to its end, no label stands last. -/
def TupleEnds (own : List Lexeme) : Prop :=
  ∃ elements rest, own = elements ++ rest ∧ Nested elements ∧
    (∀ p ∈ rest.head?, p.token.IsFence) ∧ ¬ EndsWithLabel elements

/-- In front of the fence `b` tuples end, and so do type parameters. -/
structure Settled (own : List Lexeme) (b : Lexeme) : Prop where
  tuples : ∀ o s, o :: s <:+ own → o.token = .openBracket → TupleEnds s
  params : ∀ head s, head ++ s <:+ own → OpensParams head → StopsBefore (typeParamNames true) s b

/-- All closing braces are fences that the tokens before them respect. -/
def Tidy (own : List Lexeme) : Prop :=
  ∀ s c rest, s ++ c :: rest <:+ own → Nested s → c.token = .closeBrace → Settled s c

/-- A row of tokens that no reader leaves behind the fence `b`. -/
structure Enclosed (own : List Lexeme) (b : Lexeme) : Prop where
  nested : Nested own
  fence : b.token.IsFence
  settled : Settled own b
  tidy : Tidy own

section Enclosed

variable {own inner rest : List Lexeme} {b : Lexeme}

/-- A row ends with the label that an end of it ends with. -/
theorem EndsWithLabel.of_suffix {s : List Lexeme} (h : EndsWithLabel s) (hs : s <:+ own) :
    EndsWithLabel own := by
  obtain ⟨label, hsuffix, hlabel⟩ := h
  exact ⟨label, hsuffix.trans hs, hlabel⟩

/-- What is settled in front of a fence stays so behind each of its tokens. -/
theorem Settled.suffix {own' : List Lexeme} (h : Settled own b) (hs : own' <:+ own) :
    Settled own' b :=
  ⟨fun o s hsuffix => h.tuples o s (hsuffix.trans hs),
    fun head s hsuffix => h.params head s (hsuffix.trans hs)⟩

/-- What is tidy is so up to each of its tokens. -/
theorem Tidy.front (h : Tidy (inner ++ rest)) : Tidy inner := by
  intro s c rest' hsuffix hs hc
  refine h s c (rest' ++ rest) ?_ hs hc
  rw [← List.cons_append, ← List.append_assoc]
  exact List.suffix_append_self_iff.mpr hsuffix

theorem Tidy.suffix {own' : List Lexeme} (h : Tidy own) (hs : own' <:+ own) : Tidy own' :=
  fun s c rest hsuffix => h s c rest (hsuffix.trans hs)

/-- What is left of an enclosed row is enclosed by the same fence. -/
theorem Enclosed.suffix {own' : List Lexeme} (h : Enclosed own b) (hs : own' <:+ own) :
    Enclosed own' b where
  nested := by
    rw [List.suffix_iff_eq_drop.mp hs]
    exact h.nested.drop _
  fence := h.fence
  settled := h.settled.suffix hs
  tidy := h.tidy.suffix hs

/-- The inside of a block is enclosed by the brace that closes it. -/
theorem Enclosed.block {o c : Lexeme} (h : Enclosed (o :: (inner ++ c :: rest)) b)
    (hc : c.token = .closeBrace) (hinner : Balanced inner) : Enclosed inner c where
  nested := hinner.nested
  fence := .inl hc
  settled := h.tidy inner c rest (List.suffix_cons ..) hinner.nested hc
  tidy := (h.tidy.suffix (List.suffix_cons ..)).front

/-- Type parameters end before every semicolon. -/
theorem stopsBefore_semicolon {head s : List Lexeme} (hown : Nested own)
    (hsuffix : head ++ s <:+ own) (hb : b.token = .semicolon) :
    StopsBefore (typeParamNames true) s b := by
  have hnested : Nested s := by
    rw [List.suffix_iff_eq_drop.mp ((List.suffix_append head s).trans hsuffix)]
    exact hown.drop _
  exact @typeParamNames_within s b hnested (.inr hb) true [] (.inl hb)

/-- Elements that end in front of a fence, where no label stands, are enclosed by it. -/
theorem Enclosed.elements {elements : List Lexeme} {p : Lexeme}
    (h : Enclosed (elements ++ p :: rest) b) (helements : Nested elements)
    (hp : p.token.IsFence) (hlabel : ¬ EndsWithLabel elements) : Enclosed elements p where
  nested := helements
  fence := hp
  settled := {
    tuples := fun o s hsuffix _ => by
      have hs : s <:+ elements := (List.suffix_cons o s).trans hsuffix
      have hnested : Nested s := by
        rw [List.suffix_iff_eq_drop.mp hs]
        exact helements.drop _
      exact ⟨s, [], (List.append_nil s).symm, hnested, by rintro _ ⟨⟩,
        fun h => hlabel (h.of_suffix hs)⟩
    params := fun head s hsuffix hhead => by
      rcases hp with hbrace | hsemicolon
      · exact (h.tidy elements p rest (List.suffix_refl _) helements hbrace).params head s hsuffix
          hhead
      · exact stopsBefore_semicolon helements hsuffix hsemicolon }
  tidy := h.tidy.front

end Enclosed

-- ── Borders ──────────────────────────────────────────────────────────────────────

/-- How far the tokens of two lists are alike: to their ends, or to a fence in each of them, behind
    which anything may stand. -/
inductive Border
  | finish
  | fence (l : Lexeme) (ls : List Lexeme) (m : Lexeme) (ms : List Lexeme)

namespace Border

/-- The fence in the first list, and what is behind it. -/
def left : Border → List Lexeme
  | finish => []
  | fence l ls _ _ => l :: ls

/-- The fence in the second list, and what is behind it. -/
def right : Border → List Lexeme
  | finish => []
  | fence _ _ m ms => m :: ms

/-- The token that is a fence. -/
def token? : Border → Option Token
  | finish => none
  | fence l _ _ _ => some l.token

/-- Like fences, and a row that they enclose. -/
def Encloses (L : Likeness) : Border → List Lexeme → Prop
  | finish, _ => True
  | fence l _ m _, own => (L.parts ∧ L.lexeme l m) ∧ Enclosed own l

/-- The next `k` tokens stand in front of the fence. -/
def Within (φ : Border) (c : Cursor) (k : Nat) : Prop :=
  φ = .finish ∨ k + φ.left.length ≤ c.remaining

/-- No label stands directly in front of the border. -/
def Unlabelled (φ : Border) (c : Cursor) : Prop :=
  φ = .finish ∨ ∀ own, c.rest = own ++ φ.left → ¬ EndsWithLabel own

/-- The border is none that a block closes with, but the brace. -/
def InBlock (φ : Border) : Prop := ∀ t, φ.token? = some t → t = .closeBrace

theorem Encloses.suffix {L : Likeness} {φ : Border} {own own' : List Lexeme}
    (h : φ.Encloses L own) (hs : own' <:+ own) : φ.Encloses L own' := by
  cases φ with
  | finish => trivial
  | fence l ls m ms => exact ⟨h.1, h.2.suffix hs⟩

/-- Moving on towards the border brings no label in front of it. -/
theorem Unlabelled.leadsTo {φ : Border} {c c' : Cursor} (h : φ.Unlabelled c)
    (hlead : c.LeadsTo c') : φ.Unlabelled c' := by
  refine h.imp_right fun h own hown hlabel => ?_
  obtain ⟨n, rfl⟩ := hlead
  have hrest : c.rest = (c.rest.take n ++ own) ++ φ.left := by
    rw [List.append_assoc, ← hown, Cursor.rest_advance, List.take_append_drop]
  exact h _ hrest (hlabel.of_suffix (List.suffix_append ..))

theorem Within.mono {φ : Border} {c : Cursor} {j k : Nat} (h : φ.Within c k) (hjk : j ≤ k) :
    φ.Within c j :=
  h.imp_right fun h => by omega

end Border

-- ── Cursors that are alike ───────────────────────────────────────────────────────

namespace Cursor

variable {L : Likeness} {φ : Border} {c d c' d' : Cursor} {k : Nat}

/-- The tokens ahead of two cursors are alike up to the border, and the last one read is of one
    kind. -/
structure Alike (L : Likeness) (φ : Border) (c d : Cursor) : Prop where
  prev : Option.Rel L.near c.prev d.prev
  finish : φ = .finish → L.span (.empty c.finish) (.empty d.finish)
  rows : ∃ own own', c.rest = own ++ φ.left ∧ d.rest = own' ++ φ.right ∧
    List.Forall₂ L.lexeme own own' ∧ φ.Encloses L own

/-- Both cursors are directly behind the fence. -/
def Behind (L : Likeness) (φ : Border) (c d : Cursor) : Prop :=
  match φ with
  | .finish => False
  | .fence l ls m ms =>
    L.lexeme l m ∧ c.prev = some l ∧ c.rest = ls ∧ d.prev = some m ∧ d.rest = ms

/-- The cursors are alike in front of the border, or the border is `t` and both are behind it. -/
def EndsAt (t : Token) (L : Likeness) (φ : Border) (c d : Cursor) : Prop :=
  Alike L φ c d ∨ φ.token? = some t ∧ Behind L φ c d

-- ── Moving on side by side ───────────────────────────────────────────────────────

theorem Alike.within_zero (h : Alike L φ c d) : φ.Within c 0 := by
  obtain ⟨own, own', hc, -⟩ := h.rows
  refine .inr ?_
  rw [remaining, hc, List.length_append]
  omega

/-- The row in front of the border, as far as it is known to reach. -/
theorem Alike.rows_within (h : Alike L φ c d) (hk : φ.Within c k) :
    ∃ own own', c.rest = own ++ φ.left ∧ d.rest = own' ++ φ.right ∧
      List.Forall₂ L.lexeme own own' ∧ φ.Encloses L own ∧ (φ = .finish ∨ k ≤ own.length) := by
  obtain ⟨own, own', hc, hd, hrows, hborder⟩ := h.rows
  refine ⟨own, own', hc, hd, hrows, hborder, hk.imp_right fun hk => ?_⟩
  rw [remaining, hc, List.length_append] at hk
  omega

/-- Past a token in front of the border, cursors stay alike. -/
theorem Alike.bump (h : Alike L φ c d) (hk : φ.Within c 1) : Alike L φ c.bump d.bump := by
  obtain ⟨own, own', hc, hd, hrows, hborder, hk⟩ := h.rows_within hk
  cases hrows with
  | nil =>
      -- nothing is in front of the border, so there is none, and neither cursor moves
      obtain rfl : φ = .finish := hk.resolve_right (by simp)
      have hcbump : c.bump = c := by simp [Cursor.bump, hc, Border.left]
      have hdbump : d.bump = d := by simp [Cursor.bump, hd, Border.right]
      rwa [hcbump, hdbump]
  | @cons l m own own' hl hrows =>
      rw [bump_of_rest hc, bump_of_rest hd]
      exact ⟨.some (L.near_of hl), h.finish, own, own', rfl, rfl, hrows,
        hborder.suffix (List.suffix_cons ..)⟩

theorem remaining_bump (c : Cursor) : c.bump.remaining = c.remaining - 1 := by
  rw [remaining, remaining, ← List.length_tail, ← List.drop_one]
  exact congrArg List.length (rest_advance 1 c)

/-- Behind one more token one less is known to be ahead. -/
theorem within_bump (hk : φ.Within c (k + 1)) : φ.Within c.bump k :=
  hk.imp_right fun hk => by
    rw [remaining_bump]
    omega

theorem Alike.advance (h : Alike L φ c d) (hk : φ.Within c k) :
    Alike L φ (c.advance k) (d.advance k) := by
  induction k generalizing c d with
  | zero => exact h
  | succ k ih =>
      exact ih (h.bump (hk.mono (by omega))) (within_bump hk)

-- ── What is ahead ────────────────────────────────────────────────────────────────

/-- Like tokens are of one kind, and first on their lines or not. -/
theorem map_mark_eq {ls ms : List Lexeme} (h : List.Forall₂ L.lexeme ls ms) :
    ls.map Lexeme.mark = ms.map Lexeme.mark := by
  induction h with
  | nil => rfl
  | cons hl _ ih => rw [List.map_cons, List.map_cons, L.mark_eq hl, ih]

/-- What stands behind tokens in front of the border is of one kind on both sides. -/
theorem Alike.mark_eq (h : Alike L φ c d) (hk : φ.Within c k) :
    d.rest[k]?.map Lexeme.mark = c.rest[k]?.map Lexeme.mark := by
  obtain ⟨own, own', hc, hd, hrows, hborder, hk⟩ := h.rows_within hk
  rw [← List.getElem?_map, ← List.getElem?_map, hc, hd]
  cases φ with
  | finish =>
      simp only [Border.left, Border.right, List.append_nil]
      rw [map_mark_eq hrows]
  | fence l ls m ms =>
      have hk := hk.resolve_left nofun
      have hlength : (own.map Lexeme.mark).length = own.length := List.length_map _
      rw [Border.left, Border.right, List.map_append, List.map_append, ← map_mark_eq hrows]
      rcases Nat.lt_or_ge k own.length with hlt | hge
      · rw [List.getElem?_append_left (by omega), List.getElem?_append_left (by omega)]
      · obtain rfl : k = own.length := Nat.le_antisymm hk hge
        rw [List.getElem?_append_right (by omega), List.getElem?_append_right (by omega), hlength,
          Nat.sub_self, List.map_cons, List.map_cons, List.getElem?_cons_zero,
          List.getElem?_cons_zero, L.mark_eq hborder.1.2]

/-- What is looked at in front of the border, or at it, is of one kind on both sides. -/
theorem Alike.peekAt_eq (h : Alike L φ c d) (hk : φ.Within c k) : d.peekAt k = c.peekAt k := by
  have hmark := congrArg (Option.map Prod.fst) (h.mark_eq hk)
  simpa [Lexeme.mark, Function.comp_def, peekAt] using hmark

theorem Alike.peek_eq (h : Alike L φ c d) : d.peek = c.peek := h.peekAt_eq h.within_zero

/-- Line breaks up to the border are the same on both sides. -/
theorem Alike.newlineBeforeAt_eq (h : Alike L φ c d) (hk : φ.Within c k) :
    d.newlineBeforeAt k = c.newlineBeforeAt k := by
  have hmark := h.mark_eq hk
  unfold newlineBeforeAt
  cases hc : c.rest[k]? <;> cases hd : d.rest[k]? <;> simp_all [Lexeme.mark]

theorem Alike.newlineBefore_eq (h : Alike L φ c d) : d.newlineBefore = c.newlineBefore :=
  h.newlineBeforeAt_eq h.within_zero

theorem Alike.sees_eq (h : Alike L φ c d) (hk : φ.Within c k) (t : Token) :
    d.sees k t = c.sees k t := by
  rw [sees, sees, h.peekAt_eq hk]

theorem Alike.isAt_eq (h : Alike L φ c d) (t : Token) : d.isAt t = c.isAt t :=
  h.sees_eq h.within_zero t

theorem Alike.atWord_eq (h : Alike L φ c d) (w : String) : d.atWord w = c.atWord w :=
  h.isAt_eq _

theorem Alike.seesWord_eq (h : Alike L φ c d) (hk : φ.Within c k) (w : String) :
    d.seesWord k w = c.seesWord k w :=
  h.sees_eq hk _

theorem Alike.seesAnyWord_eq (h : Alike L φ c d) (hk : φ.Within c k) :
    d.seesAnyWord k = c.seesAnyWord k := by
  rw [seesAnyWord, seesAnyWord, h.peekAt_eq hk]

theorem Alike.seesMemberName_eq (h : Alike L φ c d) (hk : φ.Within c k) :
    d.seesMemberName k = c.seesMemberName k := by
  rw [seesMemberName, seesMemberName, h.peekAt_eq hk]

/-- Past another token than the fence, one more is known. -/
theorem Alike.within_succ (h : Alike L φ c d) (hk : φ.Within c k) (hne : c.peekAt k ≠ φ.token?) :
    φ.Within c (k + 1) := by
  obtain ⟨own, own', hc, -, -, -, hk⟩ := h.rows_within hk
  cases φ with
  | finish => exact .inl rfl
  | fence l ls m ms =>
      have hk := hk.resolve_left nofun
      refine .inr ?_
      rw [remaining, hc, List.length_append]
      rcases Nat.lt_or_ge k own.length with hlt | hge
      · omega
      · obtain rfl : k = own.length := Nat.le_antisymm hk hge
        refine absurd ?_ hne
        rw [peekAt, hc, List.getElem?_append_right (Nat.le_refl _), Nat.sub_self]
        rfl

/-- The token at a border is a fence. -/
theorem Alike.fence_of_token (h : Alike L φ c d) {t : Token} (ht : φ.token? = some t) :
    t.IsFence := by
  obtain ⟨own, own', -, -, -, hborder⟩ := h.rows
  cases φ with
  | finish => cases ht
  | fence l ls m ms =>
      obtain rfl : l.token = t := Option.some.inj ht
      exact hborder.2.fence

/-- Past a token that is no fence, one more is known. -/
theorem Alike.within_next (h : Alike L φ c d) (hk : φ.Within c k) {t : Token}
    (hpeek : c.peekAt k = some t) (ht : ¬ t.IsFence) : φ.Within c (k + 1) := by
  refine h.within_succ hk fun heq => ht (h.fence_of_token ?_)
  rw [← heq, hpeek]

/-- In front of a token that is no fence there is at least this token before the border. -/
theorem Alike.within_one (h : Alike L φ c d) {t : Token} (hpeek : c.peek = some t)
    (ht : ¬ t.IsFence) : φ.Within c 1 :=
  h.within_next h.within_zero hpeek ht

/-- The next tokens, if there are any. -/
theorem Alike.heads (h : Alike L φ c d) :
    (c.rest = [] ∧ d.rest = []) ∨
      ∃ l ls m ms, c.rest = l :: ls ∧ d.rest = m :: ms ∧ L.lexeme l m := by
  obtain ⟨own, own', hc, hd, hrows, hborder⟩ := h.rows
  cases hrows with
  | nil =>
      cases φ with
      | finish => exact .inl ⟨hc, hd⟩
      | fence l ls m ms => exact .inr ⟨l, ls, m, ms, hc, hd, hborder.1.2⟩
  | cons hl _ => exact .inr ⟨_, _, _, _, hc, hd, hl⟩

-- ── Readers ──────────────────────────────────────────────────────────────────────

/-- The first row has the marks of the second, but for what stands behind the border. -/
theorem Alike.marks_eq (h : Alike L φ c d) :
    ∃ own, c.rest = own ++ φ.left ∧ φ.Encloses L own ∧
      d.rest.map Lexeme.mark = (own ++ φ.left.take 1 ++ φ.right.tail).map Lexeme.mark := by
  obtain ⟨own, own', hc, hd, hrows, hborder⟩ := h.rows
  refine ⟨own, hc, hborder, ?_⟩
  rw [hd]
  cases φ with
  | finish => simp [Border.left, Border.right, map_mark_eq hrows]
  | fence l ls m ms => simp [Border.left, Border.right, map_mark_eq hrows, L.mark_eq hborder.1.2]

/-- A reader that stops before a fence, if there is one, reads the same on both sides. -/
theorem Alike.reads_of {f : List Lexeme → α × Nat} (h : Alike L φ c d)
    (hbare : ∀ ls, f (ls.map Lexeme.bare) = f ls)
    (hfence : ∀ l ls m ms own, φ = .fence l ls m ms → c.rest = own ++ l :: ls → Enclosed own l →
      StopsBefore f own l) :
    f d.rest = f c.rest ∧ φ.Within c (f c.rest).2 := by
  obtain ⟨own, hc, hborder, hmarks⟩ := h.marks_eq
  rw [eq_of_marks hbare hmarks]
  cases φ with
  | finish =>
      rw [hc]
      exact ⟨by simp [Border.left, Border.right], .inl rfl⟩
  | fence l ls m ms =>
      obtain ⟨v, hv, hstop⟩ := hfence l ls m ms own rfl hc hborder.2
      have hlength : c.remaining = own.length + (ls.length + 1) := by
        rw [remaining, hc, List.length_append]
        rfl
      rw [hc]
      simp only [Border.left, Border.right, List.take_succ_cons, List.take_zero, List.tail_cons,
        List.append_assoc, List.singleton_append, hstop, true_and]
      refine .inr ?_
      simp only [Border.left, List.length_cons]
      omega

/-- A fenced reader reads the same on both sides, and stops before the border. -/
theorem Alike.reads {f : List Lexeme → α × Nat} (h : Alike L φ c d) (hf : FencedIn f) :
    f d.rest = f c.rest ∧ φ.Within c (f c.rest).2 :=
  h.reads_of hf.bare fun _ _ _ _ _ _ _ henclosed => hf.fence henclosed.nested henclosed.fence

-- ── Places ───────────────────────────────────────────────────────────────────────

/-- Alike cursors are at like places. -/
theorem Alike.here (h : Alike L φ c d) : L.span c.here d.here := by
  rcases h.heads with ⟨hc, hd⟩ | ⟨l, ls, m, ms, hc, hd, hl⟩
  · cases φ with
    | finish => simpa [Cursor.here, hc, hd] using h.finish rfl
    | fence l ls m ms =>
        obtain ⟨own, own', hown, -⟩ := h.rows
        simp [hc, Border.left] at hown
  · simpa [Cursor.here, hc, hd] using L.near_span (L.near_of hl)

/-- Spans from like places to behind like tokens are alike. -/
theorem spanFrom_alike {s t : Span} (hprev : Option.Rel L.near c.prev d.prev) (hs : L.span s t) :
    L.span (c.spanFrom s) (d.spanFrom t) := by
  unfold spanFrom
  cases hc : c.prev <;> cases hd : d.prev <;> rw [hc, hd] at hprev <;> cases hprev
  · exact hs
  · next h => exact L.through hs (L.near_span h)

theorem Alike.spanFrom (h : Alike L φ c d) {s t : Span} (hs : L.span s t) :
    L.span (c.spanFrom s) (d.spanFrom t) :=
  spanFrom_alike h.prev hs

/-- Spans that end with the fence are alike, too. -/
theorem EndsAt.spanFrom {t : Token} (h : EndsAt t L φ c d) {s s' : Span} (hs : L.span s s') :
    L.span (c.spanFrom s) (d.spanFrom s') := by
  rcases h with h | ⟨-, h⟩
  · exact h.spanFrom hs
  · cases φ with
    | finish => exact h.elim
    | fence l ls m ms =>
        obtain ⟨hl, hc, -, hd, -⟩ := h
        refine spanFrom_alike ?_ hs
        rw [hc, hd]
        exact .some (L.near_of hl)

/-- Both sides have moved by equally many tokens. -/
theorem Alike.remaining_add (h : Alike L φ c d) (h' : Alike L φ c' d') :
    c.remaining + d'.remaining = c'.remaining + d.remaining := by
  obtain ⟨own, own', hc, hd, hrows, -⟩ := h.rows
  obtain ⟨own₁, own₁', hc', hd', hrows', -⟩ := h'.rows
  have hlength := hrows.length_eq
  have hlength' := hrows'.length_eq
  simp only [remaining, hc, hd, hc', hd', List.length_append]
  omega

/-- One side has moved if and only if the other has. -/
theorem Alike.remaining_eq_iff (h : Alike L φ c d) (h' : Alike L φ c' d') :
    d'.remaining = d.remaining ↔ c'.remaining = c.remaining := by
  have := h.remaining_add h'
  omega

/-- What was read between like cursors are like tokens. -/
theorem Alike.rowSince (h : Alike L φ c d) (h' : Alike L φ c' d') :
    List.Forall₂ L.lexeme (c.rest.take (c.remaining - c'.remaining))
      (d.rest.take (d.remaining - d'.remaining)) := by
  obtain ⟨own, own', hc, hd, hrows, -⟩ := h.rows
  obtain ⟨own₁, own₁', hc', hd', hrows', -⟩ := h'.rows
  have hlength := hrows.length_eq
  have hlength' := hrows'.length_eq
  have hleft : c.remaining - c'.remaining = own.length - own₁.length := by
    simp only [remaining, hc, hc', List.length_append]
    omega
  have hright : d.remaining - d'.remaining = own.length - own₁.length := by
    simp only [remaining, hd, hd', List.length_append]
    omega
  rw [hleft, hright, hc, hd, List.take_append_of_le_length (by omega),
    List.take_append_of_le_length (by omega)]
  exact List.forall₂_take _ hrows

/-- The texts between like cursors are cut out of like tokens. -/
theorem Alike.textSince (h : Alike L φ c d) (h' : Alike L φ c' d') :
    L.Text (c'.textSince c) (d'.textSince d) :=
  ⟨_, _, h.rowSince h', rfl, rfl⟩

end Cursor

end DeclAtlas

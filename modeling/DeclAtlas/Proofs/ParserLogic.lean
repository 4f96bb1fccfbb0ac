import DeclAtlas.Syntax.Cursor

/-!
# What a parser ensures

A parser never fails, so what there is to say about it is where it leaves the cursor and what
holds of its value there.  `Parser.Meets p c post` says both: started at `c`, the parser only moves
on, and `post` holds of its value and of the cursor behind it.

There is one rule for each way in which parsers are put together and for each parser that all
others are made of.  They are applied backwards, from the text of a parser: `meets_bind` asks for
what follows at the cursor that the first part leaves, and `Parser.Meets.mono` brings in what is
known of a part.
-/

namespace DeclAtlas

-- ── Cursors move on ──────────────────────────────────────────────────────────────

namespace Cursor

/-- The second cursor is at the place of the first, or at a later one of the same list. -/
def LeadsTo (c c' : Cursor) : Prop := ∃ n, c' = c.advance n

/-- Moving over `m` tokens and then over `n` more. -/
theorem advance_add (m n : Nat) (c : Cursor) : c.advance (m + n) = (c.advance m).advance n := by
  induction m generalizing c with
  | zero => rw [Nat.zero_add]; rfl
  | succ m ih =>
      rw [Nat.succ_add]
      exact ih c.bump

theorem LeadsTo.refl (c : Cursor) : c.LeadsTo c := ⟨0, rfl⟩

theorem LeadsTo.trans {c₁ c₂ c₃ : Cursor} (h : c₁.LeadsTo c₂) (h' : c₂.LeadsTo c₃) :
    c₁.LeadsTo c₃ := by
  obtain ⟨m, rfl⟩ := h
  obtain ⟨n, rfl⟩ := h'
  exact ⟨m + n, (advance_add m n c₁).symm⟩

theorem leadsTo_advance (n : Nat) (c : Cursor) : c.LeadsTo (c.advance n) := ⟨n, rfl⟩

theorem leadsTo_bump (c : Cursor) : c.LeadsTo c.bump := ⟨1, rfl⟩

/-- At a later place no more is left. -/
theorem LeadsTo.remaining_le {c c' : Cursor} (h : c.LeadsTo c') : c'.remaining ≤ c.remaining := by
  obtain ⟨n, rfl⟩ := h
  simp [remaining]

/-- At the end of the list nothing moves. -/
theorem advance_of_rest_nil {c : Cursor} (h : c.rest = []) (n : Nat) : c.advance n = c := by
  induction n with
  | zero => rfl
  | succ n ih =>
      have hbump : c.bump = c := by simp [bump, h]
      rw [advance, hbump, ih]

/-- A cursor that has not passed a token has not moved. -/
theorem LeadsTo.eq_of_remaining {c c' : Cursor} (h : c.LeadsTo c')
    (hr : c'.remaining = c.remaining) : c' = c := by
  obtain ⟨n, rfl⟩ := h
  by_cases hnil : c.rest = []
  · exact advance_of_rest_nil hnil n
  · have hpos := List.length_pos_iff.mpr hnil
    simp only [remaining, rest_advance, List.length_drop] at hr
    obtain rfl : n = 0 := by omega
    rfl

/-- To stand at a token is to have it next. -/
theorem isAt_iff {c : Cursor} {t : Token} : c.isAt t = true ↔ c.peek = some t := by
  simp [isAt, sees, peek]

/-- What is next is the token of the first lexeme that is left. -/
theorem peek_eq_some_iff {c : Cursor} {t : Token} :
    c.peek = some t ↔ ∃ l ls, c.rest = l :: ls ∧ l.token = t := by
  cases h : c.rest with
  | nil => simp [peek, peekAt, h]
  | cons l ls => simp [peek, peekAt, h]

/-- Nothing is next if nothing is left. -/
theorem peek_eq_none_iff {c : Cursor} : c.peek = none ↔ c.rest = [] := by
  cases h : c.rest with
  | nil => simp [peek, peekAt, h]
  | cons l ls => simp [peek, peekAt, h]

/-- Behind the next token, it is the one in front. -/
theorem bump_of_rest {c : Cursor} {l : Lexeme} {ls : List Lexeme} (h : c.rest = l :: ls) :
    c.bump = ⟨some l, ls, c.finish⟩ := by
  simp [bump, h]

end Cursor

-- ── Rules ────────────────────────────────────────────────────────────────────────

namespace Parser

variable {α β : Type} {c : Cursor} {post : α → Cursor → Prop}

/-- Started at `c`, the parser moves on to a cursor at which `post` holds of its value. -/
def Meets (p : Parser α) (c : Cursor) (post : α → Cursor → Prop) : Prop :=
  c.LeadsTo (p c).2 ∧ post (p c).1 (p c).2

/-- What a parser ensures may be weakened, for all that it leads to. -/
theorem Meets.mono {p : Parser α} {post' : α → Cursor → Prop} (h : p.Meets c post)
    (himp : ∀ a c', c.LeadsTo c' → post a c' → post' a c') : p.Meets c post' :=
  ⟨h.1, himp _ _ h.1 h.2⟩

theorem meets_pure {a : α} (h : post a c) : (pure a : Parser α).Meets c post :=
  ⟨.refl c, h⟩

/-- Of a sequence, the first part has to ensure that the second one does. -/
theorem meets_bind {p : Parser β} {f : β → Parser α}
    (h : p.Meets c fun b c' => (f b).Meets c' post) : (p >>= f).Meets c post :=
  ⟨h.1.trans h.2.1, h.2.2⟩

/-- Looking at the cursor moves nothing. -/
theorem meets_get {f : Cursor → Parser α} (h : (f c).Meets c post) :
    ((get : Parser Cursor) >>= f).Meets c post :=
  ⟨h.1, h.2⟩

/-- Each branch has to ensure it where it is taken. -/
theorem meets_ite {b : Prop} [Decidable b] {p q : Parser α} (hp : b → p.Meets c post)
    (hq : ¬ b → q.Meets c post) : (if b then p else q).Meets c post := by
  by_cases h : b
  · rw [if_pos h]; exact hp h
  · rw [if_neg h]; exact hq h

/-- Two branches that join: what follows need only be known from every later cursor. -/
theorem meets_join {p q : Parser α} (hq : ∀ c', c.LeadsTo c' → q.Meets c' post)
    (h : (∀ c', c.LeadsTo c' → q.Meets c' post) → p.Meets c post) : p.Meets c post :=
  h hq

/-- A step that is only taken under a condition, and what follows it. -/
theorem meets_when {b : Prop} [Decidable b] {p : Parser Unit} {f : Unit → Parser α}
    (hp : p.Meets c fun _ _ => True) (hf : ∀ c', c.LeadsTo c' → (f ()).Meets c' post) :
    (if b then p >>= f else f ()).Meets c post :=
  meets_ite (fun _ => meets_bind (hp.mono fun _ c' hc _ => hf c' hc)) fun _ => hf c (.refl c)

/-- A value that comes from one of two parsers, and what follows it. -/
theorem meets_branch {b : Prop} [Decidable b] {p q : Parser β} {f : β → Parser α}
    (h : (if b then p else q).Meets c fun x c' => (f x).Meets c' post) :
    (if b then p >>= f else q >>= f).Meets c post := by
  by_cases hb : b
  · rw [if_pos hb] at h ⊢; exact meets_bind h
  · rw [if_neg hb] at h ⊢; exact meets_bind h

theorem meets_bump {post : Unit → Cursor → Prop} (h : post () c.bump) : bump.Meets c post :=
  ⟨c.leadsTo_bump, h⟩

/-- Moving over as many tokens as the extent says. -/
theorem meets_skip {extent : List Lexeme → Nat} {post : Unit → Cursor → Prop}
    (h : post () (c.advance (extent c.rest))) : (skip extent).Meets c post :=
  ⟨c.leadsTo_advance _, h⟩

/-- A reader that says how many tokens it takes. -/
theorem meets_taking {read : List Lexeme → α × Nat}
    (h : post (read c.rest).1 (c.advance (read c.rest).2)) : (taking read).Meets c post :=
  ⟨c.leadsTo_advance _, h⟩

/-- A token that may be there, with what is known in either case. -/
theorem meets_eat {t : Token} {post : Bool → Cursor → Prop}
    (htrue : c.isAt t = true → post true c.bump) (hfalse : c.isAt t = false → post false c) :
    (eat t).Meets c post := by
  refine meets_get (meets_ite ?_ ?_)
  · intro h
    exact meets_bind (meets_bump (meets_pure (htrue h)))
  · intro h
    exact meets_pure (hfalse (Bool.eq_false_iff.mpr h))

/-- A value that the next token may have. -/
theorem meets_takeIf {f : Token → Option α} {post : Option α → Cursor → Prop}
    (hsome : ∀ a, c.peek.bind f = some a → post (some a) c.bump)
    (hnone : c.peek.bind f = none → post none c) : (takeIf f).Meets c post := by
  refine meets_get ?_
  split
  · next a h => exact meets_bind (meets_bump (meets_pure (hsome a h)))
  · next h => exact meets_pure (hnone h)

/-- A loop that has read nothing moves over one token; so each turn moves on. -/
theorem meets_forced {c' : Cursor} {f : Unit → Parser α}
    (hne : c.rest ≠ []) (hlead : c.LeadsTo c')
    (hf : ∀ c'', c'.LeadsTo c'' → c''.remaining < c.remaining → (f ()).Meets c'' post) :
    (if c'.remaining = c.remaining then bump >>= f else f ()).Meets c' post := by
  refine meets_ite ?_ ?_
  · intro heq
    refine meets_bind (meets_bump (hf _ c'.leadsTo_bump ?_))
    rw [hlead.eq_of_remaining heq]
    obtain ⟨l, ls, hrest⟩ := List.exists_cons_of_ne_nil hne
    rw [Cursor.bump_of_rest hrest]
    simp [Cursor.remaining, hrest]
  · intro hne
    exact hf c' (.refl c') (Nat.lt_of_le_of_ne hlead.remaining_le hne)

/-- A value that comes from one of two parsers, according to the next token, and what follows
    it. -/
theorem meets_eat_branch {t : Token} {p q : Parser β} {f : β → Parser α}
    (h : (do if ← eat t then p else q).Meets c fun x c' => (f x).Meets c' post) :
    (do if ← eat t then p >>= f else q >>= f).Meets c post := by
  have hassoc : (do if ← eat t then p >>= f else q >>= f) =
      (do if ← eat t then p else q) >>= f := by
    rw [bind_assoc]
    congr 1
    funext b
    cases b <;> rfl
  rw [hassoc]
  exact meets_bind h

/-- Nothing more than moving on is asked of a parser. -/
theorem meets_any_eat (t : Token) : (eat t).Meets c fun _ _ => True :=
  meets_eat (fun _ => trivial) fun _ => trivial

end Parser

end DeclAtlas

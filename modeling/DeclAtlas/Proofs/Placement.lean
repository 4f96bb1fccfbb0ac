import DeclAtlas.Proofs.ParserLogic
import Mathlib.Data.String.Basic

/-!
# Where tokens and cursors stand

The tokens of a text follow one another without overlapping, none of them is empty, and the last
one ends within the text (`inOrder_tokenize`).  A cursor inherits this: `Cursor.back` is where the
last token read ends, `Cursor.front` where the next one starts, and both only grow as a cursor
moves on.

Everything that has a span starts at some cursor and takes the span up to the last token that was
read (`Cursor.spanFrom`).  What is known of such a span is said in terms of the two cursors: if the
cursor has moved, the span ends where the second one has come to (`Cursor.Ordered.stop_spanFrom`),
and in any case it reaches no further than that and the first token (`Cursor.Marks`).
-/

namespace DeclAtlas

-- ── Tokens in order ──────────────────────────────────────────────────────────────

/-- Walking over characters moves the offset by their bytes. -/
theorem Position.offset_after (p : Position) (cs : List Char) :
    (p.after cs).offset = p.offset + String.utf8Len cs := by
  induction cs generalizing p with
  | nil => rfl
  | cons c cs ih =>
      rw [Position.after_cons, ih, Position.offset_next, String.utf8Len_cons]
      omega

/-- The tokens are not empty, do not overlap, and stand between the offsets `lo` and `hi`. -/
def Lexeme.InOrder (hi : Nat) : Nat → List Lexeme → Prop
  | lo, [] => lo ≤ hi
  | lo, l :: ls =>
    lo ≤ l.span.start.offset ∧ l.span.start.offset < l.span.stop ∧ InOrder hi l.span.stop ls

/-- There is room for the tokens between the two offsets. -/
theorem Lexeme.InOrder.le {hi : Nat} (ls : List Lexeme) :
    ∀ {lo : Nat}, Lexeme.InOrder hi lo ls → lo ≤ hi := by
  induction ls with
  | nil => intro lo h; exact h
  | cons l ls ih =>
      intro lo h
      obtain ⟨hlo, hne, htail⟩ := h
      have hle := ih htail
      omega

theorem text_ne_nil_of_mem_segments (cs : List Char) : ∀ s ∈ segments cs, s.text ≠ [] := by
  fun_induction segments cs with
  | case1 => exact List.forall_mem_nil _
  | case2 c cs shape n _ ih => exact List.forall_mem_cons.mpr ⟨List.cons_ne_nil _ _, ih⟩

/-- A token list ends behind everything that was placed. -/
theorem finish_place (ss : List Segment) :
    ∀ (p : Position) (gap : List Char),
      (TokenList.place p gap ss).finish = p.after (gap ++ (ss.map Segment.text).flatten) := by
  induction ss with
  | nil => intro p gap; simp [TokenList.place]
  | cons s ss ih =>
      intro p gap
      rw [TokenList.place]
      cases s.token? with
      | none => simp [ih]
      | some t => simp [ih, Position.after_append]

/-- Segments that are not empty are placed one after the other. -/
theorem inOrder_place (ss : List Segment) (hss : ∀ s ∈ ss, s.text ≠ []) :
    ∀ (p : Position) (gap : List Char),
      Lexeme.InOrder (TokenList.place p gap ss).finish.offset p.offset
        (TokenList.place p gap ss).lexemes := by
  induction ss with
  | nil =>
      intro p gap
      simp [TokenList.place, Lexeme.InOrder, Position.offset_after]
  | cons s ss ih =>
      intro p gap
      have htail := ih fun s' hs' => hss s' (List.mem_cons_of_mem s hs')
      rw [TokenList.place]
      cases s.token? with
      | none => exact htail p (gap ++ s.text)
      | some t =>
          refine ⟨?_, ?_, htail _ []⟩
          · rw [Position.offset_after]
            exact Nat.le_add_right _ _
          · have hpos : String.utf8Len s.text ≠ 0 :=
              mt String.utf8Len_eq_zero.mp (hss s (List.mem_cons_self ..))
            simp only [Position.offset_after]
            omega

/-- A token list ends where its text ends. -/
theorem finish_tokenize (text : String) : (tokenize text).finish.offset = text.utf8ByteSize := by
  rw [tokenize, finish_place, List.nil_append, flatten_segments, Position.offset_after,
    String.utf8Len_toList]
  exact Nat.zero_add _

/-- The tokens of a text stand in it one after the other. -/
theorem inOrder_tokenize (text : String) :
    Lexeme.InOrder text.utf8ByteSize 0 (tokenize text).lexemes := by
  have h := inOrder_place _ (text_ne_nil_of_mem_segments text.toList) .origin []
  rw [← finish_tokenize text]
  exact h

-- ── Cursors in order ─────────────────────────────────────────────────────────────

namespace Cursor

/-- Where the last token that was read ends. -/
def back (c : Cursor) : Nat :=
  match c.prev with
  | some l => l.span.stop
  | none => 0

/-- Where the next token starts, or the text ends. -/
def front (c : Cursor) : Nat := c.here.start.offset

/-- The text has `size` bytes, and the tokens ahead stand in it one after the other, behind what
    was read. -/
structure Ordered (size : Nat) (c : Cursor) : Prop where
  finish_eq : c.finish.offset = size
  inOrder : Lexeme.InOrder size c.back c.rest

/-- At the start of a text nothing has been read, and all tokens are ahead. -/
theorem ordered_start (text : String) :
    (Cursor.start (tokenize text)).Ordered text.utf8ByteSize :=
  ⟨finish_tokenize text, inOrder_tokenize text⟩

variable {size : Nat} {c c' : Cursor}

/-- One token further on, the tokens ahead are still in order. -/
theorem Ordered.bump (h : c.Ordered size) : c.bump.Ordered size := by
  cases hr : c.rest with
  | nil =>
      have hbump : c.bump = c := by simp [Cursor.bump, hr]
      rwa [hbump]
  | cons l ls =>
      have hin := h.inOrder
      rw [hr] at hin
      rw [bump_of_rest hr]
      exact ⟨h.finish_eq, hin.2.2⟩

theorem Ordered.back_le_bump (h : c.Ordered size) : c.back ≤ c.bump.back := by
  cases hr : c.rest with
  | nil => simp [Cursor.bump, hr]
  | cons l ls =>
      have hin := h.inOrder
      rw [hr] at hin
      rw [bump_of_rest hr]
      exact Nat.le_trans hin.1 (Nat.le_of_lt hin.2.1)

/-- Moving on keeps the order, and what was read only gets longer. -/
theorem Ordered.move (h : c.Ordered size) (hc : c.LeadsTo c') :
    c'.Ordered size ∧ c.back ≤ c'.back := by
  obtain ⟨n, rfl⟩ := hc
  induction n generalizing c with
  | zero => exact ⟨h, Nat.le_refl _⟩
  | succ n ih =>
      obtain ⟨hordered, hback⟩ := ih h.bump
      exact ⟨hordered, Nat.le_trans h.back_le_bump hback⟩

/-- Order is kept at every later place. -/
theorem Ordered.leadsTo (h : c.Ordered size) (hc : c.LeadsTo c') : c'.Ordered size :=
  (h.move hc).1

theorem Ordered.back_le (h : c.Ordered size) (hc : c.LeadsTo c') : c.back ≤ c'.back :=
  (h.move hc).2

theorem Ordered.back_le_size (h : c.Ordered size) : c.back ≤ size := h.inOrder.le

theorem Ordered.back_le_front (h : c.Ordered size) : c.back ≤ c.front := by
  have hin := h.inOrder
  unfold front here
  cases hr : c.rest with
  | nil =>
      rw [← h.finish_eq] at hin
      rw [hr] at hin
      exact hin
  | cons l ls =>
      rw [hr] at hin
      exact hin.1

/-- The next token is not empty, and ends within the text. -/
theorem Ordered.here_bounds (h : c.Ordered size) (hne : c.rest ≠ []) :
    c.front < c.here.stop ∧ c.here.stop ≤ size := by
  obtain ⟨l, ls, hr⟩ := List.exists_cons_of_ne_nil hne
  have hin := h.inOrder
  unfold front here
  rw [hr] at hin ⊢
  exact ⟨hin.2.1, hin.2.2.le⟩

theorem here_of_rest {l : Lexeme} {ls : List Lexeme} (h : c.rest = l :: ls) : c.here = l.span := by
  rw [here, h]

theorem here_of_rest_nil (hnil : c.rest = []) : c.here = .empty c.finish := by
  rw [here, hnil]

/-- The next span does not end before it starts, even at the end of the text. -/
theorem Ordered.front_le_stop (h : c.Ordered size) : c.front ≤ c.here.stop := by
  by_cases hnil : c.rest = []
  · rw [front, here_of_rest_nil hnil]
    exact Nat.le_refl _
  · exact Nat.le_of_lt (h.here_bounds hnil).1

theorem Ordered.stop_le_size (h : c.Ordered size) : c.here.stop ≤ size := by
  by_cases hnil : c.rest = []
  · rw [here_of_rest_nil hnil]
    exact Nat.le_of_eq h.finish_eq
  · exact (h.here_bounds hnil).2

/-- Behind the next token, what was read ends with it. -/
theorem back_bump (hne : c.rest ≠ []) : c.bump.back = c.here.stop := by
  obtain ⟨l, ls, hr⟩ := List.exists_cons_of_ne_nil hne
  rw [bump_of_rest hr]
  simp [back, here, hr]

/-- Where something has been read, something was ahead. -/
theorem rest_ne_nil_of_lt (h : c'.remaining < c.remaining) : c.rest ≠ [] := by
  intro hnil
  simp [remaining, hnil] at h

/-- A cursor that has moved has read the token that was next. -/
theorem Ordered.stop_le_back (h : c.Ordered size) (hc : c.LeadsTo c')
    (hlt : c'.remaining < c.remaining) : c.here.stop ≤ c'.back := by
  obtain ⟨n, rfl⟩ := hc
  cases n with
  | zero => exact absurd hlt (Nat.lt_irrefl _)
  | succ n =>
      rw [← back_bump (rest_ne_nil_of_lt hlt)]
      exact h.bump.back_le (leadsTo_advance n c.bump)

/-- The next token starts the later, the further a cursor has moved. -/
theorem Ordered.front_le (h : c.Ordered size) (hc : c.LeadsTo c') : c.front ≤ c'.front := by
  rcases Nat.lt_or_ge c'.remaining c.remaining with hlt | hge
  · calc c.front ≤ c.here.stop := h.front_le_stop
      _ ≤ c'.back := h.stop_le_back hc hlt
      _ ≤ c'.front := (h.leadsTo hc).back_le_front
  · rw [hc.eq_of_remaining (Nat.le_antisymm hc.remaining_le hge)]

-- ── Spans of what was read ───────────────────────────────────────────────────────

/-- A span that is taken further keeps its start. -/
theorem start_spanFrom (c : Cursor) (s : Span) : (c.spanFrom s).start = s.start := by
  unfold spanFrom
  split <;> rfl

theorem back_le_spanFrom (c : Cursor) (s : Span) : c.back ≤ (c.spanFrom s).stop := by
  cases hp : c.prev with
  | none => simp [back, hp]
  | some l => simp [back, spanFrom, hp, Span.through]

/-- A span of what was read from `c` to `c'`: it starts with the token behind `c`, and reaches no
    further than this token and what was read. -/
structure Marks (c c' : Cursor) (s : Span) : Prop where
  start_eq : s.start = c.here.start
  le_stop : c.front ≤ s.stop
  stop_le : s.stop ≤ max c.here.stop c'.back

theorem Ordered.marks_here (h : c.Ordered size) (c' : Cursor) : c.Marks c' c.here :=
  ⟨rfl, h.front_le_stop, Nat.le_max_left _ _⟩

theorem Ordered.marks_spanFrom (h : c.Ordered size) (c' : Cursor) :
    c.Marks c' (c'.spanFrom c.here) := by
  have hstop : c.here.start.offset ≤ c.here.stop := h.front_le_stop
  refine ⟨start_spanFrom c' c.here, ?_, ?_⟩
  · cases hp : c'.prev with
    | none => simpa [spanFrom, hp, front] using hstop
    | some l => simp [spanFrom, hp, Span.through, front]
  · cases hp : c'.prev with
    | none => simp [spanFrom, hp]
    | some l =>
        simp only [spanFrom, hp, Span.through, back]
        omega

/-- The span of something that was read ends where the last token read ends. -/
theorem Ordered.stop_spanFrom (h : c.Ordered size) (hc : c.LeadsTo c')
    (hlt : c'.remaining < c.remaining) : (c'.spanFrom c.here).stop = c'.back := by
  have hmarks := (h.marks_spanFrom c').stop_le
  have hstop := h.stop_le_back hc hlt
  exact Nat.le_antisymm (by omega) (back_le_spanFrom c' c.here)

/-- As soon as the token behind `c` is read, the span is within what was read. -/
theorem Marks.stop_le_back {s : Span} {c'' : Cursor} (hs : c.Marks c' s) (h : c.Ordered size)
    (hc : c.LeadsTo c') (hc' : c'.LeadsTo c'') (hlt : c''.remaining < c.remaining) :
    s.stop ≤ c''.back := by
  have hfirst := h.stop_le_back (hc.trans hc') hlt
  have hread := (h.leadsTo hc).back_le hc'
  have hle := hs.stop_le
  omega

end Cursor

end DeclAtlas

import DeclAtlas.Proofs.Placement
import DeclAtlas.Proofs.Spelling

/-!
# Two texts with a semicolon between them

What stands in front of a semicolon is cut into the same segments whatever follows it, provided that
the semicolon is a segment of its own and not part of a comment, a string or a template
(`segments_append_semicolon`).  And what follows it on a new line is cut as if nothing stood before;
only its place is another one (`tokenize_append_semicolon`).
-/

namespace DeclAtlas

-- ── Segments in front of a semicolon ─────────────────────────────────────────────

section Extents

variable (u rest : List Char)

/-- A run of characters among which there is no semicolon ends in front of it. -/
theorem takeWhile_semicolon {p : Char → Bool} (hp : p ';' = false) :
    (u ++ ';' :: rest).takeWhile p = u.takeWhile p := by
  induction u with
  | nil => simp [hp]
  | cons c u ih => cases hc : p c <;> simp [hc, ih]

/-- What is left behind such a run still has the semicolon in it. -/
theorem dropWhile_semicolon {p : Char → Bool} (hp : p ';' = false) :
    (u ++ ';' :: rest).dropWhile p = u.dropWhile p ++ ';' :: rest := by
  induction u with
  | nil => simp [hp]
  | cons c u ih => cases hc : p c <;> simp [hc, ih]

theorem numberExtent_semicolon : numberExtent (u ++ ';' :: rest) = numberExtent u := by
  have hpart : isNumberPart ';' = false := by decide
  simp only [numberExtent, takeWhile_semicolon _ _ hpart, dropWhile_semicolon _ _ hpart]
  generalize u.dropWhile isNumberPart = v
  rcases v with _ | ⟨c, v⟩
  · rfl
  · by_cases hc : c = '.'
    · subst hc
      simp only [List.cons_append, takeWhile_semicolon _ _ hpart]
    · simp [hc]

/-- A comment that ends before the semicolon ends there whatever follows. -/
theorem lineExtent_semicolon (h : lineExtent (u ++ [';']) ≤ u.length) :
    lineExtent (u ++ ';' :: rest) = lineExtent (u ++ [';']) := by
  unfold lineExtent at *
  induction u with
  | nil => simp at h
  | cons c u ih =>
      by_cases hc : c = '\n'
      · simp [hc]
      · simpa [hc] using ih (by simpa [hc] using h)

theorem blockExtent_semicolon (h : blockExtent (u ++ [';']) ≤ u.length) :
    blockExtent (u ++ ';' :: rest) = blockExtent (u ++ [';']) := by
  induction u with
  | nil => simp [blockExtent] at h
  | cons c u ih =>
      have hhead : (u ++ ';' :: rest).head? = (u ++ [';']).head? := by cases u <;> rfl
      simp only [List.cons_append, blockExtent, hhead] at h ⊢
      split
      · rfl
      · next hne =>
        rw [if_neg hne] at h
        rw [ih (by simpa using h)]

/-- A literal that ends before the semicolon ends there, and whether it was closed is known as well.
    -/
theorem scan_semicolon {q : Char} (hq : q ≠ ';')
    (h : (Quoted.scan q (u ++ [';'])).1 ≤ u.length) :
    Quoted.scan q (u ++ ';' :: rest) = Quoted.scan q (u ++ [';']) := by
  induction u using suffix_induction with
  | nil => simp [Quoted.scan, hq.symm] at h
  | cons c u ih =>
    by_cases hquote : c = q
    · -- the literal is closed here
      rw [hquote, List.cons_append, List.cons_append, Quoted.scan_quote, Quoted.scan_quote]
    by_cases hfeed : c = '\n'
    · -- the line ends, and with it the literal
      rw [List.cons_append, List.cons_append, Quoted.scan.eq_def, Quoted.scan.eq_def]
      simp [hfeed]
    by_cases hslash : c = '\\'
    · subst hslash
      have hpair (d : Char) (cs : List Char) : Quoted.scan q ('\\' :: d :: cs) =
          ((Quoted.scan q cs).1 + 2, (Quoted.scan q cs).2) := by
        simp [Quoted.scan, hquote]
      -- an escape takes the next character with it, which is not the semicolon
      rcases u with _ | ⟨d, u⟩
      · simp [hpair] at h
      · simp only [List.cons_append, hpair, List.length_cons] at h ⊢
        rw [ih u (List.suffix_cons d u) (by omega)]
    · rw [List.cons_append, Quoted.scan_cons hquote hfeed hslash] at h
      rw [List.cons_append, List.cons_append, Quoted.scan_cons hquote hfeed hslash,
        Quoted.scan_cons hquote hfeed hslash,
        ih u List.suffix_rfl (Nat.le_of_succ_le_succ h)]

/-- A template that is closed before the semicolon is closed there whatever follows. -/
theorem closing_semicolon (fs : List Template.Frame) {n : Nat}
    (h : Template.closing fs (u ++ [';']) = some n) (hn : n ≤ u.length) :
    Template.closing fs (u ++ ';' :: rest) = some n := by
  induction u generalizing fs n with
  | nil =>
      obtain rfl := Nat.le_zero.mp hn
      cases fs with
      | nil => rfl
      | cons f fs => simp [Template.closing] at h
  | cons c u ih =>
      cases fs with
      | nil => exact h
      | cons f fs =>
          have hhead : (u ++ ';' :: rest).head? = (u ++ [';']).head? := by cases u <;> rfl
          simp only [List.cons_append, Template.closing, hhead, Option.map_eq_some_iff] at h ⊢
          obtain ⟨k, hk, rfl⟩ := h
          exact ⟨k, ih _ hk (by simpa using hn), rfl⟩

theorem extent_semicolon (h : Template.extent (u ++ [';']) ≤ u.length) :
    Template.extent (u ++ ';' :: rest) = Template.extent (u ++ [';']) := by
  unfold Template.extent at h ⊢
  cases hclosing : Template.closing [.body] (u ++ [';']) with
  | none =>
      simp only [hclosing, Option.getD_none, List.length_append, List.length_singleton] at h
      omega
  | some n =>
      rw [hclosing] at h
      rw [closing_semicolon u rest _ hclosing h]
      rfl

/-- What begins with a slash, if it ends before the semicolon. -/
theorem frontSlash_semicolon (h : (frontSlash (u ++ [';'])).2 ≤ u.length) :
    frontSlash (u ++ ';' :: rest) = frontSlash (u ++ [';']) := by
  rcases u with _ | ⟨c, u⟩
  · rfl
  by_cases hline : c = '/'
  · subst hline
    simp only [List.cons_append, frontSlash, List.length_cons, Nat.add_le_add_iff_right] at h ⊢
    rw [lineExtent_semicolon u rest h]
  by_cases hblock : c = '*'
  · subst hblock
    simp only [List.cons_append, frontSlash, List.length_cons, Nat.add_le_add_iff_right] at h ⊢
    rw [blockExtent_semicolon u rest h]
  · simp [frontSlash, hline, hblock]

/-- What begins with a number sign, if it ends before the semicolon. -/
theorem frontHash_semicolon (h : (frontHash (u ++ [';'])).2 ≤ u.length) :
    frontHash (u ++ ';' :: rest) = frontHash (u ++ [';']) := by
  rcases u with _ | ⟨c, u⟩
  · simp [frontHash, show isWordStart ';' = false by decide]
  by_cases hline : c = '!'
  · subst hline
    simp only [List.cons_append, frontHash, List.length_cons, Nat.add_le_add_iff_right] at h ⊢
    rw [lineExtent_semicolon u rest h]
  · have hpart : isWordPart ';' = false := by decide
    simp [frontHash, takeWhile_semicolon _ _ hpart]

/-- What begins with a point always ends before it. -/
theorem frontDot_semicolon : frontDot (u ++ ';' :: rest) = frontDot (u ++ [';']) := by
  have hpart : isNumberPart ';' = false := by decide
  rcases u with _ | ⟨c, _ | ⟨d, u⟩⟩
  · simp [frontDot, show Char.isDigit ';' = false by decide]
  · simp [frontDot, hpart]
  · by_cases hellipsis : c = '.' ∧ d = '.'
    · obtain ⟨rfl, rfl⟩ := hellipsis
      rfl
    · have hfront (cs : List Char) : frontDot (c :: d :: cs) =
          if c.isDigit then (.plain .number, ((d :: cs).takeWhile isNumberPart).length + 1)
          else (.plain .dot, 0) := by
        unfold frontDot
        split <;> simp_all
      rw [List.cons_append, List.cons_append, List.cons_append, List.cons_append, hfront, hfront,
        ← List.cons_append, ← List.cons_append, takeWhile_semicolon _ _ hpart,
        takeWhile_semicolon _ _ hpart]

theorem frontEquals_semicolon : frontEquals (u ++ ';' :: rest) = frontEquals (u ++ [';']) := by
  rcases u with _ | ⟨c, u⟩
  · rfl
  · by_cases harrow : c = '>' <;> simp [frontEquals, harrow]

/-- Two alternatives are the same if those are that reach no further than `n`. -/
theorem ite_eq_of_le {α : Type} {P : Prop} [Decidable P] {x x' y y' : α × Nat} {n : Nat}
    (hx : P → x.2 ≤ n → x' = x) (hy : y.2 ≤ n → y' = y) (h : (if P then x else y).2 ≤ n) :
    (if P then x' else y') = if P then x else y := by
  by_cases hP : P
  · rw [if_pos hP] at h
    rw [if_pos hP, if_pos hP, hx hP h]
  · rw [if_neg hP] at h
    rw [if_neg hP, if_neg hP, hy h]

/-- What stands at the front of a text, and ends before a semicolon, does so whatever follows. -/
theorem front_semicolon (c : Char) (h : (front c (u ++ [';'])).2 ≤ u.length) :
    front c (u ++ ';' :: rest) = front c (u ++ [';']) := by
  unfold front at h ⊢
  revert h
  refine ite_eq_of_le (fun _ _ => ?_) (ite_eq_of_le (fun _ _ => ?_) (ite_eq_of_le (fun _ _ => ?_)
    (ite_eq_of_le (fun _ => frontSlash_semicolon u rest) (ite_eq_of_le
      (fun _ => frontHash_semicolon u rest) (ite_eq_of_le (fun _ _ => frontDot_semicolon u rest)
        (ite_eq_of_le (fun _ _ => frontEquals_semicolon u rest) (ite_eq_of_le (fun hquote h => ?_)
          (ite_eq_of_le (fun _ h => ?_) fun _ => rfl))))))))
  · rw [takeWhile_semicolon _ _ (by decide), takeWhile_semicolon _ _ (by decide)]
  · rw [takeWhile_semicolon _ _ (by decide), takeWhile_semicolon _ _ (by decide)]
  · rw [numberExtent_semicolon, numberExtent_semicolon]
  · have hc : c ≠ ';' := by rcases hquote with rfl | rfl <;> decide
    rw [frontQuote, frontQuote, scan_semicolon u rest hc h]
  · rw [extent_semicolon u rest h]

end Extents

/-- The first segment of a text is what stands at its front. -/
theorem segments_cons (c : Char) (cs : List Char) :
    segments (c :: cs) = ⟨(front c cs).1, c :: cs.take (front c cs).2⟩ ::
      segments (cs.drop (front c cs).2) := by
  rw [segments]

/-- The semicolon as a segment. -/
def Segment.semicolon : Segment := ⟨.plain .semicolon, [';']⟩

/-- A semicolon at the front of a text is a segment of its own. -/
theorem segments_semicolon (rest : List Char) :
    segments (';' :: rest) = .semicolon :: segments rest := by
  have hfront : front ';' rest = (.plain .semicolon, 0) := by
    simp [front, show isBlank ';' = false by decide, show isWordStart ';' = false by decide,
      show Char.isDigit ';' = false by decide, loneToken]
  rw [segments_cons, hfront]
  rfl

/-- Behind a semicolon that is a segment of its own anything may follow. -/
theorem segments_append_semicolon {u : List Char} {ss : List Segment}
    (h : segments (u ++ [';']) = ss ++ [.semicolon]) (rest : List Char) :
    segments (u ++ ';' :: rest) = ss ++ .semicolon :: segments rest := by
  induction u using suffix_induction generalizing ss with
  | nil =>
    rw [List.nil_append, segments_semicolon, segments] at h
    obtain rfl : ss = [] := by
      have := congrArg List.length h
      simpa using this.symm
    exact segments_semicolon rest
  | cons c u ih =>
    rcases ss with _ | ⟨s, ss⟩
    · -- more than a semicolon is not cut into one
      have htext := flatten_segments (c :: u ++ [';'])
      rw [h] at htext
      simpa [Segment.semicolon] using congrArg List.length htext
    rw [List.cons_append, segments_cons] at h
    obtain ⟨rfl, htail⟩ := List.cons.inj h
    have hle : (front c (u ++ [';'])).2 ≤ u.length := by
      refine Nat.le_of_not_lt fun hlt => ?_
      rw [List.drop_eq_nil_of_le (by rw [List.length_append]; exact hlt), segments] at htail
      exact List.append_ne_nil_of_right_ne_nil ss (List.cons_ne_nil _ _) htail.symm
    rw [List.drop_append_of_le_length hle] at htail
    rw [List.cons_append, segments_cons, front_semicolon u rest c hle,
      List.drop_append_of_le_length hle, List.take_append_of_le_length hle,
      List.take_append_of_le_length hle,
      ih _ (List.drop_suffix _ u) htail]
    rfl

/-- Blanks at the front of a text are part of the gap before its first token. -/
theorem place_blanks (p : Position) (gap cs : List Char) :
    TokenList.place p gap (segments cs) =
      TokenList.place p (gap ++ cs.takeWhile isBlank) (segments (cs.dropWhile isBlank)) := by
  cases cs with
  | nil => simp
  | cons c cs =>
      by_cases hc : isBlank c = true
      · rw [segments_blanks hc, List.takeWhile_cons_of_pos hc, List.dropWhile_cons_of_pos hc]
        rfl
      · simp [hc]

/-- A blank at the front of a text is part of the gap before its first token. -/
theorem place_blank {c : Char} (hc : isBlank c = true) (p : Position) (gap cs : List Char) :
    TokenList.place p gap (segments (c :: cs)) = TokenList.place p (gap ++ [c]) (segments cs) := by
  rw [place_blanks p gap (c :: cs), place_blanks p (gap ++ [c]) cs, List.takeWhile_cons_of_pos hc,
    List.dropWhile_cons_of_pos hc, List.append_assoc]
  rfl

-- ── Places ───────────────────────────────────────────────────────────────────────

/-- The place `p` of a text that stands behind so many bytes and lines. -/
def Position.shift (bytes lines : Nat) (p : Position) : Position :=
  ⟨bytes + p.offset, lines + p.line, p.column⟩

/-- The span of such a text. -/
def Span.shift (bytes lines : Nat) (s : Span) : Span := ⟨s.start.shift bytes lines, bytes + s.stop⟩

section Shift

variable (bytes lines : Nat)

/-- Walking over characters goes as far from any place. -/
theorem Position.after_shift (p : Position) (cs : List Char) :
    (p.shift bytes lines).after cs = (p.after cs).shift bytes lines := by
  have hnext (p : Position) (c : Char) :
      (p.shift bytes lines).next c = (p.next c).shift bytes lines := by
    unfold Position.next Position.shift
    split <;> simp only [Nat.add_assoc]
  induction cs generalizing p with
  | nil => rfl
  | cons c cs ih => rw [Position.after_cons, Position.after_cons, hnext, ih]

/-- Spans are joined alike everywhere. -/
theorem Span.through_shift (s l : Span) :
    (s.through l).shift bytes lines = (s.shift bytes lines).through (l.shift bytes lines) := by
  unfold Span.through Span.shift Position.shift
  simp only [Span.mk.injEq, true_and]
  omega

end Shift

theorem Position.line_after (p : Position) (cs : List Char) :
    (p.after cs).line = p.line + cs.count '\n' := by
  induction cs generalizing p with
  | nil => rfl
  | cons c cs ih =>
      rw [Position.after_cons, ih, Position.next, List.count_cons]
      by_cases hc : c = '\n'
      · simp [hc]
        omega
      · simp [hc]

/-- Behind a line feed a text is placed as at its start, but for bytes and lines. -/
theorem Position.after_lineFeed (cs : List Char) :
    Position.origin.after (cs ++ ['\n']) =
      Position.origin.shift (String.utf8Len (cs ++ ['\n'])) ((cs ++ ['\n']).count '\n') := by
  have hoffset := Position.offset_after .origin (cs ++ ['\n'])
  have hline := Position.line_after .origin (cs ++ ['\n'])
  have hcolumn : (Position.origin.after (cs ++ ['\n'])).column = 1 := by
    rw [Position.after_append]
    rfl
  generalize Position.origin.after (cs ++ ['\n']) = p at hoffset hline hcolumn
  obtain ⟨offset, line, column⟩ := p
  simp only [Position.origin, Position.shift, Position.mk.injEq] at *
  omega

namespace Lexeme

/-- The token of a text that stands behind so many bytes and lines. -/
def shift (bytes lines : Nat) (l : Lexeme) : Lexeme := { l with span := l.span.shift bytes lines }

/-- The tokens, with more in front of the first. -/
def after (gap : List Char) : List Lexeme → List Lexeme
  | [] => []
  | l :: ls => { l with gap := gap ++ l.gap } :: ls

end Lexeme

namespace TokenList

/-- Tokens that are placed further on differ in their spans only. -/
theorem place_shift (bytes lines : Nat) (p : Position) (gap : List Char) (ss : List Segment) :
    (place (p.shift bytes lines) gap ss).lexemes =
        (place p gap ss).lexemes.map (Lexeme.shift bytes lines) ∧
      (place (p.shift bytes lines) gap ss).finish = (place p gap ss).finish.shift bytes lines := by
  induction ss generalizing p gap with
  | nil => exact ⟨rfl, Position.after_shift bytes lines p gap⟩
  | cons s ss ih =>
      simp only [place]
      cases s.token? with
      | none => exact ih p (gap ++ s.text)
      | some t =>
          simp only [Position.after_shift, List.map_cons, (ih _ []).1, (ih _ []).2, and_true]
          rfl

/-- A longer gap in front of the first token changes nothing but that gap and where it starts. -/
theorem place_after (p : Position) (front gap : List Char) (ss : List Segment) :
    (place p (front ++ gap) ss).lexemes = Lexeme.after front (place (p.after front) gap ss).lexemes ∧
      (place p (front ++ gap) ss).finish = (place (p.after front) gap ss).finish := by
  induction ss generalizing gap with
  | nil => exact ⟨rfl, Position.after_append p front gap⟩
  | cons s ss ih =>
      simp only [place, ← Position.after_append]
      cases s.token? with
      | none =>
          simp only [List.append_assoc]
          exact ih (gap ++ s.text)
      | some t => exact ⟨rfl, rfl⟩

/-- A token ends what is placed before it. -/
theorem place_append {s : Segment} {t : Token} (hs : s.token? = some t) (ss ss' : List Segment)
    (p : Position) (gap : List Char) :
    place p gap (ss ++ s :: ss') =
      let front := place p gap (ss ++ [s])
      let rest := place front.finish [] ss'
      { rest with lexemes := front.lexemes ++ rest.lexemes } := by
  induction ss generalizing p gap with
  | nil => simp [place, hs]
  | cons s' ss ih =>
      simp only [List.cons_append, place]
      cases s'.token? with
      | none => exact ih p (gap ++ s'.text)
      | some t' =>
          simp only [ih]
          rfl

end TokenList

/-- **A text behind a semicolon.**  Where the semicolon is a segment of its own, the tokens in front
    of it are what they are without the rest, and behind it those of the second text, at other
    places and with a line break before the first. -/
theorem tokenize_append_semicolon {u t : String} {ss : List Segment}
    (h : segments (u ++ ";").toList = ss ++ [.semicolon]) :
    let bytes := (u ++ ";\n").utf8ByteSize
    let lines := (u ++ ";\n").toList.count '\n'
    (tokenize (u ++ ";\n" ++ t)).lexemes = (tokenize (u ++ ";")).lexemes ++
        Lexeme.after ['\n'] ((tokenize t).lexemes.map (Lexeme.shift bytes lines)) ∧
      (tokenize (u ++ ";\n" ++ t)).finish = (tokenize t).finish.shift bytes lines := by
  intro bytes lines
  have htext : (u ++ ";\n" ++ t).toList = u.toList ++ ';' :: '\n' :: t.toList := by simp
  have hfront : (u ++ ";").toList = u.toList ++ [';'] := by simp
  have hprefix : (u ++ ";\n").toList = u.toList ++ [';'] ++ ['\n'] := by simp
  rw [hfront] at h
  have hstart : (TokenList.place .origin [] (ss ++ [.semicolon])).finish.after ['\n'] =
      Position.origin.shift bytes lines := by
    rw [← h, finish_place, flatten_segments, List.nil_append, ← Position.after_append,
      Position.after_lineFeed, ← hprefix, String.utf8Len_toList]
  have hrest := TokenList.place_after (TokenList.place .origin [] (ss ++ [.semicolon])).finish
    ['\n'] [] (segments t.toList)
  have hmoved := TokenList.place_shift bytes lines .origin [] (segments t.toList)
  rw [hstart, List.append_nil] at hrest
  have htokens : tokenize (u ++ ";") = TokenList.place .origin [] (ss ++ [.semicolon]) := by
    rw [tokenize, hfront, h]
  rw [tokenize, htext, segments_append_semicolon h, TokenList.place_append (s := .semicolon) rfl,
    htokens]
  dsimp only
  rw [place_blank (by decide), List.nil_append, hrest.1, hrest.2, hmoved.1, hmoved.2]
  exact ⟨rfl, rfl⟩

end DeclAtlas

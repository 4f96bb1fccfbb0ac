import DeclAtlas.Syntax.Cursor

/-!
# How a written text is read

A parser sees of a token its value and whether it stands first on a line: that is its mark.  Where a
text is cut out, it also sees how the token is spelled and what stands before it, which together is
its cut.  The cuts of a text are found from its front: `cutsOf` gives those of a text, and there is
one equation for each piece that a printer puts down, a word, a sign that stands alone, a string
between quotes or a blank.  Each equation says what the piece is read as, whatever follows; only a
word has to be followed by something that does not go on with it (`EndsWord`).

Strings are written between quotes by `Quoted.encode`, which `Quoted.decode` reads back.
-/

namespace DeclAtlas

-- ── Marks and cuts ───────────────────────────────────────────────────────────────

/-- A token, and whether it stands first on its line. -/
abbrev Mark := Token × Bool

def Lexeme.mark (l : Lexeme) : Mark := (l.token, l.newlineBefore)

/-- A token, what stands before it, and its text. -/
abbrev Cut := Token × List Char × List Char

def Lexeme.cut (l : Lexeme) : Cut := (l.token, l.gap, l.text)

def Cut.mark (x : Cut) : Mark := (x.1, x.2.1.contains '\n')

/-- The cuts of segments behind a gap. -/
def Segment.cuts (gap : List Char) : List Segment → List Cut
  | [] => []
  | s :: ss =>
    match s.token? with
    | none => cuts (gap ++ s.text) ss
    | some t => (t, gap, s.text) :: cuts [] ss

/-- Placing segments gives the cuts of their tokens. -/
theorem map_cut_place (ss : List Segment) :
    ∀ (p : Position) (gap : List Char),
      (TokenList.place p gap ss).lexemes.map Lexeme.cut = Segment.cuts gap ss := by
  induction ss with
  | nil => intro p gap; rfl
  | cons s ss ih =>
      intro p gap
      rw [TokenList.place, Segment.cuts]
      cases s.token? with
      | none => exact ih _ _
      | some t => simp [ih, Lexeme.cut]

/-- The cuts of a text behind a gap. -/
def cutsOf (gap : List Char) (cs : List Char) : List Cut := Segment.cuts gap (segments cs)

/-- The tokens of a text are its cuts, each at its place. -/
theorem map_cut_tokenize (text : String) :
    (tokenize text).lexemes.map Lexeme.cut = cutsOf [] text.toList :=
  map_cut_place _ .origin []

/-- There are no cuts in an empty text, whatever gap is pending. -/
@[simp] theorem cutsOf_nil (gap : List Char) : cutsOf gap [] = [] := by
  rw [cutsOf, segments]
  rfl

/-- What stands at the front of a text, and the cuts of the rest. -/
theorem cutsOf_front {c : Char} (own rest : List Char) {shape : Shape} (gap : List Char)
    (h : front c (own ++ rest) = (shape, own.length)) :
    cutsOf gap (c :: (own ++ rest)) =
      match shape.token? (c :: own) with
      | none => cutsOf (gap ++ c :: own) rest
      | some t => (t, gap, c :: own) :: cutsOf [] rest := by
  rw [cutsOf, segments, h]
  simp only [List.take_left, List.drop_left]
  rfl

-- ── Blanks, words and signs ──────────────────────────────────────────────────────

/-- Blanks at the front of a text are one segment. -/
theorem segments_blanks {c : Char} (hc : isBlank c = true) (cs : List Char) :
    segments (c :: cs) =
      ⟨.gap, c :: cs.takeWhile isBlank⟩ :: segments (cs.dropWhile isBlank) := by
  have hfront : front c cs = (.gap, (cs.takeWhile isBlank).length) := by rw [front, if_pos hc]
  have hcut : cs = cs.takeWhile isBlank ++ cs.dropWhile isBlank :=
    List.takeWhile_append_dropWhile.symm
  rw [segments, hfront]
  generalize cs.takeWhile isBlank = blanks, cs.dropWhile isBlank = others at hcut ⊢
  simp only [hcut, List.take_left, List.drop_left]

/-- Blanks are added to the pending gap. -/
theorem cutsOf_blanks (gap cs : List Char) :
    cutsOf gap cs = cutsOf (gap ++ cs.takeWhile isBlank) (cs.dropWhile isBlank) := by
  cases cs with
  | nil => simp
  | cons c cs =>
      by_cases hc : isBlank c = true
      · rw [cutsOf, segments_blanks hc, List.takeWhile_cons_of_pos hc,
          List.dropWhile_cons_of_pos hc]
        rfl
      · simp [hc]

/-- A blank only widens the gap. -/
theorem cutsOf_blank {c : Char} (hc : isBlank c = true) (gap rest : List Char) :
    cutsOf gap (c :: rest) = cutsOf (gap ++ [c]) rest := by
  rw [cutsOf_blanks gap (c :: rest), cutsOf_blanks (gap ++ [c]) rest,
    List.takeWhile_cons_of_pos hc, List.dropWhile_cons_of_pos hc, List.append_assoc]
  rfl

/-- A text that does not go on with a word. -/
def EndsWord (cs : List Char) : Prop := cs.takeWhile isWordPart = []

/-- The text is a word. -/
def isIdentifier (w : String) : Bool :=
  match w.toList with
  | [] => false
  | c :: cs => isWordStart c && cs.all isWordPart

theorem not_isBlank_of_isWordStart {c : Char} (h : isWordStart c = true) : isBlank c = false := by
  rw [Bool.eq_false_iff]
  intro hblank
  simp only [isBlank, Bool.or_eq_true, decide_eq_true_eq] at hblank
  rcases hblank with (((((rfl | rfl) | rfl) | rfl) | rfl) | rfl) | rfl <;>
    exact absurd h (by decide)

theorem not_isDigit_of_isWordStart {c : Char} (h : isWordStart c = true) : c.isDigit = false := by
  rw [Bool.eq_false_iff]
  intro hdigit
  simp only [isWordStart, Bool.or_eq_true, decide_eq_true_eq] at h
  rcases h with (h | rfl) | rfl
  · have hletter : c.isAlpha = (decide (65 ≤ c.val ∧ c.val ≤ 90) ||
        decide (97 ≤ c.val) && decide (c.val ≤ 122)) := rfl
    have hdecimal : c.isDigit = (decide (48 ≤ c.val) && decide (c.val ≤ 57)) := rfl
    rw [hletter] at h
    rw [hdecimal] at hdigit
    simp only [Bool.or_eq_true, Bool.and_eq_true, decide_eq_true_eq, UInt32.le_iff_toNat_le,
      UInt32.reduceToNat] at h hdigit
    omega
  · exact absurd hdigit (by decide)
  · exact absurd hdigit (by decide)

/-- A word is cut off in front of what does not go on with it. -/
theorem cutsOf_word {w : String} (hw : isIdentifier w = true) (gap : List Char) {rest : List Char}
    (hrest : EndsWord rest) :
    cutsOf gap (w.toList ++ rest) = (.word w, gap, w.toList) :: cutsOf [] rest := by
  unfold isIdentifier at hw
  cases h : w.toList with
  | nil => simp [h] at hw
  | cons c cs =>
      simp only [h, Bool.and_eq_true, List.all_eq_true] at hw
      have hfront : front c (cs ++ rest) = (.word, cs.length) := by
        rw [front, if_neg (by simp [not_isBlank_of_isWordStart hw.1]), if_pos hw.1,
          List.takeWhile_append_of_pos hw.2, hrest, List.append_nil]
      rw [List.cons_append, cutsOf_front cs rest gap hfront]
      simp [Shape.token?, ← h]

/-- The text is a word behind a `#`. -/
def isPrivateName (w : String) : Bool :=
  match w.toList with
  | '#' :: c :: cs => isWordStart c && cs.all isWordPart
  | _ => false

theorem cutsOf_privateName {w : String} (hw : isPrivateName w = true) (gap : List Char)
    {rest : List Char} (hrest : EndsWord rest) :
    cutsOf gap (w.toList ++ rest) = (.privateName w, gap, w.toList) :: cutsOf [] rest := by
  unfold isPrivateName at hw
  split at hw
  · next c cs h =>
    simp only [Bool.and_eq_true, List.all_eq_true] at hw
    have hbang : c ≠ '!' := by
      rintro rfl
      exact absurd hw.1 (by decide)
    have hfront : front '#' ((c :: cs) ++ rest) = (.privateName, (c :: cs).length) := by
      show frontHash (c :: (cs ++ rest)) = _
      rw [frontHash.eq_2 _ _ (by simpa using hbang), if_pos hw.1,
        List.takeWhile_append_of_pos hw.2, hrest, List.append_nil]
      rfl
    rw [h, List.cons_append, cutsOf_front (c :: cs) rest gap hfront]
    simp [Shape.token?, ← h]
  · exact nomatch hw

/-- Signs that are tokens by themselves, whatever follows. -/
def signs : List Char :=
  ['\x7b', '\x7d', '(', ')', '[', ']', '<', '>', ',', ';', ':', '?', '*', '&', '|']

/-- A sign stands alone, whatever follows it. -/
theorem front_of_mem_signs {c : Char} (hc : c ∈ signs) (cs : List Char) :
    front c cs = (.plain (loneToken c), 0) := by
  revert hc
  revert c
  simp only [signs, List.forall_mem_cons]
  exact ⟨rfl, rfl, rfl, rfl, rfl, rfl, rfl, rfl, rfl, rfl, rfl, rfl, rfl, rfl, rfl, by simp⟩

theorem cutsOf_sign {c : Char} (hc : c ∈ signs) (gap rest : List Char) :
    cutsOf gap (c :: rest) = (loneToken c, gap, [c]) :: cutsOf [] rest :=
  cutsOf_front [] rest gap (front_of_mem_signs hc rest)

theorem cutsOf_arrow (gap rest : List Char) :
    cutsOf gap ('=' :: '>' :: rest) = (.arrow, gap, ['=', '>']) :: cutsOf [] rest :=
  cutsOf_front (c := '=') ['>'] rest gap rfl

/-- An equals sign in front of a space stands alone. -/
theorem cutsOf_equals (gap rest : List Char) :
    cutsOf gap ('=' :: ' ' :: rest) = (.equals, gap, ['=']) :: cutsOf [] (' ' :: rest) :=
  cutsOf_front (c := '=') [] (' ' :: rest) gap rfl

/-- A point in front of a word stands alone. -/
theorem cutsOf_dot {w : String} (hw : isIdentifier w = true) (gap rest : List Char) :
    cutsOf gap ('.' :: (w.toList ++ rest)) =
      (.dot, gap, ['.']) :: cutsOf [] (w.toList ++ rest) := by
  unfold isIdentifier at hw
  cases h : w.toList with
  | nil => simp [h] at hw
  | cons c cs =>
      simp only [h, Bool.and_eq_true] at hw
      have hpoint : c ≠ '.' := by
        rintro rfl
        exact absurd hw.1 (by decide)
      have hfront : front '.' (c :: (cs ++ rest)) = (.plain .dot, 0) := by
        show frontDot (c :: (cs ++ rest)) = _
        simp [frontDot, hpoint, not_isDigit_of_isWordStart hw.1]
      exact cutsOf_front [] (c :: (cs ++ rest)) gap hfront

-- ── Strings between quotes ───────────────────────────────────────────────────────

/-- The two signs that a string may be written between. -/
inductive Quote
  | single
  | double
deriving DecidableEq, Repr

def Quote.char : Quote → Char
  | single => '\''
  | double => '"'

namespace Quoted

/-- How one character of a string is written between quotes: backslashes, the quote and line feeds
    are escaped. -/
def encodeChar (q : Quote) (c : Char) : List Char :=
  if c = '\n' then ['\\', 'n']
  else if c = '\\' ∨ c = q.char then ['\\', c]
  else [c]

/-- How a string is written between quotes. -/
def encode (q : Quote) (cs : List Char) : List Char := cs.flatMap (encodeChar q)

/-- A backslash in front of a quote or a backslash stands for that character. -/
theorem escaped_of_special {q : Quote} {c : Char} (h : c = '\\' ∨ c = q.char) :
    escaped c = [c] := by
  rcases h with rfl | rfl
  · rfl
  · cases q <;> rfl

/-- A character that is no backslash stands for itself. -/
theorem decode_cons {c : Char} (h : c ≠ '\\') (rest : List Char) :
    decode (c :: rest) = c :: decode rest := by
  cases rest <;> simp [decode, h]

/-- A literal is closed by its quote. -/
theorem scan_quote (q : Char) (rest : List Char) : scan q (q :: rest) = (1, true) := by
  cases rest <;> simp [scan]

/-- Any character but a quote, a line feed and a backslash is passed. -/
theorem scan_cons {q c : Char} (hquote : c ≠ q) (hfeed : c ≠ '\n') (hslash : c ≠ '\\')
    (rest : List Char) : scan q (c :: rest) = ((scan q rest).1 + 1, (scan q rest).2) := by
  cases rest <;> simp [scan, hquote, hfeed, hslash]

/-- A character that was escaped where it must be stands for itself again. -/
theorem decode_encodeChar (q : Quote) (c : Char) (rest : List Char) :
    decode (encodeChar q c ++ rest) = c :: decode rest := by
  rw [encodeChar]
  split
  · next hfeed => simp [hfeed, decode, escaped]
  · split
    · next hspecial => simp [decode, escaped_of_special hspecial]
    · next hspecial =>
      exact decode_cons (fun h => hspecial (Or.inl h)) rest

/-- Decoding gives back what was encoded. -/
theorem decode_encode (q : Quote) (cs : List Char) : decode (encode q cs) = cs := by
  induction cs with
  | nil => rfl
  | cons c cs ih =>
      rw [encode, List.flatMap_cons, decode_encodeChar]
      exact congrArg (c :: ·) ih

theorem scan_encodeChar (q : Quote) (c : Char) (rest : List Char) :
    scan q.char (encodeChar q c ++ rest) =
      ((scan q.char rest).1 + (encodeChar q c).length, (scan q.char rest).2) := by
  have hslash : '\\' ≠ q.char := by cases q <;> decide
  rw [encodeChar]
  split
  · simp [scan, hslash]
  · next hfeed =>
    split
    · simp [scan, hslash]
    · next hspecial =>
      exact scan_cons (fun h => hspecial (Or.inr h)) hfeed (fun h => hspecial (Or.inl h)) rest

/-- The end of an encoded string is found at its closing quote. -/
theorem scan_encode (q : Quote) (cs rest : List Char) :
    scan q.char (encode q cs ++ q.char :: rest) = ((encode q cs).length + 1, true) := by
  induction cs with
  | nil => exact scan_quote q.char rest
  | cons c cs ih =>
      unfold encode at ih ⊢
      rw [List.flatMap_cons, List.append_assoc, scan_encodeChar, ih]
      simp only [List.length_append]
      congr 1
      omega

end Quoted

/-- A string between quotes. -/
def quoted (q : Quote) (s : String) : List Char :=
  q.char :: (Quoted.encode q s.toList ++ [q.char])

/-- A text between quotes is cut off with its value, whatever follows the quote. -/
theorem cutsOf_quoted (q : Quote) (s : String) (gap rest : List Char) :
    cutsOf gap (quoted q s ++ rest) = (.string s, gap, quoted q s) :: cutsOf [] rest := by
  have hfront : front q.char ((Quoted.encode q s.toList ++ [q.char]) ++ rest) =
      (.quoted, (Quoted.encode q s.toList ++ [q.char]).length) := by
    have hquote : ∀ cs, front q.char cs = frontQuote q.char cs := by
      intro cs
      cases q <;> rfl
    rw [hquote, frontQuote, List.append_assoc, List.singleton_append, Quoted.scan_encode]
    simp
  rw [quoted, List.cons_append, cutsOf_front _ rest gap hfront]
  simp [Shape.token?, Quoted.decode_encode]

-- ── Pieces ───────────────────────────────────────────────────────────────────────

/-- What a printer puts down. -/
inductive Piece
  | word (text : String)
  | privateName (text : String)
  | string (value : String)
  /-- A sign that is a token by itself. -/
  | sign (c : Char)
  | dot
  | arrow
  | equals
  | space
  | lineFeed
deriving DecidableEq, Repr

namespace Piece

def text (q : Quote) : Piece → List Char
  | word w | privateName w => w.toList
  | string s => quoted q s
  | sign c => [c]
  | dot => ['.']
  | arrow => ['=', '>']
  | equals => ['=']
  | space => [' ']
  | lineFeed => ['\n']

/-- The text of pieces one after the other. -/
def print (q : Quote) (ps : List Piece) : List Char := ps.flatMap (text q)

theorem print_cons (q : Quote) (p : Piece) (ps : List Piece) :
    print q (p :: ps) = p.text q ++ print q ps :=
  List.flatMap_cons

/-- Pieces are printed one after the other. -/
theorem print_append (q : Quote) (ps ps' : List Piece) :
    print q (ps ++ ps') = print q ps ++ print q ps' :=
  List.flatMap_append

/-- The marks that pieces are put down for; `fresh` says that a line break stands before them. -/
def marks (fresh : Bool) : List Piece → List Mark
  | [] => []
  | word w :: ps => (.word w, fresh) :: marks false ps
  | privateName w :: ps => (.privateName w, fresh) :: marks false ps
  | string s :: ps => (.string s, fresh) :: marks false ps
  | sign c :: ps => (loneToken c, fresh) :: marks false ps
  | dot :: ps => (.dot, fresh) :: marks false ps
  | arrow :: ps => (.arrow, fresh) :: marks false ps
  | equals :: ps => (.equals, fresh) :: marks false ps
  | space :: ps => marks fresh ps
  | lineFeed :: ps => marks true ps

/-- The token that a piece is put down for. -/
def token? : Piece → Option Token
  | word w => some (.word w)
  | privateName w => some (.privateName w)
  | string s => some (.string s)
  | sign c => some (loneToken c)
  | dot => some .dot
  | arrow => some .arrow
  | equals => some .equals
  | space | lineFeed => none

def tokens (ps : List Piece) : List Token := ps.filterMap token?

@[simp] theorem tokens_nil : tokens [] = [] := rfl

@[simp] theorem tokens_append (ps ps' : List Piece) :
    tokens (ps ++ ps') = tokens ps ++ tokens ps' :=
  List.filterMap_append

/-- A piece stands for one token or for none. -/
@[simp] theorem tokens_cons (p : Piece) (ps : List Piece) :
    tokens (p :: ps) = p.token?.toList ++ tokens ps := by
  cases h : p.token? <;> simp [tokens, h]

/-- The marks are the tokens, with what is known of line breaks. -/
theorem map_fst_marks (fresh : Bool) (ps : List Piece) :
    (marks fresh ps).map Prod.fst = tokens ps := by
  induction ps generalizing fresh with
  | nil => rfl
  | cons p ps ih => cases p <;> simp [marks, token?, ih]

/-- There is one mark for each token. -/
theorem length_marks (fresh : Bool) (ps : List Piece) :
    (marks fresh ps).length = (tokens ps).length := by
  rw [← map_fst_marks fresh, List.length_map]

/-- Behind a token, the marks of pieces are those of what follows it on its line. -/
theorem drop_marks (fresh : Bool) (ps : List Piece) {p : Piece} (hp : p.token? ≠ none)
    (ps' : List Piece) :
    (marks fresh (ps ++ p :: ps')).drop ((tokens ps).length + 1) = marks false ps' := by
  induction ps generalizing fresh with
  | nil => cases p <;> first | rfl | exact absurd rfl hp
  | cons p' ps ih => cases p' <;> simp [marks, token?, ih]

/-- The cuts that pieces are put down for, behind a gap. -/
def cuts (q : Quote) (gap : List Char) : List Piece → List Cut
  | [] => []
  | p :: ps =>
    match p.token? with
    | some t => (t, gap, p.text q) :: cuts q [] ps
    | none => cuts q (gap ++ p.text q) ps

/-- The marks of the cuts are the marks of the pieces. -/
theorem map_mark_cuts (q : Quote) (gap : List Char) (ps : List Piece) :
    (cuts q gap ps).map Cut.mark = marks (gap.contains '\n') ps := by
  induction ps generalizing gap with
  | nil => rfl
  | cons p ps ih => cases p <;> simp [cuts, marks, token?, text, Cut.mark, ih]

theorem length_cuts (q : Quote) (gap : List Char) (ps : List Piece) :
    (cuts q gap ps).length = (tokens ps).length := by
  rw [← List.length_map (f := Cut.mark), map_mark_cuts, length_marks]

/-- What stands behind the last token of pieces that stand behind a gap. -/
def trail (q : Quote) (gap : List Char) : List Piece → List Char
  | [] => gap
  | p :: ps =>
    match p.token? with
    | some _ => trail q [] ps
    | none => trail q (gap ++ p.text q) ps

/-- Behind some pieces, others are cut with the gap that those leave. -/
theorem cuts_append (q : Quote) (gap : List Char) (ps ps' : List Piece) :
    cuts q gap (ps ++ ps') = cuts q gap ps ++ cuts q (trail q gap ps) ps' := by
  induction ps generalizing gap with
  | nil => rfl
  | cons p ps ih => cases p <;> simp [cuts, trail, token?, ih]

/-- Nothing stands behind pieces that end with a token. -/
theorem trail_concat (q : Quote) (gap : List Char) (ps : List Piece) {p : Piece}
    (hp : p.token? ≠ none) : trail q gap (ps ++ [p]) = [] := by
  induction ps generalizing gap with
  | nil =>
      obtain ⟨t, ht⟩ := Option.ne_none_iff_exists'.mp hp
      simp [trail, ht]
  | cons p ps ih => cases p <;> simp [trail, token?, ih]

/-- The cuts of pieces and what stands behind them are their text. -/
theorem flatMap_cuts (q : Quote) (gap : List Char) (ps : List Piece) :
    ((cuts q gap ps).flatMap fun x => x.2.1 ++ x.2.2) ++ trail q gap ps = gap ++ print q ps := by
  induction ps generalizing gap with
  | nil => simp [cuts, trail, print]
  | cons p ps ih => cases p <;> simp [cuts, trail, token?, print_cons, ih]

/-- The pieces are read as what they were put down for. -/
def Legible (q : Quote) (ps : List Piece) : Prop :=
  ∀ gap, cutsOf gap (print q ps) = cuts q gap ps

namespace Legible

variable {q : Quote} {ps : List Piece}

theorem nil : Legible q [] := cutsOf_nil

/-- A word, in front of what does not go on with it. -/
theorem word {w : String} (hw : isIdentifier w = true) (hends : EndsWord (print q ps))
    (h : Legible q ps) : Legible q (.word w :: ps) := by
  intro gap
  rw [print_cons, text, cutsOf_word hw gap hends]
  exact congrArg _ (h [])

/-- A private name, in front of the same. -/
theorem privateName {w : String} (hw : isPrivateName w = true) (hends : EndsWord (print q ps))
    (h : Legible q ps) : Legible q (.privateName w :: ps) := by
  intro gap
  rw [print_cons, text, cutsOf_privateName hw gap hends]
  exact congrArg _ (h [])

theorem string (s : String) (h : Legible q ps) : Legible q (.string s :: ps) := by
  intro gap
  rw [print_cons, text, cutsOf_quoted]
  exact congrArg _ (h [])

theorem sign {c : Char} (hc : c ∈ signs) (h : Legible q ps) : Legible q (.sign c :: ps) := by
  intro gap
  rw [print_cons, text, List.singleton_append, cutsOf_sign hc]
  exact congrArg _ (h [])

/-- A point is only one token in front of a word: a digit would make a number of it. -/
theorem dot {w : String} (hw : isIdentifier w = true) (h : Legible q (.word w :: ps)) :
    Legible q (.dot :: .word w :: ps) := by
  intro gap
  rw [print_cons, print_cons, text, text, List.singleton_append, cutsOf_dot hw]
  exact congrArg _ (h [])

theorem arrow (h : Legible q ps) : Legible q (.arrow :: ps) := by
  intro gap
  rw [print_cons, text]
  exact (cutsOf_arrow gap _).trans (congrArg _ (h []))

theorem space (h : Legible q ps) : Legible q (.space :: ps) := by
  intro gap
  exact (cutsOf_blank (by decide) gap _).trans (h _)

/-- An equals sign needs a blank behind it, since it could begin an arrow. -/
theorem equals (h : Legible q ps) : Legible q (.equals :: .space :: ps) := by
  intro gap
  exact (cutsOf_equals gap _).trans (congrArg _ (h.space []))

theorem lineFeed (h : Legible q ps) : Legible q (.lineFeed :: ps) := by
  intro gap
  exact (cutsOf_blank (by decide) gap _).trans (h _)

end Legible

end Piece

end DeclAtlas

import DeclAtlas.Proofs.Balance
import DeclAtlas.Proofs.ParserLogic
import DeclAtlas.Proofs.SkippedStatements
import DeclAtlas.Proofs.TypePrinting
import DeclAtlas.Syntax.Grammar.Module
import Mathlib.Data.Nat.PSub

/-!
# Scans over brackets

Brackets are scanned in four places: a bracketed region is read over, the closing bracket is looked
up in front of a function type, and a region in angle brackets is read over from its first `<` or
from behind it.  Each scan counts in a way of its own.  On every row of tokens, however its brackets
are nested and whether they are closed, they stop at the same places.

* **`scans_agree`** — the bracket that is looked up is the one that the region ends with, if it is
  closed at all (`ClosedAt`), and so the arrow that was seen is the next token when the parameters
  have been read over; a region in angle brackets ends at the same place from in front of its `<`
  and from behind it; and its count is never taken below zero (`angleLoop`).

What a scan does on a row is known from the depth behind the row (`depthBehind`), and every row
either has one or is cut by the bracket that closes more than it opened.
-/

namespace DeclAtlas

open DeclAtlas.Parser

section Scans

variable {l c : Lexeme} {ls inner rest : List Lexeme}

-- ── Brackets of all kinds ────────────────────────────────────────────────────────

theorem Token.opens_of_closes {t : Token} (h : t.closes = true) : t.opens = false := by
  cases t <;> first | rfl | cases h

/-- A scan that begins at a token takes it. -/
theorem bracketExtent_pos (d : Nat) (l : Lexeme) (ls : List Lexeme) :
    0 < bracketExtent d (l :: ls) := by
  unfold bracketExtent
  split_ifs <;> omega

/-- What is no bracket is taken inside of one. -/
theorem bracketExtent_plain (d : Nat) (hopens : l.token.opens = false)
    (hcloses : l.token.closes = false) :
    bracketExtent (d + 1) (l :: ls) = bracketExtent (d + 1) ls + 1 := by
  rw [bracketExtent, if_neg (Bool.eq_false_iff.mp hopens), if_neg (Bool.eq_false_iff.mp hcloses),
    if_neg d.succ_ne_zero]

/-- The closing bracket of the last one that is open ends a region, and is found. -/
theorem scans_closer (hcloses : c.token.closes = true) (rest : List Lexeme) :
    bracketExtent 1 (c :: rest) = 1 ∧ closerIndex 1 (c :: rest) = some 0 := by
  have hopens := Token.opens_of_closes hcloses
  exact ⟨by simp [bracketExtent, hopens, hcloses], by simp [closerIndex, hopens, hcloses]⟩

/-- With one more bracket open than a row closes, both scans pass it. -/
theorem scans_append {d e : Nat} (h : depthBehind d inner = some e) (rest : List Lexeme) :
    bracketExtent (d + 1) (inner ++ rest) = bracketExtent (e + 1) rest + inner.length ∧
      closerIndex (d + 1) (inner ++ rest) =
        (closerIndex (e + 1) rest).map (· + inner.length) := by
  have hmap (o : Option Nat) (l : Lexeme) (ls : List Lexeme) :
      (o.map (· + ls.length)).map (· + 1) = o.map (· + (l :: ls).length) := by
    rw [Option.map_map]
    rfl
  induction h using depthBehind_induction with
  | nil => exact ⟨rfl, by simp⟩
  | opens hopens _ ih =>
      rw [List.cons_append, bracketExtent_opens _ hopens, closerIndex_opens _ hopens, ih.1, ih.2]
      exact ⟨rfl, hmap ..⟩
  | closes hopens hcloses _ ih =>
      rw [List.cons_append, bracketExtent_closes _ hopens hcloses,
        closerIndex_closes _ hopens hcloses, ih.1, ih.2]
      exact ⟨rfl, hmap ..⟩
  | plain hopens hcloses _ ih =>
      rw [List.cons_append, bracketExtent_plain _ hopens hcloses,
        closerIndex_other _ hopens hcloses, ih.1, ih.2]
      exact ⟨rfl, hmap ..⟩

/-- A row has a depth behind it, or is cut by the first bracket that closes none of its own. -/
theorem depthBehind_cases (d : Nat) (ls : List Lexeme) :
    (∃ e, depthBehind d ls = some e) ∨
      ∃ inner c rest, ls = inner ++ c :: rest ∧ c.token.closes = true ∧
        depthBehind d inner = some 0 := by
  induction ls generalizing d with
  | nil => exact Or.inl ⟨d, rfl⟩
  | cons l ls ih =>
      have hstep (d' : Nat) (hd : ∀ row, depthBehind d (l :: row) = depthBehind d' row) :
          (∃ e, depthBehind d (l :: ls) = some e) ∨ ∃ inner c rest, l :: ls = inner ++ c :: rest ∧
            c.token.closes = true ∧ depthBehind d inner = some 0 := by
        rcases ih d' with ⟨e, he⟩ | ⟨inner, c, rest, rfl, hcloses, hinner⟩
        · exact Or.inl ⟨e, (hd ls).trans he⟩
        · exact Or.inr ⟨l :: inner, c, rest, rfl, hcloses, (hd inner).trans hinner⟩
      by_cases hopens : l.token.opens = true
      · exact hstep (d + 1) fun row => depthBehind_opens d row hopens
      rw [Bool.not_eq_true] at hopens
      by_cases hcloses : l.token.closes = true
      · cases d with
        | zero => exact Or.inr ⟨[], l, ls, rfl, hcloses, rfl⟩
        | succ d => exact hstep d fun row => depthBehind_closes_succ d row hopens hcloses
      · rw [Bool.not_eq_true] at hcloses
        exact hstep d fun row => depthBehind_plain d row hopens hcloses

/-- The token at an index closes the bracket that the row begins with: between the two, exactly
    those brackets are closed that are opened there. -/
def ClosedAt (ls : List Lexeme) (i : Nat) : Prop :=
  ∃ o inner c rest, ls = o :: (inner ++ c :: rest) ∧ inner.length + 1 = i ∧
    c.token.closes = true ∧ depthBehind 0 inner = some 0

/-- What both scans do at an opening bracket: it is closed at an index, and they find it, or it is
    closed nowhere, and one of them finds nothing and the other reaches the end. -/
theorem scans_opens (hopens : l.token.opens = true) (ls : List Lexeme) :
    (∃ i, (∀ j, ClosedAt (l :: ls) j ↔ j = i) ∧ i < (l :: ls).length ∧
      closerIndex 0 (l :: ls) = some i ∧ bracketExtent 0 (l :: ls) = i + 1) ∨
    (∀ j, ¬ ClosedAt (l :: ls) j) ∧ closerIndex 0 (l :: ls) = none ∧
      bracketExtent 0 (l :: ls) = (l :: ls).length := by
  have hclosed (j : Nat) (h : ClosedAt (l :: ls) j) :
      closerIndex 0 (l :: ls) = some j ∧ bracketExtent 0 (l :: ls) = j + 1 := by
    obtain ⟨o, inner, c, rest, heq, rfl, hcloses, hinner⟩ := h
    obtain ⟨rfl, rfl⟩ := List.cons.inj heq
    obtain ⟨hextent, hcloser⟩ := scans_append hinner (c :: rest)
    obtain ⟨hend, hfound⟩ := scans_closer hcloses rest
    rw [closerIndex_opens _ hopens, bracketExtent_opens _ hopens, hextent, hcloser, hend, hfound]
    refine ⟨?_, by omega⟩
    rw [Option.map_some, Option.map_some, Nat.zero_add]
  rcases depthBehind_cases 0 ls with ⟨e, he⟩ | ⟨inner, c, rest, rfl, hcloses, hinner⟩
  · obtain ⟨hextent, hcloser⟩ := scans_append he []
    rw [List.append_nil] at hextent hcloser
    have hnone : closerIndex 0 (l :: ls) = none := by
      rw [closerIndex_opens _ hopens, hcloser]
      rfl
    refine Or.inr ⟨fun j h => ?_, hnone, ?_⟩
    · rw [(hclosed j h).1] at hnone
      cases hnone
    · rw [bracketExtent_opens _ hopens, hextent, bracketExtent, Nat.zero_add]
      rfl
  · have hat : ClosedAt (l :: (inner ++ c :: rest)) (inner.length + 1) :=
      ⟨l, inner, c, rest, rfl, rfl, hcloses, hinner⟩
    obtain ⟨hfound, hend⟩ := hclosed _ hat
    refine Or.inl ⟨inner.length + 1, fun j => ⟨fun h => ?_, ?_⟩, by simp, hfound, hend⟩
    · exact Option.some.inj ((hclosed j h).1.symm.trans hfound)
    · rintro rfl
      exact hat

-- ── Angle brackets ───────────────────────────────────────────────────────────────

/-- Inside other brackets, a scan over a region in angle brackets goes on behind the bracket that
    closes the first of them. -/
theorem angleExtent_inside (angles d : Nat) (ls : List Lexeme) :
    angleExtent angles (d + 1) ls =
      angleExtent angles 0 (ls.drop (bracketExtent (d + 1) ls)) + bracketExtent (d + 1) ls := by
  induction ls generalizing d with
  | nil => rfl
  | cons l ls ih =>
      rw [angleExtent]
      by_cases hopens : l.token.opens = true
      · rw [if_pos hopens, bracketExtent_opens _ hopens, ih, List.drop_succ_cons]
        rfl
      rw [if_neg hopens]
      rw [Bool.not_eq_true] at hopens
      by_cases hcloses : l.token.closes = true
      · rw [if_pos hcloses]
        cases d with
        | zero =>
            rw [(scans_closer hcloses ls).1]
            rfl
        | succ d =>
            rw [bracketExtent_closes _ hopens hcloses, ih, List.drop_succ_cons]
            rfl
      · rw [if_neg hcloses]
        rw [Bool.not_eq_true] at hcloses
        rw [bracketExtent_plain _ hopens hcloses, ih, List.drop_succ_cons]
        rfl

/-- The scan over a region in angle brackets as a loop, with `count` angle brackets open.  Other
    brackets are read over as regions of their own.  One is taken from the count by `less`, and with
    it the loop may fail. -/
def angleLoop (less : Nat → Option Nat) (count : Nat) : List Lexeme → Option Nat
  | [] => some 0
  | l :: ls =>
    if l.token = .less then (angleLoop less (count + 1) ls).map (· + 1)
    else if l.token = .greater then
      match less count with
      | none => none
      | some 0 => some 1
      | some (n + 1) => (angleLoop less (n + 1) ls).map (· + 1)
    else if l.token.opens then
      (angleLoop less count ((l :: ls).drop (bracketExtent 0 (l :: ls)))).map
        (· + bracketExtent 0 (l :: ls))
    else if l.token = .semicolon ∨ l.token = .closeBrace then some 0
    else (angleLoop less count ls).map (· + 1)
termination_by ls => ls.length
decreasing_by
  all_goals simp only [List.length_drop, List.length_cons]
  all_goals have := bracketExtent_pos 0 l ls
  all_goals omega

/-- As long as an angle bracket is open, the count is never taken from zero: what `less` does there
    changes nothing, and the loop does not fail. -/
theorem angleLoop_eq (less : Nat → Option Nat) (hless : ∀ n, less (n + 1) = some n) (n : Nat)
    (ls : List Lexeme) :
    angleLoop less (n + 1) ls = some (angleExtent (n + 1) 0 ls) := by
  induction ls using suffix_induction generalizing n with
  | nil => rw [angleLoop, angleExtent]
  | cons l ls ih =>
    have htail := ih ls List.suffix_rfl
    rw [angleLoop, angleExtent]
    by_cases hopen : l.token = .less
    · rw [if_pos hopen, if_pos hopen, htail (n + 1), Option.map_some]
    rw [if_neg hopen, if_neg hopen]
    by_cases hclose : l.token = .greater
    · rw [if_pos hclose, if_pos hclose, hless]
      cases n with
      | zero => rfl
      | succ n =>
          dsimp only
          rw [if_neg (by omega), htail n]
          rfl
    rw [if_neg hclose, if_neg hclose]
    by_cases hopens : l.token.opens = true
    · rw [if_pos hopens, if_pos hopens, bracketExtent_opens _ hopens, List.drop_succ_cons,
        ih _ (List.drop_suffix _ ls) n, Option.map_some, angleExtent_inside]
      rfl
    rw [if_neg hopens, if_neg hopens]
    by_cases hstop : l.token = .semicolon ∨ l.token = .closeBrace
    · rw [if_pos hstop, if_pos hstop]
    · rw [if_neg hstop, if_neg hstop, htail n, Option.map_some]

end Scans

-- ── The scans as parsers ─────────────────────────────────────────────────────────

section Parsers

variable {c : Cursor}

/-- The looked-up bracket is the one that reading over the region ends behind. -/
theorem closerIndex_skipBrackets {t : Token} (hpeek : c.peek = some t) (hopens : t.opens = true) :
    (∀ i, closerIndex 0 c.rest = some i ↔
      (skipBrackets c).2 = c.advance (i + 1) ∧ ClosedAt c.rest i) ∧
    (closerIndex 0 c.rest = none ↔
      (skipBrackets c).2.rest = [] ∧ ∀ i, ¬ ClosedAt c.rest i) := by
  obtain ⟨l, ls, hrest, rfl⟩ := Cursor.peek_eq_some_iff.mp hpeek
  have hskip : (skipBrackets c).2 = c.advance (bracketExtent 0 (l :: ls)) := by
    rw [← hrest]
    rfl
  rw [hskip, hrest]
  rcases scans_opens hopens ls with
    ⟨i, hclosed, -, hfound, hend⟩ | ⟨hopen, hnone, hend⟩
  · rw [hfound, hend]
    refine ⟨fun j => ⟨?_, ?_⟩, by rintro ⟨⟩, fun h => absurd ((hclosed i).mpr rfl) (h.2 i)⟩
    · rintro ⟨⟩
      exact ⟨rfl, (hclosed _).mpr rfl⟩
    · rintro ⟨-, hj⟩
      rw [(hclosed j).mp hj]
  · rw [hnone, hend]
    refine ⟨fun j => ⟨by rintro ⟨⟩, fun h => absurd h.2 (hopen j)⟩, fun _ => ⟨?_, hopen⟩,
      fun _ => rfl⟩
    rw [Cursor.rest_advance, hrest, List.drop_length]

/-- A function type is next exactly if an arrow is, when the parameters have been read over. -/
theorem atFunctionType_skipBrackets (h : c.isAt .openParen = true) :
    c.atFunctionType = (skipBrackets c).2.isAt .arrow := by
  obtain ⟨hsome, hnone⟩ := closerIndex_skipBrackets (Cursor.isAt_iff.mp h) rfl
  unfold Cursor.atFunctionType
  cases hfound : closerIndex 0 c.rest with
  | some i =>
      rw [((hsome i).mp hfound).1]
      simp [Cursor.isAt, Cursor.sees, Cursor.peekAt]
  | none =>
      simp [Cursor.isAt, Cursor.sees, Cursor.peekAt, (hnone.mp hfound).1]

theorem eat_of_isAt {t : Token} (h : c.isAt t = true) : eat t c = (true, c.bump) := by
  show (if c.isAt t then _ else _ : Parser Bool) c = _
  rw [if_pos h]
  rfl

/-- The parameters of a function type are read over, and the arrow and the result are read. -/
theorem functionType_of_arrow (h : c.isAt .openParen = true)
    (harrow : (skipBrackets c).2.isAt .arrow = true) (n : Nat) :
    Rule.run (n + 1) .functionType c =
      (do skipBrackets; bump; let _ ← Rule.run n .resultType; pure TypeExpr.function) c := by
  have hless : c.isAt .less = false := by
    obtain ⟨l, ls, hrest, hl⟩ := Cursor.peek_eq_some_iff.mp (Cursor.isAt_iff.mp h)
    simp [Cursor.isAt, Cursor.sees, Cursor.peekAt, hrest, hl]
  show (if c.isAt .less then _ else _ : Parser TypeExpr) c = _
  rw [if_neg (Bool.eq_false_iff.mp hless)]
  show (if c.isAt .openParen then _ else _ : Parser TypeExpr) c = _
  rw [if_pos h]
  show (if (eat .arrow (skipBrackets c).2).1 then _ else _ : Parser TypeExpr)
    (eat .arrow (skipBrackets c).2).2 = _
  rw [eat_of_isAt harrow]
  rfl

/-- A region in angle brackets is the same from in front of its `<` and from behind it, and both
    are where a loop leads, the first with a count from zero on that stays at zero. -/
theorem skipAngles_of_less (h : c.isAt .less = true) :
    skipAngles c = (do bump; skipAngleTail) c ∧
      ∃ n, angleLoop (fun count => some (count - 1)) 0 c.rest = some n ∧
        skipAngles c = ((), c.advance n) := by
  obtain ⟨l, ls, hrest, hl⟩ := Cursor.peek_eq_some_iff.mp (Cursor.isAt_iff.mp h)
  have hextent : angleExtent 0 0 (l :: ls) = angleExtent 1 0 ls + 1 := by
    rw [angleExtent, if_pos hl]
  have hskip : skipAngles c = ((), c.advance (angleExtent 1 0 ls + 1)) := by
    rw [← hextent, ← hrest]
    rfl
  have htail : (do bump; skipAngleTail) c = ((), c.bump.advance (angleExtent 1 0 c.bump.rest)) :=
    rfl
  refine ⟨?_, angleExtent 1 0 ls + 1, ?_, hskip⟩
  · rw [hskip, htail, Cursor.bump_of_rest hrest, Cursor.advance, Cursor.bump_of_rest hrest]
  · rw [hrest, angleLoop, if_pos hl, angleLoop_eq _ (fun _ => rfl), Option.map_some]

/-- The tail of angle brackets is skipped by the loop that counts them, beginning with one. -/
theorem skipAngleTail_eq_loop (c : Cursor) :
    ∃ n, angleLoop Nat.ppred 1 c.rest = some n ∧ skipAngleTail c = ((), c.advance n) :=
  ⟨_, angleLoop_eq Nat.ppred (fun _ => rfl) 0 c.rest, rfl⟩

/-- **The scans over brackets agree.**  At an opening bracket, the bracket that is looked up is the
    one that closes it, and the region that is read over ends right behind it; if there is none, the
    region reaches the end.  So the arrow that makes a function type of a parenthesis is the next
    token when its parameters have been read over.  A region in angle brackets ends at the same
    place from in front of its `<` and from behind it.  The scan from in front may take one from a
    count of zero and leaves it at zero; the one from behind must not, and never does. -/
theorem scans_agree (c : Cursor) :
    (∀ t, c.peek = some t → t.opens = true →
      (∀ i, closerIndex 0 c.rest = some i ↔
        (skipBrackets c).2 = c.advance (i + 1) ∧ ClosedAt c.rest i) ∧
      (closerIndex 0 c.rest = none ↔
        (skipBrackets c).2.rest = [] ∧ ∀ i, ¬ ClosedAt c.rest i)) ∧
    (c.isAt .openParen = true →
      c.atFunctionType = (skipBrackets c).2.isAt .arrow ∧
      (c.atFunctionType = true → ∀ n, Rule.run (n + 1) .functionType c =
        (do skipBrackets; bump; let _ ← Rule.run n .resultType; pure TypeExpr.function) c)) ∧
    (c.isAt .less = true →
      skipAngles c = (do bump; skipAngleTail) c ∧
      ∃ n, angleLoop (fun count => some (count - 1)) 0 c.rest = some n ∧
        skipAngles c = ((), c.advance n)) ∧
    ∃ n, angleLoop Nat.ppred 1 c.rest = some n ∧ skipAngleTail c = ((), c.advance n) := by
  refine ⟨fun t hpeek hopens => closerIndex_skipBrackets hpeek hopens, fun hparen => ?_,
    fun hless => skipAngles_of_less hless, skipAngleTail_eq_loop c⟩
  have heq := atFunctionType_skipBrackets hparen
  exact ⟨heq, fun hat n => functionType_of_arrow hparen (heq ▸ hat) n⟩

/-- A parenthesis and a bracket that cross: counted together, the last one closes the first. -/
theorem scans_agree_crossed :
    let c := Cursor.start (tokenize "(a[b)] => c")
    c.peek = some .openParen ∧ ClosedAt c.rest 5 ∧ c.atFunctionType = true ∧
      (skipBrackets c).2 = c.advance 6 ∧ (skipBrackets c).2.isAt .arrow = true := by
  intro c
  have hpeek : c.peek = some .openParen := by decide +kernel
  have hfound : closerIndex 0 c.rest = some 5 := by decide +kernel
  have harrow : c.atFunctionType = true := by decide +kernel
  obtain ⟨hopens, hparen, -, -⟩ := scans_agree c
  obtain ⟨hend, hclosed⟩ := ((hopens _ hpeek rfl).1 5).mp hfound
  exact ⟨hpeek, hclosed, harrow, hend, (hparen (Cursor.isAt_iff.mpr hpeek)).1 ▸ harrow⟩

end Parsers

end DeclAtlas

import DeclAtlas.Syntax.Cursor

/-!
# Reading over balanced tokens

Most of what a parser reads over is bracketed.  A row of tokens is balanced if every bracket in it
is closed by one of its own kind (`Balanced`), and nested if that holds of the brackets that it
opens, whatever it closes besides (`Nested`); what is left of a balanced row behind some token of it
is nested.

A scan that is inside a bracket passes a balanced row as a whole, whatever follows it.
-/

namespace DeclAtlas

-- ── Balanced rows ────────────────────────────────────────────────────────────────

/-- The closing bracket for an opening one. -/
def Token.closer? : Token → Option Token
  | .openBrace => some .closeBrace
  | .openParen => some .closeParen
  | .openBracket => some .closeBracket
  | _ => none

namespace Token

/-- What has a closing bracket opens. -/
theorem opens_of_closer? {o c : Token} (h : o.closer? = some c) : o.opens = true := by
  cases o <;> first | rfl | exact nomatch h

/-- A closing bracket closes, and does not open. -/
theorem closes_of_closer? {o c : Token} (h : o.closer? = some c) :
    c.closes = true ∧ c.opens = false := by
  cases o <;> cases h <;> exact ⟨rfl, rfl⟩

end Token

/-- Every bracket is closed by one of its kind, and none is closed that was not opened. -/
inductive Balanced : List Lexeme → Prop
  | nil : Balanced []
  | plain {l : Lexeme} {ls : List Lexeme} : l.token.opens = false → l.token.closes = false →
      Balanced ls → Balanced (l :: ls)
  | group {o c : Lexeme} {inner ls : List Lexeme} : o.token.closer? = some c.token →
      Balanced inner → Balanced ls → Balanced (o :: (inner ++ c :: ls))

/-- Every bracket that is opened is closed by one of its kind. -/
inductive Nested : List Lexeme → Prop
  | nil : Nested []
  | other {l : Lexeme} {ls : List Lexeme} : l.token.opens = false → Nested ls → Nested (l :: ls)
  | group {o c : Lexeme} {inner ls : List Lexeme} : o.token.closer? = some c.token →
      Balanced inner → Nested ls → Nested (o :: (inner ++ c :: ls))

/-- Balanced rows one after the other. -/
theorem Balanced.append {inner ls : List Lexeme} (h : Balanced inner) (hls : Balanced ls) :
    Balanced (inner ++ ls) := by
  induction h with
  | nil => exact hls
  | plain hopens hcloses _ ih => exact .plain hopens hcloses ih
  | group hcloser hinner _ _ ih =>
      rw [List.cons_append, List.append_assoc]
      exact .group hcloser hinner ih

/-- A balanced row in front of a nested one. -/
theorem Balanced.nested_append {inner ls : List Lexeme} (h : Balanced inner) (hls : Nested ls) :
    Nested (inner ++ ls) := by
  induction h with
  | nil => exact hls
  | plain hopens _ _ ih => exact .other hopens ih
  | group hcloser hinner _ _ ih =>
      rw [List.cons_append, List.append_assoc]
      exact .group hcloser hinner ih

theorem Balanced.nested {ls : List Lexeme} (h : Balanced ls) : Nested ls := by
  simpa using h.nested_append .nil

/-- Behind the first token, what was inside its bracket is nested, too. -/
theorem Nested.tail {l : Lexeme} {ls : List Lexeme} (h : Nested (l :: ls)) : Nested ls := by
  cases h with
  | other _ hls => exact hls
  | group hcloser hinner hls =>
      exact hinner.nested_append (.other (Token.closes_of_closer? hcloser).2 hls)

/-- So is what is left behind any number of tokens. -/
theorem Nested.drop {ls : List Lexeme} (h : Nested ls) (k : Nat) : Nested (ls.drop k) := by
  induction k generalizing ls with
  | zero => exact h
  | succ k ih =>
      cases ls with
      | nil => exact .nil
      | cons l ls => exact ih h.tail

/-- The group that an opening bracket begins. -/
theorem Nested.exists_group {o : Lexeme} {ls : List Lexeme} (h : Nested (o :: ls))
    (hopens : o.token.opens = true) :
    ∃ inner c ls', ls = inner ++ c :: ls' ∧ o.token.closer? = some c.token ∧ Balanced inner ∧
      Nested ls' := by
  cases h with
  | other hnot => exact absurd hopens (Bool.eq_false_iff.mp hnot)
  | group hcloser hinner hls => exact ⟨_, _, _, rfl, hcloser, hinner, hls⟩

/-- The row closes the brackets that are open, the last one first, and those that it opens. -/
def closesAll : List Token → List Lexeme → Bool
  | stack, [] => stack.isEmpty
  | stack, l :: ls =>
    match l.token.closer? with
    | some c => closesAll (c :: stack) ls
    | none =>
      if l.token.closes then stack.head? == some l.token && closesAll stack.tail ls
      else closesAll stack ls

theorem Token.closer?_eq_none {t : Token} (h : t.opens = false) : t.closer? = none := by
  cases t <;> first | rfl | exact nomatch h

/-- What has no closing bracket does not open. -/
theorem Token.opens_of_closer?_eq_none {t : Token} (h : t.closer? = none) : t.opens = false := by
  cases t <;> first | rfl | exact nomatch h

/-- A balanced row leaves the stack of open brackets as it was. -/
theorem Balanced.closesAll_append {inner : List Lexeme} (h : Balanced inner) (stack : List Token)
    (ls : List Lexeme) : closesAll stack (inner ++ ls) = closesAll stack ls := by
  induction h generalizing stack ls with
  | nil => rfl
  | plain hopens hcloses _ ih =>
      rw [List.cons_append, closesAll, Token.closer?_eq_none hopens]
      simp only [hcloses, Bool.false_eq_true, if_false, ih]
  | group hcloser _ _ ihinner ih =>
      obtain ⟨hcloses, hopens⟩ := Token.closes_of_closer? hcloser
      rw [List.cons_append, closesAll, hcloser, List.append_assoc]
      simp only [ihinner]
      rw [List.cons_append, closesAll, Token.closer?_eq_none hopens]
      simp only [hcloses, if_true, List.head?_cons, BEq.rfl, Bool.true_and, List.tail_cons, ih]

/-- A row that closes open brackets is balanced up to where it closes the last one. -/
theorem exists_balanced_of_closesAll {stack : List Token} {ls : List Lexeme}
    (h : closesAll stack ls = true) :
    (stack = [] ∧ Balanced ls) ∨ ∃ inner c rest, ls = inner ++ c :: rest ∧
      stack.head? = some c.token ∧ Balanced inner ∧ closesAll stack.tail rest = true := by
  induction ls using suffix_induction generalizing stack with
  | nil => exact .inl ⟨List.isEmpty_iff.mp h, .nil⟩
  | cons l ls ih =>
    rw [closesAll] at h
    cases hcloser : l.token.closer? with
    | none =>
        rw [hcloser] at h
        by_cases hcloses : l.token.closes = true
        · simp only [hcloses, if_true, Bool.and_eq_true, beq_iff_eq] at h
          exact .inr ⟨[], l, ls, rfl, h.1, .nil, h.2⟩
        · have hopens := Token.opens_of_closer?_eq_none hcloser
          simp only [Bool.eq_false_iff.mpr hcloses, Bool.false_eq_true, if_false] at h
          rcases ih ls List.suffix_rfl h with ⟨hnil, hls⟩ | ⟨inner, c, rest, rfl, hrest⟩
          · exact .inl ⟨hnil, .plain hopens (Bool.eq_false_iff.mpr hcloses) hls⟩
          · exact .inr ⟨l :: inner, c, rest, rfl, hrest.1,
              .plain hopens (Bool.eq_false_iff.mpr hcloses) hrest.2.1, hrest.2.2⟩
    | some t =>
        rw [hcloser] at h
        obtain ⟨inner, c, rest, rfl, hhead, hinner, hrest⟩ :=
          (ih ls List.suffix_rfl h).resolve_left nofun
        obtain rfl := Option.some.inj hhead
        -- behind the group, the brackets are closed that were open before
        have hbehind : rest <:+ inner ++ c :: rest := ⟨inner ++ [c], by simp⟩
        rcases ih rest hbehind hrest with
          ⟨hnil, hls⟩ | ⟨inner', c', rest', rfl, hhead', hinner', hrest'⟩
        · exact .inl ⟨hnil, .group hcloser hinner hls⟩
        · refine .inr ⟨l :: (inner ++ c :: inner'), c', rest', by simp, hhead', ?_, hrest'⟩
          exact .group hcloser hinner hinner'

/-- Whether a row is balanced is decided by one scan with a stack. -/
theorem balanced_iff {ls : List Lexeme} : Balanced ls ↔ closesAll [] ls = true := by
  constructor
  · intro h
    simpa [closesAll] using h.closesAll_append [] []
  · intro h
    rcases exists_balanced_of_closesAll h with ⟨-, hls⟩ | ⟨_, _, _, _, hhead, _⟩
    · exact hls
    · exact nomatch hhead

instance : DecidablePred Balanced := fun _ => decidable_of_iff' _ balanced_iff

-- ── Scans over balanced rows ─────────────────────────────────────────────────────

section Scans

variable {l : Lexeme} {ls inner rest : List Lexeme}

/-- A bracket that opens is one more to be closed. -/
theorem bracketExtent_opens (d : Nat) (h : l.token.opens = true) :
    bracketExtent d (l :: ls) = bracketExtent (d + 1) ls + 1 := by
  rw [bracketExtent, if_pos h]

/-- One that closes is one less, and not the last one. -/
theorem bracketExtent_closes (d : Nat) (hopens : l.token.opens = false)
    (hcloses : l.token.closes = true) :
    bracketExtent (d + 2) (l :: ls) = bracketExtent (d + 1) ls + 1 := by
  rw [bracketExtent, if_neg (Bool.eq_false_iff.mp hopens), if_pos hcloses, if_neg (by omega)]
  rfl

/-- Inside a bracket, the scan for its end passes a balanced row. -/
theorem bracketExtent_balanced (h : Balanced inner) (d : Nat) (rest : List Lexeme) :
    bracketExtent (d + 1) (inner ++ rest) = bracketExtent (d + 1) rest + inner.length := by
  induction h generalizing d rest with
  | nil => rfl
  | plain hopens hcloses _ ih =>
      rw [List.cons_append, bracketExtent, if_neg (Bool.eq_false_iff.mp hopens),
        if_neg (Bool.eq_false_iff.mp hcloses), if_neg (Nat.succ_ne_zero d), ih]
      rfl
  | group hcloser _ _ ihinner ih =>
      obtain ⟨hcloses, hopens'⟩ := Token.closes_of_closer? hcloser
      rw [List.cons_append, List.append_assoc, List.cons_append,
        bracketExtent_opens _ (Token.opens_of_closer? hcloser), ihinner,
        bracketExtent_closes _ hopens' hcloses, ih]
      simp only [List.length_cons, List.length_append]
      omega

/-- A bracketed region ends behind the bracket that closes it. -/
theorem bracketExtent_group {o c : Lexeme} (hcloser : o.token.closer? = some c.token)
    (h : Balanced inner) : bracketExtent 0 (o :: (inner ++ c :: rest)) = inner.length + 2 := by
  obtain ⟨hcloses, hopens⟩ := Token.closes_of_closer? hcloser
  rw [bracketExtent_opens _ (Token.opens_of_closer? hcloser), bracketExtent_balanced h,
    bracketExtent, if_neg (Bool.eq_false_iff.mp hopens), if_pos hcloses, if_pos (by omega)]
  omega

theorem closerIndex_balanced (h : Balanced inner) (d : Nat) (rest : List Lexeme) :
    closerIndex (d + 1) (inner ++ rest) =
      (closerIndex (d + 1) rest).map (· + inner.length) := by
  induction h generalizing d rest with
  | nil => simp
  | plain hopens hcloses _ ih =>
      simp only [List.cons_append, closerIndex, hopens, hcloses, Bool.false_eq_true, if_false, ih,
        Option.map_map, List.length_cons]
      congr 1
  | group hcloser _ _ ihinner ih =>
      obtain ⟨hcloses, hopens'⟩ := Token.closes_of_closer? hcloser
      have hopens := Token.opens_of_closer? hcloser
      simp only [List.cons_append, List.append_assoc, closerIndex, hopens, hopens', hcloses,
        Bool.false_eq_true, if_true, if_false, ihinner, ih, Option.map_map, List.length_cons,
        List.length_append]
      congr 1
      funext i
      simp only [Function.comp_apply]
      omega

/-- A bracket is closed behind the balanced row that follows it. -/
theorem closerIndex_group {o c : Lexeme} (hcloser : o.token.closer? = some c.token)
    (h : Balanced inner) :
    closerIndex 0 (o :: (inner ++ c :: rest)) = some (inner.length + 1) := by
  obtain ⟨hcloses, hopens⟩ := Token.closes_of_closer? hcloser
  have hindex := closerIndex_balanced h 0 (c :: rest)
  simp only [closerIndex, Token.opens_of_closer? hcloser, if_true, hindex]
  simp [hopens, hcloses]

/-- A scan for angle brackets passes a balanced row inside other brackets. -/
theorem angleExtent_balanced (h : Balanced inner) (a d : Nat) (rest : List Lexeme) :
    angleExtent a (d + 1) (inner ++ rest) = angleExtent a (d + 1) rest + inner.length := by
  induction h generalizing d rest with
  | nil => rfl
  | plain hopens hcloses _ ih =>
      rw [List.cons_append, angleExtent, if_neg (Bool.eq_false_iff.mp hopens),
        if_neg (Bool.eq_false_iff.mp hcloses), ih]
      rfl
  | group hcloser _ _ ihinner ih =>
      obtain ⟨hcloses, hopens'⟩ := Token.closes_of_closer? hcloser
      rw [List.cons_append, List.append_assoc, List.cons_append, angleExtent,
        if_pos (Token.opens_of_closer? hcloser), ihinner, angleExtent,
        if_neg (Bool.eq_false_iff.mp hopens'), if_pos hcloses, ih]
      simp only [List.length_cons, List.length_append]
      omega

/-- So does a scan for a token outside brackets; what it saw last does not matter inside. -/
theorem outerExtent_balanced (stop : Option Token → Lexeme → Bool) (h : Balanced inner)
    (prev : Option Token) (d : Nat) :
    ∃ prev', ∀ rest, outerExtent stop prev (d + 1) (inner ++ rest) =
      outerExtent stop prev' (d + 1) rest + inner.length := by
  induction h generalizing d prev with
  | nil => exact ⟨prev, fun rest => rfl⟩
  | @plain l ls hopens hcloses _ ih =>
      obtain ⟨prev', hprev'⟩ := ih (some l.token) d
      refine ⟨prev', fun rest => ?_⟩
      simp only [List.cons_append, outerExtent, hopens, hcloses, Bool.false_eq_true, if_false,
        hprev', List.length_cons]
      omega
  | @group o c inner ls hcloser _ _ ihinner ih =>
      obtain ⟨hcloses, hopens'⟩ := Token.closes_of_closer? hcloser
      have hopens := Token.opens_of_closer? hcloser
      obtain ⟨prev₁, h₁⟩ := ihinner (some o.token) (d + 1)
      obtain ⟨prev₂, h₂⟩ := ih (some c.token) d
      refine ⟨prev₂, fun rest => ?_⟩
      simp only [List.cons_append, List.append_assoc, outerExtent, hopens, hopens', hcloses,
        Bool.false_eq_true, if_true, if_false, h₁, h₂, List.length_cons, List.length_append]
      omega

end Scans

end DeclAtlas

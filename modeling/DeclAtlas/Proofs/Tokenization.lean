import DeclAtlas.Proofs.LexicalPatterns
import DeclAtlas.Proofs.Segmentation
import Mathlib.Data.List.Induction
import Mathlib.Data.List.TakeWhile

/-!
# Tokens cover their text

Every text is cut into tokens and gaps, and every piece is what its kind says:

* what stands at the front of a text has the form of its kind (`front_cut`), and no pattern of a
  token or a comment matches more of the text than is taken, or anything at all where the token is
  unknown (`front_longest`);
* so, from front to back, every token stands for its text behind a gap, and its place is counted
  from the text before it (`TokenList.placed_place`).

**`tokenize_covers`** puts this together for a whole text.
-/

namespace DeclAtlas

open Lexical Computability

-- ── Classes of characters ────────────────────────────────────────────────────────

section Classes

variable {c : Char}

theorem isAlpha_iff : c.isAlpha = true ↔ IsLetter c := by
  have halpha : c.isAlpha =
      (decide ('A' ≤ c ∧ c ≤ 'Z') || decide ('a' ≤ c) && decide (c ≤ 'z')) := rfl
  rw [halpha, Bool.or_eq_true, Bool.and_eq_true, decide_eq_true_iff, decide_eq_true_iff,
    decide_eq_true_iff, IsLetter]

theorem isDigit_iff : c.isDigit = true ↔ IsDigit c := by
  simp [IsDigit, Char.isDigit, Char.le_def]

/-- The classes of characters are those of the patterns, one by one. -/
theorem isWordStart_iff : isWordStart c = true ↔ StartsWord c := by
  simp [isWordStart, StartsWord, isAlpha_iff, or_assoc]

theorem isWordPart_iff : isWordPart c = true ↔ ContinuesWord c := by
  simp [isWordPart, ContinuesWord, isWordStart_iff, isDigit_iff]

theorem isNumberPart_iff : isNumberPart c = true ↔ ContinuesNumber c := by
  simp [isNumberPart, ContinuesNumber, Char.isAlphanum, isAlpha_iff, isDigit_iff, or_assoc]

theorem isBlank_iff : isBlank c = true ↔ IsSpace c := by
  simp only [isBlank, IsSpace, Bool.or_eq_true, decide_eq_true_eq, List.mem_cons, List.not_mem_nil]
  tauto

theorem not_isBlank_of_isDigit (h : c.isDigit = true) : isBlank c = false := by
  rw [Bool.eq_false_iff]
  intro hblank
  simp only [isBlank, Bool.or_eq_true, decide_eq_true_eq] at hblank
  rcases hblank with (((((rfl | rfl) | rfl) | rfl) | rfl) | rfl) | rfl <;>
    exact absurd h (by decide)

end Classes

-- ── The front of a text, by its first character ──────────────────────────────────

section Front

variable {c : Char} (cs : List Char)

theorem front_blank (h : isBlank c = true) : front c cs = (.gap, (cs.takeWhile isBlank).length) :=
  if_pos h

theorem front_wordStart (h : isWordStart c = true) :
    front c cs = (.word, (cs.takeWhile isWordPart).length) := by
  rw [front, if_neg (ne_true_of_eq_false (not_isBlank_of_isWordStart h)), if_pos h]

theorem front_digit (h : c.isDigit = true) : front c cs = (.plain .number, numberExtent cs) := by
  have hword : ¬ isWordStart c = true := by
    intro hword
    rw [not_isDigit_of_isWordStart hword] at h
    cases h
  rw [front, if_neg (ne_true_of_eq_false (not_isBlank_of_isDigit h)), if_neg hword,
    if_pos h]

theorem front_slash : front '/' cs = frontSlash cs := rfl

theorem front_hash : front '#' cs = frontHash cs := rfl

theorem front_dot : front '.' cs = frontDot cs := rfl

theorem front_equals : front '=' cs = frontEquals cs := rfl

theorem front_quote (h : IsQuote c) : front c cs = frontQuote c cs := by
  rcases h with rfl | rfl
  · rfl
  · rfl

theorem front_backtick : front '\x60' cs = (.plain .template, Template.extent cs) := rfl

/-- Characters that are tokens by themselves, whatever follows. -/
def loneSigns : List Char := signs ++ ['!', '@', '-', '+', '%', '^', '~']

/-- A sign that stands alone is taken by itself. -/
theorem front_loneSign (h : c ∈ loneSigns) : front c cs = (.plain (loneToken c), 0) := by
  rcases List.mem_append.mp h with hsign | hsign
  · exact front_of_mem_signs hsign cs
  · clear h
    revert hsign
    revert c
    simp only [List.forall_mem_cons]
    exact ⟨rfl, rfl, rfl, rfl, rfl, rfl, rfl, by simp⟩

end Front

-- ── String literals and block comments ───────────────────────────────────────────

namespace Quoted

variable {q : Char}

/-- The elements of a literal are read one by one. -/
theorem scan_elements (hq : IsQuote q) {body : List Char} (h : body ∈ (element q)∗)
    (rest : List Char) :
    scan q (body ++ rest) = ((scan q rest).1 + body.length, (scan q rest).2) := by
  obtain ⟨ws, rfl, hws⟩ := Language.mem_kstar.mp h
  clear h
  induction ws with
  | nil => rfl
  | cons w ws ih =>
      obtain ⟨hw, hws⟩ := List.forall_mem_cons.mp hws
      have hrest := ih hws
      rw [List.flatten_cons, List.append_assoc]
      rcases mem_element.mp hw with ⟨c, ⟨hquote, hslash, hfeed⟩, rfl⟩ | ⟨c, rfl⟩
      · rw [List.singleton_append, scan_cons hquote hfeed hslash, hrest]
        simp only [List.length_append, List.length_singleton]
        rw [Nat.add_assoc, Nat.add_comm 1]
      · have hquote : '\\' ≠ q := by
          rcases hq with rfl | rfl
          · decide
          · decide
        rw [List.cons_append, List.singleton_append, scan, if_neg hquote, if_neg (by decide),
          if_pos rfl, hrest]
        simp only [List.length_append, List.length_cons, List.length_nil]
        rw [Nat.add_assoc, Nat.add_comm 2]

/-- A literal is read up to its quote or up to where it is stuck. -/
theorem scan_cases (q : Char) (cs : List Char) :
    ∃ body rest, body ∈ (element q)∗ ∧
      ((cs = body ++ q :: rest ∧ scan q cs = (body.length + 1, true)) ∨
        (cs = body ++ rest ∧ Stuck rest ∧ scan q cs = (body.length, false))) := by
  fun_induction scan q cs with
  | case1 => exact ⟨[], [], Language.nil_mem_kstar _, Or.inr ⟨rfl, Or.inl rfl, rfl⟩⟩
  | case2 cs => exact ⟨[], cs, Language.nil_mem_kstar _, Or.inl ⟨rfl, rfl⟩⟩
  | case3 cs _ =>
      exact ⟨[], '\n' :: cs, Language.nil_mem_kstar _, Or.inr ⟨rfl, Or.inr (Or.inl rfl), rfl⟩⟩
  | case4 => exact ⟨[], ['\\'], Language.nil_mem_kstar _, Or.inr ⟨rfl, Or.inr (Or.inr rfl), rfl⟩⟩
  | case5 d cs _ _ ih =>
      obtain ⟨body, rest, hbody, h⟩ := ih
      refine ⟨['\\', d] ++ body, rest,
        append_mem_kstar (mem_element.mpr (Or.inr ⟨d, rfl⟩)) hbody, ?_⟩
      rcases h with ⟨rfl, hscan⟩ | ⟨rfl, hstuck, hscan⟩
      · exact Or.inl ⟨rfl, by rw [hscan]; rfl⟩
      · exact Or.inr ⟨rfl, hstuck, by rw [hscan]; rfl⟩
  | case6 c cs hquote hfeed hslash ih =>
      obtain ⟨body, rest, hbody, h⟩ := ih
      refine ⟨[c] ++ body, rest,
        append_mem_kstar (mem_element.mpr (Or.inl ⟨c, ⟨hquote, hslash, hfeed⟩, rfl⟩)) hbody, ?_⟩
      rcases h with ⟨rfl, hscan⟩ | ⟨rfl, hstuck, hscan⟩
      · exact Or.inl ⟨rfl, by rw [hscan]; rfl⟩
      · exact Or.inr ⟨rfl, hstuck, by rw [hscan]; rfl⟩

end Quoted

/-- The end of a comment stands at the front of a text or further on. -/
theorem infix_cons_starSlash {c : Char} {cs : List Char} :
    ['*', '/'] <:+: c :: cs ↔ (c = '*' ∧ cs.head? = some '/') ∨ ['*', '/'] <:+: cs := by
  rw [List.infix_cons_iff, List.cons_prefix_cons]
  refine or_congr (and_congr eq_comm ?_) Iff.rfl
  cases cs with
  | nil => simp
  | cons d cs => simp [eq_comm]

/-- A block comment is taken through its first end, or to the end of the text. -/
theorem blockExtent_cases (cs : List Char) :
    (∃ body rest, cs = body ++ '*' :: '/' :: rest ∧ ¬ ['*', '/'] <:+: body ++ ['*'] ∧
      blockExtent cs = body.length + 2) ∨
    (¬ ['*', '/'] <:+: cs ∧ blockExtent cs = cs.length) := by
  induction cs with
  | nil => exact Or.inr ⟨by simp, rfl⟩
  | cons c cs ih =>
      by_cases hend : c = '*' ∧ cs.head? = some '/'
      · obtain ⟨rfl, hhead⟩ := hend
        obtain ⟨rest, rfl⟩ := List.head?_eq_some_iff.mp hhead
        exact Or.inl ⟨[], rest, rfl, by decide, rfl⟩
      · rw [blockExtent, if_neg hend]
        rcases ih with ⟨body, rest, rfl, hbody, hextent⟩ | ⟨hno, hextent⟩
        · refine Or.inl ⟨c :: body, rest, rfl, ?_, by rw [hextent]; rfl⟩
          rw [List.cons_append, infix_cons_starSlash, not_or]
          refine ⟨?_, hbody⟩
          cases body with
          | nil => exact hend
          | cons d body => exact hend
        · refine Or.inr ⟨?_, by rw [hextent]; rfl⟩
          rw [infix_cons_starSlash, not_or]
          exact ⟨hend, hno⟩

-- ── No pattern matches more ──────────────────────────────────────────────────────

/-- A text that a pattern matches at the front of `c :: cs` is no longer than what is taken there,
    and what is taken is known. -/
def Reached (c : Char) (cs w : List Char) : Prop :=
  w.length ≤ (front c cs).2 + 1 ∧ (front c cs).1 ≠ .plain .unknown

section Longest

variable {c : Char} {cs w : List Char}

/-- A run of characters of a class is no longer than the longest one. -/
theorem length_le_takeWhile {p : Char → Bool} {ds : List Char} (hds : ∀ d ∈ ds, p d = true)
    (hpre : ds <+: cs) : ds.length ≤ (cs.takeWhile p).length := by
  obtain ⟨rest, rfl⟩ := hpre
  rw [List.takeWhile_append_of_pos hds, List.length_append]
  exact Nat.le_add_right _ _

/-- A word is no longer than the run of its characters. -/
theorem reached_word (hw : w ∈ word) (hpre : w <+: c :: cs) : Reached c cs w := by
  obtain ⟨d, ds, rfl, hd, hds⟩ := mem_one_mul_kstar.mp hw
  obtain ⟨rfl, htail⟩ := List.cons_prefix_cons.mp hpre
  rw [Reached, front_wordStart cs (isWordStart_iff.mpr hd)]
  refine ⟨Nat.succ_le_succ (length_le_takeWhile (fun e he => ?_) htail), by simp⟩
  exact isWordPart_iff.mpr (hds e he)

theorem frontHash_wordStart (h : isWordStart c = true) :
    frontHash (c :: cs) = (.privateName, (cs.takeWhile isWordPart).length + 1) := by
  have hbang : c ≠ '!' := by
    rintro rfl
    exact absurd h (by decide)
  rw [frontHash.eq_2 _ _ (by simpa using hbang), if_pos h]

theorem reached_privateName (hw : w ∈ privateName) (hpre : w <+: c :: cs) : Reached c cs w := by
  obtain ⟨d, ds, rfl, hd, hds⟩ := mem_privateName.mp hw
  obtain ⟨rfl, rest, rfl⟩ := List.cons_prefix_cons.mp hpre
  rw [List.cons_append, Reached, front_hash, frontHash_wordStart (isWordStart_iff.mpr hd)]
  refine ⟨Nat.succ_le_succ (Nat.succ_le_succ ?_), by simp⟩
  exact length_le_takeWhile (fun e he => isWordPart_iff.mpr (hds e he)) (List.prefix_append _ _)

/-- A number has no more digits than are taken, and not more than one point. -/
theorem length_le_numberExtent {ds more : List Char} (hds : ∀ d ∈ ds, isNumberPart d = true)
    (hmore : more = [] ∨ ∃ es, more = '.' :: es ∧ ∀ e ∈ es, isNumberPart e = true)
    (hpre : ds ++ more <+: cs) : (ds ++ more).length ≤ numberExtent cs := by
  rcases hmore with rfl | ⟨es, rfl, hes⟩
  · rw [List.append_nil] at hpre ⊢
    refine (length_le_takeWhile hds hpre).trans ?_
    unfold numberExtent
    dsimp only
    split
    · omega
    · exact Nat.le_refl _
  · obtain ⟨rest, rfl⟩ := hpre
    have hpoint : isNumberPart '.' = false := by decide
    rw [List.append_assoc, numberExtent, List.takeWhile_append_of_pos hds,
      List.dropWhile_append_of_pos hds, List.cons_append,
      List.takeWhile_cons_of_neg (ne_true_of_eq_false hpoint),
      List.dropWhile_cons_of_neg (ne_true_of_eq_false hpoint), List.append_nil]
    have hle := length_le_takeWhile hes (List.prefix_append es rest)
    simp only [List.length_append, List.length_cons]
    omega

/-- A point in front of a digit begins a number. -/
theorem frontDot_digit (h : c.isDigit = true) :
    frontDot (c :: cs) = (.plain .number, (cs.takeWhile isNumberPart).length + 1) := by
  have hpoint : c ≠ '.' := by
    rintro rfl
    exact absurd h (by decide)
  unfold frontDot
  split
  · rename_i heq
    exact absurd (List.cons.inj heq).1 hpoint
  · rename_i heq
    obtain ⟨rfl, rfl⟩ := List.cons.inj heq
    rw [if_pos h]
  · rename_i heq
    cases heq

/-- So a number is reached, whether it begins with a digit or with a point. -/
theorem reached_number (hw : w ∈ number) (hpre : w <+: c :: cs) : Reached c cs w := by
  rcases mem_number.mp hw with ⟨d, ds, more, rfl, hd, hds, hmore⟩ | ⟨d, ds, rfl, hd, hds⟩
  · obtain ⟨rfl, htail⟩ := List.cons_prefix_cons.mp hpre
    rw [Reached, front_digit cs (isDigit_iff.mpr hd)]
    refine ⟨Nat.succ_le_succ (length_le_numberExtent (fun e he => ?_) ?_ htail), by simp⟩
    · exact isNumberPart_iff.mpr (hds e he)
    · refine hmore.imp_right ?_
      rintro ⟨es, rfl, hes⟩
      exact ⟨es, rfl, fun e he => isNumberPart_iff.mpr (hes e he)⟩
  · obtain ⟨rfl, rest, rfl⟩ := List.cons_prefix_cons.mp hpre
    rw [List.cons_append, Reached, front_dot, frontDot_digit (isDigit_iff.mpr hd)]
    refine ⟨Nat.succ_le_succ (Nat.succ_le_succ ?_), by simp⟩
    exact length_le_takeWhile (fun e he => isNumberPart_iff.mpr (hds e he))
      (List.prefix_append _ _)

/-- A literal ends with the first quote that is not escaped. -/
theorem reached_literal {value : String} (hw : w ∈ literal value) (hpre : w <+: c :: cs) :
    Reached c cs w := by
  obtain ⟨q, body, hq, hbody, rfl, -⟩ := hw
  obtain ⟨rfl, rest, rfl⟩ := List.cons_prefix_cons.mp hpre
  rw [Reached, front_quote _ hq, frontQuote, List.append_assoc, List.singleton_append,
    Quoted.scan_elements hq hbody, Quoted.scan_quote]
  refine ⟨?_, by simp⟩
  simp only [List.length_cons, List.length_append, List.length_nil]
  omega

/-- A template ends where the first one that is closed does. -/
theorem reached_template (hw : w ∈ template) (hpre : w <+: c :: cs) : Reached c cs w := by
  obtain ⟨body, hbody, rfl⟩ := mem_template.mp hw
  obtain ⟨rfl, rest, rfl⟩ := List.cons_prefix_cons.mp hpre
  rw [Reached, front_backtick, Template.extent, Template.closing_append hbody]
  exact ⟨Nat.le_refl _, by simp⟩

/-- What begins with a slash is a comment or an operator. -/
theorem frontSlash_known (cs : List Char) : (frontSlash cs).1 ≠ .plain .unknown := by
  unfold frontSlash
  split
  · simp
  · simp
  · simp

/-- A sign that stands alone has a token of its own. -/
theorem loneToken_known (h : c ∈ loneSigns) : loneToken c ≠ .unknown := by
  have hall : loneSigns.all (fun d => loneToken d ≠ .unknown) = true := by decide
  simpa using List.all_eq_true.mp hall c h

theorem reached_loneSign (h : c ∈ loneSigns) (hw : w.length = 1) : Reached c cs w := by
  rw [Reached, front_loneSign cs h]
  refine ⟨Nat.le_of_eq hw, ?_⟩
  intro heq
  exact loneToken_known h (Shape.plain.inj heq)

/-- An operator is one character, and a slash is one if no comment begins with it. -/
theorem reached_operator {d : Char} (hd : d ∈ ['-', '+', '/', '%', '^', '~'])
    (hpre : [d] <+: c :: cs) : Reached c cs [d] := by
  obtain ⟨rfl, -⟩ := List.cons_prefix_cons.mp hpre
  simp only [List.mem_cons, List.not_mem_nil, or_false] at hd
  rcases hd with rfl | rfl | rfl | hsign
  · exact reached_loneSign (by decide) rfl
  · exact reached_loneSign (by decide) rfl
  · exact ⟨Nat.le_add_left _ _, frontSlash_known cs⟩
  · rcases hsign with rfl | rfl | rfl <;> exact reached_loneSign (by decide) rfl

/-- A token that is always written in the same way is one sign, or one of four. -/
theorem spelling_cases {t : Token} (h : spelling t = some w) :
    (∃ d ∈ loneSigns, w = [d] ∧ loneToken d = t) ∨ (t = .dot ∧ w = ['.']) ∨
      (t = .ellipsis ∧ w = ['.', '.', '.']) ∨ (t = .equals ∧ w = ['=']) ∨
      (t = .arrow ∧ w = ['=', '>']) := by
  cases t with
  | dot => exact Or.inr (Or.inl ⟨rfl, (Option.some.inj h).symm⟩)
  | ellipsis => exact Or.inr (Or.inr (Or.inl ⟨rfl, (Option.some.inj h).symm⟩))
  | equals => exact Or.inr (Or.inr (Or.inr (Or.inl ⟨rfl, (Option.some.inj h).symm⟩)))
  | arrow => exact Or.inr (Or.inr (Or.inr (Or.inr ⟨rfl, (Option.some.inj h).symm⟩)))
  | word | privateName | string | template | number | operator | unknown => cases h
  | _ => exact Or.inl ⟨_, by decide, (Option.some.inj h).symm, rfl⟩

/-- Tokens with one spelling are reached by it. -/
theorem reached_spelling {t : Token} (h : spelling t = some w) (hpre : w <+: c :: cs) :
    Reached c cs w := by
  rcases spelling_cases h with ⟨d, hd, rfl, -⟩ | ⟨-, rfl⟩ | ⟨-, rfl⟩ | ⟨-, rfl⟩ | ⟨-, rfl⟩
  · -- a sign that begins no other token
    obtain ⟨rfl, -⟩ := List.cons_prefix_cons.mp hpre
    exact reached_loneSign hd rfl
  · -- one point
    obtain ⟨rfl, -⟩ := List.cons_prefix_cons.mp hpre
    refine ⟨Nat.le_add_left _ _, ?_⟩
    rw [front_dot]
    unfold frontDot
    split
    · simp
    · split
      · simp
      · simp
    · simp
  · -- three points
    obtain ⟨rfl, rest, rfl⟩ := List.cons_prefix_cons.mp hpre
    exact ⟨Nat.le_refl _, by simp [front_dot, frontDot]⟩
  · -- an equals sign
    obtain ⟨rfl, -⟩ := List.cons_prefix_cons.mp hpre
    refine ⟨Nat.le_add_left _ _, ?_⟩
    rw [front_equals]
    unfold frontEquals
    split
    · simp
    · simp
  · -- an arrow
    obtain ⟨rfl, rest, rfl⟩ := List.cons_prefix_cons.mp hpre
    exact ⟨Nat.le_refl _, by simp [front_equals, frontEquals]⟩

/-- No pattern of a token matches more than what is taken. -/
theorem reached_pattern {t : Token} (hw : w ∈ pattern t) (hpre : w <+: c :: cs) :
    Reached c cs w := by
  cases t with
  | word text => exact reached_word hw.1 hpre
  | privateName text => exact reached_privateName hw.1 hpre
  | string value => exact reached_literal hw hpre
  | template => exact reached_template hw hpre
  | number => exact reached_number hw hpre
  | operator =>
      obtain ⟨d, hd, rfl⟩ := hw
      exact reached_operator hd hpre
  | unknown => cases hw
  | _ => exact reached_spelling hw hpre

theorem reached_lineComment (hw : w ∈ lineComment) (hpre : w <+: c :: cs) : Reached c cs w := by
  obtain ⟨ds, hw, hds⟩ := mem_lineComment.mp hw
  have hline : ∀ rest, ds.length ≤ lineExtent (ds ++ rest) := by
    intro rest
    exact length_le_takeWhile (fun d hd => by simpa using hds d hd) (List.prefix_append ds rest)
  rcases hw with rfl | rfl
  · obtain ⟨rfl, rest, rfl⟩ := List.cons_prefix_cons.mp hpre
    refine ⟨Nat.succ_le_succ (Nat.succ_le_succ (hline rest)), ?_⟩
    simp [front_slash, frontSlash]
  · obtain ⟨rfl, rest, rfl⟩ := List.cons_prefix_cons.mp hpre
    refine ⟨Nat.succ_le_succ (Nat.succ_le_succ (hline rest)), ?_⟩
    simp [front_hash, frontHash]

/-- **The longest match.**  What is taken at the front of a text is at least as long as what any
    pattern matches there, and unknown only if none matches. -/
theorem front_longest (hw : Matches w) (hpre : w <+: c :: cs) : Reached c cs w := by
  rcases hw with ⟨t, ht⟩ | hline | hblock | hblanks
  · exact reached_pattern ht hpre
  · exact reached_lineComment hline hpre
  · obtain rfl := mem_exactly.mp hblock
    obtain ⟨rfl, rest, rfl⟩ := List.cons_prefix_cons.mp hpre
    exact ⟨Nat.succ_le_succ (Nat.le_add_left _ _), by simp [front_slash, frontSlash]⟩
  · obtain ⟨d, ds, rfl, hd, hds⟩ := mem_one_mul_kstar.mp hblanks
    obtain ⟨rfl, htail⟩ := List.cons_prefix_cons.mp hpre
    rw [Reached, front_blank cs (isBlank_iff.mpr hd)]
    refine ⟨Nat.succ_le_succ (length_le_takeWhile (fun e he => ?_) htail), by simp⟩
    exact isBlank_iff.mpr (hds e he)

/-- Where nothing is known, nothing matches. -/
theorem not_matches_of_unknown (h : (front c cs).1 = .plain .unknown) (hpre : w <+: c :: cs) :
    ¬ Matches w :=
  fun hw => (front_longest hw hpre).2 h

end Longest

-- ── What is taken has its form ───────────────────────────────────────────────────

/-- A segment `c :: own` in front of `rest` has the form of its class. -/
inductive Form (c : Char) (own rest : List Char) : Shape → Prop
  | gap : Gap rest (c :: own) → Form c own rest .gap
  | word : c :: own ∈ Lexical.word → Form c own rest .word
  | privateName : c :: own ∈ Lexical.privateName → Form c own rest .privateName
  | quoted {body : List Char} : IsQuote c → body ∈ (element c)∗ → own = body ++ [c] →
      Form c own rest .quoted
  | plain {t : Token} : Stands rest t (c :: own) → Form c own rest (.plain t)

/-- This class and this many characters of `cs` make a segment at the front of `c :: cs`. -/
def Cuts (c : Char) (cs : List Char) (answer : Shape × Nat) : Prop :=
  ∃ own rest, cs = own ++ rest ∧ answer.2 = own.length ∧ Form c own rest answer.1

section Forms

variable {c : Char} {cs : List Char}

/-- A run of characters of a class. -/
theorem cuts_takeWhile {shape : Shape} (p : Char → Bool)
    (h : (∀ d ∈ cs.takeWhile p, p d = true) →
      Form c (cs.takeWhile p) (cs.dropWhile p) shape) :
    Cuts c cs (shape, (cs.takeWhile p).length) :=
  ⟨_, _, (List.takeWhile_append_dropWhile).symm, rfl, h fun _ hd => List.mem_takeWhile_imp hd⟩

theorem gap_blanks {rest own : List Char} (h : ∀ d ∈ own, isBlank d = true) : Gap rest own := by
  induction own with
  | nil => exact .nil rest
  | cons c own ih =>
      obtain ⟨hc, hown⟩ := List.forall_mem_cons.mp h
      exact .blank (isBlank_iff.mp hc) (ih hown)

/-- A comment that takes the rest of its line ends where the line does. -/
theorem cuts_line {a b : Char} (h : a = '/' ∧ b = '/' ∨ a = '#' ∧ b = '!') :
    Cuts a (b :: cs) (.gap, lineExtent cs + 1) := by
  refine ⟨b :: cs.takeWhile (· ≠ '\n'), cs.dropWhile (· ≠ '\n'), ?_, rfl, .gap ?_⟩
  · rw [List.cons_append, List.takeWhile_append_dropWhile]
  · rw [← List.append_nil (a :: _)]
    refine .line (mem_lineComment.mpr ⟨cs.takeWhile (· ≠ '\n'), ?_, ?_⟩) ?_ (.nil _)
    · rcases h with ⟨rfl, rfl⟩ | ⟨rfl, rfl⟩
      · exact Or.inl rfl
      · exact Or.inr rfl
    · intro d hd
      simpa using List.mem_takeWhile_imp hd
    · have hend := List.head?_dropWhile_not (· ≠ '\n') cs
      rw [List.nil_append]
      cases hhead : (cs.dropWhile (· ≠ '\n')).head? with
      | none => rfl
      | some d =>
          rw [hhead] at hend
          simpa using hend

/-- A comment between signs is closed, or takes the rest of the text. -/
theorem cuts_block : Cuts '/' ('*' :: cs) (.gap, blockExtent cs + 1) := by
  rcases blockExtent_cases cs with ⟨body, rest, rfl, hbody, hextent⟩ | ⟨hno, hextent⟩
  · refine ⟨'*' :: (body ++ ['*', '/']), rest, by simp, ?_, .gap (.block hbody (.nil rest))⟩
    rw [hextent]
    simp
  · exact ⟨'*' :: cs, [], (List.append_nil _).symm, by rw [hextent]; rfl, .gap (.openBlock hno)⟩

/-- A token of one character. -/
theorem cuts_single {t : Token} (h : Stands cs t [c]) : Cuts c cs (.plain t, 0) :=
  ⟨[], cs, rfl, rfl, .plain h⟩

/-- A character with which nothing known begins. -/
theorem cuts_unknown (hquote : ¬ IsQuote c) (h : front c cs = (.plain .unknown, 0)) :
    Cuts c cs (.plain .unknown, 0) :=
  cuts_single (.unclassified hquote
    fun _ hpre => not_matches_of_unknown (congrArg Prod.fst h) hpre)

/-- A number is taken with its digits and at most one point. -/
theorem cuts_number (hc : IsDigit c) : Cuts c cs (.plain .number, numberExtent cs) := by
  have hpart : ∀ l : List Char, ∀ d ∈ l.takeWhile isNumberPart, ContinuesNumber d :=
    fun l d hd => isNumberPart_iff.mp (List.mem_takeWhile_imp hd)
  unfold numberExtent
  dsimp only
  split
  · rename_i rest hrest
    refine ⟨cs.takeWhile isNumberPart ++ '.' :: rest.takeWhile isNumberPart,
      rest.dropWhile isNumberPart, ?_, ?_, .plain (.complete (mem_number.mpr (Or.inl
        ⟨c, _, _, rfl, hc, hpart cs, Or.inr ⟨_, rfl, hpart rest⟩⟩)))⟩
    · rw [List.append_assoc, List.cons_append, List.takeWhile_append_dropWhile, ← hrest,
        List.takeWhile_append_dropWhile]
    · simp only [List.length_append, List.length_cons]
      omega
  · refine cuts_takeWhile isNumberPart fun _ => .plain (.complete (mem_number.mpr (Or.inl
      ⟨c, cs.takeWhile isNumberPart, [], ?_, hc, hpart cs, Or.inl rfl⟩)))
    rw [List.append_nil]

/-- A slash begins a comment, or stands alone. -/
theorem cuts_slash : Cuts '/' cs (frontSlash cs) := by
  unfold frontSlash
  split
  · exact cuts_line (Or.inl ⟨rfl, rfl⟩)
  · exact cuts_block
  · exact cuts_single (.complete ⟨'/', by decide, rfl⟩)

/-- A number sign begins a comment or a private name, or nothing known. -/
theorem frontHash_cases (cs : List Char) :
    (∃ rest, cs = '!' :: rest ∧ frontHash cs = (.gap, lineExtent rest + 1)) ∨
    (∃ c rest, cs = c :: rest ∧ isWordStart c = true) ∨
    frontHash cs = (.plain .unknown, 0) := by
  unfold frontHash
  split
  · exact Or.inl ⟨_, rfl, rfl⟩
  · rename_i c rest _
    by_cases hc : isWordStart c = true
    · exact Or.inr (Or.inl ⟨c, rest, rfl, hc⟩)
    · exact Or.inr (Or.inr (if_neg hc))
  · exact Or.inr (Or.inr rfl)

/-- In each of these cases it is cut as its pattern says. -/
theorem cuts_hash : Cuts '#' cs (frontHash cs) := by
  rcases frontHash_cases cs with ⟨rest, rfl, h⟩ | ⟨c, rest, rfl, hc⟩ | h
  · rw [h]
    exact cuts_line (Or.inr ⟨rfl, rfl⟩)
  · rw [frontHash_wordStart hc]
    refine ⟨c :: rest.takeWhile isWordPart, rest.dropWhile isWordPart, ?_, rfl,
      .privateName (mem_privateName.mpr ⟨c, _, rfl, isWordStart_iff.mp hc, ?_⟩)⟩
    · rw [List.cons_append, List.takeWhile_append_dropWhile]
    · exact fun d hd => isWordPart_iff.mp (List.mem_takeWhile_imp hd)
  · rw [h]
    exact cuts_unknown (by unfold IsQuote; decide) h

/-- A point begins an ellipsis or a number, or stands alone. -/
theorem cuts_dot : Cuts '.' cs (frontDot cs) := by
  unfold frontDot
  split
  · rename_i rest
    exact ⟨['.', '.'], rest, rfl, rfl, .plain (.complete rfl)⟩
  · rename_i c rest _
    by_cases hc : c.isDigit = true
    · rw [if_pos hc]
      refine ⟨c :: rest.takeWhile isNumberPart, rest.dropWhile isNumberPart, ?_, rfl,
        .plain (.complete (mem_number.mpr (Or.inr ⟨c, _, rfl, isDigit_iff.mp hc, ?_⟩)))⟩
      · rw [List.cons_append, List.takeWhile_append_dropWhile]
      · exact fun d hd => isNumberPart_iff.mp (List.mem_takeWhile_imp hd)
    · rw [if_neg hc]
      exact cuts_single (.complete rfl)
  · exact cuts_single (.complete rfl)

/-- An equals sign begins an arrow, or stands alone. -/
theorem cuts_equals : Cuts '=' cs (frontEquals cs) := by
  unfold frontEquals
  split
  · rename_i rest
    exact ⟨['>'], rest, rfl, rfl, .plain (.complete rfl)⟩
  · exact cuts_single (.complete rfl)

/-- A literal is closed, or as long as it can be read. -/
theorem cuts_quote (hc : IsQuote c) : Cuts c cs (frontQuote c cs) := by
  obtain ⟨body, rest, hbody, ⟨rfl, hscan⟩ | ⟨rfl, hstuck, hscan⟩⟩ := Quoted.scan_cases c cs
  · rw [frontQuote, hscan]
    refine ⟨body ++ [c], rest, by simp, by simp, .quoted hc hbody rfl⟩
  · have hfront : front c (body ++ rest) = (.plain .unknown, body.length) := by
      rw [front_quote _ hc, frontQuote, hscan]
      rfl
    rw [← front_quote _ hc, hfront]
    exact ⟨body, rest, rfl, rfl, .plain (.openLiteral hc hbody hstuck
      fun _ hpre => not_matches_of_unknown (congrArg Prod.fst hfront) hpre)⟩

/-- A template is closed, or takes the rest of the text. -/
theorem cuts_template : Cuts '\x60' cs (.plain .template, Template.extent cs) := by
  rcases Template.extent_cases cs with ⟨body, rest, rfl, hbody, hextent⟩ | ⟨hno, hextent⟩
  · exact ⟨body, rest, rfl, hextent, .plain (.complete (mem_template.mpr ⟨body, hbody, rfl⟩))⟩
  · refine ⟨cs, [], (List.append_nil cs).symm, hextent, .plain (.openTemplate rfl ?_)⟩
    rintro front ⟨rest, rfl⟩
    exact hno front rest rfl

/-- A character that no token is known for stands for an unknown one. -/
theorem mem_loneSigns_or (c : Char) : c ∈ loneSigns ∨ loneToken c = .unknown := by
  unfold loneToken
  split
  all_goals first | exact Or.inl (by decide) | exact Or.inr rfl

/-- A sign that stands alone has the pattern of its token. -/
theorem mem_pattern_loneToken (h : c ∈ loneSigns) : [c] ∈ pattern (loneToken c) := by
  have hop : ∀ d ∈ ['-', '+', '/', '%', '^', '~'], [d] ∈ pattern .operator :=
    fun d hd => ⟨d, hd, rfl⟩
  rcases List.mem_append.mp h with hsign | hsign
  · clear h
    revert hsign
    revert c
    simp only [signs, List.forall_mem_cons]
    exact ⟨rfl, rfl, rfl, rfl, rfl, rfl, rfl, rfl, rfl, rfl, rfl, rfl, rfl, rfl, rfl, by simp⟩
  · clear h
    revert hsign
    revert c
    simp only [List.forall_mem_cons]
    exact ⟨rfl, rfl, hop _ (by decide), hop _ (by decide), hop _ (by decide), hop _ (by decide),
      hop _ (by decide), by simp⟩

/-- **The form of a segment.**  What is taken at the front of a text has the form of its class. -/
theorem front_cuts (c : Char) (cs : List Char) : Cuts c cs (front c cs) := by
  by_cases hblank : isBlank c = true
  · rw [front_blank cs hblank]
    exact cuts_takeWhile isBlank fun h => .gap (gap_blanks (List.forall_mem_cons.mpr ⟨hblank, h⟩))
  by_cases hword : isWordStart c = true
  · rw [front_wordStart cs hword]
    refine cuts_takeWhile isWordPart fun h => .word (mem_one_mul_kstar.mpr
      ⟨c, _, rfl, isWordStart_iff.mp hword, fun d hd => isWordPart_iff.mp (h d hd)⟩)
  by_cases hdigit : c.isDigit = true
  · rw [front_digit cs hdigit]
    exact cuts_number (isDigit_iff.mp hdigit)
  by_cases hslash : c = '/'
  · subst hslash
    exact cuts_slash
  by_cases hhash : c = '#'
  · subst hhash
    exact cuts_hash
  by_cases hdot : c = '.'
  · subst hdot
    exact cuts_dot
  by_cases hequals : c = '='
  · subst hequals
    exact cuts_equals
  by_cases hquote : c = '"' ∨ c = '\''
  · rw [front_quote cs hquote]
    exact cuts_quote hquote
  by_cases hback : c = '\x60'
  · subst hback
    exact cuts_template
  have hfront : front c cs = (.plain (loneToken c), 0) := by
    rw [front, if_neg hblank, if_neg hword, if_neg hdigit, if_neg hslash, if_neg hhash,
      if_neg hdot, if_neg hequals, if_neg hquote, if_neg hback]
  rw [hfront]
  rcases mem_loneSigns_or c with hsign | hunknown
  · exact cuts_single (.complete (mem_pattern_loneToken hsign))
  · rw [hunknown] at hfront ⊢
    exact cuts_unknown hquote hfront

end Forms

-- ── Places ───────────────────────────────────────────────────────────────────────

/-- The place behind some text, counted: its bytes, its line feeds, and its characters behind the
    last of these. -/
def Position.behind (cs : List Char) : Position :=
  ⟨String.utf8Len cs, 1 + cs.count '\n', 1 + (cs.reverse.takeWhile (· ≠ '\n')).length⟩

/-- Walking over a text leads to the place behind it. -/
theorem Position.after_origin (cs : List Char) : Position.origin.after cs = .behind cs := by
  induction cs using List.reverseRecOn with
  | nil => rfl
  | append_singleton cs c ih =>
      rw [Position.after_append, ih, Position.after_cons, Position.after_nil, Position.next]
      by_cases hc : c = '\n'
      · simp [Position.behind, String.utf8Len_append, hc]
        omega
      · simp [Position.behind, String.utf8Len_append, hc]
        omega

/-- The place behind a text, seen from behind a part of it. -/
theorem Position.after_behind (past cs : List Char) :
    (Position.behind past).after cs = .behind (past ++ cs) := by
  rw [← after_origin, ← after_origin, after_append]

namespace Lexeme

/-- The text that tokens cover, with the gaps in front of them. -/
def layout (ls : List Lexeme) : List Char := ls.flatMap fun l => l.gap ++ l.text

/-- A token at its place between `past` and `rest`: it stands for its text, and no pattern matches
    more there; the gap before it is one; and its span is counted from all that is before it. -/
structure Placed (past : List Char) (l : Lexeme) (rest : List Char) : Prop where
  text_ne_nil : l.text ≠ []
  gap : Gap (l.text ++ rest) l.gap
  stands : Stands rest l.token l.text
  longest : ∀ w, w <+: l.text ++ rest → Matches w → w.length ≤ l.text.length
  start_eq : l.span.start = .behind (past ++ l.gap)
  stop_eq : l.span.stop = String.utf8Len (past ++ l.gap ++ l.text)
  newline_iff : l.newlineBefore = true ↔ '\n' ∈ l.gap

end Lexeme

/-- A segment stands for no token or for one with its text. -/
theorem Form.token {c : Char} {own rest : List Char} {shape : Shape} (h : Form c own rest shape) :
    (shape.token? (c :: own) = none ∧ Gap rest (c :: own)) ∨
      ∃ t, shape.token? (c :: own) = some t ∧ Stands rest t (c :: own) := by
  cases h with
  | gap h => exact Or.inl ⟨rfl, h⟩
  | word h =>
      refine Or.inr ⟨_, rfl, .complete ⟨h, ?_⟩⟩
      exact String.toList_ofList.symm
  | privateName h =>
      refine Or.inr ⟨_, rfl, .complete ⟨h, ?_⟩⟩
      exact String.toList_ofList.symm
  | quoted hc hbody hown =>
      subst hown
      refine Or.inr ⟨_, rfl, .complete ⟨c, _, hc, hbody, rfl, ?_⟩⟩
      rw [List.tail_cons, List.dropLast_concat]
  | plain h => exact Or.inr ⟨_, rfl, h⟩

namespace TokenList

/-- One token in front of others that are placed. -/
theorem placed_cons {past gap own rest : List Char} {c : Char} {t : Token} {ts : TokenList}
    (hgap : Gap (c :: own ++ rest) gap) (hstands : Stands rest t (c :: own))
    (hlen : (front c (own ++ rest)).2 = own.length)
    (hrest : rest = Lexeme.layout ts.lexemes ++ ts.trail)
    (hts : ∀ before l after, ts.lexemes = before ++ l :: after →
      l.Placed (past ++ gap ++ c :: own ++ Lexeme.layout before)
        (Lexeme.layout after ++ ts.trail)) :
    let first : Lexeme := ⟨t, gap, c :: own,
      ⟨.behind (past ++ gap), String.utf8Len (past ++ gap ++ c :: own)⟩⟩
    ∀ before l after, first :: ts.lexemes = before ++ l :: after →
      l.Placed (past ++ Lexeme.layout before) (Lexeme.layout after ++ ts.trail) := by
  intro first before l after h
  cases before with
  | nil =>
      obtain ⟨rfl, rfl⟩ := List.cons.inj h
      rw [← hrest, Lexeme.layout, List.flatMap_nil, List.append_nil]
      refine ⟨List.cons_ne_nil _ _, hgap, hstands, ?_, rfl, rfl, ?_⟩
      · intro w hpre hw
        have hle : w.length ≤ (front c (own ++ rest)).2 + 1 := (front_longest hw hpre).1
        rw [hlen] at hle
        exact hle
      · exact List.contains_iff_mem
  | cons m before =>
      obtain ⟨rfl, hsplit⟩ := List.cons.inj h
      have hplaced := hts before l after hsplit
      rw [List.append_assoc, List.append_assoc, ← List.append_assoc gap] at hplaced
      exact hplaced

/-- **Segments are placed as they stand.**  From any place on, behind any gap that has begun, the
    tokens and gaps cover the text that follows, and each token is placed. -/
theorem placed_place (cs : List Char) :
    ∀ past gap : List Char, Gap cs gap →
      let ts := place (.behind past) gap (segments cs)
      gap ++ cs = Lexeme.layout ts.lexemes ++ ts.trail ∧ Gap [] ts.trail ∧
        ∀ before l after, ts.lexemes = before ++ l :: after →
          l.Placed (past ++ Lexeme.layout before) (Lexeme.layout after ++ ts.trail) := by
  induction cs using suffix_induction with
  | nil =>
      intro past gap hgap
      rw [segments, place]
      refine ⟨List.append_nil gap, hgap, ?_⟩
      intro before l after h
      exact absurd h.symm (List.append_ne_nil_of_right_ne_nil _ (List.cons_ne_nil _ _))
  | cons c cs ih =>
      intro past gap hgap
      obtain ⟨own, rest, rfl, hlen, hform⟩ := front_cuts c cs
      have hbehind : rest <:+ own ++ rest := List.suffix_append own rest
      rw [segments_cons, hlen, List.take_left, List.drop_left, place]
      rcases hform.token with ⟨hnone, hown⟩ | ⟨t, ht, hstands⟩
      · rw [Segment.token?, hnone]
        obtain ⟨hcover, htrail, hplaced⟩ :=
          ih rest hbehind past (gap ++ c :: own) (Gap.append hgap hown)
        refine ⟨?_, htrail, hplaced⟩
        rw [← hcover, List.append_assoc]
        rfl
      · rw [Segment.token?, ht]
        obtain ⟨hcover, htrail, hplaced⟩ :=
          ih rest hbehind (past ++ gap ++ c :: own) [] (.nil rest)
        dsimp only
        rw [Position.after_behind, Position.after_behind]
        refine ⟨?_, htrail, placed_cons hgap hstands hlen hcover hplaced⟩
        show gap ++ c :: (own ++ rest) = ((gap ++ c :: own) ++ Lexeme.layout _) ++ _
        rw [List.append_assoc, ← hcover, List.append_assoc]
        rfl

end TokenList

/-- Behind some of its characters, a text may be cut. -/
theorem isValid_utf8Len {text : String} {cs rest : List Char} (h : text.toList = cs ++ rest) :
    (⟨String.utf8Len cs⟩ : String.Pos.Raw).IsValid text := by
  refine String.Pos.Raw.isValid_iff_exists_append.mpr
    ⟨String.ofList cs, String.ofList rest, ?_, ?_⟩
  · rw [← String.ofList_append, ← h, String.ofList_toList]
  · rw [← String.toList_ofList (l := cs), String.utf8Len_toList, String.toList_ofList]
    rfl

/-- **Tokens cover their text.**  Tokens, the gaps before them and what follows the last are the
    whole text, in order.  Each token is not empty, stands for its text as its kind says, is the
    longest match of any token or comment at its place, and carries the bytes, line and column that
    the text before it gives; the gap before it, and what follows the last, is blanks and comments
    alone.  Tokens do not overlap, and start and end between characters.  Behind the last of them
    the text ends, on a line of its own. -/
theorem tokenize_covers (text : String) :
    let ts := tokenize text
    let last := (Cursor.start ts).advance ts.lexemes.length
    text.toList = Lexeme.layout ts.lexemes ++ ts.trail ∧
    (∀ before l after, ts.lexemes = before ++ l :: after →
      l.Placed (Lexeme.layout before) (Lexeme.layout after ++ ts.trail)) ∧
    Gap [] ts.trail ∧ ts.finish = .behind text.toList ∧
    Lexeme.InOrder text.utf8ByteSize 0 ts.lexemes ∧
    (∀ l ∈ ts.lexemes, (⟨l.span.start.offset⟩ : String.Pos.Raw).IsValid text ∧
      (⟨l.span.stop⟩ : String.Pos.Raw).IsValid text) ∧
    last.here = .empty (.behind text.toList) ∧ last.newlineBefore = true := by
  intro ts last
  obtain ⟨hcover, htrail, hplaced⟩ := TokenList.placed_place text.toList [] [] (.nil _)
  have hfinish : ts.finish = .behind text.toList := by
    show (tokenize text).finish = _
    rw [tokenize, finish_place, List.nil_append, flatten_segments, Position.after_origin]
  have hrest : last.rest = [] := by
    rw [Cursor.rest_advance]
    exact List.drop_length
  refine ⟨hcover, hplaced, htrail, hfinish, inOrder_tokenize text, ?_, ?_, ?_⟩
  · intro l hl
    obtain ⟨before, after, hsplit⟩ := List.append_of_mem hl
    have hplace : l.Placed (Lexeme.layout before) (Lexeme.layout after ++ ts.trail) :=
      hplaced before l after hsplit
    have htext : text.toList =
        Lexeme.layout before ++ l.gap ++ l.text ++ (Lexeme.layout after ++ ts.trail) := by
      rw [show text.toList = Lexeme.layout ts.lexemes ++ ts.trail from hcover, hsplit]
      simp [Lexeme.layout]
    rw [hplace.start_eq, hplace.stop_eq]
    exact ⟨isValid_utf8Len (htext.trans (List.append_assoc _ l.text _)), isValid_utf8Len htext⟩
  · rw [Cursor.here_of_rest_nil hrest, Cursor.finish_advance]
    exact congrArg Span.empty hfinish
  · rw [Cursor.newlineBefore, Cursor.newlineBeforeAt, hrest]
    rfl

end DeclAtlas

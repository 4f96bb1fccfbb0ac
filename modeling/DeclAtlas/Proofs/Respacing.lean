import DeclAtlas.Proofs.Tokenization
import DeclAtlas.Text.Split

/-!
# The same tokens with other gaps

Blanks and comments separate tokens and do nothing else.  Where no token is unknown, the texts of
the tokens are all that counts:

* **`tokenize_respaced`** — written one after the other with a space between two of them, they are
  cut into the same tokens again; so two texts whose tokens have the same texts have the same
  tokens.

A token is cut off as the same token in front of any blank (`leads_of_mem_pattern`), whatever
followed it before.  A template that never closes is taken to the end of its text; so it is the last
token, and nothing comes behind it (`Lexical.Stands.leads`).
-/

namespace DeclAtlas

open Lexical Text

/-- In front of `rest`, the text is cut off as the token. -/
def Leads (t : Token) (text rest : List Char) : Prop :=
  ∃ c own shape, text = c :: own ∧ front c (own ++ rest) = (shape, own.length) ∧
    shape.token? text = some t

/-- What leads is cut off, and the rest is cut as if nothing stood before. -/
theorem cutsOf_leads {t : Token} {text rest : List Char} (h : Leads t text rest)
    (gap : List Char) : cutsOf gap (text ++ rest) = (t, gap, text) :: cutsOf [] rest := by
  obtain ⟨c, own, shape, rfl, hfront, htoken⟩ := h
  rw [List.cons_append, cutsOf_front own rest gap hfront, htoken]

-- ── In front of a blank ──────────────────────────────────────────────────────────

/-- Nothing, or a blank and anything. -/
def Parted (rest : List Char) : Prop := ∀ c ∈ rest.head?, isBlank c = true

section Parted

variable {rest own : List Char} {p : Char → Bool}

/-- What is parted is empty or begins with a blank. -/
theorem Parted.cases (h : Parted rest) :
    rest = [] ∨ ∃ c cs, rest = c :: cs ∧ isBlank c = true := by
  cases rest with
  | nil => exact Or.inl rfl
  | cons c cs => exact Or.inr ⟨c, cs, rfl, h c rfl⟩

/-- No blank is a part of a word or a number, or one of these signs. -/
theorem not_part_of_isBlank {c : Char} (h : isBlank c = true) :
    isWordPart c = false ∧ isNumberPart c = false ∧ c.isDigit = false ∧
      c ∉ ['.', '/', '*', '>'] := by
  have hall : [' ', '\t', '\r', '\n', '\x0c', '\u00a0', '\ufeff'].all (fun c =>
      isWordPart c = false ∧ isNumberPart c = false ∧ c.isDigit = false ∧
        c ∉ ['.', '/', '*', '>']) = true := by decide
  exact of_decide_eq_true (List.all_eq_true.mp hall c (isBlank_iff.mp h))

/-- A run of characters of a class that has no blanks ends in front of a blank. -/
theorem Parted.takeWhile_eq (h : Parted rest) (hp : ∀ c, isBlank c = true → p c = false)
    (hown : ∀ c ∈ own, p c = true) : (own ++ rest).takeWhile p = own := by
  rw [List.takeWhile_append_of_pos hown]
  rcases h.cases with rfl | ⟨c, cs, rfl, hc⟩
  · exact List.append_nil own
  · rw [List.takeWhile_cons_of_neg (ne_true_of_eq_false (hp c hc)), List.append_nil]

/-- A run in which there are no blanks ends where the parted rest begins. -/
theorem Parted.dropWhile_eq (h : Parted rest) (hp : ∀ c, isBlank c = true → p c = false)
    (hown : ∀ c ∈ own, p c = true) : (own ++ rest).dropWhile p = rest := by
  rw [List.dropWhile_append_of_pos hown]
  rcases h.cases with rfl | ⟨c, cs, rfl, hc⟩
  · rfl
  · exact List.dropWhile_cons_of_neg (ne_true_of_eq_false (hp c hc))

theorem Parted.takeWhile_isWordPart (h : Parted rest) (hown : ∀ c ∈ own, ContinuesWord c) :
    (own ++ rest).takeWhile isWordPart = own :=
  h.takeWhile_eq (fun _ hc => (not_part_of_isBlank hc).1) fun c hc => isWordPart_iff.mpr (hown c hc)

theorem Parted.takeWhile_isNumberPart (h : Parted rest) (hown : ∀ c ∈ own, ContinuesNumber c) :
    (own ++ rest).takeWhile isNumberPart = own :=
  h.takeWhile_eq (fun _ hc => (not_part_of_isBlank hc).2.1)
    fun c hc => isNumberPart_iff.mpr (hown c hc)

/-- A number goes on behind its digits only at a point. -/
theorem Parted.numberExtent_eq (h : Parted rest) (hown : ∀ c ∈ own, ContinuesNumber c) :
    numberExtent (own ++ rest) = own.length := by
  have hdrop : (own ++ rest).dropWhile isNumberPart = rest :=
    h.dropWhile_eq (fun _ hc => (not_part_of_isBlank hc).2.1)
      fun c hc => isNumberPart_iff.mpr (hown c hc)
  rw [numberExtent, h.takeWhile_isNumberPart hown, hdrop]
  rcases h.cases with rfl | ⟨c, cs, rfl, hc⟩
  · rfl
  · have hpoint : c ≠ '.' := by
      rintro rfl
      exact absurd hc (by decide)
    split
    · rename_i heq
      exact absurd (List.cons.inj heq).1 hpoint
    · rfl

/-- Behind the point of a number come its last characters. -/
theorem Parted.numberExtent_point (h : Parted rest) (hown : ∀ c ∈ own, ContinuesNumber c)
    {more : List Char} (hmore : ∀ c ∈ more, ContinuesNumber c) :
    numberExtent (own ++ '.' :: (more ++ rest)) = (own ++ '.' :: more).length := by
  have hpart : ∀ c ∈ own, isNumberPart c = true := fun c hc => isNumberPart_iff.mpr (hown c hc)
  have hpoint : isNumberPart '.' = false := by decide
  rw [numberExtent, List.takeWhile_append_of_pos hpart,
    List.dropWhile_append_of_pos hpart,
    List.takeWhile_cons_of_neg (ne_true_of_eq_false hpoint),
    List.dropWhile_cons_of_neg (ne_true_of_eq_false hpoint), List.append_nil]
  show own.length + 1 + ((more ++ rest).takeWhile isNumberPart).length = _
  rw [h.takeWhile_isNumberPart hmore, List.length_append, List.length_cons]
  omega

-- ── Tokens in front of a blank ───────────────────────────────────────────────────

/-- A token of one character. -/
theorem leads_single {c : Char} {t : Token} (h : front c rest = (.plain t, 0)) :
    Leads t [c] rest := ⟨c, [], _, rfl, h, rfl⟩

/-- A word is cut off in front of a blank. -/
theorem leads_word {w : List Char} (hw : w ∈ word) (h : Parted rest) :
    Leads (.word (String.ofList w)) w rest := by
  obtain ⟨c, own, rfl, hc, hown⟩ := mem_one_mul_kstar.mp hw
  refine ⟨c, own, .word, rfl, ?_, rfl⟩
  rw [front_wordStart _ (isWordStart_iff.mpr hc), h.takeWhile_isWordPart hown]

theorem leads_privateName {w : List Char} (hw : w ∈ privateName) (h : Parted rest) :
    Leads (.privateName (String.ofList w)) w rest := by
  obtain ⟨c, own, rfl, hc, hown⟩ := mem_privateName.mp hw
  refine ⟨'#', c :: own, .privateName, rfl, ?_, rfl⟩
  rw [front_hash, List.cons_append, frontHash_wordStart (isWordStart_iff.mpr hc),
    h.takeWhile_isWordPart hown]
  rfl

/-- A literal is closed by its quote, whatever follows. -/
theorem leads_literal {value : String} {w : List Char} (hw : w ∈ literal value) :
    Leads (.string value) w rest := by
  obtain ⟨q, body, hq, hbody, rfl, rfl⟩ := hw
  refine ⟨q, body ++ [q], .quoted, rfl, ?_, ?_⟩
  · rw [front_quote _ hq, frontQuote, List.append_assoc, List.singleton_append,
      Quoted.scan_elements hq hbody, Quoted.scan_quote, List.length_append, Nat.add_comm]
    rfl
  · show some (Token.string (String.ofList (Quoted.decode (body ++ [q]).dropLast))) = _
    rw [List.dropLast_concat]

/-- A template ends with its own sign, whatever follows. -/
theorem leads_template {w : List Char} (hw : w ∈ template) : Leads .template w rest := by
  obtain ⟨body, hbody, rfl⟩ := mem_template.mp hw
  refine ⟨'\x60', body, .plain .template, rfl, ?_, rfl⟩
  rw [front_backtick, Template.extent, Template.closing_append hbody]
  rfl

/-- What is open at the end of a text is a template to the end of the text. -/
theorem leads_openTemplate {body : List Char}
    (h : ∀ front, front <+: body → ¬ Template.Part.text.Reads front) :
    Leads .template ('\x60' :: body) [] := by
  refine ⟨'\x60', body, .plain .template, rfl, ?_, rfl⟩
  rw [List.append_nil, front_backtick]
  rcases Template.extent_cases body with ⟨front, after, hsplit, hreads, -⟩ | ⟨-, hextent⟩
  · exact absurd hreads (h front ⟨after, hsplit.symm⟩)
  · rw [hextent]

/-- A number does not go on behind a blank. -/
theorem leads_number {w : List Char} (hw : w ∈ number) (h : Parted rest) :
    Leads .number w rest := by
  rcases mem_number.mp hw with ⟨c, own, more, rfl, hc, hown, hmore⟩ | ⟨c, own, rfl, hc, hown⟩
  · refine ⟨c, own ++ more, .plain .number, rfl, ?_, rfl⟩
    rw [front_digit _ (isDigit_iff.mpr hc)]
    rcases hmore with rfl | ⟨ds, rfl, hds⟩
    · rw [List.append_nil, h.numberExtent_eq hown]
    · rw [List.append_assoc, List.cons_append, h.numberExtent_point hown hds]
  · refine ⟨'.', c :: own, .plain .number, rfl, ?_, rfl⟩
    rw [front_dot, List.cons_append, frontDot_digit (isDigit_iff.mpr hc),
      h.takeWhile_isNumberPart hown]
    rfl

/-- A slash in front of a blank begins no comment. -/
theorem leads_slash (h : Parted rest) : Leads .operator ['/'] rest := by
  refine leads_single ?_
  rw [front_slash]
  rcases h.cases with rfl | ⟨c, cs, rfl, hc⟩
  · rfl
  · have hsign := (not_part_of_isBlank hc).2.2.2
    simp only [List.mem_cons, List.not_mem_nil, not_or] at hsign
    simp [frontSlash, hsign]

/-- A point in front of a blank is neither a number nor an ellipsis. -/
theorem leads_dot (h : Parted rest) : Leads .dot ['.'] rest := by
  refine leads_single ?_
  rw [front_dot]
  rcases h.cases with rfl | ⟨c, cs, rfl, hc⟩
  · rfl
  · obtain ⟨-, -, hdigit, hsign⟩ := not_part_of_isBlank hc
    simp only [List.mem_cons, List.not_mem_nil, not_or] at hsign
    simp [frontDot, hsign, hdigit]

/-- An equals sign in front of a blank is no arrow. -/
theorem leads_equals (h : Parted rest) : Leads .equals ['='] rest := by
  refine leads_single ?_
  rw [front_equals]
  rcases h.cases with rfl | ⟨c, cs, rfl, hc⟩
  · rfl
  · have hsign := (not_part_of_isBlank hc).2.2.2
    simp only [List.mem_cons, List.not_mem_nil, not_or] at hsign
    simp [frontEquals, hsign]

/-- An operator is one character, in front of a blank. -/
theorem leads_operator {c : Char} (hc : c ∈ ['-', '+', '/', '%', '^', '~']) (h : Parted rest) :
    Leads .operator [c] rest := by
  have hlone : ∀ d ∈ ['-', '+', '%', '^', '~'], Leads .operator [d] rest := by
    simp only [List.forall_mem_cons]
    exact ⟨leads_single rfl, leads_single rfl, leads_single rfl, leads_single rfl,
      leads_single rfl, by simp⟩
  by_cases hslash : c = '/'
  · subst hslash
    exact leads_slash h
  · refine hlone c ?_
    simp only [List.mem_cons, List.not_mem_nil, or_false] at hc ⊢
    tauto

/-- Tokens that are always spelled in one way. -/
theorem leads_spelling {t : Token} {w : List Char} (hw : spelling t = some w) (h : Parted rest) :
    Leads t w rest := by
  rcases spelling_cases hw with ⟨c, hc, rfl, rfl⟩ | ⟨rfl, rfl⟩ | ⟨rfl, rfl⟩ | ⟨rfl, rfl⟩ |
    ⟨rfl, rfl⟩
  · exact leads_single (front_loneSign rest hc)
  · exact leads_dot h
  · exact ⟨'.', ['.', '.'], _, rfl, rfl, rfl⟩
  · exact leads_equals h
  · exact ⟨'=', ['>'], _, rfl, rfl, rfl⟩

/-- **A token in front of a blank.**  The text of a token is cut off as this token, wherever nothing
    or a blank follows it. -/
theorem leads_of_mem_pattern {t : Token} {w : List Char} (hw : w ∈ pattern t) (h : Parted rest) :
    Leads t w rest := by
  cases t with
  | word text =>
      obtain ⟨hword, rfl⟩ := hw
      have hleads := leads_word hword h
      rwa [String.ofList_toList] at hleads
  | privateName text =>
      obtain ⟨hname, rfl⟩ := hw
      have hleads := leads_privateName hname h
      rwa [String.ofList_toList] at hleads
  | string value => exact leads_literal hw
  | template => exact leads_template hw
  | number => exact leads_number hw h
  | operator =>
      obtain ⟨c, hc, rfl⟩ := hw
      exact leads_operator hc h
  | unknown => cases hw
  | _ => exact leads_spelling hw h

/-- What stood for a known token leads with it in front of a blank, or of nothing if nothing
    followed it before. -/
theorem Lexical.Stands.leads {t : Token} {w before : List Char} (hw : Stands before t w)
    (hknown : t ≠ .unknown) (h : Parted rest) (hlast : before = [] → rest = []) :
    Leads t w rest := by
  cases hw with
  | complete hmem => exact leads_of_mem_pattern hmem h
  | openTemplate hend hopen =>
      obtain rfl := hlast hend
      exact leads_openTemplate hopen
  | unclassified => exact absurd rfl hknown
  | openLiteral => exact absurd rfl hknown

end Parted

-- ── One token after the other ────────────────────────────────────────────────────

/-- A space and the texts of the tokens, with a space between two of them. -/
def spacedBehind : List Lexeme → List Char
  | [] => []
  | l :: ls => ' ' :: joinWith ' ' ((l :: ls).map Lexeme.text)

/-- Behind the first text, each follows a space. -/
theorem joinWith_text (l : Lexeme) (ls : List Lexeme) :
    joinWith ' ' ((l :: ls).map Lexeme.text) = l.text ++ spacedBehind ls := by
  cases ls with
  | nil => exact (List.append_nil l.text).symm
  | cons m ls => rfl

theorem parted_spacedBehind (ls : List Lexeme) : Parted (spacedBehind ls) := by
  cases ls with
  | nil =>
      intro c hc
      cases hc
  | cons l ls =>
      intro c hc
      obtain rfl : ' ' = c := Option.some.inj hc
      rfl

/-- Tokens that lead in front of a space are cut off one after the other. -/
theorem cutsOf_spaced {ls : List Lexeme}
    (h : ∀ before l after, ls = before ++ l :: after →
      Leads l.token l.text (spacedBehind after)) (gap : List Char) :
    (cutsOf gap (joinWith ' ' (ls.map Lexeme.text))).map (fun x => (x.1, x.2.2)) =
      ls.map fun l => (l.token, l.text) := by
  induction ls generalizing gap with
  | nil =>
      show (cutsOf gap []).map _ = []
      rw [cutsOf_nil]
      rfl
  | cons l ls ih =>
      have hls : ∀ before m after, ls = before ++ m :: after →
          Leads m.token m.text (spacedBehind after) := by
        intro before m after hsplit
        exact h (l :: before) m after (congrArg (l :: ·) hsplit)
      rw [joinWith_text, cutsOf_leads (h [] l ls rfl), List.map_cons, List.map_cons]
      congr 1
      cases ls with
      | nil =>
          show (cutsOf [] []).map _ = []
          rw [cutsOf_nil]
          rfl
      | cons m ls =>
          rw [spacedBehind, cutsOf_blank rfl]
          exact ih hls _

-- ── Whole texts ──────────────────────────────────────────────────────────────────

/-- The texts of the tokens of a text, with one space between two of them. -/
def respaced (text : String) : String :=
  String.ofList (joinWith ' ' ((tokenize text).lexemes.map Lexeme.text))

/-- Every token is known. -/
def Known (text : String) : Prop := ∀ l ∈ (tokenize text).lexemes, l.token ≠ .unknown

instance (text : String) : Decidable (Known text) :=
  inferInstanceAs (Decidable (∀ l ∈ (tokenize text).lexemes, l.token ≠ .unknown))

/-- The tokens of a text lead in front of a space. -/
theorem leads_spacedBehind {text : String} (h : Known text) :
    ∀ before l after, (tokenize text).lexemes = before ++ l :: after →
      Leads l.token l.text (spacedBehind after) := by
  intro before l after hsplit
  obtain ⟨-, -, hplaced⟩ := TokenList.placed_place text.toList [] [] (.nil _)
  have hknown : l.token ≠ .unknown := h l (by rw [hsplit]; simp)
  refine (hplaced before l after hsplit).stands.leads hknown (parted_spacedBehind after) ?_
  intro hrest
  cases after with
  | nil => rfl
  | cons m after =>
      -- a token is not empty, so something follows if one does
      have hm : m.text ≠ [] := by
        refine (hplaced (before ++ [l]) m after ?_).text_ne_nil
        exact hsplit.trans (List.append_cons before l (m :: after))
      have hlayout := (List.append_eq_nil_iff.mp hrest).1
      rw [Lexeme.layout, List.flatMap_cons] at hlayout
      exact absurd (List.append_eq_nil_iff.mp (List.append_eq_nil_iff.mp hlayout).1).2 hm

/-- Whatever is read off the tokens and their texts stays the same. -/
theorem map_tokenize_respaced {α : Type} {text : String} (h : Known text)
    (f : Token → List Char → α) :
    (tokenize (respaced text)).lexemes.map (fun l => f l.token l.text) =
      (tokenize text).lexemes.map fun l => f l.token l.text := by
  have hcuts := map_cut_tokenize (respaced text)
  rw [respaced, String.toList_ofList] at hcuts
  have hpairs := cutsOf_spaced (leads_spacedBehind h) []
  rw [← hcuts, List.map_map] at hpairs
  have hmap := congrArg (List.map fun x => f x.1 x.2) hpairs
  rwa [List.map_map, List.map_map] at hmap

/-- **Gaps do not change tokens.**  Where every token of a text is known, the texts of its tokens
    with one space between two of them are cut into the same tokens, with the same values and the
    same texts.  So another text of known tokens has the same tokens if it only has other blanks and
    comments between the same texts. -/
theorem tokenize_respaced {text : String} (h : Known text) :
    (tokenize (respaced text)).lexemes.map Lexeme.token =
        (tokenize text).lexemes.map Lexeme.token ∧
      (tokenize (respaced text)).lexemes.map Lexeme.text =
        (tokenize text).lexemes.map Lexeme.text ∧
      ∀ other : String, Known other →
        (tokenize other).lexemes.map Lexeme.text = (tokenize text).lexemes.map Lexeme.text →
        (tokenize other).lexemes.map Lexeme.token = (tokenize text).lexemes.map Lexeme.token := by
  have htokens : ∀ {text : String}, Known text →
      (tokenize (respaced text)).lexemes.map Lexeme.token =
        (tokenize text).lexemes.map Lexeme.token :=
    fun h => map_tokenize_respaced h fun t _ => t
  refine ⟨htokens h, map_tokenize_respaced h fun _ w => w, ?_⟩
  intro other hother htexts
  -- both are cut as the same text
  rw [← htokens h, ← htokens hother, respaced, respaced, htexts]

/-- Numbers and points side by side, a literal that goes on behind its line, and a template that
    never closes behind one that nests. -/
theorem tokenize_respaced_packed :
    let text := "1.5.2..a ... .. a/b/*\n*/ '\\\n\\n' #x=>= `$\x7b`\x7d` + '`'\x7d` @`$\x7b"
    let other := "1.5 .2. .a...//\n..a / b'\\\n\\n'#x =>/**/=`$\x7b`\x7d` + '`'\x7d`@ `$\x7b"
    Known text ∧
      (tokenize (respaced text)).lexemes.map Lexeme.token =
        (tokenize text).lexemes.map Lexeme.token ∧
      Known other ∧ (tokenize other).lexemes.map Lexeme.token =
        (tokenize text).lexemes.map Lexeme.token := by
  intro text other
  have h : Known text := by decide +kernel
  have hother : Known other := by decide +kernel
  have htexts : (tokenize other).lexemes.map Lexeme.text =
      (tokenize text).lexemes.map Lexeme.text := by decide +kernel
  obtain ⟨htokens, -, hsame⟩ := tokenize_respaced h
  exact ⟨h, htokens, hother, hsame other hother htexts⟩

end DeclAtlas

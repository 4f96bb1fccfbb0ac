import DeclAtlas.Proofs.TemplateGrammar
import DeclAtlas.Token.Basic
import Mathlib.Computability.Language

/-!
# Patterns of tokens and comments

What the texts of tokens and of the gaps between them look like, said without a lexer: a language
for each kind of token (`Lexical.pattern`) and for what begins a comment, the texts that may stand
between two tokens (`Lexical.Gap`), and what may be said of a text of which no pattern matches a
prefix (`Lexical.Stands`).

The languages are built as regular expressions are, except that of templates, which nest.
-/

namespace DeclAtlas.Lexical

open Computability

-- ── Characters ───────────────────────────────────────────────────────────────────

def IsLetter (c : Char) : Prop := ('A' ≤ c ∧ c ≤ 'Z') ∨ ('a' ≤ c ∧ c ≤ 'z')

def IsDigit (c : Char) : Prop := '0' ≤ c ∧ c ≤ '9'

def StartsWord (c : Char) : Prop := IsLetter c ∨ c = '_' ∨ c = '$'

def ContinuesWord (c : Char) : Prop := StartsWord c ∨ IsDigit c

def ContinuesNumber (c : Char) : Prop := IsLetter c ∨ IsDigit c ∨ c = '_'

def IsQuote (c : Char) : Prop := c = '"' ∨ c = '\''

/-- Space, tab, carriage return, line feed, form feed, no-break space and byte order mark. -/
def IsSpace (c : Char) : Prop := c ∈ [' ', '\t', '\r', '\n', '\x0c', '\u00a0', '\ufeff']

-- ── Languages ────────────────────────────────────────────────────────────────────

/-- One character of a kind. -/
def one (p : Char → Prop) : Language Char := {w | ∃ c, p c ∧ w = [c]}

/-- One text. -/
def exactly (w : List Char) : Language Char := {w}

def word : Language Char := one StartsWord * (one ContinuesWord)∗

def privateName : Language Char := exactly ['#'] * word

/-- Digits, letters and underscores behind a digit, and at most one point among them; or a point
    and a digit at the front. -/
def number : Language Char :=
  one IsDigit * (one ContinuesNumber)∗ * (1 + exactly ['.'] * (one ContinuesNumber)∗) +
    exactly ['.'] * (one IsDigit * (one ContinuesNumber)∗)

/-- A character of a string literal: not the quote, a backslash or a line feed, but any character
    behind a backslash. -/
def element (q : Char) : Language Char :=
  one (fun c => c ≠ q ∧ c ≠ '\\' ∧ c ≠ '\n') + exactly ['\\'] * one fun _ => True

/-- What a string literal with this value is, between two quotes of a kind. -/
def literal (value : String) : Language Char :=
  {w | ∃ q body, IsQuote q ∧ body ∈ (element q)∗ ∧ w = q :: (body ++ [q]) ∧
    value = String.ofList (Quoted.decode body)}

/-- A template after its opening backtick. -/
def templateText : Language Char := {body | Template.Part.text.Reads body}

def template : Language Char := exactly ['\x60'] * templateText

/-- The texts of tokens that are always written in the same way. -/
def spelling : Token → Option (List Char)
  | .openBrace => some ['\x7b']
  | .closeBrace => some ['\x7d']
  | .openParen => some ['(']
  | .closeParen => some [')']
  | .openBracket => some ['[']
  | .closeBracket => some [']']
  | .less => some ['<']
  | .greater => some ['>']
  | .comma => some [',']
  | .semicolon => some [';']
  | .colon => some [':']
  | .dot => some ['.']
  | .ellipsis => some ['.', '.', '.']
  | .question => some ['?']
  | .equals => some ['=']
  | .arrow => some ['=', '>']
  | .star => some ['*']
  | .ampersand => some ['&']
  | .bar => some ['|']
  | .bang => some ['!']
  | .atSign => some ['@']
  | _ => none

/-- The texts that a token may have. -/
def pattern : Token → Language Char
  | .word text => {w | w ∈ word ∧ w = text.toList}
  | .privateName text => {w | w ∈ privateName ∧ w = text.toList}
  | .string value => literal value
  | .template => template
  | .number => number
  | .operator => one (· ∈ ['-', '+', '/', '%', '^', '~'])
  | t => {w | spelling t = some w}

/-- A comment that takes the rest of its line. -/
def lineComment : Language Char :=
  (exactly ['/', '/'] + exactly ['#', '!']) * (one (· ≠ '\n'))∗

/-- What begins a comment that may go over several lines. -/
def blockOpening : Language Char := exactly ['/', '*']

def blanks : Language Char := one IsSpace * (one IsSpace)∗

/-- A text that some pattern of a token, a comment or blanks matches. -/
def Matches (w : List Char) : Prop :=
  (∃ t, w ∈ pattern t) ∨ w ∈ lineComment ∨ w ∈ blockOpening ∨ w ∈ blanks

/-- What a string literal cannot go on with: nothing, a line feed, or a last backslash. -/
def Stuck (rest : List Char) : Prop := rest = [] ∨ rest.head? = some '\n' ∨ rest = ['\\']

-- ── Gaps and tokens in a text ────────────────────────────────────────────────────

/-- A text that may stand between tokens, in front of `rest`: blanks, comments to the end of their
    lines, and block comments through the first `*/` or, if there is none, to the end of the
    text. -/
inductive Gap : List Char → List Char → Prop
  | nil (rest : List Char) : Gap rest []
  | blank {rest cs : List Char} {c : Char} : IsSpace c → Gap rest cs → Gap rest (c :: cs)
  | line {rest own cs : List Char} : own ∈ lineComment → ((cs ++ rest).head?.all (· = '\n')) →
      Gap rest cs → Gap rest (own ++ cs)
  | block {rest body cs : List Char} : ¬ ['*', '/'] <:+: body ++ ['*'] → Gap rest cs →
      Gap rest ('/' :: '*' :: (body ++ '*' :: '/' :: cs))
  | openBlock {body : List Char} : ¬ ['*', '/'] <:+: body → Gap [] ('/' :: '*' :: body)

/-- A text that may stand for a token, in front of `rest`. -/
inductive Stands (rest : List Char) : Token → List Char → Prop
  | complete {t : Token} {text : List Char} : text ∈ pattern t → Stands rest t text
  /-- A template that never closes, to the end of the text. -/
  | openTemplate {body : List Char} : rest = [] →
      (∀ front, front <+: body → ¬ Template.Part.text.Reads front) →
      Stands rest .template ('\x60' :: body)
  /-- A character with which no token or comment begins. -/
  | unclassified {c : Char} : ¬ IsQuote c → (∀ w, w <+: c :: rest → ¬ Matches w) →
      Stands rest .unknown [c]
  /-- A string literal that is not closed: the rest of its line, but for a backslash at the end of
      the text. -/
  | openLiteral {q : Char} {body : List Char} : IsQuote q → body ∈ (element q)∗ → Stuck rest →
      (∀ w, w <+: q :: (body ++ rest) → ¬ Matches w) → Stands rest .unknown (q :: body)

-- ── Members of the languages ─────────────────────────────────────────────────────

theorem mem_exactly {v w : List Char} : w ∈ exactly v ↔ w = v := Iff.rfl

/-- A run of characters of a kind. -/
theorem mem_kstar_one {p : Char → Prop} {w : List Char} : w ∈ (one p)∗ ↔ ∀ c ∈ w, p c := by
  rw [Language.mem_kstar]
  constructor
  · rintro ⟨ws, rfl, hws⟩ c hc
    obtain ⟨v, hv, hcv⟩ := List.mem_flatten.mp hc
    obtain ⟨d, hd, rfl⟩ := hws v hv
    obtain rfl := List.mem_singleton.mp hcv
    exact hd
  · intro h
    refine ⟨w.map ([·]), (List.flatMap_singleton' w).symm.trans (List.flatMap_def ..), ?_⟩
    intro v hv
    obtain ⟨c, hc, rfl⟩ := List.mem_map.mp hv
    exact ⟨c, h c hc, rfl⟩

/-- One character and a run of others. -/
theorem mem_one_mul_kstar {p q : Char → Prop} {w : List Char} :
    w ∈ one p * (one q)∗ ↔ ∃ c cs, w = c :: cs ∧ p c ∧ ∀ d ∈ cs, q d := by
  rw [Language.mem_mul]
  constructor
  · rintro ⟨_, ⟨c, hc, rfl⟩, cs, hcs, rfl⟩
    exact ⟨c, cs, rfl, hc, mem_kstar_one.mp hcs⟩
  · rintro ⟨c, cs, rfl, hc, hcs⟩
    exact ⟨[c], ⟨c, hc, rfl⟩, cs, mem_kstar_one.mpr hcs, rfl⟩

theorem mem_exactly_mul {v w : List Char} {l : Language Char} :
    w ∈ exactly v * l ↔ ∃ cs ∈ l, w = v ++ cs := by
  rw [Language.mem_mul]
  constructor
  · rintro ⟨_, rfl, cs, hcs, rfl⟩
    exact ⟨cs, hcs, rfl⟩
  · rintro ⟨cs, hcs, rfl⟩
    exact ⟨v, rfl, cs, hcs, rfl⟩

/-- A private name is a number sign, a character that begins a word, and more that go on with it. -/
theorem mem_privateName {w : List Char} :
    w ∈ privateName ↔ ∃ c cs, w = '#' :: c :: cs ∧ StartsWord c ∧ ∀ d ∈ cs, ContinuesWord d := by
  rw [privateName, word, mem_exactly_mul]
  constructor
  · rintro ⟨_, hw, rfl⟩
    obtain ⟨c, cs, rfl, hc, hcs⟩ := mem_one_mul_kstar.mp hw
    exact ⟨c, cs, rfl, hc, hcs⟩
  · rintro ⟨c, cs, rfl, hc, hcs⟩
    exact ⟨c :: cs, mem_one_mul_kstar.mpr ⟨c, cs, rfl, hc, hcs⟩, rfl⟩

/-- A number has a digit and more behind it, then perhaps a point and more; or a point, a digit and
    more. -/
theorem mem_number {w : List Char} :
    w ∈ number ↔
      (∃ c cs more, w = c :: (cs ++ more) ∧ IsDigit c ∧ (∀ d ∈ cs, ContinuesNumber d) ∧
        (more = [] ∨ ∃ ds, more = '.' :: ds ∧ ∀ d ∈ ds, ContinuesNumber d)) ∨
      ∃ c cs, w = '.' :: c :: cs ∧ IsDigit c ∧ ∀ d ∈ cs, ContinuesNumber d := by
  rw [number, Language.mem_add, mem_exactly_mul, Language.mem_mul]
  refine or_congr ⟨?_, ?_⟩ ⟨?_, ?_⟩
  -- a number that begins with a digit
  · rintro ⟨_, hfirst, more, hmore, rfl⟩
    obtain ⟨c, cs, rfl, hc, hcs⟩ := mem_one_mul_kstar.mp hfirst
    refine ⟨c, cs, more, rfl, hc, hcs, ?_⟩
    rcases (Language.mem_add ..).mp hmore with hnil | hpoint
    · exact Or.inl hnil
    · obtain ⟨ds, hds, rfl⟩ := mem_exactly_mul.mp hpoint
      exact Or.inr ⟨ds, rfl, mem_kstar_one.mp hds⟩
  · rintro ⟨c, cs, more, rfl, hc, hcs, hmore⟩
    refine ⟨c :: cs, mem_one_mul_kstar.mpr ⟨c, cs, rfl, hc, hcs⟩, more, ?_, rfl⟩
    rcases hmore with rfl | ⟨ds, rfl, hds⟩
    · exact (Language.mem_add ..).mpr (Or.inl rfl)
    · exact (Language.mem_add ..).mpr
        (Or.inr (mem_exactly_mul.mpr ⟨ds, mem_kstar_one.mpr hds, rfl⟩))
  -- a number that begins with a point
  · rintro ⟨_, hw, rfl⟩
    obtain ⟨c, cs, rfl, hc, hcs⟩ := mem_one_mul_kstar.mp hw
    exact ⟨c, cs, rfl, hc, hcs⟩
  · rintro ⟨c, cs, rfl, hc, hcs⟩
    exact ⟨c :: cs, mem_one_mul_kstar.mpr ⟨c, cs, rfl, hc, hcs⟩, rfl⟩

/-- A template is a sign and what the grammar of templates reads. -/
theorem mem_template {w : List Char} :
    w ∈ template ↔ ∃ body, Template.Part.text.Reads body ∧ w = '\x60' :: body :=
  mem_exactly_mul

/-- A comment to the end of the line begins with one of two signs. -/
theorem mem_lineComment {w : List Char} :
    w ∈ lineComment ↔
      ∃ cs, (w = '/' :: '/' :: cs ∨ w = '#' :: '!' :: cs) ∧ ∀ d ∈ cs, d ≠ '\n' := by
  rw [lineComment, add_mul, Language.mem_add, mem_exactly_mul, mem_exactly_mul]
  constructor
  · rintro (⟨cs, hcs, rfl⟩ | ⟨cs, hcs, rfl⟩)
    · exact ⟨cs, Or.inl rfl, mem_kstar_one.mp hcs⟩
    · exact ⟨cs, Or.inr rfl, mem_kstar_one.mp hcs⟩
  · rintro ⟨cs, rfl | rfl, hcs⟩
    · exact Or.inl ⟨cs, mem_kstar_one.mpr hcs, rfl⟩
    · exact Or.inr ⟨cs, mem_kstar_one.mpr hcs, rfl⟩

/-- An element of a literal is an ordinary character or an escape. -/
theorem mem_element {q : Char} {w : List Char} :
    w ∈ element q ↔ (∃ c, (c ≠ q ∧ c ≠ '\\' ∧ c ≠ '\n') ∧ w = [c]) ∨ ∃ c, w = ['\\', c] := by
  rw [element, Language.mem_add, mem_exactly_mul]
  refine or_congr Iff.rfl ⟨?_, ?_⟩
  · rintro ⟨_, ⟨c, -, rfl⟩, rfl⟩
    exact ⟨c, rfl⟩
  · rintro ⟨c, rfl⟩
    exact ⟨[c], ⟨c, trivial, rfl⟩, rfl⟩

/-- One more in front. -/
theorem append_mem_kstar {l : Language Char} {v w : List Char} (hv : v ∈ l) (hw : w ∈ l∗) :
    v ++ w ∈ l∗ := by
  have hle : l * l∗ ≤ l∗ := mul_kstar_le_kstar
  exact hle (Language.append_mem_mul hv hw)

theorem Gap.append {rest xs ys : List Char} (hx : Gap (ys ++ rest) xs) (hy : Gap rest ys) :
    Gap rest (xs ++ ys) := by
  generalize hr : ys ++ rest = r at hx
  induction hx with
  | nil => exact hy
  | blank hc _ ih => exact .blank hc (ih hr)
  | @line _ own cs hown hend _ ih =>
      rw [List.append_assoc]
      refine .line hown ?_ (ih hr)
      rw [List.append_assoc, hr]
      exact hend
  | @block _ body cs hbody _ ih =>
      have heq : '/' :: '*' :: (body ++ '*' :: '/' :: cs) ++ ys =
          '/' :: '*' :: (body ++ '*' :: '/' :: (cs ++ ys)) := by simp
      rw [heq]
      exact .block hbody (ih hr)
  | openBlock hbody =>
      obtain ⟨rfl, rfl⟩ := List.append_eq_nil_iff.mp hr
      rw [List.append_nil]
      exact .openBlock hbody

end DeclAtlas.Lexical

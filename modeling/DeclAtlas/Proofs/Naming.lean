import DeclAtlas.Proofs.Fences
import DeclAtlas.Proofs.StatementSpans
import DeclAtlas.Proofs.Tokenization

/-!
# Names that were read

A class or an interface is named by a word, and words have only letters, digits, underscores and
dollar signs in them: no name of a declaration carries type arguments.  The elements of an import
are less tame, since what they ask for may be named by a string, which may hold anything.  But a new
name is a word again; so an element whose own name is empty has not been renamed, and asks for the
empty name too.

* **`parse_named`** — both hold of all that is read from a text, blocks of namespaces included.

To follow names through the grammar, cursors need not be followed: `Parser.Gives` says of what kind
the value of a parser is, wherever in a text the parser starts.
-/

namespace DeclAtlas

open Lexical

/-- What an import asks for under an empty name has an empty name itself. -/
def Specifier.Named (e : Specifier) : Prop := e.name = "" → e.sourceName = ""

mutual

/-- Declarations in a statement have names without type arguments, and no element of an import
    renames something to an empty name. -/
inductive Statement.Named : Statement → Prop
  | declaration {d : Declaration} : (∀ name, d.name = some name → '<' ∉ name.toList) →
      Statement.Named (.declaration d)
  | importing {i : Import} : (∀ e ∈ i.elements, e.Named) → Statement.Named (.importing i)
  | exporting {e : Export} : Statement.Named (.exporting e)
  | scope {d : NamespaceDecl} : NamespaceDecl.Named d → Statement.Named (.scope d)
  | other {s : Span} : Statement.Named (.other s)

inductive NamespaceDecl.Named : NamespaceDecl → Prop
  | block {name : String} {ss : List Statement} {m : Modifiers} {span : Span} :
      (∀ s ∈ ss, Statement.Named s) → NamespaceDecl.Named ⟨name, .block ss, m, span⟩
  | nested {name : String} {inner : NamespaceDecl} {m : Modifiers} {span : Span} :
      NamespaceDecl.Named inner → NamespaceDecl.Named ⟨name, .nested inner, m, span⟩
  | absent {name : String} {m : Modifiers} {span : Span} :
      NamespaceDecl.Named ⟨name, .absent, m, span⟩

end

-- ── Words ────────────────────────────────────────────────────────────────────────

/-- A word has no `<` in it, which is no character of words. -/
theorem Lexical.less_not_mem_of_mem_word {w : List Char} (h : w ∈ word) : '<' ∉ w := by
  obtain ⟨c, cs, rfl, hc, hcs⟩ := mem_one_mul_kstar.mp h
  have hless : ¬ ContinuesWord '<' := fun h => absurd (isWordPart_iff.mpr h) (by decide)
  intro hmem
  rcases List.mem_cons.mp hmem with rfl | hmem
  · exact hless (Or.inl hc)
  · exact hless (hcs '<' hmem)

/-- A word has a first character. -/
theorem Lexical.ne_nil_of_mem_word {w : List Char} (h : w ∈ word) : w ≠ [] := by
  obtain ⟨c, cs, rfl, -, -⟩ := mem_one_mul_kstar.mp h
  exact List.cons_ne_nil c cs

/-- The words among the tokens of a text are words. -/
theorem mem_word_of_mem_tokenize {text w : String} {l : Lexeme}
    (hl : l ∈ (tokenize text).lexemes) (hw : l.token = .word w) : w.toList ∈ word := by
  obtain ⟨before, after, hsplit⟩ := List.append_of_mem hl
  have hplaced := (TokenList.placed_place text.toList [] [] (.nil _)).2.2 before l after hsplit
  have hstands := hplaced.stands
  rw [hw] at hstands
  cases hstands with
  | complete h =>
      obtain ⟨hmem, heq⟩ := h
      rw [← heq]
      exact hmem

/-- So are those ahead of a cursor in it. -/
theorem mem_word_of_mem_rest {text w : String} {c : Cursor} {l : Lexeme}
    (hc : (Cursor.start (tokenize text)).LeadsTo c) (hl : l ∈ c.rest) (hw : l.token = .word w) :
    w.toList ∈ word := by
  obtain ⟨n, rfl⟩ := hc
  rw [Cursor.rest_advance] at hl
  exact mem_word_of_mem_tokenize (List.mem_of_mem_drop hl) hw

/-- Only word tokens give a word. -/
theorem Token.word?_eq_some_iff {t : Token} {w : String} : t.word? = some w ↔ t = .word w := by
  cases t <;> simp [Token.word?]

-- ── Elements of imports ──────────────────────────────────────────────────────────

section Specifiers

variable {alias? : Token → Option String} {ls : List Lexeme}

/-- A new name is never empty where no token stands for an empty name. -/
theorem aliasAt_ne_empty (h : ∀ l ∈ ls, alias? l.token ≠ some "") :
    (aliasAt alias? ls).1 ≠ some (some "") := by
  intro hempty
  cases ls with
  | nil => cases hempty
  | cons a ls =>
      rw [aliasAt] at hempty
      by_cases ha : a.token = .word "as"
      · rw [if_pos ha] at hempty
        cases hnew : ls.head?.bind (alias? ·.token) with
        | none =>
            rw [hnew] at hempty
            cases hempty
        | some new =>
            rw [hnew] at hempty
            cases hempty
            obtain ⟨b, hb, hword⟩ := Option.bind_eq_some_iff.mp hnew
            exact h b (List.mem_cons_of_mem a (List.mem_of_head? hb)) hword
      · rw [if_neg ha] at hempty
        cases hempty

/-- An element with an alias or without one, as `aliasAt` says. -/
theorem Specifier.named_of_alias {v : Option (Option String)} (h : v ≠ some (some ""))
    (name : String) (typeOnly : Bool) :
    Specifier.Named ⟨(v.bind id).getD name, v.map fun _ => name, typeOnly⟩ := by
  rcases v with _ | _ | new
  · exact id
  · exact id
  · exact fun hnew => absurd (congrArg (some ∘ some) hnew) h

/-- One element of a list, whose new name is not empty if it has one. -/
theorem named_specifierAt (l : Lexeme) (h : ∀ l ∈ ls, alias? l.token ≠ some "") :
    (specifierAt alias? l ls).1.Named := by
  rw [specifierAt_eq]
  exact Specifier.named_of_alias (aliasAt_ne_empty fun l hl => h l (List.mem_of_mem_drop hl)) _ _

/-- All elements of a list, by the steps in which it is read. -/
theorem named_specifiers (h : ∀ l ∈ ls, alias? l.token ≠ some "") :
    ∀ e ∈ (specifiers alias? ls).1, e.Named := by
  fun_induction specifiers alias? ls with
  | case1 => exact List.forall_mem_nil _
  | case2 => exact List.forall_mem_nil _
  | case3 l ls _ _ s k hs rest n heq ih =>
      obtain ⟨-, hls⟩ := List.forall_mem_cons.mp h
      have hnamed := named_specifierAt l hls
      rw [hs] at hnamed
      rw [heq] at ih
      exact List.forall_mem_cons.mpr ⟨hnamed, ih fun l hl => hls l (List.mem_of_mem_drop hl)⟩
  | case4 l ls _ _ rest n heq ih =>
      rw [heq] at ih
      exact ih (List.forall_mem_cons.mp h).2

end Specifiers

namespace Parser

-- ── Values, wherever a parser starts ─────────────────────────────────────────────

/-- Wherever in a text a parser starts, it moves on, and its value is of some kind. -/
def Gives {α : Type} (text : String) (p : Parser α) (P : α → Prop) : Prop :=
  ∀ c, (Cursor.start (tokenize text)).LeadsTo c → p.Meets c fun a _ => P a

section Gives

variable {α β : Type} {text : String} {P : α → Prop} {Q : β → Prop} {b : Prop} [Decidable b]

/-- Any parser that moves on gives values of which nothing is said. -/
theorem Gives.of_meets {p : Parser α} (h : ∀ c, p.Meets c fun _ _ => True) :
    Gives text p fun _ => True := fun c _ => h c

/-- A value that is given without reading. -/
theorem gives_pure {a : α} (h : P a) : Gives text (pure a) P := fun _ _ => meets_pure h

/-- What follows may use of the value what is known of it, but not where it was read. -/
theorem gives_bind {p : Parser β} {f : β → Parser α} (hp : Gives text p Q)
    (hf : ∀ x, Q x → Gives text (f x) P) : Gives text (p >>= f) P := by
  intro c hc
  exact meets_bind ((hp c hc).mono fun x c' hc' hx => hf x hx c' (hc.trans hc'))

/-- A look at the cursor tells nothing about values. -/
theorem gives_get {f : Cursor → Parser α} (h : ∀ c, Gives text (f c) P) :
    Gives text (get >>= f) P := fun c hc => meets_get (h c c hc)

/-- Two branches, both of which give what is asked for. -/
theorem gives_ite {p q : Parser α} (hp : Gives text p P) (hq : Gives text q P) :
    Gives text (if b then p else q) P :=
  fun c hc => meets_ite (fun _ => hp c hc) fun _ => hq c hc

/-- A step that is only taken under a condition, and what follows it. -/
theorem gives_when {p : Parser Unit} {f : Unit → Parser α} (hp : ∀ c, p.Meets c fun _ _ => True)
    (hf : Gives text (f ()) P) : Gives text (if b then p >>= f else f ()) P :=
  gives_ite (gives_bind (.of_meets hp) fun _ _ => hf) hf

/-- A value that comes from one of two parsers, and what follows it. -/
theorem gives_branch {p q : Parser β} {f : β → Parser α} (hp : Gives text p Q)
    (hq : Gives text q Q) (hf : ∀ x, Q x → Gives text (f x) P) :
    Gives text (if b then p >>= f else q >>= f) P :=
  gives_ite (gives_bind hp hf) (gives_bind hq hf)

/-- A token that is passed if it is next, and what follows in either case. -/
theorem gives_eat {t : Token} {f : Bool → Parser α} (h : ∀ x, Gives text (f x) P) :
    Gives text (eat t >>= f) P :=
  gives_bind (.of_meets fun _ => meets_any_eat t) fun x _ => h x

/-- A token that is moved over in front of the rest. -/
theorem gives_bump {f : Unit → Parser α} (h : Gives text (f ()) P) :
    Gives text (bump >>= f) P :=
  gives_bind (.of_meets fun _ => meets_bump trivial) fun _ _ => h

/-- A value that is read off the tokens ahead, which are tokens of the text. -/
theorem gives_taking {read : List Lexeme → α × Nat}
    (h : ∀ c, (Cursor.start (tokenize text)).LeadsTo c → P (read c.rest).1) :
    Gives text (taking read) P := fun c hc => meets_taking (h c hc)

/-- A word that was taken is a word. -/
theorem gives_takeWord : Gives text takeWord fun o => ∀ w, o = some w → w.toList ∈ word := by
  intro c hc
  refine meets_takeIf ?_ (fun _ => nofun)
  intro w hw
  obtain ⟨t, ht, hword⟩ := Option.bind_eq_some_iff.mp hw
  obtain ⟨l, ls, hrest, rfl⟩ := Cursor.peek_eq_some_iff.mp ht
  rintro _ ⟨⟩
  exact mem_word_of_mem_rest hc (hrest ▸ List.mem_cons_self ..) (Token.word?_eq_some_iff.mp hword)

end Gives

variable {text : String}

-- ── Imports and exports ──────────────────────────────────────────────────────────

/-- A statement that is read over has no names. -/
theorem gives_skipStatement (start : Span) : Gives text (skipStatement start) Statement.Named :=
  gives_bind (.of_meets fun _ => meets_skip trivial) fun _ _ =>
    gives_eat fun _ => gives_get fun _ => gives_pure .other

/-- Named bindings are a list of elements, and a whole namespace has none. -/
theorem gives_importBindings :
    Gives text importBindings fun o => ∀ es, o = some (.named es) → ∀ e ∈ es, e.Named := by
  refine gives_eat fun _ => gives_ite ?_ (gives_eat fun _ => gives_ite ?_ (gives_pure nofun))
  · -- the whole module under one name
    refine gives_eat fun _ => gives_bind (.of_meets fun _ => meets_any_takeIf _) fun name _ =>
      gives_pure ?_
    cases name with
    | none => exact nofun
    | some name => exact nofun
  · -- names in braces
    refine gives_bind (gives_taking (P := fun es => ∀ e ∈ es, e.Named) fun c hc => ?_) ?_
    · refine named_specifiers fun l hl hempty => ?_
      exact ne_nil_of_mem_word (mem_word_of_mem_rest hc hl (Token.word?_eq_some_iff.mp hempty)) rfl
    · intro es hes
      refine gives_pure ?_
      rintro _ ⟨⟩
      exact hes

/-- An import has the elements of its bindings, or is read over. -/
theorem gives_importFrom (start : Span) (typeOnly : Bool) (defaultName : Option String) :
    Gives text (importFrom start typeOnly defaultName) Statement.Named := by
  have hskip : Gives text (skipStatement start) Statement.Named := gives_skipStatement start
  refine gives_bind gives_importBindings fun bindings hbindings => gives_eat fun _ =>
    gives_ite (gives_bind (.of_meets fun _ => meets_any_takeIf _) fun specifier _ => ?_) hskip
  cases specifier with
  | none => exact hskip
  | some specifier =>
      refine gives_bind (.of_meets fun _ => meets_endClause) fun _ _ => gives_get fun _ =>
        gives_pure (.importing ?_)
      rcases bindings with _ | name | es
      · exact List.forall_mem_nil _
      · exact List.forall_mem_nil _
      · exact hbindings es rfl

/-- All ways in which an import statement is read. -/
theorem gives_importStatement (start : Span) :
    Gives text (importStatement start) Statement.Named := by
  have hskip : Gives text (skipStatement start) Statement.Named := gives_skipStatement start
  refine gives_get fun _ => gives_ite hskip (gives_bump (gives_get fun _ =>
    gives_when (fun _ => meets_bump trivial)
      (gives_bind (.of_meets fun _ => meets_any_takeIf _) fun specifier _ => ?_)))
  cases specifier with
  | some specifier =>
      exact gives_bind (.of_meets fun _ => meets_endClause) fun _ _ => gives_get fun _ =>
        gives_pure (.importing (List.forall_mem_nil _))
  | none =>
      refine gives_get fun _ => gives_ite ?_ (gives_importFrom start _ none)
      exact gives_bind (.of_meets fun _ => meets_any_takeIf _) fun defaultName _ =>
        gives_get fun _ => gives_ite hskip
          (gives_eat fun _ => gives_importFrom start _ defaultName)

/-- An export has no names of declarations in it. -/
theorem gives_exportFrom (start : Span) (typeOnly : Bool) (clause : Option ExportClause) :
    Gives text (exportFrom start typeOnly clause) Statement.Named :=
  gives_eat fun _ => gives_branch (.of_meets fun _ => meets_any_takeIf _) (gives_pure trivial)
    fun _ _ => gives_bind (.of_meets fun _ => meets_endClause) fun _ _ => gives_get fun _ =>
      gives_pure .exporting

/-- A list of names to export is a statement without declarations. -/
theorem gives_exportNames (start : Span) (typeOnly : Bool) :
    Gives text (exportNames? start typeOnly) fun o => ∀ s, o = some s → s.Named := by
  have hfrom : ∀ clause, Gives text (do
      let s ← exportFrom start typeOnly clause
      pure (some s)) fun o => ∀ s, o = some s → s.Named := by
    intro clause
    refine gives_bind (gives_exportFrom start typeOnly clause) fun s hs => gives_pure ?_
    rintro _ ⟨⟩
    exact hs
  refine gives_eat fun _ => gives_ite (gives_eat fun _ => gives_ite ?_ (hfrom none))
    (gives_eat fun _ => gives_ite ?_ (gives_pure nofun))
  · -- the whole module under one name
    exact gives_bind (.of_meets fun _ => meets_any_takeIf _) fun name _ => hfrom _
  · -- names in braces
    exact gives_bind (.of_meets fun _ => meets_taking trivial) fun elements _ => hfrom _

/-- A parser that is known to move on where tokens are in order. -/
theorem Gives.of_ordered {α : Type} {p : Parser α} {post : Cursor → α → Cursor → Prop}
    (h : ∀ c, c.Ordered text.utf8ByteSize → p.Meets c (post c)) :
    Gives text p fun _ => True := by
  intro c hc
  exact (h c ((Cursor.ordered_start text).leadsTo hc)).mono fun _ _ _ _ => trivial

/-- A name that is absent or a word. -/
theorem less_not_mem_of_taken {o : Option String} (h : ∀ w, o = some w → w.toList ∈ word) :
    ∀ name, o = some name → '<' ∉ name.toList :=
  fun name hname => less_not_mem_of_mem_word (h name hname)

end Parser

namespace Rule

open DeclAtlas.Parser

variable {text : String}

-- ── Declarations ─────────────────────────────────────────────────────────────────

/-- The name of a class is a word that was taken, or there is none. -/
theorem gives_classDecl (n : Nat) (m : Modifiers) (start : Span) :
    Gives text (classDeclBody (run n) m start) fun d =>
      ∀ name, d.name = some name → '<' ∉ name.toList := by
  refine gives_bump (gives_get fun _ => gives_branch (gives_pure nofun) gives_takeWord ?_)
  intro name hname
  refine gives_bind (.of_meets fun _ => meets_typeParams) fun params _ =>
    gives_bind (.of_ordered fun c hc =>
      classHeritage_laid n none [] c c hc (.refl c) (List.forall_mem_nil _)) fun heritage _ => ?_
  refine gives_eat fun _ => gives_branch (.of_ordered (classMembers_laid n)) (gives_pure trivial)
    fun ms _ => gives_get fun _ => gives_pure ?_
  exact less_not_mem_of_taken hname

/-- The name of an interface is a word that was taken, or empty. -/
theorem gives_interfaceDecl (n : Nat) (m : Modifiers) (start : Span) :
    Gives text (interfaceDeclBody (run n) m start) fun d => '<' ∉ d.name.toList := by
  refine gives_bump (gives_bind gives_takeWord fun name hname => ?_)
  refine gives_bind (.of_meets fun _ => meets_typeParams) fun params _ => ?_
  refine gives_eat fun _ => gives_branch (.of_ordered (heritageList_laid n)) (gives_pure trivial)
    fun parents _ => ?_
  refine gives_eat fun _ => gives_branch (.of_ordered (typesLaid _ n).typeMembers)
    (gives_pure trivial) fun ms _ => gives_get fun _ => gives_pure ?_
  cases name with
  | none => exact List.not_mem_nil
  | some name => exact less_not_mem_of_taken hname name rfl

-- ── Statements ───────────────────────────────────────────────────────────────────

/-- What the parsers of statements give, on any budget. -/
structure StatementsNamed (text : String) (n : Nat) : Prop where
  statements : ∀ inBlock, Gives text (run n (statements inBlock)) fun ss => ∀ s ∈ ss, s.Named
  statement : Gives text (run n statement) Statement.Named
  exportStatement : ∀ start, Gives text (run n (exportStatement start)) Statement.Named
  declaration : ∀ m start, Gives text (run n (declaration m start)) Statement.Named
  namespaceDecl : ∀ name m start,
    Gives text (run n (namespaceDecl name m start)) NamespaceDecl.Named

/-- With nothing to spend, no statement has parts. -/
theorem statementsNamed_zero (text : String) : StatementsNamed text 0 where
  statements _ := gives_pure (List.forall_mem_nil _)
  statement := gives_get fun _ => gives_pure .other
  exportStatement _ := gives_pure .other
  declaration _ _ := gives_pure .other
  namespaceDecl _ _ _ := gives_pure .absent

section Step

variable {n : Nat} (ih : StatementsNamed text n)
include ih

/-- The statements of a namespace, or the namespace inside of it, are named. -/
theorem namespaceDecl_named (name : String) (m : Modifiers) (start : Span) :
    Gives text (namespaceDeclBody (run n) name m start) NamespaceDecl.Named := by
  refine gives_eat fun _ => gives_ite ?_ (gives_eat fun _ => gives_ite ?_ ?_)
  · exact gives_get fun _ => gives_bind (.of_meets fun _ => meets_any_takeIf _) fun _ _ =>
      gives_bind (ih.namespaceDecl _ m _) fun _ hinner => gives_get fun _ =>
        gives_pure (.nested hinner)
  · exact gives_bind (ih.statements true) fun _ hss => gives_eat fun _ => gives_get fun _ =>
      gives_pure (.block hss)
  · exact gives_eat fun _ => gives_get fun _ => gives_pure .absent

/-- A class and an interface have names that were taken; what a namespace holds comes from other
    calls. -/
theorem declaration_named (m : Modifiers) (start : Span) :
    Gives text (declarationBody (run n) m start) Statement.Named := by
  have hscope : ∀ name m, Gives text (do
      let d ← run n (namespaceDecl name m start)
      pure (Statement.scope d)) Statement.Named := fun name m =>
    gives_bind (ih.namespaceDecl name m start) fun _ hd => gives_pure (.scope hd)
  refine gives_bind (.of_meets fun _ => meets_taking trivial) fun m _ => gives_get fun _ =>
    gives_ite ?_ (gives_ite ?_ (gives_ite ?_ (gives_ite ?_ (gives_skipStatement start))))
  · -- a class
    exact gives_bind (gives_classDecl n m start) fun _ hd => gives_pure (.declaration hd)
  · -- an interface
    refine gives_bind (gives_interfaceDecl n m start) fun d hd => gives_pure (.declaration ?_)
    rintro _ ⟨⟩
    exact hd
  · -- a namespace
    exact gives_bump (gives_bind (.of_meets fun _ => meets_any_takeIf _) fun _ _ => hscope _ m)
  · -- the global scope
    exact gives_bump (hscope _ m)

/-- What is exported is a list of names or a declaration. -/
theorem exportStatement_named (start : Span) :
    Gives text (exportStatementBody (run n) start) Statement.Named := by
  refine gives_bump (gives_get fun _ => gives_ite (gives_skipStatement start)
    (gives_eat fun _ => gives_ite (ih.declaration _ start)
      (gives_when (fun _ => meets_bump trivial)
        (gives_bind (gives_exportNames start _) fun o ho => ?_))))
  cases o with
  | some s => exact gives_pure (ho s rfl)
  | none => exact ih.declaration _ start

/-- Behind decorators, a statement is an import, an export or a declaration. -/
theorem statement_named : Gives text (statementBody (run n)) Statement.Named :=
  gives_get fun _ => gives_bind (.of_meets fun _ => meets_skip trivial) fun _ _ =>
    gives_get fun _ => gives_ite (gives_importStatement _)
      (gives_ite (ih.exportStatement _) (ih.declaration {} _))

/-- A statement in front of those that are read behind it. -/
theorem statements_named (inBlock : Bool) :
    Gives text (statementsBody (run n) inBlock) fun ss => ∀ s ∈ ss, s.Named := by
  have hrest : ∀ s : Statement, s.Named → Gives text (do
      let ss ← run n (statements inBlock)
      pure (s :: ss)) fun ss => ∀ s ∈ ss, s.Named := fun s hs =>
    gives_bind (ih.statements inBlock) fun _ hss =>
      gives_pure (List.forall_mem_cons.mpr ⟨hs, hss⟩)
  refine gives_get fun c => ?_
  split
  · exact gives_pure (List.forall_mem_nil _)
  · exact gives_bump (ih.statements inBlock)
  · exact gives_ite (gives_pure (List.forall_mem_nil _)) (gives_bump (hrest _ .other))
  · exact gives_bind ih.statement fun s hs => gives_get fun _ =>
      gives_when (fun _ => meets_bump trivial) (hrest s hs)

end Step

/-- What the parsers of statements give, they give on every budget. -/
theorem statementsNamed (text : String) (n : Nat) : StatementsNamed text n := by
  induction n with
  | zero => exact statementsNamed_zero text
  | succ n ih =>
      exact ⟨statements_named ih, statement_named ih, exportStatement_named ih,
        declaration_named ih, namespaceDecl_named ih⟩

end Rule

/-- **Names that were read.**  No declaration that was read from a text has type arguments in its
    name, and no element of an import renames something to an empty name. -/
theorem parse_named (text : String) : ∀ s ∈ parse text, s.Named :=
  ((Rule.statementsNamed text _).statements false _ (.refl _)).2

end DeclAtlas

import DeclAtlas.Token.Basic
import Mathlib.Data.List.Basic

/-!
# The grammar of templates

What a template is, without a scanner (`Template.Part.Reads`): its text after the opening backtick
runs to the closing one, through escapes and substitutions; a substitution runs to its closing
brace, through braces, string literals and templates.  `Template.closing` finds the end of exactly
such a text:

* **`Template.closing_eq_some_iff`** — it stops behind the first characters that are a template's
  text, and no two prefixes of a text are;
* **`Template.extent_cases`** — so a template that closes is taken as far as that, and one that
  does not is taken to the end.

A stack of open frames stands for the languages of its frames, one after the other
(`Template.Closes`).
-/

namespace DeclAtlas.Template

/-- The parts of a template. -/
inductive Part
  /-- What follows a template's opening backtick. -/
  | text
  /-- What follows the dollar sign and the brace of a substitution, or a brace in it. -/
  | substitution
  /-- What follows the opening quote of a string literal in a substitution. -/
  | literal (quote : Char)

/-- A text is a part of a template, up to and including what closes the part. -/
inductive Part.Reads : Part → List Char → Prop
  | backtick : Reads .text ['\x60']
  | escape (c : Char) {rest : List Char} : Reads .text rest → Reads .text ('\\' :: c :: rest)
  | substitute {own rest : List Char} : Reads .substitution own → Reads .text rest →
      Reads .text ('$' :: '\x7b' :: (own ++ rest))
  | character {c : Char} {rest : List Char} : c ≠ '\x60' → c ≠ '\\' →
      ¬ (c = '$' ∧ rest.head? = some '\x7b') → Reads .text rest → Reads .text (c :: rest)
  | leave : Reads .substitution ['\x7d']
  | braces {own rest : List Char} : Reads .substitution own → Reads .substitution rest →
      Reads .substitution ('\x7b' :: (own ++ rest))
  | template {own rest : List Char} : Reads .text own → Reads .substitution rest →
      Reads .substitution ('\x60' :: (own ++ rest))
  | quoted {q : Char} {own rest : List Char} : q = '"' ∨ q = '\'' → Reads (.literal q) own →
      Reads .substitution rest → Reads .substitution (q :: (own ++ rest))
  | code {c : Char} {rest : List Char} : c ≠ '\x7b' → c ≠ '\x7d' → c ≠ '\x60' →
      ¬ (c = '"' ∨ c = '\'') → Reads .substitution rest → Reads .substitution (c :: rest)
  | unquote (q : Char) : Reads (.literal q) [q]
  | literalEscape {q : Char} (c : Char) {rest : List Char} : '\\' ≠ q → Reads (.literal q) rest →
      Reads (.literal q) ('\\' :: c :: rest)
  | literalCharacter {q c : Char} {rest : List Char} : c ≠ q → c ≠ '\\' →
      Reads (.literal q) rest → Reads (.literal q) (c :: rest)

theorem Part.Reads.ne_nil {p : Part} {cs : List Char} (h : p.Reads cs) : cs ≠ [] := by
  cases h with
  | _ => exact List.cons_ne_nil _ _

/-- The frame in which a part is read. -/
def Part.frame : Part → Frame
  | .text => .body
  | .substitution => .braces
  | .literal q => .quoted q

-- ── Frames as languages ──────────────────────────────────────────────────────────

/-- A text closes a frame. -/
def Frame.Reads : Frame → List Char → Prop
  | .body, cs => Part.text.Reads cs
  | .escape, cs => ∃ c, cs = [c]
  | .dollar, cs => ∃ c rest, cs = c :: rest ∧ Part.substitution.Reads rest
  | .braces, cs => Part.substitution.Reads cs
  | .quoted q, cs => (Part.literal q).Reads cs

/-- A text closes some frames, one after the other. -/
inductive Closes : List Frame → List Char → Prop
  | nil : Closes [] []
  | cons {f : Frame} {fs : List Frame} (own : List Char) {rest : List Char} :
      f.Reads own → Closes fs rest → Closes (f :: fs) (own ++ rest)

/-- What closes several frames closes the first one with a front of it. -/
theorem Closes.uncons {f : Frame} {fs : List Frame} {cs : List Char} (h : Closes (f :: fs) cs) :
    ∃ own rest, cs = own ++ rest ∧ f.Reads own ∧ Closes fs rest := by
  cases h with
  | cons own hown hrest => exact ⟨own, _, rfl, hown, hrest⟩

/-- So its first character does not depend on what follows. -/
theorem head?_append_of_reads {p : Part} {own : List Char} (h : p.Reads own) (rest : List Char) :
    (own ++ rest).head? = own.head? := by
  cases own with
  | nil => exact absurd rfl h.ne_nil
  | cons c own => rfl

/-- One character, and what the frame makes of it. -/
theorem closing_cons (f : Frame) (fs : List Frame) (c : Char) (cs : List Char) :
    closing (f :: fs) (c :: cs) = (closing (f.step c cs.head? ++ fs) cs).map (· + 1) := rfl

theorem map_add_map (o : Option Nat) (m n : Nat) :
    (o.map (· + m)).map (· + n) = o.map (· + (m + n)) := by
  cases o with
  | none => rfl
  | some k => exact congrArg some (Nat.add_assoc k m n)

/-- A character without a meaning of its own leaves a template open. -/
theorem step_body {c : Char} (next : Option Char) (hback : c ≠ '\x60') (hslash : c ≠ '\\')
    (hdollar : ¬ (c = '$' ∧ next = some '\x7b')) : Frame.body.step c next = [.body] := by
  rw [Frame.step, if_neg hback, if_neg hslash, if_neg hdollar]

theorem step_quote {c : Char} (next : Option Char) (h : c = '"' ∨ c = '\'') :
    Frame.braces.step c next = [.quoted c, .braces] := by
  rcases h with rfl | rfl
  · rfl
  · rfl

theorem step_code {c : Char} (next : Option Char) (hopen : c ≠ '\x7b') (hclose : c ≠ '\x7d')
    (hback : c ≠ '\x60') (hquote : ¬ (c = '"' ∨ c = '\'')) :
    Frame.braces.step c next = [.braces] := by
  rw [Frame.step, if_neg hopen, if_neg hclose, if_neg hback, if_neg hquote]

-- ── What closes is found ─────────────────────────────────────────────────────────

/-- A text closes a frame, whatever frames are open outside and whatever follows. -/
def ClosesIn (f : Frame) (own : List Char) : Prop :=
  ∀ (fs : List Frame) (rest : List Char),
    closing (f :: fs) (own ++ rest) = (closing fs rest).map (· + own.length)

/-- Behind a character that leaves its frame as it was. -/
theorem ClosesIn.cons {f : Frame} {c : Char} {own : List Char} (h : ClosesIn f own)
    (hstep : ∀ rest, f.step c (own ++ rest).head? = [f]) : ClosesIn f (c :: own) := by
  intro fs rest
  rw [List.cons_append, closing_cons, hstep, List.singleton_append, h, map_add_map]
  rfl

/-- Two texts close two frames, the inner one first. -/
theorem ClosesIn.both {f g : Frame} {inner after : List Char} (hinner : ClosesIn f inner)
    (hafter : ClosesIn g after) (fs : List Frame) (rest : List Char) :
    closing (f :: g :: fs) (inner ++ after ++ rest) =
      (closing fs rest).map (· + (inner ++ after).length) := by
  rw [List.append_assoc, hinner, hafter, map_add_map, List.length_append, Nat.add_comm]

/-- A character that opens a frame in another one, then what closes the two. -/
theorem ClosesIn.nested {f g : Frame} {c : Char} {inner after : List Char}
    (hinner : ClosesIn f inner) (hafter : ClosesIn g after)
    (hstep : ∀ next, g.step c next = [f, g]) : ClosesIn g (c :: (inner ++ after)) := by
  intro fs rest
  rw [List.cons_append, closing_cons, hstep]
  show (closing (f :: g :: fs) (inner ++ after ++ rest)).map (· + 1) = _
  rw [hinner.both hafter, map_add_map]
  rfl

/-- A part closes its frame. -/
theorem closing_of_reads {p : Part} {own : List Char} (h : p.Reads own) :
    ClosesIn p.frame own := by
  induction h with
  | backtick => exact fun _ _ => rfl
  | escape c _ ih =>
      intro fs rest
      show ((closing (.body :: fs) (_ ++ rest)).map (· + 1)).map (· + 1) = _
      rw [show closing (.body :: fs) _ = _ from ih fs rest, map_add_map, map_add_map]
      rfl
  | @substitute inner after _ _ ihinner ihafter =>
      intro fs rest
      show ((closing (.braces :: .body :: fs) ((inner ++ after) ++ rest)).map (· + 1)).map (· + 1) =
        _
      rw [ClosesIn.both (f := .braces) (g := .body) ihinner ihafter, map_add_map, map_add_map]
      rfl
  | character hback hslash hdollar hafter ih =>
      refine ih.cons fun rest => ?_
      rw [head?_append_of_reads hafter]
      exact step_body _ hback hslash hdollar
  | leave => exact fun _ _ => rfl
  | braces _ _ ihinner ihafter => exact ihinner.nested ihafter fun _ => rfl
  | template _ _ ihinner ihafter => exact ihinner.nested ihafter fun _ => rfl
  | quoted hq _ _ ihinner ihafter => exact ihinner.nested ihafter fun next => step_quote next hq
  | code hopen hclose hback hquote _ ih =>
      exact ih.cons fun _ => step_code _ hopen hclose hback hquote
  | unquote q =>
      intro fs rest
      rw [List.singleton_append, Part.frame, closing_cons, Frame.step, if_pos rfl]
      rfl
  | literalEscape c hq _ ih =>
      intro fs rest
      rw [List.cons_append, List.cons_append, Part.frame, closing_cons, Frame.step, if_neg hq,
        if_pos rfl]
      show ((closing (.quoted _ :: fs) (_ ++ rest)).map (· + 1)).map (· + 1) = _
      rw [show closing (.quoted _ :: fs) _ = _ from ih fs rest, map_add_map, map_add_map]
      rfl
  | literalCharacter hq hslash _ ih =>
      refine ih.cons fun rest => ?_
      rw [Part.frame, Frame.step, if_neg hq, if_neg hslash]

-- ── What is found closes ─────────────────────────────────────────────────────────

/-- A character in front of what closes its frame, if it is read together with it. -/
theorem Closes.behind {f : Frame} {fs : List Frame} {c : Char} {cs : List Char}
    (h : Closes (f :: fs) cs) (hjoin : ∀ {own}, f.Reads own → f.Reads (c :: own)) :
    Closes (f :: fs) (c :: cs) := by
  obtain ⟨own, rest, rfl, hown, hrest⟩ := h.uncons
  exact .cons (c :: own) (hjoin hown) hrest

/-- A character in front of what closes a frame that it opens, and then its own. -/
theorem Closes.nested {f g : Frame} {fs : List Frame} {c : Char} {cs : List Char}
    (h : Closes (f :: g :: fs) cs)
    (hjoin : ∀ {inner own}, f.Reads inner → g.Reads own → g.Reads (c :: (inner ++ own))) :
    Closes (g :: fs) (c :: cs) := by
  obtain ⟨inner, after, rfl, hinner, hafter⟩ := h.uncons
  obtain ⟨own, rest, rfl, hown, hrest⟩ := hafter.uncons
  rw [← List.append_assoc]
  exact .cons (c :: (inner ++ own)) (hjoin hinner hown) hrest

/-- What closes the frames that a character leaves open closes, with this character, the frame that
    it is read in.  The character that follows, if any does, is the one that was looked at. -/
theorem Closes.step (next : Option Char) {f : Frame} {fs : List Frame} {c : Char} {cs : List Char}
    (hnext : cs ≠ [] → cs.head? = next) (h : Closes (f.step c next ++ fs) cs) :
    Closes (f :: fs) (c :: cs) := by
  cases f with
  | body =>
      by_cases hback : c = '\x60'
      · subst hback
        exact .cons ['\x60'] .backtick h
      by_cases hslash : c = '\\'
      · subst hslash
        obtain ⟨_, after, rfl, ⟨d, rfl⟩, hafter⟩ := Closes.uncons (f := .escape) h
        obtain ⟨own, rest, rfl, hown, hrest⟩ := hafter.uncons
        exact .cons ('\\' :: d :: own) (.escape d hown) hrest
      by_cases hdollar : c = '$' ∧ next = some '\x7b'
      · obtain ⟨rfl, rfl⟩ := hdollar
        obtain ⟨_, after, rfl, ⟨d, inner, rfl, hinner⟩, hafter⟩ := Closes.uncons (f := .dollar) h
        obtain ⟨own, rest, rfl, hown, hrest⟩ := hafter.uncons
        obtain rfl : d = '\x7b' := Option.some.inj (hnext (List.cons_ne_nil _ _))
        have hcs : '$' :: ('\x7b' :: inner ++ (own ++ rest)) =
            ('$' :: '\x7b' :: (inner ++ own)) ++ rest := by simp
        rw [hcs]
        exact .cons _ (.substitute hinner hown) hrest
      · rw [step_body _ hback hslash hdollar] at h
        obtain ⟨own, rest, rfl, hown, hrest⟩ := Closes.uncons h
        rw [← hnext (List.append_ne_nil_of_left_ne_nil hown.ne_nil _),
          head?_append_of_reads hown] at hdollar
        exact .cons (c :: own) (.character hback hslash hdollar hown) hrest
  | escape => exact .cons [c] ⟨c, rfl⟩ h
  | dollar =>
      obtain ⟨own, rest, rfl, hown, hrest⟩ := Closes.uncons (f := .braces) h
      exact .cons (c :: own) ⟨c, own, rfl, hown⟩ hrest
  | braces =>
      by_cases hopen : c = '\x7b'
      · subst hopen
        exact Closes.nested (f := .braces) (g := .braces) h .braces
      by_cases hclose : c = '\x7d'
      · subst hclose
        exact .cons ['\x7d'] .leave h
      by_cases hback : c = '\x60'
      · subst hback
        exact Closes.nested (f := .body) (g := .braces) h .template
      by_cases hquote : c = '"' ∨ c = '\''
      · rw [step_quote _ hquote] at h
        exact Closes.nested (f := .quoted c) (g := .braces) h (.quoted hquote)
      · rw [step_code _ hopen hclose hback hquote] at h
        exact Closes.behind (f := .braces) h (.code hopen hclose hback hquote)
  | quoted q =>
      by_cases hq : c = q
      · subst hq
        rw [Frame.step, if_pos rfl] at h
        exact .cons [c] (.unquote c) h
      by_cases hslash : c = '\\'
      · subst hslash
        rw [Frame.step, if_neg hq, if_pos rfl] at h
        obtain ⟨_, after, rfl, ⟨d, rfl⟩, hafter⟩ := Closes.uncons h
        obtain ⟨own, rest, rfl, hown, hrest⟩ := Closes.uncons hafter
        exact .cons ('\\' :: d :: own) (.literalEscape d hq hown) hrest
      · rw [Frame.step, if_neg hq, if_neg hslash] at h
        exact Closes.behind (f := .quoted q) h (.literalCharacter hq hslash)

/-- The characters up to the end that is found close the frames. -/
theorem closes_of_closing (cs : List Char) :
    ∀ {fs : List Frame} {n : Nat}, closing fs cs = some n →
      n ≤ cs.length ∧ Closes fs (cs.take n) := by
  induction cs with
  | nil =>
      intro fs n h
      cases fs with
      | nil =>
          obtain rfl : 0 = n := Option.some.inj h
          exact ⟨Nat.le_refl _, .nil⟩
      | cons f fs => cases h
  | cons c cs ih =>
      intro fs n h
      cases fs with
      | nil =>
          obtain rfl : 0 = n := Option.some.inj h
          exact ⟨Nat.zero_le _, .nil⟩
      | cons f fs =>
          rw [closing_cons] at h
          obtain ⟨m, hm, rfl⟩ := Option.map_eq_some_iff.mp h
          obtain ⟨hle, hcloses⟩ := ih hm
          refine ⟨Nat.succ_le_succ hle, ?_⟩
          rw [List.take_succ_cons]
          refine Closes.step cs.head? (fun hne => ?_) hcloses
          rw [List.head?_take, if_neg]
          rintro rfl
          exact hne List.take_zero

-- ── Templates ────────────────────────────────────────────────────────────────────

/-- A template that is closed is closed in front of anything. -/
theorem closing_append {body : List Char} (h : Part.text.Reads body) (rest : List Char) :
    closing [.body] (body ++ rest) = some body.length := by
  have hclosing := closing_of_reads h [] rest
  rw [closing] at hclosing
  exact hclosing.trans (congrArg some (Nat.zero_add _))

/-- **The scanner reads the grammar.**  It stops behind some characters exactly if these are the
    text of a template. -/
theorem closing_eq_some_iff {cs : List Char} {n : Nat} :
    closing [.body] cs = some n ↔ n ≤ cs.length ∧ Part.text.Reads (cs.take n) := by
  constructor
  · intro h
    obtain ⟨hle, hcloses⟩ := closes_of_closing cs h
    obtain ⟨own, rest, htake, hown, hrest⟩ := hcloses.uncons
    refine ⟨hle, ?_⟩
    cases hrest
    rw [htake, List.append_nil]
    exact hown
  · rintro ⟨hle, hreads⟩
    have h := closing_append hreads (cs.drop n)
    rwa [List.take_append_drop, List.length_take_of_le hle] at h

/-- A text begins with one template's text at most. -/
theorem eq_of_reads {body body' rest rest' : List Char} (h : Part.text.Reads body)
    (h' : Part.text.Reads body') (heq : body ++ rest = body' ++ rest') : body = body' := by
  have hlen := closing_append h rest
  rw [heq, closing_append h' rest'] at hlen
  exact (List.append_inj heq (Option.some.inj hlen).symm).1

/-- A template is taken as far as it closes, and to the end of the text if it never does. -/
theorem extent_cases (cs : List Char) :
    (∃ body rest, cs = body ++ rest ∧ Part.text.Reads body ∧ extent cs = body.length) ∨
    ((∀ body rest, cs = body ++ rest → ¬ Part.text.Reads body) ∧ extent cs = cs.length) := by
  unfold extent
  cases hclosing : closing [.body] cs with
  | some n =>
      obtain ⟨hle, hreads⟩ := closing_eq_some_iff.mp hclosing
      exact Or.inl ⟨_, _, (List.take_append_drop n cs).symm, hreads,
        (List.length_take_of_le hle).symm⟩
  | none =>
      refine Or.inr ⟨?_, rfl⟩
      rintro body rest rfl hreads
      rw [closing_append hreads] at hclosing
      cases hclosing

end DeclAtlas.Template

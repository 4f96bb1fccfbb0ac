/-!
# Splitting and joining text

Cutting a text at separators and putting it together again.  `pieces` keeps everything but
the separators, so joining the pieces at one separator gives the text back
(`joinWith_pieces`), and the pieces of a text behind a separator come behind those before it
(`pieces_append_sep`).  `splitLast` cuts once, at the last of its separators
(`splitLast_append`).
-/

namespace DeclAtlas.Text

/-- The pieces between the characters at which `isSep` holds, empty ones included.  There is
    one piece more than there are separators. -/
def pieces (isSep : Char → Bool) : List Char → List (List Char)
  | [] => [[]]
  | c :: cs =>
    if isSep c then [] :: pieces isSep cs
    else
      match pieces isSep cs with
      | [] => [[c]]
      | p :: ps => (c :: p) :: ps

/-- The pieces with one separator between any two of them. -/
def joinWith (sep : Char) : List (List Char) → List Char
  | [] => []
  | [p] => p
  | p :: ps => p ++ sep :: joinWith sep ps

/-- What stands before and after the last occurrence of a character. -/
def splitLast (c : Char) : List Char → Option (List Char × List Char)
  | [] => none
  | x :: xs =>
    match splitLast c xs with
    | some (before, after) => some (x :: before, after)
    | none => if x = c then some ([], xs) else none

theorem pieces_ne_nil (isSep : Char → Bool) (cs : List Char) : pieces isSep cs ≠ [] := by
  cases cs with
  | nil => simp [pieces]
  | cons c cs =>
      rw [pieces]
      split
      · simp
      · split <;> simp

/-- Joining the pieces of a text at the separator it was cut at gives the text back. -/
theorem joinWith_pieces (sep : Char) (cs : List Char) :
    joinWith sep (pieces (· == sep) cs) = cs := by
  induction cs with
  | nil => rfl
  | cons c cs ih =>
      have hne := pieces_ne_nil (· == sep) cs
      rw [pieces]
      cases hp : pieces (· == sep) cs with
      | nil => exact absurd hp hne
      | cons p ps =>
          rw [hp] at ih
          by_cases hc : c = sep
          · subst hc
            simp [joinWith, ih]
          · have hb : (c == sep) = false := by simpa using hc
            simp only [hb]
            cases ps with
            | nil => simpa [joinWith] using ih
            | cons q qs => simpa [joinWith] using ih

/-- Cutting a text at separators is the library's way of splitting it there. -/
theorem pieces_eq_splitOnP (isSep : Char → Bool) (cs : List Char) :
    pieces isSep cs = cs.splitOnP isSep := by
  induction cs with
  | nil => exact List.splitOnP_nil.symm
  | cons c cs ih =>
      rw [pieces, List.splitOnP_cons_eq_if_modifyHead, ← ih]
      by_cases hc : isSep c = true
      · rw [if_pos hc, if_pos hc]
      · rw [if_neg hc, if_neg hc]
        cases hp : pieces isSep cs with
        | nil => exact absurd hp (pieces_ne_nil isSep cs)
        | cons p ps => rfl

/-- A text without separators is one piece. -/
theorem pieces_of_not_sep {isSep : Char → Bool} {cs : List Char} (h : ∀ c ∈ cs, isSep c = false) :
    pieces isSep cs = [cs] := by
  induction cs with
  | nil => rfl
  | cons c cs ih =>
      rw [pieces, h c (List.mem_cons_self ..), ih fun d hd => h d (List.mem_cons_of_mem c hd)]
      rfl

/-- A separator cuts a text into what stands before and after it. -/
theorem pieces_append_sep {isSep : Char → Bool} {c : Char} (hc : isSep c = true)
    (before after : List Char) :
    pieces isSep (before ++ c :: after) = pieces isSep before ++ pieces isSep after := by
  induction before with
  | nil => simp [pieces, hc]
  | cons x xs ih =>
      rw [List.cons_append, pieces, pieces, ih]
      by_cases hx : isSep x = true
      · rw [if_pos hx, if_pos hx]
        rfl
      · rw [if_neg hx, if_neg hx]
        cases hp : pieces isSep xs with
        | nil => exact absurd hp (pieces_ne_nil isSep xs)
        | cons p ps => rfl

/-- No separator is left in a piece. -/
theorem not_sep_of_mem_pieces {isSep : Char → Bool} (cs : List Char) :
    ∀ p ∈ pieces isSep cs, ∀ c ∈ p, isSep c = false := by
  induction cs with
  | nil =>
      intro p hp c hc
      rw [List.mem_singleton.mp hp] at hc
      exact nomatch hc
  | cons x xs ih =>
      intro p hp c hc
      rw [pieces] at hp
      by_cases hx : isSep x = true
      · rw [if_pos hx] at hp
        rcases List.mem_cons.mp hp with rfl | hp
        · exact nomatch hc
        · exact ih p hp c hc
      · rw [if_neg hx] at hp
        cases hq : pieces isSep xs with
        | nil => exact absurd hq (pieces_ne_nil isSep xs)
        | cons q qs =>
            rw [hq] at hp ih
            rcases List.mem_cons.mp hp with rfl | hp
            · rcases List.mem_cons.mp hc with rfl | hc
              · exact Bool.eq_false_iff.mpr hx
              · exact ih q (List.mem_cons_self ..) c hc
            · exact ih p (List.mem_cons_of_mem q hp) c hc

/-- What is written behind a text without a separator goes to its last piece. -/
theorem pieces_append_of_not_sep {isSep : Char → Bool} {b : List Char}
    (hb : ∀ c ∈ b, isSep c = false) (a : List Char) :
    ∀ {init : List (List Char)} {last : List Char}, pieces isSep a = init ++ [last] →
      pieces isSep (a ++ b) = init ++ [last ++ b] := by
  induction a with
  | nil =>
      intro init last h
      have hconcat : init ++ [last] = [] ++ [[]] := h.symm
      obtain ⟨rfl, hlast⟩ := List.append_inj' hconcat rfl
      obtain rfl : last = [] := (List.cons.inj hlast).1
      exact pieces_of_not_sep hb
  | cons x xs ih =>
      intro init last h
      rw [List.cons_append, pieces]
      rw [pieces] at h
      by_cases hx : isSep x = true
      · rw [if_pos hx] at h ⊢
        cases init with
        | nil => exact absurd (List.cons.inj h).2 (pieces_ne_nil isSep xs)
        | cons p init =>
            obtain ⟨rfl, hrest⟩ := List.cons.inj h
            rw [ih hrest]
            rfl
      · rw [if_neg hx] at h ⊢
        cases hp : pieces isSep xs with
        | nil => exact absurd hp (pieces_ne_nil isSep xs)
        | cons p ps =>
            rw [hp] at h
            cases init with
            | nil =>
                obtain ⟨rfl, rfl⟩ := List.cons.inj h
                have hxs : pieces isSep xs = [] ++ [p] := hp
                rw [ih hxs]
                rfl
            | cons q init =>
                obtain ⟨rfl, rfl⟩ := List.cons.inj h
                have hxs : pieces isSep xs = (p :: init) ++ [last] := hp
                rw [ih hxs]
                rfl

/-- Pieces with a separator behind each of them are found again in front of a text. -/
theorem pieces_flatMap_sep {isSep : Char → Bool} (sep : Char) (hsep : isSep sep = true)
    (ps : List (List Char)) (hps : ∀ p ∈ ps, ∀ c ∈ p, isSep c = false) (cs : List Char) :
    pieces isSep (ps.flatMap (· ++ [sep]) ++ cs) = ps ++ pieces isSep cs := by
  induction ps with
  | nil => rfl
  | cons p ps ih =>
      rw [List.flatMap_cons, List.append_assoc, List.append_assoc, List.singleton_append,
        pieces_append_sep hsep, pieces_of_not_sep (hps p (List.mem_cons_self ..)),
        ih fun q hq => hps q (List.mem_cons_of_mem p hq)]
      rfl

/-- Joined pieces end with the last one; each of the others has a separator behind it. -/
theorem joinWith_concat (sep : Char) (ps : List (List Char)) (p : List Char) :
    joinWith sep (ps ++ [p]) = ps.flatMap (· ++ [sep]) ++ p := by
  induction ps with
  | nil => rfl
  | cons q ps ih =>
      have hcons : joinWith sep (q :: (ps ++ [p])) = q ++ sep :: joinWith sep (ps ++ [p]) := by
        cases ps with
        | nil => rfl
        | cons _ _ => rfl
      rw [List.cons_append, hcons, ih, List.flatMap_cons]
      simp

theorem splitLast_of_not_mem {c : Char} {xs : List Char} (h : c ∉ xs) : splitLast c xs = none := by
  induction xs with
  | nil => rfl
  | cons x xs ih =>
      obtain ⟨hx, hxs⟩ := not_or.mp (mt List.mem_cons.mpr h)
      rw [splitLast, ih hxs]
      exact if_neg (Ne.symm hx)

theorem splitLast_append {c : Char} {after : List Char} (h : c ∉ after) (before : List Char) :
    splitLast c (before ++ c :: after) = some (before, after) := by
  induction before with
  | nil =>
      rw [List.nil_append, splitLast, splitLast_of_not_mem h]
      exact if_pos rfl
  | cons x xs ih => rw [List.cons_append, splitLast, ih]

/-- A text is what stands before its last separator, the separator, and what stands after. -/
theorem eq_append_of_splitLast {c : Char} (xs : List Char) :
    ∀ {before after : List Char}, splitLast c xs = some (before, after) →
      xs = before ++ c :: after := by
  induction xs with
  | nil => intro before after h; exact nomatch h
  | cons x xs ih =>
      intro before after h
      rw [splitLast] at h
      cases hs : splitLast c xs with
      | none =>
          rw [hs] at h
          by_cases hx : x = c
          · simp only [if_pos hx, Option.some.injEq, Prod.mk.injEq] at h
            obtain ⟨rfl, rfl⟩ := h
            rw [hx]
            rfl
          · simp [hx] at h
      | some parts =>
          obtain ⟨a, b⟩ := parts
          rw [hs] at h
          obtain ⟨rfl, rfl⟩ := Prod.mk.inj (Option.some.inj h)
          rw [ih hs]
          rfl

end DeclAtlas.Text

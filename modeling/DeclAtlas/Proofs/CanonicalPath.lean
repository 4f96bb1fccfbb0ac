import DeclAtlas.Proofs.NormalPath
import Mathlib.Data.List.Induction

/-!
# Normalized paths are canonical

A path names one place in many ways; normalizing chooses one of them.  `ModulePath.IsNormal` says
which, of the path as it is written: its segments are names, with `..` in front of them only in a
relative path.  The two roots are written `/` and `.`.

* **`ModulePath.normalize_is_canonical`** — normalizing gives a path of this form, changes none that
  has it, keeps a path absolute or relative, and may be done before or after a relative path is put
  behind another one.

The last of these is where `..` could do harm.  In a relative path by itself, a `..` that finds no
name is kept; so the segments that are left climb exactly as far as those that were there, from
wherever they are read on (`ModulePath.foldl_push_segments`).
-/

namespace DeclAtlas

-- ── Pieces that were joined ──────────────────────────────────────────────────────

namespace Text

variable {isSep : Char → Bool} {sep c : Char} {ps : List (List Char)}

/-- A character of joined pieces is the separator, or stands in a piece. -/
theorem mem_joinWith (h : c ∈ joinWith sep ps) : c = sep ∨ ∃ p ∈ ps, c ∈ p := by
  rcases List.eq_nil_or_concat ps with rfl | ⟨init, last, rfl⟩
  · exact nomatch h
  · rw [List.concat_eq_append, joinWith_concat] at h
    rcases List.mem_append.mp h with h | h
    · obtain ⟨p, hp, hc⟩ := List.mem_flatMap.mp h
      rcases List.mem_append.mp hc with hc | hc
      · exact Or.inr ⟨p, by simp [hp], hc⟩
      · exact Or.inl (List.mem_singleton.mp hc)
    · exact Or.inr ⟨last, by simp, h⟩

theorem joinWith_ne_nil (hne : ps ≠ []) (hps : ∀ p ∈ ps, p ≠ []) : joinWith sep ps ≠ [] := by
  rcases List.eq_nil_or_concat ps with rfl | ⟨init, last, rfl⟩
  · exact absurd rfl hne
  · rw [List.concat_eq_append, joinWith_concat]
    exact List.append_ne_nil_of_right_ne_nil _ (hps last (by simp))

/-- Pieces that were joined are found again. -/
theorem pieces_joinWith (hsep : isSep sep = true) (hne : ps ≠ [])
    (hps : ∀ p ∈ ps, ∀ c ∈ p, isSep c = false) : pieces isSep (joinWith sep ps) = ps := by
  rcases List.eq_nil_or_concat ps with rfl | ⟨init, last, rfl⟩
  · exact absurd rfl hne
  · rw [List.concat_eq_append] at hps ⊢
    obtain ⟨hinit, hlast⟩ := List.forall_mem_append.mp hps
    rw [joinWith_concat, pieces_flatMap_sep sep hsep init hinit,
      pieces_of_not_sep (hlast last (List.mem_singleton_self _))]

/-- A text is cut the same by separators that agree on its characters. -/
theorem pieces_congr {isSep' : Char → Bool} {cs : List Char} (h : ∀ c ∈ cs, isSep c = isSep' c) :
    pieces isSep cs = pieces isSep' cs := by
  induction cs with
  | nil => rfl
  | cons c cs ih =>
      rw [pieces, pieces, h c (List.mem_cons_self ..),
        ih fun d hd => h d (List.mem_cons_of_mem c hd)]

end Text

namespace ModulePath

open Text

variable {absolute : Bool} {segment : List Char} {stack segments : List (List Char)}
  {path cs a b : List Char}

-- ── Paths as they are written ────────────────────────────────────────────────────

/-- The segments of a path as it is written: what stands between its slashes, behind the one in
    front of an absolute path.  The root of absolute paths has none. -/
def writtenSegments (path : List Char) : List (List Char) :=
  let relative := if path.head? = some '/' then path.tail else path
  if relative = [] then [] else relative.splitOn '/'

/-- A path as normalizing leaves it. -/
structure IsNormal (path : List Char) : Prop where
  ne_nil : path ≠ []
  no_backslash : '\\' ∉ path
  segments_ne : path ≠ ['.'] → ∀ s ∈ writtenSegments path, s ≠ [] ∧ s ≠ ['.']
  absolute_up : path.head? = some '/' → ['.', '.'] ∉ writtenSegments path
  relative_up : path.head? ≠ some '/' →
    ∃ k names, writtenSegments path = List.replicate k ['.', '.'] ++ names ∧ ['.', '.'] ∉ names

/-- A path is absolute if it begins with a slash of either kind. -/
theorem isAbsolute_iff : isAbsolute cs = true ↔ cs.head? = some '/' ∨ cs.head? = some '\\' := by
  cases cs with
  | nil => simp [isAbsolute]
  | cons c cs => simp [isAbsolute, isSlash]

/-- Without backslashes, a path is absolute if it begins with the other slash. -/
theorem head?_eq_slash_iff (h : '\\' ∉ path) : path.head? = some '/' ↔ isAbsolute path = true := by
  rw [isAbsolute_iff]
  refine ⟨Or.inl, ?_⟩
  rintro (hslash | hback)
  · exact hslash
  · exact absurd (List.mem_of_head? hback) h

/-- Without backslashes, a text is cut at slashes of either kind as it is at the one. -/
theorem pieces_eq_splitOn (h : '\\' ∉ cs) : pieces isSlash cs = cs.splitOn '/' := by
  rw [List.splitOn, ← pieces_eq_splitOnP]
  refine pieces_congr fun c hc => ?_
  have hne : c ≠ '\\' := fun heq => h (heq ▸ hc)
  simp [isSlash, hne]

-- ── Segments that are written out ────────────────────────────────────────────────

/-- The text of a path with these segments. -/
def written (absolute : Bool) (segments : List (List Char)) : List Char :=
  (if absolute then ['/'] else []) ++ joinWith '/' segments

/-- Segments that can be read back once they are written. -/
structure Separable (absolute : Bool) (segments : List (List Char)) : Prop where
  ne_nil : absolute = false → segments ≠ []
  segment_ne : ∀ s ∈ segments, s ≠ []
  plain : ∀ s ∈ segments, ∀ c ∈ s, isSlash c = false

namespace Separable

variable (h : Separable absolute segments)

include h

theorem no_backslash : '\\' ∉ written absolute segments := by
  intro hmem
  rcases List.mem_append.mp hmem with hmem | hmem
  · cases absolute with
    | true => simp at hmem
    | false => simp at hmem
  · rcases mem_joinWith hmem with hslash | ⟨s, hs, hc⟩
    · exact absurd hslash (by decide)
    · exact nomatch h.plain s hs '\\' hc

/-- Whether a path was written as an absolute one can be seen from it. -/
theorem isAbsolute_written : isAbsolute (written absolute segments) = absolute := by
  cases absolute with
  | true => rfl
  | false =>
      cases segments with
      | nil => exact absurd rfl (h.ne_nil rfl)
      | cons s rest =>
          obtain ⟨c, s, rfl⟩ := List.exists_cons_of_ne_nil (h.segment_ne s (List.mem_cons_self ..))
          have hc := h.plain (c :: s) (List.mem_cons_self ..) c (List.mem_cons_self ..)
          cases rest with
          | nil => exact hc
          | cons _ _ => exact hc

theorem writtenSegments_written : writtenSegments (written absolute segments) = segments := by
  have hhead := (head?_eq_slash_iff h.no_backslash).trans (by rw [h.isAbsolute_written])
  have hrelative : (if (written absolute segments).head? = some '/'
      then (written absolute segments).tail else written absolute segments) =
      joinWith '/' segments := by
    cases absolute with
    | true => rfl
    | false => rw [if_neg (by simpa using hhead)]; rfl
  have hback : '\\' ∉ joinWith '/' segments :=
    fun hmem => h.no_backslash (List.mem_append_right _ hmem)
  unfold writtenSegments
  rw [hrelative]
  by_cases hnil : segments = []
  · rw [hnil]
    rfl
  · dsimp only
    rw [if_neg (joinWith_ne_nil hnil h.segment_ne), ← pieces_eq_splitOn hback,
      pieces_joinWith rfl hnil h.plain]

/-- Reading segments on from a text of them is reading them on themselves. -/
theorem foldl_push_written (base : Bool) (stack : List (List Char)) :
    (pieces isSlash (written absolute segments)).foldl (push base) stack =
      segments.foldl (push base) stack := by
  have hjoined : (pieces isSlash (joinWith '/' segments)).foldl (push base) stack =
      segments.foldl (push base) stack := by
    by_cases hnil : segments = []
    · rw [hnil]
      rfl
    · rw [pieces_joinWith rfl hnil h.plain]
  cases absolute with
  | true => exact hjoined
  | false => exact hjoined

end Separable

-- ── Normalized paths ─────────────────────────────────────────────────────────────

/-- The segments of a normalized path as it is written: a point stands for the root of relative
    paths. -/
def shown (cs : List Char) : List (List Char) :=
  if resolved cs = [] ∧ isAbsolute cs = false then [['.']] else resolved cs

/-- The segments of a normalized path can be read back. -/
theorem separable_shown (cs : List Char) : Separable (isAbsolute cs) (shown cs) := by
  unfold shown
  by_cases hroot : resolved cs = [] ∧ isAbsolute cs = false
  · rw [if_pos hroot]
    exact ⟨fun _ => List.cons_ne_nil _ _, by simp, by simp [isSlash]⟩
  · rw [if_neg hroot]
    refine ⟨fun hrel hnil => hroot ⟨hnil, hrel⟩, ?_, resolved_plain cs⟩
    intro s hs
    exact ((canonical_resolved cs).ne_nil s (List.mem_reverse.mpr hs)).1

theorem normalizeChars_eq_written (cs : List Char) :
    normalizeChars cs = written (isAbsolute cs) (shown cs) := by
  unfold normalizeChars written shown
  cases habs : isAbsolute cs with
  | true => simp
  | false =>
      by_cases hnil : resolved cs = []
      · simp [hnil, joinWith]
      · have hjoined : joinWith '/' (resolved cs) ≠ [] :=
          joinWith_ne_nil hnil fun s hs =>
            ((canonical_resolved cs).ne_nil s (List.mem_reverse.mpr hs)).1
        simp [hnil, hjoined]

theorem isAbsolute_normalizeChars (cs : List Char) :
    isAbsolute (normalizeChars cs) = isAbsolute cs := by
  rw [normalizeChars_eq_written]
  exact (separable_shown cs).isAbsolute_written

/-- From wherever it is read on, a normalized path is read as its segments are. -/
theorem foldl_push_normalizeChars (base : Bool) (cs : List Char) (stack : List (List Char)) :
    (pieces isSlash (normalizeChars cs)).foldl (push base) stack =
      (resolved cs).foldl (push base) stack := by
  rw [normalizeChars_eq_written, (separable_shown cs).foldl_push_written, shown]
  by_cases hroot : resolved cs = [] ∧ isAbsolute cs = false
  · rw [if_pos hroot, hroot.1]
    rfl
  · rw [if_neg hroot]

/-- A normalized path resolves to the same segments. -/
theorem resolved_normalizeChars (cs : List Char) : resolved (normalizeChars cs) = resolved cs := by
  have hreplay := foldl_push_reverse (canonical_resolved cs)
  rw [List.reverse_reverse] at hreplay
  rw [resolved, isAbsolute_normalizeChars, foldl_push_normalizeChars, hreplay, List.reverse_reverse]

/-- A normalized path depends on nothing but its segments and where they begin. -/
theorem normalizeChars_congr (habs : isAbsolute a = isAbsolute b) (h : resolved a = resolved b) :
    normalizeChars a = normalizeChars b := by
  unfold normalizeChars
  rw [habs, h]

-- ── Segments that climb ──────────────────────────────────────────────────────────

/-- Names may be put on any stack of this shape. -/
theorem Canonical.append_names {names : List (List Char)} (hnames : ∀ s ∈ names, IsName s)
    (h : Canonical absolute stack) : Canonical absolute (names ++ stack) := by
  induction names with
  | nil => exact h
  | cons s names ih =>
      obtain ⟨hs, hrest⟩ := List.forall_mem_cons.mp hnames
      exact .name hs (ih hrest)

/-- Any number of steps up is a canonical relative path. -/
theorem canonical_replicate (k : Nat) : Canonical false (List.replicate k ['.', '.']) := by
  induction k with
  | zero => exact .nil
  | succ k ih => exact .up rfl (fun s hs => List.eq_of_mem_replicate hs) ih

/-- There is no step up in an absolute one. -/
theorem Canonical.not_mem_up (h : Canonical true stack) : ['.', '.'] ∉ stack := by
  induction h with
  | nil => exact List.not_mem_nil
  | name hname _ ih => exact List.not_mem_cons_of_ne_of_not_mem hname.ne_points.symm ih
  | up hrel => exact nomatch hrel

/-- Read from the bottom, such a stack climbs first and descends then. -/
theorem Canonical.climbs_first (h : Canonical absolute stack) :
    ∃ k names, stack.reverse = List.replicate k ['.', '.'] ++ names ∧ ['.', '.'] ∉ names := by
  induction h with
  | nil => exact ⟨0, [], rfl, List.not_mem_nil⟩
  | @name segment rest hname _ ih =>
      obtain ⟨k, names, heq, hup⟩ := ih
      refine ⟨k, names ++ [segment], ?_, ?_⟩
      · rw [List.reverse_cons, heq, List.append_assoc]
      · intro hmem
        rcases List.mem_append.mp hmem with hmem | hmem
        · exact hup hmem
        · exact hname.ne_points (List.mem_singleton.mp hmem).symm
  | @up rest _ hall _ _ =>
      refine ⟨rest.length + 1, [], ?_, List.not_mem_nil⟩
      rw [List.append_nil]
      refine List.eq_replicate_iff.mpr ⟨by simp, ?_⟩
      intro s hs
      rcases List.mem_cons.mp (List.mem_reverse.mp hs) with rfl | hs
      · rfl
      · exact hall s hs

/-- What is left of the segments of a relative path climbs as far as the segments themselves, from
    wherever they are read on: a name that is left again is on top of what was there before, and
    `..` is kept where it finds no name. -/
theorem foldl_push_segments (base : Bool) (start : List (List Char)) (segments : List (List Char))
    (hplain : ∀ s ∈ segments, ∀ c ∈ s, isSlash c = false) :
    segments.foldl (push base) start =
      (segments.foldl (push false) []).reverse.foldl (push base) start := by
  induction segments using List.reverseRecOn with
  | nil => rfl
  | append_singleton segments s ih =>
      obtain ⟨hinit, hlast⟩ := List.forall_mem_append.mp hplain
      have hs := hlast s (List.mem_singleton_self s)
      have hcanonical : Canonical false (segments.foldl (push false) []) :=
        .foldl_push segments .nil hinit
      rw [List.foldl_append, List.foldl_append, ih hinit]
      generalize segments.foldl (push false) [] = left at hcanonical
      show push base (left.reverse.foldl (push base) start) s =
        (push false left s).reverse.foldl (push base) start
      have hkept : push base (left.reverse.foldl (push base) start) s =
          (s :: left).reverse.foldl (push base) start := by
        rw [List.reverse_cons, List.foldl_append]
        rfl
      by_cases hskip : s = [] ∨ s = ['.']
      · rw [push_skip hskip, push_skip hskip]
      · by_cases hup : s = ['.', '.']
        · subst hup
          cases hcanonical with
          | nil => exact hkept
          | name hname _ =>
              rw [push_up_name hname, List.reverse_cons, List.foldl_append]
              show push base (push base _ _) _ = _
              rw [push_name hname, push_up_name hname]
          | up _ hall _ =>
              rw [push_up_relative (List.forall_mem_cons.mpr ⟨rfl, hall⟩)]
              exact hkept
        · have hname : IsName s := ⟨fun h => hskip (Or.inl h), fun h => hskip (Or.inr h), hup, hs⟩
          have hpush : push false left s = s :: left := push_name hname
          rw [hpush]
          exact hkept

-- ── The canonical form ───────────────────────────────────────────────────────────

/-- What normalizing gives has the form that it is to have. -/
theorem isNormal_normalizeChars (cs : List Char) : IsNormal (normalizeChars cs) := by
  have hshown := separable_shown cs
  have hsegments : writtenSegments (normalizeChars cs) = shown cs := by
    rw [normalizeChars_eq_written, hshown.writtenSegments_written]
  have hback : '\\' ∉ normalizeChars cs := by
    rw [normalizeChars_eq_written]
    exact hshown.no_backslash
  have hhead : (normalizeChars cs).head? = some '/' ↔ isAbsolute cs = true := by
    rw [head?_eq_slash_iff hback, isAbsolute_normalizeChars]
  have hcanonical := canonical_resolved cs
  refine ⟨normalizeChars_ne_nil cs, hback, ?_, ?_, ?_⟩
  · intro hpoint s hs
    rw [hsegments, shown] at hs
    by_cases hroot : resolved cs = [] ∧ isAbsolute cs = false
    · refine absurd ?_ hpoint
      rw [normalizeChars_of_resolved_nil hroot.1, hroot.2]
      rfl
    · rw [if_neg hroot] at hs
      exact hcanonical.ne_nil s (List.mem_reverse.mpr hs)
  · intro hslash hup
    have habs := hhead.mp hslash
    rw [hsegments, shown, habs, if_neg (by simp)] at hup
    rw [habs] at hcanonical
    exact hcanonical.not_mem_up (List.mem_reverse.mpr hup)
  · intro _
    rw [hsegments, shown]
    by_cases hroot : resolved cs = [] ∧ isAbsolute cs = false
    · rw [if_pos hroot]
      exact ⟨0, [['.']], rfl, by decide⟩
    · rw [if_neg hroot, ← List.reverse_reverse (resolved cs)]
      exact hcanonical.climbs_first

/-- A path without backslashes is written with its segments. -/
theorem written_writtenSegments (h : '\\' ∉ path) :
    written (isAbsolute path) (writtenSegments path) = path := by
  have hsplit : ∀ cs : List Char, joinWith '/' (if cs = [] then [] else cs.splitOn '/') = cs := by
    intro cs
    by_cases hnil : cs = []
    · rw [if_pos hnil, hnil]
      rfl
    · rw [if_neg hnil, List.splitOn, ← pieces_eq_splitOnP, joinWith_pieces]
  unfold written writtenSegments
  dsimp only
  rw [hsplit]
  by_cases habs : path.head? = some '/'
  · rw [if_pos habs, (head?_eq_slash_iff h).mp habs]
    obtain ⟨rest, rfl⟩ := List.head?_eq_some_iff.mp habs
    rfl
  · rw [if_neg habs, Bool.eq_false_iff.mpr (mt (head?_eq_slash_iff h).mpr habs)]
    rfl

namespace IsNormal

variable (h : IsNormal path)

include h

/-- The segments of a path of this form can be read back. -/
theorem separable : Separable (isAbsolute path) (writtenSegments path) := by
  have hwritten := written_writtenSegments h.no_backslash
  refine ⟨?_, ?_, ?_⟩
  · -- a relative path has a segment
    intro hrel hnil
    rw [hrel, hnil] at hwritten
    exact h.ne_nil hwritten.symm
  · -- no segment is empty
    intro s hs
    by_cases hpoint : path = ['.']
    · subst hpoint
      have hone : writtenSegments ['.'] = [['.']] := by decide
      rw [hone] at hs
      rw [List.mem_singleton.mp hs]
      exact List.cons_ne_nil _ _
    · exact (h.segments_ne hpoint s hs).1
  · -- no segment holds a separator
    intro s hs
    have hback : '\\' ∉ if path.head? = some '/' then path.tail else path := by
      split
      · exact fun hmem => h.no_backslash (List.mem_of_mem_tail hmem)
      · exact h.no_backslash
    unfold writtenSegments at hs
    generalize (if path.head? = some '/' then path.tail else path) = relative at hback hs
    by_cases hnil : relative = []
    · rw [hnil] at hs
      exact nomatch hs
    · dsimp only at hs
      rw [if_neg hnil, ← pieces_eq_splitOn hback] at hs
      exact not_sep_of_mem_pieces relative s hs

/-- They are a canonical stack, unless the path is the point. -/
theorem canonical (hpoint : path ≠ ['.']) :
    Canonical (isAbsolute path) (writtenSegments path).reverse := by
  have hname : ∀ s ∈ writtenSegments path, s ≠ ['.', '.'] → IsName s := by
    intro s hs hup
    obtain ⟨hnil, hdot⟩ := h.segments_ne hpoint s hs
    exact ⟨hnil, hdot, hup, h.separable.plain s hs⟩
  have hhead := head?_eq_slash_iff h.no_backslash
  cases habs : isAbsolute path with
  | true =>
      have hup := h.absolute_up (hhead.mpr habs)
      rw [← List.append_nil (writtenSegments path).reverse]
      refine Canonical.nil.append_names fun s hs => ?_
      have hs := List.mem_reverse.mp hs
      exact hname s hs fun heq => hup (heq ▸ hs)
  | false =>
      obtain ⟨k, names, heq, hup⟩ := h.relative_up (by rw [ne_eq, hhead, habs]; decide)
      rw [heq, List.reverse_append, List.reverse_replicate]
      refine (canonical_replicate k).append_names fun s hs => ?_
      have hs := List.mem_reverse.mp hs
      exact hname s (heq ▸ List.mem_append_right _ hs) fun hs' => hup (hs' ▸ hs)

/-- A path of this form is not changed. -/
theorem normalizeChars_eq : normalizeChars path = path := by
  by_cases hpoint : path = ['.']
  · rw [hpoint]
    decide
  · have hreplay := foldl_push_reverse (h.canonical hpoint)
    rw [List.reverse_reverse] at hreplay
    have hwritten := written_writtenSegments h.no_backslash
    have hresolved : resolved path = writtenSegments path := by
      rw [resolved, ← List.reverse_reverse (writtenSegments path), ← hreplay]
      congr 1
      conv_lhs => rw [← hwritten]
      rw [h.separable.foldl_push_written, h.separable.isAbsolute_written]
    have hroot : ¬ (resolved path = [] ∧ isAbsolute path = false) := by
      rintro ⟨hnil, hrel⟩
      exact h.separable.ne_nil hrel (hresolved ▸ hnil)
    rw [normalizeChars_eq_written, shown, if_neg hroot, hresolved, hwritten]

end IsNormal

/-- Paths of this form are exactly those that normalizing leaves as they are. -/
theorem isNormal_iff : IsNormal path ↔ normalizeChars path = path :=
  ⟨IsNormal.normalizeChars_eq, fun h => h ▸ isNormal_normalizeChars path⟩

/-- What is joined may be normalized before. -/
theorem normalizeChars_join (ha : a ≠ []) (hb : isAbsolute b = false) :
    normalizeChars (a ++ '/' :: b) =
      normalizeChars (normalizeChars a ++ '/' :: normalizeChars b) := by
  have ha' := normalizeChars_ne_nil a
  have hleft : resolved b = ((pieces isSlash b).foldl (push false) []).reverse := by
    rw [resolved, hb]
  refine normalizeChars_congr ?_ ?_
  · rw [isAbsolute_append ha, isAbsolute_append ha', isAbsolute_normalizeChars]
  · rw [resolved_append ha, resolved_append ha', isAbsolute_normalizeChars, resolved_normalizeChars,
      foldl_push_normalizeChars, hleft, ← foldl_push_segments _ _ _ (not_sep_of_mem_pieces b)]

/-- **Normalizing chooses one way to write a path.**  For every path:

    * normalizing it gives a path of the canonical form (`IsNormal`), which is absolute exactly if
      the path begins with a slash of either kind;
    * normalizing changes the path exactly if it is not of this form; so normalizing once more
      changes nothing;
    * a relative path behind it, and a slash in between, names what the two name when they are
      normalized before. -/
theorem normalize_is_canonical (path : String) :
    IsNormal (normalize path).toList ∧
    ((normalize path).toList.head? = some '/' ↔
      path.toList.head? = some '/' ∨ path.toList.head? = some '\\') ∧
    (IsNormal path.toList ↔ normalize path = path) ∧
    normalize (normalize path) = normalize path ∧
    ∀ b : String, path ≠ "" → b.toList.head? ≠ some '/' → b.toList.head? ≠ some '\\' →
      normalize (path ++ "/" ++ b) = normalize (normalize path ++ "/" ++ normalize b) := by
  have hnormal := isNormal_normalizeChars path.toList
  have hchars : ∀ p : String, (normalize p).toList = normalizeChars p.toList :=
    fun _ => String.toList_ofList
  refine ⟨?_, ?_, ?_, ?_, ?_⟩
  · rw [hchars]
    exact hnormal
  · rw [hchars, head?_eq_slash_iff hnormal.no_backslash, isAbsolute_normalizeChars, isAbsolute_iff]
  · rw [isNormal_iff, ← String.toList_inj, hchars]
  · rw [← String.toList_inj, hchars, hchars]
    exact hnormal.normalizeChars_eq
  · intro b hpath hslash hback
    have ha : path.toList ≠ [] := fun h => hpath (String.toList_eq_nil_iff.mp h)
    have hb : isAbsolute b.toList = false := by
      rw [Bool.eq_false_iff, ne_eq, isAbsolute_iff]
      exact not_or.mpr ⟨hslash, hback⟩
    have hjoin : ∀ p q : String, (p ++ "/" ++ q).toList = p.toList ++ '/' :: q.toList := by
      intro p q
      simp
    rw [← String.toList_inj, hchars, hchars, hjoin, hjoin, hchars, hchars]
    exact normalizeChars_join ha hb

/-- A relative path that climbs above the directory that it is put behind. -/
theorem normalize_join_above :
    normalize (".\\src//lib/.." ++ "/" ++ "../.\\..//../main") =
        normalize ("src" ++ "/" ++ "../../../main") ∧
      normalize ("src" ++ "/" ++ "../../../main") = "../../main" :=
  ⟨(normalize_is_canonical ".\\src//lib/..").2.2.2.2 "../.\\..//../main" (by decide) (by decide)
    (by decide), by decide⟩

end ModulePath

end DeclAtlas

import DeclAtlas.Path.Basic

/-!
# The shape of normalized paths

Normalizing a path leaves a stack of segments of a fixed shape (`ModulePath.Canonical`): names,
and below them `..` where the path is relative.  Such a stack is not changed by reading it once
more (`ModulePath.foldl_push_reverse`), so a normalized path may stand for the path itself in
front of anything else.

The text of a normalized path is its last segment behind a front that ends with a slash or is
empty (`ModulePath.normalizeChars_of_resolved`).  In this form:

* **`ModulePath.normalizeChars_append_name`** — a name in a directory is written behind the
  normalized path of the directory and a slash, unless this path is one of the two roots;
* **`ModulePath.ofFileChars_extension`** — an extension behind a name does not show in the module
  path;
* **`ModulePath.joinChars_ofFileChars`** — seen from a file in a directory, a specifier names
  what it names in the directory.
-/

namespace DeclAtlas.ModulePath

open Text

variable {absolute : Bool} {segment : List Char} {stack segments : List (List Char)}

/-- A segment that names a file or a directory: it has no slashes, is not empty, and is neither
    of the two segments of points. -/
structure IsName (segment : List Char) : Prop where
  ne_nil : segment ≠ []
  ne_point : segment ≠ ['.']
  ne_points : segment ≠ ['.', '.']
  plain : ∀ c ∈ segment, isSlash c = false

theorem isName_iff : IsName segment ↔
    segment ≠ [] ∧ segment ≠ ['.'] ∧ segment ≠ ['.', '.'] ∧ segment.any isSlash = false := by
  rw [List.any_eq_false]
  constructor
  · intro h
    exact ⟨h.ne_nil, h.ne_point, h.ne_points, fun c hc => Bool.eq_false_iff.mp (h.plain c hc)⟩
  · rintro ⟨h1, h2, h3, h4⟩
    exact ⟨h1, h2, h3, fun c hc => Bool.eq_false_iff.mpr (h4 c hc)⟩

instance : DecidablePred IsName := fun _ => decidable_of_iff _ isName_iff.symm

-- ── Stacks of segments ───────────────────────────────────────────────────────────

/-- The segments, in reverse, that normalizing leaves: names, and below them `..`, which occurs
    in relative paths only. -/
inductive Canonical (absolute : Bool) : List (List Char) → Prop
  | nil : Canonical absolute []
  | name {segment : List Char} {rest : List (List Char)} :
      IsName segment → Canonical absolute rest → Canonical absolute (segment :: rest)
  | up {rest : List (List Char)} :
      absolute = false → (∀ s ∈ rest, s = ['.', '.']) → Canonical absolute rest →
      Canonical absolute (['.', '.'] :: rest)

/-- Empty segments and points are skipped. -/
theorem push_skip (h : segment = [] ∨ segment = ['.']) : push absolute stack segment = stack :=
  if_pos h

theorem push_name (h : IsName segment) : push absolute stack segment = segment :: stack := by
  unfold push
  rw [if_neg (not_or.mpr ⟨h.ne_nil, h.ne_point⟩), if_neg h.ne_points]

/-- A step up takes the last name away. -/
theorem push_up_name {rest : List (List Char)} (h : IsName segment) :
    push absolute (segment :: rest) ['.', '.'] = rest := if_neg h.ne_points

/-- Above the start of a relative path, a step up is kept. -/
theorem push_up_relative (h : ∀ s ∈ stack, s = ['.', '.']) :
    push false stack ['.', '.'] = ['.', '.'] :: stack := by
  cases stack with
  | nil => rfl
  | cons s rest =>
      obtain rfl := h s (List.mem_cons_self ..)
      rfl

/-- One more segment keeps the shape. -/
theorem Canonical.push (h : Canonical absolute stack) (hplain : ∀ c ∈ segment, isSlash c = false) :
    Canonical absolute (push absolute stack segment) := by
  by_cases hskip : segment = [] ∨ segment = ['.']
  · rw [push_skip hskip]
    exact h
  · by_cases hup : segment = ['.', '.']
    · subst hup
      cases h with
      | nil =>
          cases absolute with
          | true => exact .nil
          | false => exact .up rfl (fun s hs => nomatch hs) .nil
      | name hname hrest =>
          rw [push_up_name hname]
          exact hrest
      | up hrel hall hrest =>
          subst hrel
          have hall' : ∀ s ∈ ['.', '.'] :: _, s = ['.', '.'] := List.forall_mem_cons.mpr ⟨rfl, hall⟩
          rw [push_up_relative hall']
          exact .up rfl hall' (.up rfl hall hrest)
    · have hname : IsName segment :=
        ⟨fun h => hskip (Or.inl h), fun h => hskip (Or.inr h), hup, hplain⟩
      rw [push_name hname]
      exact .name hname h

/-- Whatever segments are pushed, the shape of the stack is kept. -/
theorem Canonical.foldl_push (segments : List (List Char)) :
    ∀ {stack : List (List Char)}, Canonical absolute stack →
      (∀ s ∈ segments, ∀ c ∈ s, isSlash c = false) →
      Canonical absolute (segments.foldl (ModulePath.push absolute) stack) := by
  induction segments with
  | nil => intro stack h _; exact h
  | cons s segments ih =>
      intro stack h hplain
      exact ih (h.push (hplain s (List.mem_cons_self ..)))
        fun t ht => hplain t (List.mem_cons_of_mem s ht)

/-- Segments of this shape are kept when they are read once more. -/
theorem foldl_push_reverse (h : Canonical absolute stack) :
    stack.reverse.foldl (push absolute) [] = stack := by
  induction h with
  | nil => rfl
  | name hname _ ih =>
      rw [List.reverse_cons, List.foldl_append, ih]
      exact push_name hname
  | up hrel hall _ ih =>
      subst hrel
      rw [List.reverse_cons, List.foldl_append, ih]
      exact push_up_relative hall

/-- No segment of such a stack is empty or a point. -/
theorem Canonical.ne_nil (h : Canonical absolute stack) : ∀ s ∈ stack, s ≠ [] ∧ s ≠ ['.'] := by
  induction h with
  | nil => intro s hs; exact nomatch hs
  | name hname _ ih => exact List.forall_mem_cons.mpr ⟨⟨hname.ne_nil, hname.ne_point⟩, ih⟩
  | up _ _ _ ih => exact List.forall_mem_cons.mpr ⟨by decide, ih⟩

theorem Canonical.plain (h : Canonical absolute stack) :
    ∀ s ∈ stack, ∀ c ∈ s, isSlash c = false := by
  induction h with
  | nil => intro s hs; exact nomatch hs
  | name hname _ ih => exact List.forall_mem_cons.mpr ⟨hname.plain, ih⟩
  | up _ _ _ ih =>
      have hpoints : ∀ c ∈ ['.', '.'], isSlash c = false := by simp [isSlash]
      exact List.forall_mem_cons.mpr ⟨hpoints, ih⟩

-- ── The segments of a path ───────────────────────────────────────────────────────

/-- Whether a path is absolute is seen at its front. -/
theorem isAbsolute_append {a : List Char} (ha : a ≠ []) (b : List Char) :
    isAbsolute (a ++ b) = isAbsolute a := by
  cases a with
  | nil => exact absurd rfl ha
  | cons c a => rfl

/-- What a path resolves to has this shape. -/
theorem canonical_resolved (cs : List Char) : Canonical (isAbsolute cs) (resolved cs).reverse := by
  rw [resolved, List.reverse_reverse]
  exact Canonical.nil.foldl_push _ (not_sep_of_mem_pieces cs)

/-- There are no slashes in its segments. -/
theorem resolved_plain (cs : List Char) : ∀ s ∈ resolved cs, ∀ c ∈ s, isSlash c = false :=
  fun s hs => (canonical_resolved cs).plain s (List.mem_reverse.mpr hs)

/-- A name at the end of a path is the last of its segments; nothing behind it can undo it. -/
theorem resolved_of_last {cs last : List Char} {init : List (List Char)}
    (h : pieces isSlash cs = init ++ [last]) (hlast : IsName last) :
    resolved cs = (init.foldl (push (isAbsolute cs)) []).reverse ++ [last] := by
  rw [resolved, h, List.foldl_append, List.foldl_cons, List.foldl_nil, push_name hlast,
    List.reverse_cons]

/-- A path is read on from the segments of what stands before a slash. -/
theorem resolved_append {a : List Char} (ha : a ≠ []) (b : List Char) :
    resolved (a ++ '/' :: b) =
      ((pieces isSlash b).foldl (push (isAbsolute a)) (resolved a).reverse).reverse := by
  rw [resolved, isAbsolute_append ha, pieces_append_sep rfl, List.foldl_append, resolved,
    List.reverse_reverse]

/-- A name behind a path is one segment more. -/
theorem resolved_append_name {a name : List Char} (ha : a ≠ []) (h : IsName name) :
    resolved (a ++ '/' :: name) = resolved a ++ [name] := by
  rw [resolved_append ha, pieces_of_not_sep h.plain, List.foldl_cons, List.foldl_nil, push_name h,
    List.reverse_cons, List.reverse_reverse]

-- ── The text of a normalized path ────────────────────────────────────────────────

/-- The text in front of a name in the directory with these segments: it is empty or ends with a
    slash. -/
def front (absolute : Bool) (segments : List (List Char)) : List Char :=
  (if absolute then ['/'] else []) ++ segments.flatMap (· ++ ['/'])

/-- One segment more, with a slash behind it. -/
theorem front_concat (absolute : Bool) (segments : List (List Char)) (segment : List Char) :
    front absolute (segments ++ [segment]) = front absolute segments ++ segment ++ ['/'] := by
  unfold front
  rw [List.flatMap_append]
  simp

/-- A front is empty or ends with a slash. -/
theorem front_cases (absolute : Bool) (segments : List (List Char)) :
    front absolute segments = [] ∨ ∃ dir, front absolute segments = dir ++ ['/'] := by
  rcases List.eq_nil_or_concat segments with rfl | ⟨init, last, rfl⟩
  · cases absolute with
    | true => exact Or.inr ⟨[], rfl⟩
    | false => exact Or.inl rfl
  · rw [List.concat_eq_append]
    exact Or.inr ⟨_, front_concat absolute init last⟩

/-- A path without segments is a root: of absolute paths, or of relative ones. -/
theorem normalizeChars_of_resolved_nil {cs : List Char} (h : resolved cs = []) :
    normalizeChars cs = if isAbsolute cs then ['/'] else ['.'] := by
  unfold normalizeChars
  rw [h]
  rfl

/-- Any other normalized path is its last segment behind the front of the others. -/
theorem normalizeChars_of_resolved {cs last : List Char} (h : resolved cs = segments ++ [last]) :
    normalizeChars cs = front (isAbsolute cs) segments ++ last := by
  have hlast : last ≠ [] := by
    have hmem : last ∈ (resolved cs).reverse := List.mem_reverse.mpr (by simp [h])
    exact ((canonical_resolved cs).ne_nil last hmem).1
  unfold normalizeChars front
  rw [h, joinWith_concat]
  cases isAbsolute cs with
  | true => rfl
  | false => exact if_neg (List.append_ne_nil_of_right_ne_nil _ hlast)

/-- A name inside a normalized path: behind a slash, except that the root of absolute paths has
    one already and the root of relative paths is not written. -/
def inside (path name : List Char) : List Char :=
  if path = ['.'] then name else if path = ['/'] then '/' :: name else path ++ '/' :: name

/-- Normalizing goes into a directory by its normalized path. -/
theorem normalizeChars_append_name {p name : List Char} (hp : p ≠ []) (hname : IsName name) :
    normalizeChars (p ++ '/' :: name) = inside (normalizeChars p) name := by
  rw [normalizeChars_of_resolved (resolved_append_name hp hname), isAbsolute_append hp]
  rcases List.eq_nil_or_concat (resolved p) with hnil | ⟨segments, last, hlast⟩
  · rw [hnil, normalizeChars_of_resolved_nil hnil]
    cases isAbsolute p with
    | true => rfl
    | false => rfl
  · rw [List.concat_eq_append] at hlast
    obtain ⟨hne, hpoint⟩ := (canonical_resolved p).ne_nil last
      (List.mem_reverse.mpr (by simp [hlast]))
    have hroot : normalizeChars p ≠ ['.'] ∧ normalizeChars p ≠ ['/'] := by
      rw [normalizeChars_of_resolved hlast]
      constructor
      · intro h
        rcases List.append_eq_singleton_iff.mp h with ⟨-, h⟩ | ⟨-, h⟩
        · exact hpoint h
        · exact hne h
      · intro h
        rcases List.append_eq_singleton_iff.mp h with ⟨-, h⟩ | ⟨-, h⟩
        · have hplain := resolved_plain p last (by simp [hlast]) '/' (by simp [h])
          exact nomatch hplain
        · exact hne h
    rw [inside, if_neg hroot.1, if_neg hroot.2, hlast, front_concat,
      normalizeChars_of_resolved hlast]
    simp

/-- Such a front is absolute if it began with a slash. -/
theorem isAbsolute_front (absolute : Bool)
    (hplain : ∀ s ∈ segments, s ≠ [] ∧ ∀ c ∈ s, isSlash c = false) {cs : List Char}
    (hcs : isAbsolute cs = false) :
    isAbsolute (front absolute segments ++ cs) = absolute := by
  cases absolute with
  | true => rfl
  | false =>
      cases segments with
      | nil => exact hcs
      | cons s rest =>
          obtain ⟨hne, hs⟩ := hplain s (List.mem_cons_self ..)
          cases s with
          | nil => exact absurd rfl hne
          | cons c s => exact hs c (List.mem_cons_self ..)

/-- The front of a directory may stand for the directory in front of a relative path. -/
theorem normalizeChars_front {d cs : List Char} (hd : d ≠ []) (hcs : isAbsolute cs = false) :
    normalizeChars (front (isAbsolute d) (resolved d) ++ cs) = normalizeChars (d ++ '/' :: cs) := by
  have hplain : ∀ s ∈ resolved d, s ≠ [] ∧ ∀ c ∈ s, isSlash c = false := by
    intro s hs
    exact ⟨((canonical_resolved d).ne_nil s (List.mem_reverse.mpr hs)).1, resolved_plain d s hs⟩
  have habs := isAbsolute_front (isAbsolute d) hplain hcs
  -- the pieces of the front are the segments of the directory, behind an empty one at the root
  have hpieces : pieces isSlash (front (isAbsolute d) (resolved d) ++ cs) =
      (if isAbsolute d then [[]] else []) ++ (resolved d ++ pieces isSlash cs) := by
    rw [← pieces_flatMap_sep '/' rfl (resolved d) (resolved_plain d) cs]
    unfold front
    cases isAbsolute d with
    | true => rfl
    | false => rfl
  have hskip : ((if isAbsolute d then [[]] else []) : List (List Char)).foldl
      (push (isAbsolute d)) [] = [] := by
    cases isAbsolute d with
    | true => rfl
    | false => rfl
  have hresolved : resolved (front (isAbsolute d) (resolved d) ++ cs) =
      resolved (d ++ '/' :: cs) := by
    have hreplay := foldl_push_reverse (canonical_resolved d)
    rw [List.reverse_reverse] at hreplay
    rw [resolved_append hd, resolved, habs, hpieces, List.foldl_append, hskip, List.foldl_append,
      hreplay]
  unfold normalizeChars
  rw [habs, isAbsolute_append hd, hresolved]

-- ── Module paths of files ────────────────────────────────────────────────────────

/-- A segment without slashes has no `/`. -/
theorem not_mem_of_plain {cs : List Char} (h : ∀ c ∈ cs, isSlash c = false) : '/' ∉ cs := by
  intro hmem
  exact nomatch h '/' hmem

/-- The last slash of a path with a front is the one that ends the front. -/
theorem splitLast_front (absolute : Bool) (segments : List (List Char)) {name : List Char}
    (h : '/' ∉ name) :
    (front absolute segments = [] ∧ splitLast '/' (front absolute segments ++ name) = none) ∨
    ∃ dir, front absolute segments = dir ++ ['/'] ∧
      splitLast '/' (front absolute segments ++ name) = some (dir, name) := by
  rcases front_cases absolute segments with hnil | ⟨dir, hdir⟩
  · left
    refine ⟨hnil, ?_⟩
    rw [hnil]
    exact splitLast_of_not_mem h
  · right
    refine ⟨dir, hdir, ?_⟩
    rw [hdir, List.append_assoc]
    exact splitLast_append h dir

/-- Only the last segment loses its extension. -/
theorem ofFileChars_front {file name : List Char}
    (h : normalizeChars file = front absolute segments ++ name) (hname : '/' ∉ name) :
    ofFileChars file = front absolute segments ++ stem name := by
  unfold ofFileChars
  rw [h]
  rcases splitLast_front absolute segments hname with
    ⟨hnil, hsplit⟩ | ⟨dir, hdir, hsplit⟩
  · simp only [hsplit]
    rw [hnil]
    rfl
  · simp only [hsplit]
    rw [hdir, List.append_assoc]
    rfl

/-- The stem of a name has no other characters than the name. -/
theorem mem_of_mem_stem {name : List Char} {c : Char} (h : c ∈ stem name) : c ∈ name := by
  unfold stem at h
  cases hs : splitLast '.' name with
  | none => simpa [hs] using h
  | some parts =>
      obtain ⟨before, after⟩ := parts
      cases before with
      | nil => simpa [hs] using h
      | cons x xs =>
          rw [eq_append_of_splitLast name hs]
          rw [hs] at h
          exact List.mem_append_left _ h

theorem not_mem_stem {name : List Char} (h : ∀ c ∈ name, isSlash c = false) : '/' ∉ stem name :=
  fun hmem => not_mem_of_plain h (mem_of_mem_stem hmem)

/-- The stem of a name with an extension is the name. -/
theorem stem_extension {name e : List Char} (hname : name ≠ []) (he : '.' ∉ e) :
    stem (name ++ '.' :: e) = name := by
  unfold stem
  rw [splitLast_append he]
  cases name with
  | nil => exact absurd rfl hname
  | cons c cs => rfl

/-- An extension behind a name does not show in the module path. -/
theorem ofFileChars_extension {file last e : List Char} {init : List (List Char)}
    (h : pieces isSlash file = init ++ [last]) (hlast : IsName last) (hdot : '.' ∉ e)
    (hplain : ∀ c ∈ e, isSlash c = false) (he : e ≠ []) :
    ofFileChars (file ++ '.' :: e) = normalizeChars file := by
  have hext : ∀ c ∈ '.' :: e, isSlash c = false := List.forall_mem_cons.mpr ⟨rfl, hplain⟩
  have hname : IsName (last ++ '.' :: e) := by
    have hlen : 3 ≤ (last ++ '.' :: e).length := by
      have h1 := List.length_pos_iff.mpr hlast.ne_nil
      have h2 := List.length_pos_iff.mpr he
      rw [List.length_append, List.length_cons]
      omega
    refine ⟨?_, ?_, ?_, List.forall_mem_append.mpr ⟨hlast.plain, hext⟩⟩
    · exact fun h => absurd hlen (by rw [h]; decide)
    · exact fun h => absurd hlen (by rw [h]; decide)
    · exact fun h => absurd hlen (by rw [h]; decide)
  have hfile : file ≠ [] := by
    rintro rfl
    have hnil : init ++ [last] = [] ++ [[]] := h.symm
    exact hlast.ne_nil (List.cons.inj (List.append_inj' hnil rfl).2).1
  have hlong := resolved_of_last (pieces_append_of_not_sep hext file h) hname
  rw [isAbsolute_append hfile] at hlong
  have hnorm := normalizeChars_of_resolved hlong
  rw [isAbsolute_append hfile] at hnorm
  rw [ofFileChars_front hnorm (not_mem_of_plain hname.plain), stem_extension hlast.ne_nil hdot,
    normalizeChars_of_resolved (resolved_of_last h hlast)]

-- ── Joining a specifier ──────────────────────────────────────────────────────────

/-- What a specifier is joined to in a module: the directory with a slash, or nothing. -/
def importBase (module : List Char) : List Char :=
  match directoryChars module with
  | [] => []
  | dir => dir ++ ['/']

/-- Joining is normalizing behind the directory of the module. -/
theorem joinChars_eq (module s : List Char) :
    joinChars module s = normalizeChars (importBase module ++ s) := by
  unfold joinChars importBase
  cases directoryChars module with
  | nil => rfl
  | cons c dir => simp

/-- A specifier is joined to the front of the importing module, whatever its name. -/
theorem joinChars_front {name : List Char} (hname : '/' ∉ name) (s : List Char) :
    joinChars (front absolute segments ++ name) s =
      normalizeChars (front absolute segments ++ s) := by
  unfold joinChars directoryChars
  rcases splitLast_front absolute segments hname with
    ⟨hnil, hsplit⟩ | ⟨dir, hdir, hsplit⟩
  · simp only [hsplit]
    rw [hnil]
    rfl
  · simp only [hsplit]
    rw [hdir]
    cases dir with
    | nil =>
        -- the root keeps its slash, and a second one makes no difference
        rfl
    | cons c dir => simp

/-- Seen from a file in a directory, a specifier names what it names in the directory. -/
theorem joinChars_ofFileChars {d b s : List Char} (hd : d ≠ []) (hb : IsName b)
    (hs : isAbsolute s = false) :
    joinChars (ofFileChars (d ++ '/' :: b)) s = normalizeChars (d ++ '/' :: s) := by
  have hnorm := normalizeChars_of_resolved (resolved_append_name hd hb)
  rw [isAbsolute_append hd] at hnorm
  rw [ofFileChars_front hnorm (not_mem_of_plain hb.plain), joinChars_front (not_mem_stem hb.plain),
    normalizeChars_front hd hs]

/-- The same for a file without a directory. -/
theorem joinChars_ofFileChars_top {b : List Char} (hb : IsName b) (s : List Char) :
    joinChars (ofFileChars b) s = normalizeChars s := by
  have hb0 : isAbsolute b = false := by
    cases b with
    | nil => exact absurd rfl hb.ne_nil
    | cons c b => exact hb.plain c (List.mem_cons_self ..)
  have hpieces : pieces isSlash b = [] ++ [b] := pieces_of_not_sep hb.plain
  have hnorm := normalizeChars_of_resolved (resolved_of_last hpieces hb)
  rw [ofFileChars_front hnorm (not_mem_of_plain hb.plain),
    joinChars_front (not_mem_stem hb.plain), hb0]
  rfl

end DeclAtlas.ModulePath

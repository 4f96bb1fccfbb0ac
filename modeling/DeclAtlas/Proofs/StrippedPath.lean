import DeclAtlas.Module.Registry
import DeclAtlas.Proofs.CanonicalPath

/-!
# Module paths without an extension

The extension of a file is stripped from a path that has been normalized, and what is left of the
name is not read once more.  A name that is only points in front of its last extension is left as a
point or as `..`, which in a path mean a directory and the way out of it.  So the module path of
such a file is not normalized, and no relative import asks for it.

* **`ModulePath.normalize_ofFile_iff`** — the module path of a file is normalized, and a
  relative import can name the registered module, exactly if the name that is left is still a name
  where it stands (`ModulePath.KeepsName`).

A row of segments is decided by its last one, if the others are as normalizing leaves them
(`ModulePath.normalizeChars_written_iff`).
-/

namespace DeclAtlas.ModulePath

open Text

variable {absolute : Bool} {s name : List Char} {dir segments : List (List Char)}

-- ── The last segment ─────────────────────────────────────────────────────────────

/-- Behind the directory `dir`, the segment is not kept: a point says nothing there, and `..` leaves
    what stands before it, unless that is the way up itself. -/
def Vanishes (absolute : Bool) (dir : List (List Char)) (s : List Char) : Prop :=
  s = ['.'] ∧ (absolute = true ∨ dir ≠ []) ∨
    s = ['.', '.'] ∧ (absolute = true ∨ ∃ t ∈ dir, t ≠ ['.', '.'])

instance (absolute : Bool) (dir : List (List Char)) (s : List Char) :
    Decidable (Vanishes absolute dir s) :=
  inferInstanceAs (Decidable (_ ∨ _))

/-- Segments as normalizing leaves them are not changed when they are written out. -/
theorem normalizeChars_written (h : Separable absolute segments)
    (hc : Canonical absolute segments.reverse) :
    normalizeChars (written absolute segments) = written absolute segments := by
  have hreplay := foldl_push_reverse hc
  rw [List.reverse_reverse] at hreplay
  have hresolved : resolved (written absolute segments) = segments := by
    rw [resolved, h.isAbsolute_written, h.foldl_push_written, hreplay, List.reverse_reverse]
  have hroot : ¬ (segments = [] ∧ absolute = false) := fun hroot => h.ne_nil hroot.2 hroot.1
  rw [normalizeChars_eq_written, shown, hresolved, h.isAbsolute_written, if_neg hroot]

/-- A segment that vanishes is not written in a normalized path. -/
theorem not_isNormal_of_vanishes (h : Separable absolute (dir ++ [s]))
    (hs : Vanishes absolute dir s) : ¬ IsNormal (written absolute (dir ++ [s])) := by
  intro hnormal
  have hsegments := h.writtenSegments_written
  have hhead : (written absolute (dir ++ [s])).head? = some '/' ↔ absolute = true := by
    rw [head?_eq_slash_iff h.no_backslash, h.isAbsolute_written]
  have hmem : s ∈ writtenSegments (written absolute (dir ++ [s])) := by simp [hsegments]
  rcases hs with ⟨rfl, hplace⟩ | ⟨rfl, hplace⟩
  · have hpoint : written absolute (dir ++ [['.']]) ≠ ['.'] := by
      intro heq
      rw [heq] at hsegments hhead
      have hone : writtenSegments ['.'] = [] ++ [['.']] := by decide
      rcases hplace with habs | hdir
      · exact absurd (hhead.mpr habs) (by decide)
      · exact hdir (List.append_inj_left' (hone.symm.trans hsegments) rfl).symm
    exact (hnormal.segments_ne hpoint _ hmem).2 rfl
  · rcases hplace with habs | ⟨t, ht, hne⟩
    · exact hnormal.absolute_up (hhead.mpr habs) hmem
    · cases habs : absolute with
      | true => exact hnormal.absolute_up (hhead.mpr habs) hmem
      | false =>
          have hrel := mt hhead.mp (by rw [habs]; decide)
          obtain ⟨k, names, heq, hup⟩ := hnormal.relative_up hrel
          -- a name would have to stand behind the last segment, which is no name
          rcases List.eq_nil_or_concat names with rfl | ⟨init, last, rfl⟩
          · rw [hsegments, List.append_nil] at heq
            have hmem' : t ∈ List.replicate k ['.', '.'] := by
              rw [← heq]
              exact List.mem_append_left _ ht
            exact hne (List.eq_of_mem_replicate hmem')
          · rw [hsegments, List.concat_eq_append, ← List.append_assoc] at heq
            have hlast := (List.append_inj' heq rfl).2
            exact hup (by simp [List.cons.inj hlast |>.1])

/-- Behind segments as normalizing leaves them, the last one decides. -/
theorem normalizeChars_written_iff (h : Separable absolute (dir ++ [s]))
    (hdir : Canonical absolute dir.reverse) :
    normalizeChars (written absolute (dir ++ [s])) = written absolute (dir ++ [s]) ↔
      ¬ Vanishes absolute dir s := by
  refine ⟨fun heq hs => not_isNormal_of_vanishes h hs (isNormal_iff.mpr heq), fun hs => ?_⟩
  obtain ⟨hpoint, hup⟩ := not_or.mp hs
  by_cases hs₁ : s = ['.']
  · obtain ⟨habs, hnil⟩ := not_or.mp fun hplace => hpoint ⟨hs₁, hplace⟩
    rw [Bool.eq_false_iff.mpr habs, not_ne_iff.mp hnil, hs₁]
    decide
  · refine normalizeChars_written h ?_
    rw [List.reverse_append, List.reverse_singleton, List.singleton_append]
    by_cases hs₂ : s = ['.', '.']
    · obtain ⟨habs, hall⟩ := not_or.mp fun hplace => hup ⟨hs₂, hplace⟩
      rw [hs₂]
      refine .up (Bool.eq_false_iff.mpr habs) (fun t ht => ?_) hdir
      by_contra hne
      exact hall ⟨t, List.mem_reverse.mp ht, hne⟩
    · have hmem : s ∈ dir ++ [s] := by simp
      exact .name ⟨h.segment_ne s hmem, hs₁, hs₂, h.plain s hmem⟩ hdir

-- ── Stripping ────────────────────────────────────────────────────────────────────

/-- Without its last extension, the name of the file is still a name where it stands. -/
def KeepsName (file : String) : Prop :=
  ∀ dir name, writtenSegments (normalize file).toList = dir ++ [name] →
    ¬ Vanishes (isAbsolute file.toList) dir (stem name)

theorem writtenSegments_normalize (file : String) :
    writtenSegments (normalize file).toList = shown file.toList := by
  rw [normalize, String.toList_ofList, normalizeChars_eq_written,
    (separable_shown file.toList).writtenSegments_written]

theorem written_concat (absolute : Bool) (dir : List (List Char)) (s : List Char) :
    written absolute (dir ++ [s]) = front absolute dir ++ s := by
  rw [written, front, joinWith_concat, List.append_assoc]

/-- Of the segments of a file's path, only the last one loses its extension. -/
theorem ofFileChars_eq_written {file : List Char} (h : shown file = dir ++ [name]) :
    ofFileChars file = written (isAbsolute file) (dir ++ [stem name]) := by
  have hname : '/' ∉ name :=
    not_mem_of_plain ((separable_shown file).plain name (by simp [h]))
  have hpath : normalizeChars file = front (isAbsolute file) dir ++ name := by
    rw [normalizeChars_eq_written, h, written_concat]
  rw [ofFileChars_front hpath hname, written_concat]

theorem separable_stem {file : List Char} (h : shown file = dir ++ [name]) :
    Separable (isAbsolute file) (dir ++ [stem name]) := by
  have hshown := separable_shown file
  rw [h] at hshown
  obtain ⟨hdir, hname⟩ := List.forall_mem_append.mp hshown.segment_ne
  obtain ⟨hdir', hname'⟩ := List.forall_mem_append.mp hshown.plain
  refine ⟨fun _ => by simp, List.forall_mem_append.mpr ⟨hdir, ?_⟩,
    List.forall_mem_append.mpr ⟨hdir', ?_⟩⟩
  · exact List.forall_mem_singleton.mpr (stem_ne_nil (hname name (by simp)))
  · exact List.forall_mem_singleton.mpr fun c hc => hname' name (by simp) c (mem_of_mem_stem hc)

/-- All but the last of the segments of a normalized path are as normalizing leaves them. -/
theorem canonical_of_shown {file : List Char} (h : shown file = dir ++ [name]) :
    Canonical (isAbsolute file) dir.reverse := by
  unfold shown at h
  by_cases hroot : resolved file = [] ∧ isAbsolute file = false
  · rw [if_pos hroot] at h
    have hnil : ([] : List (List Char)) = dir :=
      List.append_inj_left' (show [] ++ [['.']] = dir ++ [name] from h) rfl
    rw [← hnil]
    exact .nil
  · rw [if_neg hroot] at h
    have hall := canonical_resolved file
    rw [h, List.reverse_append, List.reverse_singleton, List.singleton_append] at hall
    cases hall with
    | name _ hdir => exact hdir
    | up _ _ hdir => exact hdir

theorem normalizeChars_ofFileChars_iff (file : String) :
    normalizeChars (ofFileChars file.toList) = ofFileChars file.toList ↔ KeepsName file := by
  unfold KeepsName
  rw [writtenSegments_normalize]
  rcases List.eq_nil_or_concat (shown file.toList) with hnil | ⟨dir, name, hconcat⟩
  · -- the root of absolute paths has no name to lose
    have habs : isAbsolute file.toList = true := by
      by_contra hrel
      exact (separable_shown file.toList).ne_nil (Bool.eq_false_iff.mpr hrel) hnil
    have hroot : normalizeChars file.toList = ['/'] := by
      rw [normalizeChars_eq_written, hnil, habs]
      rfl
    have hfile : ofFileChars file.toList = ['/'] := by
      unfold ofFileChars
      rw [hroot]
      rfl
    rw [hfile]
    exact ⟨fun _ dir name h => by simp [hnil] at h, fun _ => by decide⟩
  · rw [List.concat_eq_append] at hconcat
    rw [ofFileChars_eq_written hconcat,
      normalizeChars_written_iff (separable_stem hconcat) (canonical_of_shown hconcat)]
    refine ⟨fun hname dir' name' h => ?_, fun hall => hall dir name hconcat⟩
    obtain ⟨rfl, hlast⟩ := List.append_inj' (hconcat.symm.trans h) rfl
    rw [← (List.cons.inj hlast).1]
    exact hname

-- ── Relative imports ─────────────────────────────────────────────────────────────

/-- From a module beside the root that a path is seen from, the path is found as it is. -/
theorem joinChars_beside (cs : List Char) :
    joinChars (if isAbsolute cs then ['/', 'm'] else ['m']) ('.' :: '/' :: cs) =
      normalizeChars cs := by
  rw [joinChars_eq]
  cases habs : isAbsolute cs with
  | true =>
      show normalizeChars ('/' :: '/' :: '.' :: '/' :: cs) = normalizeChars cs
      have hresolved : resolved ('/' :: '/' :: '.' :: '/' :: cs) = resolved cs := by
        rw [resolved, resolved, habs]
        rfl
      exact normalizeChars_congr habs.symm hresolved
  | false =>
      show normalizeChars ('.' :: '/' :: cs) = normalizeChars cs
      have hresolved : resolved ('.' :: '/' :: cs) = resolved cs := by
        rw [resolved, resolved, habs]
        rfl
      exact normalizeChars_congr habs.symm hresolved

/-- Relative imports name exactly the normalized paths. -/
theorem exists_target_iff (key : String) :
    (∃ module specifier, specifier.toList.head? = some '.' ∧ target module specifier = key) ↔
      normalize key = key := by
  constructor
  · rintro ⟨module, specifier, hpoint, rfl⟩
    rw [target, if_pos hpoint, join, joinChars_eq, normalize, String.toList_ofList,
      (isNormal_normalizeChars _).normalizeChars_eq]
  · intro hnormal
    have hhead : ("./" ++ key).toList.head? = some '.' := by simp
    have hspecifier : ("./" ++ key).toList = '.' :: '/' :: key.toList := by simp
    refine ⟨String.ofList (if isAbsolute key.toList then ['/', 'm'] else ['m']), "./" ++ key,
      hhead, ?_⟩
    rw [target, if_pos hhead, join, String.toList_ofList, hspecifier, joinChars_beside]
    exact hnormal

/-- **A file's module path is normalized exactly if stripping the extension leaves a name.**  For
    every file, its module path is a normalized path if and only if the file keeps its name
    (`KeepsName`).  The same decides whether a relative import, from any module, can name the
    module that is registered for the file. -/
theorem normalize_ofFile_iff (file : String) :
    (normalize (ofFile file) = ofFile file ↔ KeepsName file) ∧
    ∀ (r : Registry) (text : String) (u : SourceUnit), (r.addSource file text).1 = some u →
      ((∃ module specifier, specifier.toList.head? = some '.' ∧ target module specifier = u.path) ↔
        KeepsName file) := by
  have hfile : normalize (ofFile file) = ofFile file ↔ KeepsName file := by
    rw [← normalizeChars_ofFileChars_iff, ← String.toList_inj, normalize, ofFile,
      String.toList_ofList, String.toList_ofList]
  refine ⟨hfile, fun r text u hu => ?_⟩
  have hpath : u.path = ofFile file := by
    rcases r.addSource_cases file text with ⟨-, heq⟩ | ⟨-, -, heq⟩
    · rw [heq] at hu
      cases hu
    · rw [heq] at hu
      rw [← Option.some.inj hu]
      rfl
  rw [hpath, exists_target_iff, hfile]

/-- Above the directory that paths are seen from, `..` names the module that a relative import
    asks for, and a file may be left with it. -/
theorem normalize_ofFile_climbing :
    ((Registry.empty.addSource "..\\.././/...ts" "").1 = some (.ofText "../../.." "") ∧
      normalize "../../.." = "../../..") ∧
    ∃ module specifier, specifier.toList.head? = some '.' ∧
      target module specifier = "../../.." := by
  have hadd : (Registry.empty.addSource "..\\.././/...ts" "").1 =
      some (.ofText "../../.." "") := rfl
  obtain ⟨hnormal, hfound⟩ := normalize_ofFile_iff "..\\.././/...ts"
  exact ⟨⟨hadd, by decide⟩, (hfound .empty "" _ hadd).mpr (hnormal.mp (by decide))⟩

/-- In a directory, a name of points is not kept: the module path that is left ends in a point, and
    no relative import names it. -/
theorem stripped_to_point :
    ofFile "src/..ts" = "src/." ∧ normalize (ofFile "src/..ts") ≠ ofFile "src/..ts" ∧
      ¬ ∃ module specifier, specifier.toList.head? = some '.' ∧
        target module specifier = ofFile "src/..ts" := by
  have hchanged : normalize (ofFile "src/..ts") ≠ ofFile "src/..ts" := by decide
  exact ⟨by decide, hchanged, fun h => hchanged ((exists_target_iff _).mp h)⟩

end DeclAtlas.ModulePath

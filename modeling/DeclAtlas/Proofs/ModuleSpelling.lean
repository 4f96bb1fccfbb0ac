import DeclAtlas.Path.Basic
import DeclAtlas.Proofs.CanonicalPath
import DeclAtlas.Proofs.RelativeImport

/-!
# Spellings of a module

A file of a source tree may be named from the root of the tree or by its full path, with or without
its extension, and with points, repeated slashes and detours.  All of these name the module that is
registered for the file:

* **`FilePath.moduleArg_spellings`** — an argument with the extension of a source file names the
  module of this file, and any other argument that ends with a name the module of the file that one
  of these extensions behind the argument gives.

A path joined to the root has the components of the root and behind them its own
(`FilePath.steps_append`), so the root is found again in front of it; and its own components are
normalized to what the path is normalized to (`FilePath.normalizeChars_render`).
-/

namespace DeclAtlas

namespace ModulePath

/-- The module path of a file depends on nothing but its normalized path. -/
theorem ofFileChars_congr {a b : List Char} (h : normalizeChars a = normalizeChars b) :
    ofFileChars a = ofFileChars b := by
  rw [ofFileChars, ofFileChars, h]

end ModulePath

namespace FilePath

open Text ModulePath

variable {root path : List Char}

-- ── The components of a joined path ──────────────────────────────────────────────

/-- The components of a path that its segments stand for. -/
def steps (path : List Char) : List Component := (pieces (· == '/') path).filterMap component?

/-- The steps of a path go on behind a slash. -/
theorem steps_slash (before after : List Char) :
    steps (before ++ '/' :: after) = steps before ++ steps after := by
  show (pieces (· == '/') (before ++ '/' :: after)).filterMap component? = _
  rw [@pieces_append_sep (· == '/') '/' rfl, List.filterMap_append]
  rfl

/-- An absolute path begins at the root. -/
theorem components_absolute (h : FilePath.isAbsolute path = true) :
    components path = .root :: steps path := by
  show (if FilePath.isAbsolute path = true then _ else _) ++ steps path = _
  rw [if_pos h]
  rfl

/-- In front of the steps of a relative path stands no name. -/
theorem components_relative (h : FilePath.isAbsolute path = false) :
    components path = steps path ∨ components path = .current :: steps path := by
  show (if FilePath.isAbsolute path = true then _ else if _ then _ else _) ++ steps path = _ ∨
    (if FilePath.isAbsolute path = true then _ else if _ then _ else _) ++ steps path = _
  rw [if_neg (ne_true_of_eq_false h)]
  by_cases hpoint : (pieces (· == '/') path).head? = some ['.']
  · rw [if_pos hpoint]
    exact Or.inr rfl
  · rw [if_neg hpoint]
    exact Or.inl rfl

theorem exists_eq_slash (h : FilePath.isAbsolute root = true) : ∃ rest, root = '/' :: rest := by
  cases root with
  | nil => exact nomatch h
  | cons c rest =>
      have hc : c = '/' := by simpa [FilePath.isAbsolute] using h
      exact ⟨rest, by rw [hc]⟩

/-- A joined path goes on from the root by the steps of the relative path. -/
theorem steps_append (hroot : FilePath.isAbsolute root = true)
    (hpath : FilePath.isAbsolute path = false) :
    FilePath.isAbsolute (append root path) = true ∧
      steps (append root path) = steps root ++ steps path := by
  have hne : ¬ (FilePath.isAbsolute path = true ∨ root = []) := by
    rintro (habs | rfl)
    · rw [hpath] at habs
      cases habs
    · cases hroot
  by_cases hslash : root.getLast? = some '/'
  · have happend : append root path = root ++ path := by
      rw [append, if_neg hne, if_pos hslash]
    rw [happend]
    constructor
    · obtain ⟨rest, rfl⟩ := exists_eq_slash hroot
      rfl
    · obtain ⟨front, rfl⟩ := List.getLast?_eq_some_iff.mp hslash
      rw [List.append_assoc, List.singleton_append, steps_slash, steps_slash]
      show _ = (steps front ++ []) ++ steps path
      rw [List.append_nil]
  · have happend : append root path = root ++ '/' :: path := by
      rw [append, if_neg hne, if_neg hslash]
    rw [happend]
    constructor
    · obtain ⟨rest, rfl⟩ := exists_eq_slash hroot
      rfl
    · exact steps_slash root path

/-- What stands in front of both paths is left out. -/
theorem relativeComponents_append (base rest : List Component) :
    relativeComponents false (base ++ rest) base = some rest := by
  induction base with
  | nil => cases rest <;> rfl
  | cons c base ih =>
      rw [List.cons_append, relativeComponents, if_pos ⟨rfl, rfl⟩]
      exact ih

/-- From the root, a joined path is reached by the steps of the relative path. -/
theorem relative?_append (hroot : FilePath.isAbsolute root = true)
    (hpath : FilePath.isAbsolute path = false) :
    relative? (append root path) root = some (render (steps path)) := by
  obtain ⟨habs, hsteps⟩ := steps_append hroot hpath
  have hcomponents : components (append root path) = components root ++ steps path := by
    rw [components_absolute habs, components_absolute hroot, hsteps]
    rfl
  rw [relative?, if_pos (habs.trans hroot.symm), hcomponents, relativeComponents_append]
  rfl

-- ── Steps that are written out ───────────────────────────────────────────────────

/-- A component is written as its segment. -/
theorem chars_of_component? {segment : List Char} {c : Component}
    (h : component? segment = some c) :
    c ≠ .root ∧ c.chars = segment ∧ segment ≠ [] := by
  rw [component?] at h
  by_cases hskip : segment = [] ∨ segment = ['.']
  · rw [if_pos hskip] at h
    cases h
  · rw [if_neg hskip] at h
    refine ⟨?_, ?_, fun hnil => hskip (Or.inl hnil)⟩
    · rintro rfl
      split at h
      · cases h
      · cases h
    · by_cases hup : segment = ['.', '.']
      · rw [if_pos hup] at h
        rw [← Option.some.inj h, hup]
        rfl
      · rw [if_neg hup] at h
        rw [← Option.some.inj h]
        rfl

/-- The segments of the steps of a path. -/
def stepSegments (path : List Char) : List (List Char) := (steps path).map Component.chars

theorem mem_stepSegments {segment : List Char} (h : segment ∈ stepSegments path) :
    segment ∈ pieces (· == '/') path ∧ segment ≠ [] := by
  obtain ⟨c, hc, rfl⟩ := List.mem_map.mp h
  obtain ⟨s, hs, hcomponent⟩ := List.mem_filterMap.mp hc
  obtain ⟨-, rfl, hne⟩ := chars_of_component? hcomponent
  exact ⟨hs, hne⟩

/-- Steps are written with slashes between them. -/
theorem render_steps (path : List Char) :
    render (steps path) = joinWith '/' (stepSegments path) := by
  show _ = joinWith '/' ((steps path).map Component.chars)
  cases h : steps path with
  | nil => rfl
  | cons c rest =>
      have hc : c ∈ steps path := by
        rw [h]
        exact List.mem_cons_self ..
      obtain ⟨s, -, hcomponent⟩ := List.mem_filterMap.mp hc
      have hroot := (chars_of_component? hcomponent).1
      cases c with
      | root => exact absurd rfl hroot
      | current => rfl
      | parent => rfl
      | name cs => rfl

/-- The segments that stand for no step change no stack. -/
theorem foldl_push_chars (absolute : Bool) (segments : List (List Char)) :
    ∀ stack : List (List Char),
      ((segments.filterMap component?).map Component.chars).foldl (push absolute) stack =
        segments.foldl (push absolute) stack := by
  induction segments with
  | nil => intro stack; rfl
  | cons s segments ih =>
      intro stack
      cases h : component? s with
      | none =>
          have hskip : s = [] ∨ s = ['.'] := by
            by_contra hnot
            rw [component?, if_neg hnot] at h
            split at h
            · cases h
            · cases h
          rw [List.filterMap_cons_none h, List.foldl_cons, push_skip hskip]
          exact ih stack
      | some c =>
          rw [List.filterMap_cons_some h, List.map_cons, List.foldl_cons, List.foldl_cons,
            (chars_of_component? h).2.1]
          exact ih _

/-- The steps of a relative path are normalized to what the path is normalized to. -/
theorem normalizeChars_render (hpath : ModulePath.isAbsolute path = false) (hback : '\\' ∉ path) :
    normalizeChars (render (steps path)) = normalizeChars path := by
  have hpieces : pieces isSlash path = pieces (· == '/') path :=
    (pieces_eq_splitOn hback).trans (pieces_eq_splitOnP _ path).symm
  have hplain : ∀ s ∈ stepSegments path, ∀ c ∈ s, isSlash c = false := by
    intro s hs
    have hmem := (mem_stepSegments hs).1
    rw [← hpieces] at hmem
    exact not_sep_of_mem_pieces path s hmem
  have hfold := foldl_push_chars false (pieces (· == '/') path) []
  rw [render_steps]
  by_cases hnil : stepSegments path = []
  · rw [hnil]
    refine normalizeChars_congr hpath.symm ?_
    rw [resolved, resolved, hpath, hpieces, ← hfold]
    show _ = ((stepSegments path).foldl (push false) []).reverse
    rw [hnil]
    rfl
  · have hsteps : Separable false (stepSegments path) :=
      ⟨fun _ => hnil, fun s hs => (mem_stepSegments hs).2, hplain⟩
    show normalizeChars (written false (stepSegments path)) = _
    refine normalizeChars_congr (hsteps.isAbsolute_written.trans hpath.symm) ?_
    rw [resolved, resolved, hpath, hpieces, ← hfold, hsteps.isAbsolute_written,
      hsteps.foldl_push_written]
    rfl

-- ── Extensions ───────────────────────────────────────────────────────────────────

/-- The name of a file is its last component. -/
theorem fileName?_eq_of_getLast? {a b : List Char}
    (h : (components a).getLast? = (components b).getLast?) : fileName? a = fileName? b := by
  rw [fileName?, fileName?, h]

/-- A path with steps keeps its extension behind the root. -/
theorem extension?_append (hroot : FilePath.isAbsolute root = true)
    (hpath : FilePath.isAbsolute path = false) (hne : steps path ≠ []) :
    extension? (append root path) = extension? path := by
  obtain ⟨habs, hsteps⟩ := steps_append hroot hpath
  have hlast (front : List Component) :
      (front ++ steps path).getLast? = (steps path).getLast? := by
    rw [List.getLast?_append_of_ne_nil _ hne]
  have hjoined : (components (append root path)).getLast? = (steps path).getLast? := by
    rw [components_absolute habs, hsteps]
    exact hlast (.root :: steps root)
  have halone : (components path).getLast? = (steps path).getLast? := by
    rcases components_relative hpath with h | h
    · rw [h]
    · rw [h]
      exact hlast [.current]
  rw [extension?, extension?, fileName?_eq_of_getLast? (hjoined.trans halone.symm)]

/-- A relative path with an extension has steps. -/
theorem steps_ne_nil_of_extension (hpath : FilePath.isAbsolute path = false)
    (h : extension? path ≠ none) : steps path ≠ [] := by
  intro hnil
  refine h ?_
  have hname : fileName? path = none := by
    rcases components_relative hpath with hc | hc
    · rw [fileName?, hc, hnil]
      rfl
    · rw [fileName?, hc, hnil]
      rfl
  rw [extension?, hname]
  rfl

/-- A path that ends with a name has steps. -/
theorem steps_ne_nil_of_last (hback : '\\' ∉ path) (h : IsName (lastSegment path)) :
    steps path ≠ [] := by
  have hpieces : pieces (· == '/') path = (pieces isSlash path).dropLast ++ [lastSegment path] := by
    rw [← pieces_eq_concat, pieces_eq_splitOn hback, pieces_eq_splitOnP]
    rfl
  have hcomponent : component? (lastSegment path) = some (.name (lastSegment path)) := by
    rw [component?, if_neg (not_or.mpr ⟨h.ne_nil, h.ne_point⟩), if_neg h.ne_points]
  intro hnil
  rw [steps, hpieces, List.filterMap_append, List.filterMap_cons_some hcomponent] at hnil
  exact List.append_ne_nil_of_right_ne_nil _ (List.cons_ne_nil _ _) hnil

-- ── Modules of files and of arguments ────────────────────────────────────────────

/-- The file has the extension of a source file. -/
def isSource (path : List Char) : Bool := (extension? path).any sourceExtensions.contains

/-- A path that is not absolute for the system is not so for modules, if it has no backslashes. -/
theorem isAbsolute_of_plain (hpath : FilePath.isAbsolute path = false) (hback : '\\' ∉ path) :
    ModulePath.isAbsolute path = false := by
  rw [Bool.eq_false_iff, Ne, ← head?_eq_slash_iff hback]
  intro hhead
  have habs : FilePath.isAbsolute path = true := by
    rw [FilePath.isAbsolute, hhead]
    rfl
  rw [hpath] at habs
  cases habs

section Joined

variable (hroot : FilePath.isAbsolute root = true) (hpath : FilePath.isAbsolute path = false)
  (hback : '\\' ∉ path)

include hroot hpath hback

/-- The loader registers a file of the tree under its path from the root. -/
theorem moduleKeyChars_append : moduleKeyChars root (append root path) = ofFileChars path := by
  rw [moduleKeyChars, relative?_append hroot hpath]
  exact ofFileChars_congr (normalizeChars_render (isAbsolute_of_plain hpath hback) hback)

/-- An argument may be joined to the root. -/
theorem moduleArgChars_append (hne : steps path ≠ []) :
    moduleArgChars root (append root path) = moduleArgChars root path := by
  have hnormal := normalizeChars_render (isAbsolute_of_plain hpath hback) hback
  have habs := (steps_append hroot hpath).1
  rw [moduleArgChars, moduleArgChars, if_pos habs, if_neg (ne_true_of_eq_false hpath),
    relative?_append hroot hpath, extension?_append hroot hpath hne]
  show (if isSource path = true then ofFileChars (render (steps path))
      else normalizeChars (render (steps path))) =
    if isSource path = true then ofFileChars path else normalizeChars path
  rw [ofFileChars_congr hnormal, hnormal]

end Joined

/-- A relative argument with the extension of a source is a file. -/
theorem moduleArgChars_of_isSource (root : List Char) (hpath : FilePath.isAbsolute path = false)
    (h : isSource path = true) : moduleArgChars root path = ofFileChars path := by
  rw [moduleArgChars, if_neg (ne_true_of_eq_false hpath)]
  exact if_pos h

theorem moduleArgChars_of_not_isSource (root : List Char)
    (hpath : FilePath.isAbsolute path = false) (h : isSource path = false) :
    moduleArgChars root path = normalizeChars path := by
  rw [moduleArgChars, if_neg (ne_true_of_eq_false hpath)]
  exact if_neg (ne_true_of_eq_false h)

/-- The extensions of sources have neither points nor slashes. -/
theorem plain_of_mem_sourceExtensions :
    ∀ e ∈ sourceExtensions, e ≠ [] ∧ '.' ∉ e ∧ ∀ c ∈ e, isSlash c = false := by
  have hall : sourceExtensions.all (fun e =>
      e ≠ [] ∧ '.' ∉ e ∧ e.all fun c => isSlash c = false) = true := by decide
  simpa using hall

/-- The file that an extension behind an argument gives. -/
theorem moduleKeyChars_extension (hroot : FilePath.isAbsolute root = true)
    (hpath : FilePath.isAbsolute path = false) (hback : '\\' ∉ path)
    (hlast : IsName (lastSegment path)) {e : List Char} (he : e ∈ sourceExtensions) :
    moduleKeyChars root (append root (path ++ '.' :: e)) = normalizeChars path := by
  obtain ⟨hne, hdot, hplain⟩ := plain_of_mem_sourceExtensions e he
  have hrel : FilePath.isAbsolute (path ++ '.' :: e) = false := by
    cases path with
    | nil => rfl
    | cons c rest => exact hpath
  have hnone : '\\' ∉ path ++ '.' :: e := by
    intro hmem
    rcases List.mem_append.mp hmem with hmem | hmem
    · exact hback hmem
    · rcases List.mem_cons.mp hmem with hpoint | hmem
      · exact absurd hpoint (by decide)
      · exact absurd (hplain '\\' hmem) (by decide)
  rw [moduleKeyChars_append hroot hrel hnone]
  exact ofFileChars_extension (pieces_eq_concat path) hlast hdot hplain hne

/-- The path of a file, joined to the root of the tree. -/
def joined (root path : String) : String := String.ofList (append root.toList path.toList)

/-- **All spellings of a file name its module.**  Take an absolute root and a relative path without
    backslashes.  If the path has the extension of a source file, then the argument names, as it is
    and joined to the root, the module that is registered for the file.  If it has none, and ends
    with a name, then it names so the module of the file that any of these extensions behind it
    gives. -/
theorem moduleArg_spellings {root r : String} (hroot : FilePath.isAbsolute root.toList = true)
    (hr : FilePath.isAbsolute r.toList = false) (hback : '\\' ∉ r.toList) :
    (isSource r.toList = true →
      moduleArg root r = moduleArg root (joined root r) ∧
        moduleArg root (joined root r) = moduleKey root (joined root r)) ∧
    (isSource r.toList = false → IsName (lastSegment r.toList) → ∀ e ∈ sourceExtensions,
      moduleArg root r = moduleArg root (joined root r) ∧
        moduleArg root (joined root r) =
          moduleKey root (joined root (r ++ "." ++ String.ofList e))) := by
  have harg (hne : steps r.toList ≠ []) : moduleArg root r = moduleArg root (joined root r) := by
    rw [moduleArg, moduleArg, joined, String.toList_ofList,
      moduleArgChars_append hroot hr hback hne]
  constructor
  · intro hsource
    have hext : extension? r.toList ≠ none := by
      intro hnone
      rw [isSource, hnone] at hsource
      cases hsource
    have hspelled := harg (steps_ne_nil_of_extension hr hext)
    refine ⟨hspelled, hspelled.symm.trans ?_⟩
    rw [moduleArg, moduleKey, joined, String.toList_ofList,
      moduleArgChars_of_isSource _ hr hsource, moduleKeyChars_append hroot hr hback]
  · intro hsource hlast e he
    have hspelled := harg (steps_ne_nil_of_last hback hlast)
    refine ⟨hspelled, hspelled.symm.trans ?_⟩
    rw [moduleArg, moduleKey, joined, String.toList_ofList, toList_append_point,
      String.toList_ofList, moduleArgChars_of_not_isSource _ hr hsource,
      moduleKeyChars_extension hroot hr hback hlast he]

/-- Detours in the root and in the argument, points, slashes at the end and several points in a name
    do not show. -/
theorem moduleArg_spellings_detours :
    (moduleArg "/work/../repo//." "./src//lib/../view.model/x.d.ts/." = "src/view.model/x.d" ∧
      moduleArg "/work/../repo//." "/work/../repo//./src/./view.model/x.d.ts" =
        "src/view.model/x.d") ∧
    (moduleArg "/work/../repo//." "./src//lib/../view.model/x.d.ts/." =
        moduleArg "/work/../repo//." (joined "/work/../repo//." "./src//lib/../view.model/x.d.ts/.") ∧
      moduleArg "/work/../repo//." (joined "/work/../repo//." "./src//lib/../view.model/x.d.ts/.") =
        moduleKey "/work/../repo//."
          (joined "/work/../repo//." "./src//lib/../view.model/x.d.ts/.")) ∧
    (moduleArg "/" "a/../..//.hidden." = moduleArg "/" (joined "/" "a/../..//.hidden.") ∧
      moduleArg "/" (joined "/" "a/../..//.hidden.") =
        moduleKey "/" (joined "/" ("a/../..//.hidden." ++ "." ++ String.ofList ['m', 't', 's']))) :=
  ⟨⟨rfl, rfl⟩, (moduleArg_spellings rfl rfl (by decide)).1 rfl,
    (moduleArg_spellings rfl rfl (by decide)).2 rfl (by decide) _ (by decide)⟩

end FilePath

end DeclAtlas

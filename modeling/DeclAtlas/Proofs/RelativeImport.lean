import DeclAtlas.Pattern.Program
import DeclAtlas.Proofs.NormalPath
import DeclAtlas.Proofs.Resolution

/-!
# Relative imports ask for the keys that files are registered under

A relative specifier is joined to the directory of the importing module; a file is registered
under its path without the extension.  Both end in a normalized path, and the laws of these
(`DeclAtlas.Proofs.NormalPath`) tell when the two meet:

* **`Registry.relative_import_finds_file`** — the specifier of a file, seen from another file,
  asks for the key of this file, so an import by it finds the file's module;
* **`Registry.lookup_directory_iff_not_root`** — a specifier of a directory finds the index
  module of the directory, unless the directory is one of the two roots.

The roots are an exception because a lookup puts `/index` behind the path it is asked for, and
the roots are written `.` and `/`: it asks for `./index` and `//index`, which no file has as its
key (`Registry.root_index_not_found`).
-/

namespace DeclAtlas

namespace ModulePath

open Text

/-- What stands behind the last slash of a path. -/
def lastSegment (cs : List Char) : List Char :=
  (pieces isSlash cs).getLast (pieces_ne_nil isSlash cs)

theorem pieces_eq_concat (cs : List Char) :
    pieces isSlash cs = (pieces isSlash cs).dropLast ++ [lastSegment cs] :=
  (List.dropLast_concat_getLast (pieces_ne_nil isSlash cs)).symm

/-- The path of a file in a directory, or of one without a directory. -/
def filedIn (dir : Option String) (file : String) : String :=
  match dir with
  | none => file
  | some d => d ++ "/" ++ file

theorem isAbsolute_of_point {cs : List Char} (h : cs.head? = some '.') : isAbsolute cs = false := by
  unfold isAbsolute
  rw [h]
  rfl

theorem toList_append_slash (d s : String) :
    (d ++ "/" ++ s).toList = d.toList ++ '/' :: s.toList := by
  rw [String.toList_append, String.toList_append, List.append_assoc]
  rfl

theorem toList_append_point (s e : String) :
    (s ++ "." ++ e).toList = s.toList ++ '.' :: e.toList := by
  rw [String.toList_append, String.toList_append, List.append_assoc]
  rfl

/-- Seen from a file, a relative specifier names what it names beside the file. -/
theorem join_filedIn {dir : Option String} (hdir : dir ≠ some "") {b s : String}
    (hb : IsName b.toList) (hs : s.toList.head? = some '.') :
    join (ofFile (filedIn dir b)) s = normalize (filedIn dir s) := by
  unfold join ofFile normalize
  rw [String.toList_ofList]
  congr 1
  cases dir with
  | none => exact joinChars_ofFileChars_top hb s.toList
  | some d =>
      have hd : d.toList ≠ [] := fun h => hdir (congrArg some (String.toList_eq_nil_iff.mp h))
      unfold filedIn
      rw [toList_append_slash, toList_append_slash]
      exact joinChars_ofFileChars hd hb (isAbsolute_of_point hs)

/-- A file beside another has the module path that its path without the extension names. -/
theorem ofFile_filedIn (dir : Option String) {s e : String}
    (hlast : IsName (lastSegment s.toList)) (he : e ≠ "")
    (hext : ∀ c ∈ e.toList, c ≠ '.' ∧ c ≠ '/' ∧ c ≠ '\\') :
    ofFile (filedIn dir (s ++ "." ++ e)) = normalize (filedIn dir s) := by
  have hnil : e.toList ≠ [] := fun h => he (String.toList_eq_nil_iff.mp h)
  have hdot : '.' ∉ e.toList := fun h => (hext '.' h).1 rfl
  have hplain : ∀ c ∈ e.toList, isSlash c = false := by
    intro c hc
    obtain ⟨-, hslash, hback⟩ := hext c hc
    simp [isSlash, hslash, hback]
  unfold ofFile normalize
  congr 1
  cases dir with
  | none =>
      unfold filedIn
      rw [toList_append_point]
      exact ofFileChars_extension (pieces_eq_concat s.toList) hlast hdot hplain hnil
  | some d =>
      have hpieces : pieces isSlash (d.toList ++ '/' :: s.toList) =
          (pieces isSlash d.toList ++ (pieces isSlash s.toList).dropLast) ++
            [lastSegment s.toList] := by
        rw [pieces_append_sep rfl, List.append_assoc, ← pieces_eq_concat]
      have happend : d.toList ++ '/' :: (s.toList ++ '.' :: e.toList) =
          (d.toList ++ '/' :: s.toList) ++ '.' :: e.toList := by simp
      unfold filedIn
      rw [toList_append_slash, toList_append_slash, toList_append_point, happend]
      exact ofFileChars_extension hpieces hlast hdot hplain hnil

/-- The index module of the directory that a specifier names. -/
theorem join_index (module : String) {specifier : String} (hs : specifier ≠ "") :
    join module (specifier ++ "/index") =
      if join module specifier = "." then "index"
      else if join module specifier = "/" then "/index"
      else Registry.indexKey (join module specifier) := by
  have hne : importBase module.toList ++ specifier.toList ≠ [] := by
    refine List.append_ne_nil_of_right_ne_nil _ ?_
    exact fun h => hs (String.toList_eq_nil_iff.mp h)
  have hindex : IsName ['i', 'n', 'd', 'e', 'x'] := by decide
  have happend : importBase module.toList ++ (specifier ++ "/index").toList =
      (importBase module.toList ++ specifier.toList) ++ '/' :: ['i', 'n', 'd', 'e', 'x'] := by
    rw [String.toList_append, ← List.append_assoc]
    rfl
  unfold join
  rw [joinChars_eq, joinChars_eq, happend, normalizeChars_append_name hne hindex]
  generalize normalizeChars (importBase module.toList ++ specifier.toList) = path
  have hpoint : String.ofList path = "." ↔ path = ['.'] := by
    rw [← String.toList_inj, String.toList_ofList]
    rfl
  have hslash : String.ofList path = "/" ↔ path = ['/'] := by
    rw [← String.toList_inj, String.toList_ofList]
    rfl
  unfold inside
  by_cases h1 : path = ['.']
  · rw [if_pos h1, if_pos (hpoint.mpr h1)]
  · rw [if_neg h1, if_neg (mt hpoint.mp h1)]
    by_cases h2 : path = ['/']
    · rw [if_pos h2, if_pos (hslash.mpr h2)]
    · rw [if_neg h2, if_neg (mt hslash.mp h2), ← String.toList_inj, String.toList_ofList,
        Registry.indexKey, String.toList_append, String.toList_ofList]
      rfl

end ModulePath

namespace Registry

open ModulePath

variable {r : Registry}

-- ── Files beside one another ─────────────────────────────────────────────────────

/-- A module that was just registered for a file is what its key stands for. -/
theorem lookup_addSource {file text : String} {s : SourceUnit}
    (h : (r.addSource file text).1 = some s) :
    (r.addSource file text).2.lookup (ofFile file) = some (.source s) := by
  rcases r.addSource_cases file text with ⟨-, heq⟩ | ⟨-, hl, heq⟩
  · rw [heq] at h
    exact nomatch h
  · rw [heq] at h ⊢
    obtain rfl := Option.some.inj h
    exact lookup_eq_some_iff.mpr (Or.inl (find?_push_of_not_mem (not_mem_keys_of_lookup hl)))

/-- **A relative import finds the file beside.**  Take two files, both in a directory or both
    without one, and the second by a relative specifier and an extension.  Seen from the module
    of the first, the specifier names the module of the second.  So once the second has been
    registered, and without path mappings, an import by this specifier finds its module. -/
theorem relative_import_finds_file {dir : Option String} (hdir : dir ≠ some "") {b s e : String}
    (hb : IsName b.toList) (hs : s.toList.head? = some '.')
    (hlast : IsName (lastSegment s.toList)) (he : e ≠ "")
    (hext : ∀ c ∈ e.toList, c ≠ '.' ∧ c ≠ '/' ∧ c ≠ '\\') :
    join (ofFile (filedIn dir b)) s = ofFile (filedIn dir (s ++ "." ++ e)) ∧
    ∀ (r : Registry) (text : String) (found : SourceUnit),
      (r.addSource (filedIn dir (s ++ "." ++ e)) text).1 = some found →
      ∀ (importer : SourceUnit) (name : String) (i : Import) (element : Specifier),
        importer.path = ofFile (filedIn dir b) →
        FirstImport (withoutTypeArgs name) importer.imports i element → i.specifier = s →
        (r.addSource (filedIn dir (s ++ "." ++ e)) text).2.lookup
            (PathMapping.applyAll [] (target importer.path i.specifier)) = some (.source found) ∧
        (r.addSource (filedIn dir (s ++ "." ++ e)) text).2.importHop? (PathMapping.applyAll [])
            importer name = some ⟨.source found, element.sourceName, .exports⟩ := by
  have hjoin : join (ofFile (filedIn dir b)) s = ofFile (filedIn dir (s ++ "." ++ e)) :=
    (join_filedIn hdir hb hs).trans (ofFile_filedIn dir hlast he hext).symm
  refine ⟨hjoin, ?_⟩
  intro r text found hfound importer name i element hpath hi hspec
  have htarget : target importer.path i.specifier = ofFile (filedIn dir (s ++ "." ++ e)) := by
    rw [hpath, hspec, target, if_pos hs, hjoin]
  have hlookup : (r.addSource (filedIn dir (s ++ "." ++ e)) text).2.lookup
      (PathMapping.applyAll [] (target importer.path i.specifier)) = some (.source found) := by
    rw [htarget]
    exact lookup_addSource hfound
  exact ⟨hlookup, importHop?_iff.mpr ⟨i, element, _, hi, hlookup, rfl⟩⟩

/-- A module that imports a class from a directory beside its own. -/
def viewModule : SourceUnit :=
  ⟨"/src/view.model",
    [.importing ⟨"..\\lib/./base.d", some ⟨none, some (.named [⟨"Base", none, false⟩])⟩, false,
      default⟩]⟩

/-- Slashes of both kinds, points and several extensions do not keep the two from meeting. -/
theorem view_finds_base :
    join "/src/view.model" "..\\lib/./base.d" = "/lib/base.d" ∧
      ((empty.addSource "/app/../src/..\\lib/./base.d.ts" "").2.importHop? (PathMapping.applyAll [])
          viewModule "Base<T>") =
        some ⟨.source (.ofText "/lib/base.d" ""), "Base", .exports⟩ := by
  have hb : IsName "view.model.ts".toList := by decide
  have hlast : IsName (lastSegment "..\\lib/./base.d".toList) := by decide
  have hext : ∀ c ∈ "ts".toList, c ≠ '.' ∧ c ≠ '/' ∧ c ≠ '\\' := by simp
  have hdir : some "/app/../src" ≠ some "" := by decide
  obtain ⟨hjoin, hfinds⟩ :=
    relative_import_finds_file hdir hb rfl hlast (e := "ts") (by decide) hext
  have hadd : (empty.addSource "/app/../src/..\\lib/./base.d.ts" "").1 =
      some (.ofText "/lib/base.d" "") := rfl
  have himport : FirstImport (withoutTypeArgs "Base<T>") viewModule.imports
      ⟨"..\\lib/./base.d", some ⟨none, some (.named [⟨"Base", none, false⟩])⟩, false, default⟩
      ⟨"Base", none, false⟩ := importOf?_iff.mp rfl
  exact ⟨hjoin, (hfinds empty "" _ hadd viewModule "Base<T>" _ _ rfl himport rfl).2⟩

-- ── Directories and their index modules ──────────────────────────────────────────

/-- In a coherent registry, a unit is found under one key only. -/
theorem Coherent.key_unique (hc : r.Coherent) {k l : String} {u : ModuleUnit}
    (hk : r.find? k = some u) (hl : r.find? l = some u) : k = l :=
  (hc.key_eq k u (mem_entries_of_find? hk)).symm.trans (hc.key_eq l u (mem_entries_of_find? hl))

/-- **A directory finds its index module, unless it is a root.**  In a registry that calls can
    build, take a relative specifier of a path that is no key.  If the specifier with `/index`
    behind it names a registered unit, then the path stands for this unit exactly if it is
    neither the root of relative paths nor that of absolute ones. -/
theorem lookup_directory_iff_not_root (hr : r.Reachable) {module specifier : String}
    {u : ModuleUnit} (hs : specifier.toList.head? = some '.')
    (hdir : join module specifier ∉ r.keys)
    (hindex : r.find? (join module (specifier ++ "/index")) = some u) :
    r.lookup (join module specifier) = some u ↔
      join module specifier ≠ "." ∧ join module specifier ≠ "/" := by
  have hne : specifier ≠ "" := by
    rintro rfl
    exact nomatch hs
  have hnone : r.find? (join module specifier) = none := find?_eq_none_iff.mpr hdir
  rw [join_index module hne] at hindex
  rw [lookup_eq_some_iff, hnone]
  constructor
  · rintro (h | ⟨-, h⟩)
    · exact nomatch h
    · -- under a root, the key asked for and the key of the index module differ
      refine ⟨fun hroot => ?_, fun hroot => ?_⟩
      · rw [if_pos hroot] at hindex
        rw [hroot] at h
        exact absurd (hr.coherent.key_unique h hindex) (by decide)
      · rw [if_neg (by rw [hroot]; decide), if_pos hroot] at hindex
        rw [hroot] at h
        exact absurd (hr.coherent.key_unique h hindex) (by decide)
  · rintro ⟨hpoint, hslash⟩
    rw [if_neg hpoint, if_neg hslash] at hindex
    exact Or.inr ⟨rfl, hindex⟩

/-- From below, a directory finds its index module by the points that lead up to it. -/
theorem lib_index_found :
    (afterCalls [.unit ⟨"../lib/index", []⟩]).lookup (join "main" "./a/../../lib/") =
      some (.source ⟨"../lib/index", []⟩) :=
  (lookup_directory_iff_not_root ⟨_, rfl⟩ rfl (by decide) rfl).mpr ⟨by decide, by decide⟩

/-- At both roots, the index module is registered and named by the specifier with `/index` behind
    it, but the specifier of the root itself finds nothing. -/
theorem root_index_not_found :
    (afterCalls [.unit ⟨"index", []⟩]).find? (join "main" ("." ++ "/index")) =
        some (.source ⟨"index", []⟩) ∧
      join "main" "." ∉ (afterCalls [.unit ⟨"index", []⟩]).keys ∧
      (afterCalls [.unit ⟨"index", []⟩]).lookup (join "main" ".") = none ∧
    (afterCalls [.unit ⟨"/index", []⟩]).find? (join "/src/main" (".." ++ "/index")) =
        some (.source ⟨"/index", []⟩) ∧
      join "/src/main" ".." ∉ (afterCalls [.unit ⟨"/index", []⟩]).keys ∧
      (afterCalls [.unit ⟨"/index", []⟩]).lookup (join "/src/main" "..") = none :=
  ⟨rfl, by decide, rfl, rfl, by decide, rfl⟩

end Registry

end DeclAtlas

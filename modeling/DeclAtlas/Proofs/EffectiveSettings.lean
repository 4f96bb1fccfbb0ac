import DeclAtlas.Proofs.CanonicalPath
import DeclAtlas.Settings.Basic

/-!
# Where settings come from

The settings of a run are made of three sources, and which configuration file is one of them is
found by going up from a start.

* **`Settings.resolveFrom_effective`** — for every file system and every reader of configuration
  files: the start is the normalized path of the given root, seen from the working directory; the
  source tree begins at the nearest marked place from there (`Settings.Begins`); the first
  configuration file at that place is read, and what is wrong with it is what is wrong with the run
  (`Settings.Loads`); otherwise each setting is the one given on the command line, else that of the
  file, else the default (`Settings.Chosen`).

The start is folded component by component, and paths of modules segment by segment.  On absolute
paths both keep the same stack, one of components above the root, the other of segments
(`FilePath.fold_segments`).
-/

namespace DeclAtlas

open Text

-- ── Folding components and segments ──────────────────────────────────────────────

namespace FilePath

open ModulePath

/-- One more component on a stack of components. -/
def fold (stack : List Component) (c : Component) : List Component :=
  match c, stack with
  | .current, _ => stack
  | .parent, .root :: _ => stack
  | .parent, _ => stack.tail
  | c, _ => c :: stack

theorem foldParents_eq (cs : List Component) : foldParents cs = (cs.foldl fold []).reverse := rfl

/-- Names above the root. -/
def aboveRoot (names : List (List Char)) : List Component := names.map Component.name ++ [.root]

/-- Above the root, a component does to a stack of names what its segment does. -/
theorem fold_segment {names : List (List Char)} (h : ModulePath.Canonical true names)
    {segment : List Char} :
    (component? segment).toList.foldl fold (aboveRoot names) =
      aboveRoot (push true names segment) := by
  unfold component?
  by_cases hskip : segment = [] ∨ segment = ['.']
  · rw [if_pos hskip, push_skip hskip]
    rfl
  · rw [if_neg hskip]
    by_cases hup : segment = ['.', '.']
    · rw [if_pos hup, hup]
      cases h with
      | nil => rfl
      | name hname _ => rw [push_up_name hname]; rfl
      | up hrel _ _ => cases hrel
    · rw [if_neg hup, push.eq_def, if_neg hskip, if_neg hup]
      rfl

/-- Above the root, all segments of a path do what their components do. -/
theorem fold_segments (segments : List (List Char))
    (hplain : ∀ s ∈ segments, ∀ c ∈ s, isSlash c = false) :
    ∀ {names : List (List Char)}, ModulePath.Canonical true names →
      (segments.filterMap component?).foldl fold (aboveRoot names) =
        aboveRoot (segments.foldl (push true) names) := by
  induction segments with
  | nil => intro names _; rfl
  | cons s segments ih =>
      intro names h
      obtain ⟨hs, hrest⟩ := List.forall_mem_cons.mp hplain
      have hcut : (s :: segments).filterMap component? =
          (component? s).toList ++ segments.filterMap component? := by
        cases hc : component? s with
        | none => rw [List.filterMap_cons_none hc]; rfl
        | some c => rw [List.filterMap_cons_some hc]; rfl
      rw [hcut, List.foldl_append, fold_segment h, ih hrest (h.push hs), List.foldl_cons]

/-- The components of an absolute path, folded, are the root and the segments of the normalized
    path. -/
theorem foldParents_components {path : List Char} (habs : path.head? = some '/')
    (hback : '\\' ∉ path) :
    foldParents (components path) = .root :: (resolved path).map Component.name := by
  have hfront : isAbsolute path = true := by rw [isAbsolute, habs]; rfl
  have hcomponents : components path =
      .root :: (pieces isSlash path).filterMap component? := by
    rw [pieces_eq_splitOn hback, List.splitOn, ← pieces_eq_splitOnP]
    simp [components, hfront]
  have hfold := fold_segments (pieces isSlash path) (not_sep_of_mem_pieces path) .nil
  have hresolved : (pieces isSlash path).foldl (push true) [] = (resolved path).reverse := by
    rw [resolved, (head?_eq_slash_iff hback).mp habs, List.reverse_reverse]
  rw [foldParents_eq, hcomponents, List.foldl_cons,
    show fold [] .root = aboveRoot [] from rfl, hfold, hresolved, aboveRoot, List.reverse_append,
    ← List.map_reverse, List.reverse_reverse]
  rfl

/-- What is put behind an absolute path without backslashes gives such a path. -/
theorem append_absolute {base path : List Char} (habs : base.head? = some '/')
    (hbase : '\\' ∉ base) (hpath : '\\' ∉ path) :
    (append base path).head? = some '/' ∧ '\\' ∉ append base path := by
  obtain ⟨rest, rfl⟩ := List.head?_eq_some_iff.mp habs
  unfold append
  by_cases hreplaced : isAbsolute path ∨ '/' :: rest = []
  · rw [if_pos hreplaced]
    refine ⟨?_, hpath⟩
    rcases hreplaced with hreplaced | hreplaced
    · exact beq_iff_eq.mp hreplaced
    · cases hreplaced
  · rw [if_neg hreplaced]
    split
    · exact ⟨rfl, by simp only [List.mem_append, not_or]; exact ⟨hbase, hpath⟩⟩
    · refine ⟨rfl, ?_⟩
      simp only [List.mem_append, List.mem_cons, not_or]
      exact ⟨List.mem_cons.not.mp hbase |> not_or.mp, by decide, hpath⟩

end FilePath

namespace Settings

open ModulePath

variable {files : Files} {start place other : List FileName}

/-- The place of a path from the root is made of its names. -/
theorem placeOf_root (names : List (List Char)) :
    placeOf (.root :: names.map FilePath.Component.name) = names := by
  rw [placeOf, List.filterMap_cons_none rfl, List.filterMap_map]
  exact List.filterMap_some

/-- Discovery starts at a normalized path. -/
theorem pathOf_start {cwd : String} {root : Option String} (habs : cwd.toList.head? = some '/')
    (hcwd : '\\' ∉ cwd.toList) (hroot : '\\' ∉ (root.getD ".").toList) :
    pathOf (Settings.start cwd root) =
      normalizeChars (FilePath.append cwd.toList (root.getD ".").toList) := by
  obtain ⟨hhead, hback⟩ := FilePath.append_absolute habs hcwd hroot
  have htexts : (FilePath.Component.chars ∘ FilePath.Component.name) = id := rfl
  rw [Settings.start, FilePath.foldParents_components hhead hback, placeOf_root, pathOf,
    FilePath.render, List.map_map, htexts, List.map_id, normalizeChars,
    (head?_eq_slash_iff hback).mp hhead, if_pos rfl]

-- ── Going up ─────────────────────────────────────────────────────────────────────

/-- The directory holds one of the files that mark where a source tree begins, or a repository. -/
def Marked (files : Files) (place : List FileName) : Prop :=
  ∃ name ∈ ["vmreflect.toml", "vmreflect.yaml", "vmreflect.yml", ".git"],
    files.contains (place ++ [name.toList]) = true

/-- Where a source tree begins, seen from a start: at the nearest marked place on the way up, or at
    the start itself if none is marked. -/
inductive Begins (files : Files) (start : List FileName) : List FileName → Prop
  | marked {place : List FileName} : place <+: start → Marked files place →
      (∀ other, other <+: start → Marked files other → other <+: place) →
      Begins files start place
  | unmarked : (∀ other, other <+: start → ¬ Marked files other) → Begins files start start

/-- Whether a place is marked can be seen from its files. -/
theorem marked_iff : marked files place = true ↔ Marked files place := by
  simp [marked, Marked, markers, ConfigFile.names]

/-- A place and those above it are the places that lead to it. -/
theorem mem_upward : other ∈ upward place ↔ other <+: place := by
  rw [upward, List.mem_reverse]
  induction place generalizing other with
  | nil => simp [downward]
  | cons n ns ih =>
      rw [downward, List.mem_cons, List.mem_map, List.prefix_cons_iff]
      simp only [ih]
      constructor
      · rintro (h | ⟨p, hp, rfl⟩)
        · exact Or.inl h
        · exact Or.inr ⟨p, rfl, hp⟩
      · rintro (h | ⟨p, rfl, hp⟩)
        · exact Or.inl h
        · exact Or.inr ⟨p, hp, rfl⟩

/-- On the way up, every later place leads to the earlier ones. -/
theorem upward_pairwise (place : List FileName) :
    (upward place).Pairwise fun nearer farther => farther <+: nearer := by
  rw [upward, List.pairwise_reverse]
  induction place with
  | nil => exact List.pairwise_singleton _ _
  | cons n ns ih =>
      refine List.pairwise_cons.mpr ⟨fun p _ => List.nil_prefix, ?_⟩
      exact List.pairwise_map.mpr (ih.imp fun h => (List.prefix_cons_inj n).mpr h)

/-- The place that is found on the way up is the nearest one that is marked, or the start. -/
theorem begins_rootPlace (files : Files) (start : List FileName) :
    Begins files start (rootPlace files start) := by
  unfold rootPlace
  cases hfound : (upward start).find? (marked files) with
  | none =>
      refine .unmarked fun other hother hmarked => ?_
      exact List.find?_eq_none.mp hfound other (mem_upward.mpr hother) (marked_iff.mpr hmarked)
  | some place =>
      obtain ⟨hplace, nearer, farther, heq, hnearer⟩ := List.find?_eq_some_iff_append.mp hfound
      have hmem : place ∈ upward start := List.mem_of_find?_eq_some hfound
      refine .marked (mem_upward.mp hmem) (marked_iff.mp hplace) fun other hother hmarked => ?_
      have horder := upward_pairwise start
      rw [heq] at horder
      have hother := mem_upward.mpr hother
      rw [heq] at hother
      rcases List.mem_append.mp hother with hnear | hrest
      · exact absurd (marked_iff.mpr hmarked) (by simpa using hnearer other hnear)
      · rcases List.mem_cons.mp hrest with rfl | hfar
        · exact List.prefix_rfl
        · exact (List.pairwise_cons.mp (List.pairwise_append.mp horder).2.1).1 other hfar

-- ── The configuration file ───────────────────────────────────────────────────────

/-- The first configuration file that stands at a place. -/
structure IsFirst (files : Files) (place : List FileName) (name : String)
    (format : ConfigFile.Format) : Prop where
  stands : files.contains (place ++ [name.toList]) = true
  first : ∃ before after, ConfigFile.names = before ++ (name, format) :: after ∧
    ∀ f ∈ before, files.contains (place ++ [f.1.toList]) = false

/-- The path of a file at a place. -/
def filePath (place : List FileName) (name : String) : String :=
  String.ofList (FilePath.append (pathOf place) name.toList)

/-- What loading the configuration at a place gives: nothing if there is no file, and otherwise what
    the first file says, or what is wrong with it. -/
inductive Loads (files : Files) (reader : ConfigFile.Format → String → Option ConfigFile)
    (place : List FileName) : Except Problem (Option ConfigFile) → Prop
  | absent : (∀ f ∈ ConfigFile.names, files.contains (place ++ [f.1.toList]) = false) →
      Loads files reader place (.ok none)
  | unreadable {name : String} {format : ConfigFile.Format} {failure : ReadFailure} :
      IsFirst files place name format → files.read (place ++ [name.toList]) = .error failure →
      Loads files reader place (.error (.unreadable (filePath place name) failure))
  | unparsable {name text : String} {format : ConfigFile.Format} :
      IsFirst files place name format → files.read (place ++ [name.toList]) = .ok text →
      reader format text = none →
      Loads files reader place (.error (.badConfig (filePath place name)))
  | config {name text : String} {format : ConfigFile.Format} {config : ConfigFile} :
      IsFirst files place name format → files.read (place ++ [name.toList]) = .ok text →
      reader format text = some config → Loads files reader place (.ok (some config))

/-- What is read at a place is the first file there, in the order of the names. -/
theorem loads_configAt (files : Files) (reader : ConfigFile.Format → String → Option ConfigFile)
    (place : List FileName) : Loads files reader place (configAt files reader place) := by
  unfold configAt
  split
  · next hnone =>
    refine .absent fun f hf => ?_
    exact Bool.eq_false_iff.mpr (List.find?_eq_none.mp hnone f hf)
  · next name format hfound =>
    obtain ⟨hstands, before, after, heq, hbefore⟩ := List.find?_eq_some_iff_append.mp hfound
    have hfirst : IsFirst files place name format :=
      ⟨hstands, before, after, heq, fun f hf => by simpa using hbefore f hf⟩
    dsimp only
    split
    · next failure hread => exact .unreadable hfirst hread
    · next text hread =>
      split
      · next hconfig => exact .unparsable hfirst hread hconfig
      · next config hconfig => exact .config hfirst hread hconfig

-- ── Precedence ───────────────────────────────────────────────────────────────────

/-- The value given on the command line, else the one in the file, else the default. -/
inductive Chosen {α : Type} (given file : Option α) (default : α) : α → Prop
  | given {a : α} : given = some a → Chosen given file default a
  | file {a : α} : given = none → file = some a → Chosen given file default a
  | default : given = none → file = none → Chosen given file default default

/-- A list on the command line, of which the empty one is not given. -/
def given? (values : List String) : Option (List String) :=
  if values = [] then none else some values

/-- The settings that a run with a configuration, or without one, works with. -/
structure Settles (given : Overrides) (place : List FileName) (found : Option ConfigFile)
    (s : Settings) : Prop where
  root : s.root = String.ofList (pathOf place)
  sources : Chosen (given? given.sources) (found.bind (·.sources)) ["src/**/*.ts"] s.sources
  typings : Chosen (given? given.typings) (found.bind (·.typings)) [] s.typings
  paths : s.paths = (found.map (·.paths)).getD []
  configFound : s.configFound = found.isSome

/-- A value that may be given twice: the one on the command line counts before that of the file. -/
theorem chosen_getD {α : Type} (given file : Option α) (default : α) :
    Chosen given file default ((given <|> file).getD default) := by
  cases given with
  | some a => exact .given rfl
  | none =>
      cases file with
      | some a => exact .file rfl rfl
      | none => exact .default rfl rfl

/-- So it is with a list, if the empty one counts as none. -/
theorem chosen_prefer (values : List String) (file : Option (List String))
    (default : List String) :
    Chosen (given? values) file default (prefer values file default) := by
  have heq : prefer values file default = (given? values <|> file).getD default := by
    unfold prefer given?
    by_cases h : values = []
    · rw [if_pos h, if_pos h]
      rfl
    · rw [if_neg h, if_neg h]
      rfl
  rw [heq]
  exact chosen_getD ..

/-- The two names of output modes are the only ones. -/
theorem ofLabel?_cases (output : String) :
    (output ≠ "human" ∧ output ≠ "json" ∧ OutputMode.ofLabel? output = none) ∨
      ∃ mode, mode.label = output ∧ OutputMode.ofLabel? output = some mode := by
  by_cases hhuman : output = "human"
  · exact Or.inr ⟨.human, hhuman.symm, by rw [hhuman]; rfl⟩
  · by_cases hjson : output = "json"
    · exact Or.inr ⟨.json, hjson.symm, by rw [hjson]; rfl⟩
    · refine Or.inl ⟨hhuman, hjson, List.find?_eq_none.mpr ?_⟩
      simp [OutputMode.label, Ne.symm hhuman, Ne.symm hjson]

/-- The output mode that a run with a configuration, or without one, is asked for. -/
def outputOf (given : Overrides) (found : Option ConfigFile) : String :=
  (given.output <|> found.bind (·.output)).getD "human"

section Config

variable {reader : ConfigFile.Format → String → Option ConfigFile} {cwd : String}
  {given : Overrides} {found : Option ConfigFile}

/-- What is wrong with the configuration is wrong with the run, whatever else is given. -/
theorem resolveFrom_of_error {p : Problem}
    (h : configAt files reader (rootPlace files (Settings.start cwd given.root)) = .error p) :
    resolveFrom files reader cwd given = .error p := by
  rw [resolveFrom, h]
  rfl

/-- With a configuration, or without one, only the output mode can be wrong. -/
theorem resolveFrom_of_config
    (h : configAt files reader (rootPlace files (Settings.start cwd given.root)) = .ok found) :
    resolveFrom files reader cwd given =
      match OutputMode.ofLabel? (outputOf given found) with
      | none => .error (.badOutput (outputOf given found))
      | some mode => .ok {
          root := String.ofList (pathOf (rootPlace files (Settings.start cwd given.root)))
          sources := prefer given.sources (found.bind (·.sources)) defaultSources
          typings := prefer given.typings (found.bind (·.typings)) []
          output := mode
          paths := (found.map (·.paths)).getD []
          configFound := found.isSome } := by
  rw [resolveFrom, h]
  cases found with
  | none => rfl
  | some config => rfl

end Config

/-- The result of a run is what comes of the place that its source tree begins at: the problem with
    the configuration there, whatever the command line says; or the problem that the output mode is
    neither of the two; or settings, each of which is chosen. -/
def Effective (files : Files) (reader : ConfigFile.Format → String → Option ConfigFile)
    (start : List FileName) (given : Overrides) (result : Except Problem Settings) : Prop :=
  ∃ place loaded, Begins files start place ∧ Loads files reader place loaded ∧
    (∀ p, loaded = .error p → result = .error p) ∧
    ∀ found, loaded = .ok found → ∃ output,
      Chosen given.output (found.bind (·.output)) "human" output ∧
      (∀ mode, result = .error (.badOutput mode) ↔
        mode = output ∧ output ≠ "human" ∧ output ≠ "json") ∧
      (output = "human" ∨ output = "json" →
        ∃ s, result = .ok s ∧ s.output.label = output ∧ Settles given place found s)

/-- **Settings are those of the command line, of the file found, and the defaults.**  Take any files
    and any reader of configuration files, and an absolute working directory.  Discovery starts at
    the normalized path of the given root, or of the working directory itself, if there are no
    backslashes in them; and the settings, or the problem with them, are what comes of the nearest
    marked place on the way up from there (`Effective`). -/
theorem resolveFrom_effective (files : Files)
    (reader : ConfigFile.Format → String → Option ConfigFile) (cwd : String) (given : Overrides)
    (habs : cwd.toList.head? = some '/') :
    ('\\' ∉ cwd.toList → '\\' ∉ (given.root.getD ".").toList →
      String.ofList (pathOf (Settings.start cwd given.root)) =
        normalize (String.ofList (FilePath.append cwd.toList (given.root.getD ".").toList))) ∧
    Effective files reader (Settings.start cwd given.root) given
      (resolveFrom files reader cwd given) := by
  refine ⟨fun hcwd hroot => ?_, _, _, begins_rootPlace files _, loads_configAt files reader _,
    fun p h => resolveFrom_of_error h, fun found h => ⟨outputOf given found, chosen_getD .., ?_⟩⟩
  · rw [pathOf_start habs hcwd hroot, ModulePath.normalize, String.toList_ofList]
  · rw [resolveFrom_of_config h]
    rcases ofLabel?_cases (outputOf given found) with
      ⟨hhuman, hjson, hlabel⟩ | ⟨mode, hmode, hlabel⟩
    · rw [hlabel]
      refine ⟨fun m => ⟨?_, ?_⟩, fun houtput => absurd houtput (not_or.mpr ⟨hhuman, hjson⟩)⟩
      · rintro ⟨⟩
        exact ⟨rfl, hhuman, hjson⟩
      · rintro ⟨rfl, -, -⟩
        rfl
    · rw [hlabel]
      refine ⟨fun m => ⟨by rintro ⟨⟩, ?_⟩, fun _ => ⟨_, rfl, hmode, ?_⟩⟩
      · rintro ⟨-, hhuman, hjson⟩
        cases mode with
        | human => exact absurd hmode.symm hhuman
        | json => exact absurd hmode.symm hjson
      · exact ⟨rfl, chosen_prefer .., chosen_prefer .., rfl, rfl⟩

/-- Two directories below a configuration file, and a repository further up. -/
def viewTree : FileTree :=
  .directory [(".git".toList, .empty), ("repo".toList, .directory
    [("vmreflect.yml".toList, .file (some "output: json\ntypings: [t/*.d.ts]\n")),
      ("app".toList, .directory [("views".toList, .empty)])])]

/-- A run far below the configuration file, with a root that goes up and down again. -/
theorem resolve_effective_views :
    "/repo/app/views".toList.head? = some '/' ∧
    String.ofList (pathOf (Settings.start "/repo/app/views" (some "./../x//..//"))) =
      normalize "/repo/app/views/./../x//..//" ∧
    Effective (.ofTree viewTree) ConfigFile.ofText? ["repo".toList, "app".toList]
      ⟨some "./../x//..//", ["b/*.ts"], [], none⟩
      (.ok ⟨"/repo", ["b/*.ts"], ["t/*.d.ts"], .json, [], true⟩) := by
  have habs : "/repo/app/views".toList.head? = some '/' := rfl
  obtain ⟨hstart, heffective⟩ := resolveFrom_effective (.ofTree viewTree) ConfigFile.ofText?
    "/repo/app/views" ⟨some "./../x//..//", ["b/*.ts"], [], none⟩ habs
  have hresult : resolveFrom (.ofTree viewTree) ConfigFile.ofText? "/repo/app/views"
      ⟨some "./../x//..//", ["b/*.ts"], [], none⟩ =
        .ok ⟨"/repo", ["b/*.ts"], ["t/*.d.ts"], .json, [], true⟩ := by
    decide +kernel
  exact ⟨habs, hstart (by decide) (by decide), hresult ▸ heffective⟩

end Settings

end DeclAtlas

import DeclAtlas.Module.Load
import DeclAtlas.Proofs.Ingestion
import Mathlib.Data.List.Basic

/-!
# Reading a source tree is reading its files one by one

What `Atlas.loadFrom` gives, for any disk: whatever the disk lists for a pattern, and whichever
of the files can be read.

* The files (`Disk.Lists`): those of each pattern, stably sorted (`Spot.SortedFrom`), one pattern
  after the other, and of those with the same components the first (`Spot.FirstsOf`).
* The registry: that of a session in which the files are read one by one
  (`Disk.sourceCall?`, `Disk.typingsCall?`), the tally counts its units, and every file that
  cannot be read is a problem (`Loaded.Accounts`).

A session cannot read a file under the empty path.  The tree can: where the root itself is the
file that a pattern stands for, the way from the root to it is empty, and the file is registered
under the point (`Atlas.root_file_is_registered`).  So the path that a file has in the session is
the point in this one case (`Spot.sessionPath`).

* **`Atlas.load_is_ingestion`** — all of this together, and the first bad pattern otherwise.
-/

namespace DeclAtlas

-- ── Order and duplicates ─────────────────────────────────────────────────────────

namespace Spot

theorem le_total (s t : Spot) : (s.le t || t.le s) = true := by
  have hswap : List.compareLex (List.compareLex compare) t.sortKey s.sortKey =
      (List.compareLex (List.compareLex compare) s.sortKey t.sortKey).swap :=
    Std.OrientedCmp.eq_swap
  unfold le
  rw [hswap]
  cases List.compareLex (List.compareLex compare) s.sortKey t.sortKey with
  | lt => rfl
  | eq => rfl
  | gt => rfl

theorem le_trans (s t u : Spot) (hst : s.le t = true) (htu : t.le u = true) : s.le u = true :=
  Std.TransCmp.isLE_trans hst htu

/-- The spots of a listing, sorted by their components; those that the order does not tell apart
    stay as they were listed. -/
structure SortedFrom (listed sorted : List Spot) : Prop where
  perm : sorted.Perm listed
  ordered : sorted.Pairwise fun s t => s.le t = true
  stable : ∀ run : List Spot, run.Pairwise (fun s t => s.le t = true) → run.Sublist listed →
    run.Sublist sorted

/-- Sorting a listing gives it in its order. -/
theorem sortedFrom_mergeSort (listed : List Spot) : SortedFrom listed (listed.mergeSort Spot.le) :=
  ⟨listed.mergeSort_perm _, List.pairwise_mergeSort le_trans le_total listed,
    fun _ hrun hsub => List.sublist_mergeSort le_trans le_total hrun hsub⟩

/-- The spots with components that no earlier one has, in their order. -/
structure FirstsOf (all kept : List Spot) : Prop where
  sublist : kept.Sublist all
  distinct : kept.Pairwise fun s t => s.components ≠ t.components
  first : ∀ before s after, all = before ++ s :: after →
    (∀ t ∈ before, t.components ≠ s.components) → s ∈ kept

/-- Of spots that occur more than once, the first ones are kept. -/
theorem firstsOf_firsts (all : List Spot) : FirstsOf all (firsts all) := by
  induction all with
  | nil =>
      refine ⟨List.Sublist.refl _, List.Pairwise.nil, ?_⟩
      intro before s after h
      exact absurd (List.append_eq_nil_iff.mp h.symm).2 (List.cons_ne_nil _ _)
  | cons s all ih =>
      rw [firsts]
      refine ⟨(List.filter_sublist.trans ih.sublist).cons_cons s, ?_, ?_⟩
      · refine List.pairwise_cons.mpr ⟨?_, ih.distinct.filter _⟩
        intro t ht
        exact (of_decide_eq_true (List.mem_filter.mp ht).2).symm
      · intro before t after h hfirst
        cases before with
        | nil =>
            obtain ⟨rfl, -⟩ := List.cons.inj h
            exact List.mem_cons_self ..
        | cons s' before =>
            obtain ⟨rfl, hall⟩ := List.cons.inj h
            obtain ⟨hs, hbefore⟩ := List.forall_mem_cons.mp hfirst
            refine List.mem_cons_of_mem _ (List.mem_filter.mpr ⟨?_, decide_eq_true hs.symm⟩)
            exact ih.first before t after hall hbefore

end Spot

-- ── What patterns stand for ──────────────────────────────────────────────────────

namespace Disk

variable (disk : Disk) (root : String)

/-- The listing of a pattern, seen from a directory, if the pattern can be read. -/
def listing? (pattern : String) : Option (List GlobEntry) :=
  disk.glob (FilePath.append root.toList pattern.toList)

/-- What could not be looked at for a pattern. -/
def stuck (pattern : String) : List Problem :=
  ((disk.listing? root pattern).getD []).filterMap problem?

/-- The files that patterns stand for: of each pattern a sorted run, and of all runs, one after
    the other, the files that are not there before. -/
def Lists (patterns : List String) (files : List Spot) : Prop :=
  ∃ runs, List.Forall₂ (fun pattern run => ∃ entries, disk.listing? root pattern = some entries ∧
      Spot.SortedFrom (disk.filesIn entries) run) patterns runs ∧
    Spot.FirstsOf runs.flatten files

variable {disk root}

/-- A pattern that is understood has a listing. -/
theorem listing_of_some {pattern : String} {entries : List GlobEntry}
    (h : disk.listing? root pattern = some entries) : disk.listing root pattern = .ok entries := by
  rw [listing, show disk.glob _ = some entries from h]

theorem listing_of_none {pattern : String} (h : disk.listing? root pattern = none) :
    disk.listing root pattern = .error (.badGlob pattern) := by
  rw [listing, show disk.glob _ = none from h]

/-- The first bad pattern stops the search. -/
theorem expand_of_bad {bad : String} (patterns : List String)
    (h : patterns.find? (fun p => (disk.listing? root p).isNone) = some bad) :
    disk.expand root patterns = .error (.badGlob bad) := by
  have hmap : patterns.mapM (disk.listing root) = .error (.badGlob bad) := by
    induction patterns with
    | nil => cases h
    | cons p ps ih =>
        rw [List.mapM_cons]
        cases hp : disk.listing? root p with
        | none =>
            rw [List.find?_cons_of_pos (by rw [hp]; rfl)] at h
            rw [listing_of_none hp, Option.some.inj h]
            rfl
        | some entries =>
            rw [List.find?_cons_of_neg (by rw [hp]; exact Bool.false_ne_true)] at h
            rw [listing_of_some hp, ih h]
            rfl
  rw [expand, hmap]
  rfl

/-- Good patterns have listings. -/
theorem mapM_listing (patterns : List String)
    (h : patterns.find? (fun p => (disk.listing? root p).isNone) = none) :
    ∃ listings, patterns.mapM (disk.listing root) = .ok listings ∧
      List.Forall₂ (fun p entries => disk.listing? root p = some entries) patterns listings := by
  induction patterns with
  | nil => exact ⟨[], rfl, .nil⟩
  | cons p ps ih =>
      cases hp : disk.listing? root p with
      | none =>
          rw [List.find?_cons_of_pos (by rw [hp]; rfl)] at h
          cases h
      | some entries =>
          rw [List.find?_cons_of_neg (by rw [hp]; exact Bool.false_ne_true)] at h
          obtain ⟨listings, hmap, hall⟩ := ih h
          refine ⟨entries :: listings, ?_, .cons hp hall⟩
          rw [List.mapM_cons, listing_of_some hp, hmap]
          rfl

/-- Good patterns stand for files. -/
theorem expand_of_good (patterns : List String)
    (h : patterns.find? (fun p => (disk.listing? root p).isNone) = none) :
    ∃ files, disk.expand root patterns = .ok (files, patterns.flatMap (disk.stuck root)) ∧
      disk.Lists root patterns files := by
  obtain ⟨listings, hmap, hall⟩ := mapM_listing patterns h
  have hstuck : listings.flatMap (·.filterMap problem?) = patterns.flatMap (disk.stuck root) := by
    clear h hmap
    induction hall with
    | nil => rfl
    | cons hp _ ih => rw [List.flatMap_cons, List.flatMap_cons, ih, stuck, hp, Option.getD_some]
  refine ⟨Spot.firsts (listings.flatMap fun es => (disk.filesIn es).mergeSort Spot.le), ?_,
    listings.map fun es => (disk.filesIn es).mergeSort Spot.le, ?_, ?_⟩
  · rw [expand, hmap, ← hstuck]
    rfl
  · rw [List.forall₂_map_right_iff]
    exact hall.imp fun p es hp => ⟨es, hp, Spot.sortedFrom_mergeSort _⟩
  · rw [← List.flatMap_def]
    exact Spot.firstsOf_firsts _

-- ── Files as calls ───────────────────────────────────────────────────────────────

end Disk

/-- The path of a file, seen from the root; its own path if no path leads there. -/
def Spot.pathFrom (root : String) (s : Spot) : String :=
  String.ofList ((FilePath.relative? s.path root.toList).getD s.path)

/-- The path under which a session reads a file: as seen from the root, but the root itself is a
    point. -/
def Spot.sessionPath (root : String) (s : Spot) : String :=
  if s.pathFrom root = "" then "." else s.pathFrom root

namespace Disk

variable (disk : Disk)

/-- The call that reads a source file under some path, if it can be read. -/
def sourceCall? (pathOf : Spot → String) (s : Spot) : Option Ingestion :=
  (disk.read s).toOption.map (.source (pathOf s))

/-- The call that reads a typings file, if it can be read. -/
def typingsCall? (s : Spot) : Option Ingestion := (disk.read s).toOption.map .typings

/-- The problem with a file that cannot be read. -/
def unreadable? (s : Spot) : Option Problem :=
  match disk.read s with
  | .ok _ => none
  | .error failure => some (.unreadable (String.ofList s.path) failure)

end Disk

/-- No file has the empty path in a session. -/
theorem Spot.sessionPath_ne_empty (root : String) (s : Spot) : s.sessionPath root ≠ "" := by
  unfold sessionPath
  split
  · decide
  · assumption

/-- The key of a file in the registry is the module path of its path in the session. -/
theorem Spot.ofFile_sessionPath (root : String) (s : Spot) :
    ModulePath.ofFile (s.sessionPath root) = FilePath.moduleKey root (String.ofList s.path) := by
  have hkey : FilePath.moduleKey root (String.ofList s.path) =
      ModulePath.ofFile (s.pathFrom root) := by
    rw [FilePath.moduleKey, FilePath.moduleKeyChars, ModulePath.ofFile, pathFrom,
      String.toList_ofList, String.toList_ofList]
  rw [hkey, sessionPath]
  split
  · rename_i hempty
    rw [hempty]
    decide
  · rfl

-- ── The account of a load ────────────────────────────────────────────────────────

/-- A unit that was read from a file. -/
def ModuleUnit.isSource (u : ModuleUnit) : Bool := u.source?.isSome

/-- An ambient module. -/
def ModuleUnit.isAmbient (u : ModuleUnit) : Bool := !u.isSource

namespace Registry

/-- How many units were read from files. -/
def sourceCount (r : Registry) : Nat := r.units.countP ModuleUnit.isSource

/-- How many units are ambient modules. -/
def ambientCount (r : Registry) : Nat := r.units.countP ModuleUnit.isAmbient

theorem sourceCount_add_ambientCount (r : Registry) :
    r.sourceCount + r.ambientCount = r.keys.length := by
  have hlen : r.keys.length = r.units.length := by
    rw [keys, units, List.length_map, List.length_map]
  rw [hlen, r.units.length_eq_countP_add_countP ModuleUnit.isSource, sourceCount, ambientCount]
  congr 2
  funext u
  cases h : u.isSource with
  | true => rw [ModuleUnit.isAmbient, h]; rfl
  | false => rw [ModuleUnit.isAmbient, h]; rfl

/-- A source module more is one more counted. -/
theorem sourceCount_push (r : Registry) (k : String) (u : ModuleUnit) :
    (r.push k u).sourceCount = r.sourceCount + if u.isSource then 1 else 0 := by
  rw [sourceCount, show (r.push k u).units = r.units ++ [u] from List.map_append,
    List.countP_append, List.countP_singleton, sourceCount]

theorem ambientCount_push (r : Registry) (k : String) (u : ModuleUnit) :
    (r.push k u).ambientCount = r.ambientCount + if u.isAmbient then 1 else 0 := by
  rw [ambientCount, show (r.push k u).units = r.units ++ [u] from List.map_append,
    List.countP_append, List.countP_singleton, ambientCount]

/-- Registering a module counts it if it says so. -/
theorem counts_insert (r : Registry) (s : SourceUnit) :
    (r.insert s).2.sourceCount = (r.sourceCount + if (r.insert s).1 then 1 else 0) ∧
      (r.insert s).2.ambientCount = r.ambientCount := by
  rcases r.insert_cases s with ⟨-, h⟩ | ⟨-, -, h⟩
  · rw [h]
    exact ⟨rfl, rfl⟩
  · rw [h]
    exact ⟨sourceCount_push r _ _, ambientCount_push r _ _⟩

/-- Typings count the ambient modules that they register. -/
theorem counts_addAmbients (ns : List NamespaceDecl) :
    ∀ (count : Nat) (r : Registry),
      (addAmbients count r ns).2.sourceCount = r.sourceCount ∧
        (addAmbients count r ns).2.ambientCount + count =
          r.ambientCount + (addAmbients count r ns).1 := by
  induction ns with
  | nil => exact fun _ _ => ⟨rfl, rfl⟩
  | cons n ns ih =>
      intro count r
      rw [addAmbients_cons]
      obtain ⟨hsource, hambient⟩ := ih (count + (r.addAmbient n).1) (r.addAmbient n).2
      rcases r.addAmbient_cases n with ⟨-, hadd⟩ | ⟨-, hadd⟩
      · rw [hadd] at hsource hambient ⊢
        exact ⟨hsource, hambient⟩
      · rw [hadd] at hsource hambient ⊢
        rw [sourceCount_push] at hsource
        rw [ambientCount_push] at hambient
        refine ⟨hsource, ?_⟩
        have hone : (if (ModuleUnit.ambient { n with name := unquoted n.name }).isAmbient
            then 1 else 0) = 1 := rfl
        rw [hone] at hambient
        omega

/-- Registering a module and reading its file are the same for the registry. -/
theorem addSource_eq_insert (r : Registry) {file : String} (hfile : file ≠ "")
    (text : String) :
    (r.addSource file text).2 = (r.insert (.ofText (ModulePath.ofFile file) text)).2 := by
  have hkey := ModulePath.ofFile_ne_empty file
  rcases r.addSource_cases file text with ⟨hempty | htaken, hadd⟩ | ⟨-, hfree, hadd⟩
  · exact absurd hempty hfile
  · rcases r.insert_cases (.ofText (ModulePath.ofFile file) text) with ⟨-, hins⟩ | ⟨-, hfree, -⟩
    · rw [hadd, hins]
    · rw [show r.lookup (ModulePath.ofFile file) = none from hfree] at htaken
      cases htaken
  · rcases r.insert_cases (.ofText (ModulePath.ofFile file) text) with
      ⟨hempty | htaken, -⟩ | ⟨-, -, hins⟩
    · exact absurd hempty hkey
    · rw [show r.lookup (SourceUnit.ofText (ModulePath.ofFile file) text).path = none from hfree]
        at htaken
      cases htaken
    · rw [hadd, hins]
      rfl

end Registry

namespace Loaded

/-- What has been read so far: the registry is that of the calls, the tally counts its units, and
    the problems are these. -/
structure Accounts (l : Loaded) (mappings : List PathMapping) (files : Nat)
    (calls : List Ingestion) (problems : List Problem) : Prop where
  mappings_eq : l.atlas.mappings = mappings
  registry_eq : l.atlas.registry = Registry.afterCalls calls
  files_eq : l.tally.files = files
  modules_eq : l.tally.modules = l.atlas.registry.sourceCount
  ambient_eq : l.tally.ambient = l.atlas.registry.ambientCount
  problems_eq : l.problems = problems

variable {disk : Disk} {l : Loaded} {mappings : List PathMapping} {files : Nat}
  {calls : List Ingestion} {problems : List Problem}

/-- At the start there is nothing to account for. -/
theorem accounts_start (mappings : List PathMapping) (files : Nat) (problems : List Problem) :
    (start mappings files problems).Accounts mappings files [] problems :=
  ⟨rfl, rfl, rfl, rfl, rfl, rfl⟩

/-- A file that cannot be read is one more problem. -/
theorem Accounts.report (h : l.Accounts mappings files calls problems) {s : Spot}
    {failure : ReadFailure} (hread : disk.read s = .error failure) :
    (l.report s failure).Accounts mappings files calls
      (problems ++ (disk.unreadable? s).toList) := by
  rw [Disk.unreadable?, hread]
  exact ⟨h.mappings_eq, h.registry_eq, h.files_eq, h.modules_eq, h.ambient_eq,
    congrArg (· ++ _) h.problems_eq⟩

/-- What registering a readable source file changes. -/
theorem addSource_of_read {s : Spot} {text : String} (root : String)
    (h : disk.read s = .ok text) :
    let added := l.atlas.registry.insert
      (.ofText (FilePath.moduleKey root (String.ofList s.path)) text)
    Loaded.addSource disk root l s =
      ⟨⟨added.2, l.atlas.mappings⟩,
        ⟨l.tally.files, l.tally.modules + (if added.1 then 1 else 0), l.tally.ambient⟩,
        l.problems⟩ := by
  rw [Loaded.addSource, h]
  rfl

/-- What a readable typings file changes. -/
theorem addTypings_of_read {s : Spot} {text : String} (h : disk.read s = .ok text) :
    let added := l.atlas.registry.addTypings text
    Loaded.addTypings disk l s =
      ⟨⟨added.2, l.atlas.mappings⟩,
        ⟨l.tally.files, l.tally.modules, l.tally.ambient + added.1⟩, l.problems⟩ := by
  rw [Loaded.addTypings, h]
  rfl

/-- A source file is one more call, if it can be read, and one more problem otherwise. -/
theorem Accounts.addSource (disk : Disk) (root : String) (s : Spot)
    (h : l.Accounts mappings files calls problems) :
    (Loaded.addSource disk root l s).Accounts mappings files
      (calls ++ (disk.sourceCall? (Spot.sessionPath root) s).toList)
      (problems ++ (disk.unreadable? s).toList) := by
  cases hread : disk.read s with
  | error failure =>
      have hcall : disk.sourceCall? (Spot.sessionPath root) s = none := by
        rw [Disk.sourceCall?, hread]
        rfl
      rw [hcall, Option.toList_none, List.append_nil, Loaded.addSource, hread]
      exact h.report hread
  | ok text =>
      have hinsert := l.atlas.registry.addSource_eq_insert (s.sessionPath_ne_empty root) text
      rw [s.ofFile_sessionPath] at hinsert
      obtain ⟨hsource, hambient⟩ := l.atlas.registry.counts_insert
        (.ofText (FilePath.moduleKey root (String.ofList s.path)) text)
      have hcall : disk.sourceCall? (Spot.sessionPath root) s =
          some (.source (s.sessionPath root) text) := by
        rw [Disk.sourceCall?, hread]
        rfl
      have hread' : disk.unreadable? s = none := by rw [Disk.unreadable?, hread]
      rw [hcall, hread', Option.toList_some, Option.toList_none, List.append_nil,
        addSource_of_read root hread]
      refine ⟨h.mappings_eq, ?_, h.files_eq, ?_, ?_, h.problems_eq⟩
      · dsimp only
        rw [Registry.afterCalls, List.foldl_append, ← hinsert, h.registry_eq]
        rfl
      · dsimp only
        rw [hsource, h.modules_eq]
      · dsimp only
        rw [hambient, h.ambient_eq]

/-- A typings file is one more call, if it can be read, and one more problem otherwise. -/
theorem Accounts.addTypings (s : Spot) (h : l.Accounts mappings files calls problems) :
    (Loaded.addTypings disk l s).Accounts mappings files
      (calls ++ (disk.typingsCall? s).toList) (problems ++ (disk.unreadable? s).toList) := by
  cases hread : disk.read s with
  | error failure =>
      have hcall : disk.typingsCall? s = none := by
        rw [Disk.typingsCall?, hread]
        rfl
      rw [hcall, Option.toList_none, List.append_nil, Loaded.addTypings, hread]
      exact h.report hread
  | ok text =>
      obtain ⟨hsource, hambient⟩ :=
        Registry.counts_addAmbients (Registry.ambientsOf text) 0 l.atlas.registry
      have hcall : disk.typingsCall? s = some (.typings text) := by
        rw [Disk.typingsCall?, hread]
        rfl
      have hread' : disk.unreadable? s = none := by rw [Disk.unreadable?, hread]
      rw [hcall, hread', Option.toList_some, Option.toList_none, List.append_nil,
        addTypings_of_read hread]
      rw [← Registry.addTypings_eq] at hsource hambient
      refine ⟨h.mappings_eq, ?_, h.files_eq, ?_, ?_, h.problems_eq⟩
      · dsimp only
        rw [Registry.afterCalls, List.foldl_append, h.registry_eq]
        rfl
      · dsimp only
        rw [hsource, h.modules_eq]
      · dsimp only
        rw [← Nat.add_zero (Registry.ambientCount _), hambient, h.ambient_eq]

/-- File after file, one more call or one more problem each. -/
theorem Accounts.foldl {step : Loaded → Spot → Loaded} {call? : Spot → Option Ingestion}
    (hstep : ∀ l calls problems s, Accounts l mappings files calls problems →
      (step l s).Accounts mappings files (calls ++ (call? s).toList)
        (problems ++ (disk.unreadable? s).toList)) (spots : List Spot) :
    ∀ l calls problems, Accounts l mappings files calls problems →
      (spots.foldl step l).Accounts mappings files (calls ++ spots.filterMap call?)
        (problems ++ spots.filterMap disk.unreadable?) := by
  induction spots with
  | nil =>
      intro l calls problems h
      simpa using h
  | cons s spots ih =>
      intro l calls problems h
      have hrest := ih _ _ _ (hstep l calls problems s h)
      rw [List.append_assoc, List.append_assoc] at hrest
      have hcons : ∀ {β : Type} (f : Spot → Option β),
          (s :: spots).filterMap f = (f s).toList ++ spots.filterMap f := by
        intro β f
        rw [List.filterMap_cons]
        cases f s with
        | none => rfl
        | some b => rfl
      rw [hcons, hcons]
      exact hrest

end Loaded

-- ── A load as a session ──────────────────────────────────────────────────────────

/-- The calls of a session that reads source files, each under some path, and then typings
    files.  Files that cannot be read are left out. -/
def Disk.session (disk : Disk) (pathOf : Spot → String) (sourceFiles typingFiles : List Spot) :
    List Ingestion :=
  sourceFiles.filterMap (disk.sourceCall? pathOf) ++ typingFiles.filterMap disk.typingsCall?

namespace Atlas

/-- What a load of good patterns gives for their files. -/
theorem accounts_loadFrom {disk : Disk} (root : String) {sources typings : List String}
    (mappings : List PathMapping) {sourceFiles typingFiles : List Spot}
    {sourceProblems typingProblems : List Problem}
    (hsources : disk.expand root sources = .ok (sourceFiles, sourceProblems))
    (htypings : disk.expand root typings = .ok (typingFiles, typingProblems)) :
    ∃ l, loadFrom disk root sources typings mappings = .ok l ∧
      l.Accounts mappings (sourceFiles.length + typingFiles.length)
        (disk.session (Spot.sessionPath root) sourceFiles typingFiles)
        (sourceProblems ++ typingProblems ++ sourceFiles.filterMap disk.unreadable? ++
          typingFiles.filterMap disk.unreadable?) := by
  refine ⟨typingFiles.foldl (Loaded.addTypings disk)
    (sourceFiles.foldl (Loaded.addSource disk root)
      (.start mappings (sourceFiles.length + typingFiles.length)
        (sourceProblems ++ typingProblems))), ?_, ?_⟩
  · rw [loadFrom, hsources, htypings]
    rfl
  · have hread := Loaded.Accounts.foldl
      (fun _ _ _ s h => Loaded.Accounts.addSource disk root s h) sourceFiles _ _ _
      (Loaded.accounts_start mappings (sourceFiles.length + typingFiles.length)
        (sourceProblems ++ typingProblems))
    exact Loaded.Accounts.foldl (fun _ _ _ s h => h.addTypings s) typingFiles _ _ _ hread

/-- **A load is a session that reads the files one by one.**  If some pattern is bad, the first of
    them is the problem, those of sources before those of typings.  Otherwise, what was read is
    what a session with the same mappings reads: first the source files that can be read, in their
    order, each under its path as seen from the root (under the point if it is the root), then
    the typings files that can be read.  The tally has the number of files, of the units from
    files and of ambient units, and the two kinds make up the registry.  The problems are what
    could not be looked at, for sources and then for typings, and the files that could not be
    read, source files and then typings files, in their order. -/
theorem load_is_ingestion (disk : Disk) (root : String) (sources typings : List String)
    (mappings : List PathMapping) :
    let bad := (sources ++ typings).find? fun p => (disk.listing? root p).isNone
    (∃ p, bad = some p ∧
      loadFrom disk root sources typings mappings = .error (.badGlob p)) ∨
    (bad = none ∧ ∃ l sourceFiles typingFiles,
      loadFrom disk root sources typings mappings = .ok l ∧
      disk.Lists root sources sourceFiles ∧ disk.Lists root typings typingFiles ∧
      l.atlas.mappings = mappings ∧
      l.atlas.registry =
        Registry.afterCalls (disk.session (Spot.sessionPath root) sourceFiles typingFiles) ∧
      l.tally.files = sourceFiles.length + typingFiles.length ∧
      l.tally.modules = l.atlas.registry.sourceCount ∧
      l.tally.ambient = l.atlas.registry.ambientCount ∧
      l.tally.modules + l.tally.ambient = l.atlas.registry.keys.length ∧
      l.problems =
        sources.flatMap (disk.stuck root) ++ typings.flatMap (disk.stuck root) ++
          sourceFiles.filterMap disk.unreadable? ++ typingFiles.filterMap disk.unreadable?) := by
  intro bad
  have hbad : bad = (sources.find? fun p => (disk.listing? root p).isNone).or
      (typings.find? fun p => (disk.listing? root p).isNone) := List.find?_append
  cases hs : sources.find? fun p => (disk.listing? root p).isNone with
  | some p =>
      rw [hs] at hbad
      refine Or.inl ⟨p, hbad, ?_⟩
      rw [loadFrom, Disk.expand_of_bad sources hs]
      rfl
  | none =>
      rw [hs, Option.none_or] at hbad
      obtain ⟨sourceFiles, hsources, hlisted⟩ := Disk.expand_of_good sources hs
      cases ht : typings.find? fun p => (disk.listing? root p).isNone with
      | some p =>
          refine Or.inl ⟨p, hbad.trans ht, ?_⟩
          rw [loadFrom, hsources, Disk.expand_of_bad typings ht]
          rfl
      | none =>
          obtain ⟨typingFiles, htypings, hlisted'⟩ := Disk.expand_of_good typings ht
          obtain ⟨l, hl, h⟩ := accounts_loadFrom root mappings hsources htypings
          refine Or.inr ⟨hbad.trans ht, l, sourceFiles, typingFiles, hl, hlisted, hlisted',
            h.mappings_eq, h.registry_eq, h.files_eq, h.modules_eq, h.ambient_eq, ?_,
            h.problems_eq⟩
          rw [h.modules_eq, h.ambient_eq]
          exact l.atlas.registry.sourceCount_add_ambientCount

/-- A tree with a single file. -/
def loneTree : FileTree := .directory [("a.ts".toList, .file (some "export class A {}"))]

/-- Where its file is found. -/
def loneSpot : Spot := ⟨"/a.ts".toList, ["a.ts".toList]⟩

/-- Where the root is the file that the pattern stands for, the file's path from the root is empty,
    and a session reads no file under this path; but the load registers it. -/
theorem root_file_is_registered :
    ∃ l, load loneTree "/a.ts" ["/a.ts"] [] [] = .ok l ∧
      (Disk.ofTree loneTree).Lists "/a.ts" ["/a.ts"] [loneSpot] ∧
      loneSpot.pathFrom "/a.ts" = "" ∧
      l.atlas.registry.keys = ["."] ∧ l.tally.modules = 1 ∧
      (Registry.afterCalls
        ((Disk.ofTree loneTree).session (Spot.pathFrom "/a.ts") [loneSpot] [])).keys = [] := by
  have hsources : (Disk.ofTree loneTree).expand "/a.ts" ["/a.ts"] = .ok ([loneSpot], []) := by
    decide +kernel
  have hgood : (["/a.ts"].find? fun p => ((Disk.ofTree loneTree).listing? "/a.ts" p).isNone) =
      none := by decide +kernel
  obtain ⟨files, hfiles, hlisted⟩ := Disk.expand_of_good _ hgood
  obtain rfl : files = [loneSpot] :=
    congrArg Prod.fst (Except.ok.inj (hfiles.symm.trans hsources))
  obtain ⟨l, hl, h⟩ := accounts_loadFrom "/a.ts" [] hsources
    (show (Disk.ofTree loneTree).expand "/a.ts" [] = .ok ([], []) from rfl)
  refine ⟨l, hl, hlisted, by decide +kernel, ?_, ?_, by decide +kernel⟩
  · rw [h.registry_eq]
    decide +kernel
  · rw [h.modules_eq, h.registry_eq]
    decide +kernel

end Atlas

end DeclAtlas

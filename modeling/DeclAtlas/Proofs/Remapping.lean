import DeclAtlas.Proofs.Inheritance

/-!
# Where path mappings are asked

Path mappings rewrite the targets of imports.  A search comes to imports on many ways: from the
start, behind an export that names no module, for a base of a declaration, and for each part of a
member path.  But it comes to those of registered units only, and everything else that is looked
up (targets of exports, module paths in questions, index modules) is looked up as it is written.

So two remappings that agree on the targets of the imports in a registry give the same hops from
every place that a search can come to, and

* **`Registry.answers_of_agreeOnImports`** — all questions have the same answers under both.
-/

namespace DeclAtlas

namespace SearchGraph

variable {α κ β : Type} {g : SearchGraph α κ β}

/-- What edges do not leave is true of every node that can be reached. -/
theorem Reaches.stays (inside : α → Prop) {a c : α} (h : g.Reaches a c)
    (hstay : ∀ a c, inside a → g.Leads a c → inside c) (hin : inside a) : inside c := by
  induction h with
  | refl => exact hin
  | tail _ hstep ih => exact hstay _ _ ih hstep

/-- A search depends on the next nodes of those nodes only that it can come to. -/
theorem guarded_congr_next [DecidableEq κ] (inside : α → Prop) {next' : α → List α}
    (hstay : ∀ a c, inside a → g.Leads a c → inside c)
    (hnext : ∀ a, inside a → next' a = g.next a) (n : Nat) :
    ∀ (a : α) (seen : List κ), inside a →
      SearchGraph.guarded { g with next := next' } n a seen = g.guarded n a seen := by
  induction n with
  | zero => intro a seen _; rfl
  | succ n ih =>
      intro a seen hin
      by_cases h : g.dead a = true ∨ g.mark a ∈ seen
      · rw [guarded_skip h]
        exact guarded_skip (g := { g with next := next' }) h
      · cases hb : g.success? a with
        | some b =>
            rw [guarded_success h hb]
            exact guarded_success (g := { g with next := next' }) h hb
        | none =>
            rw [guarded_follow h hb]
            refine (guarded_follow (g := { g with next := next' }) h hb).trans ?_
            show firstSuccess _ (next' a) (g.mark a :: seen) = _
            rw [hnext a hin]
            refine firstSuccess_congr (P := fun _ => True) (g.next a) (fun _ _ _ _ => trivial) ?_ _
              trivial
            intro c hc t _
            exact ih c t (hstay a c hin (leads_of_follow h hb hc))

end SearchGraph

/-- Two remappings agree on what the imports of elements in a unit are aimed at. -/
def ModuleUnit.AgreeOnImports (remap remap' : String → String) (u : ModuleUnit) : Prop :=
  ∀ s, u = .source s → ∀ i ∈ s.imports, i.elements ≠ [] →
    remap (ModulePath.target s.path i.specifier) = remap' (ModulePath.target s.path i.specifier)

namespace Registry

variable {r : Registry} {remap remap' : String → String}

/-- Two remappings agree on what the imports of elements in registered units are aimed at. -/
def AgreeOnImports (r : Registry) (remap remap' : String → String) : Prop :=
  ∀ u ∈ r.units, u.AgreeOnImports remap remap'

-- ── One hop ──────────────────────────────────────────────────────────────────────

/-- An import leads to the same place, since its target is the same under both. -/
theorem importHop?_eq {s : SourceUnit}
    (hs : (ModuleUnit.source s).AgreeOnImports remap remap') (name : String) :
    r.importHop? remap s name = r.importHop? remap' s name := by
  unfold importHop?
  cases hfind : s.importOf? (withoutTypeArgs name) with
  | none => rfl
  | some found =>
      obtain ⟨i, e⟩ := found
      obtain ⟨before, after, himports, -, before', after', helements, -⟩ := importOf?_iff.mp hfind
      have hi : i ∈ s.imports := by simp [himports]
      have hne : i.elements ≠ [] := by simp [helements]
      show (r.lookup (remap _)).map _ = (r.lookup (remap' _)).map _
      rw [hs s rfl i hi hne]

/-- From a place in such a unit, the hops are the same. -/
theorem hops_eq {p : Place} (hp : p.unit.AgreeOnImports remap remap') :
    r.hops remap p = r.hops remap' p := by
  obtain ⟨unit, name, mode⟩ := p
  cases unit with
  | ambient n => rfl
  | source s =>
      by_cases hname : name = ""
      · rw [hops, hops]
        simp only [if_pos hname]
      · cases mode with
        | imports => rw [hops_imports hname, hops_imports hname, importHop?_eq hp]
        | exports => rw [hops_exports hname, hops_exports hname]

namespace AgreeOnImports

variable (h : r.AgreeOnImports remap remap')

include h

/-- A hop leads to a registered unit or stays where it is. -/
theorem hop {p q : Place} (hp : p.unit.AgreeOnImports remap remap') (hq : r.Hop remap p q) :
    q.unit.AgreeOnImports remap remap' := by
  cases hq with
  | imported _ _ _ hu => exact h _ (mem_units_of_lookup hu)
  | everything _ _ _ _ _ hu => exact h _ (mem_units_of_lookup hu)
  | elementOf _ _ _ _ _ _ hu => exact h _ (mem_units_of_lookup hu)
  | ownElement => exact hp

-- ── Names and members ────────────────────────────────────────────────────────────

/-- A name stands for the same declaration, seen from a unit that agrees. -/
theorem resolve_eq {u : ModuleUnit} (hu : u.AgreeOnImports remap remap') (name : String)
    (mode : SearchMode) : r.resolve remap u name mode = r.resolve remap' u name mode := by
  have hgraph : r.places remap' = { r.places remap with next := r.hops remap' } := rfl
  have hsearch := SearchGraph.guarded_congr_next (g := r.places remap)
    (fun p => p.unit.AgreeOnImports remap remap')
    (fun _ _ hp hstep => h.hop hp (hop_iff_leads.mpr hstep)) (fun _ hp => (hops_eq hp).symm)
    r.searchBudget ⟨u, name, mode⟩ [] hu
  rw [resolve, resolve, hgraph, hsearch]

/-- What a name resolves to is in a unit that a search can come to. -/
theorem of_resolve {u : ModuleUnit} (hu : u.AgreeOnImports remap remap') {name : String}
    {mode : SearchMode} {d : Resolved} (hd : r.resolve remap u name mode = some d) :
    d.unit.AgreeOnImports remap remap' := by
  obtain ⟨q, hq, -, hhit⟩ := SearchGraph.reaches_of_guarded _ _ _ d hd
  have hin : q.unit.AgreeOnImports remap remap' :=
    hq.stays (fun p => p.unit.AgreeOnImports remap remap')
      (fun _ _ hp hstep => h.hop hp (hop_iff_leads.mpr hstep)) hu
  obtain ⟨-, hd⟩ := Option.ite_none_left_eq_some.mp hhit
  obtain ⟨x, -, rfl⟩ := Option.map_eq_some_iff.mp hd
  exact hin

theorem resolveIn_eq (module name : String) :
    r.resolveIn remap module name = r.resolveIn remap' module name := by
  unfold resolveIn
  exact Option.bind_congr fun u hu => h.resolve_eq (h u (mem_units_of_lookup hu)) name .imports

/-- A declaration has the same bases. -/
theorem bases_eq {d : Resolved} (hd : d.unit.AgreeOnImports remap remap') :
    r.bases remap d = r.bases remap' d := by
  unfold bases
  refine congrArg (List.filterMap · d.declaration.bases) (funext fun x => ?_)
  exact h.resolve_eq hd x.name .imports

theorem base {d b : Resolved} (hd : d.unit.AgreeOnImports remap remap')
    (hb : b ∈ r.bases remap d) : b.unit.AgreeOnImports remap remap' := by
  obtain ⟨x, -, hres⟩ := List.mem_filterMap.mp hb
  exact h.of_resolve hd hres

/-- A member name stands for the same member. -/
theorem findMember_eq {d : Resolved} (hd : d.unit.AgreeOnImports remap remap') (name : String) :
    r.findMember remap d name = r.findMember remap' d name := by
  have hgraph : r.heritage remap' name =
      { r.heritage remap name with next := r.bases remap' } := rfl
  have hsearch := SearchGraph.guarded_congr_next (g := r.heritage remap name)
    (fun d => d.unit.AgreeOnImports remap remap')
    (fun _ _ hd hstep => h.base hd hstep.2.2) (fun _ hd => (h.bases_eq hd).symm)
    r.heritageBudget d [] hd
  rw [findMember, findMember, hgraph, hsearch]

/-- The member that a name stands for is declared in a unit that a search can come to. -/
theorem of_findMember {d : Resolved} (hd : d.unit.AgreeOnImports remap remap') {name : String}
    {f : FoundMember} (hf : r.findMember remap d name = some f) :
    f.owner.unit.AgreeOnImports remap remap' := by
  obtain ⟨b, hb, -, hfound⟩ := SearchGraph.reaches_of_guarded _ _ _ f hf
  rw [success?_heritage] at hfound
  obtain ⟨m, -, rfl⟩ := Option.map_eq_some_iff.mp hfound
  exact hb.stays (fun d => d.unit.AgreeOnImports remap remap')
    (fun _ _ hd hstep => h.base hd hstep.2.2) hd

omit h in
/-- Members of several declarations are collected alike if those of each are. -/
theorem collectAll_eq {n : Nat} (ds : List Resolved)
    (hstep : ∀ d ∈ ds, ∀ w, r.collect remap n false d w = r.collect remap' n false d w) :
    ∀ w, r.collectAll remap n ds w = r.collectAll remap' n ds w := by
  induction ds with
  | nil => intro w; rw [collectAll_nil, collectAll_nil]
  | cons d ds ih =>
      intro w
      rw [collectAll_cons, collectAll_cons, hstep d (List.mem_cons_self ..)]
      exact ih (fun b hb => hstep b (List.mem_cons_of_mem d hb)) _

/-- Members are collected alike, with those of all bases, by induction on the budget. -/
theorem collect_eq (n : Nat) :
    ∀ (isRoot : Bool) (d : Resolved) (w : Collection), d.unit.AgreeOnImports remap remap' →
      r.collect remap n isRoot d w = r.collect remap' n isRoot d w := by
  induction n with
  | zero => intro isRoot d w _; rfl
  | succ n ih =>
      intro isRoot d w hd
      by_cases hseen : d.id ∈ w.seen
      · rw [collect_seen hseen, collect_seen hseen]
      · rw [collect_new hseen, collect_new hseen, ← h.bases_eq hd]
        refine collectAll_eq _ ?_ _
        intro b hb v
        exact ih false b v (h.base hd hb)

theorem members_eq {d : Resolved} (hd : d.unit.AgreeOnImports remap remap') :
    r.members remap d = r.members remap' d := by
  rw [members, members, h.collect_eq _ _ _ _ hd]

-- ── Member paths ─────────────────────────────────────────────────────────────────

/-- A path of members leads to the same declaration, one segment after the other. -/
theorem follow_eq (segments : List String) :
    ∀ {d : Resolved}, d.unit.AgreeOnImports remap remap' →
      r.follow remap d segments = r.follow remap' d segments := by
  induction segments with
  | nil => intro d _; rfl
  | cons segment rest ih =>
      intro d hd
      by_cases hlast : rest = []
      · rw [hlast, follow_last, follow_last, h.findMember_eq hd]
      · rw [follow_cons hlast, follow_cons hlast, ← h.findMember_eq hd]
        refine Option.bind_congr fun f hf => Option.bind_congr fun name _ => ?_
        have howner := h.of_findMember hd hf
        rw [← h.resolve_eq howner]
        exact Option.bind_congr fun b hb => ih (h.of_resolve howner hb)

theorem resolvePath_eq {u : ModuleUnit} (hu : u.AgreeOnImports remap remap')
    (typeName path : String) :
    r.resolvePath remap u typeName path = r.resolvePath remap' u typeName path := by
  rw [resolvePath, resolvePath, ← h.resolve_eq hu]
  exact Option.bind_congr fun d hd => h.follow_eq _ (h.of_resolve hu hd)

end AgreeOnImports

/-- **Only import targets are remapped.**  Two remappings that agree on what the imports of elements
    in registered units are aimed at give the same answers to all questions, whatever they do with
    other paths: which declaration a name stands for, seen from a unit or from a module path, which
    member a name stands for, which members there are, and where a member path ends.

    A question may be asked from any unit on whose imports they agree, as they do on those of every
    registered one. -/
theorem answers_of_agreeOnImports (r : Registry) (remap remap' : String → String)
    (h : ∀ u ∈ r.units, u.AgreeOnImports remap remap') :
    (∀ u, u.AgreeOnImports remap remap' → ∀ name mode,
      r.resolve remap u name mode = r.resolve remap' u name mode) ∧
    (∀ module name, r.resolveIn remap module name = r.resolveIn remap' module name) ∧
    (∀ d, d.unit.AgreeOnImports remap remap' →
      (∀ name, r.findMember remap d name = r.findMember remap' d name) ∧
      r.members remap d = r.members remap' d) ∧
    (∀ u, u.AgreeOnImports remap remap' → ∀ typeName path,
      r.resolvePath remap u typeName path = r.resolvePath remap' u typeName path) := by
  have h : r.AgreeOnImports remap remap' := h
  refine ⟨fun u hu => h.resolve_eq hu, h.resolveIn_eq, ?_, fun u hu => h.resolvePath_eq hu⟩
  intro d hd
  exact ⟨h.findMember_eq hd, h.members_eq hd⟩

/-- A module that imports a name from a path, and passes on what is under the same path. -/
def twofoldModule : SourceUnit :=
  ⟨"app", [importOne "~/base" "Base" none, passOn "~/base"]⟩

/-- Modules under the path as it is written, and under what it is remapped to. -/
def twofold : Registry :=
  afterCalls [.unit twofoldModule, .unit ⟨"~/base", [.declaration (bareClass "Base")]⟩,
    .unit ⟨"src/base", [.declaration (bareClass "Base")]⟩]

/-- The path of the import is remapped, and that of the export is not, although it is the same;
    what becomes of other paths has no influence. -/
theorem twofold_answers :
    let remap := fun m => if m = "~/base" then "src/base" else m
    let remap' := fun m => if m = "~/base" then "src/base" else "elsewhere"
    (∀ u ∈ twofold.units, u.AgreeOnImports remap remap') ∧
      (∀ mode, twofold.resolve remap (.source twofoldModule) "Base" mode =
        twofold.resolve remap' (.source twofoldModule) "Base" mode) ∧
      (twofold.resolve remap (.source twofoldModule) "Base" .imports).map (·.unit.key) =
        some "src/base" ∧
      (twofold.resolve remap (.source twofoldModule) "Base" .exports).map (·.unit.key) =
        some "~/base" := by
  intro remap remap'
  have hspecifier : ∀ u ∈ twofold.units, ∀ i ∈ u.statements.filterMap Statement.import?,
      i.specifier = "~/base" := by decide
  have h : ∀ u ∈ twofold.units, u.AgreeOnImports remap remap' := by
    rintro u hu s rfl i hi -
    rw [hspecifier _ hu i hi]
    rfl
  exact ⟨h, (answers_of_agreeOnImports twofold remap remap' h).1 _ (h _ (List.mem_cons_self ..))
    "Base", by decide, by decide⟩

end Registry

end DeclAtlas

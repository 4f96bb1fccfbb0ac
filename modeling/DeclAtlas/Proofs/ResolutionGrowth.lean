import DeclAtlas.Proofs.LookupStability
import DeclAtlas.Proofs.Resolution

/-!
# More modules lose no resolution

A module that is read later can make another export win: of the places that hops lead to, the
search takes the first that declares the name, and there are more of them now.  It cannot make a
name resolve to nothing.  Without typings, what a path stands for it goes on standing for
(`Registry.Keeps`); so every hop stays a hop, and the places that could be reached still can be.

* **`Registry.resolve_survives_sources`** — whatever modules are read from files afterwards, a
  name that resolves to something goes on doing so, and to the same if its own unit declares it.

Typings are left out with reason: an ambient module may take a path over from an index module
(`Registry.Overtakes`), and what was reached through the index module is lost.
-/

namespace DeclAtlas

/-- A call that registers a module read from a file. -/
def Ingestion.OfFile : Ingestion → Prop
  | .source _ _ => True
  | .unit _ => True
  | .typings _ => False

namespace Registry

variable {r r' : Registry} {remap : String → String} {u : ModuleUnit}

-- ── What paths stand for ─────────────────────────────────────────────────────────

/-- Every path that stands for a unit goes on standing for it. -/
def Keeps (r r' : Registry) : Prop := ∀ m u, r.lookup m = some u → r'.lookup m = some u

/-- A module read from a file takes no path over. -/
theorem not_overtakes_of_file {call : Ingestion} (hcall : call.OfFile) (m : String) :
    ¬ ∃ n, r.Overtakes call m n := by
  rintro ⟨n, hn⟩
  obtain ⟨text, rfl, -⟩ := hn.declared
  exact hcall

theorem keeps_ingest {call : Ingestion} (hcall : call.OfFile) (r : Registry) :
    r.Keeps (r.ingest call) := by
  intro m u hu
  rcases lookup_eq_some_iff.mp hu with hf | ⟨hm, hf⟩
  · exact (grows_ingest r call).lookup_of_find? hf
  · exact (grows_ingest r call).lookup_of_index hf
      (find?_ingest_of_not_overtakes call hm hf (not_overtakes_of_file hcall m))

theorem keeps_foldl_ingest (calls : List Ingestion) (hcalls : ∀ call ∈ calls, call.OfFile) :
    ∀ r : Registry, r.Keeps (calls.foldl ingest r) := by
  induction calls with
  | nil => exact fun _ _ _ hu => hu
  | cons call calls ih =>
      obtain ⟨hcall, hrest⟩ := List.forall_mem_cons.mp hcalls
      intro r m u hu
      exact ih hrest (r.ingest call) m u (keeps_ingest hcall r m u hu)

/-- What calls can build, calls can go on building. -/
theorem Reachable.foldl_ingest (hr : r.Reachable) (calls : List Ingestion) :
    (calls.foldl ingest r).Reachable := by
  obtain ⟨before, rfl⟩ := hr
  exact ⟨before ++ calls, List.foldl_append⟩

/-- A registry that grows loses no unit. -/
theorem Grows.mem_units (h : Grows r r') (hu : u ∈ r.units) : u ∈ r'.units :=
  (h.entries_prefix.map Prod.snd).subset hu

-- ── Hops ─────────────────────────────────────────────────────────────────────────

/-- A hop depends on the registry only through the module that it leads to. -/
theorem Keeps.hop (h : r.Keeps r') {p q : Place} (hop : r.Hop remap p q) : r'.Hop remap p q := by
  cases hop with
  | imported hne hhit hi hu => exact .imported hne hhit hi (h _ _ hu)
  | everything hne hhit hx hc hm hu => exact .everything hne hhit hx hc hm (h _ _ hu)
  | elementOf hne hhit hx hc he hm hu => exact .elementOf hne hhit hx hc he hm (h _ _ hu)
  | ownElement hne hhit hx hc he hm => exact .ownElement hne hhit hx hc he hm

/-- Whatever a search could reach, it reaches still. -/
theorem Keeps.hopsTo (h : r.Keeps r') {p q : Place} (hops : r.HopsTo remap p q) :
    r'.HopsTo remap p q := by
  induction hops with
  | refl => exact .refl
  | tail _ hop ih => exact ih.tail (h.hop hop)

-- ── Names ────────────────────────────────────────────────────────────────────────

/-- What a unit declares itself, the name stands for, whatever else is registered. -/
theorem resolve_of_declared {name : String} {d : Declaration} (hne : name ≠ "")
    (hd : u.declaration? name = some d) (remap : String → String) (mode : SearchMode) :
    r.resolve remap u name mode = some ⟨u, d⟩ := by
  have hlive : ¬ ((r.places remap).dead ⟨u, name, mode⟩ = true ∨
      (r.places remap).mark ⟨u, name, mode⟩ ∈ []) := by
    simpa [places] using hne
  have hhit : (r.places remap).success? ⟨u, name, mode⟩ = some ⟨u, d⟩ := by
    show Place.hit? ⟨u, name, mode⟩ = some ⟨u, d⟩
    rw [Place.hit?, if_neg hne, hd]
    rfl
  rw [resolve, searchBudget, SearchGraph.guarded_success hlive hhit]

/-- The empty name stands for nothing. -/
theorem name_ne_of_resolve {name : String} {mode : SearchMode} {d : Resolved}
    (h : r.resolve remap u name mode = some d) : name ≠ "" := by
  rintro rfl
  rw [resolve_empty] at h
  exact nomatch h

/-- **More modules lose no resolution.**  In a registry that calls can build, take a name that
    resolves to something, seen from a registered unit.  Whatever modules from files are
    registered afterwards, the unit is still registered, and the name still resolves to
    something.  If the unit declares the name itself, it resolves to this declaration before and
    after. -/
theorem resolve_survives_sources (hr : r.Reachable) (remap : String → String) (hu : u ∈ r.units)
    (name : String) (mode : SearchMode) {d : Resolved}
    (hd : r.resolve remap u name mode = some d) (calls : List Ingestion)
    (hcalls : ∀ call ∈ calls, call.OfFile) :
    let r' := calls.foldl ingest r
    u ∈ r'.units ∧
    (∃ d', r'.resolve remap u name mode = some d') ∧
    (∀ own, u.declaration? name = some own →
      d = ⟨u, own⟩ ∧ r'.resolve remap u name mode = some d) := by
  intro r'
  have hu' : u ∈ r'.units := (grows_foldl_ingest calls r).mem_units hu
  refine ⟨hu', ?_, ?_⟩
  · obtain ⟨q, hq, -, hhit, -, -⟩ := hit_of_resolve hu hd
    exact resolve_of_hopsTo (hr.foldl_ingest calls).coherent hu'
      ((keeps_foldl_ingest calls hcalls r).hopsTo hq) hhit
  · intro own hown
    have hne := name_ne_of_resolve hd
    obtain rfl : d = ⟨u, own⟩ :=
      Option.some.inj (hd.symm.trans (resolve_of_declared hne hown remap mode))
    exact ⟨rfl, resolve_of_declared hne hown remap mode⟩

/-- A hub that passes on two modules, of which only the second is there. -/
def halfDiamond : Registry :=
  afterCalls [.unit hubModule, .unit ⟨"right", [.declaration (bareClass "Base")]⟩]

/-- The module that comes later declares a class of the same name, and its export wins. -/
theorem halfDiamond_base_survives :
    let later : List Ingestion := [.unit ⟨"left", [.declaration (bareClass "Base")]⟩]
    ((halfDiamond.resolve id (.source hubModule) "Base" .exports).map (·.unit.key) =
        some "right") ∧
      (∃ d', (later.foldl ingest halfDiamond).resolve id (.source hubModule) "Base" .exports =
        some d') ∧
      (((later.foldl ingest halfDiamond).resolve id (.source hubModule) "Base" .exports).map
        (·.unit.key) = some "left") := by
  intro later
  have hd : halfDiamond.resolve id (.source hubModule) "Base" .exports =
      some ⟨.source ⟨"right", [.declaration (bareClass "Base")]⟩, bareClass "Base"⟩ := rfl
  have hlater : ∀ call ∈ later, call.OfFile := by
    intro call hcall
    rw [List.mem_singleton.mp hcall]
    trivial
  exact ⟨rfl, (resolve_survives_sources ⟨_, rfl⟩ id (List.mem_cons_self ..) "Base" .exports hd
    later hlater).2.1, rfl⟩

end Registry

end DeclAtlas

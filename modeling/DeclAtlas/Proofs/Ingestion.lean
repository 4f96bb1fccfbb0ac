import DeclAtlas.Module.Registry
import Mathlib.Data.List.Nodup
import Mathlib.Logic.Relation

/-!
# The registry only grows

Every registry that can be built is built by calls: files read, modules registered, typings
read.  Each call puts fresh entries behind the ones that are there (`Registry.grows_ingest`),
so three facts hold of every registry that calls can build (`Registry.Coherent`):

* no key is taken twice;
* a unit is registered under its own key;
* no module read from a file has the empty key.

The answers of the calls tell exactly what was added (`Registry.ingestion_is_append_only`).
-/

namespace DeclAtlas

/-- A call that may add to a registry. -/
inductive Ingestion
  /-- A file and its text. -/
  | source (file text : String)
  /-- A module that has been read elsewhere. -/
  | unit (s : SourceUnit)
  /-- A text of ambient modules. -/
  | typings (text : String)

namespace Registry

/-- The registry after a call. -/
def ingest (r : Registry) : Ingestion → Registry
  | .source file text => (r.addSource file text).2
  | .unit s => (r.insert s).2
  | .typings text => (r.addTypings text).2

/-- The registry after some calls, in their order. -/
def afterCalls (calls : List Ingestion) : Registry := calls.foldl ingest empty

/-- Some calls build this registry. -/
def Reachable (r : Registry) : Prop := ∃ calls, afterCalls calls = r

/-- A registry in which a key stands for one unit, and this unit has the key. -/
structure Coherent (r : Registry) : Prop where
  keys_nodup : r.keys.Nodup
  key_eq : ∀ k u, (k, u) ∈ r.entries → u.key = k
  source_key_ne : ∀ k s, (k, ModuleUnit.source s) ∈ r.entries → k ≠ ""

-- ── One entry more ───────────────────────────────────────────────────────────────

/-- One entry more, behind the others: a unit under its own key, which is fresh. -/
def Appends (r r' : Registry) : Prop :=
  ∃ k u, r' = r.push k u ∧ k ∉ r.keys ∧ u.key = k ∧ (∀ s, u = .source s → k ≠ "")

/-- Any number of entries more, one after the other. -/
def Grows : Registry → Registry → Prop := Relation.ReflTransGen Appends

/-- A fresh unit under its own key keeps a registry coherent. -/
theorem Appends.coherent {r r' : Registry} (h : Appends r r') (hc : r.Coherent) :
    r'.Coherent := by
  obtain ⟨k, u, rfl, hfresh, hkey, hsource⟩ := h
  refine ⟨?_, ?_, ?_⟩
  · show (List.map Prod.fst (r.entries ++ [(k, u)])).Nodup
    rw [List.map_append, List.nodup_append]
    refine ⟨hc.keys_nodup, List.nodup_singleton k, ?_⟩
    intro a ha b hb hab
    have hak : a = k := hab.trans (List.mem_singleton.mp hb)
    exact hfresh (hak ▸ ha)
  · intro k' u' hmem
    rcases List.mem_append.mp hmem with hold | hnew
    · exact hc.key_eq k' u' hold
    · obtain ⟨rfl, rfl⟩ := Prod.mk.inj (List.mem_singleton.mp hnew)
      exact hkey
  · intro k' s hmem
    rcases List.mem_append.mp hmem with hold | hnew
    · exact hc.source_key_ne k' s hold
    · obtain ⟨rfl, rfl⟩ := Prod.mk.inj (List.mem_singleton.mp hnew)
      exact hsource s rfl

theorem Grows.coherent {r r' : Registry} (h : Grows r r') (hc : r.Coherent) : r'.Coherent := by
  induction h with
  | refl => exact hc
  | tail _ hstep ih => exact hstep.coherent ih

/-- What grows keeps its entries in front. -/
theorem Grows.entries_prefix {r r' : Registry} (h : Grows r r') : r.entries <+: r'.entries := by
  induction h with
  | refl => exact List.prefix_refl _
  | tail _ hstep ih =>
      obtain ⟨k, u, rfl, -⟩ := hstep
      exact ih.trans (List.prefix_append _ _)

/-- Under a key that was taken there is still the same. -/
theorem Grows.find?_eq {r r' : Registry} (h : Grows r r') {k : String} (hk : k ∈ r.keys) :
    r'.find? k = r.find? k := by
  obtain ⟨u, hu⟩ := Option.isSome_iff_exists.mp (mem_keys_iff.mp hk)
  rw [hu]
  exact h.entries_prefix.lookup_eq_some hu

-- ── Calls ────────────────────────────────────────────────────────────────────────

/-- Reading a file adds its module or nothing. -/
theorem grows_addSource (r : Registry) (file text : String) :
    Grows r (r.addSource file text).2 := by
  rcases r.addSource_cases file text with ⟨-, h⟩ | ⟨-, hl, h⟩
  · rw [h]
    exact .refl
  · rw [h]
    refine .single ⟨_, _, rfl, not_mem_keys_of_lookup hl, rfl, ?_⟩
    intro s _
    exact ModulePath.ofFile_ne_empty file

/-- Registering a module adds it or nothing. -/
theorem grows_insert (r : Registry) (s : SourceUnit) : Grows r (r.insert s).2 := by
  rcases r.insert_cases s with ⟨-, h⟩ | ⟨hne, hl, h⟩
  · rw [h]
    exact .refl
  · rw [h]
    exact .single ⟨_, _, rfl, not_mem_keys_of_lookup hl, rfl, fun _ _ => hne⟩

/-- An ambient module is added under its name without quotes, if that is fresh. -/
theorem grows_addAmbient (r : Registry) (n : NamespaceDecl) : Grows r (r.addAmbient n).2 := by
  rcases r.addAmbient_cases n with ⟨-, h⟩ | ⟨hk, h⟩
  · rw [h]
    exact .refl
  · rw [h]
    exact .single ⟨_, _, rfl, hk, rfl, fun _ hs => nomatch hs⟩

/-- Registers ambient modules one after the other, and goes on counting. -/
def addAmbients (count : Nat) (r : Registry) (ns : List NamespaceDecl) : Nat × Registry :=
  ns.foldl (fun acc n => (acc.1 + (acc.2.addAmbient n).1, (acc.2.addAmbient n).2)) (count, r)

/-- The namespaces and modules declared at the top of a text. -/
def ambientsOf (text : String) : List NamespaceDecl :=
  (parse text).filterMap Statement.namespace?

/-- The typings of a text are the ambient modules in it, one after the other. -/
theorem addTypings_eq (r : Registry) (text : String) :
    r.addTypings text = addAmbients 0 r (ambientsOf text) := rfl

/-- The first of them is counted, and then the others. -/
theorem addAmbients_cons (count : Nat) (r : Registry) (n : NamespaceDecl)
    (ns : List NamespaceDecl) :
    addAmbients count r (n :: ns) =
      addAmbients (count + (r.addAmbient n).1) (r.addAmbient n).2 ns := rfl

/-- Ambient modules are added one after the other. -/
theorem grows_addAmbients (ns : List NamespaceDecl) :
    ∀ (count : Nat) (r : Registry), Grows r (addAmbients count r ns).2 := by
  induction ns with
  | nil => intro count r; exact .refl
  | cons n ns ih =>
      intro count r
      rw [addAmbients_cons]
      exact (grows_addAmbient r n).trans (ih _ _)

/-- Whatever a call does, the registry grows. -/
theorem grows_ingest (r : Registry) (call : Ingestion) : Grows r (r.ingest call) := by
  cases call with
  | source file text => exact grows_addSource r file text
  | unit s => exact grows_insert r s
  | typings text => exact grows_addAmbients _ 0 r

theorem grows_foldl_ingest (calls : List Ingestion) :
    ∀ r : Registry, Grows r (calls.foldl ingest r) := by
  induction calls with
  | nil => intro r; exact .refl
  | cons call calls ih =>
      intro r
      exact (grows_ingest r call).trans (ih (r.ingest call))

/-- The empty registry is coherent. -/
theorem coherent_empty : empty.Coherent :=
  ⟨List.nodup_nil, fun _ _ h => absurd h List.not_mem_nil, fun _ _ h => absurd h List.not_mem_nil⟩

/-- What is built by calls is coherent. -/
theorem coherent_afterCalls (calls : List Ingestion) : (afterCalls calls).Coherent :=
  (grows_foldl_ingest calls empty).coherent coherent_empty

/-- Every registry that calls can build is coherent. -/
theorem Reachable.coherent {r : Registry} (h : r.Reachable) : r.Coherent := by
  obtain ⟨calls, rfl⟩ := h
  exact coherent_afterCalls calls

/-- In a coherent registry, units with the same key are one unit. -/
theorem Coherent.eq_of_key_eq {r : Registry} (hc : r.Coherent) {u v : ModuleUnit}
    (hu : u ∈ r.units) (hv : v ∈ r.units) (h : u.key = v.key) : u = v := by
  obtain ⟨⟨k, u'⟩, hmu, rfl⟩ := List.mem_map.mp hu
  obtain ⟨⟨l, v'⟩, hmv, rfl⟩ := List.mem_map.mp hv
  have hkl : k = l := by
    rw [← hc.key_eq k u' hmu, ← hc.key_eq l v' hmv]
    exact h
  exact congrArg Prod.snd (List.inj_on_of_nodup_map hc.keys_nodup hmu hmv hkl)

-- ── What the calls answer ────────────────────────────────────────────────────────

/-- The names that are not taken, each where it first occurs. -/
def freshNames (taken names : List String) : List String :=
  (names.filter (· ∉ taken)).eraseDups

/-- A name that is taken is not fresh. -/
theorem freshNames_cons_of_mem {taken : List String} {k : String} (ks : List String)
    (h : k ∈ taken) : freshNames taken (k :: ks) = freshNames taken ks := by
  unfold freshNames
  rw [List.filter_cons_of_neg (by simpa using h)]

/-- A fresh name is taken from then on. -/
theorem freshNames_cons_of_not_mem {taken : List String} {k : String} (ks : List String)
    (h : k ∉ taken) : freshNames taken (k :: ks) = k :: freshNames (taken ++ [k]) ks := by
  unfold freshNames
  rw [List.filter_cons_of_pos (by simpa using h), List.eraseDups_cons, List.filter_filter]
  congr 3
  funext l
  by_cases hl : l = k
  · simp [hl]
  · simp [hl]

/-- Ambient modules bring in their fresh names as keys, and are counted by them. -/
theorem addAmbients_keys (ns : List NamespaceDecl) :
    ∀ (count : Nat) (r : Registry),
      (addAmbients count r ns).2.keys =
        r.keys ++ freshNames r.keys (ns.map fun n => unquoted n.name) ∧
      (addAmbients count r ns).1 =
        count + (freshNames r.keys (ns.map fun n => unquoted n.name)).length := by
  induction ns with
  | nil =>
      intro count r
      exact ⟨(List.append_nil _).symm, rfl⟩
  | cons n ns ih =>
      intro count r
      rw [addAmbients_cons, List.map_cons]
      rcases r.addAmbient_cases n with ⟨hk, h⟩ | ⟨hk, h⟩
      · rw [h, freshNames_cons_of_mem _ hk]
        exact ih count r
      · rw [h, freshNames_cons_of_not_mem _ hk]
        obtain ⟨hkeys, hcount⟩ :=
          ih (count + 1) (r.push (unquoted n.name) (.ambient { n with name := unquoted n.name }))
        rw [keys_push] at hkeys hcount
        refine ⟨hkeys.trans ?_, hcount.trans ?_⟩
        · rw [List.append_assoc, List.singleton_append]
        · rw [List.length_cons]
          omega

/-- A fresh key goes to the first of the ambient modules that bring it in. -/
theorem addAmbients_first {k : String} {n : NamespaceDecl} (ns : List NamespaceDecl) :
    ∀ (count : Nat) (r : Registry), k ∉ r.keys →
      ns.find? (fun n => unquoted n.name == k) = some n →
      (addAmbients count r ns).2.find? k = some (.ambient { n with name := k }) := by
  induction ns with
  | nil => intro count r _ h; exact nomatch h
  | cons m ns ih =>
      intro count r hk h
      rw [addAmbients_cons]
      by_cases hm : unquoted m.name = k
      · subst hm
        obtain rfl : m = n := by simpa using h
        rcases r.addAmbient_cases m with ⟨hin, -⟩ | ⟨hout, hadd⟩
        · exact absurd hin hk
        · rw [hadd]
          rw [← find?_push_of_not_mem hout]
          exact (grows_addAmbients ns _ _).find?_eq (by simp)
      · have hrest : ns.find? (fun n => unquoted n.name == k) = some n := by
          simpa [hm] using h
        refine ih _ _ ?_ hrest
        rcases r.addAmbient_cases m with ⟨-, hadd⟩ | ⟨-, hadd⟩
        · rw [hadd]
          exact hk
        · rw [hadd]
          simpa [Ne.symm hm] using hk

/-- One entry more makes another registry. -/
theorem push_ne (r : Registry) (k : String) (u : ModuleUnit) : r.push k u ≠ r := by
  intro h
  have hlen : (r.push k u).entries.length = r.entries.length := by rw [h]
  simp [push] at hlen

/-- A file's module is answered exactly if it was put behind all others. -/
theorem addSource_some_iff (r : Registry) (file text : String) (s : SourceUnit) :
    (r.addSource file text).1 = some s ↔
      (r.addSource file text).2 = r.push (ModulePath.ofFile file) (.source s) := by
  rcases r.addSource_cases file text with ⟨-, h⟩ | ⟨-, -, h⟩
  · rw [h]
    constructor
    · intro hs
      exact nomatch hs
    · intro hr
      exact absurd hr.symm (push_ne _ _ _)
  · rw [h]
    simp [push]

/-- A file that is not registered leaves the registry as it was, and any other does not. -/
theorem addSource_none_iff (r : Registry) (file text : String) :
    (r.addSource file text).1 = none ↔ (r.addSource file text).2 = r := by
  rcases r.addSource_cases file text with ⟨-, h⟩ | ⟨-, -, h⟩
  · rw [h]
    exact ⟨fun _ => rfl, fun _ => rfl⟩
  · rw [h]
    constructor
    · intro hs
      exact nomatch hs
    · intro hr
      exact absurd hr (push_ne _ _ _)

/-- A module is registered if there is one key more. -/
theorem insert_true_iff (r : Registry) (s : SourceUnit) :
    (r.insert s).1 = true ↔ (r.insert s).2.keys.length = r.keys.length + 1 := by
  rcases r.insert_cases s with ⟨-, h⟩ | ⟨-, -, h⟩
  · rw [h]
    simp
  · rw [h]
    simp

/-- If it is not, nothing has changed. -/
theorem insert_false_iff (r : Registry) (s : SourceUnit) :
    (r.insert s).1 = false ↔ (r.insert s).2 = r := by
  rcases r.insert_cases s with ⟨-, h⟩ | ⟨-, -, h⟩
  · rw [h]
    exact ⟨fun _ => rfl, fun _ => rfl⟩
  · rw [h]
    constructor
    · intro hs
      exact nomatch hs
    · intro hr
      exact absurd hr (push_ne _ _ _)

/-- **The registry is append-only.**  After any calls, the registry is coherent, and every
    further call keeps the keys in front and the units under them.  Reading a file answers a
    module exactly if this module was put behind all others, and nothing exactly if nothing
    changed; registering a module says so in the same way.  Typings answer by how much the
    registry grew: by the names of their ambient modules, without quotes, that were not taken,
    and each of these stands for the first ambient module of its name. -/
theorem ingestion_is_append_only (calls : List Ingestion) :
    let r := afterCalls calls
    r.Coherent ∧
    (∀ call, r.keys <+: (r.ingest call).keys ∧
      ∀ k ∈ r.keys, (r.ingest call).find? k = r.find? k) ∧
    (∀ file text,
      (∀ s, (r.addSource file text).1 = some s ↔
        (r.addSource file text).2 = r.push (ModulePath.ofFile file) (.source s)) ∧
      ((r.addSource file text).1 = none ↔ (r.addSource file text).2 = r)) ∧
    (∀ s,
      ((r.insert s).1 = true ↔ (r.insert s).2.keys.length = r.keys.length + 1) ∧
      ((r.insert s).1 = false ↔ (r.insert s).2 = r)) ∧
    (∀ text,
      (r.addTypings text).2.keys.length = r.keys.length + (r.addTypings text).1 ∧
      (r.addTypings text).2.keys =
        r.keys ++ freshNames r.keys ((ambientsOf text).map fun n => unquoted n.name) ∧
      ∀ k n, k ∉ r.keys → (ambientsOf text).find? (fun n => unquoted n.name == k) = some n →
        (r.addTypings text).2.find? k = some (.ambient { n with name := k })) := by
  intro r
  refine ⟨coherent_afterCalls calls, ?_, ?_, ?_, ?_⟩
  · intro call
    have hgrows := grows_ingest r call
    exact ⟨hgrows.entries_prefix.map Prod.fst, fun k hk => hgrows.find?_eq hk⟩
  · intro file text
    exact ⟨addSource_some_iff r file text, addSource_none_iff r file text⟩
  · intro s
    exact ⟨insert_true_iff r s, insert_false_iff r s⟩
  · intro text
    rw [addTypings_eq]
    obtain ⟨hkeys, hcount⟩ := addAmbients_keys (ambientsOf text) 0 r
    refine ⟨?_, hkeys, ?_⟩
    · rw [hkeys, hcount, List.length_append, Nat.zero_add]
    · intro k n hk hn
      exact addAmbients_first (ambientsOf text) 0 r hk hn

end Registry

end DeclAtlas

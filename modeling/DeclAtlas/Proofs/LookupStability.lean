import DeclAtlas.Proofs.Ingestion

/-!
# What later calls change about a lookup

A module path stands for the unit under it or, if there is none, for the index module of the
directory of this name.  Files and modules are only registered under paths that stand for
nothing, so no later one can come between a path and its index module.  Ambient modules ask for
less: only the very key has to be free.  So there is one way in which a path can come to stand
for another unit (`Registry.Overtakes`): a text of ambient modules declares a module under the
path of a directory whose index module is registered.

* **`Registry.lookup_changes_iff_overtaken`** — a call changes what a path stands for exactly in
  this way, and a module that came behind the index module of its path is ambient.

The second half rests on an invariant of all calls: no module read from a file stands behind the
index module of its path (`Registry.SourcesFirst`).
-/

namespace DeclAtlas.Registry

variable {r : Registry} {m : String} {u : ModuleUnit}

/-- A call takes a module path over from the index module that it stands for: nothing is
    registered under the path, its index module is, and the call brings in a text that declares
    an ambient module of this name, the first of which is `n`. -/
structure Overtakes (r : Registry) (call : Ingestion) (m : String) (n : NamespaceDecl) : Prop where
  vacant : r.find? m = none
  index : (r.find? (indexKey m)).isSome
  declared : ∃ text, call = .typings text ∧
    (ambientsOf text).find? (fun n => unquoted n.name == m) = some n

-- ── Paths that stand for an index module ─────────────────────────────────────────

/-- What is found under a path itself comes first. -/
theorem lookup_of_find? (h : r.find? m = some u) : r.lookup m = some u :=
  lookup_eq_some_iff.mpr (Or.inl h)

/-- What is registered under its path stays what the path stands for. -/
theorem Grows.lookup_of_find? {r' : Registry} (h : Grows r r') (hu : r.find? m = some u) :
    r'.lookup m = some u := by
  have hm : m ∈ r.keys := mem_keys_iff.mpr (by rw [hu]; rfl)
  exact Registry.lookup_of_find? ((h.find?_eq hm).trans hu)

/-- An index module is what its path stands for as long as nothing is under the path. -/
theorem Grows.lookup_of_index {r' : Registry} (h : Grows r r')
    (hu : r.find? (indexKey m) = some u) (hm : r'.find? m = none) : r'.lookup m = some u := by
  have hi : indexKey m ∈ r.keys := mem_keys_iff.mpr (by rw [hu]; rfl)
  exact lookup_eq_some_iff.mpr (Or.inr ⟨hm, (h.find?_eq hi).trans hu⟩)

/-- A call changes nothing, registers one module under a path that stands for nothing, or brings
    in ambient modules. -/
theorem ingest_cases (r : Registry) (call : Ingestion) :
    r.ingest call = r ∨
    (∃ k s, r.lookup k = none ∧ r.ingest call = r.push k (.source s)) ∨
    ∃ text, call = .typings text := by
  cases call with
  | source file text =>
      rcases r.addSource_cases file text with ⟨-, heq⟩ | ⟨-, hl, heq⟩
      · exact Or.inl (congrArg Prod.snd heq)
      · exact Or.inr (Or.inl ⟨_, _, hl, congrArg Prod.snd heq⟩)
  | unit s =>
      rcases r.insert_cases s with ⟨-, heq⟩ | ⟨-, hl, heq⟩
      · exact Or.inl (congrArg Prod.snd heq)
      · exact Or.inr (Or.inl ⟨_, _, hl, congrArg Prod.snd heq⟩)
  | typings text => exact Or.inr (Or.inr ⟨text, rfl⟩)

/-- Ambient modules bring in no other keys than their names. -/
theorem find?_addAmbients_of_not_declared {ns : List NamespaceDecl} (count : Nat)
    (hm : r.find? m = none) (h : ns.find? (fun n => unquoted n.name == m) = none) :
    (addAmbients count r ns).2.find? m = none := by
  rw [find?_eq_none_iff, (addAmbients_keys ns count r).1, List.mem_append, not_or]
  refine ⟨find?_eq_none_iff.mp hm, ?_⟩
  intro hmem
  have hfresh := (List.mem_filter.mp (List.mem_eraseDups.mp hmem)).1
  obtain ⟨n, hn, hname⟩ := List.mem_map.mp hfresh
  exact List.find?_eq_none.mp h n hn (by simpa using hname)

/-- Where a call does not take a path over from its index module, nothing comes under the
    path. -/
theorem find?_ingest_of_not_overtakes (call : Ingestion) (hm : r.find? m = none)
    (hu : r.find? (indexKey m) = some u) (h : ¬ ∃ n, r.Overtakes call m n) :
    (r.ingest call).find? m = none := by
  rcases r.ingest_cases call with heq | ⟨k, s, hk, heq⟩ | ⟨text, rfl⟩
  · rw [heq]
    exact hm
  · -- the new module's path stood for nothing, and this one stands for its index module
    rw [heq, find?_push_of_ne, hm]
    rintro rfl
    rw [(lookup_eq_none_iff.mp hk).2] at hu
    exact nomatch hu
  · refine find?_addAmbients_of_not_declared 0 hm ?_
    show (ambientsOf text).find? (fun n => unquoted n.name == m) = none
    cases hn : (ambientsOf text).find? (fun n => unquoted n.name == m) with
    | none => rfl
    | some n => exact absurd ⟨n, hm, by rw [hu]; rfl, text, rfl, hn⟩ h

/-- A call that takes a path over registers the ambient module under it. -/
theorem Overtakes.find?_ingest {call : Ingestion} {n : NamespaceDecl}
    (h : r.Overtakes call m n) :
    (r.ingest call).find? m = some (.ambient { n with name := m }) := by
  obtain ⟨text, rfl, hn⟩ := h.declared
  exact addAmbients_first (ambientsOf text) 0 r (find?_eq_none_iff.mp h.vacant) hn

/-- The index of a path is another path. -/
theorem indexKey_ne (m : String) : indexKey m ≠ m := by
  intro h
  have hlen := congrArg String.length h
  rw [indexKey, String.length_append] at hlen
  have h6 : "/index".length = 6 := rfl
  omega

/-- The ambient module that takes a path over is not the index module. -/
theorem Overtakes.lookup_ne {call : Ingestion} {n : NamespaceDecl} (hc : r.Coherent)
    (h : r.Overtakes call m n) (hu : r.lookup m = some u) :
    u ≠ .ambient { n with name := m } := by
  rintro rfl
  rcases lookup_eq_some_iff.mp hu with hf | ⟨-, hf⟩
  · rw [h.vacant] at hf
    exact nomatch hf
  · exact indexKey_ne m (hc.key_eq _ _ (mem_entries_of_find? hf)).symm

-- ── No source module behind its index module ─────────────────────────────────────

/-- No module read from a file came behind the index module of its path. -/
def SourcesFirst (r : Registry) : Prop :=
  ∀ k s, r.find? k = some (.source s) → r.keys.idxOf k ≤ r.keys.idxOf (indexKey k)

/-- One entry more, under a fresh key.  If it is a module read from a file, its index module
    must not be there. -/
theorem SourcesFirst.push {k : String} (h : r.SourcesFirst) (hk : k ∉ r.keys)
    (hu : ∀ s, u = .source s → indexKey k ∉ r.keys) : (r.push k u).SourcesFirst := by
  intro l s hl
  rw [keys_push]
  by_cases hkl : k = l
  · subst hkl
    rw [find?_push_of_not_mem hk] at hl
    have hindex := hu s (Option.some.inj hl)
    rw [List.idxOf_append_of_notMem hk, List.idxOf_append_of_notMem hindex, List.idxOf_cons_self]
    exact Nat.le_add_right _ _
  · rw [find?_push_of_ne hkl] at hl
    have hmem : l ∈ r.keys := mem_keys_iff.mpr (by rw [hl]; rfl)
    rw [List.idxOf_append_of_mem hmem]
    by_cases hindex : indexKey l ∈ r.keys
    · rw [List.idxOf_append_of_mem hindex]
      exact h l s hl
    · rw [List.idxOf_append_of_notMem hindex]
      exact Nat.le_add_right_of_le List.idxOf_le_length

/-- Typings come behind all sources that they would hide. -/
theorem SourcesFirst.addAmbients (ns : List NamespaceDecl) :
    ∀ (count : Nat) (r : Registry), r.SourcesFirst →
      (addAmbients count r ns).2.SourcesFirst := by
  induction ns with
  | nil => intro count r h; exact h
  | cons n ns ih =>
      intro count r h
      rw [addAmbients_cons]
      refine ih _ _ ?_
      rcases r.addAmbient_cases n with ⟨-, heq⟩ | ⟨hk, heq⟩
      · rw [heq]
        exact h
      · rw [heq]
        exact h.push hk fun s hs => nomatch hs

/-- Every call keeps the order. -/
theorem SourcesFirst.ingest (h : r.SourcesFirst) (call : Ingestion) :
    (r.ingest call).SourcesFirst := by
  rcases r.ingest_cases call with heq | ⟨k, s, hk, heq⟩ | ⟨text, rfl⟩
  · rw [heq]
    exact h
  · rw [heq]
    exact h.push (not_mem_keys_of_lookup hk)
      fun _ _ => find?_eq_none_iff.mp (lookup_eq_none_iff.mp hk).2
  · exact SourcesFirst.addAmbients (ambientsOf text) 0 r h

theorem sourcesFirst_foldl_ingest (calls : List Ingestion) :
    ∀ r : Registry, r.SourcesFirst → (calls.foldl Registry.ingest r).SourcesFirst := by
  induction calls with
  | nil => intro r h; exact h
  | cons call calls ih => intro r h; exact ih (r.ingest call) (h.ingest call)

theorem sourcesFirst_afterCalls (calls : List Ingestion) : (afterCalls calls).SourcesFirst :=
  sourcesFirst_foldl_ingest calls empty fun _ _ h => nomatch h

-- ── Exactly when a lookup changes ────────────────────────────────────────────────

/-- **A lookup changes only if an index module is overtaken.**  After any calls, if a path stands
    for a unit, it stands for the same unit after one more call, except exactly if this call takes
    the path over from its index module; then an ambient module comes under the path, and the path
    stands for it.  So a unit that came behind the index module of its key is ambient. -/
theorem lookup_changes_iff_overtaken (calls : List Ingestion) :
    let r := afterCalls calls
    (∀ call m u, r.lookup m = some u →
      ((r.ingest call).lookup m = some u ↔ ¬ ∃ n, r.Overtakes call m n) ∧
      ∀ n, r.Overtakes call m n →
        r.find? (indexKey m) = some u ∧ m ∉ r.keys ∧
        (r.ingest call).find? m = some (.ambient { n with name := m }) ∧
        (r.ingest call).lookup m = some (.ambient { n with name := m })) ∧
    (∀ k u, r.find? k = some u → r.keys.idxOf (indexKey k) < r.keys.idxOf k →
      ∃ n, u = .ambient n) := by
  intro r
  refine ⟨?_, ?_⟩
  · intro call m u hu
    have hafter : ∀ n, r.Overtakes call m n →
        (r.ingest call).lookup m = some (.ambient { n with name := m }) :=
      fun n hn => lookup_of_find? hn.find?_ingest
    refine ⟨⟨?_, ?_⟩, ?_⟩
    · rintro hsame ⟨n, hn⟩
      exact hn.lookup_ne (coherent_afterCalls calls) hu
        (Option.some.inj (hsame.symm.trans (hafter n hn)))
    · intro hnot
      rcases lookup_eq_some_iff.mp hu with hf | ⟨hm, hf⟩
      · exact (grows_ingest r call).lookup_of_find? hf
      · exact (grows_ingest r call).lookup_of_index hf
          (find?_ingest_of_not_overtakes call hm hf hnot)
    · intro n hn
      refine ⟨?_, find?_eq_none_iff.mp hn.vacant, hn.find?_ingest, hafter n hn⟩
      rcases lookup_eq_some_iff.mp hu with hf | ⟨-, hf⟩
      · exact absurd hf (by rw [hn.vacant]; exact fun h => nomatch h)
      · exact hf
  · intro k u hu hlt
    cases u with
    | ambient n => exact ⟨n, rfl⟩
    | source s =>
        have hle := sourcesFirst_afterCalls calls k s hu
        exact absurd hlt (Nat.not_lt.mpr hle)

/-- A text that declares an ambient module. -/
def libraryTypings : String := "declare module 'lib' {}"

/-- Typings take the path of a directory over from the index module that was read before. -/
theorem lib_overtaken :
    ∃ n, (afterCalls [.unit ⟨"lib/index", []⟩]).Overtakes (.typings libraryTypings) "lib" n ∧
      (afterCalls [.unit ⟨"lib/index", []⟩]).lookup "lib" = some (.source ⟨"lib/index", []⟩) ∧
      ((afterCalls [.unit ⟨"lib/index", []⟩]).ingest (.typings libraryTypings)).lookup "lib" =
        some (.ambient { n with name := "lib" }) := by
  have hn : ((ambientsOf libraryTypings).find? (fun n => unquoted n.name == "lib")).isSome := by
    decide +kernel
  obtain ⟨n, hn⟩ := Option.isSome_iff_exists.mp hn
  have hover : (afterCalls [.unit ⟨"lib/index", []⟩]).Overtakes (.typings libraryTypings) "lib" n :=
    ⟨rfl, rfl, _, rfl, hn⟩
  have hlookup : (afterCalls [.unit ⟨"lib/index", []⟩]).lookup "lib" =
      some (.source ⟨"lib/index", []⟩) := rfl
  obtain ⟨-, hafter⟩ := (lookup_changes_iff_overtaken [.unit ⟨"lib/index", []⟩]).1
    (.typings libraryTypings) "lib" _ hlookup
  exact ⟨n, hover, hlookup, (hafter n hover).2.2.2⟩

end DeclAtlas.Registry

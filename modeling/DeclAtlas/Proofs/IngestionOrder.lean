import DeclAtlas.Module.Resolution
import DeclAtlas.Proofs.LookupStability
import Mathlib.Data.List.Induction
import Mathlib.Tactic.FinCases

/-!
# The order of reading

Where keys collide, the first module to come keeps the key, and the order of the calls decides
which one that is.  Where they do not (`Registry.Independent`), every call registers all that it
brings in, in whatever state it finds the registry (`Registry.ingest_entries`), so that another
order of the calls only gives another order of the same entries.

Questions do not see this order.  They ask the registry what a path stands for, and how large it
is, for their budgets: registries that agree on both (`Registry.Alike`) give the same answers.

* **`Registry.answers_ignore_order`** — independent calls in any order register everything, and
  all questions have the same answers after them.
-/

namespace DeclAtlas

-- ── What a call brings in ────────────────────────────────────────────────────────

/-- The entry of an ambient module, under its name without quotes. -/
def NamespaceDecl.entry (n : NamespaceDecl) : String × ModuleUnit :=
  (Registry.unquoted n.name, .ambient { n with name := Registry.unquoted n.name })

/-- The entries that a call brings in as long as nothing is in their way. -/
def Ingestion.entries : Ingestion → List (String × ModuleUnit)
  | .source file text =>
    [(ModulePath.ofFile file, .source (.ofText (ModulePath.ofFile file) text))]
  | .unit s => [(s.path, .source s)]
  | .typings text => (Registry.ambientsOf text).map NamespaceDecl.entry

/-- The keys that a call brings in. -/
def Ingestion.keys (call : Ingestion) : List String := call.entries.map Prod.fst

/-- A call does not name a file or module by the empty path. -/
def Ingestion.Named : Ingestion → Prop
  | .source file _ => file ≠ ""
  | .unit s => s.path ≠ ""
  | .typings _ => True

namespace Registry

variable {r r' : Registry} {remap : String → String}

/-- The answer of a call says that all that it brings in was registered. -/
def AnswersAll (r : Registry) : Ingestion → Prop
  | .source file text =>
    (r.addSource file text).1 = some (.ofText (ModulePath.ofFile file) text)
  | .unit s => (r.insert s).1 = true
  | .typings text => (r.addTypings text).1 = (ambientsOf text).length

/-- Calls that cannot get in each other's way: no two of the keys that they bring in are equal,
    and none is the index key of another. -/
structure Independent (calls : List Ingestion) : Prop where
  named : ∀ call ∈ calls, call.Named
  keys_nodup : (calls.flatMap Ingestion.keys).Nodup
  not_index : ∀ k ∈ calls.flatMap Ingestion.keys, indexKey k ∉ calls.flatMap Ingestion.keys

-- ── One call ─────────────────────────────────────────────────────────────────────

/-- A path stands for nothing if neither it nor its index is taken. -/
theorem lookup_eq_none_of_not_mem {k : String} (hk : k ∉ r.keys) (hi : indexKey k ∉ r.keys) :
    r.lookup k = none :=
  lookup_eq_none_iff.mpr ⟨find?_eq_none_iff.mpr hk, find?_eq_none_iff.mpr hi⟩

/-- Ambient modules under fresh keys are all registered. -/
theorem addAmbients_entries (ns : List NamespaceDecl) :
    ∀ (count : Nat) (r : Registry),
      (r.keys ++ (ns.map NamespaceDecl.entry).map Prod.fst).Nodup →
      (addAmbients count r ns).1 = count + ns.length ∧
        (addAmbients count r ns).2.entries = r.entries ++ ns.map NamespaceDecl.entry := by
  induction ns with
  | nil => exact fun count r _ => ⟨rfl, (List.append_nil _).symm⟩
  | cons n ns ih =>
      intro count r hnodup
      rw [List.map_cons, List.map_cons] at hnodup
      have hfresh : unquoted n.name ∉ r.keys := by
        intro hmem
        exact (List.nodup_append.mp hnodup).2.2 _ hmem _ (List.mem_cons_self ..) rfl
      rcases r.addAmbient_cases n with ⟨hin, -⟩ | ⟨-, hadd⟩
      · exact absurd hin hfresh
      · rw [addAmbients_cons, hadd]
        obtain ⟨hcount, hentries⟩ := ih (count + 1) (r.push n.entry.1 n.entry.2) (by
          rw [keys_push, List.append_assoc]
          exact hnodup)
        refine ⟨hcount.trans (by rw [List.length_cons]; omega), hentries.trans ?_⟩
        show (r.entries ++ [n.entry]) ++ ns.map NamespaceDecl.entry = _
        rw [List.append_assoc, List.map_cons, List.singleton_append]

/-- A call registers all that it brings in if its keys are fresh and no index module of them is
    there. -/
theorem ingest_entries {call : Ingestion} (hnamed : call.Named)
    (hnodup : (r.keys ++ call.keys).Nodup) (hindex : ∀ k ∈ call.keys, indexKey k ∉ r.keys) :
    r.AnswersAll call ∧ (r.ingest call).entries = r.entries ++ call.entries := by
  have hfresh : ∀ k ∈ call.keys, k ∉ r.keys :=
    fun k hk hmem => (List.nodup_append.mp hnodup).2.2 k hmem k hk rfl
  have hvacant : ∀ k ∈ call.keys, r.lookup k = none :=
    fun k hk => lookup_eq_none_of_not_mem (hfresh k hk) (hindex k hk)
  cases call with
  | source file text =>
      have hnone := hvacant (ModulePath.ofFile file) (List.mem_singleton_self _)
      rcases r.addSource_cases file text with ⟨hempty | htaken, -⟩ | ⟨-, -, hadd⟩
      · exact absurd hempty hnamed
      · rw [hnone] at htaken
        exact absurd htaken Bool.false_ne_true
      · exact ⟨congrArg Prod.fst hadd, congrArg (·.2.entries) hadd⟩
  | unit s =>
      have hnone := hvacant s.path (List.mem_singleton_self _)
      rcases r.insert_cases s with ⟨hempty | htaken, -⟩ | ⟨-, -, hadd⟩
      · exact absurd hempty hnamed
      · rw [hnone] at htaken
        exact absurd htaken Bool.false_ne_true
      · exact ⟨congrArg Prod.fst hadd, congrArg (·.2.entries) hadd⟩
  | typings text =>
      obtain ⟨hcount, hentries⟩ := addAmbients_entries (ambientsOf text) 0 r hnodup
      exact ⟨hcount.trans (Nat.zero_add _), hentries⟩

-- ── A run of independent calls ───────────────────────────────────────────────────

/-- The keys of entries that calls brought in are the keys of the calls. -/
theorem keys_of_entries {calls : List Ingestion}
    (h : r.entries = calls.flatMap Ingestion.entries) :
    r.keys = calls.flatMap Ingestion.keys := by
  rw [keys, h, List.map_flatMap]
  rfl

/-- In another order, calls still do not get in each other's way. -/
theorem Independent.perm {calls calls' : List Ingestion} (h : Independent calls)
    (hp : calls'.Perm calls) : Independent calls' := by
  have hkeys := hp.flatMap_right Ingestion.keys
  refine ⟨fun call hcall => h.named call (hp.mem_iff.mp hcall),
    hkeys.nodup_iff.mpr h.keys_nodup, ?_⟩
  intro k hk hi
  exact h.not_index k (hkeys.mem_iff.mp hk) (hkeys.mem_iff.mp hi)

/-- The calls before some call leave nothing in its way. -/
theorem Independent.next {before after : List Ingestion} {call : Ingestion}
    (h : Independent (before ++ call :: after))
    (hr : r.entries = before.flatMap Ingestion.entries) :
    r.AnswersAll call ∧ (r.ingest call).entries = r.entries ++ call.entries := by
  have hnodup := h.keys_nodup
  have hindex := h.not_index
  rw [List.flatMap_append, List.flatMap_cons, ← keys_of_entries hr] at hnodup hindex
  refine ingest_entries (h.named call (by simp)) ?_ ?_
  · rw [← List.append_assoc] at hnodup
    exact (List.nodup_append.mp hnodup).1
  · intro k hk hmem
    exact hindex k (by simp [hk]) (List.mem_append_left _ hmem)

/-- Fewer calls get less in each other's way. -/
theorem Independent.before {before after : List Ingestion} (h : Independent (before ++ after)) :
    Independent before := by
  have hnodup := h.keys_nodup
  have hindex := h.not_index
  rw [List.flatMap_append] at hnodup hindex
  refine ⟨fun c hc => h.named c (List.mem_append_left _ hc), (List.nodup_append.mp hnodup).1, ?_⟩
  intro k hk hi
  exact hindex k (List.mem_append_left _ hk) (List.mem_append_left _ hi)

/-- One call more, behind the others. -/
theorem afterCalls_concat (before : List Ingestion) (call : Ingestion) :
    afterCalls (before ++ [call]) = (afterCalls before).ingest call := List.foldl_append

/-- After independent calls, exactly what they bring in is registered, in their order. -/
theorem Independent.entries_afterCalls {calls : List Ingestion} (h : Independent calls) :
    (afterCalls calls).entries = calls.flatMap Ingestion.entries := by
  induction calls using List.reverseRecOn with
  | nil => rfl
  | append_singleton before call ih =>
      have hbefore := ih h.before
      rw [afterCalls_concat, (h.next hbefore).2, hbefore, List.flatMap_append,
        List.flatMap_singleton]

-- ── Registries that questions cannot tell apart ──────────────────────────────────

/-- Registries in which every path stands for the same unit, and which have the same units in
    some order. -/
structure Alike (r r' : Registry) : Prop where
  lookup_eq : ∀ m, r.lookup m = r'.lookup m
  units_perm : r.units.Perm r'.units

/-- Where no key is taken twice, a key stands for a unit exactly if they are an entry. -/
theorem find?_eq_some_iff_mem (hr : r.keys.Nodup) {k : String} {u : ModuleUnit} :
    r.find? k = some u ↔ (k, u) ∈ r.entries := by
  refine ⟨mem_entries_of_find?, ?_⟩
  intro hmem
  have hk : k ∈ r.keys := List.mem_map.mpr ⟨_, hmem, rfl⟩
  obtain ⟨v, hv⟩ := Option.isSome_iff_exists.mp (mem_keys_iff.mp hk)
  have heq := List.inj_on_of_nodup_map hr (mem_entries_of_find? hv) hmem rfl
  rw [hv, (Prod.mk.inj heq).2]

/-- The order of entries with different keys does not matter. -/
theorem alike_of_perm (hr : r.keys.Nodup) (hp : r.entries.Perm r'.entries) : Alike r r' := by
  have hr' : r'.keys.Nodup := (hp.map Prod.fst).nodup_iff.mp hr
  have hfind : ∀ k, r.find? k = r'.find? k := by
    intro k
    refine Option.ext fun u => ?_
    rw [find?_eq_some_iff_mem hr, find?_eq_some_iff_mem hr', hp.mem_iff]
  refine ⟨fun m => ?_, hp.map Prod.snd⟩
  unfold lookup
  rw [hfind, hfind]

namespace Alike

variable (h : Alike r r')

include h

/-- Budgets are counted, so the order of the units does not matter. -/
theorem searchBudget_eq : r.searchBudget = r'.searchBudget := by
  have hnames : r.elementNames.length = r'.elementNames.length :=
    (h.units_perm.flatMap_right _).length_eq
  unfold searchBudget
  rw [h.units_perm.length_eq, hnames]

/-- Neither does it for the budget of a search for members. -/
theorem heritageBudget_eq : r.heritageBudget = r'.heritageBudget :=
  congrArg (· + 1) (h.units_perm.flatMap_right ModuleUnit.declarations).length_eq

/-- Hops ask the registry what paths stand for, and nothing else. -/
theorem hops_eq (remap : String → String) : r.hops remap = r'.hops remap := by
  have himport : r.importHop? remap = r'.importHop? remap := by
    funext s name
    unfold importHop?
    simp only [h.lookup_eq]
  have hexport : r.exportHop? = r'.exportHop? := by
    funext s name e
    unfold exportHop?
    simp only [h.lookup_eq]
  funext p
  unfold hops
  rw [himport, hexport]

/-- The hops of a search, and so what it finds, depend on lookups only. -/
theorem resolve_eq (remap : String → String) : r.resolve remap = r'.resolve remap := by
  funext u name mode
  unfold resolve places
  rw [h.hops_eq, h.searchBudget_eq]

/-- Seen from a module path, a name stands for the same. -/
theorem resolveIn_eq (remap : String → String) : r.resolveIn remap = r'.resolveIn remap := by
  funext m name
  unfold resolveIn
  rw [h.lookup_eq, h.resolve_eq]

/-- A declaration has the same bases. -/
theorem bases_eq (remap : String → String) : r.bases remap = r'.bases remap := by
  funext d
  unfold bases
  rw [h.resolve_eq]

/-- A member name stands for the same member. -/
theorem findMember_eq (remap : String → String) : r.findMember remap = r'.findMember remap := by
  funext d name
  unfold findMember heritage
  rw [h.bases_eq, h.heritageBudget_eq]

/-- Members are collected in the same way, on every budget. -/
theorem collect_eq (remap : String → String) (n : Nat) :
    r.collect remap n = r'.collect remap n := by
  induction n with
  | zero => rfl
  | succ n ih =>
      funext isRoot d w
      rw [collect, collect, ih, h.bases_eq]

theorem members_eq (remap : String → String) : r.members remap = r'.members remap := by
  funext d
  unfold members
  rw [h.collect_eq, h.heritageBudget_eq]

/-- A path of members leads to the same declaration. -/
theorem follow_eq (remap : String → String) (segments : List String) :
    ∀ d, r.follow remap d segments = r'.follow remap d segments := by
  induction segments with
  | nil => exact fun _ => rfl
  | cons segment rest ih =>
      intro d
      cases rest with
      | nil =>
          rw [follow, follow, h.findMember_eq]
      | cons next rest =>
          rw [follow, follow, h.findMember_eq, h.resolve_eq, funext ih]
          all_goals exact List.cons_ne_nil _ _

theorem resolvePath_eq (remap : String → String) :
    r.resolvePath remap = r'.resolvePath remap := by
  funext u typeName path
  unfold resolvePath
  rw [h.resolve_eq]
  exact congrArg _ (funext (h.follow_eq remap _))

end Alike

-- ── Any order of independent calls ───────────────────────────────────────────────

/-- **The order of independent calls does not matter.**  In any order of them, every call says
    that it registered all that it brings in, and puts it behind what is there; and after all of
    them, every path stands for the same unit, and all questions have the same answers. -/
theorem answers_ignore_order {calls calls' : List Ingestion} (h : Independent calls)
    (hp : calls'.Perm calls) :
    let r := afterCalls calls
    let r' := afterCalls calls'
    (∀ before call after, calls' = before ++ call :: after →
      (afterCalls before).AnswersAll call ∧
      (afterCalls (before ++ [call])).entries = (afterCalls before).entries ++ call.entries) ∧
    (∀ m, r'.lookup m = r.lookup m) ∧
    ∀ remap : String → String,
      (∀ u name mode, r'.resolve remap u name mode = r.resolve remap u name mode) ∧
      (∀ m name, r'.resolveIn remap m name = r.resolveIn remap m name) ∧
      (∀ d name, r'.findMember remap d name = r.findMember remap d name) ∧
      (∀ d, r'.members remap d = r.members remap d) ∧
      (∀ u typeName path,
        r'.resolvePath remap u typeName path = r.resolvePath remap u typeName path) := by
  intro r r'
  have h' : Independent calls' := h.perm hp
  have hentries : r'.entries.Perm r.entries := by
    rw [h.entries_afterCalls, h'.entries_afterCalls]
    exact hp.flatMap_right _
  have halike : Alike r' r := alike_of_perm (coherent_afterCalls calls').keys_nodup hentries
  refine ⟨?_, halike.lookup_eq, fun remap => ⟨?_, ?_, ?_, ?_, ?_⟩⟩
  · rintro before call after rfl
    rw [afterCalls_concat]
    exact h'.next h'.before.entries_afterCalls
  · intro u name mode
    rw [halike.resolve_eq]
  · intro m name
    rw [halike.resolveIn_eq]
  · intro d name
    rw [halike.findMember_eq]
  · intro d
    rw [halike.members_eq]
  · intro u typeName path
    rw [halike.resolvePath_eq]

/-- A module, typings with a module of their own, and the index module of a directory. -/
def shelf : List Ingestion :=
  [.source "a.ts" "export * from './b';", .typings "declare module 'lib' {}",
    .source "b/index.ts" "export class Base {}"]

/-- The three can come in any order: read backwards, they make the same index module stand for the
    directory, and the same class for the name that is passed on. -/
theorem shelf_backwards :
    Independent shelf ∧ shelf.reverse.Perm shelf ∧
      (afterCalls shelf.reverse).lookup "b" = (afterCalls shelf).lookup "b" ∧
      (afterCalls shelf.reverse).resolveIn id "a" "Base" =
        (afterCalls shelf).resolveIn id "a" "Base" := by
  have h : Independent shelf := by
    refine ⟨?_, by decide +kernel, by decide +kernel⟩
    intro call hcall
    fin_cases hcall
    · exact (by decide : "a.ts" ≠ "")
    · trivial
    · exact (by decide : "b/index.ts" ≠ "")
  have hp : shelf.reverse.Perm shelf := List.reverse_perm shelf
  obtain ⟨-, hlookup, hanswers⟩ := answers_ignore_order h hp
  exact ⟨h, hp, hlookup "b", (hanswers id).2.1 "a" "Base"⟩

end Registry

end DeclAtlas

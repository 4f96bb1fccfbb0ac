import DeclAtlas.Proofs.Naming
import DeclAtlas.Proofs.Resolution

/-!
# Names with type arguments

An import is asked for by a name without its type arguments.  Everything else about a search knows
the name as it is written: what a module declares, what it passes on, and what has been seen.  In
a registry that was read from texts, no declaration has type arguments in its name
(`Registry.OfTexts.named`), so a name that has some is looked for behind the import only.

There, the search for the name with its type arguments and the one for the name alone have seen
different places, and modules may lead back to where the search began.  This makes no difference:
from the start there is one way on, and once this has been taken, the start is worth nothing any
more (`SearchGraph.guarded_only_next`).

* **`Registry.resolve_typeArgs`** — type arguments are left out on imports, with no other effect.
-/

namespace DeclAtlas

-- ── Searches that have seen nearly the same ──────────────────────────────────────

/-- Attempts on related states have the same success, and leave related states. -/
theorem firstSuccess_related {α β σ σ' : Type} {attempt : α → σ → Option β × σ}
    {attempt' : α → σ' → Option β × σ'} {R : σ → σ' → Prop} (xs : List α)
    (hstep : ∀ x ∈ xs, ∀ s s', R s s' →
      (attempt x s).1 = (attempt' x s').1 ∧ R (attempt x s).2 (attempt' x s').2) :
    ∀ s s', R s s' → (firstSuccess attempt xs s).1 = (firstSuccess attempt' xs s').1 ∧
      R (firstSuccess attempt xs s).2 (firstSuccess attempt' xs s').2 := by
  induction xs with
  | nil => exact fun s s' h => ⟨rfl, h⟩
  | cons x xs ih =>
      intro s s' h
      obtain ⟨hanswer, hR⟩ := hstep x (List.mem_cons_self ..) s s' h
      cases hx : attempt x s with
      | mk o t =>
          cases hx' : attempt' x s' with
          | mk o' t' =>
              rw [hx, hx'] at hanswer hR
              obtain rfl : o = o' := hanswer
              cases o with
              | some b =>
                  rw [firstSuccess_cons_some hx, firstSuccess_cons_some hx']
                  exact ⟨rfl, hR⟩
              | none =>
                  rw [firstSuccess_cons_none hx, firstSuccess_cons_none hx']
                  exact ih (fun y hy => hstep y (List.mem_cons_of_mem x hy)) t t' hR

namespace SearchGraph

variable {α κ β : Type} {g : SearchGraph α κ β} {inside : α → Prop}
  {marks : Finset κ} {p a : α} {seen seen' : List κ}

/-- Two searches, one of which has come from `p`: they have seen the same but perhaps for `p`, and
    the only node behind it. -/
structure Passed (g : SearchGraph α κ β) (p a : α) (seen seen' : List κ) : Prop where
  start_mem : g.mark p ∈ seen
  next_mem : g.mark a ∈ seen'
  agree : ∀ k, k ≠ g.mark p → (k ∈ seen ↔ k ∈ seen')

theorem Passed.cons (h : g.Passed p a seen seen') (k : κ) :
    g.Passed p a (k :: seen) (k :: seen') := by
  refine ⟨List.mem_cons_of_mem k h.start_mem, List.mem_cons_of_mem k h.next_mem, ?_⟩
  intro l hl
  rw [List.mem_cons, List.mem_cons, h.agree l hl]

variable [DecidableEq κ]

/-- Where the only node behind `p` has been seen, a search of `p` finds nothing. -/
theorem guarded_passed (hb : g.success? p = none) (hnext : g.next p = [a])
    (h : g.Passed p a seen seen') (n : Nat) :
    (g.guarded n p seen').1 = none ∧ g.Passed p a seen (g.guarded n p seen').2 := by
  cases n with
  | zero => exact ⟨rfl, h⟩
  | succ n =>
      by_cases hskip : g.dead p = true ∨ g.mark p ∈ seen'
      · rw [guarded_skip hskip]
        exact ⟨rfl, h⟩
      · have hseen : g.guarded n a (g.mark p :: seen') = (none, g.mark p :: seen') := by
          cases n with
          | zero => rfl
          | succ n => exact guarded_skip (Or.inr (List.mem_cons_of_mem _ h.next_mem))
        rw [guarded_follow hskip hb, hnext, firstSuccess_cons_none hseen, firstSuccess]
        refine ⟨rfl, h.start_mem, List.mem_cons_of_mem _ h.next_mem, ?_⟩
        intro k hk
        rw [h.agree k hk, List.mem_cons, or_iff_right hk]

/-- Two such searches find the same from every node on. -/
theorem guarded_related (ha : g.Arena inside marks) (hin : inside p) (hb : g.success? p = none)
    (hnext : g.next p = [a]) (n : Nat) :
    ∀ (x : α) (seen seen' : List κ), inside x → g.Passed p a seen seen' →
      (g.guarded n x seen).1 = (g.guarded n x seen').1 ∧
        g.Passed p a (g.guarded n x seen).2 (g.guarded n x seen').2 := by
  induction n with
  | zero => exact fun x seen seen' _ h => ⟨rfl, h⟩
  | succ n ih =>
      intro x seen seen' hx h
      by_cases hmark : g.mark x = g.mark p
      · obtain rfl := ha.mark_inj x p hx hin hmark
        obtain ⟨hnone, hpassed⟩ := guarded_passed hb hnext h (n + 1)
        rw [guarded_skip (Or.inr h.start_mem), hnone]
        exact ⟨rfl, hpassed⟩
      · have hskip :
            (g.dead x = true ∨ g.mark x ∈ seen) ↔ (g.dead x = true ∨ g.mark x ∈ seen') := by
          rw [h.agree _ hmark]
        by_cases hs : g.dead x = true ∨ g.mark x ∈ seen
        · rw [guarded_skip hs, guarded_skip (hskip.mp hs)]
          exact ⟨rfl, h⟩
        · have hs' := mt hskip.mpr hs
          cases hbx : g.success? x with
          | some b =>
              rw [guarded_success hs hbx, guarded_success hs' hbx]
              exact ⟨rfl, h.cons _⟩
          | none =>
              rw [guarded_follow hs hbx, guarded_follow hs' hbx]
              refine firstSuccess_related (R := g.Passed p a) (g.next x) ?_ _ _ (h.cons _)
              intro c hc t t' ht
              exact ih c t t' (ha.leads_mem x c hx (leads_of_follow hs hbx hc)) ht

/-- **A node with one way on** finds what is found on this way, even if the way leads back to it. -/
theorem guarded_only_next (ha : g.Arena inside marks) (hin : inside p) {n : Nat}
    (hn : marks.card < n) (hd : g.dead p = false) (hb : g.success? p = none)
    (hnext : g.next p = [a]) : (g.guarded n p []).1 = (g.guarded n a []).1 := by
  by_cases hap : a = p
  · rw [hap]
  have hina : inside a := ha.leads_mem p a hin ⟨hd, hb, hnext ▸ List.mem_singleton_self a⟩
  have hmark : g.mark a ≠ g.mark p := fun h => hap (ha.mark_inj a p hina hin h)
  have hstart : ¬ (g.dead p = true ∨ g.mark p ∈ []) := by simp [hd]
  obtain ⟨n, rfl⟩ : ∃ m, n = m + 1 := ⟨n - 1, by omega⟩
  -- the start is seen, so that the rest of the budget is enough for what is not
  have hunseen : unseen marks [g.mark p] < n := by
    have hlt := unseen_cons_lt (ha.mark_mem p hin) List.not_mem_nil
    have hle := unseen_le_card marks []
    omega
  have hfirst : (g.guarded (n + 1) p []).1 = (g.guarded n a [g.mark p]).1 := by
    rw [guarded_follow hstart hb, hnext]
    cases h : g.guarded n a [g.mark p] with
    | mk o t =>
        cases o with
        | some b => rw [firstSuccess_cons_some h]
        | none => rw [firstSuccess_cons_none h]; rfl
  rw [hfirst, guarded_stable ha n (n + 1) a _ hina hunseen (Nat.le_succ n)]
  by_cases hdead : g.dead a = true
  · rw [guarded_skip (Or.inl hdead), guarded_skip (Or.inl hdead)]
  have hs : ¬ (g.dead a = true ∨ g.mark a ∈ [g.mark p]) := by simp [hdead, hmark]
  have hs' : ¬ (g.dead a = true ∨ g.mark a ∈ []) := by simp [hdead]
  cases hba : g.success? a with
  | some b => rw [guarded_success hs hba, guarded_success hs' hba]
  | none =>
      rw [guarded_follow hs hba, guarded_follow hs' hba]
      refine (firstSuccess_related (R := g.Passed p a) (g.next a) ?_ _ _ ?_).1
      · intro c hc t t' ht
        exact guarded_related ha hin hb hnext n c t t'
          (ha.leads_mem a c hina (leads_of_follow hs hba hc)) ht
      · refine ⟨by simp, by simp, ?_⟩
        intro k hk
        simp [hk]

end SearchGraph

-- ── Registries that were read from texts ─────────────────────────────────────────

/-- What a call registers was read from a text, also where this was done elsewhere. -/
def Ingestion.OfText : Ingestion → Prop
  | .source _ _ => True
  | .unit s => ∃ text, s.statements = parse text
  | .typings _ => True

/-- The names directly in a unit are as they are read. -/
def ModuleUnit.Named (u : ModuleUnit) : Prop := ∀ s ∈ u.statements, s.Named

/-- A unit has no declaration under a name with type arguments. -/
theorem ModuleUnit.Named.declaration?_eq_none {u : ModuleUnit} (h : u.Named) {name : String}
    (hname : '<' ∈ name.toList) : u.declaration? name = none := by
  refine List.find?_eq_none.mpr fun d hd heq => ?_
  obtain ⟨s, hs, hsd⟩ := List.mem_filterMap.mp hd
  cases h s hs with
  | declaration hd' =>
      obtain rfl := Option.some.inj hsd
      exact hd' name (by simpa using heq) hname
  | _ => exact nomatch hsd

/-- What a source module imports under an empty name has an empty name there, too. -/
theorem ModuleUnit.Named.sourceName_eq_empty {s : SourceUnit} (h : (source s).Named) {i : Import}
    (hi : i ∈ s.imports) {e : Specifier} (he : e ∈ i.elements) (hname : e.name = "") :
    e.sourceName = "" := by
  obtain ⟨x, hx, hxi⟩ := List.mem_filterMap.mp hi
  cases h x hx with
  | importing hall =>
      obtain rfl := Option.some.inj hxi
      exact hall e he hname
  | _ => exact nomatch hxi

namespace Registry

variable {r : Registry} {remap : String → String} {u : ModuleUnit} {name : String}

/-- Some calls that read texts build this registry. -/
def OfTexts (r : Registry) : Prop :=
  ∃ calls, (∀ call ∈ calls, Ingestion.OfText call) ∧ afterCalls calls = r

/-- A registry made from texts is made by calls. -/
theorem OfTexts.reachable (h : r.OfTexts) : r.Reachable := by
  obtain ⟨calls, -, heq⟩ := h
  exact ⟨calls, heq⟩

/-- The names in all registered units are as they are read. -/
def AllNamed (r : Registry) : Prop := ∀ u ∈ r.units, u.Named

theorem AllNamed.push (h : r.AllNamed) (hu : u.Named) (k : String) : (r.push k u).AllNamed := by
  intro v hv
  rw [units, Registry.push, List.map_append, List.map_singleton] at hv
  rcases List.mem_append.mp hv with hv | hv
  · exact h v hv
  · rw [List.mem_singleton.mp hv]
    exact hu

/-- The name of a namespace itself does not matter. -/
theorem named_ambient {n : NamespaceDecl} (h : n.Named) (k : String) :
    (ModuleUnit.ambient { n with name := k }).Named := by
  cases h with
  | block hss => exact hss
  | nested => exact List.forall_mem_nil _
  | absent => exact List.forall_mem_nil _

/-- Ambient modules whose names are names, one after the other. -/
theorem allNamed_addAmbients (ns : List NamespaceDecl) (hns : ∀ n ∈ ns, n.Named) :
    ∀ (count : Nat) (r : Registry), r.AllNamed → (addAmbients count r ns).2.AllNamed := by
  induction ns with
  | nil => exact fun _ _ h => h
  | cons n ns ih =>
      obtain ⟨hn, hrest⟩ := List.forall_mem_cons.mp hns
      intro count r h
      rw [addAmbients_cons]
      refine ih hrest _ _ ?_
      rcases r.addAmbient_cases n with ⟨-, heq⟩ | ⟨-, heq⟩
      · rw [heq]
        exact h
      · rw [heq]
        exact h.push (named_ambient hn _) _

/-- What is read from a text has names only. -/
theorem named_of_mem_ambientsOf {text : String} : ∀ n ∈ ambientsOf text, n.Named := by
  intro n hn
  obtain ⟨s, hs, hsn⟩ := List.mem_filterMap.mp hn
  cases parse_named text s hs with
  | scope hd =>
      obtain rfl := Option.some.inj hsn
      exact hd
  | _ => exact nomatch hsn

/-- So a call that reads a text keeps all units named. -/
theorem AllNamed.ingest (h : r.AllNamed) {call : Ingestion} (hcall : call.OfText) :
    (r.ingest call).AllNamed := by
  cases call with
  | source file text =>
      rcases r.addSource_cases file text with ⟨-, heq⟩ | ⟨-, -, heq⟩
      · rwa [Registry.ingest, heq]
      · rw [Registry.ingest, heq]
        have hnamed : (ModuleUnit.source (.ofText (ModulePath.ofFile file) text)).Named :=
          parse_named text
        exact h.push hnamed _
  | unit s =>
      rcases r.insert_cases s with ⟨-, heq⟩ | ⟨-, -, heq⟩
      · rwa [Registry.ingest, heq]
      · obtain ⟨text, htext⟩ := hcall
        rw [Registry.ingest, heq]
        have hnamed : (ModuleUnit.source s).Named := by
          show ∀ x ∈ s.statements, x.Named
          rw [htext]
          exact parse_named text
        exact h.push hnamed _
  | typings text => exact allNamed_addAmbients _ named_of_mem_ambientsOf 0 r h

/-- Where texts were read, names are as they are read. -/
theorem OfTexts.named (h : r.OfTexts) : r.AllNamed := by
  obtain ⟨calls, hcalls, rfl⟩ := h
  refine List.foldlRecOn calls Registry.ingest (List.forall_mem_nil _) ?_
  intro r hr call hcall
  exact hr.ingest (hcalls call hcall)

-- ── Where imports lead ───────────────────────────────────────────────────────────

theorem hit?_of_declaration?_eq_none {mode : SearchMode} (h : u.declaration? name = none) :
    Place.hit? ⟨u, name, mode⟩ = none := by
  rw [Place.hit?]
  dsimp only
  rw [h, Option.map_none, ite_self]

/-- A name that is not declared, and does not lead on, stands for nothing. -/
theorem resolve_of_no_hops {mode : SearchMode} (hnone : u.declaration? name = none)
    (hhops : r.hops remap ⟨u, name, mode⟩ = []) : r.resolve remap u name mode = none := by
  rw [resolve, searchBudget]
  by_cases hskip : (r.places remap).dead ⟨u, name, mode⟩ = true ∨
      (r.places remap).mark ⟨u, name, mode⟩ ∈ []
  · rw [SearchGraph.guarded_skip hskip]
  · have hb : (r.places remap).success? ⟨u, name, mode⟩ = none := hit?_of_declaration?_eq_none hnone
    have hnext : (r.places remap).next ⟨u, name, mode⟩ = [] := hhops
    rw [SearchGraph.guarded_follow hskip hb, hnext]
    rfl

/-- The first import of a name leads to what it is aimed at, if this is registered. -/
theorem importHop?_of_firstImport {s : SourceUnit} {i : Import} {e : Specifier}
    (h : FirstImport (withoutTypeArgs name) s.imports i e) :
    r.importHop? remap s name =
      (r.lookup (remap (ModulePath.target s.path i.specifier))).map
        (⟨·, e.sourceName, .exports⟩) := by
  rw [importHop?, importOf?_iff.mpr h]
  rfl

/-- If no import binds the name without its arguments, there is no hop. -/
theorem importHop?_eq_none {s : SourceUnit}
    (h : ∀ i ∈ s.imports, ∀ e ∈ i.elements, e.name ≠ withoutTypeArgs name) :
    r.importHop? remap s name = none := by
  refine Option.eq_none_iff_forall_not_mem.mpr fun p hp => ?_
  obtain ⟨i, e, -, ⟨_, _, hi, -, _, _, he, hname, -⟩, -⟩ := importHop?_iff.mp hp
  exact h i (by simp [hi]) e (by simp [he]) hname

/-- A name that a module does not declare stands for what it stands for where the import of the
    name leads. -/
theorem resolve_imports (hc : r.Coherent) {s : SourceUnit} (hs : .source s ∈ r.units)
    (hne : name ≠ "") (hnone : (ModuleUnit.source s).declaration? name = none) :
    r.resolve remap (.source s) name .imports =
      (r.importHop? remap s name).bind fun p => r.resolve remap p.unit p.name p.mode := by
  have hhops : r.hops remap ⟨.source s, name, .imports⟩ = (r.importHop? remap s name).toList :=
    hops_imports hne
  cases hhop : r.importHop? remap s name with
  | none =>
      rw [hhop] at hhops
      exact resolve_of_no_hops hnone hhops
  | some p =>
      rw [hhop] at hhops
      exact SearchGraph.guarded_only_next (arena_places hc remap name)
        (within_start hs name .imports) (card_placeMarks_lt r name)
        (beq_eq_false_iff_ne.mpr hne) (hit?_of_declaration?_eq_none hnone) hhops

-- ── Type arguments ───────────────────────────────────────────────────────────────

theorem taken_of_not_mem {h : String} (hh : '<' ∉ h.toList) :
    ∀ c ∈ h.toList, decide (c ≠ '<') = true :=
  fun _ hc => decide_eq_true fun heq => hh (heq ▸ hc)

/-- A name without arguments is left as it is. -/
theorem withoutTypeArgs_of_not_mem {h : String} (hh : '<' ∉ h.toList) : withoutTypeArgs h = h := by
  rw [withoutTypeArgs, List.takeWhile_eq_self_iff.mpr (taken_of_not_mem hh), String.ofList_toList]

theorem toList_typeArgs (h t : String) : (h ++ "<" ++ t).toList = h.toList ++ '<' :: t.toList := by
  simp

/-- What stands in front of the first sign is the name without arguments. -/
theorem withoutTypeArgs_append {h : String} (hh : '<' ∉ h.toList) (t : String) :
    withoutTypeArgs (h ++ "<" ++ t) = h := by
  rw [withoutTypeArgs, toList_typeArgs, List.takeWhile_append_of_pos (taken_of_not_mem hh),
    List.takeWhile_cons_of_neg (by simp), List.append_nil, String.ofList_toList]

/-- An import leads to the same place with and without type arguments. -/
theorem importHop?_typeArgs (s : SourceUnit) {h : String} (hh : '<' ∉ h.toList) (t : String) :
    r.importHop? remap s (h ++ "<" ++ t) = r.importHop? remap s h := by
  rw [importHop?, importHop?, withoutTypeArgs_append hh, withoutTypeArgs_of_not_mem hh]

/-- In a registry that was read from texts, a name with type arguments stands for what it stands for
    where its import leads, whatever the module declares itself. -/
theorem resolve_source_typeArgs (hr : r.OfTexts) {s : SourceUnit} (hs : .source s ∈ r.units)
    {h : String} (hh : '<' ∉ h.toList) (t : String) :
    r.resolve remap (.source s) (h ++ "<" ++ t) .imports =
      (r.importHop? remap s h).bind fun p => r.resolve remap p.unit p.name p.mode := by
  have hmem : '<' ∈ (h ++ "<" ++ t).toList := by
    rw [toList_typeArgs]
    simp
  have hne : h ++ "<" ++ t ≠ "" := by
    intro hempty
    rw [hempty] at hmem
    exact nomatch hmem
  rw [resolve_imports hr.reachable.coherent hs hne
    ((hr.named _ hs).declaration?_eq_none hmem), importHop?_typeArgs s hh]

/-- So does the name alone, unless the module declares it. -/
theorem resolve_source_name (hr : r.OfTexts) {s : SourceUnit} (hs : .source s ∈ r.units)
    (h : String) (hnone : (ModuleUnit.source s).declaration? h = none) :
    r.resolve remap (.source s) h .imports =
      (r.importHop? remap s h).bind fun p => r.resolve remap p.unit p.name p.mode := by
  by_cases hempty : h = ""
  · subst hempty
    rw [resolve_empty]
    cases hhop : r.importHop? remap s "" with
    | none => rfl
    | some p =>
        obtain ⟨i, e, next, ⟨_, _, hi, -, _, _, he, hname, -⟩, -, rfl⟩ := importHop?_iff.mp hhop
        have hsource := (hr.named _ hs).sourceName_eq_empty (i := i) (e := e) (by simp [hi])
          (by simp [he]) hname
        rw [Option.bind_some, hsource, resolve_empty]
  · exact resolve_imports hr.reachable.coherent hs hempty hnone

/-- **Type arguments are left out on imports, with no other effect.**  Take a registry that was read
    from texts, a registered unit, and a name with type arguments: a head without `<`, and anything
    behind one.

    * In an ambient module, it stands for nothing.
    * In a module without an import of the head, it stands for nothing.  Otherwise, the first of
      these decides: the name stands for what its element asks for stands for among the exports of
      the module that it is aimed at, once remapped, and for nothing if there is none; and this
      although the module may declare the head itself.
    * If it does not, the head alone stands for the same.
    * What is behind the head makes no difference. -/
theorem resolve_typeArgs (hr : r.OfTexts) (remap : String → String) (hu : u ∈ r.units) {h : String}
    (hh : '<' ∉ h.toList) (t : String) :
    let found := r.resolve remap u (h ++ "<" ++ t) .imports
    (∀ n, u = .ambient n → found = none) ∧
    (∀ s, u = .source s →
      ((∀ i ∈ s.imports, ∀ e ∈ i.elements, e.name ≠ h) → found = none) ∧
      (∀ i e, FirstImport h s.imports i e →
        (r.lookup (remap (ModulePath.target s.path i.specifier)) = none → found = none) ∧
        (∀ next, r.lookup (remap (ModulePath.target s.path i.specifier)) = some next →
          found = r.resolve remap next e.sourceName .exports)) ∧
      (u.declaration? h = none → found = r.resolve remap u h .imports)) ∧
    ∀ t', found = r.resolve remap u (h ++ "<" ++ t') .imports := by
  intro found
  have hambient : ∀ n, u = .ambient n → ∀ t, r.resolve remap u (h ++ "<" ++ t) .imports = none := by
    rintro n rfl t
    refine resolve_of_no_hops ((hr.named _ hu).declaration?_eq_none ?_) rfl
    rw [toList_typeArgs]
    simp
  have hsource : ∀ s, u = .source s → ∀ t, r.resolve remap u (h ++ "<" ++ t) .imports =
      (r.importHop? remap s h).bind fun p => r.resolve remap p.unit p.name p.mode := by
    rintro s rfl t
    exact resolve_source_typeArgs hr hu hh t
  refine ⟨fun n hn => hambient n hn t, ?_, ?_⟩
  · intro s hs
    have hfound : found = _ := hsource s hs t
    have hhead := withoutTypeArgs_of_not_mem hh
    rw [hfound]
    refine ⟨?_, ?_, ?_⟩
    · intro hno
      rw [importHop?_eq_none (by rwa [hhead]), Option.bind_none]
    · intro i e hie
      rw [importHop?_of_firstImport (by rwa [hhead])]
      refine ⟨fun hnone => ?_, fun next hnext => ?_⟩
      · rw [hnone, Option.map_none, Option.bind_none]
      · rw [hnext, Option.map_some, Option.bind_some]
    · intro hnone
      subst hs
      exact (resolve_source_name hr hu h hnone).symm
  · intro t'
    cases u with
    | ambient n => exact (hambient n rfl t).trans (hambient n rfl t').symm
    | source s => exact (hsource s rfl t).trans (hsource s rfl t').symm

/-- A module that imports a name, and passes it on from what a string names. -/
def turnModule : SourceUnit :=
  .ofText "turn" "import \x7b Item \x7d from \"./ring\"; export \x7b \"Item<T>\" as Item \x7d;"

/-- The search for `Item<T>` comes back to the place where it began; the search for `Item` comes to
    this place, too, and has not seen it. -/
def roundabout : Registry :=
  afterCalls [.unit turnModule, .source "ring.ts" "export * from './turn'; export * from './item';",
    .source "item.ts" "export class Item \x7b\x7d"]

/-- What is behind both ways is found all the same. -/
theorem roundabout_item :
    roundabout.OfTexts ∧ .source turnModule ∈ roundabout.units ∧
      roundabout.resolve id (.source turnModule) ("Item" ++ "<" ++ "T>") .imports =
        roundabout.resolve id (.source turnModule) "Item" .imports ∧
      (roundabout.resolve id (.source turnModule) ("Item" ++ "<" ++ "T>") .imports).map
        (·.unit.key) = some "item" := by
  have htexts : roundabout.OfTexts :=
    ⟨_, by simp only [List.forall_mem_cons]; exact ⟨⟨_, rfl⟩, trivial, trivial, nofun⟩, rfl⟩
  have hturn : .source turnModule ∈ roundabout.units := List.mem_cons_self ..
  have hnone : (ModuleUnit.source turnModule).declaration? "Item" = none :=
    Option.isNone_iff_eq_none.mp (by decide +kernel)
  exact ⟨htexts, hturn,
    ((resolve_typeArgs htexts id hturn (h := "Item") (by decide) "T>").2.1 _ rfl).2.2 hnone,
    by decide +kernel⟩

end Registry

end DeclAtlas

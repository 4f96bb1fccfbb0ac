import DeclAtlas.Proofs.Inheritance

/-!
# Every query comes to an end

Modules may import and pass on one another in circles, and declarations may inherit from
themselves.  Queries come to an end nevertheless, because no walk looks at a node twice and all
nodes it can come to are known beforehand.  This file says so in two ways.

*Which calls are made.*  `SearchGraph.Calls` and `Registry.ListingCalls` relate a call of a walk
to the calls that it makes in turn.  Along them a walk stays among finitely many marks, and every
call that makes another one has enlarged the set of marks seen (`CallsConfined`); so calls are
nested no deeper than there are marks.

*What happens on a budget.*  The walks are written once more so that they have no answer where
their budget is spent: `SearchGraph.checked` for searches, `Registry.collectChecked` for the
listing of members.  A walk through heritage resolves the bases of each declaration anew, so it
has two budgets, one for itself and one for each of these searches.  On budgets not below those
that are computed from the registry, there always is an answer, and it is always the same.

* **`Registry.queries_terminate`** — both facts, for every query.
-/

namespace DeclAtlas

-- ── Calls ────────────────────────────────────────────────────────────────────────

/-- A call of a walk over a graph: the budget that it has, the node that it is on, and the marks
    of the nodes seen before. -/
structure WalkCall (α κ : Type) where
  budget : Nat
  node : α
  seen : List κ

/-- All calls that follow from a first one stay with nodes of some kind, whose marks are in a
    finite set; each call that makes another one has enlarged the set of marks seen, within this
    set; so they are nested no deeper than the set is large, on any budget. -/
structure CallsConfined {α κ : Type} [DecidableEq κ] (calls : WalkCall α κ → WalkCall α κ → Prop)
    (inside : α → Prop) (mark : α → κ) (marks : Finset κ) (start : α) : Prop where
  stays : ∀ n c, Relation.ReflTransGen calls ⟨n, start, []⟩ c → inside c.node ∧ mark c.node ∈ marks
  enlarges : ∀ n c c', Relation.ReflTransGen calls ⟨n, start, []⟩ c → calls c c' →
    c.seen.toFinset ⊂ c'.seen.toFinset ∧ c'.seen.toFinset ⊆ marks
  depth_le : ∀ n c, Relation.ReflTransGen calls ⟨n, start, []⟩ c → n ≤ c.budget + marks.card

/-- Fewer calls are confined to the same nodes. -/
theorem CallsConfined.mono {α κ : Type} [DecidableEq κ]
    {calls calls' : WalkCall α κ → WalkCall α κ → Prop} {inside : α → Prop} {mark : α → κ}
    {marks : Finset κ} {start : α} (h : CallsConfined calls inside mark marks start)
    (hsub : ∀ c c', calls' c c' → calls c c') : CallsConfined calls' inside mark marks start := by
  have hreach : ∀ n c, Relation.ReflTransGen calls' ⟨n, start, []⟩ c →
      Relation.ReflTransGen calls ⟨n, start, []⟩ c := fun n c => Relation.ReflTransGen.mono hsub _ c
  refine ⟨?_, ?_, ?_⟩
  · intro n c hc
    exact h.stays n c (hreach n c hc)
  · intro n c c' hc hcall
    exact h.enlarges n c c' (hreach n c hc) (hsub c c' hcall)
  · intro n c hc
    exact h.depth_le n c (hreach n c hc)

namespace SearchGraph

/-- What can be reached from inside is inside. -/
theorem Arena.reaches_mem {α κ β : Type} {g : SearchGraph α κ β} {inside : α → Prop}
    {marks : Finset κ} (ha : Arena g inside marks) {a c : α} (hin : inside a)
    (h : g.Reaches a c) : inside c := by
  induction h with
  | refl => exact hin
  | tail _ hstep ih => exact ha.leads_mem _ _ ih hstep

variable {α κ β : Type} [DecidableEq κ] {g : SearchGraph α κ β} {inside : α → Prop}
  {marks : Finset κ}

/-- The calls that a call of a search makes: if its node is neither dead nor seen nor a success,
    one on each next node, as long as those on the nodes before have failed, and with the marks
    that these have left. -/
inductive Calls (g : SearchGraph α κ β) : WalkCall α κ → WalkCall α κ → Prop
  | next {n : Nat} {a c : α} {seen seen' : List κ} {before after : List α} :
      ¬ (g.dead a = true ∨ g.mark a ∈ seen) → g.success? a = none →
      g.next a = before ++ c :: after →
      firstSuccess (g.guarded n) before (g.mark a :: seen) = (none, seen') →
      Calls g ⟨n + 1, a, seen⟩ ⟨n, c, seen'⟩

/-- A search only adds marks of nodes that it may come to. -/
theorem guarded_marks (ha : Arena g inside marks) (n : Nat) :
    ∀ (a : α) (seen : List κ), inside a → (∀ k ∈ seen, k ∈ marks) →
      ∀ k ∈ (g.guarded n a seen).2, k ∈ marks := by
  induction n with
  | zero => intro a seen _ hseen; exact hseen
  | succ n ih =>
      intro a seen hin hseen
      by_cases h : g.dead a = true ∨ g.mark a ∈ seen
      · rw [guarded_skip h]
        exact hseen
      · have hcons : ∀ k ∈ g.mark a :: seen, k ∈ marks :=
          List.forall_mem_cons.mpr ⟨ha.mark_mem a hin, hseen⟩
        cases hb : g.success? a with
        | some b =>
            rw [guarded_success h hb]
            exact hcons
        | none =>
            rw [guarded_follow h hb]
            refine firstSuccess_keeps (P := fun t => ∀ k ∈ t, k ∈ marks) (g.next a) ?_ _ hcons
            intro c hc t ht
            exact ih c t (ha.leads_mem a c hin (leads_of_follow h hb hc)) ht

/-- One call more: it stays inside, and the set of marks seen has become larger. -/
theorem Calls.step (ha : Arena g inside marks) {c c' : WalkCall α κ} (h : g.Calls c c')
    (hin : inside c.node) (hseen : ∀ k ∈ c.seen, k ∈ marks) :
    c.budget = c'.budget + 1 ∧ inside c'.node ∧ c.seen.toFinset ⊂ c'.seen.toFinset ∧
      ∀ k ∈ c'.seen, k ∈ marks := by
  cases h with
  | @next n a x seen seen' before after hguard hb hnext hfail =>
      have hfollow : ∀ y ∈ before, inside y := by
        intro y hy
        refine ha.leads_mem a y hin (leads_of_follow hguard hb ?_)
        rw [hnext]
        exact List.mem_append_left _ hy
      have hgrow : g.mark a :: seen ⊆ (firstSuccess (g.guarded n) before (g.mark a :: seen)).2 :=
        firstSuccess_keeps (P := fun t => g.mark a :: seen ⊆ t) before
          (fun y _ t ht => List.Subset.trans ht (subset_guarded n y t)) _ (List.Subset.refl _)
      have hwithin : ∀ k ∈ (firstSuccess (g.guarded n) before (g.mark a :: seen)).2, k ∈ marks :=
        firstSuccess_keeps (P := fun t => ∀ k ∈ t, k ∈ marks) before
          (fun y hy t ht => guarded_marks ha n y t (hfollow y hy) ht) _
          (List.forall_mem_cons.mpr ⟨ha.mark_mem a hin, hseen⟩)
      rw [hfail] at hgrow hwithin
      refine ⟨rfl, ?_, ?_, hwithin⟩
      · refine ha.leads_mem a x hin (leads_of_follow hguard hb ?_)
        rw [hnext]
        exact List.mem_append_right _ (List.mem_cons_self ..)
      · refine (Finset.ssubset_iff_of_subset ?_).mpr ⟨g.mark a, ?_, ?_⟩
        · intro k hk
          exact List.mem_toFinset.mpr (hgrow (List.mem_cons_of_mem _ (List.mem_toFinset.mp hk)))
        · exact List.mem_toFinset.mpr (hgrow (List.mem_cons_self ..))
        · intro hk
          exact hguard (Or.inr (List.mem_toFinset.mp hk))

/-- The calls of a search are confined to where the search is. -/
theorem calls_confined (ha : Arena g inside marks) {start : α} (hin : inside start) :
    CallsConfined g.Calls inside g.mark marks start := by
  -- what every call keeps: each level of nesting has cost a unit and brought in a new mark
  have hinv : ∀ n c, Relation.ReflTransGen g.Calls ⟨n, start, []⟩ c →
      inside c.node ∧ (∀ k ∈ c.seen, k ∈ marks) ∧ n ≤ c.budget + c.seen.toFinset.card := by
    intro n c hc
    induction hc with
    | refl => exact ⟨hin, List.forall_mem_nil _, Nat.le_add_right _ _⟩
    | tail _ hcall ih =>
        obtain ⟨hnode, hseen, hdepth⟩ := ih
        obtain ⟨hbudget, hnode', hlarger, hseen'⟩ := hcall.step ha hnode hseen
        have hcard := Finset.card_lt_card hlarger
        exact ⟨hnode', hseen', by omega⟩
  refine ⟨?_, ?_, ?_⟩
  · intro n c hc
    exact ⟨(hinv n c hc).1, ha.mark_mem c.node (hinv n c hc).1⟩
  · intro n c c' hc hcall
    obtain ⟨hnode, hseen, -⟩ := hinv n c hc
    obtain ⟨-, -, hlarger, hseen'⟩ := hcall.step ha hnode hseen
    exact ⟨hlarger, fun k hk => hseen' k (List.mem_toFinset.mp hk)⟩
  · intro n c hc
    obtain ⟨-, hseen, hdepth⟩ := hinv n c hc
    have hcard : c.seen.toFinset.card ≤ marks.card :=
      Finset.card_le_card fun k hk => hseen k (List.mem_toFinset.mp hk)
    omega

end SearchGraph

-- ── Searches that notice the end of their budget ─────────────────────────────────

/-- The first success among several attempts.  If it takes an attempt without an answer to come
    there, there is no answer. -/
def firstChecked {α β σ : Type} (attempt : α → σ → Option (Option β × σ)) :
    List α → σ → Option (Option β × σ)
  | [], s => some (none, s)
  | x :: xs, s =>
    match attempt x s with
    | none => none
    | some (some b, s') => some (some b, s')
    | some (none, s') => firstChecked attempt xs s'

/-- If every attempt has an answer on the states it meets, so have all of them. -/
theorem firstChecked_eq {α β σ : Type} {attempt : α → σ → Option (Option β × σ)}
    {attempt' : α → σ → Option β × σ} {P : σ → Prop} (xs : List α)
    (hkeep : ∀ x ∈ xs, ∀ s, P s → P (attempt' x s).2)
    (hends : ∀ x ∈ xs, ∀ s, P s → attempt x s = some (attempt' x s)) :
    ∀ s, P s → firstChecked attempt xs s = some (firstSuccess attempt' xs s) := by
  induction xs with
  | nil => intro s _; rfl
  | cons x xs ih =>
      intro s hs
      have hx := hends x (List.mem_cons_self ..) s hs
      have hP := hkeep x (List.mem_cons_self ..) s hs
      rw [firstChecked, hx]
      cases ha : attempt' x s with
      | mk o s' =>
          rw [ha] at hP
          cases o with
          | some b => rw [firstSuccess_cons_some ha]
          | none =>
              rw [firstSuccess_cons_none ha]
              exact ih (fun y hy => hkeep y (List.mem_cons_of_mem x hy))
                (fun y hy => hends y (List.mem_cons_of_mem x hy)) s' hP

namespace SearchGraph

variable {α κ β : Type} [DecidableEq κ] {g : SearchGraph α κ β} {inside : α → Prop}
  {marks : Finset κ}

/-- The search of `SearchGraph.guarded` without an answer where its budget is spent, or where the
    next nodes cannot be told. -/
def checked (g : SearchGraph α κ β) (next : α → Option (List α)) :
    Nat → α → List κ → Option (Option β × List κ)
  | 0, _, _ => none
  | n + 1, a, seen =>
    if g.dead a ∨ g.mark a ∈ seen then some (none, seen)
    else
      match g.success? a with
      | some b => some (some b, g.mark a :: seen)
      | none =>
        match next a with
        | none => none
        | some cs => firstChecked (checked g next n) cs (g.mark a :: seen)

/-- A budget above the number of unseen marks is never spent. -/
theorem checked_eq (ha : Arena g inside marks) {next : α → Option (List α)}
    (hnext : ∀ a, inside a → next a = some (g.next a)) (n : Nat) :
    ∀ (a : α) (seen : List κ), inside a → unseen marks seen < n →
      g.checked next n a seen = some (g.guarded n a seen) := by
  induction n with
  | zero => intro a seen _ hn; exact absurd hn (Nat.not_lt_zero _)
  | succ n ih =>
      intro a seen hin hn
      rw [checked]
      by_cases h : g.dead a = true ∨ g.mark a ∈ seen
      · rw [if_pos h, guarded_skip h]
      · rw [if_neg h]
        cases hb : g.success? a with
        | some b => rw [guarded_success h hb]
        | none =>
            rw [guarded_follow h hb, hnext a hin]
            have hlt := unseen_cons_lt (ha.mark_mem a hin) (not_or.mp h).2
            refine firstChecked_eq (P := fun t => unseen marks t < n) (g.next a) ?_ ?_ _ (by omega)
            · intro c _ t ht
              exact Nat.lt_of_le_of_lt (unseen_le_of_subset (subset_guarded n c t)) ht
            · intro c hc t ht
              exact ih c t (ha.leads_mem a c hin (leads_of_follow h hb hc)) ht

/-- On a large enough budget, a search ends with the answer of any large enough budget. -/
theorem checked_stable (ha : Arena g inside marks) {next : α → Option (List α)}
    (hnext : ∀ a, inside a → next a = some (g.next a)) {a : α} (hin : inside a) {n m : Nat}
    (hn : marks.card < n) (hnm : n ≤ m) :
    g.checked next m a [] = some (g.guarded n a []) := by
  have hunseen := Nat.lt_of_le_of_lt (unseen_le_card marks []) hn
  rw [checked_eq ha hnext m a [] hin (Nat.lt_of_lt_of_le hunseen hnm),
    guarded_stable ha n m a [] hin hunseen hnm]

end SearchGraph

namespace Registry

variable {r : Registry} {remap : String → String}

-- ── The listing of members as a search ───────────────────────────────────────────

/-- The calls that a call of the listing makes: if its declaration is not seen, one on each base,
    with the declarations seen on the bases before. -/
inductive ListingCalls (r : Registry) (remap : String → String) :
    WalkCall Resolved (String × Option String) → WalkCall Resolved (String × Option String) → Prop
  | base {n : Nat} {isRoot : Bool} {d b : Resolved} {w : Collection}
      {before after : List Resolved} :
      d.id ∉ w.seen → r.bases remap d = before ++ b :: after →
      ListingCalls r remap ⟨n + 1, d, w.seen⟩
        ⟨n, b, (r.collectAll remap n before (w.add isRoot d)).seen⟩

/-- The graph of heritage without successes, all of which a listing walks over. -/
def lineage (r : Registry) (remap : String → String) :
    SearchGraph Resolved (String × Option String) Empty where
  mark := Resolved.id
  dead := fun _ => false
  success? := fun _ => none
  next := r.bases remap

/-- Declarations of registered units are all that a listing can come to. -/
theorem arena_lineage (hc : r.Coherent) (remap : String → String) :
    (r.lineage remap).Arena r.Registered r.declarationMarks :=
  ⟨fun _ _ hd hstep => registered_of_mem_bases hd hstep.2.2, (arena_heritage hc remap "").mark_mem,
    (arena_heritage hc remap "").mark_inj⟩

/-- A declaration that was not seen is not skipped. -/
theorem not_skip_lineage {d : Resolved} {seen : List (String × Option String)}
    (hd : d.id ∉ seen) :
    ¬ ((r.lineage remap).dead d = true ∨ (r.lineage remap).mark d ∈ seen) := by
  rintro (hdead | hmark)
  · exact nomatch hdead
  · exact hd hmark

/-- Following all bases sees what listing them sees. -/
theorem firstSuccess_lineage {n : Nat} (ds : List Resolved)
    (hstep : ∀ d ∈ ds, ∀ w : Collection, (r.lineage remap).guarded n d w.seen =
      (none, (r.collect remap n false d w).seen)) :
    ∀ w : Collection, firstSuccess ((r.lineage remap).guarded n) ds w.seen =
      (none, (r.collectAll remap n ds w).seen) := by
  induction ds with
  | nil => intro w; rfl
  | cons d ds ih =>
      intro w
      rw [collectAll_cons, firstSuccess_cons_none (hstep d (List.mem_cons_self ..) w)]
      exact ih (fun b hb => hstep b (List.mem_cons_of_mem d hb)) _

/-- A listing sees the declarations that a search without successes sees. -/
theorem guarded_lineage (n : Nat) :
    ∀ (isRoot : Bool) (d : Resolved) (w : Collection),
      (r.lineage remap).guarded n d w.seen = (none, (r.collect remap n isRoot d w).seen) := by
  induction n with
  | zero => intro isRoot d w; rfl
  | succ n ih =>
      intro isRoot d w
      by_cases hd : d.id ∈ w.seen
      · rw [collect_seen hd, SearchGraph.guarded_skip (Or.inr hd)]
      · rw [collect_new hd, SearchGraph.guarded_follow (not_skip_lineage hd) rfl]
        exact firstSuccess_lineage (r.bases remap d) (fun b _ v => ih false b v) (w.add isRoot d)

/-- The calls of a listing are calls of this search. -/
theorem ListingCalls.lineage {c c' : WalkCall Resolved (String × Option String)}
    (h : r.ListingCalls remap c c') : (r.lineage remap).Calls c c' := by
  cases h with
  | @base n isRoot d b w before after hd hbases =>
      refine .next (not_skip_lineage hd) rfl hbases ?_
      exact firstSuccess_lineage before (fun x _ v => guarded_lineage n false x v) (w.add isRoot d)

-- ── Queries that notice the end of their budgets ─────────────────────────────────

/-- Resolving a name on a budget of `m`. -/
def resolveChecked (r : Registry) (remap : String → String) (m : Nat) (u : ModuleUnit)
    (name : String) (mode : SearchMode) : Option (Option Resolved) :=
  ((r.places remap).checked (fun p => some (r.hops remap p)) m ⟨u, name, mode⟩ []).map Prod.fst

/-- Resolving a name from the unit of a module path on a budget of `m`. -/
def resolveInChecked (r : Registry) (remap : String → String) (m : Nat) (module name : String) :
    Option (Option Resolved) :=
  match r.lookup module with
  | none => some none
  | some u => r.resolveChecked remap m u name .imports

/-- The bases of a declaration, with a budget of `m` to resolve each of them. -/
def basesChecked (r : Registry) (remap : String → String) (m : Nat) (d : Resolved) :
    Option (List Resolved) :=
  (d.declaration.bases.mapM fun h => r.resolveChecked remap m d.unit h.name .imports).map
    (List.filterMap id)

/-- Finding a member on a budget of `n`, with a budget of `m` to resolve each base. -/
def findMemberChecked (r : Registry) (remap : String → String) (m n : Nat) (d : Resolved)
    (name : String) : Option (Option FoundMember) :=
  ((r.heritage remap name).checked (r.basesChecked remap m) n d []).map Prod.fst

/-- Collecting members on a budget, with a budget of `m` to resolve each base. -/
def collectChecked (r : Registry) (remap : String → String) (m : Nat) :
    Nat → Bool → Resolved → Collection → Option Collection
  | 0, _, _, _ => none
  | n + 1, isRoot, d, w =>
    if w.seen.contains d.id then some w
    else
      (r.basesChecked remap m d).bind fun ds =>
        ds.foldlM (fun w b => collectChecked r remap m n false b w) (w.add isRoot d)

/-- Listing all members on a budget of `n`, with a budget of `m` to resolve each base. -/
def membersChecked (r : Registry) (remap : String → String) (m n : Nat) (d : Resolved) :
    Option (List FoundMember) :=
  (r.collectChecked remap m n true d ⟨[], [], []⟩).map Collection.found

/-- Following a member path, with these budgets for each of its segments. -/
def followChecked (r : Registry) (remap : String → String) (m n : Nat) (d : Resolved) :
    List String → Option (Option String)
  | [] => some d.declaration.name
  | [last] => (r.findMemberChecked remap m n d last).map fun f => f.bind (·.member.typeName?)
  | segment :: rest =>
    (r.findMemberChecked remap m n d segment).bind fun
      | none => some none
      | some found =>
        match found.member.typeName? with
        | none => some none
        | some name =>
          (r.resolveChecked remap m found.owner.unit name .imports).bind fun
            | none => some none
            | some next => followChecked r remap m n next rest

/-- Following a dotted path from a type, with these budgets for each of its segments. -/
def resolvePathChecked (r : Registry) (remap : String → String) (m n : Nat) (u : ModuleUnit)
    (typeName path : String) : Option (Option String) :=
  (r.resolveChecked remap m u typeName .imports).bind fun
    | none => some none
    | some d => r.followChecked remap m n d (pathSegments path)

variable {m n : Nat}

/-- On such a budget, resolving ends, with the answer that it has. -/
theorem resolveChecked_eq (hc : r.Coherent) (hm : r.searchBudget ≤ m) {u : ModuleUnit}
    (hu : u ∈ r.units) (name : String) (mode : SearchMode) :
    r.resolveChecked remap m u name mode = some (r.resolve remap u name mode) := by
  have hends : (r.places remap).checked (fun p => some (r.hops remap p)) m ⟨u, name, mode⟩ [] =
      some ((r.places remap).guarded r.searchBudget ⟨u, name, mode⟩ []) :=
    SearchGraph.checked_stable (arena_places hc remap name) (fun _ _ => rfl)
      (within_start hu name mode) (card_placeMarks_lt r name) hm
  rw [resolveChecked, hends]
  rfl

theorem resolveInChecked_eq (hc : r.Coherent) (hm : r.searchBudget ≤ m) (module name : String) :
    r.resolveInChecked remap m module name = some (r.resolveIn remap module name) := by
  rw [resolveInChecked, resolveIn]
  cases hu : r.lookup module with
  | none => rfl
  | some u => exact resolveChecked_eq hc hm (mem_units_of_lookup hu) name .imports

/-- The bases of a declaration are found. -/
theorem basesChecked_eq (hc : r.Coherent) (hm : r.searchBudget ≤ m) {d : Resolved}
    (hd : r.Registered d) : r.basesChecked remap m d = some (r.bases remap d) := by
  have hresolve : (fun h : Heritage => r.resolveChecked remap m d.unit h.name .imports) =
      fun h => pure (r.resolve remap d.unit h.name .imports) := by
    funext h
    exact resolveChecked_eq hc hm hd.1 h.name .imports
  rw [basesChecked, hresolve, List.mapM_pure]
  show some (List.filterMap id (List.map _ _)) = _
  rw [List.filterMap_map]
  rfl

theorem findMemberChecked_eq (hc : r.Coherent) (hm : r.searchBudget ≤ m)
    (hn : r.heritageBudget ≤ n) {d : Resolved} (hd : r.Registered d) (name : String) :
    r.findMemberChecked remap m n d name = some (r.findMember remap d name) := by
  rw [findMemberChecked, SearchGraph.checked_stable (arena_heritage hc remap name)
    (fun _ hb => basesChecked_eq hc hm hb) hd (card_declarationMarks_lt r) hn]
  rfl

/-- Listing several declarations ends if listing each of them does. -/
theorem foldlM_collectChecked {P : Collection → Prop} (ds : List Resolved)
    (hkeep : ∀ d ∈ ds, ∀ w, P w → P (r.collect remap n false d w))
    (hends : ∀ d ∈ ds, ∀ w, P w →
      r.collectChecked remap m n false d w = some (r.collect remap n false d w)) :
    ∀ w, P w → ds.foldlM (fun w b => r.collectChecked remap m n false b w) w =
      some (r.collectAll remap n ds w) := by
  induction ds with
  | nil => intro w _; rfl
  | cons d ds ih =>
      intro w hw
      rw [List.foldlM_cons, hends d (List.mem_cons_self ..) w hw, collectAll_cons]
      exact ih (fun b hb => hkeep b (List.mem_cons_of_mem d hb))
        (fun b hb => hends b (List.mem_cons_of_mem d hb)) _ (hkeep d (List.mem_cons_self ..) w hw)

/-- A budget above the number of unseen declarations is never spent. -/
theorem collectChecked_eq (hc : r.Coherent) (hm : r.searchBudget ≤ m) (n : Nat) :
    ∀ (isRoot : Bool) (d : Resolved) (w : Collection), r.Registered d →
      SearchGraph.unseen r.declarationMarks w.seen < n →
      r.collectChecked remap m n isRoot d w = some (r.collect remap n isRoot d w) := by
  induction n with
  | zero => intro isRoot d w _ hn; exact absurd hn (Nat.not_lt_zero _)
  | succ n ih =>
      intro isRoot d w hd hn
      rw [collectChecked]
      by_cases hseen : d.id ∈ w.seen
      · rw [if_pos (List.contains_iff_mem.mpr hseen), collect_seen hseen]
      · rw [if_neg (mt List.contains_iff_mem.mp hseen), collect_new hseen, basesChecked_eq hc hm hd]
        have hmark : d.id ∈ r.declarationMarks := (arena_heritage hc remap "").mark_mem d hd
        have hlt : SearchGraph.unseen r.declarationMarks (w.add isRoot d).seen < n :=
          Nat.lt_of_lt_of_le (SearchGraph.unseen_cons_lt hmark hseen) (Nat.le_of_lt_succ hn)
        refine foldlM_collectChecked
          (P := fun v => SearchGraph.unseen r.declarationMarks v.seen < n) _ ?_ ?_ _ hlt
        · intro b _ v hv
          exact Nat.lt_of_le_of_lt (SearchGraph.unseen_le_of_subset (subset_collect n false b v)) hv
        · intro b hb v hv
          exact ih false b v (registered_of_mem_bases hd hb) hv

theorem membersChecked_eq (hc : r.Coherent) (hm : r.searchBudget ≤ m) (hn : r.heritageBudget ≤ n)
    {d : Resolved} (hd : r.Registered d) :
    r.membersChecked remap m n d = some (r.members remap d) := by
  have hunseen := Nat.lt_of_lt_of_le (unseen_lt_heritageBudget r) hn
  rw [membersChecked, collectChecked_eq hc hm n true d _ hd hunseen, members_stable hc hd hn]
  rfl

/-- A member that is found belongs to a registered declaration. -/
theorem registered_owner (hc : r.Coherent) {d : Resolved} (hd : r.Registered d) {name : String}
    {f : FoundMember} (h : r.findMember remap d name = some f) : r.Registered f.owner := by
  obtain ⟨c, hreach, -, hsuccess⟩ := SearchGraph.reaches_of_guarded _ _ _ f h
  have hreg := (arena_heritage hc remap name).reaches_mem hd hreach
  obtain ⟨_, -, rfl⟩ := Option.map_eq_some_iff.mp hsuccess
  exact hreg

/-- A path of members is followed to its end. -/
theorem followChecked_eq (hc : r.Coherent) (hm : r.searchBudget ≤ m) (hn : r.heritageBudget ≤ n)
    (segments : List String) :
    ∀ {d : Resolved}, r.Registered d →
      r.followChecked remap m n d segments = some (r.follow remap d segments) := by
  induction segments with
  | nil => intro d _; rfl
  | cons segment rest ih =>
      intro d hd
      have hfind : r.findMemberChecked remap m n d segment =
          some (r.findMember remap d segment) := findMemberChecked_eq hc hm hn hd segment
      cases rest with
      | nil =>
          rw [followChecked, hfind]
          rfl
      | cons s ss =>
          rw [followChecked, hfind, follow]
          · cases hf : r.findMember remap d segment with
            | none => rfl
            | some f =>
                have howner := registered_owner hc hd hf
                cases ht : f.member.typeName? with
                | none => simp [ht]
                | some name =>
                    have hresolve : r.resolveChecked remap m f.owner.unit name .imports =
                        some (r.resolve remap f.owner.unit name .imports) :=
                      resolveChecked_eq hc hm howner.1 name .imports
                    simp only [ht, hresolve, Option.bind_some]
                    cases hres : r.resolve remap f.owner.unit name .imports with
                    | none => rfl
                    | some next => exact ih (registered_of_resolve howner.1 hres)
          · exact List.cons_ne_nil s ss
          · exact List.cons_ne_nil s ss

theorem resolvePathChecked_eq (hc : r.Coherent) (hm : r.searchBudget ≤ m)
    (hn : r.heritageBudget ≤ n) {u : ModuleUnit} (hu : u ∈ r.units) (typeName path : String) :
    r.resolvePathChecked remap m n u typeName path =
      some (r.resolvePath remap u typeName path) := by
  rw [resolvePathChecked, resolveChecked_eq hc hm hu, resolvePath]
  cases hres : r.resolve remap u typeName .imports with
  | none => rfl
  | some d => exact followChecked_eq hc hm hn (pathSegments path) (registered_of_resolve hu hres)

-- ── All queries ──────────────────────────────────────────────────────────────────

/-- **Every query comes to an end.**  Take a registry that calls can build, and any remapping.

    A search for a name from a registered unit only looks at registered units, under the name at
    the start and the names that elements of imports and exports bring in; a search for a member
    and a listing of members from a registered declaration only look at registered declarations.
    Each of their calls that makes another one has enlarged the set of what was seen, which is
    within a finite set, the size of which is below the budget.

    On budgets that are not below those computed from the registry, for each search and each walk
    through heritage, every query ends and gives the same answer. -/
theorem queries_terminate (hr : r.Reachable) (remap : String → String) :
    (∀ u ∈ r.units, ∀ name mode,
      CallsConfined (r.places remap).Calls (r.Within name) Place.id (r.placeMarks name)
          ⟨u, name, mode⟩ ∧
        (r.placeMarks name).card < r.searchBudget) ∧
    (∀ d, r.Registered d →
      (∀ name, CallsConfined (r.heritage remap name).Calls r.Registered Resolved.id
        r.declarationMarks d) ∧
      CallsConfined (r.ListingCalls remap) r.Registered Resolved.id r.declarationMarks d ∧
      r.declarationMarks.card < r.heritageBudget) ∧
    ∀ m n, r.searchBudget ≤ m → r.heritageBudget ≤ n →
      (∀ u ∈ r.units, ∀ name mode,
        r.resolveChecked remap m u name mode = some (r.resolve remap u name mode)) ∧
      (∀ module name,
        r.resolveInChecked remap m module name = some (r.resolveIn remap module name)) ∧
      (∀ d, r.Registered d →
        (∀ name, r.findMemberChecked remap m n d name = some (r.findMember remap d name)) ∧
        r.membersChecked remap m n d = some (r.members remap d)) ∧
      ∀ u ∈ r.units, ∀ typeName path,
        r.resolvePathChecked remap m n u typeName path =
          some (r.resolvePath remap u typeName path) := by
  have hc := hr.coherent
  refine ⟨?_, ?_, ?_⟩
  · intro u hu name mode
    exact ⟨SearchGraph.calls_confined (arena_places hc remap name) (within_start hu name mode),
      card_placeMarks_lt r name⟩
  · intro d hd
    refine ⟨?_, ?_, card_declarationMarks_lt r⟩
    · intro name
      exact SearchGraph.calls_confined (arena_heritage hc remap name) hd
    · exact (SearchGraph.calls_confined (arena_lineage hc remap) hd).mono
        fun _ _ hcall => hcall.lineage
  · intro m n hm hn
    refine ⟨?_, resolveInChecked_eq hc hm, ?_, ?_⟩
    · intro u hu name mode
      exact resolveChecked_eq hc hm hu name mode
    · intro d hd
      exact ⟨findMemberChecked_eq hc hm hn hd, membersChecked_eq hc hm hn hd⟩
    · intro u hu typeName path
      exact resolvePathChecked_eq hc hm hn hu typeName path

/-- A class that extends another one. -/
def heir (name parent : String) : Declaration :=
  .ofClass ⟨some name, [], some ⟨parent, .reference parent []⟩, [], [], {}, default⟩

/-- An import of one name. -/
def bringIn (name module : String) : Statement :=
  .importing ⟨module, some ⟨none, some (.named [⟨name, none, false⟩])⟩, false, default⟩

/-- A module with a class that extends one of another module. -/
def leftModule : SourceUnit :=
  ⟨"left", [bringIn "Right" "./round", .declaration (heir "Left" "Right")]⟩

/-- The other module: its class extends the first one, it imports a name from itself, and it
    passes on both modules. -/
def roundModule : SourceUnit :=
  ⟨"round", [bringIn "Left" "./left", bringIn "Self" "./round", passOn "./left", passOn "./round",
    .declaration (heir "Right" "Left")]⟩

/-- Two modules that import, pass on and inherit from each other and from themselves. -/
def circle : Registry := afterCalls [.unit leftModule, .unit roundModule]

/-- In the circle, a search for a class and one for a member end without a result on all budgets
    that are large enough. -/
theorem circle_terminates :
    circle.Reachable ∧ ∀ m n, circle.searchBudget ≤ m → circle.heritageBudget ≤ n →
      circle.resolveChecked id m (.source roundModule) "Self" .imports = some none ∧
      circle.findMemberChecked id m n ⟨.source leftModule, heir "Left" "Right"⟩ "size" =
        some none := by
  have hr : circle.Reachable := ⟨_, rfl⟩
  have hround : .source roundModule ∈ circle.units := List.mem_cons_of_mem _ (List.mem_cons_self ..)
  have hleft : circle.Registered ⟨.source leftModule, heir "Left" "Right"⟩ :=
    ⟨List.mem_cons_self .., "Left", rfl⟩
  refine ⟨hr, ?_⟩
  intro m n hm hn
  obtain ⟨hresolve, -, hmember, -⟩ := (queries_terminate hr id).2.2 m n hm hn
  have hself : circle.resolve id (.source roundModule) "Self" .imports = none := rfl
  have hsize : circle.findMember id ⟨.source leftModule, heir "Left" "Right"⟩ "size" = none := rfl
  exact ⟨hself ▸ hresolve _ hround "Self" .imports, hsize ▸ (hmember _ hleft).1 "size"⟩

end Registry

end DeclAtlas

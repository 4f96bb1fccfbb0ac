import DeclAtlas.Module.Resolution
import DeclAtlas.Proofs.Resolution

/-!
# Finding a member and listing all members agree

`Registry.findMember` stops at the first declaration that has the name; `Registry.members` goes
on and hides what comes later.  The two walks are written apart.  Here they are run side by
side: until a declaration has the name, both have seen the same declarations
(`Registry.agrees_collect`), and once one has, the listing adds no member of this name any more
(`Registry.settled_collect`).  So the member that is found is the one to be chosen among the
listed members of its name (`Registry.findMember_agrees_with_members`).

The listing is not cut short: from a declaration that is registered, its budget is as good as any
larger one (`Registry.members_stable`).
-/

namespace DeclAtlas

/-- The members of this name. -/
def Declaration.membersNamed (d : Declaration) (name : String) : List Member :=
  d.members.filter (·.name == some name)

/-- The listed members of this name. -/
def FoundMember.named (entries : List FoundMember) (name : String) : List FoundMember :=
  entries.filter (·.member.name == some name)

/-- The listed member to be chosen: the first one with a declared type, or else the first one. -/
def FoundMember.chosen? (entries : List FoundMember) : Option FoundMember :=
  (entries.find? (·.member.declaredType?.isSome)).or entries.head?

/-- The listed members of a name are those among the listed ones that have it. -/
theorem FoundMember.mem_named {entries : List FoundMember} {name : String} {e : FoundMember} :
    e ∈ FoundMember.named entries name ↔ e ∈ entries ∧ e.member.name = some name := by
  rw [FoundMember.named, List.mem_filter, beq_iff_eq]

/-- Something is chosen from every list that is not empty. -/
theorem find?_or_head?_eq_none_iff {α : Type} {typed : α → Bool} {l : List α} :
    (l.find? typed).or l.head? = none ↔ l = [] := by
  rw [Option.or_eq_none_iff, List.head?_eq_none_iff]
  constructor
  · intro h
    exact h.2
  · intro h
    rw [h]
    exact ⟨rfl, rfl⟩

/-- A member is chosen unless there is none. -/
theorem FoundMember.chosen?_eq_none_iff {entries : List FoundMember} :
    FoundMember.chosen? entries = none ↔ entries = [] :=
  find?_or_head?_eq_none_iff

/-- A declaration chooses among its members of the name in the same way. -/
theorem Declaration.chosenMember?_eq (d : Declaration) (name : String) :
    d.chosenMember? name =
      ((d.membersNamed name).find? (·.declaredType?.isSome)).or (d.membersNamed name).head? :=
  Option.orElse_eq_or

theorem Declaration.chosenMember?_eq_none_iff {d : Declaration} {name : String} :
    d.chosenMember? name = none ↔ d.membersNamed name = [] := by
  rw [chosenMember?_eq]
  exact find?_or_head?_eq_none_iff

/-- Choosing among the members of a declaration is choosing among its listed members. -/
theorem FoundMember.chosen?_map (d : Resolved) (name : String) :
    FoundMember.chosen? ((d.declaration.membersNamed name).map (⟨·, d⟩)) =
      (d.declaration.chosenMember? name).map (⟨·, d⟩) := by
  unfold FoundMember.chosen?
  rw [List.find?_map, List.head?_map, Declaration.chosenMember?_eq, Option.map_or]
  rfl

namespace Collection

variable {w : Collection} {isRoot : Bool} {d : Resolved} {name : String}

/-- A member with a name is taken if the name is not. -/
theorem takes_of_named {m : Member} (hm : m.name = some name) :
    w.takes isRoot m = !w.names.contains name := by
  rw [takes, hm]

/-- A declaration adds its members of a name, unless the name is taken. -/
theorem named_add (w : Collection) (isRoot : Bool) (d : Resolved) (name : String) :
    FoundMember.named (w.add isRoot d).found name =
      FoundMember.named w.found name ++
        if name ∈ w.names then [] else (d.declaration.membersNamed name).map (⟨·, d⟩) := by
  unfold FoundMember.named add Declaration.membersNamed
  rw [List.filter_append, List.filter_map, List.filter_filter]
  congr 1
  by_cases hn : name ∈ w.names
  · rw [if_pos hn, List.map_eq_nil_iff, List.filter_eq_nil_iff]
    intro m _ hm
    obtain ⟨hname, htakes⟩ := Bool.and_eq_true _ _ |>.mp hm
    have hname : m.name = some name := by simpa using hname
    rw [takes_of_named hname] at htakes
    simp [hn] at htakes
  · rw [if_neg hn]
    congr 1
    refine List.filter_congr ?_
    intro m _
    by_cases hname : m.name = some name
    · rw [takes_of_named hname]
      simp [hname, hn]
    · simp [hname]

/-- A declaration adds the names of its members. -/
theorem mem_names_add : name ∈ (w.add isRoot d).names ↔
    name ∈ w.names ∨ d.declaration.membersNamed name ≠ [] := by
  show name ∈ w.names ++ (d.declaration.members.filter (w.takes isRoot)).filterMap (·.name) ↔ _
  rw [List.mem_append, List.mem_filterMap]
  by_cases hn : name ∈ w.names
  · exact ⟨fun _ => Or.inl hn, fun _ => Or.inl hn⟩
  · simp only [hn, false_or]
    constructor
    · rintro ⟨m, hm, hname⟩
      exact List.ne_nil_of_mem (List.mem_filter.mpr ⟨(List.mem_filter.mp hm).1, by simp [hname]⟩)
    · intro h
      obtain ⟨m, hm⟩ := List.exists_mem_of_ne_nil _ h
      obtain ⟨hmem, hname⟩ := List.mem_filter.mp hm
      have hname : m.name = some name := by simpa using hname
      refine ⟨m, List.mem_filter.mpr ⟨hmem, ?_⟩, hname⟩
      rw [takes_of_named hname]
      simpa using hn

end Collection

namespace Registry

variable {r : Registry} {remap : String → String} {name : String}

-- ── Unfolding the listing ────────────────────────────────────────────────────────

/-- Collects members from several declarations, one after the other. -/
def collectAll (r : Registry) (remap : String → String) (n : Nat) (ds : List Resolved)
    (w : Collection) : Collection :=
  ds.foldl (fun w b => r.collect remap n false b w) w

theorem collectAll_nil (n : Nat) (w : Collection) : r.collectAll remap n [] w = w := rfl

theorem collectAll_cons (n : Nat) (d : Resolved) (ds : List Resolved) (w : Collection) :
    r.collectAll remap n (d :: ds) w =
      r.collectAll remap n ds (r.collect remap n false d w) := rfl

/-- A declaration that was seen is not collected again. -/
theorem collect_seen {n : Nat} {isRoot : Bool} {d : Resolved} {w : Collection}
    (h : d.id ∈ w.seen) : r.collect remap (n + 1) isRoot d w = w := by
  rw [collect, if_pos h]

theorem collect_new {n : Nat} {isRoot : Bool} {d : Resolved} {w : Collection}
    (h : d.id ∉ w.seen) :
    r.collect remap (n + 1) isRoot d w =
      r.collectAll remap n (r.bases remap d) (w.add isRoot d) := by
  rw [collect, if_neg h]
  rfl

/-- What every declaration keeps of a collection is kept. -/
theorem collectAll_keeps {P : Collection → Prop} {n : Nat} (ds : List Resolved)
    (hstep : ∀ d ∈ ds, ∀ w, P w → P (r.collect remap n false d w)) :
    ∀ w, P w → P (r.collectAll remap n ds w) := by
  induction ds with
  | nil => intro w hw; exact hw
  | cons d ds ih =>
      intro w hw
      rw [collectAll_cons]
      exact ih (fun b hb => hstep b (by simp [hb])) _ (hstep d (by simp) w hw)

-- ── A name that is taken ─────────────────────────────────────────────────────────

/-- The name is taken, and these are its listed members. -/
def Settled (name : String) (entries : List FoundMember) (w : Collection) : Prop :=
  name ∈ w.names ∧ FoundMember.named w.found name = entries

/-- Once a name is taken, no member of it is listed any more. -/
theorem settled_collect {entries : List FoundMember} (n : Nat) :
    ∀ (isRoot : Bool) (d : Resolved) (w : Collection), Settled name entries w →
      Settled name entries (r.collect remap n isRoot d w) := by
  induction n with
  | zero => intro isRoot d w hw; exact hw
  | succ n ih =>
      intro isRoot d w hw
      by_cases hd : d.id ∈ w.seen
      · rw [collect_seen hd]
        exact hw
      · rw [collect_new hd]
        refine collectAll_keeps _ (fun b _ w => ih false b w) _ ⟨?_, ?_⟩
        · exact Collection.mem_names_add.mpr (Or.inl hw.1)
        · rw [Collection.named_add, if_pos hw.1, List.append_nil]
          exact hw.2

-- ── The two walks side by side ───────────────────────────────────────────────────

/-- A search for a name and a listing agree on it: if the search failed, both have seen the same
    declarations and the listing has no member of the name; if it found a member, the listing
    has settled on the members of this name that its declaration has. -/
def Agrees (name : String) (result : Option FoundMember × List (String × Option String))
    (w : Collection) : Prop :=
  match result with
  | (none, seen) => w.seen = seen ∧ name ∉ w.names ∧ FoundMember.named w.found name = []
  | (some f, _) =>
    f.owner.declaration.chosenMember? name = some f.member ∧
      Settled name ((f.owner.declaration.membersNamed name).map (⟨·, f.owner⟩)) w

/-- Searching several declarations agrees with listing them, if it does for each of them. -/
theorem agrees_collectAll {n : Nat} (ds : List Resolved)
    (hstep : ∀ d ∈ ds, ∀ w, name ∉ w.names → FoundMember.named w.found name = [] →
      Agrees name ((r.heritage remap name).guarded n d w.seen) (r.collect remap n false d w)) :
    ∀ w, name ∉ w.names → FoundMember.named w.found name = [] →
      Agrees name (firstSuccess ((r.heritage remap name).guarded n) ds w.seen)
        (r.collectAll remap n ds w) := by
  induction ds with
  | nil => intro w hn hw; exact ⟨rfl, hn, hw⟩
  | cons d ds ih =>
      intro w hn hw
      rw [collectAll_cons]
      have hd := hstep d (by simp) w hn hw
      cases hres : (r.heritage remap name).guarded n d w.seen with
      | mk o seen =>
          rw [hres] at hd
          cases o with
          | some f =>
              rw [firstSuccess_cons_some hres]
              exact ⟨hd.1, collectAll_keeps ds (fun b _ => settled_collect n false b) _ hd.2⟩
          | none =>
              obtain ⟨rfl, hn', hw'⟩ := hd
              rw [firstSuccess_cons_none hres]
              exact ih (fun b hb => hstep b (by simp [hb])) _ hn' hw'

theorem success?_heritage (d : Resolved) :
    (r.heritage remap name).success? d = (d.declaration.chosenMember? name).map (⟨·, d⟩) := rfl

/-- As long as a name is not taken, a search for it and the listing agree. -/
theorem agrees_collect (n : Nat) :
    ∀ (isRoot : Bool) (d : Resolved) (w : Collection), name ∉ w.names →
      FoundMember.named w.found name = [] →
      Agrees name ((r.heritage remap name).guarded n d w.seen)
        (r.collect remap n isRoot d w) := by
  induction n with
  | zero => intro isRoot d w hn hw; exact ⟨rfl, hn, hw⟩
  | succ n ih =>
      intro isRoot d w hn hw
      by_cases hd : d.id ∈ w.seen
      · rw [collect_seen hd, SearchGraph.guarded_skip (Or.inr hd)]
        exact ⟨rfl, hn, hw⟩
      · have hguard : ¬ ((r.heritage remap name).dead d = true ∨
            (r.heritage remap name).mark d ∈ w.seen) := by
          rintro (hdead | hmark)
          · exact nomatch hdead
          · exact hd hmark
        rw [collect_new hd]
        have hadd := Collection.named_add w isRoot d name
        rw [hw, if_neg hn, List.nil_append] at hadd
        cases hc : d.declaration.chosenMember? name with
        | some m =>
            -- found here: the listing takes all members of this name, and no other later
            have hsuccess : (r.heritage remap name).success? d = some ⟨m, d⟩ := by
              rw [success?_heritage, hc]
              rfl
            rw [SearchGraph.guarded_success hguard hsuccess]
            refine ⟨hc, collectAll_keeps _ (fun b _ => settled_collect n false b) _ ⟨?_, hadd⟩⟩
            refine Collection.mem_names_add.mpr (Or.inr ?_)
            intro hnil
            rw [Declaration.chosenMember?_eq_none_iff.mpr hnil] at hc
            exact nomatch hc
        | none =>
            have hnone : (r.heritage remap name).success? d = none := by
              rw [success?_heritage, hc]
              rfl
            have hnil := Declaration.chosenMember?_eq_none_iff.mp hc
            rw [SearchGraph.guarded_follow hguard hnone]
            refine agrees_collectAll (r.bases remap d) (fun b _ w => ih false b w)
              (w.add isRoot d) ?_ ?_
            · rw [Collection.mem_names_add]
              rintro (h | h)
              · exact hn h
              · exact h hnil
            · rw [hadd, hnil]
              rfl

-- ── The budget is large enough ───────────────────────────────────────────────────

/-- A registered unit, and the declaration that a name stands for there. -/
def Registered (r : Registry) (d : Resolved) : Prop :=
  d.unit ∈ r.units ∧ ∃ name, d.unit.declaration? name = some d.declaration

/-- What a name resolves to is registered. -/
theorem registered_of_resolve {u : ModuleUnit} (hu : u ∈ r.units) {mode : SearchMode}
    {d : Resolved} (h : r.resolve remap u name mode = some d) : r.Registered d := by
  obtain ⟨q, -, hunit, -, heq, hdecl⟩ := hit_of_resolve hu h
  rw [← heq] at hunit hdecl
  exact ⟨hunit, q.name, hdecl⟩

/-- What is inherited from is registered. -/
theorem registered_of_mem_bases {d b : Resolved} (hd : r.Registered d)
    (hb : b ∈ r.bases remap d) : r.Registered b := by
  obtain ⟨h, -, hres⟩ := List.mem_filterMap.mp hb
  exact registered_of_resolve hd.1 hres

/-- The marks of all declarations. -/
def declarationMarks (r : Registry) : Finset (String × Option String) :=
  (r.units.flatMap fun u => u.declarations.map fun x => (u.key, x.name)).toFinset

/-- The budget is larger than the number of declarations. -/
theorem card_declarationMarks_lt (r : Registry) :
    r.declarationMarks.card < r.heritageBudget := by
  have hcard := List.toFinset_card_le
    (r.units.flatMap fun u => u.declarations.map fun x => (u.key, x.name))
  have hlength : (r.units.flatMap fun u => u.declarations.map fun x => (u.key, x.name)).length =
      (r.units.flatMap (·.declarations)).length := by
    simp only [List.length_flatMap, List.length_map]
  rw [hlength] at hcard
  exact Nat.lt_succ_of_le hcard

/-- In a coherent registry, a walk is confined to the registered declarations, which their marks
    tell apart. -/
theorem arena_heritage (hc : r.Coherent) (remap : String → String) (name : String) :
    (r.heritage remap name).Arena r.Registered r.declarationMarks := by
  refine ⟨?_, ?_, ?_⟩
  · intro d b hd hstep
    exact registered_of_mem_bases hd hstep.2.2
  · rintro ⟨unit, declaration⟩ ⟨hunit, _, hdecl⟩
    refine List.mem_toFinset.mpr (List.mem_flatMap.mpr ⟨unit, hunit, ?_⟩)
    exact List.mem_map.mpr ⟨declaration, List.mem_of_find?_eq_some hdecl, rfl⟩
  · rintro ⟨unit, declaration⟩ ⟨unit', declaration'⟩ ⟨hunit, n, hdecl⟩ ⟨hunit', n', hdecl'⟩ hmark
    obtain ⟨hkey, hname⟩ := Prod.mk.inj hmark
    obtain rfl := hc.eq_of_key_eq hunit hunit' hkey
    -- both are what their common name stands for
    have hn : declaration.name = some n := by simpa using List.find?_some hdecl
    have hn' : declaration'.name = some n' := by simpa using List.find?_some hdecl'
    obtain rfl : n = n' := Option.some.inj (hn.symm.trans (hname.trans hn'))
    obtain rfl := Option.some.inj (hdecl.symm.trans hdecl')
    rfl

/-- What has been seen stays seen. -/
theorem subset_collect (n : Nat) :
    ∀ (isRoot : Bool) (d : Resolved) (w : Collection),
      w.seen ⊆ (r.collect remap n isRoot d w).seen := by
  induction n with
  | zero => intro isRoot d w; exact List.Subset.refl _
  | succ n ih =>
      intro isRoot d w
      by_cases hd : d.id ∈ w.seen
      · rw [collect_seen hd]
        exact List.Subset.refl _
      · rw [collect_new hd]
        refine collectAll_keeps (P := fun v => w.seen ⊆ v.seen) _ ?_ _
          (List.subset_cons_self _ _)
        intro b _ v hv
        exact List.Subset.trans hv (ih false b v)

/-- Walks that agree on the collections they meet collect the same. -/
theorem collectAll_congr {P : Collection → Prop} {n m : Nat} (ds : List Resolved)
    (hkeep : ∀ d ∈ ds, ∀ w, P w → P (r.collect remap n false d w))
    (hagree : ∀ d ∈ ds, ∀ w, P w →
      r.collect remap n false d w = r.collect remap m false d w) :
    ∀ w, P w → r.collectAll remap n ds w = r.collectAll remap m ds w := by
  induction ds with
  | nil => intro w _; rfl
  | cons d ds ih =>
      intro w hw
      rw [collectAll_cons, collectAll_cons, ← hagree d (by simp) w hw]
      exact ih (fun b hb => hkeep b (by simp [hb])) (fun b hb => hagree b (by simp [hb])) _
        (hkeep d (by simp) w hw)

/-- A budget above the number of unseen declarations is as good as any larger one. -/
theorem collect_stable (hc : r.Coherent) (n : Nat) :
    ∀ (m : Nat) (isRoot : Bool) (d : Resolved) (w : Collection), r.Registered d →
      SearchGraph.unseen r.declarationMarks w.seen < n → n ≤ m →
      r.collect remap n isRoot d w = r.collect remap m isRoot d w := by
  induction n with
  | zero => intro m isRoot d w _ hn; exact absurd hn (Nat.not_lt_zero _)
  | succ n ih =>
      intro m isRoot d w hd hn hnm
      obtain ⟨m, rfl⟩ : ∃ m', m = m' + 1 := ⟨m - 1, by omega⟩
      by_cases hseen : d.id ∈ w.seen
      · rw [collect_seen hseen, collect_seen hseen]
      · rw [collect_new hseen, collect_new hseen]
        have hmark : d.id ∈ r.declarationMarks := (arena_heritage hc remap "").mark_mem d hd
        have hlt : SearchGraph.unseen r.declarationMarks (w.add isRoot d).seen < n := by
          have hcons := SearchGraph.unseen_cons_lt hmark hseen
          exact Nat.lt_of_lt_of_le hcons (Nat.le_of_lt_succ hn)
        refine collectAll_congr (P := fun v => SearchGraph.unseen r.declarationMarks v.seen < n)
          _ ?_ ?_ _ hlt
        · intro b _ v hv
          exact Nat.lt_of_le_of_lt
            (SearchGraph.unseen_le_of_subset (subset_collect n false b v)) hv
        · intro b hb v hv
          exact ih m false b v (registered_of_mem_bases hd hb) hv (by omega)

/-- So the budget covers all that has not been seen. -/
theorem unseen_lt_heritageBudget (r : Registry) :
    SearchGraph.unseen r.declarationMarks [] < r.heritageBudget :=
  Nat.lt_of_le_of_lt (SearchGraph.unseen_le_card _ _) (card_declarationMarks_lt r)

/-- No listing of members is cut short. -/
theorem members_stable (hc : r.Coherent) {d : Resolved} (hd : r.Registered d) {n : Nat}
    (hn : r.heritageBudget ≤ n) :
    r.members remap d = (r.collect remap n true d ⟨[], [], []⟩).found := by
  rw [members, collect_stable hc _ n true d _ hd (unseen_lt_heritageBudget r) hn]

-- ── What is found and what is listed ─────────────────────────────────────────────

/-- What is found, said of the listing. -/
theorem agrees_members (r : Registry) (remap : String → String) (d : Resolved) (name : String) :
    match r.findMember remap d name with
    | none => FoundMember.named (r.members remap d) name = []
    | some f =>
      f.owner.declaration.chosenMember? name = some f.member ∧
        FoundMember.named (r.members remap d) name =
          (f.owner.declaration.membersNamed name).map (⟨·, f.owner⟩) := by
  have h : Agrees name ((r.heritage remap name).guarded r.heritageBudget d [])
      (r.collect remap r.heritageBudget true d ⟨[], [], []⟩) :=
    agrees_collect r.heritageBudget true d ⟨[], [], []⟩ (fun h => nomatch h) rfl
  unfold findMember members
  cases hres : (r.heritage remap name).guarded r.heritageBudget d [] with
  | mk o seen =>
      rw [hres] at h
      cases o with
      | none => exact h.2.2
      | some f => exact ⟨h.1, h.2.2⟩

/-- The member that is found is the one to be chosen among the listed members of its name. -/
theorem findMember_eq_chosen? (r : Registry) (remap : String → String) (d : Resolved)
    (name : String) :
    r.findMember remap d name =
      FoundMember.chosen? (FoundMember.named (r.members remap d) name) := by
  have h := agrees_members r remap d name
  cases hf : r.findMember remap d name with
  | none =>
      rw [hf] at h
      rw [h]
      rfl
  | some f =>
      rw [hf] at h
      rw [h.2, FoundMember.chosen?_map, h.1]
      rfl

/-- A name without points is a path of one segment. -/
theorem pathSegments_of_not_dotted (hne : name ≠ "") (hdot : '.' ∉ name.toList) :
    pathSegments name = [name] := by
  have hnil : name.toList ≠ [] := fun h => hne (String.toList_eq_nil_iff.mp h)
  have hpieces : Text.pieces (· == '.') name.toList = [name.toList] := by
    refine Text.pieces_of_not_sep ?_
    intro c hc
    exact beq_eq_false_iff_ne.mpr (fun h => hdot (h ▸ hc))
  rw [pathSegments, hpieces, List.filter_cons_of_pos (by simpa using hnil)]
  simp

/-- **Finding a member and listing all members agree.**  A member of some name is found from a
    declaration exactly if one is listed; all listed members of the name belong to the
    declaration of the member found, and they are its members of this name in their order; and
    the member found is the first of them with a declared type, or the first of them if none has
    one.  So a path of one segment ends at the type name of this member. -/
theorem findMember_agrees_with_members (r : Registry) (remap : String → String) (name : String) :
    (∀ d,
      ((∃ f, r.findMember remap d name = some f) ↔
        ∃ e ∈ r.members remap d, e.member.name = some name) ∧
      ∀ f, r.findMember remap d name = some f →
        (∀ e ∈ r.members remap d, e.member.name = some name → e.owner = f.owner) ∧
        FoundMember.named (r.members remap d) name =
          (f.owner.declaration.membersNamed name).map (⟨·, f.owner⟩) ∧
        FoundMember.chosen? (FoundMember.named (r.members remap d) name) = some f) ∧
    (name ≠ "" → '.' ∉ name.toList → ∀ u typeName,
      r.resolvePath remap u typeName name =
        (r.resolve remap u typeName .imports).bind fun d =>
          (FoundMember.chosen? (FoundMember.named (r.members remap d) name)).bind
            (·.member.typeName?)) := by
  constructor
  · intro d
    have h := agrees_members r remap d name
    refine ⟨?_, ?_⟩
    · rw [findMember_eq_chosen?, ← Option.ne_none_iff_exists', Ne,
        FoundMember.chosen?_eq_none_iff]
      constructor
      · intro hne
        obtain ⟨e, he⟩ := List.exists_mem_of_ne_nil _ hne
        exact ⟨e, FoundMember.mem_named.mp he⟩
      · rintro ⟨e, he⟩
        exact List.ne_nil_of_mem (FoundMember.mem_named.mpr he)
    · intro f hf
      have hchosen := findMember_eq_chosen? r remap d name
      rw [hf] at h hchosen
      refine ⟨?_, h.2, hchosen.symm⟩
      intro e he hname
      have hmem := FoundMember.mem_named.mpr ⟨he, hname⟩
      rw [h.2] at hmem
      obtain ⟨m, -, rfl⟩ := List.mem_map.mp hmem
      rfl
  · intro hne hdot u typeName
    rw [resolvePath, pathSegments_of_not_dotted hne hdot]
    congr 1
    funext d
    rw [follow, findMember_eq_chosen?]

end Registry

end DeclAtlas

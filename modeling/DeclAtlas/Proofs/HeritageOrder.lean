import DeclAtlas.Proofs.Inheritance

/-!
# The listing of members follows the order of heritage

`Registry.members` walks the heritage of a declaration with three things in hand that change on
the way: the names taken, the declarations seen, and the members found.  Here its result is said
without them.

`Registry.Preorder` puts the declarations that one inherits from into an order: depth first, the
bases of a declaration in the order in which they are written, each declaration where it is first
met.  It is a relation on the declarations themselves and knows neither members nor marks nor a
budget.  `Registry.listing` reads the members off such an order, declaration by declaration.

The heart of the argument is `Registry.collect_goesAlong`: what the walk collects from a
declaration is what `Collection.add` collects along a stretch of the order, one declaration after
the other.  From there on the walk is out of the picture, and the members collected along an order
are those of its listing (`Registry.found_foldl_add`).

* **`Registry.members_eq_listing`** — the members of a declaration are the listing of its order,
  which is the only one, and holds exactly the declarations that are inherited from.
-/

namespace DeclAtlas

/-- The declaration has a member of this name. -/
def Declaration.declares (d : Declaration) (name : String) : Bool :=
  d.members.any (·.name == some name)

/-- A declaration declares a name if it has a member of it. -/
theorem Declaration.declares_iff {d : Declaration} {name : String} :
    d.declares name = true ↔ ∃ m ∈ d.members, m.name = some name := by
  simp [declares]

theorem Declaration.declares_iff_membersNamed {d : Declaration} {name : String} :
    d.declares name = true ↔ d.membersNamed name ≠ [] := by
  rw [declares_iff, membersNamed, Ne, List.filter_eq_nil_iff]
  simp

namespace Registry

variable {r : Registry} {remap : String → String}

-- ── The order of heritage ────────────────────────────────────────────────────────

/-- One declaration inherits from another one, directly or through others; each from itself. -/
def InheritsFrom (r : Registry) (remap : String → String) : Resolved → Resolved → Prop :=
  Relation.ReflTransGen fun d b => b ∈ r.bases remap d

/-- `Preorder seen stack order`: a walk that has seen `seen`, and has `stack` still to look at,
    meets the declarations of `order`, each where it comes to it first.  The bases of a
    declaration are looked at right after it. -/
inductive Preorder (r : Registry) (remap : String → String) :
    List Resolved → List Resolved → List Resolved → Prop
  | done {seen : List Resolved} : Preorder r remap seen [] []
  | again {d : Resolved} {seen stack order : List Resolved} :
      d ∈ seen → Preorder r remap seen stack order → Preorder r remap seen (d :: stack) order
  | first {d : Resolved} {seen stack order : List Resolved} :
      d ∉ seen → Preorder r remap (d :: seen) (r.bases remap d ++ stack) order →
      Preorder r remap seen (d :: stack) (d :: order)

/-- A preorder of the heritage is unique. -/
theorem Preorder.unique {seen stack order order' : List Resolved}
    (h : r.Preorder remap seen stack order) (h' : r.Preorder remap seen stack order') :
    order' = order := by
  induction h generalizing order' with
  | done => cases h'; rfl
  | again hd _ ih =>
      cases h' with
      | again _ h' => exact ih h'
      | first hnew _ => exact absurd hd hnew
  | first hnew _ ih =>
      cases h' with
      | again hd _ => exact absurd hd hnew
      | first _ h' => rw [ih h']

/-- An order holds nothing that was seen before, and nothing twice. -/
theorem Preorder.nodup {seen stack order : List Resolved}
    (h : r.Preorder remap seen stack order) : order.Nodup ∧ ∀ d ∈ order, d ∉ seen := by
  induction h with
  | done => exact ⟨List.nodup_nil, List.forall_mem_nil _⟩
  | again _ _ ih => exact ih
  | first hnew _ ih =>
      obtain ⟨hnodup, hunseen⟩ := ih
      refine ⟨List.nodup_cons.mpr ⟨?_, hnodup⟩, List.forall_mem_cons.mpr ⟨hnew, ?_⟩⟩
      · intro hd
        exact hunseen _ hd (List.mem_cons_self ..)
      · intro e he hseen
        exact hunseen e he (List.mem_cons_of_mem _ hseen)

/-- Whatever is met is inherited from by something on the stack. -/
theorem Preorder.inheritsFrom {seen stack order : List Resolved}
    (h : r.Preorder remap seen stack order) :
    ∀ e ∈ order, ∃ d ∈ stack, r.InheritsFrom remap d e := by
  induction h with
  | done => exact List.forall_mem_nil _
  | again _ _ ih =>
      intro e he
      obtain ⟨d, hd, hde⟩ := ih e he
      exact ⟨d, List.mem_cons_of_mem _ hd, hde⟩
  | @first d seen stack order _ _ ih =>
      intro e he
      rcases List.mem_cons.mp he with rfl | he
      · exact ⟨e, List.mem_cons_self .., Relation.ReflTransGen.refl⟩
      · obtain ⟨x, hx, hxe⟩ := ih e he
        rcases List.mem_append.mp hx with hbase | hstack
        · exact ⟨d, List.mem_cons_self .., Relation.ReflTransGen.head hbase hxe⟩
        · exact ⟨x, List.mem_cons_of_mem _ hstack, hxe⟩

/-- The whole stack is met in the end, and the bases of all that is met, if those of what was seen
    before were seen or are on the stack. -/
theorem Preorder.closed {seen stack order : List Resolved}
    (h : r.Preorder remap seen stack order)
    (hseen : ∀ s ∈ seen, ∀ b ∈ r.bases remap s, b ∈ seen ∨ b ∈ stack) :
    (∀ d ∈ stack, d ∈ seen ∨ d ∈ order) ∧
      ∀ d, d ∈ seen ∨ d ∈ order → ∀ b ∈ r.bases remap d, b ∈ seen ∨ b ∈ order := by
  induction h with
  | @done seen =>
      refine ⟨List.forall_mem_nil _, ?_⟩
      rintro d (hd | hd) b hb
      · exact hseen d hd b hb
      · exact nomatch hd
  | @again d seen stack order hd _ ih =>
      have hstack : ∀ s ∈ seen, ∀ b ∈ r.bases remap s, b ∈ seen ∨ b ∈ stack := by
        intro s hs b hb
        rcases hseen s hs b hb with hb | hb
        · exact Or.inl hb
        · rcases List.mem_cons.mp hb with rfl | hb
          · exact Or.inl hd
          · exact Or.inr hb
      obtain ⟨hmet, hclosed⟩ := ih hstack
      exact ⟨List.forall_mem_cons.mpr ⟨Or.inl hd, hmet⟩, hclosed⟩
  | @first d seen stack order _ _ ih =>
      have hstack : ∀ s ∈ d :: seen, ∀ b ∈ r.bases remap s,
          b ∈ d :: seen ∨ b ∈ r.bases remap d ++ stack := by
        intro s hs b hb
        rcases List.mem_cons.mp hs with rfl | hs
        · exact Or.inr (List.mem_append_left _ hb)
        · rcases hseen s hs b hb with hb | hb
          · exact Or.inl (List.mem_cons_of_mem _ hb)
          · rcases List.mem_cons.mp hb with rfl | hb
            · exact Or.inl (List.mem_cons_self ..)
            · exact Or.inr (List.mem_append_right _ hb)
      obtain ⟨hmet, hclosed⟩ := ih hstack
      have hmove : ∀ x, x ∈ d :: seen ∨ x ∈ order ↔ x ∈ seen ∨ x ∈ d :: order := by
        intro x
        simp only [List.mem_cons]
        tauto
      refine ⟨List.forall_mem_cons.mpr ⟨Or.inr (List.mem_cons_self ..), ?_⟩, ?_⟩
      · intro x hx
        exact (hmove x).mp (hmet x (List.mem_append_right _ hx))
      · intro x hx b hb
        exact (hmove b).mp (hclosed x ((hmove x).mpr hx) b hb)

/-- An order from one declaration holds exactly what that declaration inherits from. -/
theorem Preorder.mem_iff {d : Resolved} {order : List Resolved}
    (h : r.Preorder remap [] [d] order) (e : Resolved) :
    e ∈ order ↔ r.InheritsFrom remap d e := by
  constructor
  · intro he
    obtain ⟨x, hx, hxe⟩ := h.inheritsFrom e he
    rwa [List.mem_singleton.mp hx] at hxe
  · intro he
    obtain ⟨hmet, hclosed⟩ := h.closed (List.forall_mem_nil _)
    have hall : e ∈ ([] : List Resolved) ∨ e ∈ order := by
      induction he with
      | refl => exact hmet d (List.mem_cons_self ..)
      | tail _ hb ih => exact hclosed _ ih _ hb
    rcases hall with hnil | hmem
    · exact nomatch hnil
    · exact hmem

-- ── The members along an order ───────────────────────────────────────────────────

/-- The members that the declarations of an order add to those before it: of each, the ones with a
    name that no declaration before it has a member of. -/
def inheritedMembers (earlier : List Resolved) : List Resolved → List FoundMember
  | [] => []
  | d :: ds =>
    (d.declaration.members.filter fun m =>
        m.name.any fun name => !earlier.any (·.declaration.declares name)).map (⟨·, d⟩) ++
      inheritedMembers (earlier ++ [d]) ds

/-- The members along an order: all those of the first declaration, then what the others add. -/
def listing : List Resolved → List FoundMember
  | [] => []
  | d :: ds => d.declaration.members.map (⟨·, d⟩) ++ inheritedMembers [d] ds

/-- These are the names of the members that the declarations have. -/
def TakesNamesOf (w : Collection) (earlier : List Resolved) : Prop :=
  ∀ name, name ∈ w.names ↔ earlier.any (·.declaration.declares name) = true

/-- With a declaration, all names of its members are taken. -/
theorem TakesNamesOf.add {w : Collection} {earlier : List Resolved} (h : TakesNamesOf w earlier)
    (isRoot : Bool) (d : Resolved) : TakesNamesOf (w.add isRoot d) (earlier ++ [d]) := by
  intro name
  rw [Collection.mem_names_add, h name, ← Declaration.declares_iff_membersNamed, List.any_append]
  simp

/-- What is collected along an order is what the listing says. -/
theorem found_foldl_add (ds : List Resolved) :
    ∀ (earlier : List Resolved) (w : Collection), TakesNamesOf w earlier →
      (ds.foldl (fun w d => w.add false d) w).found = w.found ++ inheritedMembers earlier ds := by
  induction ds with
  | nil => intro earlier w _; exact (List.append_nil _).symm
  | cons d ds ih =>
      intro earlier w hw
      rw [List.foldl_cons, ih (earlier ++ [d]) _ (hw.add false d), inheritedMembers,
        ← List.append_assoc]
      congr 1
      show w.found ++ (d.declaration.members.filter (w.takes false)).map (⟨·, d⟩) = _
      congr 2
      refine List.filter_congr ?_
      intro m _
      cases hm : m.name with
      | none => simp [Collection.takes, hm]
      | some name =>
          rw [Collection.takes_of_named hm, Option.any_some]
          congr 1
          rw [Bool.eq_iff_iff, List.contains_iff_mem]
          exact hw name

theorem seen_foldl_add (ds : List Resolved) :
    ∀ w : Collection, (ds.foldl (fun w d => w.add false d) w).seen =
      ds.reverse.map Resolved.id ++ w.seen := by
  induction ds with
  | nil => intro w; rfl
  | cons d ds ih =>
      intro w
      rw [List.foldl_cons, ih, List.reverse_cons, List.map_append, List.append_assoc]
      rfl

-- ── The walk goes along the order ────────────────────────────────────────────────

/-- A collection stands for these declarations: they are registered, it has seen exactly their
    marks, and fewer than `n` marks are left. -/
structure StandsFor (r : Registry) (n : Nat) (w : Collection) (seen : List Resolved) : Prop where
  registered : ∀ s ∈ seen, r.Registered s
  marks : w.seen = seen.map Resolved.id
  left : SearchGraph.unseen r.declarationMarks w.seen < n

/-- From `w` to `w'`, declarations were added along the order of a walk over `ds`. -/
def GoesAlong (r : Registry) (remap : String → String) (seen ds : List Resolved)
    (w w' : Collection) : Prop :=
  ∃ order, w' = order.foldl (fun w d => w.add false d) w ∧ (∀ e ∈ order, r.Registered e) ∧
    ∀ stack out, r.Preorder remap (order.reverse ++ seen) stack out →
      r.Preorder remap seen (ds ++ stack) (order ++ out)

/-- Behind declarations that were added, a collection stands for these as well. -/
theorem StandsFor.foldl_add {n : Nat} {w : Collection} {seen order : List Resolved}
    (h : r.StandsFor n w seen) (horder : ∀ e ∈ order, r.Registered e) :
    r.StandsFor n (order.foldl (fun w d => w.add false d) w) (order.reverse ++ seen) := by
  refine ⟨?_, ?_, ?_⟩
  · intro s hs
    rcases List.mem_append.mp hs with hs | hs
    · exact horder s (List.mem_reverse.mp hs)
    · exact h.registered s hs
  · rw [seen_foldl_add, h.marks, List.map_append]
  · refine Nat.lt_of_le_of_lt (SearchGraph.unseen_le_of_subset ?_) h.left
    rw [seen_foldl_add]
    exact List.subset_append_right _ _

/-- If the walk from each of several declarations goes along the order, so does the walk over all
    of them. -/
theorem collectAll_goesAlong {n : Nat} (ds : List Resolved)
    (hstep : ∀ d ∈ ds, ∀ w seen, r.StandsFor n w seen →
      r.GoesAlong remap seen [d] w (r.collect remap n false d w)) :
    ∀ w seen, r.StandsFor n w seen →
      r.GoesAlong remap seen ds w (r.collectAll remap n ds w) := by
  induction ds with
  | nil => intro w seen _; exact ⟨[], rfl, List.forall_mem_nil _, fun _ _ h => h⟩
  | cons d ds ih =>
      intro w seen hw
      obtain ⟨front, hfront, hregistered, hpre⟩ := hstep d (List.mem_cons_self ..) w seen hw
      obtain ⟨back, hback, hregistered', hpre'⟩ :=
        ih (fun b hb => hstep b (List.mem_cons_of_mem d hb)) _ _ (hw.foldl_add hregistered)
      refine ⟨front ++ back, ?_, List.forall_mem_append.mpr ⟨hregistered, hregistered'⟩, ?_⟩
      · rw [collectAll_cons, hfront, hback, List.foldl_append]
      · intro stack out h
        rw [List.append_assoc, List.cons_append]
        refine hpre _ _ (hpre' _ _ ?_)
        rwa [List.reverse_append, List.append_assoc] at h

/-- On a large enough budget, the walk from a declaration goes along the order. -/
theorem collect_goesAlong (hc : r.Coherent) (n : Nat) :
    ∀ d, r.Registered d → ∀ w seen, r.StandsFor n w seen →
      r.GoesAlong remap seen [d] w (r.collect remap n false d w) := by
  induction n with
  | zero => intro d _ w seen hw; exact absurd hw.left (Nat.not_lt_zero _)
  | succ n ih =>
      intro d hd w seen hw
      have harena := arena_heritage hc remap ""
      have hmem : d.id ∈ w.seen ↔ d ∈ seen := by
        rw [hw.marks, List.mem_map]
        constructor
        · -- marks tell registered declarations apart
          rintro ⟨s, hs, hid⟩
          rwa [← harena.mark_inj s d (hw.registered s hs) hd hid]
        · intro hs
          exact ⟨d, hs, rfl⟩
      by_cases hmark : d.id ∈ w.seen
      · rw [collect_seen hmark]
        exact ⟨[], rfl, List.forall_mem_nil _, fun _ _ h => .again (hmem.mp hmark) h⟩
      · have hlt := SearchGraph.unseen_cons_lt (harena.mark_mem d hd) hmark
        have hadd : r.StandsFor n (w.add false d) (d :: seen) :=
          ⟨List.forall_mem_cons.mpr ⟨hd, hw.registered⟩, congrArg (d.id :: ·) hw.marks,
            Nat.lt_of_lt_of_le hlt (Nat.le_of_lt_succ hw.left)⟩
        obtain ⟨order, hcollect, hregistered, hpre⟩ :=
          collectAll_goesAlong (r.bases remap d)
            (fun b hb => ih b (registered_of_mem_bases hd hb)) _ _ hadd
        rw [collect_new hmark]
        refine ⟨d :: order, hcollect, List.forall_mem_cons.mpr ⟨hd, hregistered⟩, ?_⟩
        intro stack out h
        refine .first (mt hmem.mpr hmark) (hpre stack out ?_)
        rwa [List.reverse_cons, List.append_assoc] at h

theorem found_add_root (d : Resolved) :
    (Collection.add ⟨[], [], []⟩ true d).found = d.declaration.members.map (⟨·, d⟩) := by
  have hall : d.declaration.members.filter (Collection.takes ⟨[], [], []⟩ true) =
      d.declaration.members := by
    rw [List.filter_eq_self]
    intro m _
    cases hm : m.name <;> simp [Collection.takes, hm]
  simp [Collection.add, hall]

/-- There is an order from every registered declaration, and the members are its listing. -/
theorem exists_preorder (hc : r.Coherent) (remap : String → String) {d : Resolved}
    (hd : r.Registered d) :
    ∃ rest, r.Preorder remap [] [d] (d :: rest) ∧ r.members remap d = listing (d :: rest) := by
  have hroot : r.StandsFor r.heritageBudget (Collection.add ⟨[], [], []⟩ true d) [d] :=
    ⟨List.forall_mem_cons.mpr ⟨hd, List.forall_mem_nil _⟩, rfl,
      Nat.lt_of_le_of_lt (SearchGraph.unseen_le_card _ _) (card_declarationMarks_lt r)⟩
  have hbases : ∀ b ∈ r.bases remap d, ∀ w seen, r.StandsFor r.heritageBudget w seen →
      r.GoesAlong remap seen [b] w (r.collect remap r.heritageBudget false b w) :=
    fun b hb => collect_goesAlong hc _ b (registered_of_mem_bases hd hb)
  obtain ⟨rest, hcollect, -, hpre⟩ := collectAll_goesAlong (r.bases remap d) hbases _ _ hroot
  have horder := hpre [] [] .done
  rw [List.append_nil rest] at horder
  refine ⟨rest, .first List.not_mem_nil horder, ?_⟩
  have hempty : TakesNamesOf ⟨[], [], []⟩ [] := fun _ => by simp
  have hnames : TakesNamesOf (Collection.add ⟨[], [], []⟩ true d) [d] := hempty.add true d
  rw [members_stable hc hd (Nat.le_succ _), collect_new List.not_mem_nil, hcollect,
    found_foldl_add rest [d] _ hnames, found_add_root, listing]

-- ── Names and owners ─────────────────────────────────────────────────────────────

/-- What the later declarations of an order add has a name, and belongs to one of them. -/
theorem mem_inheritedMembers {e : FoundMember} (ds : List Resolved) :
    ∀ earlier, e ∈ inheritedMembers earlier ds →
      e.owner ∈ ds ∧ e.member ∈ e.owner.declaration.members ∧ e.member.name ≠ none := by
  induction ds with
  | nil => intro earlier he; exact nomatch he
  | cons d ds ih =>
      intro earlier he
      rw [inheritedMembers, List.mem_append] at he
      rcases he with he | he
      · obtain ⟨m, hm, rfl⟩ := List.mem_map.mp he
        obtain ⟨hmem, hname⟩ := List.mem_filter.mp hm
        refine ⟨List.mem_cons_self .., hmem, ?_⟩
        intro hnone
        rw [show m.name = none from hnone] at hname
        exact nomatch hname
      · obtain ⟨howner, hmem, hname⟩ := ih _ he
        exact ⟨List.mem_cons_of_mem d howner, hmem, hname⟩

/-- A name that a declaration has is listed, unless a declaration before the order has it. -/
theorem exists_inheritedMembers {name : String} {o : Resolved} (ho : o.declaration.declares name)
    (ds : List Resolved) :
    ∀ earlier : List Resolved, earlier.any (·.declaration.declares name) = false → o ∈ ds →
      ∃ e ∈ inheritedMembers earlier ds, e.member.name = some name := by
  induction ds with
  | nil => intro earlier _ hmem; exact nomatch hmem
  | cons d ds ih =>
      intro earlier hnew hmem
      rw [inheritedMembers]
      by_cases hd : d.declaration.declares name = true
      · obtain ⟨m, hm, hname⟩ := Declaration.declares_iff.mp hd
        refine ⟨⟨m, d⟩, List.mem_append_left _ (List.mem_map_of_mem (List.mem_filter.mpr ⟨hm, ?_⟩)),
          hname⟩
        simp only [hname, Option.any_some, hnew]
        rfl
      · have hne : o ≠ d := fun h => hd (h ▸ ho)
        have hrest : o ∈ ds := (List.mem_cons.mp hmem).resolve_left hne
        have hnew' : (earlier ++ [d]).any (·.declaration.declares name) = false := by
          simp [List.any_append, hnew, hd]
        obtain ⟨e, he, hname⟩ := ih _ hnew' hrest
        exact ⟨e, List.mem_append_right _ he, hname⟩

/-- The names listed are those of all members of the declarations of the order. -/
theorem exists_listing_iff {d : Resolved} {rest : List Resolved} {name : String} :
    (∃ e ∈ listing (d :: rest), e.member.name = some name) ↔
      ∃ o ∈ d :: rest, ∃ m ∈ o.declaration.members, m.name = some name := by
  rw [listing]
  constructor
  · rintro ⟨e, he, hname⟩
    rcases List.mem_append.mp he with he | he
    · obtain ⟨m, hm, rfl⟩ := List.mem_map.mp he
      exact ⟨d, List.mem_cons_self .., m, hm, hname⟩
    · obtain ⟨howner, hmem, -⟩ := mem_inheritedMembers rest _ he
      exact ⟨e.owner, List.mem_cons_of_mem d howner, e.member, hmem, hname⟩
  · rintro ⟨o, ho, hdeclares⟩
    by_cases hd : d.declaration.declares name = true
    · obtain ⟨m, hm, hname⟩ := Declaration.declares_iff.mp hd
      exact ⟨⟨m, d⟩, List.mem_append_left _ (List.mem_map_of_mem hm), hname⟩
    · have hdeclares := Declaration.declares_iff.mpr hdeclares
      have hne : o ≠ d := fun h => hd (h ▸ hdeclares)
      obtain ⟨e, he, hname⟩ := exists_inheritedMembers hdeclares rest [d] (by simp [hd])
        ((List.mem_cons.mp ho).resolve_left hne)
      exact ⟨e, List.mem_append_right _ he, hname⟩

/-- All listed members of a name have one owner. -/
theorem owner_eq_of_name_eq (r : Registry) (remap : String → String) (d : Resolved)
    {e e' : FoundMember} (he : e ∈ r.members remap d) (he' : e' ∈ r.members remap d)
    (hname : e.member.name ≠ none) (heq : e'.member.name = e.member.name) :
    e'.owner = e.owner := by
  obtain ⟨name, hsome⟩ := Option.ne_none_iff_exists'.mp hname
  have hmem := FoundMember.mem_named.mpr ⟨he, hsome⟩
  have hmem' := FoundMember.mem_named.mpr ⟨he', heq.trans hsome⟩
  have h := agrees_members r remap d name
  cases hf : r.findMember remap d name with
  | none =>
      rw [hf] at h
      rw [h] at hmem
      exact nomatch hmem
  | some f =>
      rw [hf] at h
      rw [h.2] at hmem hmem'
      obtain ⟨_, -, rfl⟩ := List.mem_map.mp hmem
      obtain ⟨_, -, rfl⟩ := List.mem_map.mp hmem'
      rfl

/-- **The members of a declaration are the listing of its heritage.**  In a registry that calls can
    build, the declarations that a registered one inherits from have exactly one order: depth
    first, bases as they are written, each declaration where it is first met.  It holds each of
    them once and nothing else.  The members are those of the declaration itself, and then, along
    the order, of each further declaration those with a name that no earlier one has a member of.

    So the names listed are the names of all members that are inherited from anywhere, each with
    one owner, and members without a name are those of the declaration itself. -/
theorem members_eq_listing (hr : r.Reachable) (remap : String → String) {d : Resolved}
    (hd : r.Registered d) :
    (∃ order, r.Preorder remap [] [d] order ∧
      (∀ order', r.Preorder remap [] [d] order' → order' = order) ∧
      order.Nodup ∧ (∀ e, e ∈ order ↔ r.InheritsFrom remap d e) ∧
      r.members remap d = listing order) ∧
    (∀ name, (∃ e ∈ r.members remap d, e.member.name = some name) ↔
      ∃ o, r.InheritsFrom remap d o ∧ ∃ m ∈ o.declaration.members, m.name = some name) ∧
    (∀ e ∈ r.members remap d, ∀ e' ∈ r.members remap d, e.member.name ≠ none →
      e'.member.name = e.member.name → e'.owner = e.owner) ∧
    ∀ e ∈ r.members remap d, e.member.name = none → e.owner = d := by
  obtain ⟨rest, horder, hlisting⟩ := exists_preorder hr.coherent remap hd
  refine ⟨⟨d :: rest, horder, ?_, horder.nodup.1, horder.mem_iff, hlisting⟩, ?_, ?_, ?_⟩
  · intro order' horder'
    exact horder.unique horder'
  · intro name
    rw [hlisting, exists_listing_iff]
    simp only [horder.mem_iff]
  · intro e he e' he' hname heq
    exact owner_eq_of_name_eq r remap d he he' hname heq
  · intro e he hnone
    rw [hlisting, listing] at he
    rcases List.mem_append.mp he with he | he
    · obtain ⟨m, -, rfl⟩ := List.mem_map.mp he
      rfl
    · exact absurd hnone (mem_inheritedMembers rest _ he).2.2

/-- An interface with bases and members of these names; a member without one is a call
    signature. -/
def outline (name : String) (parents : List String) (members : List (Option String)) :
    Declaration :=
  .ofInterface ⟨name, [], parents.map fun p => ⟨p, .reference p []⟩,
    members.map fun m => ⟨.propertySignature, m, none, false, false, default⟩, {}, default⟩

/-- An interface that reaches the last one on two ways. -/
def square : Declaration := outline "Square" ["Shape", "Tinted"] [none, some "size"]

def shape : Declaration := outline "Shape" ["Thing"] [some "size", some "area"]

def tinted : Declaration := outline "Tinted" ["Thing"] [some "id", some "tint"]

/-- The interface that leads back to the first one. -/
def thing : Declaration := outline "Thing" ["Square"] [none, some "area", some "id"]

def figures : SourceUnit :=
  ⟨"figures", [.declaration square, .declaration shape, .declaration tinted, .declaration thing]⟩

/-- The order from the first interface: the last one comes before the second base of the first,
    and is not met again there. -/
def figuresOrder : List Resolved := [square, shape, thing, tinted].map (⟨.source figures, ·⟩)

/-- The order of a class that comes to one base twice. -/
theorem preorder_figures :
    (afterCalls [.unit figures]).Preorder id [] [⟨.source figures, square⟩] figuresOrder := by
  -- the four are told apart by their names
  have hne : ∀ {d e : Declaration}, d.name ≠ e.name → d ≠ e :=
    fun hname h => hname (congrArg Declaration.name h)
  refine .first List.not_mem_nil (.first ?_ (.first ?_ (.again ?_ (.first ?_ (.again ?_ .done)))))
  · simp [hne (d := shape) (e := square) (by decide)]
  · simp [hne (d := thing) (e := square) (by decide), hne (d := thing) (e := shape) (by decide)]
  · simp
  · simp [hne (d := tinted) (e := square) (by decide), hne (d := tinted) (e := shape) (by decide),
      hne (d := tinted) (e := thing) (by decide)]
  · simp

/-- The members of the first interface, in the order of its heritage. -/
theorem figures_listed_in_order :
    (afterCalls [.unit figures]).Reachable ∧
      (afterCalls [.unit figures]).Registered ⟨.source figures, square⟩ ∧
      (afterCalls [.unit figures]).members id ⟨.source figures, square⟩ = listing figuresOrder ∧
      (listing figuresOrder).map (·.member.name) =
        [none, some "size", some "area", some "id", some "tint"] := by
  have hr : (afterCalls [.unit figures]).Reachable := ⟨_, rfl⟩
  have hsquare : (afterCalls [.unit figures]).Registered ⟨.source figures, square⟩ :=
    ⟨List.mem_cons_self .., "Square", rfl⟩
  obtain ⟨⟨order, -, hunique, -, -, hlisting⟩, -⟩ := members_eq_listing hr id hsquare
  rw [← hunique _ preorder_figures] at hlisting
  exact ⟨hr, hsquare, hlisting, rfl⟩

end Registry

end DeclAtlas

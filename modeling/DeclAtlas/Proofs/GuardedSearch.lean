import DeclAtlas.Module.Resolution
import Mathlib.Data.Finset.Card
import Mathlib.Logic.Relation

/-!
# What a search that looks at nothing twice finds

`SearchGraph.guarded` shares the marks it has seen between all branches, also between those that
failed.  This file shows, for any search graph, that nothing is lost by it:

* **`SearchGraph.reaches_of_guarded`** — what it finds is a success that can be reached;
* **`SearchGraph.not_reaches_of_guarded`** — if it finds nothing, no success can be reached;
* **`SearchGraph.guarded_stable`** — a budget above the number of marks is as good as any larger;
* **`SearchGraph.guarded_of_plain`** — wherever the search without marks (`SearchGraph.plain`)
  comes to an end, the search with marks gives the same.

The last three need a finite set of marks that the search cannot leave and that tells its nodes
apart (`SearchGraph.Arena`).  The heart of completeness is that a failed search leaves a set of
marks that is closed under the edges (`SearchGraph.Exhausts`).
-/

namespace DeclAtlas

-- ── One attempt after the other ──────────────────────────────────────────────────

section FirstSuccess

variable {α β σ : Type} {attempt : α → σ → Option β × σ} {x : α} {xs : List α} {s s' : σ} {b : β}

/-- The first success ends the attempts. -/
theorem firstSuccess_cons_some (h : attempt x s = (some b, s')) :
    firstSuccess attempt (x :: xs) s = (some b, s') := by
  rw [firstSuccess, h]

/-- A failure leaves what it has seen to the next attempt. -/
theorem firstSuccess_cons_none (h : attempt x s = (none, s')) :
    firstSuccess attempt (x :: xs) s = firstSuccess attempt xs s' := by
  rw [firstSuccess, h]

/-- A success is that of one of the attempts. -/
theorem firstSuccess_some (xs : List α) :
    ∀ s : σ, (firstSuccess attempt xs s).1 = some b →
      ∃ x ∈ xs, ∃ t, (attempt x t).1 = some b := by
  induction xs with
  | nil => intro s h; exact nomatch h
  | cons x xs ih =>
      intro s h
      cases ha : attempt x s with
      | mk o s' =>
          cases o with
          | some c =>
              rw [firstSuccess_cons_some ha] at h
              exact ⟨x, by simp, s, by rw [ha]; exact h⟩
          | none =>
              rw [firstSuccess_cons_none ha] at h
              obtain ⟨y, hy, t, ht⟩ := ih s' h
              exact ⟨y, by simp [hy], t, ht⟩

/-- What every attempt keeps of the state is kept. -/
theorem firstSuccess_keeps {P : σ → Prop} (xs : List α)
    (hstep : ∀ x ∈ xs, ∀ s, P s → P (attempt x s).2) :
    ∀ s, P s → P (firstSuccess attempt xs s).2 := by
  induction xs with
  | nil => intro s hs; exact hs
  | cons x xs ih =>
      intro s hs
      have hx : P (attempt x s).2 := hstep x (by simp) s hs
      cases ha : attempt x s with
      | mk o s' =>
          rw [ha] at hx
          cases o with
          | some c =>
              rw [firstSuccess_cons_some ha]
              exact hx
          | none =>
              rw [firstSuccess_cons_none ha]
              exact ih (fun y hy => hstep y (by simp [hy])) s' hx

/-- Attempts that agree on the states they meet have the same success. -/
theorem firstSuccess_congr {attempt' : α → σ → Option β × σ} {P : σ → Prop} (xs : List α)
    (hkeep : ∀ x ∈ xs, ∀ s, P s → P (attempt x s).2)
    (hagree : ∀ x ∈ xs, ∀ s, P s → attempt x s = attempt' x s) :
    ∀ s, P s → firstSuccess attempt xs s = firstSuccess attempt' xs s := by
  induction xs with
  | nil => intro s _; rfl
  | cons x xs ih =>
      intro s hs
      have hx := hagree x (by simp) s hs
      have hP : P (attempt x s).2 := hkeep x (by simp) s hs
      cases ha : attempt x s with
      | mk o s' =>
          rw [ha] at hx hP
          cases o with
          | some c => rw [firstSuccess_cons_some ha, firstSuccess_cons_some hx.symm]
          | none =>
              rw [firstSuccess_cons_none ha, firstSuccess_cons_none hx.symm]
              exact ih (fun y hy => hkeep y (by simp [hy])) (fun y hy => hagree y (by simp [hy]))
                s' hP

end FirstSuccess

namespace SearchGraph

variable {α κ β : Type} {g : SearchGraph α κ β} {inside : α → Prop} {marks : Finset κ}

-- ── What a search can come to ────────────────────────────────────────────────────

/-- One edge that a search may take: from a node that is neither dead nor a success. -/
def Leads (g : SearchGraph α κ β) (a c : α) : Prop :=
  g.dead a = false ∧ g.success? a = none ∧ c ∈ g.next a

/-- A node can be reached along edges. -/
def Reaches (g : SearchGraph α κ β) : α → α → Prop := Relation.ReflTransGen g.Leads

/-- A set of nodes that edges do not leave, whose marks are in a finite set and tell the nodes
    apart. -/
structure Arena (g : SearchGraph α κ β) (inside : α → Prop) (marks : Finset κ) : Prop where
  leads_mem : ∀ a c, inside a → g.Leads a c → inside c
  mark_mem : ∀ a, inside a → g.mark a ∈ marks
  mark_inj : ∀ a c, inside a → inside c → g.mark a = g.mark c → a = c

/-- The marks `seen'` come from `seen` without a success: what is new in them is no success, and
    all it leads to is dead or seen. -/
structure Exhausts (g : SearchGraph α κ β) (inside : α → Prop) (seen seen' : List κ) : Prop where
  subset : seen ⊆ seen'
  closed : ∀ a, inside a → g.mark a ∈ seen' → g.mark a ∈ seen ∨
    (g.success? a = none ∧ ∀ c ∈ g.next a, g.dead c = true ∨ g.mark c ∈ seen')

theorem Exhausts.refl (seen : List κ) : Exhausts g inside seen seen :=
  ⟨List.Subset.refl seen, fun _ _ h => Or.inl h⟩

/-- What is exhausted step by step is exhausted. -/
theorem Exhausts.trans {seen seen' seen'' : List κ} (h : Exhausts g inside seen seen')
    (h' : Exhausts g inside seen' seen'') : Exhausts g inside seen seen'' := by
  refine ⟨List.Subset.trans h.subset h'.subset, ?_⟩
  intro a hin hmem
  rcases h'.closed a hin hmem with hold | hnew
  · rcases h.closed a hin hold with hold | ⟨hb, hnext⟩
    · exact Or.inl hold
    · refine Or.inr ⟨hb, fun c hc => ?_⟩
      exact (hnext c hc).imp_right (fun hc => h'.subset hc)
  · exact Or.inr hnew

/-- Where a search follows the next nodes, it follows edges. -/
theorem leads_of_follow {a c : α} {seen : List κ}
    (h : ¬ (g.dead a = true ∨ g.mark a ∈ seen)) (hb : g.success? a = none) (hc : c ∈ g.next a) :
    g.Leads a c :=
  ⟨Bool.eq_false_iff.mpr (not_or.mp h).1, hb, hc⟩

section Guarded

variable [DecidableEq κ]

-- ── Unfolding the search ─────────────────────────────────────────────────────────

/-- A dead node is skipped, and one that was seen. -/
theorem guarded_skip {n : Nat} {a : α} {seen : List κ} (h : g.dead a = true ∨ g.mark a ∈ seen) :
    g.guarded (n + 1) a seen = (none, seen) := by
  rw [guarded, if_pos h]

theorem guarded_success {n : Nat} {a : α} {seen : List κ} {b : β}
    (h : ¬ (g.dead a = true ∨ g.mark a ∈ seen)) (hb : g.success? a = some b) :
    g.guarded (n + 1) a seen = (some b, g.mark a :: seen) := by
  rw [guarded, if_neg h, hb]

/-- From any other node the search goes on, with this one marked. -/
theorem guarded_follow {n : Nat} {a : α} {seen : List κ}
    (h : ¬ (g.dead a = true ∨ g.mark a ∈ seen)) (hb : g.success? a = none) :
    g.guarded (n + 1) a seen =
      firstSuccess (g.guarded n) (g.next a) (g.mark a :: seen) := by
  rw [guarded, if_neg h, hb]

/-- Marks are never forgotten. -/
theorem subset_guarded (n : Nat) :
    ∀ (a : α) (seen : List κ), seen ⊆ (g.guarded n a seen).2 := by
  induction n with
  | zero => intro a seen; exact List.Subset.refl seen
  | succ n ih =>
      intro a seen
      by_cases h : g.dead a = true ∨ g.mark a ∈ seen
      · rw [guarded_skip h]
        exact List.Subset.refl seen
      · cases hb : g.success? a with
        | some b =>
            rw [guarded_success h hb]
            exact List.subset_cons_self _ _
        | none =>
            rw [guarded_follow h hb]
            refine firstSuccess_keeps (P := fun t => seen ⊆ t) (g.next a) ?_ _
              (List.subset_cons_self _ _)
            intro c _ t ht
            exact List.Subset.trans ht (ih c t)

/-- **Soundness.**  What a search finds is a success that can be reached, on any budget. -/
theorem reaches_of_guarded (n : Nat) :
    ∀ (a : α) (seen : List κ) (b : β), (g.guarded n a seen).1 = some b →
      ∃ c, g.Reaches a c ∧ g.dead c = false ∧ g.success? c = some b := by
  induction n with
  | zero => intro a seen b h; exact nomatch h
  | succ n ih =>
      intro a seen b h
      by_cases hs : g.dead a = true ∨ g.mark a ∈ seen
      · rw [guarded_skip hs] at h
        exact nomatch h
      · cases hb : g.success? a with
        | some b' =>
            rw [guarded_success hs hb] at h
            exact ⟨a, .refl, Bool.eq_false_iff.mpr (not_or.mp hs).1, hb.trans h⟩
        | none =>
            rw [guarded_follow hs hb] at h
            obtain ⟨c, hc, t, ht⟩ := firstSuccess_some _ _ h
            obtain ⟨e, hce, hde, he⟩ := ih c t b ht
            exact ⟨e, .head (leads_of_follow hs hb hc) hce, hde, he⟩

-- ── How much is left to search ───────────────────────────────────────────────────

/-- How many marks have not been seen. -/
def unseen (marks : Finset κ) (seen : List κ) : Nat := (marks.filter (· ∉ seen)).card

/-- The more is seen, the less is not. -/
theorem unseen_le_of_subset {seen seen' : List κ} (h : seen ⊆ seen') :
    unseen marks seen' ≤ unseen marks seen := by
  refine Finset.card_le_card ?_
  intro k hk
  obtain ⟨hm, hs⟩ := Finset.mem_filter.mp hk
  exact Finset.mem_filter.mpr ⟨hm, fun hk' => hs (h hk')⟩

theorem unseen_le_card (marks : Finset κ) (seen : List κ) : unseen marks seen ≤ marks.card :=
  Finset.card_le_card (Finset.filter_subset _ _)

/-- A mark that was not seen is one less. -/
theorem unseen_cons_lt {k : κ} {seen : List κ} (hk : k ∈ marks) (hs : k ∉ seen) :
    unseen marks (k :: seen) < unseen marks seen := by
  refine Finset.card_lt_card ((Finset.ssubset_iff_of_subset ?_).mpr ⟨k, ?_, ?_⟩)
  · intro l hl
    obtain ⟨hm, hnot⟩ := Finset.mem_filter.mp hl
    exact Finset.mem_filter.mpr ⟨hm, fun h => hnot (List.mem_cons_of_mem k h)⟩
  · exact Finset.mem_filter.mpr ⟨hk, hs⟩
  · intro h
    exact (Finset.mem_filter.mp h).2 (List.mem_cons_self ..)

/-- A budget above the number of unseen marks is as good as any larger one. -/
theorem guarded_stable (ha : Arena g inside marks) (n : Nat) :
    ∀ (m : Nat) (a : α) (seen : List κ), inside a → unseen marks seen < n → n ≤ m →
      g.guarded n a seen = g.guarded m a seen := by
  induction n with
  | zero => intro m a seen _ hn; exact absurd hn (Nat.not_lt_zero _)
  | succ n ih =>
      intro m a seen hin hn hnm
      obtain ⟨m, rfl⟩ : ∃ m', m = m' + 1 := ⟨m - 1, by omega⟩
      by_cases h : g.dead a = true ∨ g.mark a ∈ seen
      · rw [guarded_skip h, guarded_skip h]
      · cases hb : g.success? a with
        | some b => rw [guarded_success h hb, guarded_success h hb]
        | none =>
            rw [guarded_follow h hb, guarded_follow h hb]
            have hlt := unseen_cons_lt (ha.mark_mem a hin) (not_or.mp h).2
            refine firstSuccess_congr (P := fun t => unseen marks t < n) (g.next a) ?_ ?_ _
              (by omega)
            · intro c _ t ht
              exact Nat.lt_of_le_of_lt (unseen_le_of_subset (subset_guarded n c t)) ht
            · intro c hc t ht
              exact ih m c t (ha.leads_mem a c hin (leads_of_follow h hb hc)) ht (by omega)

-- ── Completeness ─────────────────────────────────────────────────────────────────

/-- If each attempt on a list of nodes exhausts, so does trying them all. -/
theorem exhausts_firstSuccess {attempt : α → List κ → Option β × List κ} {n : Nat} (xs : List α)
    (hkeep : ∀ x ∈ xs, ∀ t, t ⊆ (attempt x t).2)
    (hstep : ∀ x ∈ xs, ∀ t, unseen marks t < n → (attempt x t).1 = none →
      Exhausts g inside t (attempt x t).2 ∧ (g.dead x = true ∨ g.mark x ∈ (attempt x t).2)) :
    ∀ t, unseen marks t < n → (firstSuccess attempt xs t).1 = none →
      Exhausts g inside t (firstSuccess attempt xs t).2 ∧
        ∀ x ∈ xs, g.dead x = true ∨ g.mark x ∈ (firstSuccess attempt xs t).2 := by
  induction xs with
  | nil =>
      intro t _ _
      exact ⟨.refl t, fun x hx => nomatch hx⟩
  | cons x xs ih =>
      intro t ht hnone
      cases hx : attempt x t with
      | mk o t' =>
          cases o with
          | some b =>
              rw [firstSuccess_cons_some hx] at hnone
              exact nomatch hnone
          | none =>
              rw [firstSuccess_cons_none hx] at hnone ⊢
              obtain ⟨hex, hmark⟩ := hstep x (by simp) t ht (by rw [hx])
              have hsub := hkeep x (by simp) t
              rw [hx] at hex hmark hsub
              obtain ⟨hrest, hmarks⟩ := ih (fun y hy => hkeep y (by simp [hy]))
                (fun y hy => hstep y (by simp [hy])) t'
                (Nat.lt_of_le_of_lt (unseen_le_of_subset hsub) ht) hnone
              refine ⟨hex.trans hrest, ?_⟩
              intro y hy
              rcases List.mem_cons.mp hy with rfl | hy
              · exact hmark.imp_right (fun h => hrest.subset h)
              · exact hmarks y hy

/-- A failed search exhausts, if its budget is large enough. -/
theorem exhausts_guarded (ha : Arena g inside marks) (n : Nat) :
    ∀ (a : α) (seen : List κ), inside a → unseen marks seen < n →
      (g.guarded n a seen).1 = none →
      Exhausts g inside seen (g.guarded n a seen).2 ∧
        (g.dead a = true ∨ g.mark a ∈ (g.guarded n a seen).2) := by
  induction n with
  | zero => intro a seen _ hn; exact absurd hn (Nat.not_lt_zero _)
  | succ n ih =>
      intro a seen hin hn hnone
      by_cases h : g.dead a = true ∨ g.mark a ∈ seen
      · rw [guarded_skip h]
        exact ⟨.refl seen, h⟩
      · cases hb : g.success? a with
        | some b =>
            rw [guarded_success h hb] at hnone
            exact nomatch hnone
        | none =>
            rw [guarded_follow h hb] at hnone ⊢
            have hlt := unseen_cons_lt (ha.mark_mem a hin) (not_or.mp h).2
            obtain ⟨hex, hmarks⟩ := exhausts_firstSuccess (n := n) (g.next a)
              (fun c _ t => subset_guarded n c t)
              (fun c hc t ht => ih c t (ha.leads_mem a c hin (leads_of_follow h hb hc)) ht)
              _ (by omega) hnone
            refine ⟨⟨?_, ?_⟩, Or.inr (hex.subset (List.mem_cons_self ..))⟩
            · exact List.Subset.trans (List.subset_cons_self _ _) hex.subset
            · intro c hc hmem
              rcases hex.closed c hc hmem with hold | hnew
              · rcases List.mem_cons.mp hold with heq | hold
                · -- the node itself: all it leads to has been tried
                  obtain rfl := ha.mark_inj c a hc hin heq
                  exact Or.inr ⟨hb, hmarks⟩
                · exact Or.inl hold
              · exact Or.inr hnew

/-- **Completeness.**  Where a search on a large enough budget finds nothing, no success can be
    reached. -/
theorem not_reaches_of_guarded (ha : Arena g inside marks) {n : Nat} {a : α} (hin : inside a)
    (hn : marks.card < n) (hnone : (g.guarded n a []).1 = none) {c : α} (hc : g.Reaches a c)
    (hd : g.dead c = false) : g.success? c = none := by
  have hn' : unseen marks [] < n := Nat.lt_of_le_of_lt (unseen_le_card marks []) hn
  obtain ⟨hex, hmark⟩ := exhausts_guarded ha n a [] hin hn' hnone
  -- every node that can be reached is dead or marked: this is kept along edges
  have hreach : inside c ∧ (g.dead c = true ∨ g.mark c ∈ (g.guarded n a []).2) := by
    induction hc with
    | refl => exact ⟨hin, hmark⟩
    | tail _ hstep ih =>
        rename_i x y _
        have hdx := hstep.1
        obtain ⟨hinx, hx⟩ := ih hdx
        refine ⟨ha.leads_mem x y hinx hstep, ?_⟩
        rcases hx with hx | hx
        · rw [hdx] at hx
          exact nomatch hx
        · rcases hex.closed x hinx hx with hold | ⟨-, hnext⟩
          · exact nomatch hold
          · exact hnext y hstep.2.2
  obtain ⟨hinc, hc' | hc'⟩ := hreach
  · rw [hd] at hc'
    exact nomatch hc'
  · rcases hex.closed c hinc hc' with hold | ⟨hb, -⟩
    · exact nomatch hold
    · exact hb

end Guarded

-- ── The search without marks ─────────────────────────────────────────────────────

/-- The first success in a list, where every attempt up to it has an answer. -/
def firstDefinite (attempt : α → Option (Option β)) : List α → Option (Option β)
  | [] => some none
  | x :: xs =>
    match attempt x with
    | none => none
    | some (some b) => some (some b)
    | some none => firstDefinite attempt xs

/-- The depth-first search that remembers nothing.  It has no answer (`none`) when it runs out
    of fuel, as it does on a cycle without a success in front of it. -/
def plain (g : SearchGraph α κ β) : Nat → α → Option (Option β)
  | 0, _ => none
  | n + 1, a =>
    if g.dead a then some none
    else
      match g.success? a with
      | some b => some (some b)
      | none => firstDefinite (g.plain n) (g.next a)

/-- The search without marks comes to an end at this node, without a success. -/
def Fails (g : SearchGraph α κ β) (a : α) : Prop := ∃ n, g.plain n a = some none

/-- An answer stays the same when attempts that have one keep theirs. -/
theorem firstDefinite_mono {attempt attempt' : α → Option (Option β)} {r : Option β}
    (h : ∀ x o, attempt x = some o → attempt' x = some o) (xs : List α)
    (hr : firstDefinite attempt xs = some r) : firstDefinite attempt' xs = some r := by
  induction xs with
  | nil => exact hr
  | cons x xs ih =>
      rw [firstDefinite] at hr ⊢
      cases hx : attempt x with
      | none =>
          rw [hx] at hr
          exact nomatch hr
      | some o =>
          rw [hx] at hr
          rw [h x o hx]
          cases o with
          | none => exact ih hr
          | some b => exact hr

/-- A search that remembers nothing keeps its answer with more fuel. -/
theorem plain_succ {n : Nat} :
    ∀ {a : α} {r : Option β}, g.plain n a = some r → g.plain (n + 1) a = some r := by
  induction n with
  | zero => intro a r h; exact nomatch h
  | succ n ih =>
      intro a r h
      rw [plain] at h ⊢
      split
      · rwa [if_pos ‹_›] at h
      · rw [if_neg ‹_›] at h
        cases hb : g.success? a with
        | some b =>
            rw [hb] at h
            exact h
        | none =>
            rw [hb] at h
            exact firstDefinite_mono (fun x o hx => ih hx) _ h

/-- More fuel keeps an answer. -/
theorem plain_mono {n m : Nat} (hnm : n ≤ m) {a : α} {r : Option β} (h : g.plain n a = some r) :
    g.plain m a = some r := by
  induction hnm with
  | refl => exact h
  | step _ ih => exact plain_succ ih

/-- Where nothing succeeds, the only answer is that there is none. -/
theorem Fails.eq_none {a : α} (hf : g.Fails a) {n : Nat} {r : Option β}
    (h : g.plain n a = some r) : r = none := by
  obtain ⟨k, hk⟩ := hf
  have h1 := plain_mono (Nat.le_max_left n k) h
  have h2 := plain_mono (Nat.le_max_right n k) hk
  exact Option.some.inj (h1.symm.trans h2)

/-- What may have been seen when a search with `n` fuel sets out: nodes that fail, and nodes that
    the search with this fuel does not come to the end of.  The latter are those on the way to
    where the search is: a node that has an answer with `n` fuel cannot be among its own
    descendants. -/
def Harmless (g : SearchGraph α κ β) (inside : α → Prop) (n : Nat) (seen : List κ) : Prop :=
  ∀ c, inside c → g.mark c ∈ seen → g.plain n c = none ∨ g.Fails c

/-- What does no harm with more fuel does none with less. -/
theorem Harmless.of_succ {n : Nat} {seen : List κ} (h : Harmless g inside (n + 1) seen) :
    Harmless g inside n seen := by
  intro c hc hm
  rcases h c hc hm with hnone | hf
  · left
    cases hp : g.plain n c with
    | none => rfl
    | some r =>
        rw [plain_succ hp] at hnone
        exact nomatch hnone
  · exact Or.inr hf

/-- The answer of the plain search, and only marks of failing nodes on top of what was seen. -/
def Matches (g : SearchGraph α κ β) (inside : α → Prop) (seen : List κ) (r : Option β)
    (result : Option β × List κ) : Prop :=
  result.1 = r ∧ (r = none → ∀ c, inside c → g.mark c ∈ result.2 → g.mark c ∈ seen ∨ g.Fails c)

/-- Attempts that match the plain search one by one match it as a list. -/
theorem matches_firstSuccess {attempt : α → List κ → Option β × List κ} {n : Nat} (xs : List α)
    (hstep : ∀ x ∈ xs, ∀ t r, Harmless g inside n t → g.plain n x = some r →
      Matches g inside t r (attempt x t)) :
    ∀ t r, Harmless g inside n t → firstDefinite (g.plain n) xs = some r →
      Matches g inside t r (firstSuccess attempt xs t) := by
  induction xs with
  | nil =>
      intro t r _ hr
      obtain rfl : none = r := Option.some.inj hr
      exact ⟨rfl, fun _ c _ hm => Or.inl hm⟩
  | cons x xs ih =>
      intro t r ht hr
      rw [firstDefinite] at hr
      cases hx : g.plain n x with
      | none =>
          rw [hx] at hr
          exact nomatch hr
      | some o =>
          rw [hx] at hr
          obtain ⟨hfst, hmarks⟩ := hstep x (by simp) t o ht hx
          cases hat : attempt x t with
          | mk o' t' =>
              rw [hat] at hfst hmarks
              obtain rfl : o' = o := hfst
              cases o' with
              | some b =>
                  obtain rfl : some b = r := Option.some.inj hr
                  rw [firstSuccess_cons_some hat]
                  exact ⟨rfl, fun h => nomatch h⟩
              | none =>
                  rw [firstSuccess_cons_none hat]
                  have ht' : Harmless g inside n t' := by
                    intro c hc hm
                    rcases hmarks rfl c hc hm with hold | hf
                    · exact ht c hc hold
                    · exact Or.inr hf
                  obtain ⟨hfst', hmarks'⟩ :=
                    ih (fun y hy => hstep y (by simp [hy])) t' r ht' hr
                  refine ⟨hfst', fun hnone c hc hm => ?_⟩
                  rcases hmarks' hnone c hc hm with hold | hf
                  · exact hmarks rfl c hc hold
                  · exact Or.inr hf

/-- The search with marks matches the search without, on any budget not below its fuel. -/
theorem matches_guarded [DecidableEq κ] (ha : Arena g inside marks) (n : Nat) :
    ∀ (m : Nat) (a : α) (seen : List κ) (r : Option β), n ≤ m → inside a →
      Harmless g inside n seen → g.plain n a = some r →
      Matches g inside seen r (g.guarded m a seen) := by
  induction n with
  | zero => intro m a seen r _ _ _ h; exact nomatch h
  | succ n ih =>
      intro m a seen r hnm hin hseen h
      cases hp : g.plain n a with
      | some r' =>
          -- less fuel will do
          obtain rfl : r' = r := Option.some.inj ((plain_succ hp).symm.trans h)
          exact ih m a seen r' (by omega) hin hseen.of_succ hp
      | none =>
          obtain ⟨m, rfl⟩ : ∃ m', m = m' + 1 := ⟨m - 1, by omega⟩
          by_cases hs : g.dead a = true ∨ g.mark a ∈ seen
          · have hr : r = none := by
              rcases hs with hd | hm
              · rw [plain, if_pos hd] at h
                exact (Option.some.inj h).symm
              · rcases hseen a hin hm with hnone | hf
                · rw [hnone] at h
                  exact nomatch h
                · exact hf.eq_none h
            rw [guarded_skip hs]
            exact ⟨hr.symm, fun _ c _ hm => Or.inl hm⟩
          · have h0 := h
            rw [plain, if_neg (not_or.mp hs).1] at h
            cases hb : g.success? a with
            | some b =>
                rw [hb] at h
                obtain rfl : some b = r := Option.some.inj h
                rw [guarded_success hs hb]
                exact ⟨rfl, fun h => nomatch h⟩
            | none =>
                rw [hb] at h
                rw [guarded_follow hs hb]
                have hseen' : Harmless g inside n (g.mark a :: seen) := by
                  intro c hc hm
                  rcases List.mem_cons.mp hm with heq | hm
                  · obtain rfl := ha.mark_inj c a hc hin heq
                    exact Or.inl hp
                  · exact hseen.of_succ c hc hm
                obtain ⟨hfst, hmarks⟩ := matches_firstSuccess (g.next a)
                  (fun c hc t o ht ho => ih m c t o (by omega)
                    (ha.leads_mem a c hin (leads_of_follow hs hb hc)) ht ho) _ r hseen' h
                refine ⟨hfst, fun hnone c hc hm => ?_⟩
                rcases hmarks hnone c hc hm with hold | hf
                · rcases List.mem_cons.mp hold with heq | hold
                  · obtain rfl := ha.mark_inj c a hc hin heq
                    exact Or.inr ⟨n + 1, hnone ▸ h0⟩
                  · exact Or.inl hold
                · exact Or.inr hf

/-- **The marks change no answer.**  Where the search without marks comes to an end, the search
    with marks gives the same on a large enough budget. -/
theorem guarded_of_plain [DecidableEq κ] (ha : Arena g inside marks) {n m : Nat} {a : α}
    (hin : inside a) (hm : marks.card < m) {r : Option β} (h : g.plain n a = some r) :
    (g.guarded m a []).1 = r := by
  have hm' : unseen marks [] < m := Nat.lt_of_le_of_lt (unseen_le_card marks []) hm
  rw [guarded_stable ha m (max n m) a [] hin hm' (Nat.le_max_right n m)]
  exact (matches_guarded ha n (max n m) a [] r (Nat.le_max_left n m) hin
    (fun c _ hc => nomatch hc) h).1

end SearchGraph

end DeclAtlas

import DeclAtlas.Proofs.SideBySide

/-!
# Rules for two runs

`Parser.Together p q c d post` says of two parsers what `Parser.Meets` says of one: started at `c`
and at `d`, both only move on, and `post` holds of the values and of the cursors behind them.  There
is one rule for each way in which parsers are put together, and one for each parser that all others
are made of, from cursors that are alike.

A parser may read up to the fence of its border, but only one that ends there may read the fence as
well; so there are two rules for moving over a token, one for tokens that are no fence
(`Cursor.Alike.eat`) and one for the last token of a construct (`Cursor.Alike.eat_end`).
-/

namespace DeclAtlas

namespace Parser

variable {α β : Type} {c d : Cursor} {p q : Parser α} {post : α → α → Cursor → Cursor → Prop}

/-- Both parsers move on, to cursors at which `post` holds of their values. -/
def Together (p q : Parser α) (c d : Cursor) (post : α → α → Cursor → Cursor → Prop) : Prop :=
  c.LeadsTo (p c).2 ∧ d.LeadsTo (q d).2 ∧ post (p c).1 (q d).1 (p c).2 (q d).2

/-- What both runs establish may be weakened, for all that both of them lead to. -/
theorem Together.mono {post' : α → α → Cursor → Cursor → Prop} (h : Together p q c d post)
    (himp : ∀ a b c' d', c.LeadsTo c' → d.LeadsTo d' → post a b c' d' → post' a b c' d') :
    Together p q c d post' :=
  ⟨h.1, h.2.1, himp _ _ _ _ h.1 h.2.1 h.2.2⟩

/-- Neither run moves, so what holds of the values at the start is enough. -/
theorem together_pure {a b : α} (h : post a b c d) :
    Together (pure a : Parser α) (pure b) c d post :=
  ⟨.refl c, .refl d, h⟩

/-- Two sequences: the second parts run where the first parts stopped, with related values. -/
theorem Together.bind {p q : Parser β} {f g : β → Parser α}
    {M : β → β → Cursor → Cursor → Prop} (h : Together p q c d M)
    (hf : ∀ a b c' d', c.LeadsTo c' → d.LeadsTo d' → M a b c' d' →
      Together (f a) (g b) c' d' post) :
    Together (p >>= f) (q >>= g) c d post := by
  obtain ⟨hc, hd, hM⟩ := h
  obtain ⟨hc', hd', hpost⟩ := hf _ _ _ _ hc hd hM
  exact ⟨hc.trans hc', hd.trans hd', hpost⟩

/-- The same where it only matters that no more is ahead than before. -/
theorem Together.next {p q : Parser β} {f g : β → Parser α}
    {M : β → β → Cursor → Cursor → Prop} (h : Together p q c d M)
    (hf : ∀ a b c' d', c'.remaining ≤ c.remaining → M a b c' d' →
      Together (f a) (g b) c' d' post) :
    Together (p >>= f) (q >>= g) c d post :=
  h.bind fun a b c' d' hc _ hM => hf a b c' d' hc.remaining_le hM

/-- The rest of both parsers looks at the cursor where it starts. -/
theorem together_get {f g : Cursor → Parser α} (h : Together (f c) (g d) c d post) :
    Together ((get : Parser Cursor) >>= f) ((get : Parser Cursor) >>= g) c d post :=
  h

/-- Branches that join: what follows need only be known where `M` holds. -/
theorem together_join {p' q' : Parser α} {M : Cursor → Cursor → Prop}
    (hq : ∀ c' d', M c' d' → Together p' q' c' d' post)
    (h : (∀ c' d', M c' d' → Together p' q' c' d' post) → Together p q c d post) :
    Together p q c d post :=
  h hq

/-- Two runs take the same branch if their conditions are equivalent. -/
theorem together_ite {P Q : Prop} [Decidable P] [Decidable Q] (hiff : Q ↔ P)
    {p' q' : Parser α} (hp : P → Together p q c d post) (hq : ¬ P → Together p' q' c d post) :
    Together (if P then p else p') (if Q then q else q') c d post := by
  by_cases h : P
  · rw [if_pos h, if_pos (hiff.mpr h)]
    exact hp h
  · rw [if_neg h, if_neg (mt hiff.mp h)]
    exact hq h

/-- A step that is only taken under a condition, and what follows it. -/
theorem together_when {P Q : Prop} [Decidable P] [Decidable Q] (hiff : Q ↔ P)
    {p q : Parser Unit} {f g : Unit → Parser α} {M : Cursor → Cursor → Prop} (hM : M c d)
    (hp : P → Together p q c d fun _ _ c' d' => M c' d')
    (hf : ∀ c' d', c.LeadsTo c' → d.LeadsTo d' → M c' d' →
      Together (f ()) (g ()) c' d' post) :
    Together (if P then p >>= f else f ()) (if Q then q >>= g else g ()) c d post :=
  together_ite hiff (fun h => (hp h).bind fun _ _ c' d' hc hd hM => hf c' d' hc hd hM)
    fun _ => hf c d (.refl c) (.refl d) hM

/-- A value that comes from one of two parsers, and what follows it. -/
theorem together_branch {P Q : Prop} [Decidable P] [Decidable Q] {p p' q q' : Parser β}
    {f g : β → Parser α}
    (h : Together ((if P then p else p') >>= f) ((if Q then q else q') >>= g) c d post) :
    Together (if P then p >>= f else p' >>= f) (if Q then q >>= g else q' >>= g) c d post := by
  by_cases hP : P <;> by_cases hQ : Q <;> simpa only [hP, hQ, if_true, if_false] using h

/-- The same where the first step says which of the two parsers comes next. -/
theorem together_eat_branch {t : Token} {p p' q q' : Parser β} {f g : β → Parser α}
    (h : Together ((do if ← eat t then p else p') >>= f) ((do if ← eat t then q else q') >>= g)
      c d post) :
    Together (do if ← eat t then p >>= f else p' >>= f) (do if ← eat t then q >>= g else q' >>= g)
      c d post := by
  have hassoc (p p' : Parser β) (f : β → Parser α) :
      (do if ← eat t then p >>= f else p' >>= f) = (do if ← eat t then p else p') >>= f := by
    rw [bind_assoc]
    congr 1
    funext b
    cases b <;> rfl
  rw [hassoc, hassoc]
  exact h

/-- A condition whose second part only counts where the first holds. -/
theorem and_eq_and {a b b' : Bool} (h : a = true → b' = b) : (a && b') = (a && b) := by
  cases a with
  | false => rfl
  | true => rw [Bool.true_and, Bool.true_and, h rfl]

/-- The same value on both sides, and cursors that are alike. -/
def Same (L : Likeness) (φ : Border) (a b : α) (c d : Cursor) : Prop := a = b ∧ c.Alike L φ d

end Parser

namespace Cursor

open DeclAtlas.Parser

variable {L : Likeness} {φ : Border} {c d : Cursor} {t : Token} {α : Type}

/-- Moving over a token that is there leaves less to read. -/
theorem remaining_bump_lt (h : c.peek = some t) : c.bump.remaining < c.remaining := by
  obtain ⟨l, ls, hc, -⟩ := peek_eq_some_iff.mp h
  simp [bump_of_rest hc, remaining, hc]

/-- What is seen behind the next token. -/
theorem peekAt_bump (c : Cursor) (k : Nat) : c.bump.peekAt k = c.peekAt (k + 1) := by
  rw [peekAt, peekAt, ← List.getElem?_tail, ← List.drop_one]
  exact congrArg (fun ls : List Lexeme => ls[k]?.map (·.token)) (rest_advance 1 c)

theorem peek_of_isAt (h : c.isAt t = true) : c.peek = some t := isAt_iff.mp h

theorem peek_of_atWord {w : String} (h : c.atWord w = true) : c.peek = some (.word w) :=
  peek_of_isAt h

/-- Moving over a token that is not the fence. -/
theorem Alike.together_bump (h : Alike L φ c d) (hk : φ.Within c 1) :
    Together Parser.bump Parser.bump c d fun _ _ c' d' => c' = c.bump ∧ Alike L φ c' d' :=
  ⟨leadsTo_bump c, leadsTo_bump d, rfl, h.bump hk⟩

/-- Moving over a token that is no fence. -/
theorem Alike.read (h : Alike L φ c d) (hpeek : c.peek = some t) (ht : ¬ t.IsFence) :
    Together Parser.bump Parser.bump c d fun _ _ c' d' =>
      c' = c.bump ∧ c'.remaining < c.remaining ∧ Alike L φ c' d' :=
  (h.together_bump (h.within_one hpeek ht)).mono fun _ _ _ _ _ _ ⟨hc, h'⟩ =>
    ⟨hc, hc ▸ remaining_bump_lt hpeek, h'⟩

/-- Moving over a word leaves less to read; a word is no fence. -/
theorem Alike.readWord (h : Alike L φ c d) {w : String} (hw : c.atWord w = true) :
    Together Parser.bump Parser.bump c d fun _ _ c' d' =>
      c' = c.bump ∧ c'.remaining < c.remaining ∧ Alike L φ c' d' :=
  h.read (peek_of_atWord hw) (by simp [Token.IsFence])

/-- A token that may be read or not. -/
theorem Alike.eat_of (h : Alike L φ c d) {post : Bool → Bool → Cursor → Cursor → Prop}
    (htrue : c.peek = some t → d.peek = some t → post true true c.bump d.bump)
    (hfalse : post false false c d) : Together (eat t) (eat t) c d post := by
  refine together_get (together_ite (by rw [h.isAt_eq]) (fun hat => ?_) fun _ => ?_)
  · have hc := peek_of_isAt hat
    exact ⟨leadsTo_bump c, leadsTo_bump d, htrue hc (h.peek_eq ▸ hc)⟩
  · exact together_pure hfalse

/-- A token that is no fence may be read. -/
theorem Alike.eat (h : Alike L φ c d) (ht : φ.token? ≠ some t) :
    Together (eat t) (eat t) c d fun a b c' d' =>
      Same L φ a b c' d' ∧ (a = true → c'.remaining < c.remaining) := by
  refine h.eat_of (fun hc _ => ⟨⟨rfl, h.bump (h.within_succ h.within_zero ?_)⟩, fun _ => ?_⟩)
    ⟨⟨rfl, h⟩, nofun⟩
  · rw [show c.peekAt 0 = some t from hc]
    exact ht.symm
  · exact remaining_bump_lt hc

/-- Trying a token that is not the fence of the border moves both cursors over it, or neither. -/
theorem Alike.eat_exact (h : Alike L φ c d) (ht : φ.token? ≠ some t) :
    Together (Parser.eat t) (Parser.eat t) c d fun _ _ c' d' =>
      c' = (if c.peek = some t then c.bump else c) ∧ Alike L φ c' d' := by
  refine together_get (together_ite (by rw [h.isAt_eq]) (fun hat => ?_) fun hat => ?_)
  · have hc := peek_of_isAt hat
    refine ⟨leadsTo_bump c, leadsTo_bump d, (if_pos hc).symm,
      h.bump (h.within_succ h.within_zero ?_)⟩
    rw [show c.peekAt 0 = some t from hc]
    exact ht.symm
  · exact together_pure ⟨(if_neg (mt isAt_iff.mpr hat)).symm, h⟩

/-- The token `t` is read, be it the fence or not. -/
theorem Alike.bump_end (h : Alike L φ c d) (hc : c.peek = some t) :
    EndsAt t L φ c.bump d.bump := by
  by_cases hk : φ.Within c 1
  · exact .inl (h.bump hk)
  · obtain ⟨own, own', hown, hown', hrows, hborder⟩ := h.rows
    cases φ with
    | finish => exact absurd (.inl rfl) hk
    | fence l ls m ms =>
        cases hrows with
        | cons _ _ =>
            refine absurd (.inr ?_) hk
            simp only [remaining, hown, List.length_append, List.length_cons]
            omega
        | nil =>
            refine .inr ⟨?_, ?_⟩
            · rw [peek, peekAt, hown] at hc
              exact hc
            · rw [bump_of_rest hown, bump_of_rest hown']
              exact ⟨hborder.1.2, rfl, rfl, rfl, rfl⟩

/-- The fence itself may be read. -/
theorem Alike.eat_end (h : Alike L φ c d) :
    Together (Parser.eat t) (Parser.eat t) c d fun a b c' d' => a = b ∧ EndsAt t L φ c' d' :=
  h.eat_of (fun hc _ => ⟨rfl, h.bump_end hc⟩) ⟨rfl, .inl h⟩

/-- The token of a border is a fence. -/
theorem Alike.token?_ne (h : Alike L φ c d) (ht : ¬ t.IsFence) : φ.token? ≠ some t :=
  fun heq => ht (h.fence_of_token heq)

/-- Both runs find the same word or both do not, and less is left behind one that is found. -/
theorem Alike.eatWord (h : Alike L φ c d) (w : String) :
    Together (eatWord w) (eatWord w) c d fun a b c' d' =>
      Same L φ a b c' d' ∧ (a = true → c'.remaining < c.remaining) :=
  h.eat (h.token?_ne (by simp [Token.IsFence]))

/-- A token with a value, which is no fence, may be read. -/
theorem Alike.takeIf (h : Alike L φ c d) {f : Token → Option α}
    (hf : ∀ t, t.IsFence → f t = none) :
    Together (takeIf f) (takeIf f) c d (Same L φ) := by
  refine together_get ?_
  rw [h.peek_eq]
  cases hv : c.peek.bind f with
  | none => exact together_pure ⟨rfl, h⟩
  | some a =>
      obtain ⟨t, hpeek, ht⟩ := Option.bind_eq_some_iff.mp hv
      refine (h.together_bump (h.within_one hpeek fun hfence => ?_)).bind
        fun _ _ c' d' _ _ ⟨_, h'⟩ => together_pure ⟨rfl, h'⟩
      rw [hf t hfence] at ht
      cases ht

theorem Alike.takeWord (h : Alike L φ c d) : Together takeWord takeWord c d (Same L φ) :=
  h.takeIf fun _ ht => ht.word?_eq

/-- A quoted text may stand for a name; neither it nor a word is a fence. -/
theorem Alike.takeName (h : Alike L φ c d) : Together takeName takeName c d (Same L φ) :=
  h.takeIf fun t ht => by rcases ht with rfl | rfl <;> rfl

theorem Alike.takeString (h : Alike L φ c d) : Together takeString takeString c d (Same L φ) :=
  h.takeIf fun t ht => by rcases ht with rfl | rfl <;> rfl

/-- A reader that reads the same on both sides. -/
theorem Alike.taking_of (h : Alike L φ c d) {f : List Lexeme → α × Nat}
    (hread : f d.rest = f c.rest ∧ φ.Within c (f c.rest).2) :
    Together (Parser.taking f) (Parser.taking f) c d (Same L φ) := by
  refine ⟨leadsTo_advance _ c, leadsTo_advance _ d, ?_⟩
  show (f c.rest).1 = (f d.rest).1 ∧ Alike L φ (c.advance (f c.rest).2) (d.advance (f d.rest).2)
  rw [hread.1]
  exact ⟨rfl, h.advance hread.2⟩

/-- A reader that is fenced in takes the same number of tokens on both sides, and gives the same. -/
theorem Alike.taking (h : Alike L φ c d) {f : List Lexeme → α × Nat} (hf : FencedIn f) :
    Together (Parser.taking f) (Parser.taking f) c d (Same L φ) :=
  h.taking_of (h.reads hf)

/-- A scan that is fenced in skips as much on both sides. -/
theorem Alike.skip (h : Alike L φ c d) {extent : List Lexeme → Nat}
    (hf : FencedIn fun ls => ((), extent ls)) :
    Together (Parser.skip extent) (Parser.skip extent) c d fun _ _ c' d' => Alike L φ c' d' :=
  (h.taking hf).mono fun _ _ _ _ _ _ h => h.2

theorem Alike.skipAngles (h : Alike L φ c d) :
    Together skipAngles skipAngles c d fun _ _ c' d' => Alike L φ c' d' :=
  h.skip (fencedIn_angles 0)

theorem Alike.skipAngleTail (h : Alike L φ c d) :
    Together skipAngleTail skipAngleTail c d fun _ _ c' d' => Alike L φ c' d' :=
  h.skip (fencedIn_angles 1)

/-- Decorators end in front of the fence with all their arguments. -/
theorem Alike.skipDecorators (h : Alike L φ c d) :
    Together skipDecorators skipDecorators c d fun _ _ c' d' => Alike L φ c' d' :=
  h.skip fencedIn_decorators

/-- An initial value ends in front of a semicolon or a closing brace, or where a new line begins
    another member; that is the same on both sides. -/
theorem Alike.skipInitializer (h : Alike L φ c d) :
    Together skipInitializer skipInitializer c d fun _ _ c' d' => Alike L φ c' d' := by
  refine together_get ?_
  have hprev : d.prev.map (·.token) = c.prev.map (·.token) := by
    have hrel := h.prev
    generalize c.prev = a, d.prev = b at hrel
    cases hrel with
    | none => rfl
    | some hl => exact congrArg some (L.near_token hl).symm
  rw [hprev]
  exact h.skip (fencedIn_initializer _)

/-- A region in brackets that begins at the cursor.  Without a fence it need not begin there. -/
theorem Alike.skipBrackets (h : Alike L φ c d)
    (hopens : φ = .finish ∨ ∃ t, c.peek = some t ∧ t.opens = true) :
    Together skipBrackets skipBrackets c d fun _ _ c' d' => Alike L φ c' d' := by
  have hread := h.reads_of (f := fun ls => ((), bracketExtent 0 ls))
    (fun ls => congrArg (Prod.mk ()) (bracketExtent_bare 0 ls)) (by
      rintro l ls m ms own rfl hc henclosed
      obtain ⟨t, hpeek, ht⟩ := hopens.resolve_left nofun
      obtain ⟨l', ls', hrest, rfl⟩ := peek_eq_some_iff.mp hpeek
      rw [hc] at hrest
      rcases own with _ | ⟨o, own⟩
      · obtain ⟨rfl, -⟩ := List.cons.inj hrest
        rw [henclosed.fence.not_opens] at ht
        cases ht
      · obtain ⟨rfl, -⟩ := List.cons.inj hrest
        obtain ⟨k, hk, hextent⟩ := bracketExtent_nested henclosed.nested ht
        refine ⟨((), k + 1), Nat.succ_le_succ hk, fun tail => ?_⟩
        simp only [List.cons_append, bracketExtent_opens _ ht, hextent])
  exact (h.taking_of (f := fun ls => ((), bracketExtent 0 ls)) hread).mono fun _ _ _ _ _ _ h => h.2

/-- The tail of an imported type, with type arguments if they stand on the same line. -/
theorem Alike.skipQualifiedTail (h : Alike L φ c d) :
    Together skipQualifiedTail skipQualifiedTail c d fun _ _ c' d' => Alike L φ c' d' := by
  refine (h.skip fencedIn_qualifiers.extent).next fun _ _ c₁ d₁ _ h₁ => ?_
  refine together_get (together_ite (by rw [h₁.isAt_eq, h₁.newlineBefore_eq])
    (fun _ => h₁.skipAngles) fun _ => together_pure h₁)

/-- Brackets or angle brackets that may be there. -/
theorem Alike.skipBrackets_when (h : Alike L φ c d) {f g : Unit → Parser α}
    {post : α → α → Cursor → Cursor → Prop} (ht : t.opens = true)
    (hf : ∀ c' d', c'.remaining ≤ c.remaining → Alike L φ c' d' →
      Together (f ()) (g ()) c' d' post) :
    Together (if c.isAt t = true then Parser.skipBrackets >>= f else f ())
      (if d.isAt t = true then Parser.skipBrackets >>= g else g ()) c d post :=
  together_ite (by rw [h.isAt_eq])
    (fun hat => (h.skipBrackets (.inr ⟨t, peek_of_isAt hat, ht⟩)).next
      fun _ _ c' d' hle h' => hf c' d' hle h')
    fun _ => hf c d (Nat.le_refl _) h

/-- Type arguments are skipped on both sides or on none, and the rest follows. -/
theorem Alike.skipAngles_when (h : Alike L φ c d) {f g : Unit → Parser α}
    {post : α → α → Cursor → Cursor → Prop}
    (hf : ∀ c' d', c'.remaining ≤ c.remaining → Alike L φ c' d' →
      Together (f ()) (g ()) c' d' post) :
    Together (if c.isAt .less = true then Parser.skipAngles >>= f else f ())
      (if d.isAt .less = true then Parser.skipAngles >>= g else g ()) c d post :=
  together_ite (by rw [h.isAt_eq])
    (fun _ => h.skipAngles.next fun _ _ c' d' hle h' => hf c' d' hle h')
    fun _ => hf c d (Nat.le_refl _) h

/-- A dotted name is joined from the same words, however they are laid out. -/
theorem Alike.dottedName (h : Alike L φ c d) :
    Together dottedName dottedName c d (Same L φ) := by
  refine h.takeWord.bind fun a b c₁ d₁ _ _ ⟨hab, h₁⟩ => ?_
  refine (h₁.taking fencedIn_qualifiers).bind fun a' b' c₂ d₂ _ _ ⟨hab', h₂⟩ => ?_
  exact together_pure ⟨by rw [hab, hab'], h₂⟩

-- ── Looking further ahead ────────────────────────────────────────────────────────

theorem peekAt_of_sees {k : Nat} (h : c.sees k t = true) : c.peekAt k = some t := by
  simpa [sees] using h

/-- Where any word is seen, some word stands there. -/
theorem peekAt_of_seesAnyWord {k : Nat} (h : c.seesAnyWord k = true) :
    ∃ w, c.peekAt k = some (.word w) := by
  unfold seesAnyWord at h
  obtain ⟨w, hw⟩ := Option.isSome_iff_exists.mp h
  obtain ⟨t, ht, hword⟩ := Option.bind_eq_some_iff.mp hw
  cases t with
  | word w' => exact ⟨w', ht⟩
  | _ => cases hword

/-- The fence is not at a word, so it is possible to look one token further. -/
theorem Alike.within_word (h : Alike L φ c d) {k : Nat} (hk : φ.Within c k)
    (hword : c.seesAnyWord k = true) : φ.Within c (k + 1) := by
  obtain ⟨w, hw⟩ := peekAt_of_seesAnyWord hword
  exact h.within_next hk hw (by simp [Token.IsFence])

theorem Alike.within_sees (h : Alike L φ c d) {k : Nat} (hk : φ.Within c k)
    (hsees : c.sees k t = true) (ht : ¬ t.IsFence) : φ.Within c (k + 1) :=
  h.within_next hk (peekAt_of_sees hsees) ht

/-- A word at the start is before the fence. -/
theorem Alike.within_atWord (h : Alike L φ c d) {w : String} (hw : c.atWord w = true) :
    φ.Within c 1 :=
  h.within_sees h.within_zero hw (by simp [Token.IsFence])

/-- In a block every token is in front of the fence but the closing brace. -/
theorem Alike.within_of_inBlock (h : Alike L φ c d) (hblock : φ.InBlock)
    (hne : c.peek ≠ some .closeBrace) : φ.Within c 1 := by
  cases φ with
  | finish => exact .inl rfl
  | fence l ls m ms =>
      refine h.within_succ h.within_zero fun heq => hne ?_
      rw [peek, heq]
      exact congrArg some (hblock l.token rfl)

/-- An index signature is recognized on both sides or on none. -/
theorem Alike.atIndexSignature_eq (h : Alike L φ c d) :
    d.atIndexSignature = c.atIndexSignature := by
  unfold atIndexSignature
  rw [h.isAt_eq]
  have hword (hat : c.isAt .openBracket = true) : φ.Within c 1 :=
    h.within_sees h.within_zero hat (by decide)
  rw [and_eq_and fun hat => h.seesAnyWord_eq (hword hat)]
  refine and_eq_and fun hboth => ?_
  obtain ⟨hat, hany⟩ := Bool.and_eq_true_iff.mp hboth
  exact h.sees_eq (h.within_word (hword hat) hany) _

theorem Alike.atTupleLabel_eq (h : Alike L φ c d) : d.atTupleLabel = c.atTupleLabel := by
  unfold atTupleLabel
  rw [h.seesAnyWord_eq h.within_zero]
  refine and_eq_and fun hany => ?_
  have hone := h.within_word h.within_zero hany
  rw [h.sees_eq hone, h.sees_eq hone]
  congr 1
  exact and_eq_and fun hsees => h.sees_eq (h.within_sees hone hsees (by decide)) _

/-- The tokens up to a bracket that opens stand in front of the fence, and so does the next one. -/
theorem Alike.within_opens (h : Alike L φ c d) {k : Nat} (hk : φ.Within c k)
    (hsees : c.sees k t = true) (ht : t.opens = true) : φ.Within c (k + 2) := by
  obtain ⟨own, own', hc, hd, hrows, hborder, hk⟩ := h.rows_within hk
  cases φ with
  | finish => exact .inl rfl
  | fence l ls m ms =>
      have hk := hk.resolve_left nofun
      refine .inr ?_
      rw [remaining, hc, List.length_append]
      have hdrop := hborder.2.nested.drop k
      rcases hown : own.drop k with _ | ⟨o, row⟩
      · -- at the end of the row stands the fence, which opens nothing
        have hlength : own.length ≤ k := List.drop_eq_nil_iff.mp hown
        obtain rfl : k = own.length := Nat.le_antisymm hk hlength
        have hpeek := peekAt_of_sees hsees
        rw [peekAt, hc, List.getElem?_append_right (Nat.le_refl _), Nat.sub_self] at hpeek
        obtain rfl : l.token = t := Option.some.inj hpeek
        rw [hborder.2.fence.not_opens] at ht
        cases ht
      · have hpeek := peekAt_of_sees hsees
        have hlength : k < own.length := by
          refine Nat.lt_of_not_le fun hle => ?_
          rw [List.drop_eq_nil_iff.mpr hle] at hown
          cases hown
        rw [peekAt, hc, List.getElem?_append_left hlength, ← List.head?_drop, hown] at hpeek
        obtain rfl : o.token = t := Option.some.inj hpeek
        rw [hown] at hdrop
        obtain ⟨inner, x, rest, rfl, -⟩ := hdrop.exists_group ht
        have := congrArg List.length hown
        simp only [List.length_drop, List.length_cons, List.length_append] at this
        omega

theorem Alike.atMappedType_eq (h : Alike L φ c d) (hbrace : c.peek = some .openBrace) :
    d.atMappedType = c.atMappedType := by
  unfold atMappedType
  have hone := h.within_one hbrace (by decide)
  rw [h.seesWord_eq hone, h.sees_eq hone]
  have htwo : c.sees 1 .operator = true → φ.Within c 2 := fun hop =>
    h.within_sees hone hop (by decide)
  rw [and_eq_and fun hop => h.seesWord_eq (htwo hop) "readonly"]
  generalize hn : (if c.seesWord 1 "readonly" then 2
    else if (c.sees 1 .operator && c.seesWord 2 "readonly") = true then 3 else 1) = n
  have hwithin : φ.Within c n := by
    rw [← hn]
    split
    · next hword => exact h.within_sees hone hword (by simp [Token.IsFence])
    · split
      · next hboth =>
        obtain ⟨hop, hword⟩ := Bool.and_eq_true_iff.mp hboth
        exact h.within_sees (htwo hop) hword (by simp [Token.IsFence])
      · exact hone
  show (d.sees n .openBracket && d.seesWord (n + 2) "in") =
    (c.sees n .openBracket && c.seesWord (n + 2) "in")
  rw [h.sees_eq hwithin]
  exact and_eq_and fun hopen => h.seesWord_eq (h.within_opens hwithin hopen rfl) _

/-- The type of a function is recognized on both sides or on none: the bracket that closes its
    parameters stands before the fence, and what follows it is seen on both sides. -/
theorem Alike.atFunctionType_eq (h : Alike L φ c d) (hparen : c.peek = some .openParen) :
    d.atFunctionType = c.atFunctionType := by
  unfold atFunctionType
  have hread := h.reads_of
    (f := fun ls => (closerIndex 0 ls, ((closerIndex 0 ls).map (· + 1)).getD 0))
    (fun ls => by simp only [closerIndex_bare]) (by
      rintro l ls m ms own rfl hc henclosed
      obtain ⟨l', ls', hrest, ht⟩ := peek_eq_some_iff.mp hparen
      rw [hc] at hrest
      rcases own with _ | ⟨o, own⟩
      · obtain ⟨rfl, -⟩ := List.cons.inj hrest
        exact absurd ht (henclosed.fence.ne (by decide))
      · obtain ⟨rfl, -⟩ := List.cons.inj hrest
        obtain ⟨inner, x, rest, rfl, hcloser, hinner, -⟩ :=
          henclosed.nested.exists_group (by rw [ht]; rfl)
        refine ⟨(some (inner.length + 1), inner.length + 2), by simp, fun tail => ?_⟩
        simp only [List.cons_append, List.append_assoc, closerIndex_group hcloser hinner]
        rfl)
  simp only [Prod.mk.injEq] at hread
  rw [hread.1.1]
  cases hi : closerIndex 0 c.rest with
  | none => rfl
  | some i =>
      rw [hi] at hread
      exact h.sees_eq hread.2 _

/-- The word of an accessor is told from a member of that name by what follows it. -/
theorem Alike.accessorKind (h : Alike L φ c d) :
    Together accessorKind accessorKind c d (Same L φ) := by
  have hname {w : String} (hat : c.atWord w = true) := h.seesMemberName_eq (h.within_atWord hat)
  refine together_get (together_ite (by rw [h.atWord_eq, and_eq_and hname]) (fun hget => ?_)
    fun _ => together_ite (by rw [h.atWord_eq, and_eq_and hname]) (fun hset => ?_)
      fun _ => together_pure ⟨rfl, h⟩)
  · exact (h.readWord (Bool.and_eq_true_iff.mp hget).1).next fun _ _ c₁ d₁ _ ⟨_, _, h₁⟩ =>
      together_pure ⟨rfl, h₁⟩
  · exact (h.readWord (Bool.and_eq_true_iff.mp hset).1).next fun _ _ c₁ d₁ _ ⟨_, _, h₁⟩ =>
      together_pure ⟨rfl, h₁⟩

/-- A member has the same name on both sides; a computed name is skipped, and is none. -/
theorem Alike.memberName (h : Alike L φ c d) :
    Together memberName memberName c d (Same L φ) := by
  refine together_get ?_
  rcases h.heads with ⟨hc, hd⟩ | ⟨l, ls, m, ms, hc, hd, hlm⟩
  · rw [hc, hd]
    exact together_pure ⟨rfl, h⟩
  rw [hc, hd]
  have hpeek : c.peek = some l.token := by simp [peek, peekAt, hc]
  simp only [← L.near_token (L.near_of hlm), ← L.text_eq hlm]
  cases hl : l.token with
  | word w | string w | privateName w =>
      rw [hl] at hpeek
      refine (h.read hpeek (by simp [Token.IsFence])).next ?_
      rintro _ _ c₁ d₁ _ ⟨_, _, h₁⟩
      exact together_pure ⟨rfl, h₁⟩
  | number =>
      rw [hl] at hpeek
      refine (h.read hpeek (by decide)).next ?_
      rintro _ _ c₁ d₁ _ ⟨_, _, h₁⟩
      exact together_pure ⟨rfl, h₁⟩
  | openBracket =>
      rw [hl] at hpeek
      exact (h.skipBrackets (.inr ⟨_, hpeek, rfl⟩)).next fun _ _ c₁ d₁ _ h₁ =>
        together_pure ⟨rfl, h₁⟩
  | _ => exact together_pure ⟨rfl, h⟩

-- ── Nearer borders ───────────────────────────────────────────────────────────────

/-- A fence in front of the border is a border for the row that it encloses.  Where that row has
    been read, up to the fence or through it, the cursors are alike again as they were before. -/
theorem Alike.nearer {l m x : Lexeme} {ls ms inner rest : List Lexeme}
    (h : Alike L (.fence l ls m ms) c d) (hsplit : c.rest = (inner ++ x :: rest) ++ l :: ls)
    (hinner : Enclosed inner x) :
    ∃ ψ : Border, c.rest = inner ++ ψ.left ∧ ψ.token? = some x.token ∧ Alike L ψ c d ∧
      ∀ c' d', c.LeadsTo c' → EndsAt x.token L ψ c' d' → Alike L (.fence l ls m ms) c' d' := by
  obtain ⟨own, own', hc, hd, hrows, hlm, henclosed⟩ := h.rows
  obtain rfl : own = inner ++ x :: rest := List.append_cancel_right (hc.symm.trans hsplit)
  obtain ⟨inner', row', hinner', hrow', rfl⟩ :
      ∃ inner' row', List.Forall₂ L.lexeme inner inner' ∧
        List.Forall₂ L.lexeme (x :: rest) row' ∧ own' = inner' ++ row' := by
    refine ⟨own'.take inner.length, own'.drop inner.length, ?_, ?_,
      (List.take_append_drop ..).symm⟩
    · simpa using List.forall₂_take inner.length hrows
    · simpa using List.forall₂_drop inner.length hrows
  obtain ⟨x', rest', hx, hrest, rfl⟩ := List.forall₂_cons_left_iff.mp hrow'
  have hleft : c.rest = inner ++ x :: (rest ++ l :: ls) := by simp [hsplit]
  have hright : d.rest = inner' ++ x' :: (rest' ++ m :: ms) := by simp [hd, Border.right]
  refine ⟨.fence x (rest ++ l :: ls) x' (rest' ++ m :: ms), hleft, rfl,
    ⟨h.prev, Border.noConfusion, inner, inner', hleft, hright, hinner', ⟨hlm.1, hx⟩, hinner⟩, ?_⟩
  intro c' d' hlead hends
  -- what is left is an end of what stood in front of the farther border
  have hsuffix : c'.rest <:+ (inner ++ x :: rest) ++ l :: ls := by
    obtain ⟨n, rfl⟩ := hlead
    rw [rest_advance, ← hsplit]
    exact List.drop_suffix n _
  rcases hends with hends | ⟨-, hbehind⟩
  · obtain ⟨own₁, own₁', hc₁, hd₁, hrows₁, -⟩ := hends.rows
    have hleft₁ : c'.rest = (own₁ ++ x :: rest) ++ l :: ls := by simp [hc₁, Border.left]
    have hright₁ : d'.rest = (own₁' ++ x' :: rest') ++ m :: ms := by simp [hd₁, Border.right]
    rw [hleft₁] at hsuffix
    exact ⟨hends.prev, Border.noConfusion, _, _, hleft₁, hright₁,
      List.rel_append hrows₁ (.cons hx hrest), hlm,
      henclosed.suffix (List.suffix_append_self_iff.mp hsuffix)⟩
  · obtain ⟨-, hprev, hc₁, hprev', hd₁⟩ := hbehind
    refine ⟨?_, Border.noConfusion, rest, rest', hc₁, hd₁, hrest, hlm, ?_⟩
    · rw [hprev, hprev']
      exact .some (L.near_of hx)
    · exact henclosed.suffix ((List.suffix_cons ..).trans (List.suffix_append ..))

/-- A token that is no fence stands in front of the border, and so does the row behind it. -/
theorem Alike.uncons {l m : Lexeme} {ls ms : List Lexeme} (h : Alike L (.fence l ls m ms) c d)
    {t : Token} (hpeek : c.peek = some t) (ht : ¬ t.IsFence) :
    ∃ o own, o.token = t ∧ c.bump.rest = own ++ l :: ls ∧ Enclosed (o :: own) l ∧
      Alike L (.fence l ls m ms) c.bump d.bump := by
  obtain ⟨own, own', hc, -, hrows, -, henclosed⟩ := h.rows
  obtain ⟨o, row, hrest, ho⟩ := peek_eq_some_iff.mp hpeek
  rw [hc] at hrest
  rcases own with _ | ⟨o', own⟩
  · obtain ⟨rfl, -⟩ := List.cons.inj hrest
    exact absurd (ho ▸ henclosed.fence) ht
  · obtain ⟨rfl, -⟩ := List.cons.inj hrest
    refine ⟨o', own, ho, ?_, henclosed, h.bump (h.within_one hpeek ht)⟩
    rw [bump_of_rest hc]
    rfl

/-- Inside a block the brace that closes it is the border. -/
theorem Alike.block (h : Alike L φ c d) (hbrace : c.peek = some .openBrace) :
    ∃ ψ : Border, Alike L ψ c.bump d.bump ∧ ψ.InBlock ∧
      ∀ c' d', c.bump.LeadsTo c' → EndsAt .closeBrace L ψ c' d' → Alike L φ c' d' := by
  cases φ with
  | finish =>
      refine ⟨.finish, h.bump (.inl rfl), (by rintro _ ⟨⟩), fun c' d' _ hends => ?_⟩
      exact hends.resolve_right fun hends => hends.2
  | fence l ls m ms =>
      obtain ⟨o, own, ho, hc, henclosed, h₁⟩ := h.uncons hbrace (by decide)
      obtain ⟨inner, x, rest, rfl, hcloser, hinner, -⟩ :=
        henclosed.nested.exists_group (by rw [ho]; rfl)
      have hx : x.token = .closeBrace := by
        rw [ho] at hcloser
        exact (Option.some.inj hcloser).symm
      obtain ⟨ψ, -, htoken, hψ, hleave⟩ := h₁.nearer hc (henclosed.block hx hinner)
      rw [hx] at htoken hleave
      refine ⟨ψ, hψ, fun t ht => ?_, hleave⟩
      exact Option.some.inj (ht.symm.trans htoken)

/-- Where the elements of a tuple are read, a fence that they end at is the border. -/
theorem Alike.tuple (h : Alike L φ c d) (hbracket : c.peek = some .openBracket) :
    ∃ ψ : Border, Alike L ψ c.bump d.bump ∧ ψ.Unlabelled c.bump ∧
      ∀ c' d', c.bump.LeadsTo c' → Alike L ψ c' d' → Alike L φ c' d' := by
  cases φ with
  | finish => exact ⟨.finish, h.bump (.inl rfl), .inl rfl, fun _ _ _ hends => hends⟩
  | fence l ls m ms =>
      obtain ⟨o, own, ho, hc, henclosed, h₁⟩ := h.uncons hbracket (by decide)
      obtain ⟨elements, rest, rfl, helements, hfence, hlabel⟩ :=
        henclosed.settled.tuples o own (List.suffix_refl _) ho
      have hunlabelled {ψ : Border} (hrest : c.bump.rest = elements ++ ψ.left) :
          ψ.Unlabelled c.bump := by
        refine .inr fun own hown => ?_
        rwa [List.append_cancel_right (hown.symm.trans hrest)]
      rcases rest with _ | ⟨p, rest⟩
      · rw [List.append_nil] at hc
        exact ⟨_, h₁, hunlabelled hc, fun _ _ _ hends => hends⟩
      · have hend := (henclosed.suffix (List.suffix_cons ..)).elements helements
          (hfence p rfl) hlabel
        obtain ⟨ψ, hrest, -, hψ, hleave⟩ := h₁.nearer hc hend
        exact ⟨ψ, hψ, hunlabelled hrest, fun c' d' hlead hends => hleave c' d' hlead (.inl hends)⟩

/-- In a block a semicolon is not the fence, so nothing that may end with one ends behind the fence.
    -/
theorem EndsAt.alike_of_inBlock (h : EndsAt .semicolon L φ c d) (hblock : φ.InBlock) :
    Alike L φ c d :=
  h.resolve_right fun h => nomatch hblock _ h.1

-- ── Loops ────────────────────────────────────────────────────────────────────────

/-- One more token of a row, at its end. -/
theorem tokens_take_succ {n : Nat} (h : c.peekAt n = some t) :
    (c.rest.take (n + 1)).map (·.token) = (c.rest.take n).map (·.token) ++ [t] := by
  obtain ⟨l, hl, rfl⟩ := Option.map_eq_some_iff.mp h
  rw [List.take_add_one, hl, List.map_append]
  rfl

/-- Behind the label of a tuple element stands a token in front of the fence. -/
theorem Alike.within_behind_label (h : Alike L φ c d) (hfree : φ.Unlabelled c)
    (hlabel : c.atTupleLabel = true) :
    ∃ w, c.peek = some (.word w) ∧ (c.peekAt 1 = some .colon ∧ φ.Within c 3 ∨
      c.peekAt 1 = some .question ∧ c.peekAt 2 = some .colon ∧ φ.Within c 4) := by
  obtain ⟨hany, hsign⟩ := Bool.and_eq_true_iff.mp hlabel
  obtain ⟨w, hw⟩ := peekAt_of_seesAnyWord hany
  refine ⟨w, hw, ?_⟩
  have hone := h.within_word h.within_zero hany
  obtain ⟨own, own', hc, hd, hrows, hborder⟩ := h.rows
  -- a row that is no more than the label would stand directly in front of the fence
  have hlonger {n : Nat} (hn : φ.Within c n) (hlabel : IsLabel (c.rest.take n)) :
      φ.Within c (n + 1) := by
    cases φ with
    | finish => exact .inl rfl
    | fence l ls m ms =>
        have hlength := hn.resolve_left nofun
        rw [remaining, hc, List.length_append] at hlength
        refine .inr ?_
        rw [remaining, hc, List.length_append]
        rcases Nat.lt_or_ge n own.length with hlt | hge
        · omega
        · obtain rfl : n = own.length := Nat.le_antisymm (by omega) hge
          rw [hc, List.take_left] at hlabel
          have hends : EndsWithLabel own := ⟨own, List.suffix_refl own, hlabel⟩
          exact absurd hends (hfree.resolve_left Border.noConfusion own hc)
  rcases Bool.or_eq_true_iff.mp hsign with hcolon | hboth
  · have hcolon := peekAt_of_sees hcolon
    refine .inl ⟨hcolon, hlonger (h.within_next hone hcolon (by decide)) ⟨w, .inl ?_⟩⟩
    rw [tokens_take_succ hcolon, tokens_take_succ hw]
    rfl
  · obtain ⟨hquestion, hcolon⟩ := Bool.and_eq_true_iff.mp hboth
    have hquestion := peekAt_of_sees hquestion
    have hcolon := peekAt_of_sees hcolon
    refine .inr ⟨hquestion, hcolon, hlonger (h.within_next
      (h.within_next hone hquestion (by decide)) hcolon (by decide)) ⟨w, .inr ?_⟩⟩
    rw [tokens_take_succ hcolon, tokens_take_succ hquestion, tokens_take_succ hw]
    rfl

/-- A loop that has read nothing moves over one token on both sides or on none, and so it has moved
    on before the next turn. -/
theorem Alike.together_forced {c₀ d₀ : Cursor} {f g : Unit → Parser α} {n : Nat}
    {post : α → α → Cursor → Cursor → Prop} (h₀ : Alike L φ c₀ d₀) (hk : φ.Within c₀ 1)
    (hn : c₀.remaining ≤ n) (hpeek : c₀.peek = none → c₀.remaining < n)
    (h : Alike L φ c d) (hc : c₀.LeadsTo c)
    (hf : ∀ c' d', c.LeadsTo c' → d.LeadsTo d' → c'.remaining < n → Alike L φ c' d' →
      Together (f ()) (g ()) c' d' post) :
    Together (if c.remaining = c₀.remaining then Parser.bump >>= f else f ())
      (if d.remaining = d₀.remaining then Parser.bump >>= g else g ()) c d post := by
  refine together_ite (h₀.remaining_eq_iff h) (fun heq => ?_) fun hne => ?_
  · obtain rfl := hc.eq_of_remaining heq
    refine (h.together_bump hk).bind fun _ _ c' d' hc' hd' ⟨hbump, h'⟩ => ?_
    refine hf c' d' hc' hd' ?_ h'
    cases hnext : c.peek with
    | none => exact Nat.lt_of_le_of_lt hc'.remaining_le (hpeek hnext)
    | some t =>
        rw [hbump]
        exact Nat.lt_of_lt_of_le (remaining_bump_lt hnext) hn
  · refine hf c d (.refl c) (.refl d) ?_ h
    have := hc.remaining_le
    omega

/-- One turn of a loop over members or statements: an element, a token if the element took none, and
    the rest. -/
theorem Alike.together_turn {β γ δ : Type} {p q : Parser β} {p' q' : Parser γ} {J : β → γ → δ}
    {R : β → β → Prop} {S : γ → γ → Cursor → Cursor → Prop}
    {post : δ → δ → Cursor → Cursor → Prop} (h : Alike L φ c d) (hk : φ.Within c 1)
    (hpeek : c.peek ≠ none)
    (hp : Together p q c d fun a b c' d' => R a b ∧ Alike L φ c' d')
    (hrest : ∀ c' d', Alike L φ c' d' → c'.remaining < c.remaining → Together p' q' c' d' S)
    (hjoin : ∀ a b x y c' d', R a b → S x y c' d' → post (J a x) (J b y) c' d') :
    Together
      (do
        let a ← p
        let c' ← get
        if c'.remaining = c.remaining then Parser.bump
        let x ← p'
        pure (J a x))
      (do
        let b ← q
        let d' ← get
        if d'.remaining = d.remaining then Parser.bump
        let y ← q'
        pure (J b y)) c d post := by
  refine hp.bind fun a b c₁ d₁ hc₁ _ ⟨hab, h₁⟩ => together_get ?_
  refine h.together_forced hk (Nat.le_refl _) (fun hnone => absurd hnone hpeek) h₁ hc₁
    fun c₂ d₂ _ _ hlt h₂ => ?_
  exact (hrest c₂ d₂ h₂ hlt).next fun x y c₃ d₃ _ hS => together_pure (hjoin a b x y c₃ d₃ hab hS)

end Cursor

end DeclAtlas

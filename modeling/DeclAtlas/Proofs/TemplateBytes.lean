import DeclAtlas.Proofs.Tokenization

/-!
# Templates in bytes

The signs of a template are ASCII, so its end may be sought in bytes as well as in characters.
`Template.closingBytes` runs the scanner over bytes, any bytes, each read as the character of its
number:

* **`Template.closingBytes_reads`** — it stops behind the first bytes that are the text of a
  template, which are no others, or nowhere if there are none; and in the UTF-8 bytes of a text it
  stops where the scanner stops in the characters, so between two of these.

A character that is not ASCII is several bytes, none of which is ASCII.  Such bytes are inert: they
leave every frame open in which text is read (`Template.closing_wide`).  A backslash takes one byte
where it takes a whole character otherwise; so below the frame of a backslash there must be one in
which the other bytes are text (`Template.Nested`).
-/

namespace DeclAtlas.Template

-- ── Bytes ────────────────────────────────────────────────────────────────────────

/-- The number of bytes up to and including the closing backtick, if there is one. -/
def closingBytes (bytes : List UInt8) : Option Nat := closing [.body] (bytes.map Char.ofUInt8)

/-- The bytes are a part of a template.  Different bytes are different characters, and all that the
    grammar names are bytes; so it is one over bytes, too. -/
def Part.ReadsBytes (p : Part) (bytes : List UInt8) : Prop := p.Reads (bytes.map Char.ofUInt8)

/-- The UTF-8 bytes of characters. -/
def utf8 (cs : List Char) : List UInt8 := cs.flatMap String.utf8EncodeChar

/-- The bytes of a text are those of its characters, one after the other. -/
theorem toList_toUTF8 (text : String) : text.toUTF8.data.toList = utf8 text.toList := by
  conv => lhs; rw [← String.ofList_toList (s := text)]
  rw [String.toUTF8_eq_toByteArray, String.toByteArray_ofList, List.utf8Encode,
    List.data_toByteArray]
  rfl

/-- There are as many of them as the text is long in bytes. -/
theorem length_utf8 (cs : List Char) : (utf8 cs).length = String.utf8Len cs := by
  induction cs with
  | nil => rfl
  | cons c cs ih =>
      show (String.utf8EncodeChar c ++ utf8 cs).length = String.utf8Len cs + c.utf8Size
      rw [List.length_append, String.length_utf8EncodeChar, ih, Nat.add_comm]

-- ── Characters that are not ASCII ────────────────────────────────────────────────

/-- The character, or the byte that it stands for, is not ASCII. -/
def Wide (c : Char) : Prop := 128 ≤ c.toNat

/-- A wide character is none of the first 128. -/
theorem Wide.ne {c d : Char} (hc : Wide c) (hd : d.toNat < 128) : c ≠ d := by
  rintro rfl
  exact absurd hd (Nat.not_lt.mpr hc)

theorem toNat_ofUInt8 (b : UInt8) : (Char.ofUInt8 b).toNat = b.toNat := rfl

/-- An ASCII character is one byte, which stands for it. -/
theorem utf8EncodeChar_ascii {c : Char} (hc : ¬ Wide c) :
    ∃ b, String.utf8EncodeChar c = [b] ∧ Char.ofUInt8 b = c := by
  have hval : c.val.toNat = c.toNat := rfl
  have hlt : c.toNat < 128 := Nat.not_le.mp hc
  refine ⟨UInt8.ofNat c.toNat, ?_, ?_⟩
  · rw [String.utf8EncodeChar]
    simp only [hval]
    rw [if_pos (Nat.le_of_lt_succ hlt)]
  · apply Char.toNat_inj.mp
    rw [toNat_ofUInt8, UInt8.toNat_ofNat', Nat.mod_eq_of_lt (hlt.trans (by decide))]

/-- The bytes of a character that is not ASCII are not ASCII either: a number is added to some of
    its bits in each of them. -/
theorem wide_utf8EncodeChar {c : Char} (hc : Wide c) :
    ∀ d ∈ (String.utf8EncodeChar c).map Char.ofUInt8, Wide d := by
  have hval : c.val.toNat = c.toNat := rfl
  have hbyte : ∀ bits mark : Nat, 128 ≤ mark → bits + mark < 256 →
      Wide (Char.ofUInt8 (UInt8.ofNat (bits + mark))) := by
    intro bits mark hmark hlt
    rw [Wide, toNat_ofUInt8, UInt8.toNat_ofNat', Nat.mod_eq_of_lt hlt]
    omega
  rw [Wide] at hc
  rw [String.utf8EncodeChar, if_neg (by omega)]
  split
  · simp only [List.map_cons, List.map_nil, List.forall_mem_cons]
    exact ⟨hbyte _ _ (by omega) (by omega), hbyte _ _ (by omega) (by omega), by simp⟩
  · split
    · simp only [List.map_cons, List.map_nil, List.forall_mem_cons]
      exact ⟨hbyte _ _ (by omega) (by omega), hbyte _ _ (by omega) (by omega),
        hbyte _ _ (by omega) (by omega), by simp⟩
    · simp only [List.map_cons, List.map_nil, List.forall_mem_cons]
      exact ⟨hbyte _ _ (by omega) (by omega), hbyte _ _ (by omega) (by omega),
        hbyte _ _ (by omega) (by omega), hbyte _ _ (by omega) (by omega), by simp⟩

/-- A character is one byte that stands for it, or several that are not ASCII. -/
theorem utf8EncodeChar_cases (c : Char) :
    ∃ d ds, (String.utf8EncodeChar c).map Char.ofUInt8 = d :: ds ∧ ds.length + 1 = c.utf8Size ∧
      (d = c ∧ ds = [] ∨ Wide c ∧ ∀ e ∈ d :: ds, Wide e) := by
  have hlen : ((String.utf8EncodeChar c).map Char.ofUInt8).length = c.utf8Size := by
    rw [List.length_map, String.length_utf8EncodeChar]
  by_cases hc : Wide c
  · have hwide := wide_utf8EncodeChar hc
    cases hbytes : (String.utf8EncodeChar c).map Char.ofUInt8 with
    | nil =>
        rw [hbytes] at hlen
        exact absurd hlen.symm (Nat.ne_of_gt c.utf8Size_pos)
    | cons d ds =>
        rw [hbytes] at hlen hwide
        exact ⟨d, ds, rfl, hlen, Or.inr ⟨hc, hwide⟩⟩
  · obtain ⟨b, hb, hchar⟩ := utf8EncodeChar_ascii hc
    rw [hb] at hlen ⊢
    exact ⟨c, [], congrArg ([·]) hchar, hlen, Or.inl ⟨rfl, rfl⟩⟩

-- ── Frames that stay open ────────────────────────────────────────────────────────

/-- In these frames stands text: a byte or character that is no sign leaves them open. -/
def Frame.Plain : Frame → Prop
  | .body | .braces => True
  | .quoted q => ¬ Wide q
  | .escape | .dollar => False

/-- The innermost frame may wait for a character, if below the frame of a backslash stands another;
    in all other frames stands text. -/
def Nested : List Frame → Prop
  | [] => True
  | f :: fs => (∀ g ∈ fs, g.Plain) ∧ (f.Plain ∨ f = .dollar ∨ f = .escape ∧ fs ≠ [])

theorem not_wide_of_isQuote {c : Char} (h : c = '"' ∨ c = '\'') : ¬ Wide c := by
  intro hc
  rcases h with rfl | rfl
  · exact hc.ne (by decide) rfl
  · exact hc.ne (by decide) rfl

/-- Frames without braces between quotes are nested. -/
theorem Nested.of_plain {fs : List Frame} (h : ∀ f ∈ fs, f.Plain) : Nested fs := by
  cases fs with
  | nil => trivial
  | cons f fs =>
      obtain ⟨hf, hfs⟩ := List.forall_mem_cons.mp h
      exact ⟨hfs, Or.inl hf⟩

section Steps

variable {f : Frame} {fs : List Frame} {c : Char} {next : Option Char}

/-- Frames stay nested as a character is read. -/
theorem Nested.step (h : Nested (f :: fs)) : Nested (f.step c next ++ fs) := by
  obtain ⟨hfs, hf⟩ := h
  have hplain : ∀ gs : List Frame, (∀ g ∈ gs, g.Plain) → Nested (gs ++ fs) := by
    intro gs hgs
    exact .of_plain (List.forall_mem_append.mpr ⟨hgs, hfs⟩)
  have hwaits : ∀ g h : Frame, (g = .escape ∨ g = .dollar) → h.Plain →
      Nested ([g, h] ++ fs) := by
    intro g h hg hh
    refine ⟨List.forall_mem_cons.mpr ⟨hh, hfs⟩, Or.inr ?_⟩
    rcases hg with rfl | rfl
    · exact Or.inr ⟨rfl, List.cons_ne_nil _ _⟩
    · exact Or.inl rfl
  cases f with
  | body =>
      rw [Frame.step]
      split_ifs
      · exact hplain [] (by simp)
      · exact hwaits .escape .body (Or.inl rfl) trivial
      · exact hwaits .dollar .body (Or.inr rfl) trivial
      · exact hplain [.body] (by simp [Frame.Plain])
  | escape => exact hplain [] (by simp)
  | dollar => exact hplain [.braces] (by simp [Frame.Plain])
  | braces =>
      rw [Frame.step]
      split_ifs with _ _ _ hquote
      · exact hplain [.braces, .braces] (by simp [Frame.Plain])
      · exact hplain [] (by simp)
      · exact hplain [.body, .braces] (by simp [Frame.Plain])
      · exact hplain [.quoted c, .braces] (by simp [Frame.Plain, not_wide_of_isQuote hquote])
      · exact hplain [.braces] (by simp [Frame.Plain])
  | quoted q =>
      have hq : (Frame.quoted q).Plain := by simpa using hf
      rw [Frame.step]
      split_ifs
      · exact hplain [] (by simp)
      · exact hwaits .escape (.quoted q) (Or.inl rfl) hq
      · exact hplain [.quoted q] (by simpa using hq)

/-- What is not ASCII leaves a frame open in which text stands. -/
theorem Frame.Plain.step_wide (hf : f.Plain) (hc : Wide c) : f.step c next = [f] := by
  cases f with
  | body =>
      refine step_body next (hc.ne (by decide)) (hc.ne (by decide)) ?_
      rintro ⟨rfl, -⟩
      exact hc.ne (by decide) rfl
  | braces =>
      refine step_code next (hc.ne (by decide)) (hc.ne (by decide)) (hc.ne (by decide)) ?_
      exact fun hquote => not_wide_of_isQuote hquote hc
  | quoted q =>
      have hq : c ≠ q := by
        rintro rfl
        exact hf hc
      rw [Frame.step, if_neg hq, if_neg (hc.ne (by decide))]
  | escape => cases hf
  | dollar => cases hf

/-- Whatever is not ASCII leads to the same frames, in the innermost of which stands text. -/
theorem Nested.step_wide (h : Nested (f :: fs)) :
    ∃ g gs, g.Plain ∧ Nested (g :: gs) ∧
      ∀ c next, Wide c → f.step c next ++ fs = g :: gs := by
  obtain ⟨hfs, hf | rfl | ⟨rfl, hne⟩⟩ := h
  · exact ⟨f, fs, hf, ⟨hfs, Or.inl hf⟩, fun c next hc => congrArg (· ++ fs) (hf.step_wide hc)⟩
  · exact ⟨.braces, fs, trivial, ⟨hfs, Or.inl trivial⟩, fun _ _ _ => rfl⟩
  · obtain ⟨g, gs, rfl⟩ := List.exists_cons_of_ne_nil hne
    have hg : g.Plain := hfs g (List.mem_cons_self ..)
    exact ⟨g, gs, hg, .of_plain hfs, fun _ _ _ => rfl⟩

/-- Bytes that are not ASCII are passed over. -/
theorem closing_wide (hf : f.Plain) {ds : List Char} (hds : ∀ d ∈ ds, Wide d) (rest : List Char) :
    closing (f :: fs) (ds ++ rest) = (closing (f :: fs) rest).map (· + ds.length) := by
  induction ds with
  | nil => exact Option.map_id'.symm
  | cons d ds ih =>
      obtain ⟨hd, hds⟩ := List.forall_mem_cons.mp hds
      rw [List.cons_append, closing_cons, hf.step_wide hd, List.singleton_append, ih hds,
        map_add_map]
      rfl

/-- Behind a character it is looked for nothing but a brace. -/
theorem Frame.step_congr {next' : Option Char} (h : next = some '\x7b' ↔ next' = some '\x7b') :
    f.step c next = f.step c next' := by
  cases f with
  | body => simp only [Frame.step, h]
  | _ => rfl

end Steps

-- ── Characters and their bytes ───────────────────────────────────────────────────

/-- Bytes begin with a brace exactly where the characters do. -/
theorem head?_utf8 (cs : List Char) :
    ((utf8 cs).map Char.ofUInt8).head? = some '\x7b' ↔ cs.head? = some '\x7b' := by
  cases cs with
  | nil => exact Iff.rfl
  | cons c cs =>
      obtain ⟨d, ds, hbytes, -, hcases⟩ := utf8EncodeChar_cases c
      rw [utf8, List.flatMap_cons, List.map_append, hbytes]
      rcases hcases with ⟨rfl, -⟩ | ⟨hc, hds⟩
      · rfl
      · have hd : d ≠ '\x7b' := (hds d (List.mem_cons_self ..)).ne (by decide)
        have hne : c ≠ '\x7b' := hc.ne (by decide)
        simp [hd, hne]

/-- Behind one character, and behind its bytes. -/
theorem map_utf8Len_take (c : Char) (cs : List Char) (o : Option Nat) :
    (o.map (· + 1)).map (fun n => String.utf8Len ((c :: cs).take n)) =
      (o.map fun n => String.utf8Len (cs.take n)).map (· + c.utf8Size) := by
  cases o with
  | none => rfl
  | some n => rfl

/-- **Bytes close where characters do.**  In the bytes of some characters, nested frames are closed
    behind those of the characters up to the one that closes them. -/
theorem closing_utf8 (cs : List Char) :
    ∀ {fs : List Frame}, Nested fs →
      closing fs ((utf8 cs).map Char.ofUInt8) =
        (closing fs cs).map fun n => String.utf8Len (cs.take n) := by
  induction cs with
  | nil =>
      intro fs _
      cases fs with
      | nil => rfl
      | cons f fs => rfl
  | cons c cs ih =>
      intro fs h
      cases fs with
      | nil =>
          rw [closing, closing]
          rfl
      | cons f fs =>
          obtain ⟨d, ds, hbytes, hlen, hcases⟩ := utf8EncodeChar_cases c
          have hsplit : (utf8 (c :: cs)).map Char.ofUInt8 =
              d :: (ds ++ (utf8 cs).map Char.ofUInt8) := by
            rw [utf8, List.flatMap_cons, List.map_append, hbytes]
            rfl
          rw [hsplit, closing_cons, closing_cons, map_utf8Len_take, ← hlen]
          rcases hcases with ⟨rfl, rfl⟩ | ⟨hc, hds⟩
          · -- the byte opens and closes what the character does
            rw [List.nil_append, Frame.step_congr (head?_utf8 cs), ih h.step]
            rfl
          · -- the first byte does what the character does, and the others are passed over
            obtain ⟨hd, hds⟩ := List.forall_mem_cons.mp hds
            obtain ⟨g, gs, hg, hgs, hstep⟩ := h.step_wide
            rw [hstep d _ hd, hstep c _ hc, closing_wide hg hds, ih hgs, map_add_map]

-- ── Templates ────────────────────────────────────────────────────────────────────

/-- The scanner of bytes closes a template where the grammar does. -/
theorem closingBytes_eq_some_iff {bytes : List UInt8} {n : Nat} :
    closingBytes bytes = some n ↔ n ≤ bytes.length ∧ Part.text.ReadsBytes (bytes.take n) := by
  rw [closingBytes, closing_eq_some_iff, List.length_map, Part.ReadsBytes, List.map_take]

theorem closingBytes_eq_none_iff {bytes : List UInt8} :
    closingBytes bytes = none ↔ ∀ front, front <+: bytes → ¬ Part.text.ReadsBytes front := by
  rw [Option.eq_none_iff_forall_ne_some]
  constructor
  · rintro h front ⟨rest, rfl⟩ hreads
    refine h front.length (closingBytes_eq_some_iff.mpr ⟨?_, ?_⟩)
    · rw [List.length_append]
      exact Nat.le_add_right _ _
    · rwa [List.take_left]
  · intro h n hclosing
    obtain ⟨-, hreads⟩ := closingBytes_eq_some_iff.mp hclosing
    exact h _ (List.take_prefix n bytes) hreads

/-- Some bytes begin with one template's text at most. -/
theorem eq_of_readsBytes {bytes front front' : List UInt8} (h : front <+: bytes)
    (h' : front' <+: bytes) (hreads : Part.text.ReadsBytes front)
    (hreads' : Part.text.ReadsBytes front') : front = front' := by
  obtain ⟨rest, rfl⟩ := h
  obtain ⟨rest', hsplit⟩ := h'
  have hchars := congrArg (List.map Char.ofUInt8) hsplit
  rw [List.map_append, List.map_append] at hchars
  have hlen := congrArg List.length (eq_of_reads hreads' hreads hchars)
  rw [List.length_map, List.length_map] at hlen
  exact (List.append_inj hsplit hlen).1.symm

/-- On the bytes of a text, it closes where the scanner of characters does. -/
theorem closingBytes_toUTF8 (text : String) :
    closingBytes text.toUTF8.data.toList =
      (closing [.body] text.toList).map fun n => String.utf8Len (text.toList.take n) := by
  rw [toList_toUTF8, closingBytes]
  exact closing_utf8 text.toList (.of_plain (by simp [Frame.Plain]))

/-- A backslash takes one of the two bytes of a letter, and the other one is text. -/
example : closingBytes [0x5c, 0xc3, 0xa9, 0x60] = some 4 ∧
    closing [.body] ['\\', 'é', '\x60'] = some 3 := by decide

/-- **The end of a template in bytes.**  Over any bytes, the scanner stops behind the first `n`
    exactly if these are the text of a template, and nowhere exactly if no first bytes are; no more
    than one number of them is.  In the UTF-8 bytes of a text it stops where it stops in the
    characters, which is between two of them, and what the lexer takes are the bytes up to there or,
    if there is no end, all of them. -/
theorem closingBytes_reads :
    (∀ (bytes : List UInt8) (n : Nat), closingBytes bytes = some n ↔
      n ≤ bytes.length ∧ Part.text.ReadsBytes (bytes.take n)) ∧
    (∀ bytes : List UInt8, closingBytes bytes = none ↔
      ∀ front, front <+: bytes → ¬ Part.text.ReadsBytes front) ∧
    (∀ bytes front front' : List UInt8, front <+: bytes → front' <+: bytes →
      Part.text.ReadsBytes front → Part.text.ReadsBytes front' → front = front') ∧
    ∀ text : String,
      let bytes := text.toUTF8.data.toList
      closingBytes bytes =
        ((closing [.body] text.toList).map fun n => String.utf8Len (text.toList.take n)) ∧
      String.utf8Len (text.toList.take (extent text.toList)) =
        (closingBytes bytes).getD bytes.length ∧
      ∀ n, closingBytes bytes = some n → (⟨n⟩ : String.Pos.Raw).IsValid text := by
  refine ⟨fun _ _ => closingBytes_eq_some_iff, fun _ => closingBytes_eq_none_iff,
    fun _ _ _ => eq_of_readsBytes, ?_⟩
  intro text bytes
  have hclosing : closingBytes bytes = _ := closingBytes_toUTF8 text
  refine ⟨hclosing, ?_, ?_⟩
  · rw [hclosing, extent]
    cases closing [.body] text.toList with
    | some n => rfl
    | none =>
        show String.utf8Len (text.toList.take text.toList.length) = bytes.length
        rw [List.take_length, ← length_utf8, ← toList_toUTF8]
  · intro n hn
    rw [hclosing] at hn
    obtain ⟨m, -, rfl⟩ := Option.map_eq_some_iff.mp hn
    exact isValid_utf8Len (List.take_append_drop m text.toList).symm

end DeclAtlas.Template

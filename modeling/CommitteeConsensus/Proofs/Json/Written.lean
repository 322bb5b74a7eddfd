import CommitteeConsensus.Json.Decode

/-! # JSON text reads back

    `parse?_of_isText`: a text of a value is read as that value, provided that its numbers and
    strings are lexically sound, whatever blanks stand between its tokens. What is written for a
    value (`parse?_render`) has none.

    The two levels are treated apart. `scan` undoes the spelling of tokens: a token is taken off
    the front of a text whatever follows it, numbers excepted, which must not run into a byte
    that continues them. The machine then undoes the order in which a value lists its tokens.
-/

namespace CommitteeConsensus.Json

/-! ## Numbers -/

/-- No byte at the front of the text continues a number. -/
def EndsNumber (s : List UInt8) : Prop :=
  ∀ b rest, s = b :: rest → isDigit b = false ∧ b ≠ 0x2e ∧ b ≠ 0x65 ∧ b ≠ 0x45

theorem takeWhile_isDigit_append {rest : List UInt8} (hrest : EndsNumber rest) (s : List UInt8) :
    (s ++ rest).takeWhile isDigit = s.takeWhile isDigit
      ∧ (s ++ rest).dropWhile isDigit = s.dropWhile isDigit ++ rest := by
  induction s with
  | nil =>
    cases rest with
    | nil => simp
    | cons b rest => simp [(hrest b rest rfl).1]
  | cons a s ih => by_cases ha : isDigit a <;> simp [ha, ih]

theorem digits?_append {s x r rest : List UInt8} (h : digits? s = some (x, r))
    (hrest : EndsNumber rest) : digits? (s ++ rest) = some (x, r ++ rest) := by
  obtain ⟨htake, hdrop⟩ := takeWhile_isDigit_append hrest s
  unfold digits? at h ⊢
  rw [htake, hdrop]
  split at h
  · simp at h
  · next hne =>
    rw [if_neg hne]
    simp_all

/-- A text without a zero in front begins with a run of digits, if with a whole number at all. -/
theorem integer?_of_ne {s : List UInt8} (h : ∀ t, s ≠ 0x30 :: t) : integer? s = digits? s := by
  unfold integer?
  split
  · next t => exact absurd rfl (h t)
  · rfl

theorem integer?_append {s x r rest : List UInt8} (h : integer? s = some (x, r))
    (hrest : EndsNumber rest) : integer? (s ++ rest) = some (x, r ++ rest) := by
  cases s with
  | nil => simp [integer?, digits?] at h
  | cons b s =>
    by_cases hb : b = 0x30
    · subst hb
      simp only [integer?, Option.some.injEq, Prod.mk.injEq] at h
      simp [integer?, h.1, ← h.2]
    · rw [List.cons_append, integer?_of_ne (by simp [hb])]
      rw [integer?_of_ne (by simp [hb])] at h
      exact digits?_append h hrest

theorem fraction?_of_ne {s : List UInt8} (h : ∀ t, s ≠ 0x2e :: t) : fraction? s = some ([], s) := by
  unfold fraction?
  split
  · next t => exact absurd rfl (h t)
  · rfl

theorem fraction?_append {s x r rest : List UInt8} (h : fraction? s = some (x, r))
    (hrest : EndsNumber rest) : fraction? (s ++ rest) = some (x, r ++ rest) := by
  by_cases hpoint : ∃ u, s = 0x2e :: u
  · obtain ⟨u, rfl⟩ := hpoint
    simp only [fraction?, Option.map_eq_some_iff] at h
    obtain ⟨⟨ds, t⟩, hds, heq⟩ := h
    simp only [Prod.mk.injEq] at heq
    simp [fraction?, digits?_append hds hrest, heq]
  · simp only [not_exists] at hpoint
    rw [fraction?_of_ne hpoint] at h
    simp only [Option.some.injEq, Prod.mk.injEq] at h
    rw [fraction?_of_ne, ← h.1, ← h.2]
    intro u hu
    cases s with
    | nil => exact (hrest _ _ hu).2.1 rfl
    | cons b s => exact hpoint s (by rw [(List.cons.inj hu).1])

theorem exponentDigits?_append {s x r rest : List UInt8} (h : exponentDigits? s = some (x, r))
    (hrest : EndsNumber rest) : exponentDigits? (s ++ rest) = some (x, r ++ rest) := by
  cases s with
  | nil => simp [exponentDigits?] at h
  | cons b s =>
    simp only [exponentDigits?, List.cons_append] at h ⊢
    split at h
    · next hb =>
      simp only [Option.map_eq_some_iff] at h
      obtain ⟨⟨ds, t⟩, hds, heq⟩ := h
      simp only [Prod.mk.injEq] at heq
      simp [hb, digits?_append hds hrest, heq]
    · next hb =>
      rw [if_neg hb]
      exact digits?_append h hrest

theorem exponent?_append {s x r rest : List UInt8} (h : exponent? s = some (x, r))
    (hrest : EndsNumber rest) : exponent? (s ++ rest) = some (x, r ++ rest) := by
  cases s with
  | nil =>
    simp only [exponent?, Option.some.injEq, Prod.mk.injEq] at h
    cases rest with
    | nil => simp [exponent?, ← h.1, ← h.2]
    | cons b rest =>
      obtain ⟨-, -, he, hE⟩ := hrest b rest rfl
      simp [exponent?, he, hE, ← h.1, ← h.2]
  | cons b s =>
    simp only [exponent?, List.cons_append] at h ⊢
    split at h
    · next hb =>
      simp only [Option.map_eq_some_iff] at h
      obtain ⟨⟨ds, t⟩, hds, heq⟩ := h
      simp only [Prod.mk.injEq] at heq
      simp [hb, exponentDigits?_append hds hrest, heq]
    · next hb =>
      simp only [Option.some.injEq, Prod.mk.injEq] at h
      simp [hb, ← h.1, ← h.2]

theorem unsigned?_append {s x r rest : List UInt8} (h : unsigned? s = some (x, r))
    (hrest : EndsNumber rest) : unsigned? (s ++ rest) = some (x, r ++ rest) := by
  simp only [unsigned?, Option.bind_eq_bind, Option.bind_eq_some_iff] at h
  obtain ⟨⟨whole, s₁⟩, hwhole, ⟨part, s₂⟩, hpart, ⟨power, s₃⟩, hpower, heq⟩ := h
  simp only [Option.pure_def, Option.some.injEq, Prod.mk.injEq] at heq
  simp [unsigned?, integer?_append hwhole hrest, fraction?_append hpart hrest,
    exponent?_append hpower hrest, ← heq.1, ← heq.2]

/-- A text without a minus sign in front begins with an unsigned number, if with one at all. -/
theorem number?_of_ne {s : List UInt8} (h : ∀ t, s ≠ 0x2d :: t) : number? s = unsigned? s := by
  unfold number?
  split
  · next t => exact absurd rfl (h t)
  · rfl

/-- A number is taken off the front of a text when the rest of the text does not continue it. -/
theorem number?_append {s x r rest : List UInt8} (h : number? s = some (x, r))
    (hrest : EndsNumber rest) : number? (s ++ rest) = some (x, r ++ rest) := by
  cases s with
  | nil => simp [number?, unsigned?, integer?, digits?] at h
  | cons b s =>
    by_cases hb : b = 0x2d
    · subst hb
      simp only [number?, Option.map_eq_some_iff] at h
      obtain ⟨⟨lexeme, t⟩, hlexeme, heq⟩ := h
      simp only [Prod.mk.injEq] at heq
      simp [number?, unsigned?_append hlexeme hrest, heq]
    · rw [List.cons_append, number?_of_ne (by simp [hb])]
      rw [number?_of_ne (by simp [hb])] at h
      exact unsigned?_append h hrest

/-! ## Tokens -/

theorem textBody?_append {s body r : List UInt8} (rest : List UInt8)
    (h : textBody? s = some (body, r)) : textBody? (s ++ rest) = some (body, r ++ rest) := by
  fun_induction textBody? s generalizing body r with
  | case1 => simp at h
  | case2 s =>
    simp only [Option.some.injEq, Prod.mk.injEq] at h
    simp [textBody?, ← h.1, ← h.2]
  | case3 a b c d s hhex ih =>
    simp only [Option.map_eq_some_iff] at h
    obtain ⟨⟨tail, t⟩, htail, heq⟩ := h
    simp only [Prod.mk.injEq] at heq
    simp [textBody?, hhex, ih htail, heq]
  | case4 => simp at h
  | case5 e s hu hesc ih =>
    have he : e ≠ 0x75 := by
      rintro rfl
      simp [isEscape] at hesc
    simp only [Option.map_eq_some_iff] at h
    obtain ⟨⟨tail, t⟩, htail, heq⟩ := h
    simp only [Prod.mk.injEq] at heq
    rw [List.cons_append, List.cons_append, textBody?.eq_4 _ _ fun _ _ _ _ _ he' _ => he he']
    simp [hesc, ih htail, heq]
  | case6 => simp at h
  | case7 => simp at h
  | case8 c s hquote hu hback hc ih =>
    simp only [Option.map_eq_some_iff] at h
    obtain ⟨⟨tail, t⟩, htail, heq⟩ := h
    simp only [Prod.mk.injEq] at heq
    -- a backslash at the end of the text would leave nothing to read
    have hslash : c ≠ 0x5c := by
      rintro rfl
      cases s with
      | nil => simp [textBody?] at htail
      | cons e s => exact hback e s rfl rfl
    rw [List.cons_append, textBody?.eq_5 _ _ hquote (fun _ _ _ _ _ hc' _ => hslash hc')
      fun _ _ hc' _ => hslash hc']
    simp [hc, ih htail, heq]

/-- A token whose spelling, standing alone, is read as that token. -/
def Token.Sound : Token → Prop
  | number lexeme => number? lexeme = some (lexeme, [])
  | text body => textBody? (body ++ [0x22]) = some (body, [])
  | _ => True

def Token.isNumber : Token → Bool
  | number _ => true
  | _ => false

theorem digits?_head {b : UInt8} {s : List UInt8} {out : List UInt8 × List UInt8}
    (h : digits? (b :: s) = some out) : isDigit b = true := by
  cases hb : isDigit b with
  | true => rfl
  | false => simp [digits?, hb] at h

theorem number?_head {b : UInt8} {s : List UInt8} {out : List UInt8 × List UInt8}
    (h : number? (b :: s) = some out) : isDigit b = true ∨ b = 0x2d := by
  unfold number? at h
  split at h
  · next heq => exact .inr (List.cons.inj heq).1
  · simp only [unsigned?, Option.bind_eq_bind, Option.bind_eq_some_iff] at h
    obtain ⟨out', hint, -⟩ := h
    unfold integer? at hint
    split at hint
    · next heq => exact .inl (by rw [(List.cons.inj heq).1]; rfl)
    · exact .inl (digits?_head hint)

theorem next?_number {b : UInt8} {s : List UInt8} (hb : isDigit b = true ∨ b = 0x2d) :
    next? (b :: s) = (number? (b :: s)).map fun (lexeme, rest) => (.number lexeme, rest) := by
  unfold next?
  -- every other token starts with a byte of its own
  split <;> first
    | (rename_i heq; obtain ⟨rfl, -⟩ := List.cons.inj heq; exact absurd hb (by decide))
    | rfl

theorem next?_bytes_append {t : Token} (ht : t.Sound) {rest : List UInt8}
    (hrest : t.isNumber → EndsNumber rest) : next? (t.bytes ++ rest) = some (t, rest) := by
  cases t with
  | number lexeme =>
    cases lexeme with
    | nil => simp [Token.Sound, number?, unsigned?, integer?, digits?] at ht
    | cons b s =>
      have happ := number?_append ht (hrest rfl)
      rw [Token.bytes, List.cons_append, next?_number (number?_head ht)]
      rw [List.cons_append] at happ
      simp [happ]
  | text body =>
    have hnext : ∀ s, next? (0x22 :: s)
        = (textBody? s).map fun (body, rest) => (.text body, rest) := fun _ => rfl
    rw [Token.bytes, List.cons_append, List.cons_append, hnext, textBody?_append rest ht]
    rfl
  | bool b => cases b <;> rfl
  | _ => rfl

theorem bytes_ne_nil {t : Token} (ht : t.Sound) : t.bytes ≠ [] := by
  cases t with
  | number lexeme =>
    rintro rfl
    simp [Token.Sound, number?, unsigned?, integer?, digits?] at ht
  | text body => simp [Token.bytes]
  | bool b => cases b <;> decide
  | _ => decide

theorem isBlank_eq_false_of_isDigit {b : UInt8} (h : isDigit b = true) : isBlank b = false := by
  simp only [isDigit, Bool.and_eq_true, decide_eq_true_eq] at h
  simp only [isBlank, Bool.or_eq_false_iff, decide_eq_false_iff_not]
  refine ⟨⟨⟨?_, ?_⟩, ?_⟩, ?_⟩ <;> rintro rfl <;> exact absurd h.1 (by decide)

/-- No token starts with a blank, and only a number starts with a byte that continues a number. -/
theorem bytes_head {t : Token} (ht : t.Sound) {b : UInt8} {s : List UInt8}
    (h : t.bytes = b :: s) : isBlank b = false ∧ (t.isNumber = false → ∀ r, EndsNumber (b :: r)) := by
  have hother {a : UInt8} (ha : a = b) (hblank : isBlank a = false)
      (hnumber : isDigit a = false ∧ a ≠ 0x2e ∧ a ≠ 0x65 ∧ a ≠ 0x45) :
      isBlank b = false ∧ (t.isNumber = false → ∀ r, EndsNumber (b :: r)) := by
    subst ha
    refine ⟨hblank, fun _ r c rest hc => ?_⟩
    obtain ⟨rfl, -⟩ := List.cons.inj hc
    exact hnumber
  cases t with
  | number lexeme =>
    subst h
    refine ⟨?_, by simp [Token.isNumber]⟩
    rcases number?_head ht with hb | rfl
    · exact isBlank_eq_false_of_isDigit hb
    · rfl
  | bool v => cases v <;> exact hother (List.cons.inj h).1 (by decide) (by decide)
  | _ => exact hother (List.cons.inj h).1 (by decide) (by decide)

/-! ## Texts -/

/-- Sound tokens, no two numbers next to each other. -/
inductive Separated : List Token → Prop
  | nil : Separated []
  | cons {t : Token} {ts : List Token} (sound : t.Sound)
      (apart : t.isNumber → ∀ u us, ts = u :: us → u.isNumber = false) (rest : Separated ts) :
      Separated (t :: ts)

/-- A text of the tokens: each as it is written, with any blanks before, between and after them. -/
inductive Spells : List Token → List UInt8 → Prop
  | nil : Spells [] []
  | blank {ts : List Token} {b : UInt8} {s : List UInt8} (blank : isBlank b = true)
      (rest : Spells ts s) : Spells ts (b :: s)
  | token {ts : List Token} {s : List UInt8} (t : Token) (rest : Spells ts s) :
      Spells (t :: ts) (t.bytes ++ s)

/-- Without blanks. -/
theorem spells_flatMap (ts : List Token) : Spells ts (ts.flatMap Token.bytes) := by
  induction ts with
  | nil => exact .nil
  | cons t ts ih => exact .token t ih

theorem endsNumber_of_isBlank {b : UInt8} (h : isBlank b = true) (s : List UInt8) :
    EndsNumber (b :: s) := by
  intro c rest heq
  obtain ⟨rfl, -⟩ := List.cons.inj heq
  simp only [isBlank, Bool.or_eq_true, decide_eq_true_eq] at h
  rcases h with ((rfl | rfl) | rfl) | rfl <;> decide

/-- Whatever stands between a number and the next token, the number ends before it. -/
theorem Spells.endsNumber {ts : List Token} {s : List UInt8} (h : Spells ts s)
    (hsep : Separated ts) (hhead : ∀ u us, ts = u :: us → u.isNumber = false) : EndsNumber s := by
  cases h with
  | nil => simp [EndsNumber]
  | blank hb _ => exact endsNumber_of_isBlank hb _
  | @token ts s t rest =>
    cases hsep with
    | cons sound _ _ =>
      obtain ⟨b, u, hb⟩ := List.exists_cons_of_ne_nil (bytes_ne_nil sound)
      rw [hb]
      exact (bytes_head sound hb).2 (hhead t ts rfl) _

theorem scanWithin_of_spells {ts : List Token} {s : List UInt8} (h : Spells ts s)
    (hsep : Separated ts) {fuel : Nat} (hfuel : s.length ≤ fuel) : scanWithin fuel s = some ts := by
  induction h generalizing fuel with
  | nil => cases fuel <;> rfl
  | @blank ts b s hb _ ih =>
    cases fuel with
    | zero => simp at hfuel
    | succ fuel =>
      rw [scanWithin, if_pos hb]
      exact ih hsep (Nat.le_of_succ_le_succ hfuel)
  | @token ts s t hrest ih =>
    cases hsep with
    | cons sound apart rest =>
      obtain ⟨b, u, hb⟩ := List.exists_cons_of_ne_nil (bytes_ne_nil sound)
      have hnext := next?_bytes_append sound fun ht => hrest.endsNumber rest (apart ht)
      rw [hb] at hnext hfuel ⊢
      cases fuel with
      | zero => simp at hfuel
      | succ fuel =>
        have hscan : scanWithin fuel s = some ts := by
          apply ih rest
          simp only [List.cons_append, List.length_cons, List.length_append] at hfuel
          omega
        rw [List.cons_append] at hnext ⊢
        simp [scanWithin, (bytes_head sound hb).1, hnext, hscan]

theorem scan_of_spells {ts : List Token} {s : List UInt8} (h : Spells ts s)
    (hsep : Separated ts) : scan s = some ts :=
  scanWithin_of_spells h hsep (Nat.le_refl _)

/-! ## Values -/

/-- A value whose numbers and strings are lexically sound. -/
def Sound (j : Json) : Prop := ∀ t ∈ j.tokens, t.Sound

/-- The list does not start with a number. -/
def NoNumberFirst (ts : List Token) : Prop := ∀ u us, ts = u :: us → u.isNumber = false

theorem noNumberFirst_nil : NoNumberFirst [] := by intro u us h; cases h

theorem noNumberFirst_cons {t : Token} {ts : List Token} (h : t.isNumber = false) :
    NoNumberFirst (t :: ts) := by
  intro u us heq
  cases heq
  exact h

/-- A token other than a number may stand before anything. -/
theorem Separated.cons_of_not_number {t : Token} {ts : List Token} (sound : t.Sound)
    (ht : t.isNumber = false) (rest : Separated ts) : Separated (t :: ts) :=
  .cons sound (by simp [ht]) rest

theorem itemTokens_cons_cons (item next : Json) (items : List Json) :
    itemTokens (item :: next :: items) = tokens item ++ .comma :: itemTokens (next :: items) := by
  rw [itemTokens]
  simp

theorem memberTokens_cons_cons (key : List UInt8) (v : Json) (next : List UInt8 × Json)
    (members : List (List UInt8 × Json)) :
    memberTokens ((key, v) :: next :: members)
      = .text key :: .colon :: (tokens v ++ .comma :: memberTokens (next :: members)) := by
  rw [memberTokens]
  · rfl
  · simp

mutual

theorem separated_tokens : ∀ (j : Json) {rest : List Token}, (∀ t ∈ tokens j, t.Sound) →
    Separated rest → NoNumberFirst rest → Separated (tokens j ++ rest)
  | .null, rest, _, hrest, _ => .cons_of_not_number trivial rfl hrest
  | .bool _, rest, _, hrest, _ => .cons_of_not_number trivial rfl hrest
  | .number _, rest, h, hrest, hfirst =>
    .cons (h _ (by simp [tokens])) (fun _ => hfirst) hrest
  | .text _, rest, h, hrest, _ => .cons_of_not_number (h _ (by simp [tokens])) rfl hrest
  | .array items, rest, h, hrest, _ => by
    rw [tokens, List.cons_append]
    exact .cons_of_not_number trivial rfl
      (separated_itemTokens items (fun t ht => h t (by simp [tokens, ht])) hrest)
  | .object members, rest, h, hrest, _ => by
    rw [tokens, List.cons_append]
    exact .cons_of_not_number trivial rfl
      (separated_memberTokens members (fun t ht => h t (by simp [tokens, ht])) hrest)

theorem separated_itemTokens : ∀ (items : List Json) {rest : List Token},
    (∀ t ∈ itemTokens items, t.Sound) → Separated rest → Separated (itemTokens items ++ rest)
  | [], rest, _, hrest => .cons_of_not_number trivial rfl hrest
  | [item], rest, h, hrest => by
    rw [itemTokens, List.append_assoc]
    exact separated_tokens item (fun t ht => h t (by simp [itemTokens, ht]))
      (.cons_of_not_number trivial rfl hrest) (noNumberFirst_cons rfl)
  | item :: next :: items, rest, h, hrest => by
    rw [itemTokens_cons_cons] at h ⊢
    rw [List.append_assoc]
    have hnext := separated_itemTokens (next :: items) (fun t ht => h t (by simp [ht])) hrest
    exact separated_tokens item (fun t ht => h t (by simp [ht]))
      (.cons_of_not_number trivial rfl hnext) (noNumberFirst_cons rfl)

theorem separated_memberTokens : ∀ (members : List (List UInt8 × Json)) {rest : List Token},
    (∀ t ∈ memberTokens members, t.Sound) → Separated rest →
      Separated (memberTokens members ++ rest)
  | [], rest, _, hrest => .cons_of_not_number trivial rfl hrest
  | [(key, v)], rest, h, hrest => by
    have hvalue : Separated (tokens v ++ .closeObject :: rest) :=
      separated_tokens v (fun t ht => h t (by simp [memberTokens, ht]))
        (.cons_of_not_number trivial rfl hrest) (noNumberFirst_cons rfl)
    have hkey : (Token.text key).Sound := h _ (by simp [memberTokens])
    simpa [memberTokens] using Separated.cons_of_not_number hkey rfl
      (.cons_of_not_number (t := .colon) trivial rfl hvalue)
  | (key, v) :: next :: members, rest, h, hrest => by
    rw [memberTokens_cons_cons] at h ⊢
    have hnext := separated_memberTokens (next :: members) (fun t ht => h t (by simp [ht])) hrest
    have hvalue : Separated (tokens v ++ .comma :: (memberTokens (next :: members) ++ rest)) :=
      separated_tokens v (fun t ht => h t (by simp [ht]))
        (.cons_of_not_number trivial rfl hnext) (noNumberFirst_cons rfl)
    have hkey : (Token.text key).Sound := h _ (by simp)
    simpa using Separated.cons_of_not_number hkey rfl
      (.cons_of_not_number (t := .colon) trivial rfl hvalue)

end

/-! ## The machine -/

open Focus

theorem itemTokens_cons (item : Json) (items : List Json) :
    ∃ ts, itemTokens (item :: items) = tokens item ++ ts := by
  cases items with
  | nil => exact ⟨_, rfl⟩
  | cons next items => exact ⟨_, itemTokens_cons_cons item next items⟩

/-- Where an array was opened, a value is read as where any item is. -/
theorem foldlM_arrayStart (item : Json) (items : List Json) (stack : List Frame)
    (rest : List Token) :
    (itemTokens (item :: items) ++ rest).foldlM step? (arrayStart stack)
      = (itemTokens (item :: items) ++ rest).foldlM step? (value (.array [] :: stack)) := by
  obtain ⟨ts, hts⟩ := itemTokens_cons item items
  rw [hts, List.append_assoc]
  cases item <;> rfl

/-- Where an object was opened, a key is read as where any key is. -/
theorem foldlM_objectStart (member : List UInt8 × Json) (members : List (List UInt8 × Json))
    (stack : List Frame) (rest : List Token) :
    (memberTokens (member :: members) ++ rest).foldlM step? (objectStart stack)
      = (memberTokens (member :: members) ++ rest).foldlM step? (key [] stack) := by
  obtain ⟨k, v⟩ := member
  cases members with
  | nil => rfl
  | cons next members => rw [memberTokens_cons_cons]; rfl

mutual

theorem foldlM_tokens : ∀ (j : Json) (stack : List Frame) (rest : List Token),
    (tokens j ++ rest).foldlM step? (value stack) = rest.foldlM step? (done j stack)
  | .null, _, _ => rfl
  | .bool _, _, _ => rfl
  | .number _, _, _ => rfl
  | .text _, _, _ => rfl
  | .array [], _, _ => rfl
  | .array (item :: items), stack, rest => by
    show (itemTokens (item :: items) ++ rest).foldlM step? (arrayStart stack) = _
    rw [foldlM_arrayStart, foldlM_itemTokens (item :: items) (by simp)]
    rfl
  | .object [], _, _ => rfl
  | .object (member :: members), stack, rest => by
    show (memberTokens (member :: members) ++ rest).foldlM step? (objectStart stack) = _
    rw [foldlM_objectStart, foldlM_memberTokens (member :: members) (by simp)]
    rfl

theorem foldlM_itemTokens : ∀ (items : List Json), items ≠ [] → ∀ (acc : List Json)
    (stack : List Frame) (rest : List Token),
    (itemTokens items ++ rest).foldlM step? (value (.array acc :: stack))
      = rest.foldlM step? (done (.array (acc.reverse ++ items)) stack)
  | [], h, _, _, _ => absurd rfl h
  | [item], _, acc, stack, rest => by
    rw [itemTokens, List.append_assoc, foldlM_tokens item]
    simp [step?]
  | item :: next :: items, _, acc, stack, rest => by
    have hnext := foldlM_itemTokens (next :: items) (by simp) (item :: acc) stack rest
    rw [itemTokens_cons_cons, List.append_assoc, foldlM_tokens item]
    show (itemTokens (next :: items) ++ rest).foldlM step? (value (.array (item :: acc) :: stack)) = _
    simpa using hnext

theorem foldlM_memberTokens : ∀ (members : List (List UInt8 × Json)), members ≠ [] →
    ∀ (acc : List (List UInt8 × Json)) (stack : List Frame) (rest : List Token),
    (memberTokens members ++ rest).foldlM step? (key acc stack)
      = rest.foldlM step? (done (.object (acc.reverse ++ members)) stack)
  | [], h, _, _, _ => absurd rfl h
  | [(k, v)], _, acc, stack, rest => by
    simp only [memberTokens, List.cons_append, List.append_assoc]
    show (tokens v ++ Token.closeObject :: rest).foldlM step? (value (.object acc k :: stack)) = _
    rw [foldlM_tokens v]
    simp [step?]
  | (k, v) :: next :: members, _, acc, stack, rest => by
    have hnext := foldlM_memberTokens (next :: members) (by simp) ((k, v) :: acc) stack rest
    simp only [memberTokens_cons_cons, List.cons_append, List.append_assoc]
    show (tokens v ++ .comma :: (memberTokens (next :: members) ++ rest)).foldlM step?
      (value (.object acc k :: stack)) = _
    rw [foldlM_tokens v]
    show (memberTokens (next :: members) ++ rest).foldlM step? (key ((k, v) :: acc) stack) = _
    simpa using hnext

end

theorem ofTokens?_tokens (j : Json) : ofTokens? j.tokens = some j := by
  have h := foldlM_tokens j [] []
  rw [List.append_nil] at h
  rw [ofTokens?, h]
  rfl

/-- The text belongs to the value, whatever blanks stand in it. -/
def IsText (j : Json) (s : List UInt8) : Prop := Spells j.tokens s

/-- A text of a value is read as that value. -/
theorem parse?_of_isText {j : Json} {s : List UInt8} (h : j.Sound) (hs : j.IsText s) :
    parse? s = some j := by
  have hsep := separated_tokens j h .nil noNumberFirst_nil
  rw [List.append_nil] at hsep
  rw [parse?, scan_of_spells hs hsep]
  exact ofTokens?_tokens j

/-- The text that is written for a value is read as that value. -/
theorem parse?_render {j : Json} (h : j.Sound) : parse? j.render = some j :=
  parse?_of_isText h (spells_flatMap j.tokens)

end CommitteeConsensus.Json

import CommitteeConsensus.Proofs.Json.Data

/-! # The texts that are read as JSON

    `parse?_eq_some_iff`: a text is read as a value exactly if it is a text of that value, and the
    value is lexically sound. So what the reader accepts is said without the reader, and nothing
    that it skips or forgets can make a difference.

    A scanner takes a token off the front of a text. What it took does not depend on how much
    follows, so the token standing alone is read as itself (`Cuts`). The machine has read, in each
    of its states, the tokens of what lies on its stack (`Focus.read`).
-/

namespace CommitteeConsensus.Json

/-! ## Numbers -/

/-- What the scanner takes off the front of a text, it takes off however little follows. -/
def Cuts (scanner : List UInt8 → Option (List UInt8 × List UInt8)) : Prop :=
  ∀ s x r, scanner s = some (x, r) →
    s = x ++ r ∧ ∀ u, u <+: r → scanner (x ++ u) = some (x, u)

/-- What starts a text starts it with another byte if the text does. -/
theorem ne_cons_of_front {b : UInt8} {s u : List UInt8} (hu : u <+: s) (h : ∀ t, s ≠ b :: t) :
    ∀ t, u ≠ b :: t := by
  rintro t rfl
  obtain ⟨v, hv⟩ := hu
  exact h (t ++ v) hv.symm

theorem cuts_digits : Cuts digits? := by
  intro s x r h
  unfold digits? at h
  split at h
  · simp at h
  · next hne =>
    simp only [Option.some.injEq, Prod.mk.injEq] at h
    obtain ⟨rfl, rfl⟩ := h
    refine ⟨(List.takeWhile_append_dropWhile).symm, ?_⟩
    intro u hu
    have hdigit : ∀ b ∈ s.takeWhile isDigit, isDigit b = true :=
      List.all_eq_true.1 List.all_takeWhile
    have hstop : u.takeWhile isDigit = [] ∧ u.dropWhile isDigit = u := by
      cases u with
      | nil => exact ⟨rfl, rfl⟩
      | cons b u =>
        obtain ⟨v, hv⟩ := hu
        have hb : isDigit b = false := by
          have := List.head?_dropWhile_not isDigit s
          rw [← hv] at this
          simpa using this
        simp [hb]
    have htake : (s.takeWhile isDigit ++ u).takeWhile isDigit = s.takeWhile isDigit := by
      rw [List.takeWhile_append_of_pos hdigit, hstop.1, List.append_nil]
    have hdrop : (s.takeWhile isDigit ++ u).dropWhile isDigit = u := by
      rw [List.dropWhile_append_of_pos hdigit, hstop.2]
    rw [digits?, htake, hdrop, if_neg hne]

theorem cuts_integer : Cuts integer? := by
  intro s x r h
  by_cases hzero : ∃ t, s = 0x30 :: t
  · obtain ⟨t, rfl⟩ := hzero
    simp only [integer?, Option.some.injEq, Prod.mk.injEq] at h
    obtain ⟨rfl, rfl⟩ := h
    exact ⟨rfl, fun u _ => rfl⟩
  · have hne : ∀ t, s ≠ 0x30 :: t := fun t ht => hzero ⟨t, ht⟩
    rw [integer?_of_ne hne] at h
    obtain ⟨rfl, hcut⟩ := cuts_digits s x r h
    refine ⟨rfl, ?_⟩
    intro u hu
    have hfront : x ++ u <+: x ++ r := (List.prefix_append_right_inj x).2 hu
    rw [integer?_of_ne (ne_cons_of_front hfront hne)]
    exact hcut u hu

theorem cuts_fraction : Cuts fraction? := by
  intro s x r h
  by_cases hpoint : ∃ t, s = 0x2e :: t
  · obtain ⟨t, rfl⟩ := hpoint
    simp only [fraction?, Option.map_eq_some_iff] at h
    obtain ⟨⟨ds, t'⟩, hds, heq⟩ := h
    obtain ⟨rfl, rfl⟩ := Prod.mk.inj heq
    obtain ⟨rfl, hcut⟩ := cuts_digits t ds t' hds
    exact ⟨rfl, fun u hu => by simp [fraction?, hcut u hu]⟩
  · have hne : ∀ t, s ≠ 0x2e :: t := fun t ht => hpoint ⟨t, ht⟩
    rw [fraction?_of_ne hne, Option.some.injEq] at h
    obtain ⟨rfl, rfl⟩ := Prod.mk.inj h
    exact ⟨rfl, fun u hu => fraction?_of_ne (ne_cons_of_front hu hne)⟩

theorem cuts_exponentDigits : Cuts exponentDigits? := by
  intro s x r h
  cases s with
  | nil => simp [exponentDigits?] at h
  | cons b s =>
    rw [exponentDigits?] at h
    split at h
    · next hsign =>
      simp only [Option.map_eq_some_iff] at h
      obtain ⟨⟨ds, t⟩, hds, heq⟩ := h
      obtain ⟨rfl, rfl⟩ := Prod.mk.inj heq
      obtain ⟨rfl, hcut⟩ := cuts_digits s ds t hds
      exact ⟨rfl, fun u hu => by simp [exponentDigits?, hsign, hcut u hu]⟩
    · next hsign =>
      obtain ⟨hs, hcut⟩ := cuts_digits (b :: s) x r h
      refine ⟨hs, ?_⟩
      intro u hu
      cases x with
      | nil => exact absurd (hcut [] r.nil_prefix) (by simp [digits?])
      | cons a x =>
        obtain ⟨rfl, -⟩ := List.cons.inj hs
        rw [List.cons_append, exponentDigits?, if_neg hsign]
        exact hcut u hu

theorem cuts_exponent : Cuts exponent? := by
  intro s x r h
  cases s with
  | nil =>
    simp only [exponent?, Option.some.injEq, Prod.mk.injEq] at h
    obtain ⟨rfl, rfl⟩ := h
    exact ⟨rfl, fun u hu => by rw [List.prefix_nil.1 hu]; rfl⟩
  | cons b s =>
    rw [exponent?] at h
    split at h
    · next hletter =>
      simp only [Option.map_eq_some_iff] at h
      obtain ⟨⟨ds, t⟩, hds, heq⟩ := h
      obtain ⟨rfl, rfl⟩ := Prod.mk.inj heq
      obtain ⟨rfl, hcut⟩ := cuts_exponentDigits s ds t hds
      exact ⟨rfl, fun u hu => by simp [exponent?, hletter, hcut u hu]⟩
    · next hletter =>
      simp only [Option.some.injEq, Prod.mk.injEq] at h
      obtain ⟨rfl, rfl⟩ := h
      refine ⟨rfl, ?_⟩
      intro u hu
      cases u with
      | nil => rfl
      | cons a u =>
        obtain ⟨v, hv⟩ := hu
        obtain ⟨rfl, -⟩ := List.cons.inj hv
        rw [List.nil_append, exponent?, if_neg hletter]

theorem cuts_unsigned : Cuts unsigned? := by
  intro s x r h
  simp only [unsigned?, Option.bind_eq_bind, Option.bind_eq_some_iff, Option.pure_def,
    Option.some.injEq, Prod.mk.injEq] at h
  obtain ⟨⟨whole, s₁⟩, hwhole, ⟨part, s₂⟩, hpart, ⟨power, s₃⟩, hpower, rfl, rfl⟩ := h
  obtain ⟨rfl, hwhole'⟩ := cuts_integer _ _ _ hwhole
  obtain ⟨rfl, hpart'⟩ := cuts_fraction _ _ _ hpart
  obtain ⟨rfl, hpower'⟩ := cuts_exponent _ _ _ hpower
  refine ⟨by simp, ?_⟩
  intro u hu
  have hafter : power ++ u <+: power ++ s₃ := (List.prefix_append_right_inj power).2 hu
  have hbehind : part ++ (power ++ u) <+: part ++ (power ++ s₃) :=
    (List.prefix_append_right_inj part).2 hafter
  simp [unsigned?, hwhole' _ hbehind, hpart' _ hafter, hpower' _ hu]

theorem cuts_number : Cuts number? := by
  intro s x r h
  by_cases hminus : ∃ t, s = 0x2d :: t
  · obtain ⟨t, rfl⟩ := hminus
    simp only [number?, Option.map_eq_some_iff] at h
    obtain ⟨⟨lexeme, t'⟩, hlexeme, heq⟩ := h
    obtain ⟨rfl, rfl⟩ := Prod.mk.inj heq
    obtain ⟨rfl, hcut⟩ := cuts_unsigned t lexeme t' hlexeme
    exact ⟨rfl, fun u hu => by simp [number?, hcut u hu]⟩
  · have hne : ∀ t, s ≠ 0x2d :: t := fun t ht => hminus ⟨t, ht⟩
    rw [number?_of_ne hne] at h
    obtain ⟨rfl, hcut⟩ := cuts_unsigned s x r h
    refine ⟨rfl, ?_⟩
    intro u hu
    have hfront : x ++ u <+: x ++ r := (List.prefix_append_right_inj x).2 hu
    rw [number?_of_ne (ne_cons_of_front hfront hne)]
    exact hcut u hu

/-! ## Tokens -/

/-- What stands between quotes is a sound string. -/
theorem textBody?_sound {s body r : List UInt8} (h : textBody? s = some (body, r)) :
    s = body ++ 0x22 :: r ∧ textBody? (body ++ [0x22]) = some (body, []) := by
  fun_induction textBody? s generalizing body r with
  | case1 => simp at h
  | case2 s =>
    simp only [Option.some.injEq, Prod.mk.injEq] at h
    obtain ⟨rfl, rfl⟩ := h
    exact ⟨rfl, rfl⟩
  | case3 a b c d s hhex ih =>
    simp only [Option.map_eq_some_iff] at h
    obtain ⟨⟨tail, t⟩, htail, heq⟩ := h
    obtain ⟨rfl, rfl⟩ := Prod.mk.inj heq
    obtain ⟨rfl, hbody⟩ := ih htail
    exact ⟨rfl, by simp [textBody?, hhex, hbody]⟩
  | case4 => simp at h
  | case5 e s hu hesc ih =>
    have he : e ≠ 0x75 := by
      rintro rfl
      simp [isEscape] at hesc
    simp only [Option.map_eq_some_iff] at h
    obtain ⟨⟨tail, t⟩, htail, heq⟩ := h
    obtain ⟨rfl, rfl⟩ := Prod.mk.inj heq
    obtain ⟨rfl, hbody⟩ := ih htail
    refine ⟨rfl, ?_⟩
    rw [List.cons_append, List.cons_append, textBody?.eq_4 _ _ fun _ _ _ _ _ he' _ => he he']
    simp [hesc, hbody]
  | case6 => simp at h
  | case7 => simp at h
  | case8 c s hquote hu hback hc ih =>
    simp only [Option.map_eq_some_iff] at h
    obtain ⟨⟨tail, t⟩, htail, heq⟩ := h
    obtain ⟨rfl, rfl⟩ := Prod.mk.inj heq
    obtain ⟨rfl, hbody⟩ := ih htail
    -- a backslash would have been read with the byte after it
    have hslash : c ≠ 0x5c := by
      rintro rfl
      cases tail with
      | nil => exact hback _ _ rfl rfl
      | cons e s => exact hback e _ rfl rfl
    refine ⟨rfl, ?_⟩
    rw [List.cons_append, textBody?.eq_5 _ _ hquote (fun _ _ _ _ _ hc' _ => hslash hc')
      fun _ _ hc' _ => hslash hc']
    simp [hc, hbody]

/-- A token was written where it is read. -/
theorem next?_sound {s rest : List UInt8} {t : Token} (h : next? s = some (t, rest)) :
    s = t.bytes ++ rest ∧ t.Sound := by
  unfold next? at h
  split at h
  -- punctuation
  iterate 6
    · simp only [Option.some.injEq, Prod.mk.injEq] at h
      obtain ⟨rfl, rfl⟩ := h
      exact ⟨rfl, trivial⟩
  · simp only [Option.map_eq_some_iff] at h
    obtain ⟨⟨body, r⟩, hbody, heq⟩ := h
    obtain ⟨rfl, rfl⟩ := Prod.mk.inj heq
    obtain ⟨rfl, hsound⟩ := textBody?_sound hbody
    exact ⟨by simp [Token.bytes], hsound⟩
  -- the three words
  iterate 3
    · simp only [Option.some.injEq, Prod.mk.injEq] at h
      obtain ⟨rfl, rfl⟩ := h
      exact ⟨rfl, trivial⟩
  · simp only [Option.map_eq_some_iff] at h
    obtain ⟨⟨lexeme, r⟩, hlexeme, heq⟩ := h
    obtain ⟨rfl, rfl⟩ := Prod.mk.inj heq
    obtain ⟨hs, hcut⟩ := cuts_number _ _ _ hlexeme
    have halone := hcut [] r.nil_prefix
    rw [List.append_nil] at halone
    exact ⟨hs, halone⟩

theorem spells_of_scanWithin {fuel : Nat} {s : List UInt8} {ts : List Token}
    (h : scanWithin fuel s = some ts) : Spells ts s ∧ ∀ t ∈ ts, t.Sound := by
  induction fuel generalizing s ts with
  | zero =>
    cases s with
    | nil =>
      injection h with h
      subst h
      exact ⟨.nil, by simp⟩
    | cons b s => simp [scanWithin] at h
  | succ fuel ih =>
    cases s with
    | nil =>
      injection h with h
      subst h
      exact ⟨.nil, by simp⟩
    | cons b s =>
      rw [scanWithin] at h
      split at h
      · next hb =>
        obtain ⟨hspells, hsound⟩ := ih h
        exact ⟨.blank hb hspells, hsound⟩
      · simp only [Option.bind_eq_bind, Option.bind_eq_some_iff, Option.pure_def,
          Option.some.injEq] at h
        obtain ⟨⟨t, rest⟩, hnext, ts', hscan, rfl⟩ := h
        obtain ⟨hs, ht⟩ := next?_sound hnext
        obtain ⟨hspells, hsound⟩ := ih hscan
        rw [hs]
        exact ⟨.token t hspells, List.forall_mem_cons.2 ⟨ht, hsound⟩⟩

/-- A text that is scanned is a text of its tokens. -/
theorem spells_of_scan {s : List UInt8} {ts : List Token} (h : scan s = some ts) :
    Spells ts s ∧ ∀ t ∈ ts, t.Sound :=
  spells_of_scanWithin h

/-! ## The machine -/

/-- Items that stand in front of another one. -/
def itemsRead (items : List Json) : List Token := items.flatMap fun j => j.tokens ++ [.comma]

/-- Members that stand in front of another one. -/
def membersRead (members : List (List UInt8 × Json)) : List Token :=
  members.flatMap fun m => .text m.1 :: .colon :: m.2.tokens ++ [.comma]

theorem itemTokens_append_singleton (items : List Json) (j : Json) :
    itemTokens (items ++ [j]) = itemsRead items ++ j.tokens ++ [.closeArray] := by
  induction items with
  | nil => simp [itemTokens, itemsRead]
  | cons item items ih =>
    obtain ⟨next, more, hmore⟩ := List.exists_cons_of_ne_nil (l := items ++ [j]) (by simp)
    have hitems : item :: items ++ [j] = item :: next :: more := by rw [← hmore]; rfl
    rw [hitems, itemTokens_cons_cons, ← hmore, ih]
    simp [itemsRead]

theorem memberTokens_append_singleton (members : List (List UInt8 × Json)) (k : List UInt8)
    (v : Json) : memberTokens (members ++ [(k, v)])
      = membersRead members ++ .text k :: .colon :: v.tokens ++ [.closeObject] := by
  induction members with
  | nil => simp [memberTokens, membersRead]
  | cons member members ih =>
    obtain ⟨next, more, hmore⟩ := List.exists_cons_of_ne_nil (l := members ++ [(k, v)]) (by simp)
    have hmembers : member :: members ++ [(k, v)] = member :: next :: more := by rw [← hmore]; rfl
    rw [hmembers, memberTokens_cons_cons, ← hmore, ih]
    simp [membersRead]

/-- The tokens from where a container was opened to where its present value starts. -/
def Frame.read : Frame → List Token
  | array items => .openArray :: itemsRead items.reverse
  | object members key => .openObject :: membersRead members.reverse ++ [.text key, .colon]

def stackRead (stack : List Frame) : List Token := stack.reverse.flatMap Frame.read

theorem stackRead_cons (frame : Frame) (stack : List Frame) :
    stackRead (frame :: stack) = stackRead stack ++ frame.read := by
  simp [stackRead]

namespace Focus

/-- The tokens that have been taken. -/
def read : Focus → List Token
  | value stack => stackRead stack
  | arrayStart stack => stackRead stack ++ [.openArray]
  | objectStart stack => stackRead stack ++ [.openObject]
  | key members stack => stackRead stack ++ .openObject :: membersRead members.reverse
  | colon k members stack =>
    stackRead stack ++ .openObject :: membersRead members.reverse ++ [.text k]
  | done v stack => stackRead stack ++ v.tokens

theorem begin?_read {stack : List Frame} {t : Token} {f : Focus} (h : begin? stack t = some f) :
    f.read = stackRead stack ++ [t] := by
  cases t <;> simp only [begin?, Option.some.injEq, reduceCtorEq] at h <;> subst h <;>
    simp [read, tokens]

theorem step?_read {f f' : Focus} {t : Token} (h : f.step? t = some f') :
    f'.read = f.read ++ [t] := by
  unfold step? at h
  split at h
  -- a value, an empty array, the first item of an array
  · exact begin?_read h
  · injection h with h
    subst h
    simp [read, tokens, itemTokens]
  · rw [begin?_read h, stackRead_cons]
    rfl
  -- an empty object, the key of a member and the colon after it
  · injection h with h
    subst h
    simp [read, tokens, memberTokens]
  · injection h with h
    subst h
    simp [read, membersRead]
  · injection h with h
    subst h
    simp [read]
  · injection h with h
    subst h
    simp [read, stackRead_cons, Frame.read]
  -- a value is finished, in front of another one or at the end of its container
  · injection h with h
    subst h
    simp [read, stackRead_cons, Frame.read, itemsRead]
  · injection h with h
    subst h
    simp [read, stackRead_cons, Frame.read, tokens, itemTokens_append_singleton]
  · injection h with h
    subst h
    simp [read, stackRead_cons, Frame.read, membersRead]
  · injection h with h
    subst h
    simp [read, stackRead_cons, Frame.read, tokens, memberTokens_append_singleton]
  · simp at h

theorem foldlM_read {ts : List Token} {f f' : Focus} (h : ts.foldlM step? f = some f') :
    f'.read = f.read ++ ts := by
  induction ts generalizing f with
  | nil =>
    injection h with h
    simp [h]
  | cons t ts ih =>
    simp only [List.foldlM_cons, Option.bind_eq_bind, Option.bind_eq_some_iff] at h
    obtain ⟨g, hstep, hrest⟩ := h
    rw [ih hrest, step?_read hstep, List.append_assoc]
    rfl

end Focus

/-- A value is read from its own tokens only. -/
theorem ofTokens?_eq_some_iff {ts : List Token} {j : Json} :
    ofTokens? ts = some j ↔ ts = j.tokens := by
  constructor
  · intro h
    simp only [ofTokens?, Option.bind_eq_some_iff] at h
    obtain ⟨f, hfold, hresult⟩ := h
    have hread := Focus.foldlM_read hfold
    unfold Focus.result? at hresult
    split at hresult
    · injection hresult with hresult
      subst hresult
      simpa [Focus.read, stackRead] using hread.symm
    · simp at hresult
  · rintro rfl
    exact ofTokens?_tokens j

/-- A text is read as a value exactly if it is a text of the value and the value is sound. -/
theorem parse?_eq_some_iff {s : List UInt8} {j : Json} :
    parse? s = some j ↔ j.Sound ∧ j.IsText s := by
  constructor
  · intro h
    obtain ⟨ts, hscan, htokens⟩ := Option.bind_eq_some_iff.1 h
    obtain ⟨hspells, hsound⟩ := spells_of_scan hscan
    rw [ofTokens?_eq_some_iff] at htokens
    subst htokens
    exact ⟨hsound, hspells⟩
  · rintro ⟨hsound, htext⟩
    exact parse?_of_isText hsound htext

end CommitteeConsensus.Json

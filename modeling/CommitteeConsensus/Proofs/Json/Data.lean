import CommitteeConsensus.Proofs.Json.Written
import CommitteeConsensus.Proofs.Table

/-! # Data reads back from JSON

    Each way in which data is written as a JSON value (`ofWord`, `ofBytes`, `ofTable`, …) is
    undone by the reader of that kind of data, and the value is lexically sound, so that
    `parse?_render` applies to its text.
-/

namespace CommitteeConsensus

/-- A reader that succeeds on every item of a list succeeds on the list. -/
theorem mapM_eq_some_map {α β : Type} {f : α → Option β} {g : α → β} {l : List α}
    (h : ∀ a ∈ l, f a = some (g a)) : l.mapM f = some (l.map g) := by
  induction l with
  | nil => rfl
  | cons a l ih =>
    have ha := h a (by simp)
    have hl := ih fun b hb => h b (List.mem_cons_of_mem a hb)
    simp [List.mapM_cons, ha, hl]

namespace Json

/-! ## Decimals -/

theorem isDigit_ofNat {d : Nat} (h : d < 10) : isDigit (UInt8.ofNat (48 + d)) = true := by
  have hd : (UInt8.ofNat (48 + d)).toNat = 48 + d := by
    rw [UInt8.toNat_ofNat']
    omega
  simp only [isDigit, Bool.and_eq_true, decide_eq_true_eq, UInt8.le_iff_toNat_le, hd]
  decide +revert

theorem all_isDigit_decimal (n : Nat) : (decimal n).all isDigit = true := by
  fun_induction decimal n with
  | case1 n h => simp only [List.all_cons, isDigit_ofNat h, List.all_nil, Bool.and_self]
  | case2 n h ih =>
    have hlast := isDigit_ofNat (Nat.mod_lt n (by decide : 0 < 10))
    simp only [List.all_append, ih, List.all_cons, hlast, List.all_nil, Bool.and_self]

theorem natOfDigits_append (ds : List UInt8) (d : UInt8) :
    natOfDigits (ds ++ [d]) = 10 * natOfDigits ds + (d.toNat - 48) := by
  simp [natOfDigits]

theorem natOfDigits_decimal (n : Nat) : natOfDigits (decimal n) = n := by
  fun_induction decimal n with
  | case1 n h =>
    simp [natOfDigits]
    omega
  | case2 n h ih =>
    rw [natOfDigits_append, ih, UInt8.toNat_ofNat']
    omega

/-- Only zero is written with a leading zero. -/
theorem decimal_head {n : Nat} (h : 0 < n) : ∃ b s, decimal n = b :: s ∧ b ≠ 0x30 := by
  fun_induction decimal n with
  | case1 n hn =>
    refine ⟨_, _, rfl, ?_⟩
    intro heq
    have := congrArg UInt8.toNat heq
    rw [UInt8.toNat_ofNat'] at this
    simp at this
    omega
  | case2 n hn ih =>
    obtain ⟨b, s, heq, hb⟩ := ih (by omega)
    exact ⟨b, s ++ _, by rw [heq]; rfl, hb⟩

theorem digits?_of_all {s : List UInt8} (h : s.all isDigit = true) (hs : s ≠ []) :
    digits? s = some (s, []) := by
  rw [List.all_eq_true] at h
  have htake : (s ++ []).takeWhile isDigit = s ++ [].takeWhile isDigit :=
    List.takeWhile_append_of_pos h
  have hdrop : (s ++ []).dropWhile isDigit = [].dropWhile isDigit :=
    List.dropWhile_append_of_pos h
  simp only [List.append_nil, List.takeWhile_nil, List.dropWhile_nil] at htake hdrop
  simp [digits?, htake, hdrop, hs]

theorem sound_decimal (n : Nat) : (Token.number (decimal n)).Sound := by
  have hall := all_isDigit_decimal n
  have hint : integer? (decimal n) = some (decimal n, []) := by
    rcases Nat.eq_zero_or_pos n with rfl | hn
    · rw [decimal]
      rfl
    · obtain ⟨b, s, heq, hb⟩ := decimal_head hn
      rw [heq] at hall ⊢
      rw [integer?_of_ne (by simp [hb])]
      exact digits?_of_all hall (by simp)
  have hunsigned : unsigned? (decimal n) = some (decimal n, []) := by
    simp [unsigned?, hint, fraction?, exponent?]
  show number? (decimal n) = some (decimal n, [])
  rw [number?_of_ne]
  · exact hunsigned
  · intro s heq
    rw [heq] at hall
    simp [isDigit] at hall

/-! ## Containers -/

theorem sound_itemTokens {items : List Json} (h : ∀ j ∈ items, j.Sound) :
    ∀ t ∈ itemTokens items, t.Sound := by
  induction items with
  | nil => simp [itemTokens, Token.Sound]
  | cons item items ih =>
    have hrest := ih fun j hj => h j (List.mem_cons_of_mem item hj)
    have hitem : item.Sound := h item (by simp)
    intro t ht
    cases items with
    | nil =>
      simp only [itemTokens, List.mem_append, List.mem_singleton] at ht
      rcases ht with ht | rfl
      · exact hitem t ht
      · trivial
    | cons next items =>
      simp only [itemTokens_cons_cons, List.mem_append, List.mem_cons] at ht
      rcases ht with ht | rfl | ht
      · exact hitem t ht
      · trivial
      · exact hrest t ht

theorem sound_memberTokens {members : List (List UInt8 × Json)}
    (h : ∀ m ∈ members, (Token.text m.1).Sound ∧ m.2.Sound) :
    ∀ t ∈ memberTokens members, t.Sound := by
  induction members with
  | nil => simp [memberTokens, Token.Sound]
  | cons member members ih =>
    have hrest := ih fun m hm => h m (List.mem_cons_of_mem member hm)
    obtain ⟨hkey, hvalue⟩ := h member (by simp)
    obtain ⟨k, v⟩ := member
    intro t ht
    cases members with
    | nil =>
      simp only [memberTokens, List.cons_append, List.mem_cons, List.mem_append,
        List.not_mem_nil, or_false] at ht
      rcases ht with rfl | rfl | ht | rfl
      · exact hkey
      · trivial
      · exact hvalue t ht
      · trivial
    | cons next members =>
      simp only [memberTokens_cons_cons, List.mem_append, List.mem_cons] at ht
      rcases ht with rfl | rfl | ht | rfl | ht
      · exact hkey
      · trivial
      · exact hvalue t ht
      · trivial
      · exact hrest t ht

theorem sound_array {items : List Json} (h : ∀ j ∈ items, j.Sound) : (array items).Sound := by
  intro t ht
  rw [tokens, List.mem_cons] at ht
  rcases ht with rfl | ht
  · trivial
  · exact sound_itemTokens h t ht

theorem sound_object {members : List (List UInt8 × Json)}
    (h : ∀ m ∈ members, (Token.text m.1).Sound ∧ m.2.Sound) : (object members).Sound := by
  intro t ht
  rw [tokens, List.mem_cons] at ht
  rcases ht with rfl | ht
  · trivial
  · exact sound_memberTokens h t ht

theorem sound_number_decimal (n : Nat) : (number (decimal n)).Sound := by
  intro t ht
  rw [tokens, List.mem_singleton] at ht
  exact ht ▸ sound_decimal n

/-! ## Words and bytes -/

theorem nat?_decimal (n : Nat) : (number (decimal n)).nat? = some n := by
  simp only [nat?, all_isDigit_decimal, if_true, natOfDigits_decimal]

theorem sound_ofWord (n : UInt64) : (ofWord n).Sound := sound_number_decimal n.toNat

theorem word?_ofWord (n : UInt64) : (ofWord n).word? = some n := by
  have hn : n.toNat < Word.bound := n.toNat_lt
  have hguard : (guard (n.toNat < Word.bound) : Option Unit) = some () := if_pos hn
  rw [word?, ofWord, nat?_decimal]
  show ((guard (n.toNat < Word.bound) : Option Unit) >>= fun _ => some (UInt64.ofNat n.toNat)) = _
  rw [hguard]
  simp

theorem byte?_decimal (b : UInt8) : (number (decimal b.toNat)).byte? = some b := by
  have hb : b.toNat < 256 := b.toNat_lt
  have hguard : (guard (b.toNat < 256) : Option Unit) = some () := if_pos hb
  rw [byte?, nat?_decimal]
  show ((guard (b.toNat < 256) : Option Unit) >>= fun _ => some (UInt8.ofNat b.toNat)) = _
  rw [hguard]
  simp

theorem sound_ofByteList (bytes : List UInt8) : (ofByteList bytes).Sound := by
  apply sound_array
  intro j hj
  obtain ⟨b, -, rfl⟩ := List.mem_map.1 hj
  exact sound_number_decimal b.toNat

/-! ## Lists and tables -/

/-- A list is read back when each of its items is. -/
theorem list?_map {α : Type} {read : Json → Option α} {write : α → Json} {items : List α}
    (h : ∀ a ∈ items, read (write a) = some a) :
    list? read (array (items.map write)) = some items := by
  have hmap := mapM_eq_some_map (f := fun a => read (write a)) (g := id) h
  rw [List.map_id] at hmap
  rw [list?, List.mapM_map]
  exact hmap

theorem byteList?_ofByteList (bytes : List UInt8) : list? byte? (ofByteList bytes) = some bytes :=
  list?_map fun b _ => byte?_decimal b

theorem sound_ofBytes {n : Nat} (b : Bytes n) : (ofBytes b).Sound := sound_ofByteList b.toList

theorem bytes?_ofBytes {n : Nat} (b : Bytes n) : (ofBytes b).bytes? = some b := by
  simp [bytes?, ofBytes, byteList?_ofByteList]

theorem sound_ofList {α : Type} {item : α → Json} (h : ∀ a, (item a).Sound) (items : List α) :
    (ofList item items).Sound := by
  apply sound_array
  intro j hj
  obtain ⟨a, -, rfl⟩ := List.mem_map.1 hj
  exact h a

theorem list?_ofList {α : Type} {read : Json → Option α} {item : α → Json}
    (h : ∀ a, read (item a) = some a) (items : List α) :
    list? read (ofList item items) = some items :=
  list?_map fun a _ => h a

theorem sound_ofPair {α β : Type} {first : α → Json} {second : β → Json}
    (hfirst : ∀ a, (first a).Sound) (hsecond : ∀ b, (second b).Sound) (x : α × β) :
    (ofPair first second x).Sound := by
  apply sound_array
  simp [hfirst, hsecond]

theorem pair?_ofPair {α β : Type} {read : Json → Option α} {read' : Json → Option β}
    {first : α → Json} {second : β → Json} (hfirst : ∀ a, read (first a) = some a)
    (hsecond : ∀ b, read' (second b) = some b) (x : α × β) :
    pair? read read' (ofPair first second x) = some x := by
  simp [pair?, ofPair, hfirst, hsecond]

theorem sound_ofTable {κ α : Type} [LT κ] {key : κ → Json} {value : α → Json}
    (hkey : ∀ k, (key k).Sound) (hvalue : ∀ a, (value a).Sound) (t : Table κ α) :
    (ofTable key value t).Sound :=
  sound_ofList (sound_ofPair hkey hvalue) t.entries

theorem table?_ofTable {κ α : Type} [LT κ] [DecidableLT κ] [KeyOrder κ] {read : Json → Option κ}
    {read' : Json → Option α} {key : κ → Json} {value : α → Json}
    (hkey : ∀ k, read (key k) = some k) (hvalue : ∀ a, read' (value a) = some a)
    (t : Table κ α) : table? read read' (ofTable key value t) = some t := by
  have hentries := list?_ofList (pair?_ofPair hkey hvalue) t.entries
  rw [ofTable, table?, hentries]
  simp [Table.ofList_entries]

/-! ## Records -/

/-- A field name that may stand between quotes as it is. -/
structure PlainName (name : String) : Prop where
  body : textBody? (ascii name ++ [0x22]) = some (ascii name, [])
  keyText : keyText? (ascii name) = some (ascii name)

theorem sound_ofFields {fields : List (String × Json)}
    (h : ∀ f ∈ fields, (Token.text (ascii f.1)).Sound ∧ f.2.Sound) : (ofFields fields).Sound := by
  apply sound_object
  intro m hm
  obtain ⟨f, hf, rfl⟩ := List.mem_map.1 hm
  exact h f hf

end Json

end CommitteeConsensus

import CommitteeConsensus.Proofs.Json.Data
import Mathlib.Data.List.Basic

/-! # Texts that tell data apart

    A way of writing data is faithful if the values it gives are lexically sound and no two data
    have one value. Sound values read back, so their texts differ wherever the data do
    (`Faithful.render_injective`). Lists, pairs and tables of data that are written faithfully are
    written faithfully themselves, and so are records of them.
-/

namespace CommitteeConsensus.Json

/-- Data are written as sound values, each of which stands for one datum only. -/
structure Faithful {α : Type} (write : α → Json) : Prop where
  sound : ∀ a, (write a).Sound
  injective : Function.Injective write

/-- What a reader gives back was written for one datum. -/
theorem injective_of_read {α : Type} {read : Json → Option α} {write : α → Json}
    (hread : ∀ a, read (write a) = some a) : Function.Injective write := by
  intro a b heq
  have hsame : some a = some b := by rw [← hread a, ← hread b, heq]
  exact Option.some.inj hsame

theorem Faithful.render_injective {α : Type} {write : α → Json} (h : Faithful write) :
    Function.Injective fun a => (write a).render := by
  intro a b heq
  have hparse : parse? (write a).render = parse? (write b).render := congrArg parse? heq
  rw [parse?_render (h.sound a), parse?_render (h.sound b)] at hparse
  exact h.injective (Option.some.inj hparse)

/-! ## Containers -/

theorem faithful_ofWord : Faithful ofWord where
  sound := sound_ofWord
  injective := injective_of_read word?_ofWord

theorem faithful_ofBytes {n : Nat} : Faithful (ofBytes : Bytes n → Json) where
  sound := sound_ofBytes
  injective := injective_of_read bytes?_ofBytes

section Containers

variable {α β : Type} {first : α → Json} {second : β → Json}

theorem Faithful.ofList (h : Faithful first) : Faithful (ofList first) where
  sound := sound_ofList h.sound
  injective := by
    intro items others heq
    exact List.map_injective_iff.2 h.injective (Json.array.inj heq)

theorem Faithful.ofPair (hfirst : Faithful first) (hsecond : Faithful second) :
    Faithful (ofPair first second) where
  sound := sound_ofPair hfirst.sound hsecond.sound
  injective := by
    intro x y heq
    have hparts := Json.array.inj heq
    simp only [List.cons.injEq, and_true] at hparts
    obtain ⟨hleft, hright⟩ := hparts
    exact Prod.ext (hfirst.injective hleft) (hsecond.injective hright)

theorem Faithful.ofTable [LT α] (hkey : Faithful first) (hvalue : Faithful second) :
    Faithful (ofTable first second) where
  sound := sound_ofTable hkey.sound hvalue.sound
  injective := by
    intro t u heq
    exact Table.ext ((hkey.ofPair hvalue).ofList.injective heq)

end Containers

/-! ## Records -/

/-- A byte that stands for itself between quotes. -/
def isPlain (b : UInt8) : Bool := 0x20 ≤ b && b ≠ 0x22 && b ≠ 0x5c

theorem textBody?_of_plain {body : List UInt8} (h : body.all isPlain = true) :
    textBody? (body ++ [0x22]) = some (body, []) := by
  induction body with
  | nil => rfl
  | cons b body ih =>
    rw [List.all_cons, Bool.and_eq_true] at h
    obtain ⟨hb, hbody⟩ := h
    simp only [isPlain, Bool.and_eq_true, decide_eq_true_eq] at hb
    obtain ⟨⟨hcontrol, hquote⟩, hslash⟩ := hb
    rw [List.cons_append, textBody?.eq_5 _ _ hquote (fun _ _ _ _ _ hb _ => hslash hb)
      (fun _ _ hb _ => hslash hb), if_neg (UInt8.not_lt.2 hcontrol), ih hbody]
    rfl

theorem sound_text {body : List UInt8} (h : body.all isPlain = true) : (text body).Sound := by
  intro t ht
  rw [tokens, List.mem_singleton] at ht
  rw [ht]
  exact textBody?_of_plain h

/-- The fields of a record are plain names with sound values. -/
theorem sound_record {fields : List (String × Json)}
    (hnames : ∀ f ∈ fields, (ascii f.1).all isPlain = true) (hvalues : ∀ f ∈ fields, f.2.Sound) :
    (ofFields fields).Sound := by
  apply sound_ofFields
  intro f hf
  exact ⟨textBody?_of_plain (hnames f hf), hvalues f hf⟩

/-- Records that are written alike have the same values in their fields. -/
theorem ofFields_inj {fields others : List (String × Json)} (h : ofFields fields = ofFields others) :
    fields.map Prod.snd = others.map Prod.snd := by
  have hvalues := congrArg (List.map Prod.snd) (Json.object.inj h)
  rw [List.map_map, List.map_map] at hvalues
  exact hvalues

end CommitteeConsensus.Json

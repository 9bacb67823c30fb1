import LokoOS.Base.ByteMemory

/-!
# Values in a fixed number of bytes

Library `Base`. A layout carries the laws that make it a bijection between the values that fit
and the byte strings it accepts. Layouts are built from words, one after another, through a
renaming of fields, by a table of tags, and in arrays.
-/

namespace LokoOS.Base

universe u

/-- How the values of a type lie in `size` bytes. -/
structure Layout (α : Type u) where
  size : Nat
  encode : α → List UInt8
  decode : List UInt8 → Option α
  /-- The values that have an encoding. -/
  Fits : α → Prop
  length_encode : ∀ {a}, Fits a → (encode a).length = size
  decode_encode : ∀ {a}, Fits a → decode (encode a) = some a
  encode_decode : ∀ {bytes a}, bytes.length = size → decode bytes = some a →
    Fits a ∧ encode a = bytes

namespace Layout

variable {α β : Type u}

private theorem toLeBytes_fromLeBytes (bytes : List UInt8) :
    toLeBytes bytes.length (fromLeBytes bytes) = bytes := by
  induction bytes with
  | nil => rfl
  | cons b bs ih =>
    have hb : b.toNat < 256 := b.toNat_lt
    have hmod : (b.toNat + 256 * fromLeBytes bs) % 256 = b.toNat := by omega
    have hdiv : (b.toNat + 256 * fromLeBytes bs) / 256 = fromLeBytes bs := by omega
    rw [fromLeBytes, List.length_cons, toLeBytes, hmod, hdiv, ih, UInt8.ofNat_toNat]

/-- A number in `n` bytes, low byte first. -/
def word (n : Nat) : Layout Nat where
  size := n
  encode := toLeBytes n
  decode bytes := some (fromLeBytes bytes)
  Fits v := v < 256 ^ n
  length_encode _ := length_toLeBytes n _
  decode_encode hv := by rw [fromLeBytes_toLeBytes, Nat.mod_eq_of_lt hv]
  encode_decode hlen h := by
    cases h
    rw [← hlen]
    exact ⟨fromLeBytes_lt _, toLeBytes_fromLeBytes _⟩

/-- One value, then another. -/
def both (l : Layout α) (k : Layout β) : Layout (α × β) where
  size := l.size + k.size
  encode ab := l.encode ab.1 ++ k.encode ab.2
  decode bytes := do
    let a ← l.decode (bytes.take l.size)
    let b ← k.decode (bytes.drop l.size)
    return (a, b)
  Fits ab := l.Fits ab.1 ∧ k.Fits ab.2
  length_encode h := by rw [List.length_append, l.length_encode h.1, k.length_encode h.2]
  decode_encode h := by
    rw [List.take_left' (l.length_encode h.1), List.drop_left' (l.length_encode h.1),
      l.decode_encode h.1, k.decode_encode h.2]
    rfl
  encode_decode hlen h := by
    simp only [Option.bind_eq_bind, Option.bind_eq_some_iff] at h
    obtain ⟨a, ha, b, hb, h⟩ := h
    cases h
    obtain ⟨hfits, hbytes⟩ := l.encode_decode (by rw [List.length_take]; omega) ha
    obtain ⟨hfits', hbytes'⟩ := k.encode_decode (by rw [List.length_drop]; omega) hb
    exact ⟨⟨hfits, hfits'⟩, by rw [hbytes, hbytes', List.take_append_drop]⟩

/-- The same bytes read as another type. -/
def renamed (l : Layout α) (f : α → β) (g : β → α) (hfg : ∀ b, f (g b) = b)
    (hgf : ∀ a, g (f a) = a) : Layout β where
  size := l.size
  encode b := l.encode (g b)
  decode bytes := (l.decode bytes).map f
  Fits b := l.Fits (g b)
  length_encode h := l.length_encode h
  decode_encode h := by rw [l.decode_encode h, Option.map_some, hfg]
  encode_decode hlen h := by
    obtain ⟨a, ha, rfl⟩ := Option.map_eq_some_iff.mp h
    rw [hgf]
    exact l.encode_decode hlen ha

/-- The constructors of an enumeration by their tags; other tags are no values. -/
def tagged (l : Layout Nat) (tag : α → Nat) (ofTag : Nat → Option α)
    (hofTag : ∀ a, ofTag (tag a) = some a) (htag : ∀ n a, ofTag n = some a → tag a = n) :
    Layout α where
  size := l.size
  encode a := l.encode (tag a)
  decode bytes := (l.decode bytes).bind ofTag
  Fits a := l.Fits (tag a)
  length_encode h := l.length_encode h
  decode_encode h := by rw [l.decode_encode h, Option.bind_some, hofTag]
  encode_decode hlen h := by
    obtain ⟨n, hn, ha⟩ := Option.bind_eq_some_iff.mp h
    rw [htag n _ ha]
    exact l.encode_decode hlen hn

/-- Decode `n` values one after another. -/
def decodeArray (l : Layout α) : Nat → List UInt8 → Option (List α)
  | 0, _ => some []
  | n + 1, bytes => do
    let a ← l.decode (bytes.take l.size)
    let rest ← l.decodeArray n (bytes.drop l.size)
    return a :: rest

variable {l : Layout α}

/-- The bytes of values that fit. -/
theorem length_encode_all {as : List α} (h : ∀ a ∈ as, l.Fits a) :
    (as.flatMap l.encode).length = as.length * l.size := by
  induction as with
  | nil => simp
  | cons a as ih =>
    rw [List.flatMap_cons, List.length_append, l.length_encode (h a List.mem_cons_self),
      ih fun b hb ↦ h b (List.mem_cons_of_mem a hb), List.length_cons, Nat.succ_mul, Nat.add_comm]

private theorem decodeArray_flatMap {as : List α} (h : ∀ a ∈ as, l.Fits a) :
    l.decodeArray as.length (as.flatMap l.encode) = some as := by
  induction as with
  | nil => rfl
  | cons a as ih =>
    have hlen := l.length_encode (h a List.mem_cons_self)
    rw [List.flatMap_cons, List.length_cons, decodeArray, List.take_left' hlen,
      List.drop_left' hlen, l.decode_encode (h a List.mem_cons_self),
      ih fun b hb ↦ h b (List.mem_cons_of_mem a hb)]
    rfl

private theorem flatMap_decodeArray {n : Nat} {bytes : List UInt8} {as : List α}
    (hlen : bytes.length = n * l.size) (h : l.decodeArray n bytes = some as) :
    as.length = n ∧ (∀ a ∈ as, l.Fits a) ∧ as.flatMap l.encode = bytes := by
  induction n generalizing bytes as with
  | zero =>
    cases h
    rw [Nat.zero_mul, List.length_eq_zero_iff] at hlen
    exact ⟨rfl, by simp, hlen.symm⟩
  | succ n ih =>
    rw [Nat.succ_mul] at hlen
    simp only [decodeArray, Option.bind_eq_bind, Option.bind_eq_some_iff] at h
    obtain ⟨a, ha, rest, hrest, h⟩ := h
    cases h
    obtain ⟨hfits, hbytes⟩ := l.encode_decode (by rw [List.length_take]; omega) ha
    obtain ⟨hn, hall, hflat⟩ := ih (by rw [List.length_drop]; omega) hrest
    refine ⟨by rw [List.length_cons, hn], List.forall_mem_cons.mpr ⟨hfits, hall⟩, ?_⟩
    rw [List.flatMap_cons, hbytes, hflat, List.take_append_drop]

/-- `n` values one after another. -/
def array (l : Layout α) (n : Nat) : Layout (List α) where
  size := n * l.size
  encode as := as.flatMap l.encode
  decode := l.decodeArray n
  Fits as := as.length = n ∧ ∀ a ∈ as, l.Fits a
  length_encode h := by rw [length_encode_all h.2, h.1]
  decode_encode h := by
    rw [← h.1]
    exact decodeArray_flatMap h.2
  encode_decode hlen h := by
    obtain ⟨hn, hall, hflat⟩ := flatMap_decodeArray hlen h
    exact ⟨⟨hn, hall⟩, hflat⟩

/-- What was stored at an address is decoded from the bytes loaded there. -/
theorem decode_load_store {a : α} (h : l.Fits a) (m : Memory) (address : Nat) :
    l.decode ((m.store address (l.encode a)).load address l.size) = some a := by
  rw [← l.length_encode h, Memory.load_store_same, l.decode_encode h]

end Layout
end LokoOS.Base

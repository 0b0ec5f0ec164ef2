import Mathlib.Algebra.Group.Nat.Defs
import RawDuck.Otlp

/-!
# RawDuck.Base64

Padded base64: what the encoder of it writes, and which texts
`OtlpBase64Decode` takes.

* `base64Encode` — padded base64, as protobuf's JSON conversion writes it;
* `base64Group_value` — a group of four characters is the number of its three
  bytes;
* `otlpBase64Decode_encode` — `OtlpBase64Decode` reads back what was encoded;
* `otlpBase64Decode_standard` — and it takes no text but padded base64, so an `=`
  anywhere but at the very end is an error.
-/

namespace RawDuck

/-! ## the encoder -/

/-- The standard alphabet, in the order of its values. -/
def base64Alphabet : Bytes :=
  bytes "ABCDEFGHIJKLMNOPQRSTUVWXYZabcdefghijklmnopqrstuvwxyz0123456789+/"

/-- The base64 character of a value below 64. -/
def base64Char (v : UInt8) : UInt8 :=
  if v < 26 then v + 65
  else if v < 52 then v + 71
  else if v < 62 then v - 4
  else if v = 62 then 43
  else 47

/-- The four values of three bytes. -/
def base64Group (a b c : UInt8) : List UInt8 :=
  [a >>> 2, (a &&& 3) <<< 4 ||| b >>> 4, (b &&& 15) <<< 2 ||| c >>> 6, c &&& 63]

/-- Padded base64. -/
def base64Encode : Bytes → Bytes
  | a :: b :: c :: rest => (base64Group a b c).map base64Char ++ base64Encode rest
  | [a, b] => ((base64Group a b 0).take 3).map base64Char ++ [61]
  | [a] => ((base64Group a 0 0).take 2).map base64Char ++ [61, 61]
  | [] => []

/-- What holds of all bytes below a bound. -/
theorem forall_lt_of_fin {n : Nat} {p : UInt8 → Prop} (h : ∀ i : Fin n, p (UInt8.ofNat i))
    {v : UInt8} (hv : v.toNat < n) : p v := by
  have hp := h ⟨v.toNat, hv⟩
  rwa [UInt8.ofNat_toNat] at hp

/-- The character of a value is where the alphabet has it. -/
theorem base64Alphabet_getElem {v : UInt8} (h : v < 64) :
    base64Alphabet[v.toNat]? = some (base64Char v) := by
  refine forall_lt_of_fin (n := 64)
    (p := fun v => base64Alphabet[v.toNat]? = some (base64Char v)) ?_ h
  decide +kernel

/-- The parts of a byte as numbers. -/
theorem toNat_parts (a : UInt8) :
    ((a >>> 2).toNat = a.toNat / 4 ∧ (a &&& 3).toNat = a.toNat % 4) ∧
      ((a >>> 4).toNat = a.toNat / 16 ∧ (a &&& 15).toNat = a.toNat % 16) ∧
      (a >>> 6).toNat = a.toNat / 64 ∧ (a &&& 63).toNat = a.toNat % 64 := by
  refine forall_lt_of_fin (n := 256) (p := fun a => ((a >>> 2).toNat = a.toNat / 4 ∧
    (a &&& 3).toNat = a.toNat % 4) ∧ ((a >>> 4).toNat = a.toNat / 16 ∧
    (a &&& 15).toNat = a.toNat % 16) ∧ (a >>> 6).toNat = a.toNat / 64 ∧
    (a &&& 63).toNat = a.toNat % 64) ?_ a.toNat_lt
  decide +kernel

/-- Two parts put together as one number. -/
theorem toNat_join {x y : UInt8} {k : Nat} (hk : k < 8) (hx : x.toNat < 2 ^ (8 - k))
    (hy : y.toNat < 2 ^ k) :
    (x <<< UInt8.ofNat k ||| y).toNat = 2 ^ k * x.toNat + y.toNat := by
  have hshift : (UInt8.ofNat k).toNat % 8 = k := by
    rw [UInt8.toNat_ofNat']
    omega
  have hpow : 2 ^ 8 = 2 ^ (8 - k) * 2 ^ k := by
    rw [← Nat.pow_add, Nat.sub_add_cancel (Nat.le_of_lt hk)]
  have hfit : x.toNat * 2 ^ k < 2 ^ 8 := by
    rw [hpow]
    exact Nat.mul_lt_mul_of_pos_right hx (Nat.two_pow_pos k)
  rw [UInt8.toNat_or, UInt8.toNat_shiftLeft, hshift, Nat.shiftLeft_eq, Nat.mod_eq_of_lt hfit,
    Nat.mul_comm, Nat.two_pow_add_eq_or_of_lt hy]

/-- **Three bytes are four characters**: the values of a group are the digits to
base 64 of the number whose digits to base 256 are the bytes. -/
theorem base64Group_value (a b c : UInt8) :
    ((base64Group a b c).map UInt8.toNat).foldl (fun n v => 64 * n + v) 0 =
      ([a, b, c].map UInt8.toNat).foldl (fun n v => 256 * n + v) 0 := by
  obtain ⟨⟨ha, ha'⟩, -, -⟩ := toNat_parts a
  obtain ⟨-, ⟨hb, hb'⟩, -⟩ := toNat_parts b
  obtain ⟨-, -, hc, hc'⟩ := toNat_parts c
  have hjoin := toNat_join (x := a &&& 3) (y := b >>> 4) (k := 4) (by decide)
    (by rw [ha']; omega) (by have := b.toNat_lt; rw [hb]; omega)
  have hjoin' := toNat_join (x := b &&& 15) (y := c >>> 6) (k := 2) (by decide)
    (by rw [hb']; omega) (by have := c.toNat_lt; rw [hc]; omega)
  simp only [UInt8.reduceOfNat, ha', hb, hb', hc] at hjoin hjoin'
  simp only [base64Group, List.map_cons, List.map_nil, List.foldl_cons, List.foldl_nil, ha, hc']
  omega

/-! ## what was encoded is read back -/

theorem base64Value_char {v : UInt8} (h : v < 64) :
    base64Char v ≠ 61 ∧ base64Value (base64Char v) = some v := by
  refine forall_lt_of_fin (n := 64) (p := fun v => base64Char v ≠ 61 ∧
    base64Value (base64Char v) = some v) ?_ h
  decide

/-- A byte is the two parts of it that go into different characters. -/
theorem byte_parts (a : UInt8) :
    (a >>> 2 < 64 ∧ a &&& 3 < 4 ∧ (a >>> 2) <<< 2 ||| a &&& 3 = a) ∧
      (a >>> 4 < 16 ∧ a &&& 15 < 16 ∧ (a >>> 4) <<< 4 ||| a &&& 15 = a) ∧
      (a >>> 6 < 4 ∧ a &&& 63 < 64 ∧ (a >>> 6) <<< 6 ||| a &&& 63 = a) := by
  refine forall_lt_of_fin (n := 256) (p := fun a => (a >>> 2 < 64 ∧ a &&& 3 < 4 ∧
    (a >>> 2) <<< 2 ||| a &&& 3 = a) ∧ (a >>> 4 < 16 ∧ a &&& 15 < 16 ∧
    (a >>> 4) <<< 4 ||| a &&& 15 = a) ∧ (a >>> 6 < 4 ∧ a &&& 63 < 64 ∧
    (a >>> 6) <<< 6 ||| a &&& 63 = a)) ?_ a.toNat_lt
  decide +kernel

/-- The parts of two bytes in the second character. -/
theorem second_parts {x y : UInt8} (hx : x < 4) (hy : y < 16) :
    x <<< 4 ||| y < 64 ∧ (x <<< 4 ||| y) >>> 4 = x ∧ (x <<< 4 ||| y) <<< 4 = y <<< 4 := by
  refine forall_lt_of_fin (n := 4) (p := fun x => x <<< 4 ||| y < 64 ∧
    (x <<< 4 ||| y) >>> 4 = x ∧ (x <<< 4 ||| y) <<< 4 = y <<< 4) (fun i => ?_) hx
  refine forall_lt_of_fin (n := 16) (p := fun y => UInt8.ofNat i <<< 4 ||| y < 64 ∧
    (UInt8.ofNat i <<< 4 ||| y) >>> 4 = UInt8.ofNat i ∧
    (UInt8.ofNat i <<< 4 ||| y) <<< 4 = y <<< 4) ?_ hy
  revert i
  decide

/-- The parts of two bytes in the third character. -/
theorem third_parts {x y : UInt8} (hx : x < 16) (hy : y < 4) :
    x <<< 2 ||| y < 64 ∧ (x <<< 2 ||| y) >>> 2 = x ∧ (x <<< 2 ||| y) <<< 6 = y <<< 6 := by
  refine forall_lt_of_fin (n := 16) (p := fun x => x <<< 2 ||| y < 64 ∧
    (x <<< 2 ||| y) >>> 2 = x ∧ (x <<< 2 ||| y) <<< 6 = y <<< 6) (fun i => ?_) hx
  refine forall_lt_of_fin (n := 4) (p := fun y => UInt8.ofNat i <<< 2 ||| y < 64 ∧
    (UInt8.ofNat i <<< 2 ||| y) >>> 2 = UInt8.ofNat i ∧
    (UInt8.ofNat i <<< 2 ||| y) <<< 6 = y <<< 6) ?_ hy
  revert i
  decide

theorem base64Place_char {v : UInt8} (h : v < 64) (last : Bool) (padding j : Nat) :
    base64Place last padding j (base64Char v) = some v := by
  obtain ⟨hne, hvalue⟩ := base64Value_char h
  rw [base64Place, if_neg hne, hvalue]

/-- The number of `=` behind the base64 of so many bytes. -/
def base64Pad (n : Nat) : Nat := (3 - n % 3) % 3

theorem base64Groups_encode (bs : Bytes) :
    base64Groups (base64Pad bs.length) (base64Encode bs) = some bs := by
  induction bs using base64Encode.induct with
  | case1 a b c rest ih =>
      obtain ⟨⟨ha, ha', hja⟩, -, -⟩ := byte_parts a
      obtain ⟨-, ⟨hb, hb', hjb⟩, -⟩ := byte_parts b
      obtain ⟨-, -, hc, hc', hjc⟩ := byte_parts c
      obtain ⟨h1, hr1, hl1⟩ := second_parts ha' hb
      obtain ⟨h2, hr2, hl2⟩ := third_parts hb' hc
      have hpad : base64Pad (a :: b :: c :: rest).length = base64Pad rest.length := by
        simp only [base64Pad, List.length_cons]
        omega
      have hfull : (base64Encode rest).isEmpty = false ∨ base64Pad rest.length = 0 := by
        cases rest with
        | nil => exact .inr rfl
        | cons d rest => exact .inl (by rw [base64Encode.eq_def]; split <;> simp_all [base64Group])
      rw [hpad, base64Encode]
      simp only [base64Group, List.map_cons, List.map_nil, List.cons_append, List.nil_append,
        base64Groups, base64Place_char, ha, h1, h2, hc', ih, Option.bind_eq_bind,
        Option.bind_some, hr1, hl1, hr2, hl2, hja, hjb, hjc]
      obtain hfull | hfull := hfull
      · simp [hfull]
      · simp [hfull]
  | case2 a b =>
      obtain ⟨⟨ha, ha', hja⟩, -, -⟩ := byte_parts a
      obtain ⟨-, ⟨hb, hb', hjb⟩, -⟩ := byte_parts b
      obtain ⟨h1, hr1, hl1⟩ := second_parts ha' hb
      obtain ⟨h2, hr2, -⟩ := third_parts hb' (show (0 : UInt8) < 4 by decide)
      rw [UInt8.or_zero] at h2 hr2
      have hlast : base64Place true 1 3 61 = some 0 := rfl
      simp only [base64Encode, base64Group, List.take, List.map_cons, List.map_nil,
        List.cons_append, List.nil_append, base64Groups]
      simp [base64Pad, base64Place_char, ha, h1, h2, hlast, hr1, hl1, hr2, hja, hjb]
  | case3 a =>
      obtain ⟨⟨ha, ha', hja⟩, -, -⟩ := byte_parts a
      obtain ⟨h1, hr1, -⟩ := second_parts ha' (show (0 : UInt8) < 16 by decide)
      rw [UInt8.or_zero] at h1 hr1
      have hlast : base64Place true 2 2 61 = some 0 ∧ base64Place true 2 3 61 = some 0 :=
        ⟨rfl, rfl⟩
      simp only [base64Encode, base64Group, List.take, List.map_cons, List.map_nil,
        List.cons_append, List.nil_append, base64Groups]
      simp [base64Pad, base64Place_char, ha, h1, hlast, hr1, hja]
  | case4 => rfl

theorem length_base64Encode (bs : Bytes) :
    (base64Encode bs).length = 4 * ((bs.length + 2) / 3) := by
  induction bs using base64Encode.induct with
  | case1 a b c rest ih =>
      simp only [base64Encode, base64Group, List.length_append, List.length_map, List.length_cons,
        List.length_nil, ih]
      omega
  | case2 a b => simp [base64Encode, base64Group]
  | case3 a => simp [base64Encode, base64Group]
  | case4 => rfl

/-- The padding stands in the last two characters. -/
theorem base64Padding_append (xs : Bytes) {ys : Bytes} (h : 2 ≤ ys.length) :
    base64Padding (xs ++ ys) = base64Padding ys := by
  rw [base64Padding, base64Padding, List.reverse_append]
  have hlength : 2 ≤ ys.reverse.length := by rwa [List.length_reverse]
  generalize ys.reverse = reversed at hlength ⊢
  obtain _ | ⟨c, _ | ⟨c', rest⟩⟩ := reversed
  · simp at hlength
  · simp at hlength
  · rfl

theorem base64Padding_encode (bs : Bytes) :
    base64Padding (base64Encode bs) = base64Pad bs.length := by
  induction bs using base64Encode.induct with
  | case1 a b c rest ih =>
      have hpad : base64Pad (a :: b :: c :: rest).length = base64Pad rest.length := by
        simp only [base64Pad, List.length_cons]
        omega
      rw [hpad, base64Encode]
      cases rest with
      | nil =>
          have hne : base64Char (c &&& 63) ≠ 61 := (base64Value_char (byte_parts c).2.2.2.1).1
          simp [base64Group, base64Encode, base64Padding, base64Pad, hne]
      | cons d rest =>
          rw [base64Padding_append _ ?_, ih]
          rw [length_base64Encode, List.length_cons]
          omega
  | case2 a b =>
      have hne : base64Char ((b &&& 15) <<< 2) ≠ 61 := by
        obtain ⟨-, ⟨-, hb', -⟩, -⟩ := byte_parts b
        obtain ⟨h2, -, -⟩ := third_parts hb' (show (0 : UInt8) < 4 by decide)
        rw [UInt8.or_zero] at h2
        exact (base64Value_char h2).1
      simp [base64Encode, base64Group, base64Padding, base64Pad, hne]
  | case3 a => rfl
  | case4 => rfl

/-- **Decoding** gives the bytes back. -/
theorem otlpBase64Decode_encode {bs : Bytes} (h : bs ≠ []) :
    otlpBase64Decode (base64Encode bs) = some bs := by
  have hpos : 0 < bs.length := List.length_pos_iff.mpr h
  have hlength := length_base64Encode bs
  rw [otlpBase64Decode, if_neg (by omega), base64Padding_encode, base64Groups_encode]

/-! ## what is accepted -/

/-- The character of its value. -/
theorem base64Char_value {c v : UInt8} (h : base64Value c = some v) :
    v < 64 ∧ base64Char v = c := by
  have hall := forall_lt_of_fin (n := 256) (p := fun c => (base64Value c).all
    fun v => decide (v < 64 ∧ base64Char v = c)) (by decide +kernel) c.toNat_lt
  rw [h] at hall
  exact of_decide_eq_true hall

theorem base64Value_isSome_iff (c : UInt8) :
    (base64Value c).isSome ↔ c ∈ base64Alphabet := by
  constructor
  · intro h
    obtain ⟨v, hv⟩ := Option.isSome_iff_exists.mp h
    obtain ⟨hlt, hchar⟩ := base64Char_value hv
    rw [← hchar]
    exact List.mem_of_getElem? (base64Alphabet_getElem hlt)
  · have hall : ∀ c ∈ base64Alphabet, (base64Value c).isSome = true := by decide +kernel
    exact hall c

/-- Padded base64, with so many `=`: groups of four characters of the alphabet,
with at most two `=`, which stand at the very end. -/
structure Base64Text (padding : Nat) (str : Bytes) : Prop where
  length : str.length % 4 = 0
  padding_le : padding ≤ 2
  text : ∃ body, str = body ++ List.replicate padding 61 ∧ ∀ c ∈ body, c ∈ base64Alphabet

theorem ne_pad_of_mem {c : UInt8} (h : c ∈ base64Alphabet) : c ≠ 61 := by
  rintro rfl
  exact absurd ((base64Value_isSome_iff 61).mpr h) (by decide)

theorem base64Place_isSome_iff (last : Bool) (padding j : Nat) (c : UInt8) :
    (base64Place last padding j c).isSome ↔
      c ∈ base64Alphabet ∨ (c = 61 ∧ last = true ∧ 4 - padding ≤ j) := by
  have hpad : (61 : UInt8) ∉ base64Alphabet := fun h => ne_pad_of_mem h rfl
  rw [base64Place]
  by_cases hc : c = 61
  · subst hc
    cases last
    · simp [hpad]
    · by_cases hj : 4 - padding ≤ j
      · simp [hpad, hj]
      · simp [hpad, hj]
  · rw [if_neg hc, base64Value_isSome_iff]
    simp [hc]

/-- **One group** is taken if each of its four characters is. -/
theorem base64Groups_isSome_cons (padding : Nat) (c0 c1 c2 c3 : UInt8) (rest : Bytes) :
    (base64Groups padding (c0 :: c1 :: c2 :: c3 :: rest)).isSome ↔
      (base64Place rest.isEmpty padding 0 c0).isSome ∧
        (base64Place rest.isEmpty padding 1 c1).isSome ∧
        (base64Place rest.isEmpty padding 2 c2).isSome ∧
        (base64Place rest.isEmpty padding 3 c3).isSome ∧ (base64Groups padding rest).isSome := by
  rw [base64Groups]
  simp only [Option.bind_eq_bind, Option.pure_def, Option.isSome_bind, Option.any_eq_true_iff_get,
    Option.isSome_some, exists_prop, and_true]

/-- One group gives three bytes, and the last one less by its padding. -/
theorem length_base64Groups_cons {padding : Nat} (hpadding : padding ≤ 2) {c0 c1 c2 c3 : UInt8}
    {rest out : Bytes} (h : base64Groups padding (c0 :: c1 :: c2 :: c3 :: rest) = some out) :
    ∃ tail, base64Groups padding rest = some tail ∧
      out.length = (if rest.isEmpty then 3 - padding else 3) + tail.length := by
  rw [base64Groups] at h
  simp only [Option.bind_eq_bind, Option.bind_eq_some_iff, Option.pure_def,
    Option.some.injEq] at h
  obtain ⟨v0, -, v1, -, v2, -, v3, -, tail, htail, rfl⟩ := h
  refine ⟨tail, htail, ?_⟩
  cases rest.isEmpty with
  | false =>
      simp only [Bool.not_false, Bool.true_or, if_true, List.cons_append, List.nil_append,
        List.length_cons, Bool.false_eq_true, if_false]
      omega
  | true =>
      obtain rfl | rfl | rfl : padding = 0 ∨ padding = 1 ∨ padding = 2 := by omega
      · simp
        omega
      · simp
        omega
      · simp
        omega

/-- Induction over the groups of a text, the last of which is a case of its own. -/
@[elab_as_elim]
theorem groups_induction {motive : (str : Bytes) → str.length % 4 = 0 → str ≠ [] → Prop}
    (last : ∀ c0 c1 c2 c3 hlength, motive [c0, c1, c2, c3] hlength (List.cons_ne_nil _ _))
    (more : ∀ c0 c1 c2 c3 c rest (hlength : (c :: rest).length % 4 = 0) hlength',
      4 ≤ (c :: rest).length → motive (c :: rest) hlength (List.cons_ne_nil _ _) →
      motive (c0 :: c1 :: c2 :: c3 :: c :: rest) hlength' (List.cons_ne_nil _ _))
    (str : Bytes) (hlength : str.length % 4 = 0) (hne : str ≠ []) : motive str hlength hne := by
  induction str using base64Groups.induct with
  | case1 c0 c1 c2 c3 rest ih =>
      cases rest with
      | nil => exact last c0 c1 c2 c3 hlength
      | cons c rest =>
          have hrest : (c :: rest).length % 4 = 0 ∧ 4 ≤ (c :: rest).length := by
            simp only [List.length_cons] at hlength ⊢
            omega
          exact more c0 c1 c2 c3 c rest hrest.1 hlength hrest.2
            (ih hrest.1 (List.cons_ne_nil c rest))
  | case2 str hshort =>
      obtain _ | ⟨c0, _ | ⟨c1, _ | ⟨c2, _ | ⟨c3, rest⟩⟩⟩⟩ := str
      · exact absurd rfl hne
      · simp at hlength
      · simp at hlength
      · simp at hlength
      · exact (hshort c0 c1 c2 c3 rest rfl).elim

/-- **The length**: three bytes for four characters, less the padding. -/
theorem length_base64Groups {padding : Nat} (hpadding : padding ≤ 2) {str out : Bytes}
    (hlength : str.length % 4 = 0) (hne : str ≠ [])
    (h : base64Groups padding str = some out) : out.length + padding = 3 * str.length / 4 := by
  induction str, hlength, hne using groups_induction generalizing out with
  | last c0 c1 c2 c3 hlength =>
      obtain ⟨tail, htail, hout⟩ := length_base64Groups_cons hpadding h
      obtain rfl : [] = tail := Option.some.inj htail
      rw [hout]
      simp only [List.isEmpty_nil, if_true, List.length_cons, List.length_nil]
      omega
  | more c0 c1 c2 c3 c rest hlength _ _ ih =>
      obtain ⟨tail, htail, hout⟩ := length_base64Groups_cons hpadding h
      have hrest := ih htail
      rw [hout]
      simp only [List.isEmpty_cons, Bool.false_eq_true, if_false, List.length_cons]
        at hrest hlength ⊢
      omega

theorem base64Padding_le (str : Bytes) : base64Padding str ≤ 2 := by
  rw [base64Padding]
  split
  · split
    · split
      · exact Nat.le_refl 2
      · exact Nat.le_succ 1
    · exact Nat.zero_le 2
  · exact Nat.zero_le 2

/-- The last group: what its padding stands for is its last characters. -/
theorem base64Text_last {c0 c1 c2 c3 : UInt8}
    (h : (base64Groups (base64Padding [c0, c1, c2, c3]) [c0, c1, c2, c3]).isSome) :
    Base64Text (base64Padding [c0, c1, c2, c3]) [c0, c1, c2, c3] := by
  refine ⟨by simp, base64Padding_le _, ?_⟩
  rw [base64Groups_isSome_cons] at h
  simp only [base64Place_isSome_iff] at h
  obtain ⟨h0, h1, h2, h3, -⟩ := h
  by_cases hc3 : c3 = 61
  · by_cases hc2 : c2 = 61
    · subst hc3 hc2
      have hpadding : base64Padding [c0, c1, 61, 61] = 2 := rfl
      simp only [hpadding, Nat.reduceSub, Nat.reduceLeDiff, and_false, or_false] at h0 h1
      refine ⟨[c0, c1], by rw [hpadding]; rfl, ?_⟩
      simp [h0, h1]
    · subst hc3
      have hpadding : base64Padding [c0, c1, c2, 61] = 1 := by simp [base64Padding, hc2]
      simp only [hpadding, Nat.reduceSub, Nat.reduceLeDiff, and_false, or_false] at h0 h1 h2
      refine ⟨[c0, c1, c2], by rw [hpadding]; rfl, ?_⟩
      simp [h0, h1, h2]
  · have hpadding : base64Padding [c0, c1, c2, c3] = 0 := by simp [base64Padding, hc3]
    simp only [hpadding, Nat.reduceSub, Nat.reduceLeDiff, and_false, or_false] at h0 h1 h2 h3
    refine ⟨[c0, c1, c2, c3], by rw [hpadding]; rfl, ?_⟩
    simp [h0, h1, h2, h3]

/-- **Only padded base64 is taken**: the groups of a text that ends in so many `=`
are accepted only if all the other characters are of the alphabet. -/
theorem base64Groups_sound {str : Bytes} (hlength : str.length % 4 = 0) (hne : str ≠ [])
    (h : (base64Groups (base64Padding str) str).isSome) :
    Base64Text (base64Padding str) str := by
  induction str, hlength, hne using groups_induction with
  | last c0 c1 c2 c3 => exact base64Text_last h
  | more c0 c1 c2 c3 c rest _ hlength hlong ih =>
      have hpadding : base64Padding (c0 :: c1 :: c2 :: c3 :: c :: rest) =
          base64Padding (c :: rest) := base64Padding_append [c0, c1, c2, c3] (by omega)
      rw [hpadding, base64Groups_isSome_cons] at h
      obtain ⟨h0, h1, h2, h3, hrest⟩ := h
      obtain ⟨-, hle, body, hbody, halphabet⟩ := ih hrest
      -- there is no padding in a group that another one follows
      simp only [base64Place_isSome_iff, List.isEmpty_cons, Bool.false_eq_true, false_and,
        and_false, or_false] at h0 h1 h2 h3
      rw [hpadding]
      refine ⟨hlength, hle, c0 :: c1 :: c2 :: c3 :: body,
        congrArg (c0 :: c1 :: c2 :: c3 :: ·) hbody, ?_⟩
      simp only [List.mem_cons, forall_eq_or_imp]
      exact ⟨h0, h1, h2, h3, halphabet⟩

/-- A text that is decoded is padded base64, of the length of what it gives. -/
theorem base64Text_of_decode {str out : Bytes} (h : otlpBase64Decode str = some out) :
    str ≠ [] ∧ Base64Text (base64Padding str) str ∧
      out.length + base64Padding str = 3 * str.length / 4 := by
  rw [otlpBase64Decode] at h
  split at h
  · contradiction
  · next hstr =>
      rw [not_or, not_not, List.length_eq_zero_iff] at hstr
      obtain ⟨hne, hlength⟩ := hstr
      have htext := base64Groups_sound hlength hne (Option.isSome_of_eq_some h)
      exact ⟨hne, htext, length_base64Groups htext.padding_le hlength hne h⟩

/-- **Decoding** accepts the padded base64 of any bytes and gives them back; and
what it accepts is padded base64, three bytes for four characters without the
padding. -/
theorem otlpBase64Decode_standard :
    (∀ bs : Bytes, bs ≠ [] → otlpBase64Decode (base64Encode bs) = some bs) ∧
      ∀ str out, otlpBase64Decode str = some out →
        str.length % 4 = 0 ∧ ∃ body padding, str = body ++ List.replicate padding 61 ∧
          padding ≤ 2 ∧ (∀ c ∈ body, c ∈ base64Alphabet) ∧
          out.length = 3 * str.length / 4 - padding := by
  refine ⟨fun bs hne => otlpBase64Decode_encode hne, fun str out h => ?_⟩
  obtain ⟨-, ⟨hlength, hle, body, hbody, halphabet⟩, hout⟩ := base64Text_of_decode h
  exact ⟨hlength, body, _, hbody, hle, halphabet, by omega⟩

/-- Two bytes, and the one `=` behind them. -/
theorem otlpBase64Decode_standard_two : base64Encode (bytes "Ma") = bytes "TWE=" ∧
    otlpBase64Decode (bytes "TWE=") = some (bytes "Ma") ∧
    (bytes "TWE=").length % 4 = 0 ∧ ∃ body padding,
      bytes "TWE=" = body ++ List.replicate padding 61 ∧ padding ≤ 2 ∧
      (∀ c ∈ body, c ∈ base64Alphabet) ∧
      (bytes "Ma").length = 3 * (bytes "TWE=").length / 4 - padding := by
  have hencode : base64Encode (bytes "Ma") = bytes "TWE=" := by decide +kernel
  have hdecode := otlpBase64Decode_standard.1 (bytes "Ma") (by decide +kernel)
  rw [hencode] at hdecode
  exact ⟨hencode, hdecode, otlpBase64Decode_standard.2 _ _ hdecode⟩

end RawDuck

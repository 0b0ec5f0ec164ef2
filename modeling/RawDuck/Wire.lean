import Mathlib.Algebra.Group.Nat.Defs
import Mathlib.Data.List.Basic

/-!
# RawDuck.Wire

The wire format of protocol buffers.  A message is a run of records, each a tag
and a payload: the tag is the number of a field and the kind of its payload as
one varint, and a varint is a number in groups of seven bits, the lowest first,
with the high bit set in every byte but the last.

* `readVarint_encodeVarint` — reading a varint gives back what was written;
* `readVarint_shortest` — no bytes that are read as a number are fewer than those
  written for it;
* `readField_encodeField` — the same round trip for one record;
* `decode_encodeMessage` — and for a whole message, of which nothing is left
  over.
-/

namespace Wire

/-! ## varints -/

/-- The bytes of a number. -/
def encodeVarint (n : Nat) : List UInt8 :=
  if n < 128 then [UInt8.ofNat n]
  else UInt8.ofNat (n % 128 + 128) :: encodeVarint (n / 128)
termination_by n
decreasing_by omega

/-- The number at the start of the input, of no more than so many bytes. -/
def readVarintIn : Nat → List UInt8 → Option (Nat × List UInt8)
  | 0, _ => none
  | _ + 1, [] => none
  | limit + 1, b :: bs =>
      if b.toNat < 128 then some (b.toNat, bs)
      else match readVarintIn limit bs with
        | some (high, rest) => some (b.toNat - 128 + 128 * high, rest)
        | none => none

/-- The varint at the start of the input: ten bytes at most, of which 64 bits are
kept. -/
def readVarint (bs : List UInt8) : Option (Nat × List UInt8) :=
  match readVarintIn 10 bs with
  | some (n, rest) => some (n % 2 ^ 64, rest)
  | none => none

theorem encodeVarint_of_lt {n : Nat} (h : n < 128) : encodeVarint n = [UInt8.ofNat n] := by
  rw [encodeVarint, if_pos h]

theorem encodeVarint_of_le {n : Nat} (h : 128 ≤ n) :
    encodeVarint n = UInt8.ofNat (n % 128 + 128) :: encodeVarint (n / 128) := by
  rw [encodeVarint, if_neg (Nat.not_lt.mpr h)]

theorem length_encodeVarint_pos (n : Nat) : 0 < (encodeVarint n).length := by
  rw [encodeVarint]
  split
  · exact Nat.one_pos
  · exact Nat.succ_pos _

theorem length_encodeVarint_le {k n : Nat} (h : n < 128 ^ (k + 1)) :
    (encodeVarint n).length ≤ k + 1 := by
  induction k generalizing n with
  | zero =>
      rw [encodeVarint_of_lt (by omega)]
      exact Nat.le_refl 1
  | succ k ih =>
      by_cases hn : n < 128
      · rw [encodeVarint_of_lt hn]
        exact Nat.succ_le_succ (Nat.zero_le _)
      · rw [encodeVarint_of_le (Nat.not_lt.mp hn), List.length_cons]
        have hdiv : n / 128 < 128 ^ (k + 1) := by
          rw [Nat.div_lt_iff_lt_mul (by decide), ← Nat.pow_succ]
          exact h
        exact Nat.succ_le_succ (ih hdiv)

/-- A larger number takes no fewer bytes. -/
theorem length_encodeVarint_mono {m n : Nat} (h : m ≤ n) :
    (encodeVarint m).length ≤ (encodeVarint n).length := by
  induction n using Nat.strongRecOn generalizing m with
  | ind n ih =>
      by_cases hm : m < 128
      · rw [encodeVarint_of_lt hm]
        exact length_encodeVarint_pos n
      · have hn : 128 ≤ n := Nat.le_trans (Nat.not_lt.mp hm) h
        rw [encodeVarint_of_le (Nat.not_lt.mp hm), encodeVarint_of_le hn]
        exact Nat.succ_le_succ (ih (n / 128) (by omega) (Nat.div_le_div_right h))

theorem readVarintIn_encodeVarint {limit n : Nat} (h : (encodeVarint n).length ≤ limit)
    (rest : List UInt8) : readVarintIn limit (encodeVarint n ++ rest) = some (n, rest) := by
  induction limit generalizing n with
  | zero => exact absurd h (Nat.not_le.mpr (length_encodeVarint_pos n))
  | succ limit ih =>
      by_cases hn : n < 128
      · have hbyte : (UInt8.ofNat n).toNat = n := by
          rw [UInt8.toNat_ofNat']
          omega
        rw [encodeVarint_of_lt hn, List.singleton_append, readVarintIn, hbyte, if_pos hn]
      · have hbyte : (UInt8.ofNat (n % 128 + 128)).toNat = n % 128 + 128 := by
          rw [UInt8.toNat_ofNat']
          omega
        rw [encodeVarint_of_le (Nat.not_lt.mp hn), List.length_cons] at h
        rw [encodeVarint_of_le (Nat.not_lt.mp hn), List.cons_append, readVarintIn, hbyte,
          if_neg (by omega), ih (Nat.le_of_succ_le_succ h)]
        simp only [Option.some.injEq, Prod.mk.injEq, and_true]
        omega

/-- **Reading a varint** gives back the number that was written, and all behind
it. -/
theorem readVarint_encodeVarint {n : Nat} (h : n < 2 ^ 64) (rest : List UInt8) :
    readVarint (encodeVarint n ++ rest) = some (n, rest) := by
  have hlength : (encodeVarint n).length ≤ 10 :=
    length_encodeVarint_le (k := 9) (Nat.lt_of_lt_of_le h (by decide))
  rw [readVarint, readVarintIn_encodeVarint hlength]
  simp only [Nat.mod_eq_of_lt h]

theorem readVarintIn_shortest {limit n : Nat} {bs rest : List UInt8}
    (h : readVarintIn limit bs = some (n, rest)) :
    (encodeVarint n).length + rest.length ≤ bs.length := by
  induction limit generalizing n bs with
  | zero => simp [readVarintIn] at h
  | succ limit ih =>
      cases bs with
      | nil => simp [readVarintIn] at h
      | cons b bs =>
          rw [readVarintIn] at h
          split at h
          · next hb =>
              obtain ⟨rfl, rfl⟩ := Prod.mk.inj (Option.some.inj h)
              rw [encodeVarint_of_lt hb, List.length_singleton, List.length_cons]
              omega
          · next hb =>
              cases hhigh : readVarintIn limit bs with
              | none => simp [hhigh] at h
              | some read =>
                  obtain ⟨high, behind⟩ := read
                  rw [hhigh] at h
                  obtain ⟨rfl, rfl⟩ := Prod.mk.inj (Option.some.inj h)
                  have hbyte := b.toNat_lt
                  have hbehind := ih hhigh
                  -- a high part of 0 needs no byte of its own
                  by_cases hn : b.toNat - 128 + 128 * high < 128
                  · rw [encodeVarint_of_lt hn, List.length_singleton, List.length_cons]
                    have hpos := length_encodeVarint_pos high
                    omega
                  · have hdiv : (b.toNat - 128 + 128 * high) / 128 = high := by omega
                    rw [encodeVarint_of_le (Nat.not_lt.mp hn), hdiv, List.length_cons,
                      List.length_cons]
                    omega

/-- **Varints are written minimally**: what is read as a number has no fewer bytes
than what is written for it. -/
theorem readVarint_shortest {n : Nat} {bs rest : List UInt8}
    (h : readVarint bs = some (n, rest)) :
    (encodeVarint n).length + rest.length ≤ bs.length := by
  rw [readVarint] at h
  cases hread : readVarintIn 10 bs with
  | none => simp [hread] at h
  | some read =>
      obtain ⟨m, behind⟩ := read
      rw [hread] at h
      obtain ⟨rfl, rfl⟩ := Prod.mk.inj (Option.some.inj h)
      have hmono := length_encodeVarint_mono (Nat.mod_le m (2 ^ 64))
      have hshortest := readVarintIn_shortest hread
      omega

/-- Reading a varint takes at least one byte. -/
theorem length_lt_of_readVarint {n : Nat} {bs rest : List UInt8}
    (h : readVarint bs = some (n, rest)) : rest.length < bs.length := by
  have hshortest := readVarint_shortest h
  have hpos := length_encodeVarint_pos n
  omega

/-! ## records -/

/-- What a field carries.  Groups are open and closed by records of their own. -/
inductive Payload
  | varint (value : Nat)
  | fixed64 (bytes : List UInt8)
  | delimited (bytes : List UInt8)
  | groupStart
  | groupEnd
  | fixed32 (bytes : List UInt8)
deriving DecidableEq, Repr

/-- The wire type: the lowest three bits of the tag. -/
def Payload.wireType : Payload → Nat
  | .varint _ => 0
  | .fixed64 _ => 1
  | .delimited _ => 2
  | .groupStart => 3
  | .groupEnd => 4
  | .fixed32 _ => 5

/-- One record. -/
structure Field where
  number : Nat
  payload : Payload
deriving DecidableEq, Repr

/-- So many bytes from the start of the input. -/
def readBytes (n : Nat) (bs : List UInt8) : Option (List UInt8 × List UInt8) :=
  if n ≤ bs.length then some (bs.take n, bs.drop n) else none

/-- The payload of a wire type. -/
def readPayload (wireType : Nat) (bs : List UInt8) : Option (Payload × List UInt8) :=
  match wireType with
  | 0 => (readVarint bs).map fun (value, rest) => (.varint value, rest)
  | 1 => (readBytes 8 bs).map fun (bytes, rest) => (.fixed64 bytes, rest)
  | 2 => (readVarint bs).bind fun (n, rest) =>
      (readBytes n rest).map fun (bytes, rest) => (.delimited bytes, rest)
  | 3 => some (.groupStart, bs)
  | 4 => some (.groupEnd, bs)
  | 5 => (readBytes 4 bs).map fun (bytes, rest) => (.fixed32 bytes, rest)
  | _ => none

/-- The record at the start of the input: field numbers are those of 29 bits
except 0. -/
def readField (bs : List UInt8) : Option (Field × List UInt8) :=
  match readVarint bs with
  | some (tag, rest) =>
      if tag / 8 = 0 ∨ 2 ^ 29 ≤ tag / 8 then none
      else (readPayload (tag % 8) rest).map fun (payload, rest) => (⟨tag / 8, payload⟩, rest)
  | none => none

/-- A payload as bytes: only those of variable length say how many they are. -/
def Payload.encode : Payload → List UInt8
  | .varint value => encodeVarint value
  | .fixed64 bytes => bytes
  | .delimited bytes => encodeVarint bytes.length ++ bytes
  | .groupStart => []
  | .groupEnd => []
  | .fixed32 bytes => bytes

/-- A record as bytes. -/
def encodeField (field : Field) : List UInt8 :=
  encodeVarint (8 * field.number + field.payload.wireType) ++ field.payload.encode

/-- The payload has the size that its wire type gives it. -/
def Payload.Fits : Payload → Prop
  | .varint value => value < 2 ^ 64
  | .fixed64 bytes => bytes.length = 8
  | .delimited bytes => bytes.length < 2 ^ 64
  | .groupStart => True
  | .groupEnd => True
  | .fixed32 bytes => bytes.length = 4

/-- The record can be written. -/
structure Field.Fits (field : Field) : Prop where
  pos : 0 < field.number
  lt : field.number < 2 ^ 29
  payload : field.payload.Fits

theorem readBytes_append {n : Nat} {bytes : List UInt8} (h : bytes.length = n)
    (rest : List UInt8) : readBytes n (bytes ++ rest) = some (bytes, rest) := by
  subst h
  rw [readBytes, if_pos (by rw [List.length_append]; omega), List.take_left, List.drop_left]

theorem Payload.wireType_lt (payload : Payload) : payload.wireType < 8 := by
  cases payload <;> simp [wireType]

/-- A payload is read back, one wire type after the other. -/
theorem readPayload_encode {payload : Payload} (h : payload.Fits) (rest : List UInt8) :
    readPayload payload.wireType (payload.encode ++ rest) = some (payload, rest) := by
  cases payload with
  | varint value =>
      show (readVarint (encodeVarint value ++ rest)).map _ = _
      rw [readVarint_encodeVarint h]
      rfl
  | fixed64 bytes =>
      show (readBytes 8 (bytes ++ rest)).map _ = _
      rw [readBytes_append h]
      rfl
  | delimited bytes =>
      show (readVarint (encodeVarint bytes.length ++ bytes ++ rest)).bind _ = _
      rw [List.append_assoc, readVarint_encodeVarint h]
      show (readBytes bytes.length (bytes ++ rest)).map _ = _
      rw [readBytes_append rfl]
      rfl
  | groupStart => rfl
  | groupEnd => rfl
  | fixed32 bytes =>
      show (readBytes 4 (bytes ++ rest)).map _ = _
      rw [readBytes_append h]
      rfl

/-- **One record** is read back, and nothing behind it is touched. -/
theorem readField_encodeField {field : Field} (h : field.Fits) (rest : List UInt8) :
    readField (encodeField field ++ rest) = some (field, rest) := by
  have hpos := h.pos
  have hlt := h.lt
  have htype := field.payload.wireType_lt
  have htag : 8 * field.number + field.payload.wireType < 2 ^ 64 := by omega
  have hnumber : (8 * field.number + field.payload.wireType) / 8 = field.number := by omega
  have hwire : (8 * field.number + field.payload.wireType) % 8 = field.payload.wireType := by omega
  rw [encodeField, List.append_assoc, readField, readVarint_encodeVarint htag]
  show (if _ then none else _) = _
  rw [hnumber, hwire, if_neg (by omega), readPayload_encode h.payload]
  rfl

theorem length_le_of_readBytes {n : Nat} {bs bytes rest : List UInt8}
    (h : readBytes n bs = some (bytes, rest)) : rest.length ≤ bs.length := by
  rw [readBytes] at h
  split at h
  · obtain ⟨-, rfl⟩ := Prod.mk.inj (Option.some.inj h)
    rw [List.length_drop]
    omega
  · contradiction

/-- Reading a payload does not lengthen the input. -/
theorem length_le_of_readPayload {wireType : Nat} {bs rest : List UInt8} {payload : Payload}
    (h : readPayload wireType bs = some (payload, rest)) : rest.length ≤ bs.length := by
  unfold readPayload at h
  split at h
  · obtain ⟨⟨value, behind⟩, hread, heq⟩ := Option.map_eq_some_iff.mp h
    obtain ⟨-, rfl⟩ := Prod.mk.inj heq
    exact Nat.le_of_lt (length_lt_of_readVarint hread)
  · obtain ⟨⟨bytes, behind⟩, hread, heq⟩ := Option.map_eq_some_iff.mp h
    obtain ⟨-, rfl⟩ := Prod.mk.inj heq
    exact length_le_of_readBytes hread
  · obtain ⟨⟨n, behind⟩, hlen, h⟩ := Option.bind_eq_some_iff.mp h
    obtain ⟨⟨bytes, behind'⟩, hread, heq⟩ := Option.map_eq_some_iff.mp h
    obtain ⟨-, rfl⟩ := Prod.mk.inj heq
    have hlt := length_lt_of_readVarint hlen
    have hle := length_le_of_readBytes hread
    omega
  · obtain ⟨-, rfl⟩ := Prod.mk.inj (Option.some.inj h)
    exact Nat.le_refl _
  · obtain ⟨-, rfl⟩ := Prod.mk.inj (Option.some.inj h)
    exact Nat.le_refl _
  · obtain ⟨⟨bytes, behind⟩, hread, heq⟩ := Option.map_eq_some_iff.mp h
    obtain ⟨-, rfl⟩ := Prod.mk.inj heq
    exact length_le_of_readBytes hread
  · contradiction

/-- Reading a record takes at least one byte, so a message is read to its end. -/
theorem length_lt_of_readField {bs rest : List UInt8} {field : Field}
    (h : readField bs = some (field, rest)) : rest.length < bs.length := by
  rw [readField] at h
  split at h
  · next tag behind htag =>
      split at h
      · contradiction
      · obtain ⟨⟨payload, behind'⟩, hread, heq⟩ := Option.map_eq_some_iff.mp h
        obtain ⟨-, rfl⟩ := Prod.mk.inj heq
        have hlt := length_lt_of_readVarint htag
        have hle := length_le_of_readPayload hread
        omega
  · contradiction

/-! ## messages -/

/-- A whole message, which has to end with a record. -/
def decode (bs : List UInt8) : Option (List Field) :=
  if bs = [] then some []
  else match h : readField bs with
    | some (field, rest) =>
        have := length_lt_of_readField h
        (decode rest).map (field :: ·)
    | none => none
termination_by bs.length

/-- Records one behind the other. -/
def encodeMessage (fields : List Field) : List UInt8 := fields.flatMap encodeField

theorem decode_nil : decode [] = some [] := by
  rw [decode, if_pos rfl]

theorem decode_of_readField {bs rest : List UInt8} {field : Field}
    (h : readField bs = some (field, rest)) : decode bs = (decode rest).map (field :: ·) := by
  have hne : bs ≠ [] := by
    rintro rfl
    exact absurd (length_lt_of_readField h) (Nat.not_lt_zero _)
  rw [decode, if_neg hne]
  split
  · next field' rest' h' =>
      obtain ⟨rfl, rfl⟩ := Prod.mk.inj (Option.some.inj (h.symm.trans h'))
      rfl
  · next h' =>
      rw [h] at h'
      contradiction

/-- **A message** is read back record by record, and nothing is left over. -/
theorem decode_encodeMessage {fields : List Field} (h : ∀ field ∈ fields, field.Fits) :
    decode (encodeMessage fields) = some fields := by
  induction fields with
  | nil => exact decode_nil
  | cons field fields ih =>
      obtain ⟨hfield, hfields⟩ := List.forall_mem_cons.mp h
      rw [encodeMessage, List.flatMap_cons, ← encodeMessage,
        decode_of_readField (readField_encodeField hfield _), ih hfields]
      rfl

end Wire

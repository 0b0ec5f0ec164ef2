import RawDuck.Bytes
import RawDuck.Wire

/-!
# RawDuck.OtlpStatus

The body of an OTLP/HTTP error: a `google.rpc.Status` with its message only,
which `RawOtlpStatusBytes` writes by hand so that builds without protobuf can
answer too.

* `pushLength_eq` — the loop over the shifted length writes a varint;
* `rawOtlpStatusBytes_eq` — the whole body is the encoding of one record;
* `rawOtlpStatusBytes_decodes` — so every protobuf decoder reads the message
  back, and no shorter length would do.
-/

namespace RawDuck

/-- What is left of a length after seven bits of it. -/
theorem toNat_left (len : UInt64) : (len >>> 7).toNat = len.toNat / 128 := by
  rw [UInt64.toNat_shiftRight, Nat.shiftRight_eq_div_pow]
  rfl

/-- The `do` loop of `RawOtlpStatusBytes`: seven bits of the length at a time,
with the high bit set as long as something is left of it. -/
def pushLength (result : Bytes) (len : UInt64) : Bytes :=
  let byte : UInt8 := (len &&& 0x7F).toUInt8
  let left := len >>> 7
  if left ≠ 0 then pushLength (result ++ [byte ||| 0x80]) left else result ++ [byte]
termination_by len.toNat
decreasing_by
  rename_i hne
  have hleft : (len >>> 7).toNat ≠ 0 := fun heq => hne (UInt64.toNat_inj.mp heq)
  rw [toNat_left] at hleft ⊢
  omega

/-- `RawOtlpStatusBytes`: field 2, length-delimited. -/
def rawOtlpStatusBytes (message : Bytes) : Bytes :=
  pushLength [0x12] (UInt64.ofNat message.length) ++ message

/-! ## the loop -/

theorem toNat_low (len : UInt64) : ((len &&& 0x7F).toUInt8).toNat = len.toNat % 128 := by
  have hmask : (0x7F : UInt64).toNat = 2 ^ 7 - 1 := rfl
  rw [UInt64.toNat_toUInt8, UInt64.toNat_and, hmask, Nat.and_two_pow_sub_one_eq_mod]
  omega

/-- The continuation bit adds 128 to a byte that does not have it. -/
theorem toNat_continued {byte : UInt8} (h : byte.toNat < 128) :
    (byte ||| 0x80).toNat = byte.toNat + 128 := by
  have hbit : (0x80 : UInt8).toNat = 2 ^ 7 * 1 := rfl
  rw [UInt8.toNat_or, hbit, Nat.or_comm, ← Nat.two_pow_add_eq_or_of_lt h]
  omega

/-- One round of the loop. -/
theorem pushLength_step (result : Bytes) (len : UInt64) :
    pushLength result len =
      if len.toNat < 128 then result ++ [UInt8.ofNat len.toNat]
      else pushLength (result ++ [UInt8.ofNat (len.toNat % 128 + 128)]) (len >>> 7) := by
  have hlow := toNat_low len
  have hleft : len >>> 7 ≠ 0 ↔ ¬ len.toNat < 128 := by
    rw [ne_eq, ← UInt64.toNat_inj, toNat_left]
    simp only [UInt64.reduceToNat]
    omega
  rw [pushLength]
  by_cases h : len.toNat < 128
  · have hbyte : (len &&& 0x7F).toUInt8 = UInt8.ofNat len.toNat := by
      rw [← UInt8.toNat_inj, hlow, UInt8.toNat_ofNat']
      omega
    rw [if_pos h, if_neg (by rw [hleft]; exact not_not.mpr h), hbyte]
  · have hbyte : (len &&& 0x7F).toUInt8 ||| 0x80 = UInt8.ofNat (len.toNat % 128 + 128) := by
      rw [← UInt8.toNat_inj, toNat_continued (by omega), hlow, UInt8.toNat_ofNat']
      omega
    rw [if_neg h, if_pos (hleft.mpr h), hbyte]

/-- **The loop writes a varint** behind what the result already has. -/
theorem pushLength_eq (result : Bytes) (len : UInt64) :
    pushLength result len = result ++ Wire.encodeVarint len.toNat := by
  induction hn : len.toNat using Nat.strongRecOn generalizing result len with
  | ind n ih =>
      subst hn
      rw [pushLength_step]
      by_cases h : len.toNat < 128
      · rw [if_pos h, Wire.encodeVarint_of_lt h]
      · have hleft := toNat_left len
        rw [if_neg h, ih (len >>> 7).toNat (by omega) _ _ rfl, hleft,
          Wire.encodeVarint_of_le (Nat.not_lt.mp h), List.append_assoc, List.singleton_append]

/-! ## the body -/

/-- The body is the message of one record. -/
theorem rawOtlpStatusBytes_eq {message : Bytes} (h : message.length < 2 ^ 64) :
    rawOtlpStatusBytes message = 0x12 :: Wire.encodeVarint message.length ++ message := by
  rw [rawOtlpStatusBytes, pushLength_eq, UInt64.toNat_ofNat', Nat.mod_eq_of_lt h]
  rfl

/-- The first byte is the tag of the field `message` of a `google.rpc.Status`. -/
theorem encodeMessage_status (message : Bytes) :
    Wire.encodeMessage [⟨2, .delimited message⟩] =
      0x12 :: Wire.encodeVarint message.length ++ message := by
  have htag : Wire.encodeVarint (8 * 2 + 2) = [0x12] := Wire.encodeVarint_of_lt (by decide)
  show Wire.encodeVarint (8 * 2 + 2) ++ (Wire.encodeVarint message.length ++ message) ++ [] = _
  rw [htag, List.append_nil]
  rfl

/-- **The error body is a `google.rpc.Status`**: it decodes to field 2 alone, which
is the message, and its length is written in as few bytes as it can be. -/
theorem rawOtlpStatusBytes_decodes (message : Bytes) (h : message.length < 2 ^ 64) :
    Wire.decode (rawOtlpStatusBytes message) = some [⟨2, .delimited message⟩] ∧
      ∃ length, rawOtlpStatusBytes message = 0x12 :: length ++ message ∧
        Wire.readVarint (length ++ message) = some (message.length, message) ∧
        ∀ other, Wire.readVarint other = some (message.length, []) →
          length.length ≤ other.length := by
  have hfits : ∀ field ∈ [(⟨2, .delimited message⟩ : Wire.Field)], field.Fits := by
    rw [List.forall_mem_singleton]
    exact ⟨Nat.two_pos, Nat.lt_of_sub_pos (by decide : 0 < 2 ^ 29 - 2), h⟩
  refine ⟨?_, Wire.encodeVarint message.length, rawOtlpStatusBytes_eq h,
    Wire.readVarint_encodeVarint h message, fun other hother => ?_⟩
  · rw [rawOtlpStatusBytes_eq h, ← encodeMessage_status, Wire.decode_encodeMessage hfits]
  · exact Wire.readVarint_shortest hother

/-- The first length of two bytes. -/
theorem rawOtlpStatusBytes_decodes_two_bytes :
    rawOtlpStatusBytes (List.replicate 128 97) = 0x12 :: 0x80 :: 0x01 :: List.replicate 128 97 ∧
      Wire.decode (0x12 :: 0x80 :: 0x01 :: List.replicate 128 97) =
        some [⟨2, .delimited (List.replicate 128 97)⟩] := by
  have hlength : (List.replicate 128 (97 : UInt8)).length = 128 := List.length_replicate
  have hbound : (List.replicate 128 (97 : UInt8)).length < 2 ^ 64 := by
    rw [hlength]
    decide
  have hbytes : rawOtlpStatusBytes (List.replicate 128 97) =
      0x12 :: 0x80 :: 0x01 :: List.replicate 128 97 := by
    rw [rawOtlpStatusBytes_eq hbound, hlength, Wire.encodeVarint_of_le (by decide),
      Wire.encodeVarint_of_lt (by decide)]
    rfl
  have hdecodes := rawOtlpStatusBytes_decodes (List.replicate 128 97) hbound
  rw [hbytes] at hdecodes
  exact ⟨hbytes, hdecodes.1⟩

end RawDuck

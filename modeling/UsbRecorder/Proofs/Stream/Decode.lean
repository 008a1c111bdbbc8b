import UsbRecorder.Stream.Beat
import UsbRecorder.Stream.Record
/-!
# Decode — reading records back from the stream

`decodeAll_records`: the records written one after another, with at most a cut one at the end, are read back as they
are.  `decode?_append`: a record that can be read is read the same whatever follows it, so no part of one is read as
a record.
-/
namespace UsbRecorder

@[simp] theorem wordOf_bytesOf (w : UInt16) : wordOf (UInt8.ofNat (w.toNat / 256)) (UInt8.ofNat w.toNat) = w := by
  have hw := w.toNat_lt
  apply UInt16.toNat_inj.1
  have hhi : (UInt8.ofNat (w.toNat / 256)).toNat = w.toNat / 256 := UInt8.toNat_ofNat_of_lt (by
    show w.toNat / 256 < 256
    omega)
  have hlo : (UInt8.ofNat w.toNat).toNat = w.toNat % 256 := UInt8.toNat_ofNat'
  unfold wordOf
  rw [hhi, hlo, Nat.mul_comm, Nat.div_add_mod]
  exact UInt16.toNat_ofNat_of_lt w.toNat_lt

namespace Record

/-- A record that the stream can carry: a packet's length must not begin with the tag of events. -/
def Framable : Record → Prop
  | packet _ payload => payload.length < 0xFF00
  | event .. => True

theorem framable_packet {t : UInt16} {payload : List UInt8} (h : payload.length ≤ maxPacket) :
    (packet t payload).Framable := by
  show payload.length < 0xFF00
  unfold maxPacket at h
  omega

theorem length_pos (r : Record) : 0 < r.toBytes.length := by
  rw [length_toBytes]
  cases r with
  | packet t payload =>
    show 0 < headerSize + payload.length + payload.length % 2
    unfold headerSize
    omega
  | event => exact Nat.zero_lt_succ 3

theorem toBytes_ne_nil (r : Record) : r.toBytes ≠ [] := List.ne_nil_of_length_pos r.length_pos

theorem ofNat_div_ne_tag {n : Nat} (h : n < 0xFF00) : UInt8.ofNat (n / 256) ≠ tag := by
  intro heq
  have hval : (UInt8.ofNat (n / 256)).toNat = n / 256 := UInt8.toNat_ofNat_of_lt (by show n / 256 < 256; omega)
  rw [heq] at hval
  change 255 = n / 256 at hval
  omega

/-- **A record is read back, and the reading stops at its end.** -/
theorem decode?_toBytes_append {r : Record} (hr : r.Framable) (rest : List UInt8) :
    decode? (r.toBytes ++ rest) = some (r, rest) := by
  cases r with
  | event t code =>
    show decode? (tag :: code :: UInt8.ofNat (t.toNat / 256) :: UInt8.ofNat t.toNat :: rest) = _
    rw [decode?, if_pos rfl, wordOf_bytesOf]
  | packet t payload =>
    have hlen : payload.length < 0xFF00 := hr
    have htag := ofNat_div_ne_tag hlen
    have hword : (UInt16.ofNat payload.length).toNat = payload.length :=
      UInt16.toNat_ofNat_of_lt (by show payload.length < 65536; omega)
    have hbytes : (packet t payload).toBytes ++ rest =
        UInt8.ofNat (payload.length / 256) :: UInt8.ofNat payload.length ::
          UInt8.ofNat (t.toNat / 256) :: UInt8.ofNat t.toNat :: (payload ++ padding payload.length ++ rest) := by
      simp [toBytes, header, bytesOf, hword]
    have hbody : (payload ++ padding payload.length).length = payload.length + payload.length % 2 := by
      simp [padding]
    have hread := wordOf_bytesOf (UInt16.ofNat payload.length)
    rw [hword] at hread
    rw [hbytes, decode?, if_neg htag, wordOf_bytesOf]
    dsimp only
    rw [hread, hword, ← hbody, List.take_left, List.drop_left, if_pos rfl, List.take_left]

/-- **What is read does not depend on what follows.** -/
theorem decode?_append {bytes rest : List UInt8} {r : Record} (h : decode? bytes = some (r, rest)) (more : List UInt8) :
    decode? (bytes ++ more) = some (r, rest ++ more) := by
  unfold decode? at h
  split at h
  · rename_i a b hi lo body
    rw [List.cons_append, List.cons_append, List.cons_append, List.cons_append, decode?]
    split at h
    · rename_i hevent
      rw [if_pos hevent]
      cases h
      rfl
    · rename_i hpacket
      rw [if_neg hpacket]
      dsimp only at h ⊢
      generalize (wordOf a b).toNat + (wordOf a b).toNat % 2 = size at h ⊢
      have hle : (body.take size).length = size → size ≤ body.length := by
        rw [List.length_take]
        omega
      split at h
      · rename_i hwhole
        cases h
        rw [List.take_append_of_le_length (hle hwhole), List.drop_append_of_le_length (hle hwhole), if_pos hwhole]
      · cases h
  · cases h

/-- A cut record is not read. -/
theorem decode?_cut {r : Record} (hr : r.Framable) {part rest : List UInt8} (h : r.toBytes = part ++ rest)
    (hrest : rest ≠ []) : decode? part = none := by
  cases hd : decode? part with
  | none => rfl
  | some found =>
    obtain ⟨r', rest'⟩ := found
    have h1 := decode?_append hd rest
    have h2 := decode?_toBytes_append hr []
    rw [List.append_nil, h, h1] at h2
    simp only [Option.some.injEq, Prod.mk.injEq, List.append_eq_nil_iff] at h2
    exact absurd h2.2.2 hrest

theorem decodeAll_of_none {bytes : List UInt8} (h : decode? bytes = none) : decodeAll bytes = [] := by
  rw [decodeAll]
  split
  · rfl
  · rename_i hs
    rw [h] at hs
    cases hs

theorem decodeAll_toBytes_append {r : Record} (hr : r.Framable) (rest : List UInt8) :
    decodeAll (r.toBytes ++ rest) = r :: decodeAll rest := by
  rw [decodeAll]
  split
  · rename_i hs
    rw [decode?_toBytes_append hr] at hs
    cases hs
  · rename_i hs
    rw [decode?_toBytes_append hr] at hs
    cases hs
    rfl

/-- **Whole records are read back from the stream, and what is cut at its end is not.** -/
theorem decodeAll_records {part : List UInt8} (hpart : decode? part = none) :
    ∀ rs : List Record, (∀ r ∈ rs, r.Framable) → decodeAll (rs.flatMap toBytes ++ part) = rs
  | [], _ => decodeAll_of_none hpart
  | r :: rs, h => by
    rw [List.flatMap_cons, List.append_assoc, decodeAll_toBytes_append (h r List.mem_cons_self),
      decodeAll_records hpart rs fun x hx => h x (List.mem_cons_of_mem r hx)]

end Record

/-! ## Marked bytes -/

/-- The bytes of a record on their way, the final one alone marked. -/
def Beat.ofRecord (bytes : List UInt8) : List Beat := bytes.mapIdx fun i b => ⟨b, i + 1 == bytes.length⟩

namespace Beat

@[simp] theorem length_ofRecord (bytes : List UInt8) : (ofRecord bytes).length = bytes.length := by simp [ofRecord]

theorem getElem?_ofRecord {bytes : List UInt8} {i : Nat} (h : i < bytes.length) :
    (ofRecord bytes)[i]? = some ⟨bytes[i], i + 1 == bytes.length⟩ := by
  simp [ofRecord, h]

@[simp] theorem map_payload_ofRecord (bytes : List UInt8) : (ofRecord bytes).map Beat.payload = bytes := by
  apply List.ext_getElem?
  intro i
  simp [ofRecord, Function.comp_def]

end Beat
end UsbRecorder

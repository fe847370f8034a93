import KmsCluster.Auth
import KmsCluster.BlobFile
import KmsCluster.Lib.Bare
import KmsCluster.Lib.Base64Url

/-!
# Sealing and unsealing

Model of the writing side of `src/seal.rs`, whose reading side is in `Seal`. Base64, ECIES and
`serde_bare` are the parameter `SealLib`; `SealLib.Standard` says that the two codecs are the
standard ones, and `SealLib.KeyPair` what ECIES does under a key pair.

## Main results

- `unsealB64_eq_some`: exactly which texts open to a record.
- `unsealFromBytesChecked_eq`: opening a blob stays within its bytes.
- `seal_round_trip`: a sealed record is the one that is unsealed, from the text and from a file.
-/

namespace KmsCluster.Seal

open Bare Fallible

-- ════════════════════════════════════════════════════════════════════════
-- Records
-- ════════════════════════════════════════════════════════════════════════

/-- `Vec<u8>`: a vector holds at most `isize::MAX` bytes. -/
abbrev ByteVec := { bytes : Bytes // bytes.length < 2 ^ 63 }

def SealedShareV1.new (shardIndex : UInt32) (epoch : UInt64) (masterId share : ByteVec) :
    SealedShareV1 :=
  ⟨Seal.recordVersion, shardIndex.toNat, epoch.toNat, masterId, share⟩

/-- The fields of a record in BARE. -/
def recordBytes (record : SealedShareV1) : Bytes :=
  fixed 2 record.recordVersion ++ (fixed 4 record.shardIndex ++ (fixed 8 record.epoch ++
    (data record.masterId ++ data record.share)))

/-- The record at the front of `bytes`, and the bytes after it. -/
def readRecord (bytes : Bytes) : Option (SealedShareV1 × Bytes) := do
  let (recordVersion, bytes) ← readFixed 2 bytes
  let (shardIndex, bytes) ← readFixed 4 bytes
  let (epoch, bytes) ← readFixed 8 bytes
  let (masterId, bytes) ← readData bytes
  let (share, rest) ← readData bytes
  return (⟨recordVersion, shardIndex, epoch, masterId, share⟩, rest)

/-- The fields of a record fit their types. -/
structure SealedShareV1.Fits (record : SealedShareV1) : Prop where
  recordVersion : record.recordVersion < 256 ^ 2
  shardIndex : record.shardIndex < 256 ^ 4
  epoch : record.epoch < 256 ^ 8
  masterId : record.masterId.length < 2 ^ 64
  share : record.share.length < 2 ^ 64

theorem SealedShareV1.fits_new (shardIndex : UInt32) (epoch : UInt64) (masterId share : ByteVec) :
    (SealedShareV1.new shardIndex epoch masterId share).Fits where
  recordVersion := (by decide : 1 < 256 ^ 2)
  shardIndex := shardIndex.toNat_lt
  epoch := epoch.toNat_lt
  masterId := lt_trans masterId.2 (by decide)
  share := lt_trans share.2 (by decide)

theorem reads_record : Reads SealedShareV1.Fits recordBytes readRecord := by
  intro record hfits rest
  simp only [recordBytes, readRecord, List.append_assoc, reads_fixed 2 _ hfits.recordVersion,
    reads_fixed 4 _ hfits.shardIndex, reads_fixed 8 _ hfits.epoch, reads_data _ hfits.masterId,
    reads_data _ hfits.share, Option.bind_eq_bind, Option.bind_some]
  rfl

-- ════════════════════════════════════════════════════════════════════════
-- What is called outside the repository
-- ════════════════════════════════════════════════════════════════════════

structure SealLib where
  /-- `URL_SAFE_NO_PAD`. -/
  encodeBase64 : Bytes → String
  decodeBase64 : String → Option Bytes
  /-- `serde_bare`. -/
  toVec : SealedShareV1 → Except String Bytes
  fromSlice : Bytes → Except String SealedShareV1
  /-- `ecies::encrypt` of a plaintext to a public key, with the randomness it draws. -/
  encrypt : Bytes → Bytes → Bytes → Except String Bytes
  /-- `ecies::decrypt` of a ciphertext with a private key. -/
  decrypt : Bytes → Bytes → Except String Bytes

/-- What a node with this private key opens blobs with. -/
def SealLib.ops (L : SealLib) (ownPrivkey : Bytes) : SealOps where
  decodeBase64 := L.decodeBase64
  eciesDecrypt := L.decrypt ownPrivkey
  fromSlice := L.fromSlice

/-- The two codecs are the standard ones. Whether bytes after a record are ignored is left open. -/
structure SealLib.Standard (L : SealLib) : Prop where
  encodeBase64_eq : ∀ bytes, L.encodeBase64 bytes = String.ofList (Base64Url.encode bytes)
  decodeBase64_eq : ∀ s, L.decodeBase64 s = Base64Url.decode s.toList
  toVec_eq : ∀ record, L.toVec record = .ok (recordBytes record)
  fromSlice_of_read : ∀ bytes record, readRecord bytes = some (record, []) →
    L.fromSlice bytes = .ok record
  read_of_fromSlice : ∀ bytes record, L.fromSlice bytes = .ok record →
    ∃ rest, readRecord bytes = some (record, rest)

/-- ECIES encrypts anything to the public key, and decrypts with the private key exactly what was
    encrypted so. -/
structure SealLib.KeyPair (L : SealLib) (pubkey privkey : Bytes) : Prop where
  encrypt_ok : ∀ randomness plaintext, ∃ ciphertext,
    L.encrypt randomness pubkey plaintext = .ok ciphertext
  decrypt_eq_ok : ∀ ciphertext plaintext, L.decrypt privkey ciphertext = .ok plaintext ↔
    ∃ randomness, L.encrypt randomness pubkey plaintext = .ok ciphertext

section Sealing

variable (L : SealLib)

/-- Seal a record into the raw blob, encrypted to `ownPubkey`. -/
def sealToBytes (randomness ownPubkey : Bytes) (record : SealedShareV1) : Except String Bytes := do
  let payload ← (L.toVec record).mapError ("seal serialize: " ++ ·)
  let ciphertext ← (L.encrypt randomness ownPubkey payload).mapError fun e =>
    "seal encrypt: " ++ KmsError.display (.cryptoError ("ECIES encrypt failed: " ++ e))
  return magic ++ [envelopeVersion] ++ ciphertext

def sealB64 (randomness ownPubkey : Bytes) (record : SealedShareV1) : Except String String := do
  let blob ← sealToBytes L randomness ownPubkey record
  return L.encodeBase64 blob

end Sealing

/-- `&buf[start..stop]`; `none` is the panic of a range that does not fit. -/
def slice (buf : Bytes) (start stop : ℕ) : Option Bytes :=
  if start ≤ stop ∧ stop ≤ buf.length then some ((buf.take stop).drop start) else none

/-- `unseal_from_bytes` with the range checks of its slices; `none` is a panic. -/
def unsealFromBytesChecked (O : SealOps) (buf : Bytes) :
    Option (Except String (Option SealedShareV1)) :=
  if buf.length < 5 then some (.ok none)
  else do
    let head ← slice buf 0 4
    if head ≠ magic then return .ok none
    else
      let version ← buf[4]?
      if version ≠ envelopeVersion then return .ok none
      else
        let ciphertext ← slice buf 5 buf.length
        match O.eciesDecrypt ciphertext with
        | .error _ => return .ok none
        | .ok payload => return do
            let record ← (O.fromSlice payload).mapError ("unseal deserialize: " ++ ·)
            return if record.recordVersion ≠ recordVersion then none else some record

/-- No slice of a blob is out of range. -/
theorem unsealFromBytesChecked_eq (O : SealOps) (buf : Bytes) :
    unsealFromBytesChecked O buf = some (unsealFromBytes O buf) := by
  by_cases hlen : buf.length < 5
  · rw [unsealFromBytesChecked, unsealFromBytes, if_pos hlen, if_pos (.inl hlen)]
  · have hhead : slice buf 0 4 = some (buf.take 4) := by
      rw [slice, if_pos (by omega), List.drop_zero]
    have hversion : buf[4]? = some (buf.getD 4 0) := by
      rw [List.getD_eq_getElem?_getD, List.getElem?_eq_getElem (by omega), Option.getD_some]
    have hrest : slice buf 5 buf.length = some (buf.drop 5) := by
      rw [slice, if_pos (by omega), List.take_length]
    simp only [unsealFromBytesChecked, hlen, if_false, hhead, hversion, hrest, Option.bind_eq_bind,
      Option.bind_some, unsealFromBytes, false_or]
    by_cases hmagic : buf.take 4 = magic
    · by_cases henvelope : buf.getD 4 0 = envelopeVersion
      · simp only [hmagic, henvelope, ne_eq, not_true, if_false]
        cases O.eciesDecrypt (buf.drop 5) with
        | error e => rfl
        | ok payload => rfl
      · simp only [hmagic, henvelope, ne_eq, not_true, not_false_eq_true, if_false, if_true]
        rfl
    · simp only [hmagic, ne_eq, not_false_eq_true, if_true]
      rfl

/-- The blob of a record opens to it exactly when it is of this version. -/
theorem unsealFromBytes_eq_some {O : SealOps} {buf : Bytes} {record : SealedShareV1} :
    unsealFromBytes O buf = .ok (some record) ↔ ∃ ciphertext payload,
      buf = magic ++ [envelopeVersion] ++ ciphertext ∧ O.eciesDecrypt ciphertext = .ok payload ∧
      O.fromSlice payload = .ok record ∧ record.recordVersion = recordVersion := by
  constructor
  · intro h
    unfold unsealFromBytes at h
    split at h
    · cases h
    · next hmagic =>
      rw [not_or, not_not] at hmagic
      split at h
      · cases h
      · next henvelope =>
        split at h
        · cases h
        · next payload hpayload =>
          obtain ⟨opened, hopened, h⟩ := bind_eq_ok.mp h
          rw [mapError_eq_ok] at hopened
          by_cases hversion : opened.recordVersion = recordVersion
          · rw [if_neg (not_not.mpr hversion)] at h
            cases h
            refine ⟨buf.drop 5, payload, ?_, hpayload, hopened, hversion⟩
            have hlen : 4 < buf.length := by omega
            have hfourth : buf[4] = envelopeVersion := by
              rw [not_not, List.getD_eq_getElem?_getD, List.getElem?_eq_getElem hlen,
                Option.getD_some] at henvelope
              exact henvelope
            calc buf = buf.take 4 ++ buf.drop 4 := (List.take_append_drop 4 buf).symm
              _ = magic ++ (envelopeVersion :: buf.drop 5) := by
                rw [hmagic.2, List.drop_eq_getElem_cons hlen, hfourth]
              _ = magic ++ [envelopeVersion] ++ buf.drop 5 := by simp
          · rw [if_pos hversion] at h
            cases h
  · rintro ⟨ciphertext, payload, rfl, hpayload, hrecord, hversion⟩
    simp [unsealFromBytes, magic, envelopeVersion, hpayload, hrecord, hversion, pure, Except.pure]

/-- The texts that open to a record: the others give no record or an error. -/
theorem unsealB64_eq_some {L : SealLib} (hL : L.Standard) {privkey : Bytes} {s : String}
    {record : SealedShareV1} : unsealB64 (L.ops privkey) s = .ok (some record) ↔
      ∃ ciphertext payload,
        Base64Url.decode (trim s).toList = some (magic ++ [envelopeVersion] ++ ciphertext) ∧
        L.decrypt privkey ciphertext = .ok payload ∧ L.fromSlice payload = .ok record ∧
        record.recordVersion = recordVersion := by
  have hdecode : (L.ops privkey).decodeBase64 (trim s) = Base64Url.decode (trim s).toList :=
    hL.decodeBase64_eq _
  by_cases hblank : isBlank s = true
  · have hnil : (trim s).toList = [] := by
      rw [isBlank, String.isEmpty_iff] at hblank
      rw [hblank]
      rfl
    rw [unsealB64, if_pos hblank, hnil]
    constructor
    · intro h
      cases h
    · rintro ⟨ciphertext, payload, hblob, -⟩
      cases hblob
  · rw [unsealB64, if_neg hblank, hdecode]
    cases hbuf : Base64Url.decode (trim s).toList with
    | none =>
      constructor
      · intro h
        cases h
      · rintro ⟨ciphertext, payload, hblob, -⟩
        cases hblob
    | some buf =>
      simp only [Option.some.injEq]
      exact unsealFromBytes_eq_some

-- ════════════════════════════════════════════════════════════════════════
-- Round trip
-- ════════════════════════════════════════════════════════════════════════

theorem isWhitespace_digit {n : ℕ} (h : n < 64) : isWhitespace (Base64Url.digit n) = false := by
  revert n
  decide

theorem solid_encode {blob : Bytes} (h : blob ≠ []) :
    Solid (String.ofList (Base64Url.encode blob)) where
  ne_nil := by
    rw [String.toList_ofList]
    exact Base64Url.encode_ne_nil h
  isWhitespace_eq := by
    intro c hc
    rw [String.toList_ofList] at hc
    obtain ⟨n, hn, rfl⟩ := Base64Url.exists_digit_of_mem_encode hc
    exact isWhitespace_digit hn

/-- What sealing returns. -/
theorem exists_sealB64 {L : SealLib} (hL : L.Standard) {pubkey privkey : Bytes}
    (hkeys : L.KeyPair pubkey privkey) (randomness : Bytes) (record : SealedShareV1) :
    ∃ ciphertext, L.decrypt privkey ciphertext = .ok (recordBytes record) ∧
      sealB64 L randomness pubkey record = .ok (String.ofList (Base64Url.encode
        (magic ++ [envelopeVersion] ++ ciphertext))) := by
  obtain ⟨ciphertext, hciphertext⟩ := hkeys.encrypt_ok randomness (recordBytes record)
  refine ⟨ciphertext, (hkeys.decrypt_eq_ok ..).mpr ⟨randomness, hciphertext⟩, ?_⟩
  simp only [sealB64, sealToBytes, hL.toVec_eq, mapError_ok, ok_bind, hciphertext,
    ← hL.encodeBase64_eq]
  rfl

/-- For every record of `new` and every key pair: the sealed text opens to the record, also with
    white space around it and after it went through a file. Every text opens only to the record in
    the blob that it spells, and no blob is read out of its range. -/
theorem seal_round_trip {L : SealLib} (hL : L.Standard) {pubkey privkey : Bytes}
    (hkeys : L.KeyPair pubkey privkey) :
    (∀ (shardIndex : UInt32) (epoch : UInt64) (masterId share : ByteVec) (randomness : Bytes),
      ∃ b64, sealB64 L randomness pubkey (.new shardIndex epoch masterId share) = .ok b64 ∧
        (∀ before after : String, (∀ c ∈ before.toList, isWhitespace c = true) →
          (∀ c ∈ after.toList, isWhitespace c = true) →
          unsealB64 (L.ops privkey) (before ++ b64 ++ after) =
            .ok (some (.new shardIndex epoch masterId share))) ∧
        ∀ (files : Files) (fate : BlobFate) (path : String),
          (writeBlobFile files fate path b64).2 = .ok () →
          ∃ loaded, readBlobFile (onDisk (writeBlobFile files fate path b64).1 none) path =
              .ok (some loaded) ∧
            unsealB64 (L.ops privkey) loaded =
              .ok (some (.new shardIndex epoch masterId share))) ∧
    (∀ (s : String) (record : SealedShareV1), unsealB64 (L.ops privkey) s = .ok (some record) ↔
      ∃ ciphertext payload,
        Base64Url.decode (trim s).toList = some (magic ++ [envelopeVersion] ++ ciphertext) ∧
        L.decrypt privkey ciphertext = .ok payload ∧ L.fromSlice payload = .ok record ∧
        record.recordVersion = recordVersion) ∧
    ∀ buf, unsealFromBytesChecked (L.ops privkey) buf =
      some (unsealFromBytes (L.ops privkey) buf) := by
  refine ⟨?_, fun s record => unsealB64_eq_some hL, unsealFromBytesChecked_eq _⟩
  intro shardIndex epoch masterId share randomness
  obtain ⟨ciphertext, hdecrypt, hseal⟩ := exists_sealB64 hL hkeys randomness
    (.new shardIndex epoch masterId share)
  have hsolid : Solid (String.ofList (Base64Url.encode
      (magic ++ [envelopeVersion] ++ ciphertext))) := solid_encode (by simp [magic])
  have hrecord : L.fromSlice (recordBytes (.new shardIndex epoch masterId share)) =
      .ok (.new shardIndex epoch masterId share) := by
    apply hL.fromSlice_of_read
    have hread := reads_record _ (SealedShareV1.fits_new shardIndex epoch masterId share) []
    rwa [List.append_nil] at hread
  have hopens : ∀ text, trim text = String.ofList (Base64Url.encode
      (magic ++ [envelopeVersion] ++ ciphertext)) →
      unsealB64 (L.ops privkey) text = .ok (some (.new shardIndex epoch masterId share)) := by
    intro text htrim
    refine (unsealB64_eq_some hL).mpr ⟨ciphertext, _, ?_, hdecrypt, hrecord, rfl⟩
    rw [htrim, String.toList_ofList, Base64Url.decode_encode]
  refine ⟨_, hseal, ?_, ?_⟩
  · intro before after hbefore hafter
    exact hopens _ (hsolid.trim_padded before after hbefore hafter)
  · intro files fate path hwritten
    refine ⟨_, readBlobFile_utf8 hsolid ?_, hopens _ hsolid.trim_eq⟩
    rw [writeBlobFile_path, hwritten]

/-- The standard codecs, and an envelope that shows the key it was made for. -/
def plainLib : SealLib where
  encodeBase64 bytes := String.ofList (Base64Url.encode bytes)
  decodeBase64 s := Base64Url.decode s.toList
  toVec record := .ok (recordBytes record)
  fromSlice bytes := ((okOr (readRecord bytes) "unexpected end of file").map Prod.fst)
  encrypt _ pubkey plaintext := .ok (pubkey ++ plaintext)
  decrypt privkey ciphertext :=
    if privkey <+: ciphertext then .ok (ciphertext.drop privkey.length) else .error "invalid key"

theorem plainLib_standard : plainLib.Standard where
  encodeBase64_eq _ := rfl
  decodeBase64_eq _ := rfl
  toVec_eq _ := rfl
  fromSlice_of_read bytes record h := by simp only [plainLib, h, okOr_some, Except.map]
  read_of_fromSlice bytes record h := by
    simp only [plainLib] at h
    cases hread : readRecord bytes with
    | none =>
      rw [hread] at h
      cases h
    | some result =>
      rw [hread] at h
      cases h
      exact ⟨result.2, rfl⟩

theorem plainLib_keyPair (key : Bytes) : plainLib.KeyPair key key where
  encrypt_ok _ plaintext := ⟨key ++ plaintext, rfl⟩
  decrypt_eq_ok ciphertext plaintext := by
    constructor
    · intro h
      simp only [plainLib] at h
      split at h
      · next hprefix =>
        cases h
        exact ⟨[], congrArg Except.ok (List.prefix_iff_eq_append.mp hprefix)⟩
      · cases h
    · rintro ⟨_, h⟩
      cases h
      simp [plainLib]

/-- A record of the tests, in text with white space around it. -/
theorem seal_round_trip_plain : ∃ b64,
    sealB64 plainLib [9] [7] (.new 3 7 ⟨[0xAA, 0xAA], by decide⟩ ⟨[0x11], by decide⟩) = .ok b64 ∧
      unsealB64 (plainLib.ops [7]) (" \n" ++ b64 ++ "\t") =
        .ok (some (.new 3 7 ⟨[0xAA, 0xAA], by decide⟩ ⟨[0x11], by decide⟩)) := by
  obtain ⟨b64, hseal, hopens, -⟩ := (seal_round_trip plainLib_standard (plainLib_keyPair [7])).1
    3 7 ⟨[0xAA, 0xAA], by decide⟩ ⟨[0x11], by decide⟩ [9]
  have hblank : ∀ text : String, text.toList.all isWhitespace = true →
      ∀ c ∈ text.toList, isWhitespace c = true := fun text => List.all_eq_true.mp
  exact ⟨b64, hseal, hopens " \n" "\t" (hblank _ rfl) (hblank _ rfl)⟩

end KmsCluster.Seal

import SecureDeltaOta.Container.Readers
import SecureDeltaOta.Memory.Struct

/-!
# The container readers agree

The bootloader reads the header at offsets, the Python programs unpack it; the
two formats lay out the same fields (`unpackFrom_fixed`, `unpackFrom_extension`).
So what the packer wrote is what each reader finds, and a header that the
bootloader accepts has no bits beside the fields it reports.
-/

namespace SecureDeltaOta

open Memory FirmwareContainer
open Python (Value pack unpackFrom)

/-! ## The layout -/

theorem le32_readLe32 {l : List UInt8} {o : Nat} (h : o + 4 ≤ l.length) :
    le32 (readLe32 l o) = (l.drop o).take 4 := by
  rw [readLe32, le32_ofLe32, take_drop_eq h]
  rfl

theorem le16_readLe16 {l : List UInt8} {o : Nat} (h : o + 2 ≤ l.length) :
    le16 (readLe16 l o) = (l.drop o).take 2 := by
  rw [readLe16, le16_ofLe16, take_drop_eq h]
  rfl

namespace FirmwareContainer

/-- The header layout: 120 fixed bytes and the extension. -/
def encode (h : Header) (e : Extension) : List UInt8 :=
  le32 h.magic ++ le16 h.formatVersion ++ le16 h.headerSize ++ le32 h.productId ++
    le32 h.hardwareRevision ++ le32 h.imageType ++ le32 h.flags ++ le32 h.baseVersion ++
    le32 h.targetVersion ++ le32 h.payloadSize ++ le32 h.targetImageSize ++
    le32 h.targetLoadAddress ++ h.baseImageSha256 ++ h.targetImageSha256 ++
    le32 h.payloadCrc32 ++ le16 h.hashAlgorithm ++ le16 h.signatureAlgorithm ++
    le16 h.signatureSize ++ le16 h.reserved ++ le32 e.extensionMagic ++
    le16 e.extensionVersion ++ le16 e.extensionSize ++ le32 e.keyId ++ le32 e.baseImageSize ++
    le32 e.targetImageCrc32

/-- The fields of a header determine its bytes. -/
theorem encode_decode {raw : List UInt8} (h : raw.length = headerSize) :
    encode (decodeFixed raw) (decodeExtension raw) = raw := by
  have hlength : raw.length = 140 := h
  have h32 (o : Nat) (ho : o + 4 ≤ 140) : le32 (getU32Le raw o) = (raw.drop o).take 4 :=
    le32_readLe32 (by omega)
  have h16 (o : Nat) (ho : o + 2 ≤ 140) : le16 (getU16Le raw o) = (raw.drop o).take 2 :=
    le16_readLe16 (by omega)
  unfold encode decodeFixed decodeExtension fixedHeaderSize sha256Size
  -- the windows of the fields follow each other from the start to the end
  simp (disch := omega) only [h32, h16, List.drop_zero, ← List.take_add, Nat.reduceAdd]
  rw [← hlength, List.take_length]

end FirmwareContainer

/-- The fixed part of a header, as the Python programs unpack it. -/
def fixedFields (h : Header) : List Value :=
  [.int h.magic.toNat, .int h.formatVersion.toNat, .int h.headerSize.toNat,
    .int h.productId.toNat, .int h.hardwareRevision.toNat, .int h.imageType.toNat,
    .int h.flags.toNat, .int h.baseVersion.toNat, .int h.targetVersion.toNat,
    .int h.payloadSize.toNat, .int h.targetImageSize.toNat, .int h.targetLoadAddress.toNat,
    .bytes h.baseImageSha256, .bytes h.targetImageSha256, .int h.payloadCrc32.toNat,
    .int h.hashAlgorithm.toNat, .int h.signatureAlgorithm.toNat, .int h.signatureSize.toNat,
    .int h.reserved.toNat]

def extensionFields (e : Extension) : List Value :=
  [.int e.extensionMagic.toNat, .int e.extensionVersion.toNat, .int e.extensionSize.toNat,
    .int e.keyId.toNat, .int e.baseImageSize.toNat, .int e.targetImageCrc32.toNat]

theorem unpackFrom_fixed {raw : List UInt8} (h : 140 ≤ raw.length) :
    unpackFrom containerFixedFormat raw = some (fixedFields (decodeFixed raw)) := by
  rw [← List.drop_zero (l := raw), containerFixedFormat]
  rw [unpackFrom_le32 (by omega), unpackFrom_le16 (by omega), unpackFrom_le16 (by omega),
    unpackFrom_le32 (by omega), unpackFrom_le32 (by omega), unpackFrom_le32 (by omega),
    unpackFrom_le32 (by omega), unpackFrom_le32 (by omega), unpackFrom_le32 (by omega),
    unpackFrom_le32 (by omega), unpackFrom_le32 (by omega), unpackFrom_le32 (by omega),
    unpackFrom_bytes (by omega), unpackFrom_bytes (by omega), unpackFrom_le32 (by omega),
    unpackFrom_le16 (by omega), unpackFrom_le16 (by omega), unpackFrom_le16 (by omega),
    unpackFrom_le16 (by omega)]
  rfl

theorem unpackFrom_extension {raw : List UInt8} (h : 140 ≤ raw.length) :
    unpackFrom containerExtensionFormat (raw.drop 120) =
      some (extensionFields (decodeExtension raw)) := by
  rw [containerExtensionFormat, unpackFrom_le32 (by omega), unpackFrom_le16 (by omega),
    unpackFrom_le16 (by omega), unpackFrom_le32 (by omega), unpackFrom_le32 (by omega),
    unpackFrom_le32 (by omega)]
  rfl

/-! ## The gateway -/

/-- The fields that the gateway reports of a header. -/
def metaOf (h : Header) (e : Extension) : SecureContainerMeta where
  imageType := h.imageType.toUInt8
  baseVersion := h.baseVersion
  targetVersion := h.targetVersion
  payloadSize := h.payloadSize
  targetSize := h.targetImageSize
  keyId := e.keyId

/-- What the bootloader accepts the gateway accepts, if a delta goes to a later version. -/
theorem meta_parse_of_wellFormed {raw : List UInt8} (hlength : 140 ≤ raw.length)
    (hw : WellFormed (decodeFixed raw) (decodeExtension raw))
    (hversions : (decodeFixed raw).imageType = imageDelta →
      (decodeFixed raw).baseVersion < (decodeFixed raw).targetVersion)
    {containerSize : UInt32}
    (hsize : containerSize.toNat = (infoOf (decodeFixed raw) (decodeExtension raw)).totalSize) :
    SecureContainerMeta.parse raw containerSize =
      some (metaOf (decodeFixed raw) (decodeExtension raw)) := by
  have hfixed : ¬ (readLe32 raw 0 ≠ SecureContainerMeta.magic ∨
      readLe16 raw 4 ≠ SecureContainerMeta.formatVersion ∨
      (readLe16 raw 6).toNat ≠ SecureContainerMeta.headerSize ∨
      readLe32 raw 8 ≠ SecureContainerMeta.productId ∨
      readLe32 raw 12 ≠ SecureContainerMeta.hwRevision ∨
      readLe32 raw 120 ≠ SecureContainerMeta.extMagic ∨
      readLe16 raw 124 ≠ 1 ∨ readLe16 raw 126 ≠ 20 ∨ readLe16 raw 112 ≠ 1 ∨
      readLe16 raw 114 ≠ 1) := by
    simp only [ne_eq, not_or, not_not]
    exact ⟨hw.magic, hw.formatVersion, hw.headerSize, hw.productId, hw.hardwareRevision,
      hw.extensionMagic, hw.extensionVersion, UInt16.toNat_inj.1 hw.extensionSize,
      hw.hashAlgorithm, hw.signatureAlgorithm⟩
  have htype : ¬ ((readLe32 raw 16).toUInt8 ≠ SecureContainerMeta.imageFull ∧
      (readLe32 raw 16).toUInt8 ≠ SecureContainerMeta.imageDelta) := by
    rintro ⟨hfull, hdelta⟩
    rcases hw.imageType with h | h
    · exact hfull (congrArg UInt32.toUInt8 h)
    · exact hdelta (congrArg UInt32.toUInt8 h)
  have hfull : ¬ ((readLe32 raw 16).toUInt8 = SecureContainerMeta.imageFull ∧
      (readLe32 raw 24 ≠ 0 ∨ readLe32 raw 132 ≠ 0)) := by
    rintro ⟨htype, hbase⟩
    rcases hw.imageType with h | h
    · obtain ⟨hversion, hbaseSize, -⟩ := hw.full h
      exact hbase.elim (absurd hversion) (absurd hbaseSize)
    · have htype' : imageDelta.toUInt8 = SecureContainerMeta.imageFull :=
        (congrArg UInt32.toUInt8 h).symm.trans htype
      exact absurd htype' (by decide)
  have hdelta : ¬ ((readLe32 raw 16).toUInt8 ≠ SecureContainerMeta.imageFull ∧
      (readLe32 raw 24 = 0 ∨ readLe32 raw 28 ≤ readLe32 raw 24 ∨ readLe32 raw 132 < 8)) := by
    rintro ⟨htype, hbase⟩
    rcases hw.imageType with h | h
    · exact htype (congrArg UInt32.toUInt8 h)
    · obtain ⟨hversion, hbaseSize, -⟩ := hw.delta h
      rcases hbase with hbase | hbase | hbase
      · exact hversion hbase
      · exact absurd (hversions h) (UInt32.not_lt.2 hbase)
      · exact eight_le_iff.2 hbaseSize hbase
  have haddress : ¬ (readLe32 raw 40 ≠ 0x08006000 ∨
      (readLe16 raw 116).toNat ≠ SecureContainerMeta.containerSignatureSize ∨
      readLe32 raw 128 = 0) := by
    simp only [ne_eq, not_or, not_not]
    exact ⟨UInt32.toNat_inj.1 hw.targetLoadAddress, hw.signatureSize, hw.keyId⟩
  have htotal : ¬ (SecureContainerMeta.headerSize + (readLe32 raw 32).toNat +
      (readLe16 raw 116).toNat ≠ containerSize.toNat) := by
    rw [hsize, show (readLe16 raw 116).toNat = _ from hw.signatureSize]
    exact fun h => h rfl
  have hshort : ¬ raw.length < SecureContainerMeta.headerSize := Nat.not_lt.2 hlength
  rw [SecureContainerMeta.parse, if_neg hshort, if_neg hfixed]
  dsimp only
  rw [if_neg htype, if_neg (show ¬ readLe32 raw 28 = 0 from hw.targetVersion), if_neg hfull,
    if_neg hdelta, if_neg haddress, if_neg htotal]
  rfl

/-! ## The packer -/

theorem hashIsZero_iff {hash : List UInt8} (hlength : hash.length = 32) :
    hashIsZero hash = true ↔ hash = List.replicate 32 0 := by
  have hfold (acc : UInt8) (l : List UInt8) :
      l.foldl (· ||| ·) acc = 0 ↔ acc = 0 ∧ ∀ b ∈ l, b = 0 := by
    induction l generalizing acc with
    | nil => simp
    | cons b l ih => simp [ih, and_assoc]
  rw [hashIsZero, decide_eq_true_iff, hfold, List.eq_replicate_iff]
  exact ⟨fun h => ⟨hlength, h.2⟩, fun h => ⟨rfl, h.2⟩⟩

theorem eq_of_int32 {w v : UInt32} {x : Int} (h : (w.toNat : Int) = x) (hv : x = v.toNat) :
    w = v :=
  UInt32.toNat_inj.1 (Int.ofNat_inj.1 (h.trans hv))

theorem eq_of_int16 {w v : UInt16} {x : Int} (h : (w.toNat : Int) = x) (hv : x = v.toNat) :
    w = v :=
  UInt16.toNat_inj.1 (Int.ofNat_inj.1 (h.trans hv))

namespace ContainerTool

/-- The hash and the size that the header gives for the base. -/
def baseHashOf (a : PackArguments) : List UInt8 := a.base.elim (List.replicate 32 0) sha256

def baseSizeOf (a : PackArguments) : Nat := a.base.elim 0 List.length

/-- What the packer has checked about the image type and its base. -/
inductive BaseChecked (a : PackArguments) : Prop where
  | full (imageType : a.imageType = IMAGE_FULL) (base : a.base = none)
      (version : a.baseVersion = 0) (payload : a.payload = a.target)
  | delta {image : List UInt8} (imageType : a.imageType = IMAGE_DELTA) (base : a.base = some image)
      (size : 8 ≤ image.length ∧ image.length ≤ APP_MAX) (version : 0 < a.baseVersion)
      (later : a.baseVersion < a.targetVersion)

/-- What the packer has checked when it returns a header. -/
structure Packed (a : PackArguments) (header : List UInt8) : Prop where
  keyId : 0 < a.keyId
  targetVersion : 0 < a.targetVersion
  targetSize : 8 ≤ a.target.length ∧ a.target.length ≤ APP_MAX
  base : BaseChecked a
  fields : ∃ fixed extension,
    pack containerFixedFormat (fixedValues a (baseHashOf a)) = some fixed ∧
    pack containerExtensionFormat (extensionValues a (baseSizeOf a)) = some extension ∧
    header = fixed ++ extension

theorem validateApplication_size {image : List UInt8} {label : String}
    (h : validateApplication image label = .ok ()) : 8 ≤ image.length ∧ image.length ≤ APP_MAX := by
  by_contra hsize
  rw [validateApplication, if_pos hsize] at h
  cases h

theorem baseFields_ok {a : PackArguments} {fields : List UInt8 × Nat}
    (h : baseFields a = .ok fields) :
    BaseChecked a ∧ fields = (baseHashOf a, baseSizeOf a) := by
  unfold baseFields at h
  split at h
  · next hfull =>
    split at h
    · cases h
    · next hbase =>
      split at h
      · cases h
      · next hpayload =>
        simp only [ne_eq, not_or, not_not] at hbase hpayload
        cases h
        exact ⟨.full hfull hbase.1 hbase.2 hpayload, by simp [baseHashOf, baseSizeOf, hbase.1]⟩
  · split at h
    · next hdelta =>
      split at h
      · cases h
      · next base hbase =>
        split at h
        · cases h
        · next hvalid =>
          split at h
          · cases h
          · next hversions =>
            cases h
            refine ⟨.delta hdelta hbase (validateApplication_size hvalid) ?_ ?_, ?_⟩
            · omega
            · omega
            · simp [baseHashOf, baseSizeOf, hbase]
    · cases h

theorem packHeader_ok {a : PackArguments} {header : List UInt8} (h : packHeader a = .ok header) :
    Packed a header := by
  unfold packHeader at h
  split at h
  · cases h
  · next hkey =>
    split at h
    · cases h
    · next hversion =>
      split at h
      · cases h
      · next htarget =>
        split at h
        · cases h
        · next baseHash baseSize hfields =>
          obtain ⟨hbase, heq⟩ := baseFields_ok hfields
          cases heq
          split at h
          · next fixed extension hfixed hextension =>
            dsimp only at h
            split at h
            · cases h
            · cases h
              exact ⟨by omega, by omega, validateApplication_size htarget, hbase, fixed, extension,
                hfixed, hextension, rfl⟩
          · cases h

theorem baseHashOf_length (a : PackArguments) : (baseHashOf a).length = 32 := by
  unfold baseHashOf
  cases a.base with
  | none => rfl
  | some base => exact Sha256.final_length _

section Packed

variable {a : PackArguments} {header : List UInt8}

theorem Packed.length (h : Packed a header) : header.length = 140 := by
  obtain ⟨fixed, extension, hfixed, hextension, rfl⟩ := h.fields
  rw [List.length_append, Python.pack_length hfixed, Python.pack_length hextension]
  rfl

theorem Packed.unpackFrom_fixed (h : Packed a header) (rest : List UInt8) :
    unpackFrom containerFixedFormat (header ++ rest) = some (fixedValues a (baseHashOf a)) := by
  obtain ⟨fixed, extension, hfixed, -, rfl⟩ := h.fields
  have hexact : List.Forall₂ (fun f v => Value.Exact f v) containerFixedFormat
      (fixedValues a (baseHashOf a)) :=
    .cons trivial <| .cons trivial <| .cons trivial <| .cons trivial <| .cons trivial <|
      .cons trivial <| .cons trivial <| .cons trivial <| .cons trivial <| .cons trivial <|
      .cons trivial <| .cons trivial <| .cons (baseHashOf_length a) <|
      .cons (Sha256.final_length _) <| .cons trivial <| .cons trivial <| .cons trivial <|
      .cons trivial <| .cons trivial .nil
  rw [List.append_assoc]
  exact Python.unpackFrom_pack hexact hfixed (extension ++ rest)

theorem Packed.unpackFrom_extension (h : Packed a header) (rest : List UInt8) :
    unpackFrom containerExtensionFormat ((header ++ rest).drop 120) =
      some (extensionValues a (baseSizeOf a)) := by
  obtain ⟨fixed, extension, hfixed, hextension, rfl⟩ := h.fields
  have hexact : List.Forall₂ (fun f v => Value.Exact f v) containerExtensionFormat
      (extensionValues a (baseSizeOf a)) :=
    .cons trivial <| .cons trivial <| .cons trivial <| .cons trivial <| .cons trivial <|
      .cons trivial .nil
  have hlength : fixed.length = 120 := Python.pack_length hfixed
  rw [List.append_assoc, List.drop_left' hlength]
  exact Python.unpackFrom_pack hexact hextension rest

theorem Packed.fixedFields_eq (h : Packed a header) :
    fixedFields (decodeFixed header) = fixedValues a (baseHashOf a) := by
  have hunpack := h.unpackFrom_fixed []
  rw [List.append_nil, SecureDeltaOta.unpackFrom_fixed (Nat.le_of_eq h.length.symm)] at hunpack
  exact Option.some.inj hunpack

theorem Packed.extensionFields_eq (h : Packed a header) :
    extensionFields (decodeExtension header) = extensionValues a (baseSizeOf a) := by
  have hunpack := h.unpackFrom_extension []
  rw [List.append_nil, SecureDeltaOta.unpackFrom_extension (Nat.le_of_eq h.length.symm)]
    at hunpack
  exact Option.some.inj hunpack

/-- The bootloader's checks hold of a packed header. -/
theorem Packed.wellFormed (h : Packed a header)
    (hpayload : 1 ≤ a.payload.length ∧ a.payload.length ≤ 0x20000 - 204)
    (hhash : ∀ base, a.base = some base → sha256 base ≠ List.replicate 32 0) :
    WellFormed (decodeFixed header) (decodeExtension header) := by
  have hfixed := h.fixedFields_eq
  have hextension := h.extensionFields_eq
  simp only [fixedFields, fixedValues, List.cons.injEq, Value.int.injEq, Value.bytes.injEq,
    and_true] at hfixed
  simp only [extensionFields, extensionValues, List.cons.injEq, Value.int.injEq, and_true]
    at hextension
  obtain ⟨hmagic, hformat, hsize, hproduct, hhardware, htype, hflags, hbaseVersion,
    htargetVersion, hpayloadSize, htargetSize, haddress, hbaseHash, htargetHash, hcrc,
    hhashAlgorithm, hsignature, hsignatureSize, hreserved⟩ := hfixed
  obtain ⟨hextMagic, hextVersion, hextSize, hkey, hbaseSize, htargetCrc⟩ := hextension
  have hkeyId := h.keyId
  have htarget := h.targetVersion
  have hsizes := h.targetSize
  have hmax : APP_MAX = 38912 := rfl
  have hzero (w : UInt32) (hw : w = 0) : w.toNat = 0 := congrArg UInt32.toNat hw
  have hlength : (decodeFixed header).baseImageSha256.length = 32 :=
    hbaseHash ▸ baseHashOf_length a
  exact
    { magic := eq_of_int32 hmagic rfl
      formatVersion := eq_of_int16 hformat rfl
      headerSize := Int.ofNat_inj.1 hsize
      productId := eq_of_int32 hproduct rfl
      hardwareRevision := eq_of_int32 hhardware rfl
      imageType := by
        cases h.base with
        | full himage => exact .inl (eq_of_int32 (htype.trans himage) rfl)
        | delta himage => exact .inr (eq_of_int32 (htype.trans himage) rfl)
      flags := eq_of_int32 hflags rfl
      targetVersion := fun hw => by
        have := hzero _ hw
        omega
      payloadSize_pos := fun hw => by
        have := hzero _ hw
        omega
      payloadSize_le := by
        change _ ≤ 0x20000 - 140 - 64
        omega
      targetSize_ge := by omega
      targetSize_le := by
        change _ ≤ 38912
        omega
      targetLoadAddress := Int.ofNat_inj.1 haddress
      hashAlgorithm := eq_of_int16 hhashAlgorithm rfl
      signatureAlgorithm := eq_of_int16 hsignature rfl
      signatureSize := Int.ofNat_inj.1 hsignatureSize
      reserved := eq_of_int16 hreserved rfl
      extensionMagic := eq_of_int32 hextMagic rfl
      extensionVersion := eq_of_int16 hextVersion rfl
      extensionSize := Int.ofNat_inj.1 hextSize
      keyId := fun hw => by
        have := hzero _ hw
        omega
      full := fun hfull => by
        cases h.base with
        | full himage hbase hversion hpayload =>
            have hbaseSize' : baseSizeOf a = 0 := by simp [baseSizeOf, hbase]
            refine ⟨eq_of_int32 (hbaseVersion.trans hversion) rfl, ?_, ?_, ?_⟩
            · exact eq_of_int32 hbaseSize (by rw [hbaseSize']; rfl)
            · rw [hashIsZero_iff hlength, hbaseHash, baseHashOf, hbase]
              rfl
            · exact eq_of_int32 hpayloadSize (by rw [hpayload, htargetSize])
        | delta himage =>
            have : (decodeFixed header).imageType = imageDelta :=
              eq_of_int32 (htype.trans himage) rfl
            exact absurd (this.symm.trans hfull) (by decide)
      delta := fun hdelta => by
        cases h.base with
        | full himage =>
            have : (decodeFixed header).imageType = imageFull :=
              eq_of_int32 (htype.trans himage) rfl
            exact absurd (this.symm.trans hdelta) (by decide)
        | @delta image himage hbase hbaseLength hversion hlater =>
            have hbaseSize' : baseSizeOf a = image.length := by simp [baseSizeOf, hbase]
            refine ⟨fun hw => ?_, by omega, ?_, ?_⟩
            · have := hzero _ hw
              omega
            · change _ ≤ 38912
              omega
            · rw [Bool.eq_false_iff, Ne, hashIsZero_iff hlength, hbaseHash, baseHashOf, hbase]
              exact hhash image hbase }

/-- What the server reports of a container with the given arguments. -/
def sdotOf (a : PackArguments) (container : List UInt8) : SdotInfo where
  imageType := a.imageType
  productId := PRODUCT_ID
  hardwareRevision := HARDWARE_REVISION
  baseVersion := a.baseVersion
  targetVersion := a.targetVersion
  payloadSize := a.payload.length
  targetSize := a.target.length
  targetAddress := APP_ADDRESS
  baseSha256 := Python.hexBytes (baseHashOf a)
  targetSha256 := Python.hexBytes (sha256 a.target)
  payloadCrc32 := crc32 a.payload
  keyId := a.keyId
  baseSize := baseSizeOf a
  targetCrc32 := crc32 a.target
  signatureSize := SIG_SIZE
  containerSize := container.length
  containerCrc32 := crc32 container
  containerSha256 := Python.hexBytes (sha256 container)

theorem Packed.check_eq_none (h : Packed a header) :
    Sdot.check MAGIC FORMAT_VERSION HEADER_SIZE a.imageType a.baseVersion a.targetVersion
      APP_ADDRESS HASH_SHA256 SIG_ECDSA_P256 SIG_SIZE EXT_MAGIC EXT_VERSION EXT_SIZE = none := by
  have htarget := h.targetVersion
  unfold Sdot.check
  iterate 8 rw [if_neg (by decide)]
  cases h.base with
  | full himage hbase hversion hpayload =>
      rw [himage, hversion, if_neg (by decide), if_neg (by omega), if_neg (by decide),
        if_neg (fun h => absurd h.1 (by decide)), if_neg (by decide)]
  | delta himage hbase hbaseLength hversion hlater =>
      have hversions : ¬ (a.baseVersion ≤ 0 ∨ a.targetVersion ≤ a.baseVersion) := by omega
      rw [himage, if_neg (by decide), if_neg (by omega), if_neg (fun h => absurd h.1 (by decide)),
        if_neg (fun h => hversions h.2), if_neg (by decide)]

theorem Packed.checkKey_eq_none (h : Packed a header) :
    Sdot.checkKey a.imageType a.keyId (baseSizeOf a) = none := by
  have hkey := h.keyId
  unfold Sdot.checkKey
  rw [if_neg (by omega)]
  cases h.base with
  | full himage hbase hversion hpayload =>
      have hbaseSize : baseSizeOf a = 0 := by simp [baseSizeOf, hbase]
      rw [himage, hbaseSize, if_neg (by decide), if_neg (by decide)]
  | @delta image himage hbase hbaseLength hversion hlater =>
      have hbaseSize : baseSizeOf a = image.length := by simp [baseSizeOf, hbase]
      rw [himage, hbaseSize, if_neg (fun h => absurd h.1 (by decide)), if_neg (by omega)]

theorem Packed.sdot_parse (h : Packed a header) {signature : List UInt8}
    (hsignature : signature.length = 64) :
    Sdot.parse (header ++ a.payload ++ signature) =
      .ok (sdotOf a (header ++ a.payload ++ signature)) := by
  have hlength := h.length
  have hshort : ¬ (header ++ a.payload ++ signature).length <
      Sdot.HEADER_SIZE + Sdot.SIGNATURE_SIZE := by
    simp only [List.length_append, Sdot.HEADER_SIZE, Sdot.SIGNATURE_SIZE]
    omega
  have hfixed := h.unpackFrom_fixed (a.payload ++ signature)
  have hextension := h.unpackFrom_extension (a.payload ++ signature)
  rw [← List.append_assoc] at hfixed hextension
  have htotal : ¬ ((HEADER_SIZE : Nat) : Int) + a.payload.length + (SIG_SIZE : Nat) ≠
      (header ++ a.payload ++ signature).length := by
    simp only [List.length_append, HEADER_SIZE, FIXED_HEADER_SIZE, EXT_SIZE, SIG_SIZE]
    omega
  have hpayload : ((header ++ a.payload ++ signature).take
      (((HEADER_SIZE : Nat) : Int) + a.payload.length).toNat).drop
        ((HEADER_SIZE : Nat) : Int).toNat = a.payload := by
    have hto : (((HEADER_SIZE : Nat) : Int) + a.payload.length).toNat =
        (header ++ a.payload).length := by
      simp only [List.length_append, HEADER_SIZE, FIXED_HEADER_SIZE, EXT_SIZE]
      omega
    rw [hto, List.take_left]
    exact List.drop_left' hlength
  rw [Sdot.parse, if_neg hshort, hfixed, show Sdot.FIXED_HEADER_SIZE = 120 from rfl, hextension]
  simp only [fixedValues, extensionValues, h.check_eq_none, h.checkKey_eq_none, hpayload]
  rw [if_neg htotal, if_neg (fun hcrc => hcrc rfl)]
  rfl

/-- What the gateway reports of a packed header. -/
theorem Packed.meta_fields (h : Packed a header) :
    let info := metaOf (decodeFixed header) (decodeExtension header)
    (info.imageType.toNat : Int) = a.imageType ∧ (info.baseVersion.toNat : Int) = a.baseVersion ∧
      (info.targetVersion.toNat : Int) = a.targetVersion ∧
      info.payloadSize.toNat = a.payload.length ∧ info.targetSize.toNat = a.target.length ∧
      (info.keyId.toNat : Int) = a.keyId := by
  have hfixed := h.fixedFields_eq
  have hextension := h.extensionFields_eq
  simp only [fixedFields, fixedValues, List.cons.injEq, Value.int.injEq, Value.bytes.injEq,
    and_true] at hfixed
  simp only [extensionFields, extensionValues, List.cons.injEq, Value.int.injEq, and_true]
    at hextension
  obtain ⟨-, -, -, -, -, htype, -, hbaseVersion, htargetVersion, hpayloadSize, htargetSize, -⟩ :=
    hfixed
  obtain ⟨-, -, -, hkey, -⟩ := hextension
  refine ⟨?_, hbaseVersion, htargetVersion, Int.ofNat_inj.1 hpayloadSize,
    Int.ofNat_inj.1 htargetSize, hkey⟩
  have himage : a.imageType = 1 ∨ a.imageType = 2 := by
    cases h.base with
    | full himage => exact .inl himage
    | delta himage => exact .inr himage
  simp only [metaOf, UInt32.toNat_toUInt8]
  omega

end Packed

end ContainerTool
/-! ## The readers -/

section Readers

open ContainerTool

/-- A packed container is accepted by the bootloader, the gateway and the server, and each
reports what was packed. A header that the bootloader accepts is the encoding of the
fields it reports, its payload and signature fill the rest of the container, and the gateway
reads the same from it. -/
theorem container_readers_agree :
    (∀ (a : PackArguments) (header signature : List UInt8),
      packHeader a = .ok header → signature.length = 64 →
      1 ≤ a.payload.length → a.payload.length ≤ 0x20000 - 204 →
      (∀ base, a.base = some base → sha256 base ≠ List.replicate 32 0) →
      let container := header ++ a.payload ++ signature
      let size := UInt32.ofNat container.length
      (∃ info, FirmwareContainer.parse header size = .ok info ∧
        fixedFields info.header = fixedValues a (baseHashOf a) ∧
        extensionFields info.extension = extensionValues a (baseSizeOf a) ∧
        info.payloadOffset = header.length ∧
        info.signatureOffset = header.length + a.payload.length ∧
        info.totalSize = container.length) ∧
      (∃ info, SecureContainerMeta.parse header size = some info ∧
        (info.imageType.toNat : Int) = a.imageType ∧
        (info.baseVersion.toNat : Int) = a.baseVersion ∧
        (info.targetVersion.toNat : Int) = a.targetVersion ∧
        info.payloadSize.toNat = a.payload.length ∧ info.targetSize.toNat = a.target.length ∧
        (info.keyId.toNat : Int) = a.keyId) ∧
      Sdot.parse container = .ok (sdotOf a container)) ∧
    (∀ (raw : List UInt8) (size : UInt32) (info : Info),
      raw.length = headerSize → size ≠ 0 → FirmwareContainer.parse raw size = .ok info →
      encode info.header info.extension = raw ∧
      info.payloadOffset = headerSize ∧
      info.signatureOffset = info.payloadOffset + info.header.payloadSize.toNat ∧
      info.signatureOffset + info.header.signatureSize.toNat = size.toNat ∧
      size.toNat ≤ extIncomingSize ∧
      ((info.header.imageType = imageDelta →
          info.header.baseVersion < info.header.targetVersion) →
        ∃ gateway, SecureContainerMeta.parse raw size = some gateway ∧
          gateway.imageType.toNat = info.header.imageType.toNat ∧
          gateway.baseVersion = info.header.baseVersion ∧
          gateway.targetVersion = info.header.targetVersion ∧
          gateway.payloadSize = info.header.payloadSize ∧
          gateway.targetSize = info.header.targetImageSize ∧
          gateway.keyId = info.extension.keyId)) := by
  constructor
  · intro a header signature hpack hsignature hpayload hpayload' hhash container size
    have h := packHeader_ok hpack
    have hlength := h.length
    have hw := h.wellFormed ⟨hpayload, hpayload'⟩ hhash
    obtain ⟨htype, hbaseVersion, htargetVersion, hpayloadSize, htargetSize, hkey⟩ := h.meta_fields
    have hcontainer : container.length = 140 + a.payload.length + 64 := by
      simp only [container, List.length_append]
      omega
    have htotal : (infoOf (decodeFixed header) (decodeExtension header)).totalSize =
        container.length := by
      rw [hcontainer, ← hpayloadSize]
      rfl
    have hsize : size.toNat = container.length := by
      simp only [size, UInt32.toNat_ofNat']
      omega
    refine ⟨⟨infoOf (decodeFixed header) (decodeExtension header), ?_, h.fixedFields_eq,
      h.extensionFields_eq, hlength.symm, ?_, htotal⟩, ⟨_, ?_, htype, hbaseVersion,
      htargetVersion, hpayloadSize, htargetSize, hkey⟩, h.sdot_parse hsignature⟩
    · exact parse_eq_ok.2 ⟨hw, rfl, .inr (hsize.trans htotal.symm)⟩
    · rw [hlength, ← hpayloadSize]
      rfl
    · refine meta_parse_of_wellFormed (Nat.le_of_eq hlength.symm) hw (fun hdelta => ?_)
        (hsize.trans htotal.symm)
      rw [UInt32.lt_iff_toNat_lt]
      cases h.base with
      | full himage =>
          have hfull : (metaOf (decodeFixed header) (decodeExtension header)).imageType = 1 :=
            UInt8.toNat_inj.1 (Int.ofNat_inj.1 (htype.trans himage))
          exact absurd ((congrArg UInt32.toUInt8 hdelta).symm.trans hfull) (by decide)
      | delta himage hbase hbaseLength hversion hlater =>
          have hlater' := hlater
          rw [← hbaseVersion, ← htargetVersion] at hlater'
          exact Int.ofNat_lt.1 hlater'
  · intro raw size info hlength hsize hparse
    obtain ⟨hw, rfl, hzero | htotal⟩ := parse_eq_ok.1 hparse
    · exact absurd hzero hsize
    have hpayload := hw.payloadSize_le
    refine ⟨encode_decode hlength, rfl, rfl, ?_, ?_, fun hversions => ⟨_,
      meta_parse_of_wellFormed (Nat.le_of_eq hlength.symm) hw hversions htotal, ?_, rfl, rfl, rfl,
      rfl, rfl⟩⟩
    · rw [htotal, show (infoOf (decodeFixed raw) (decodeExtension raw)).header.signatureSize.toNat =
        _ from hw.signatureSize]
      rfl
    · rw [htotal]
      simp only [infoOf, FirmwareContainer.headerSize, FirmwareContainer.signatureSize,
        extIncomingSize, fixedHeaderSize, FirmwareContainer.extensionSize] at hpayload ⊢
      omega
    · rcases hw.imageType with htype | htype
      · simp only [metaOf, infoOf, htype]
        rfl
      · simp only [metaOf, infoOf, htype]
        rfl

/-- An image that holds its two vectors only. -/
theorem container_readers_agree_full :
    ∃ header info, packHeader
        { imageType := 1, baseVersion := 0, targetVersion := 2,
          payload := [0x00, 0x50, 0x00, 0x20, 0x01, 0x60, 0x00, 0x08],
          target := [0x00, 0x50, 0x00, 0x20, 0x01, 0x60, 0x00, 0x08], base := none, keyId := 1 } =
          .ok header ∧
      FirmwareContainer.parse header 212 = .ok info := by
  generalize ha : (PackArguments.mk 1 0 2 _ _ none 1) = a
  have hisOk : (packHeader a).toOption.isSome = true := by
    rw [← ha]
    decide +kernel
  cases hpack : packHeader a with
  | error error => cases hpack ▸ hisOk
  | ok header =>
      have hpayload : a.payload.length = 8 := by rw [← ha]; rfl
      have hlength := (packHeader_ok hpack).length
      obtain ⟨⟨info, hparse, -⟩, -⟩ := container_readers_agree.1 a header (List.replicate 64 0) hpack
        rfl (by omega) (by omega) (fun base hbase => by rw [← ha] at hbase; cases hbase)
      have hsize : (header ++ a.payload ++ List.replicate 64 0).length = 212 := by
        simp only [List.length_append, List.length_replicate]
        omega
      rw [hsize] at hparse
      exact ⟨header, info, rfl, hparse⟩

end Readers

end SecureDeltaOta

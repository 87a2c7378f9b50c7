import SecureDeltaOta.Shared.FirmwareContainer
import SecureDeltaOta.Shared.Digest
import SecureDeltaOta.Standard.Python

/-!
# Writing and reading containers

Beside the bootloader three programs know the layout of the container header:
`secure_container.py` of the tools packs it, `secure_container_meta.c` of the
gateway reads the fields it needs for a transfer, and `sdot.py` of the server
inspects an uploaded container.
-/

namespace SecureDeltaOta

open Memory
open Python (Value pack unpackFrom)
open Python.Field (H I s)

/-- `FIXED` and `EXT` of the two Python programs. -/
def containerFixedFormat : List Python.Field :=
  [I, H, H, I, I, I, I, I, I, I, I, I, s 32, s 32, I, H, H, H, H]

def containerExtensionFormat : List Python.Field := [I, H, H, I, I, I]

/-! ## The packer -/

namespace ContainerTool

def MAGIC : Int := 0x544F4453
def FORMAT_VERSION : Int := 1
def FIXED_HEADER_SIZE : Nat := 120
def EXT_MAGIC : Int := 0x31584353
def EXT_VERSION : Int := 1
def EXT_SIZE : Nat := 20
def HEADER_SIZE : Nat := FIXED_HEADER_SIZE + EXT_SIZE
def PRODUCT_ID : Int := 0x00001001
def HARDWARE_REVISION : Int := 1
def FLAGS : Int := 0
def IMAGE_FULL : Int := 1
def IMAGE_DELTA : Int := 2
def HASH_SHA256 : Int := 1
def SIG_ECDSA_P256 : Int := 1
def SIG_SIZE : Nat := 64
def APP_ADDRESS : Int := 0x08006000
def APP_MAX : Nat := 38 * 1024

/-- How the packer stops. -/
inductive PackError where
  | systemExit (message : String)
  | struct
  | assertion (message : String)
  deriving DecidableEq, Repr

def crc32 (data : List UInt8) : Nat := (Python.crc32 data).toNat &&& 0xFFFFFFFF

/-- `hashlib.sha256`: the SHA-256 of the standard, which is the one of the firmware. -/
def sha256 (data : List UInt8) : List UInt8 := Sha256.calculate data

def validateApplication (image : List UInt8) (label : String) : Except PackError Unit :=
  if ¬ (8 ≤ image.length ∧ image.length ≤ APP_MAX) then
    .error (.systemExit (label ++ " size outside STM32 application region"))
  else
    match unpackFrom [I, I] image with
    | some [.int msp, .int reset] =>
        if ¬ (0x20000000 ≤ msp ∧ msp ≤ 0x20005000) ∨ msp.toNat &&& 7 ≠ 0 then
          .error (.systemExit (label ++ " invalid MSP 0x" ++ Python.hexUpper 8 msp))
        else if reset.toNat &&& 1 = 0 then
          .error (.systemExit (label ++ " reset handler is not Thumb"))
        else
          -- the reset address without its lowest bit
          let resetCode := (reset.toNat >>> 1) <<< 1
          if ¬ (APP_ADDRESS ≤ resetCode ∧ resetCode < APP_ADDRESS + image.length) then
            .error (.systemExit (label ++ " reset handler 0x" ++ Python.hexUpper 8 reset ++
              " outside image"))
          else .ok ()
    | _ => .error .struct

/-- The keyword arguments of `pack_header`. -/
structure PackArguments where
  imageType : Int
  baseVersion : Int
  targetVersion : Int
  payload : List UInt8
  target : List UInt8
  base : Option (List UInt8)
  keyId : Int
  deriving DecidableEq, Repr

/-- The hash and the size of the base in the header, after the checks of the image type. -/
def baseFields (a : PackArguments) : Except PackError (List UInt8 × Nat) :=
  if a.imageType = IMAGE_FULL then
    if a.base ≠ none ∨ a.baseVersion ≠ 0 then
      .error (.systemExit "full container requires base-version=0")
    else if a.payload ≠ a.target then
      .error (.systemExit "full payload must equal target image")
    else .ok (List.replicate 32 0, 0)
  else if a.imageType = IMAGE_DELTA then
    match a.base with
    | none => .error (.systemExit "delta container requires --base")
    | some base =>
        match validateApplication base "base" with
        | .error error => .error error
        | .ok () =>
            if a.baseVersion ≤ 0 ∨ a.targetVersion ≤ a.baseVersion then
              .error (.systemExit "delta requires 0 < base-version < target-version")
            else .ok (sha256 base, base.length)
  else .error (.systemExit "invalid image type")

def fixedValues (a : PackArguments) (baseHash : List UInt8) : List Value :=
  [.int MAGIC, .int FORMAT_VERSION, .int HEADER_SIZE, .int PRODUCT_ID, .int HARDWARE_REVISION,
    .int a.imageType, .int FLAGS, .int a.baseVersion, .int a.targetVersion,
    .int a.payload.length, .int a.target.length, .int APP_ADDRESS, .bytes baseHash,
    .bytes (sha256 a.target), .int (crc32 a.payload), .int HASH_SHA256, .int SIG_ECDSA_P256,
    .int SIG_SIZE, .int 0]

def extensionValues (a : PackArguments) (baseSize : Nat) : List Value :=
  [.int EXT_MAGIC, .int EXT_VERSION, .int EXT_SIZE, .int a.keyId, .int baseSize,
    .int (crc32 a.target)]

def packHeader (a : PackArguments) : Except PackError (List UInt8) :=
  if a.keyId ≤ 0 ∨ a.keyId > 0xFFFFFFFF then
    .error (.systemExit "key-id must be in 1..0xFFFFFFFF")
  else if a.targetVersion ≤ 0 then .error (.systemExit "target-version must be positive")
  else
    match validateApplication a.target "target" with
    | .error error => .error error
    | .ok () =>
        match baseFields a with
        | .error error => .error error
        | .ok (baseHash, baseSize) =>
            match pack containerFixedFormat (fixedValues a baseHash),
                pack containerExtensionFormat (extensionValues a baseSize) with
            | some fixed, some extension =>
                let header := fixed ++ extension
                if header.length ≠ HEADER_SIZE then
                  .error (.assertion "canonical header size mismatch")
                else .ok header
            | _, _ => .error .struct

end ContainerTool

/-! ## The gateway -/

/-- `SecureContainerMeta_t`. -/
structure SecureContainerMeta where
  imageType : UInt8
  baseVersion : UInt32
  targetVersion : UInt32
  payloadSize : UInt32
  targetSize : UInt32
  keyId : UInt32
  deriving DecidableEq, Repr

namespace SecureContainerMeta

def magic : UInt32 := 0x544F4453
def formatVersion : UInt16 := 1
def headerSize : Nat := 140
def containerSignatureSize : Nat := 64
def extMagic : UInt32 := 0x31584353
def productId : UInt32 := 0x00001001
def hwRevision : UInt32 := 1
def imageFull : UInt8 := 1
def imageDelta : UInt8 := 2

def hasMagic (data : List UInt8) : Bool :=
  4 ≤ data.length ∧ readLe32 data 0 = magic

def parse (header : List UInt8) (containerSize : UInt32) : Option SecureContainerMeta :=
  if header.length < headerSize then none
  else if readLe32 header 0 ≠ magic ∨ readLe16 header 4 ≠ formatVersion ∨
      (readLe16 header 6).toNat ≠ headerSize ∨ readLe32 header 8 ≠ productId ∨
      readLe32 header 12 ≠ hwRevision ∨ readLe32 header 120 ≠ extMagic ∨
      readLe16 header 124 ≠ 1 ∨ readLe16 header 126 ≠ 20 ∨ readLe16 header 112 ≠ 1 ∨
      readLe16 header 114 ≠ 1 then none
  else
    let imageType := (readLe32 header 16).toUInt8
    let baseVersion := readLe32 header 24
    let targetVersion := readLe32 header 28
    let payloadSize := readLe32 header 32
    let signatureSize := readLe16 header 116
    if imageType ≠ imageFull ∧ imageType ≠ imageDelta then none
    else if targetVersion = 0 then none
    else if imageType = imageFull ∧ (baseVersion ≠ 0 ∨ readLe32 header 132 ≠ 0) then none
    else if imageType ≠ imageFull ∧
        (baseVersion = 0 ∨ targetVersion ≤ baseVersion ∨ readLe32 header 132 < 8) then none
    else if readLe32 header 40 ≠ 0x08006000 ∨ signatureSize.toNat ≠ containerSignatureSize ∨
        readLe32 header 128 = 0 then none
    else if headerSize + payloadSize.toNat + signatureSize.toNat ≠ containerSize.toNat then none
    else
      some
        { imageType := imageType
          baseVersion := baseVersion
          targetVersion := targetVersion
          payloadSize := payloadSize
          targetSize := readLe32 header 36
          keyId := readLe32 header 128 }

end SecureContainerMeta

/-! ## The server -/

/-- `SdotInfo` of `sdot.py`; the hashes are texts. -/
structure SdotInfo where
  imageType : Int
  productId : Int
  hardwareRevision : Int
  baseVersion : Int
  targetVersion : Int
  payloadSize : Int
  targetSize : Int
  targetAddress : Int
  baseSha256 : String
  targetSha256 : String
  payloadCrc32 : Int
  keyId : Int
  baseSize : Int
  targetCrc32 : Int
  signatureSize : Int
  containerSize : Int
  containerCrc32 : Int
  containerSha256 : String
  deriving DecidableEq, Repr

namespace Sdot

def MAGIC : Int := 0x544F4453
def FORMAT_VERSION : Int := 1
def FIXED_HEADER_SIZE : Nat := 120
def EXTENSION_MAGIC : Int := 0x31584353
def EXTENSION_VERSION : Int := 1
def EXTENSION_SIZE : Int := 20
def HEADER_SIZE : Nat := 140
def SIGNATURE_SIZE : Nat := 64
def IMAGE_FULL : Int := 1
def IMAGE_DELTA : Int := 2
def HASH_SHA256 : Int := 1
def SIGNATURE_ECDSA_P256 : Int := 1
def APPLICATION_ADDRESS : Int := 0x08006000

/-- What `parse_sdot` raises: a `ValueError` with its text, or `struct.error`. -/
inductive Error where
  | value (message : String)
  | struct
  deriving DecidableEq, Repr

/-- The checks of `parse_sdot` on the unpacked fields, in their order. -/
def check (magic formatVersion headerSize imageType baseVersion targetVersion targetAddress
    hashAlgorithm signatureAlgorithm signatureSize extMagic extVersion extSize : Int) :
    Option String :=
  if magic ≠ MAGIC then some "invalid SDOT magic"
  else if formatVersion ≠ FORMAT_VERSION then some "unsupported SDOT format version"
  else if headerSize ≠ HEADER_SIZE then some "unsupported SDOT header size"
  else if extMagic ≠ EXTENSION_MAGIC then some "invalid SCX1 extension magic"
  else if extVersion ≠ EXTENSION_VERSION ∨ extSize ≠ EXTENSION_SIZE then
    some "unsupported SCX1 extension"
  else if hashAlgorithm ≠ HASH_SHA256 then some "unsupported SDOT hash algorithm"
  else if signatureAlgorithm ≠ SIGNATURE_ECDSA_P256 then
    some "unsupported SDOT signature algorithm"
  else if signatureSize ≠ SIGNATURE_SIZE then some "unsupported SDOT signature size"
  else if imageType ≠ IMAGE_FULL ∧ imageType ≠ IMAGE_DELTA then
    some "unsupported SDOT image type"
  else if targetVersion ≤ 0 then some "SDOT target version must be positive"
  else if imageType = IMAGE_FULL ∧ baseVersion ≠ 0 then some "full SDOT must have base_version=0"
  else if imageType = IMAGE_DELTA ∧ (baseVersion ≤ 0 ∨ targetVersion ≤ baseVersion) then
    some "delta SDOT requires 0 < base_version < target_version"
  else if targetAddress ≠ APPLICATION_ADDRESS then some "SDOT target address mismatch"
  else none

/-- The checks that follow the payload CRC. -/
def checkKey (imageType keyId baseSize : Int) : Option String :=
  if keyId = 0 then some "SDOT key_id must be nonzero"
  else if imageType = IMAGE_FULL ∧ baseSize ≠ 0 then some "full SDOT must have base_size=0"
  else if imageType = IMAGE_DELTA ∧ baseSize < 8 then some "delta SDOT base_size is invalid"
  else none

def parse (data : List UInt8) : Except Error SdotInfo :=
  if data.length < HEADER_SIZE + SIGNATURE_SIZE then
    .error (.value "SDOT container is too short")
  else
    match unpackFrom containerFixedFormat data,
        unpackFrom containerExtensionFormat (data.drop FIXED_HEADER_SIZE) with
    | some [.int magic, .int formatVersion, .int headerSize, .int productId,
          .int hardwareRevision, .int imageType, .int _, .int baseVersion, .int targetVersion,
          .int payloadSize, .int targetSize, .int targetAddress, .bytes baseHash,
          .bytes targetHash, .int payloadCrc32, .int hashAlgorithm, .int signatureAlgorithm,
          .int signatureSize, .int _],
        some [.int extMagic, .int extVersion, .int extSize, .int keyId, .int baseSize,
          .int targetCrc32] =>
        match check magic formatVersion headerSize imageType baseVersion targetVersion
            targetAddress hashAlgorithm signatureAlgorithm signatureSize extMagic extVersion
            extSize with
        | some message => .error (.value message)
        | none =>
            let total := headerSize + payloadSize + signatureSize
            if total ≠ data.length then .error (.value "SDOT total length mismatch")
            else
              let payload := (data.take (headerSize + payloadSize).toNat).drop headerSize.toNat
              if ((ContainerTool.crc32 payload : Nat) : Int) ≠ payloadCrc32 then
                .error (.value "SDOT payload CRC32 mismatch")
              else
                match checkKey imageType keyId baseSize with
                | some message => .error (.value message)
                | none =>
                    .ok
                      { imageType := imageType
                        productId := productId
                        hardwareRevision := hardwareRevision
                        baseVersion := baseVersion
                        targetVersion := targetVersion
                        payloadSize := payloadSize
                        targetSize := targetSize
                        targetAddress := targetAddress
                        baseSha256 := Python.hexBytes baseHash
                        targetSha256 := Python.hexBytes targetHash
                        payloadCrc32 := payloadCrc32
                        keyId := keyId
                        baseSize := baseSize
                        targetCrc32 := targetCrc32
                        signatureSize := signatureSize
                        containerSize := data.length
                        containerCrc32 := ContainerTool.crc32 data
                        containerSha256 := Python.hexBytes (ContainerTool.sha256 data) }
    | _, _ => .error .struct

end Sdot

end SecureDeltaOta

import SecureDeltaOta.Boot.ContainerAuthentication
import SecureDeltaOta.Crypto.EcdsaVerification

/-!
# A signed release

A container as `secure_container.py` writes it, for a full image of nine bytes in
version 2, with a signature under the key whose point is the generator. A device
that holds it in its incoming partition holds an authentic container.
-/

namespace SecureDeltaOta.SignedRelease

open Memory FirmwareContainer SecureContainer

/-- An application whose vectors are valid. -/
def image : List UInt8 := [0x00, 0x50, 0x00, 0x20, 0x09, 0x60, 0x00, 0x08, 0x2A]

def header : List UInt8 := [
  83, 68, 79, 84, 1, 0, 140, 0, 1, 16, 0, 0, 1, 0, 0, 0, 1, 0, 0, 0, 0, 0, 0, 0, 0, 0, 0, 0, 2,
  0, 0, 0, 9, 0, 0, 0, 9, 0, 0, 0, 0, 96, 0, 8, 0, 0, 0, 0, 0, 0, 0, 0, 0, 0, 0, 0, 0, 0, 0, 0,
  0, 0, 0, 0, 0, 0, 0, 0, 0, 0, 0, 0, 0, 0, 0, 0, 66, 9, 135, 32, 185, 251, 8, 195, 127, 45, 90,
  48, 121, 51, 45, 105, 218, 126, 99, 113, 205, 138, 60, 77, 177, 172, 235, 226, 253, 104, 98,
  71, 242, 52, 215, 145, 1, 0, 1, 0, 64, 0, 0, 0, 83, 67, 88, 49, 1, 0, 20, 0, 1, 0, 0, 0, 0, 0,
  0, 0, 242, 52, 215, 145]

def signature : List UInt8 := [
  124, 242, 123, 24, 141, 3, 79, 126, 138, 82, 56, 3, 4, 181, 26, 195, 192, 137, 105, 226, 119,
  242, 27, 53, 166, 11, 72, 252, 71, 102, 153, 120, 53, 196, 29, 227, 84, 204, 196, 90, 77, 208,
  72, 42, 182, 3, 95, 54, 112, 157, 233, 200, 44, 240, 166, 28, 218, 148, 91, 10, 33, 180, 181,
  230]

/-- The hash of header and image. -/
def digest : List UInt8 := [
  238, 149, 192, 173, 28, 150, 57, 55, 17, 78, 88, 82, 103, 81, 163, 168, 221, 153, 100, 91,
  137, 6, 207, 137, 2, 215, 55, 218, 248, 101, 247, 165]

def container : List UInt8 := header ++ image ++ signature

def key : TrustedKey := ⟨true, 1, EcdsaP256.generatorKey⟩

def info : Info where
  header := decodeFixed header
  extension := decodeExtension header
  payloadOffset := 140
  signatureOffset := 149
  totalSize := 213

theorem digest_eq : Sha256.calculate (header ++ image) = digest := by
  decide +kernel

theorem signed : EcdsaP256.verifyDigest key.publicKey digest signature = .valid := by
  refine EcdsaP256.valid_of_verifies (by decide) (by decide) (by decide)
    (EcdsaP256.verifies_of_checkWith
      (w := 12025019190541460435007334085665644361015052113673631216434650391440628912404)
      (i := 68684520678049245329778184608303982901537377852224171493791549691246288871292) ?_)
  decide +kernel

/-- A part of a range of a partition. -/
theorem slice_drop_take {d : Device} {p : ExternalPartition} {length offset count : Nat}
    {bytes : List UInt8} (h : d.slice p 0 length = bytes) (hle : offset + count ≤ length) :
    d.slice p offset count = (bytes.drop offset).take count := by
  rw [← h, Device.slice, Device.slice, window_drop (by omega), window_take (by omega)]
  rfl

section Device

variable {d : Device} (h : d.slice .incoming 0 213 = container)

include h

theorem rawHeader_eq : rawHeader d = header :=
  slice_drop_take h (by decide)

theorem payload_eq : payload d info = image :=
  slice_drop_take h (by decide)

theorem signature_eq : SecureContainer.signature d info = signature :=
  slice_drop_take h (by decide)

/-- The container is authentic, whether or not its size is checked. -/
theorem authentic {artifactSize : UInt32} (hsize : artifactSize = 0 ∨ artifactSize = 213) :
    Authentic key d artifactSize info := by
  refine ⟨rfl, ?_, rfl, ?_, ?_, fun _ => ?_⟩
  · rw [rawHeader_eq h]
    obtain rfl | rfl := hsize
    · decide +kernel
    · decide +kernel
  · rw [payload_eq h]
    decide +kernel
  · rw [rawHeader_eq h, payload_eq h, signature_eq h, digest_eq]
    exact signed
  · rw [payload_eq h]
    decide +kernel

end Device

/-- External flash with the container, and with an image in the reconstructed partition. -/
def flash (reconstructed : List UInt8) (a : Nat) : UInt8 :=
  if ExternalPartition.reconstructed.address ≤ a then
    reconstructed.getD (a - ExternalPartition.reconstructed.address) 0xFF
  else if ExternalPartition.incoming.address ≤ a then
    container.getD (a - ExternalPartition.incoming.address) 0xFF
  else 0xFF

theorem incoming_flash {d : Device} {reconstructed : List UInt8}
    (h : d.external = flash reconstructed) : d.slice .incoming 0 213 = container := by
  have hlength : container.length = 213 := rfl
  unfold Device.slice
  rw [h, ← hlength]
  refine window_eq_list_iff.2 fun i hi => ?_
  have haddress : ExternalPartition.incoming.address + 213 ≤
      ExternalPartition.reconstructed.address := by decide
  rw [flash, if_neg (by omega), if_pos (by omega), Nat.add_zero, Nat.add_sub_cancel_left]
  exact (List.getD_eq_getElem _ _ hi).trans (List.getD_eq_getElem _ _ hi).symm

end SecureDeltaOta.SignedRelease

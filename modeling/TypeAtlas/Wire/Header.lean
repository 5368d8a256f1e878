/-
The header of a file.

Forty-eight bytes: four of magic, two of version, one for the profile, one that
is zero, eight for the length of the payload and thirty-two for its checksum.
-/
import TypeAtlas.Wire.Fault

namespace TypeAtlas

def headerSize : Nat := 48

def magic : Vector UInt8 4 := #v[0x52, 0x46, 0x44, 0x42]

theorem length_littleEndian (n x : Nat) : (littleEndian n x).length = n := by
  induction n generalizing x with
  | zero => rfl
  | succ n ih => simp [littleEndian, ih]

/-- The low `n` bytes of a number, low byte first. -/
def littleEndianVector (n x : Nat) : Vector UInt8 n :=
  ⟨(littleEndian n x).toArray, by simpa using length_littleEndian n x⟩

structure WireHeader where
  version : UInt16
  profile : Profile
  payloadSize : UInt64
  checksum : Blake3.Digest
deriving DecidableEq

namespace WireHeader

def ofPayload (profile : Profile) (payload : List UInt8) : WireHeader where
  version := formatVersion
  profile
  payloadSize := UInt64.ofNat payload.length
  checksum := Blake3.hash payload

def encode (h : WireHeader) : Vector UInt8 headerSize :=
  magic ++ littleEndianVector 2 h.version.toNat ++ #v[h.profile.tag, 0]
    ++ littleEndianVector 8 h.payloadSize.toNat ++ h.checksum

/-- Reads a header.  The magic is looked at first, and then the version, the
profile and the byte that has to be zero. -/
def decode (bytes : Vector UInt8 headerSize) : Except LoadFault WireHeader :=
  let found : Vector UInt8 4 := (bytes.extract 0 4).cast (by decide)
  let version := UInt16.ofNat (ofLittleEndian (bytes.extract 4 6).toList)
  if found ≠ magic then .error (.badMagic found)
  else if version ≠ formatVersion then .error (.unsupportedVersion version)
  else
    match Profile.ofTag? bytes[6] with
    | none => .error (.unknownProfile bytes[6])
    | some profile =>
      if bytes[7] ≠ 0 then .error (.reservedByte bytes[7])
      else
        .ok {
          version
          profile
          payloadSize := UInt64.ofNat (ofLittleEndian (bytes.extract 8 16).toList)
          checksum := (bytes.extract 16 48).cast (by decide) }

/-- The first eight bytes of the checksum in hexadecimal, enough to tell files
apart by eye. -/
def shortChecksum (h : WireHeader) : String := hexText (h.checksum.toList.take 8)

end WireHeader
end TypeAtlas

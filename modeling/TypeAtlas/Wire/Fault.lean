/-
Why a file is refused.

`isCorrupt` tells a file that is damaged from one that a setting excludes.
-/
import TypeAtlas.Codec.Basic
import TypeAtlas.Image.Fault
import TypeAtlas.Ledger.Basic
import TypeAtlas.Wire.Blake3

namespace TypeAtlas

/-- Two lower-case hexadecimal digits. -/
def hexByte (b : UInt8) : String := hexPadded 2 b.toNat

/-- Bytes as hexadecimal digits. -/
def hexText (bytes : List UInt8) : String := String.join (bytes.map hexByte)

/-- What can go wrong in reading a stream. -/
inductive StreamFault where
  | notFound
  | isDirectory
  /-- A file was taken for a directory. -/
  | notDirectory
  | nameTooLong
  | endsEarly
  /-- A text was asked for. -/
  | notUtf8
deriving DecidableEq

def StreamFault.message : StreamFault → String
  | notFound => "No such file or directory (os error 2)"
  | isDirectory => "Is a directory (os error 21)"
  | notDirectory => "Not a directory (os error 20)"
  | nameTooLong => "File name too long (os error 36)"
  | endsEarly => "failed to fill whole buffer"
  | notUtf8 => "stream did not contain valid UTF-8"

/-- The content of a file, or why there is none. -/
abbrev FileContent : Type := Except StreamFault (List UInt8)

def formatVersion : UInt16 := 1

inductive LoadFault where
  | stream (fault : StreamFault)
  | badMagic (found : Vector UInt8 4)
  | unsupportedVersion (found : UInt16)
  | unknownProfile (tag : UInt8)
  | reservedByte (found : UInt8)
  | tooLarge (len max : UInt64)
  | lengthMismatch (expected actual : UInt64)
  | checksumMismatch (expected actual : Blake3.Digest)
  | decode (fault : DecodeError)
  | invalid (fault : ImageFault)
  | profileMismatch (required found : Profile)
  | alloc (fault : AllocError)
  | alreadyLoaded
deriving DecidableEq

namespace LoadFault

def label : LoadFault → String
  | stream _ => "Io"
  | badMagic _ => "BadMagic"
  | unsupportedVersion _ => "UnsupportedVersion"
  | unknownProfile _ => "UnknownProfile"
  | reservedByte _ => "ReservedByte"
  | tooLarge _ _ => "TooLarge"
  | lengthMismatch _ _ => "LengthMismatch"
  | checksumMismatch _ _ => "ChecksumMismatch"
  | decode _ => "Decode"
  | invalid _ => "Validation"
  | profileMismatch _ _ => "ProfileMismatch"
  | alloc _ => "Alloc"
  | alreadyLoaded => "AlreadyLoaded"

def message : LoadFault → String
  | stream fault => "I/O error: " ++ fault.message
  | badMagic found => "bad magic [" ++ ", ".intercalate (found.toList.map hexByte) ++ "]"
  | unsupportedVersion found =>
    s!"unsupported format version {found} (supported: {formatVersion})"
  | unknownProfile tag => s!"unknown profile tag {tag}"
  | reservedByte found => "reserved header byte is 0x" ++ hexByte found ++ ", expected 0"
  | tooLarge len max => s!"payload of {len} bytes exceeds limit of {max}"
  | lengthMismatch expected actual =>
    s!"payload length mismatch: header declares {expected}, read {actual}"
  | checksumMismatch expected actual =>
    "checksum mismatch: expected " ++ hexText expected.toList ++ ", computed "
      ++ hexText actual.toList
  | decode fault => "decode failed: " ++ fault.message
  | invalid fault => "invalid image: " ++ fault.message
  | profileMismatch required found =>
    "image profile " ++ found.label ++ " does not satisfy required profile " ++ required.label
  | alloc fault => "allocation failed: " ++ fault.message
  | alreadyLoaded => "database already loaded"

/-- The text of the fault that this one wraps. -/
def cause? : LoadFault → Option String
  | stream fault => some fault.message
  | decode fault => some fault.message
  | invalid fault => some fault.message
  | alloc fault => some fault.message
  | _ => none

/-- Whether the bytes read are to blame, and not a setting or the stream. -/
def isCorrupt : LoadFault → Bool
  | badMagic _ | unknownProfile _ | reservedByte _ | lengthMismatch _ _ | checksumMismatch _ _
  | decode _ | invalid _ => true
  | stream _ | unsupportedVersion _ | tooLarge _ _ | profileMismatch _ _ | alloc _
  | alreadyLoaded => false

end LoadFault
end TypeAtlas

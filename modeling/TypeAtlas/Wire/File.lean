/-
Files: a header and the payload it describes.

`LoadPolicy.read` takes a file off the front of a stream.  It looks at the header,
at the payload as a whole, at the image in it and, if asked to, at whether that
is valid, and stops at the first fault.  How much of the stream was consumed by
then is part of the answer.
-/
import TypeAtlas.Codec.Image
import TypeAtlas.Image.Holding
import TypeAtlas.Image.Validity
import TypeAtlas.Wire.Header

namespace TypeAtlas

def Image.file (img : Image) : List UInt8 :=
  let payload := img.encode
  (WireHeader.ofPayload img.profile payload).encode.toList ++ payload

/-- What a loader asks of a file. -/
structure LoadPolicy where
  /-- The profile that will do. -/
  required : Profile := .full
  verify : Bool := true
  maxBytes : Option UInt64 := none
deriving DecidableEq

structure Loaded where
  result : Attempt LoadFault Holding
  unread : List UInt8
  bank : Bank

namespace LoadPolicy

/-- The header at the front of a stream.  A stream too short for one is consumed
to its end. -/
def readHeader (input : List UInt8) : Except LoadFault WireHeader × List UInt8 :=
  if h : headerSize ≤ input.length then
    (WireHeader.decode ⟨(input.take headerSize).toArray, by simp [h]⟩, input.drop headerSize)
  else
    (.error (.stream .endsEarly), [])

/-- The payload that a header announces.  A payload over the limit is not even
begun. -/
def readPayload (p : LoadPolicy) (h : WireHeader) (input : List UInt8) :
    Except LoadFault (List UInt8) × List UInt8 :=
  match p.maxBytes.filter (· < h.payloadSize) with
  | some max => (.error (.tooLarge h.payloadSize max), input)
  | none =>
    let payload := input.take h.payloadSize.toNat
    let unread := input.drop h.payloadSize.toNat
    let actual := Blake3.hash payload
    if payload.length ≠ h.payloadSize.toNat then
      (.error (.lengthMismatch h.payloadSize (UInt64.ofNat payload.length)), unread)
    else if actual ≠ h.checksum then
      (.error (.checksumMismatch h.checksum actual), unread)
    else
      (.ok payload, unread)

/-- The image in a payload.  It has to be of the profile that its header says. -/
def decodeImage (p : LoadPolicy) (h : WireHeader) (payload : List UInt8) :
    Except LoadFault Image := do
  let img ← (Image.decode payload).mapError LoadFault.decode
  if img.profile ≠ h.profile then
    throw (.profileMismatch h.profile img.profile)
  if p.verify then
    img.validate.mapError LoadFault.invalid
  return img

/-- Reads an image from the front of a stream and answers what is left of it. -/
def read (p : LoadPolicy) (input : List UInt8) : Except LoadFault Image × List UInt8 :=
  match readHeader input with
  | (.error e, rest) => (.error e, rest)
  | (.ok h, rest) =>
    if h.profile.satisfies p.required then
      match p.readPayload h rest with
      | (.error e, unread) => (.error e, unread)
      | (.ok payload, unread) => (p.decodeImage h payload, unread)
    else
      (.error (.profileMismatch p.required h.profile), rest)

/-- Reads an image and charges it to an account, if there is one. -/
def load (p : LoadPolicy) (input : List UInt8) (account : Option Account) (bank : Bank) : Loaded :=
  match p.read input with
  | (.error e, unread) => ⟨.error (.fault e), unread, bank⟩
  | (.ok img, unread) =>
    let (result, bank) := img.hold account bank
    ⟨result.mapError (·.map .alloc), unread, bank⟩

def loadFile (p : LoadPolicy) (file : FileContent) (account : Option Account) (bank : Bank) :
    Loaded :=
  match file with
  | .error fault => ⟨.error (.fault (.stream fault)), [], bank⟩
  | .ok bytes => p.load bytes account bank

end LoadPolicy
end TypeAtlas

import ItemStore.Value.Codec
import ItemStore.Value.Coercion

/-!
# Field encodings

Serialized data has one kind of sequence.  The encoding of a field says how a sequence
is stored: as it is, as a byte string, as a set, or as a set of byte strings.  A set
without elements is not stored at all.

## Main definitions

* `Encoding` — the four encodings.
* `Encoding.encode` — the stored form of a serialized value.
* `Encoding.decode` — the serialized form of a stored value.
-/

namespace ItemStore

/-- How the sequences of a field are stored. -/
inductive Encoding
  /-- As they are. -/
  | native
  | bytes
  /-- As a set of texts, numbers or byte strings. -/
  | set
  | binarySet
  deriving DecidableEq, Repr, Inhabited

namespace Encoding

/-- Whether sequences are stored as sets. -/
def isSet : Encoding → Bool
  | .set => true
  | .binarySet => true
  | _ => false

/-- The byte that a wire value denotes. -/
def byteOf (w : Wire) : Except Error UInt8 :=
  match w with
  | .number text =>
    match IntegerRange.byte.read text.toList with
    | .ok i => .ok (UInt8.ofNat i.toNat)
    | .error _ => .error (.notAByte w)
  | _ => .error (.notAByte w)

/-- The byte string of a list of bytes. -/
def bytesOf (items : List Wire) : Except Error Bytes := items.mapM byteOf

/-- The byte string that a wire value denotes. -/
def byteSequenceOf : Wire → Except Error Bytes
  | .list items => bytesOf items
  | .bytes b => .ok b
  | w => .error (.notAByteSequence w)

/-- The list of the bytes of a byte string. -/
def byteList (b : Bytes) : Wire := .list (b.map fun x => .number (natText x.toNat))

/-- The stored form of a sequence, if it is stored. -/
def encodeItems (items : List Wire) : Encoding → Except Error (Option Wire)
  | .native => .ok (some (.list items))
  | .bytes => do return some (.bytes (← bytesOf items))
  | .set =>
    if items.isEmpty then .ok none
    else do
      let list ← Value.decode (.list items)
      let set ← list.toSet
      return some (← set.encode)
  | .binarySet =>
    if items.isEmpty then .ok none
    else do
      let set ← items.mapM byteSequenceOf
      return some (.binarySet (SortedSet.ofList set).elements)

/-- The stored form of a serialized value, if it is stored. -/
def encode (encoding : Encoding) : Wire → Except Error (Option Wire)
  | .list items => encodeItems items encoding
  | w => .ok (some w)

/-- The serialized form of a stored value. -/
def decode (encoding : Encoding) : Wire → Wire
  | .bytes b => if encoding = .bytes then byteList b else .bytes b
  | .stringSet ss => if encoding.isSet then .list (ss.map .string) else .stringSet ss
  | .numberSet texts => if encoding.isSet then .list (texts.map .number) else .numberSet texts
  | .binarySet bs => if encoding.isSet then .list (bs.map byteList) else .binarySet bs
  | w => w

end Encoding

end ItemStore

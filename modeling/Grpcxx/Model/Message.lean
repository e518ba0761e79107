import Grpcxx.Model.Std

/-!
# `grpcxx::detail::message`

The gRPC length-prefixed message: a flag byte, four bytes of length, the data.
`Message.ofString` and `Message.bytes` write one; `Message.append` (the source's
`bytes(std::string_view)`) takes one in as DATA chunks arrive, and `Message.view`
(`data()`) is the payload once it is complete.
-/

namespace Grpcxx

structure Message where
  compressed : UInt8 := 0
  length : Option UInt32 := none
  data : Bytes := []
  prefixBytes : Bytes := []
  deriving DecidableEq, Repr

namespace Message

/-- `message(std::string &&)`. `_length` is declared before `_data`, so it is set from
the argument before the argument is moved from. -/
def ofString (data : Bytes) : Message :=
  let size := data.length.toUInt32
  { length := some size
    data := data
    prefixBytes := [0x00, ((size >>> 24) &&& 0xff).toUInt8, ((size >>> 16) &&& 0xff).toUInt8,
      ((size >>> 8) &&& 0xff).toUInt8, (size &&& 0xff).toUInt8] }

/-- `bytes() const` -/
def bytes (m : Message) : Bytes := m.prefixBytes ++ m.data

/-- A `char` in an arithmetic expression: signed, promoted to `int`. -/
def promote (c : UInt8) : Int32 := c.toInt8.toInt32

/-- The length `parse` reads from the prefix: an `int`, stored as `uint32_t`. -/
def announced (p : Bytes) : UInt32 :=
  ((promote (p.getD 1 0) <<< 24) ||| (promote (p.getD 2 0) <<< 16) |||
    (promote (p.getD 3 0) <<< 8) ||| (promote (p.getD 4 0) &&& 0xff)).toUInt32

/-- `parse()`. The `reserve` it ends with changes no value. -/
def parse (m : Message) : Message :=
  if m.length.isSome then m
  else if m.prefixBytes.length < 5 then m
  else
    { m with
      compressed := m.prefixBytes.getD 0 0
      length := some (announced m.prefixBytes) }

/-- The announced length is known and already there. -/
def full (m : Message) : Bool :=
  match m.length with
  | some n => decide (n.toNat ≤ m.data.length)
  | none => false

/-- `bytes(std::string_view)` -/
def append (m : Message) (bytes : Bytes) : Except Fault Message :=
  if m.full then
    .error (.length_error "Message larger than what's indicated in the prefix.")
  else
    -- a short prefix takes up to five bytes of the chunk, however many it still misses
    let n := if 5 < bytes.length then 5 else bytes.length
    let short := m.prefixBytes.length < 5
    let head := if short then n else 0
    let m := if short then { m with prefixBytes := m.prefixBytes ++ bytes.take n } else m
    let m := m.parse
    .ok (if 0 < bytes.length - head then { m with data := m.data ++ bytes.drop head } else m)

/-- `data()` -/
def view (m : Message) : Bytes :=
  match m.length with
  | some n => if m.data.length = n.toNat then m.data else []
  | none => []

end Message

end Grpcxx

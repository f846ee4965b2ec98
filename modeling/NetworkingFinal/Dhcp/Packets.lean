/-
  NetworkingFinal.Dhcp.Packets

  The packets of the DHCP server (src/dhcp/packets.py): a header of fixed size
  and a dictionary of options, each with a codec picked by its key.

  The value of an option is of the kind that belongs to its key: so the decoder makes
  it and so the handlers store it.  The encoder is given no other combination, and
  `dhcpOptionValue2bytes` raises `typeError` for them.
-/
import NetworkingFinal.Py.Dict
import NetworkingFinal.Py.Inet
import NetworkingFinal.Py.Struct

namespace NetworkingFinal
namespace Dhcp

open Py Py.Struct

-- ============================================================================
-- Enumerations
-- ============================================================================

inductive DHCPOptionKey where
  | padding
  | subnetMask
  | router
  | domainNameServer
  | broadcastAddress
  | requestedIPAddress
  | ipAddressLeaseTime
  | messageType
  | dhcpServer
  | paramterRequestList
  | renewalTime
  | rebindingTime
  | endKey
  deriving DecidableEq, Repr

namespace DHCPOptionKey

def code : DHCPOptionKey → Nat
  | padding => 0
  | subnetMask => 1
  | router => 3
  | domainNameServer => 6
  | broadcastAddress => 28
  | requestedIPAddress => 50
  | ipAddressLeaseTime => 51
  | messageType => 53
  | dhcpServer => 54
  | paramterRequestList => 55
  | renewalTime => 58
  | rebindingTime => 59
  | endKey => 255

/-- `DHCPOptionKey(value)`, when `DHCPOptionKey.has_value(value)`. -/
def ofCode? : Nat → Option DHCPOptionKey
  | 0 => some padding
  | 1 => some subnetMask
  | 3 => some router
  | 6 => some domainNameServer
  | 28 => some broadcastAddress
  | 50 => some requestedIPAddress
  | 51 => some ipAddressLeaseTime
  | 53 => some messageType
  | 54 => some dhcpServer
  | 55 => some paramterRequestList
  | 58 => some renewalTime
  | 59 => some rebindingTime
  | 255 => some endKey
  | _ => none

@[simp] theorem ofCode?_code (key : DHCPOptionKey) : ofCode? key.code = some key := by
  cases key <;> rfl

theorem code_lt (key : DHCPOptionKey) : key.code < 256 := by
  cases key <;> decide

end DHCPOptionKey

inductive MessageType where
  | unknown
  | discover
  | offer
  | request
  | decline
  | ack
  | nak
  | release
  deriving DecidableEq, Repr

namespace MessageType

def code : MessageType → Nat
  | unknown => 0
  | discover => 1
  | offer => 2
  | request => 3
  | decline => 4
  | ack => 5
  | nak => 6
  | release => 7

/-- `MessageType.from_value` -/
def fromValue : Nat → MessageType
  | 1 => discover
  | 2 => offer
  | 3 => request
  | 4 => decline
  | 5 => ack
  | 6 => nak
  | 7 => release
  | _ => unknown

@[simp] theorem fromValue_code (t : MessageType) : fromValue t.code = t := by
  cases t <;> rfl

theorem code_lt (t : MessageType) : t.code < 256 := by
  cases t <;> decide

end MessageType

inductive DHCPParameterRequest where
  | unknown
  | subnetMask
  | router
  | domainNameServer
  | broadcastAddress
  deriving DecidableEq, Repr

namespace DHCPParameterRequest

def code : DHCPParameterRequest → Nat
  | unknown => 0
  | subnetMask => 1
  | router => 3
  | domainNameServer => 6
  | broadcastAddress => 28

/-- `DHCPParameterRequest.from_value` -/
def fromValue : Nat → DHCPParameterRequest
  | 1 => subnetMask
  | 3 => router
  | 6 => domainNameServer
  | 28 => broadcastAddress
  | _ => unknown

@[simp] theorem fromValue_code (r : DHCPParameterRequest) : fromValue r.code = r := by
  cases r <;> rfl

theorem code_lt (r : DHCPParameterRequest) : r.code < 256 := by
  cases r <;> decide

theorem code_ne_zero {r : DHCPParameterRequest} (h : r ≠ unknown) : r.code ≠ 0 := by
  cases r <;> first | exact absurd rfl h | decide

/-- `list(set(sorted(arr)))`: a set of these values iterates by its hash table, which
    has eight slots for up to four members and more slots for all five. -/
def listOfSet (arr : List DHCPParameterRequest) : List DHCPParameterRequest :=
  let ordered := [unknown, subnetMask, router, domainNameServer, broadcastAddress].filter (· ∈ arr)
  if ordered.length = 5 then ordered
  else [unknown, subnetMask, router, broadcastAddress, domainNameServer].filter (· ∈ arr)

theorem mem_listOfSet (arr : List DHCPParameterRequest) (r : DHCPParameterRequest) :
    r ∈ listOfSet arr ↔ r ∈ arr := by
  unfold listOfSet
  dsimp only
  split
  · rw [List.mem_filter]
    cases r <;> simp
  · rw [List.mem_filter]
    cases r <;> simp

end DHCPParameterRequest

-- ============================================================================
-- Options
-- ============================================================================

/-- `DHCPOptionValue` -/
inductive DHCPOptionValue where
  | bytes (data : Bytes)
  | str (text : Str)
  | int (n : Int)
  | messageType (t : MessageType)
  | parameters (items : List DHCPParameterRequest)
  deriving DecidableEq, Repr

def bytes2dhcpOptionValue (key : DHCPOptionKey) (data : Bytes) : Except Exn DHCPOptionValue :=
  match key with
  | .messageType => do
      match ← unpack .native [.B] data with
      | [n] => return .messageType (MessageType.fromValue n)
      | _ => throw .structError
  | .ipAddressLeaseTime | .renewalTime | .rebindingTime => do
      match ← unpack .big [.I] data with
      | [n] => return .int n
      | _ => throw .structError
  | .requestedIPAddress | .subnetMask | .router | .dhcpServer | .domainNameServer
  | .broadcastAddress => do
      return .str (← inetNtoa data)
  | .paramterRequestList =>
      let arr := data.map fun item => DHCPParameterRequest.fromValue item.toNat
      .ok (.parameters (DHCPParameterRequest.listOfSet arr))
  | .padding | .endKey => .ok (.bytes data)

def dhcpOptionValue2bytes (key : DHCPOptionKey) (value : DHCPOptionValue) : Except Exn Bytes :=
  match key, value with
  | .messageType, .messageType t => pack .native [.B] [t.code]
  | .ipAddressLeaseTime, .int n | .renewalTime, .int n | .rebindingTime, .int n =>
      packInt .big .I n
  | .requestedIPAddress, .str text | .subnetMask, .str text | .router, .str text
  | .dhcpServer, .str text | .domainNameServer, .str text | .broadcastAddress, .str text =>
      inetAton text
  | .paramterRequestList, .parameters items =>
      bytesOf ((items.map DHCPParameterRequest.code).filter (· ≠ 0))
  | .padding, .bytes data | .endKey, .bytes data => .ok data
  | _, _ => .error .typeError

abbrev Options := Dict DHCPOptionKey DHCPOptionValue

-- ============================================================================
-- Packets
-- ============================================================================

structure DHCPPacket where
  op : Nat
  htype : Nat
  hlen : Nat
  hops : Nat
  xid : Nat
  secs : Nat
  flags : Nat
  clientIPAddress : Str
  yourIPAddress : Str
  serverIPAddress : Str
  gatewayIPAddress : Str
  clientEthernetAddress : Bytes
  magicCookie : Nat
  options : Options
  deriving DecidableEq

/-- The loop over the options; the bytes are `data[offset:]`. -/
def readOptions : Bytes → Options → Except Exn Options
  | key :: length :: rest, options =>
      if key.toNat = DHCPOptionKey.endKey.code then .ok options
      else
        match DHCPOptionKey.ofCode? key.toNat with
        | some optionKey =>
            match bytes2dhcpOptionValue optionKey (rest.take length.toNat) with
            | .ok value => readOptions (rest.drop length.toNat) (options.set optionKey value)
            | .error e => .error e
        | none => readOptions (rest.drop length.toNat) options
  | _, options => .ok options
termination_by data => data.length
decreasing_by all_goals simp only [List.length_drop, List.length_cons]; omega

/-- The loop that appends the options. -/
def writeOptions : List (DHCPOptionKey × DHCPOptionValue) → Except Exn Bytes
  | [] => .ok []
  | (key, value) :: options =>
      if key ≠ .endKey ∧ key ≠ .padding then do
        let optionAsData ← dhcpOptionValue2bytes key value
        let head ← pack .native [.B, .B] [key.code, optionAsData.length]
        let rest ← writeOptions options
        return head ++ optionAsData ++ rest
      else writeOptions options

namespace DHCPPacket

def fromBytes (data : Bytes) : Except Exn DHCPPacket := do
  match slice data 0 4 with
  | [op, htype, hlen, hops] =>
      match ← unpackFrom .native [.I, .H, .H] data 4 with
      | [xid, secs, flags] =>
          let clientIPAddress ← inetNtoa (slice data 12 16)
          let yourIPAddress ← inetNtoa (slice data 16 20)
          let serverIPAddress ← inetNtoa (slice data 20 24)
          let gatewayIPAddress ← inetNtoa (slice data 24 28)
          let clientEthernetAddress := slice data 28 44
          -- 192 octets of 0s, or overflow space for additional options; BOOTP legacy.
          match ← unpackFrom .native [.I] data 236 with
          | [magicCookie] =>
              let options ← readOptions (data.drop 240) Dict.empty
              return {
                op := op.toNat, htype := htype.toNat, hlen := hlen.toNat, hops := hops.toNat,
                xid, secs, flags, clientIPAddress, yourIPAddress, serverIPAddress,
                gatewayIPAddress, clientEthernetAddress, magicCookie, options }
          | _ => throw .structError
      | _ => throw .structError
  -- too many or too few values to unpack
  | _ => throw .valueError

def toBytes (p : DHCPPacket) : Except Exn Bytes := do
  let head ← bytesOf [p.op, p.htype, p.hlen, p.hops]
  let ids ← pack .native [.I, .H, .H] [p.xid, p.secs, p.flags]
  let client ← inetAton p.clientIPAddress
  let your ← inetAton p.yourIPAddress
  let server ← inetAton p.serverIPAddress
  let gateway ← inetAton p.gatewayIPAddress
  let magic ← pack .native [.I] [p.magicCookie]
  let options ← writeOptions p.options.entries
  let mark ← pack .native [.B, .B] [DHCPOptionKey.endKey.code, 0]
  return head ++ ids ++ client ++ your ++ server ++ gateway ++ p.clientEthernetAddress
    ++ List.replicate 192 0 ++ magic ++ options ++ mark

end DHCPPacket

end Dhcp
end NetworkingFinal

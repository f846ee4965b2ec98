/-
  NetworkingFinal.Dhcp.Handlers

  The handlers of the DHCP messages (src/dhcp/handlers.py).  A handler turns the
  packet it got into its reply by assigning fields, so every reply keeps the
  transaction id and the hardware address of its request.
-/
import NetworkingFinal.Dhcp.Database

namespace NetworkingFinal
namespace Dhcp

open Py Py.Prog

/-- `broadcast`: a packet that does not encode is not sent. -/
def broadcast (packet : DHCPPacket) : Prog State Unit := do
  let _ ← lift packet.toBytes
  modify fun s => { s with sent := s.sent ++ [packet] }

-- ============================================================================
-- Replies
-- ============================================================================

/-- `if asked and address: options[key] = address` -/
def addAsked (asked : Bool) (key : DHCPOptionKey) (address : Option Str) (options : Options) :
    Options :=
  match asked, address with
  | true, some (c :: cs) => options.set key (.str (c :: cs))
  | _, _ => options

def createAdditionalOptions (database : Database) (packet : DHCPPacket) : Options :=
  let options : Options := Dict.empty
  let options := options.set .dhcpServer (.str database.serverAddress)
  let options := options.set .ipAddressLeaseTime (.int database.leaseTime)
  let options := options.set .renewalTime (.int database.renewalTime)
  let options := options.set .rebindingTime (.int database.rebindingTime)
  let options := options.set .subnetMask (.str database.subnetMask)
  let options := options.set .router (.str database.router)
  match packet.options.get? .paramterRequestList with
  | some (.parameters items) =>
      let options := addAsked (.domainNameServer ∈ items) .domainNameServer database.dns options
      addAsked (.broadcastAddress ∈ items) .broadcastAddress database.broadcastAddress options
  | _ => options

/-- The fields every reply sets. -/
def DHCPPacket.reply (packet : DHCPPacket) (database : Database) (client your : Str) :
    DHCPPacket :=
  { packet with
    op := 2, clientIPAddress := client, yourIPAddress := your,
    serverIPAddress := database.serverAddress, gatewayIPAddress := "0.0.0.0".toList }

/-- `for key in additional_options: packet.options[key] = additional_options[key]` -/
def DHCPPacket.addOptions (packet : DHCPPacket) (database : Database) : DHCPPacket :=
  { packet with options := packet.options.update (createAdditionalOptions database packet) }

/-- The Offer; the options of the Discover are gone when the additional ones are made. -/
def offerPacket (database : Database) (packet : DHCPPacket) (yourIPAddress : Str) : DHCPPacket :=
  { packet.reply database "0.0.0.0".toList yourIPAddress with
    options := Dict.empty.set .messageType (.messageType .offer) }.addOptions database

def nakPacket (database : Database) (packet : DHCPPacket) : DHCPPacket :=
  { packet.reply database "0.0.0.0".toList "0.0.0.0".toList with
    options := (Dict.empty.set .messageType (.messageType .nak)).set .dhcpServer
      (.str database.serverAddress) }

/-- The ACK, which keeps the options of the Request. -/
def ackPacket (database : Database) (packet : DHCPPacket) (client your : Str) : DHCPPacket :=
  { packet.reply database client your with
    options := packet.options.set .messageType (.messageType .ack) }.addOptions database

-- ============================================================================
-- Handlers
-- ============================================================================

/-- The requested address, when the option is there. -/
def requestedIPAddress (packet : DHCPPacket) : Except Exn (Option Str) :=
  match packet.options.get? .requestedIPAddress with
  | none => .ok none
  | some (.str ip) => .ok (some ip)
  | some _ => .error .assertionError

def handleDiscover (now : Int) (packet : DHCPPacket) : Prog State Unit := do
  let requested ← lift (requestedIPAddress packet)
  match ← getIp now requested with
  | none | some [] => return ()
  | some yourIPAddress =>
      let s ← get
      broadcast (offerPacket s.database packet yourIPAddress)

/-- `handle_request_validation`, returning the address of a valid request. -/
def handleRequestValidation (database : Database) (packet : DHCPPacket) :
    Except Exn (Option Str) := do
  if packet.options.get? .dhcpServer ∉ [none, some (.str database.serverAddress)] then
    return none
  else
    match ← requestedIPAddress packet with
    | none => return none
    | some ip =>
        if ← database.isAvailable ip none then return some ip
        else return none

/-- Store a lease for the address and acknowledge it. -/
def grant (now : Int) (packet : DHCPPacket) (client ip : Str) : Prog State Unit := do
  let s ← get
  updateLeases fun leases => leases.set ip ⟨now + s.database.leaseTime⟩
  broadcast (ackPacket s.database packet client ip)

def handleRequest (now : Int) (packet : DHCPPacket) : Prog State Unit := do
  let s ← get
  match ← lift (handleRequestValidation s.database packet) with
  | none => broadcast (nakPacket s.database packet)
  | some requestedIPAddress => grant now packet "0.0.0.0".toList requestedIPAddress

def handleRenewalRequest (now : Int) (packet : DHCPPacket) : Prog State Unit :=
  grant now packet packet.clientIPAddress packet.clientIPAddress

def handleRelease (packet : DHCPPacket) : Prog State Unit := do
  let s ← get
  if packet.clientIPAddress ∉ s.database.ipAddressLeases.keys then return ()
  else updateLeases fun leases => leases.erase packet.clientIPAddress

end Dhcp
end NetworkingFinal

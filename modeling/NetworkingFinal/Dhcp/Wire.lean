/-
  NetworkingFinal.Dhcp.Wire

  What the decoder makes of an encoded packet.  Every well-formed packet whose
  parameter list has at most 255 entries comes back with the same header and the
  same options; a parameter list comes back as the set of its entries
  (`SameOptions`).

  - `readOptions_writeOptions`: the induction over the options, on the codec of one
    option (`read_written`).
  - `packet_roundTrip`: the whole packet.
-/
import NetworkingFinal.Dhcp.Packets

namespace NetworkingFinal
namespace Dhcp

open Py Py.Struct

-- ============================================================================
-- One option
-- ============================================================================

/-- The values of the kind that belongs to the key; none for the two marks. -/
def OfKind : DHCPOptionKey → DHCPOptionValue → Prop
  | .messageType, .messageType _ => True
  | .ipAddressLeaseTime, .int n | .renewalTime, .int n | .rebindingTime, .int n =>
      0 ≤ n ∧ n < 2 ^ 32
  | .requestedIPAddress, .str text | .subnetMask, .str text | .router, .str text
  | .dhcpServer, .str text | .domainNameServer, .str text | .broadcastAddress, .str text =>
      DottedQuad text
  | .paramterRequestList, .parameters items => DHCPParameterRequest.unknown ∉ items
  | _, _ => False

/-- The same value, where a parameter list stands for the set of its entries. -/
inductive SameValue : DHCPOptionValue → DHCPOptionValue → Prop where
  | refl (value : DHCPOptionValue) : SameValue value value
  | parameters {items items' : List DHCPParameterRequest} (h : ∀ r, r ∈ items ↔ r ∈ items') :
      SameValue (.parameters items) (.parameters items')

/-- The value of an option as it comes back. -/
def asRead : DHCPOptionValue → DHCPOptionValue
  | .parameters items => .parameters (DHCPParameterRequest.listOfSet items)
  | value => value

theorem sameValue_asRead (value : DHCPOptionValue) : SameValue value (asRead value) := by
  cases value with
  | parameters items =>
      exact .parameters fun r => (DHCPParameterRequest.mem_listOfSet items r).symm
  | _ => exact .refl _

/-- An option whose length fits into the length byte. -/
def Short : DHCPOptionValue → Prop
  | .parameters items => items.length ≤ 255
  | _ => True

theorem seconds_written {n : Int} (h : 0 ≤ n ∧ n < 2 ^ 32) :
    ∃ data, packInt .big .I n = .ok data ∧ data.length = 4 ∧
      unpack .big [.I] data = .ok [n.toNat] := by
  obtain ⟨m, rfl⟩ := Int.eq_ofNat_of_zero_le h.1
  have hm : Code.I.Fits m := by
    show m < 256 ^ 4
    omega
  obtain ⟨data, hdata⟩ := pack_of_fits .big (.cons hm .nil)
  exact ⟨data, hdata, pack_length hdata, unpack_pack hdata⟩

theorem address_written {text : Str} (h : DottedQuad text) :
    ∃ data, inetAton text = .ok data ∧ data.length = 4 ∧ inetNtoa data = .ok text := by
  obtain ⟨packed, hpacked⟩ := h
  exact ⟨packed, inetAton_inetNtoa hpacked, length_of_inetNtoa hpacked, hpacked⟩

theorem parameters_written {items : List DHCPParameterRequest}
    (h : DHCPParameterRequest.unknown ∉ items) :
    ∃ data, bytesOf ((items.map DHCPParameterRequest.code).filter (· ≠ 0)) = .ok data ∧
      data.length = items.length ∧
      data.map (fun item => DHCPParameterRequest.fromValue item.toNat) = items := by
  have hall : (items.map DHCPParameterRequest.code).filter (· ≠ 0)
      = items.map DHCPParameterRequest.code := by
    rw [List.filter_eq_self]
    intro n hn
    obtain ⟨r, hr, rfl⟩ := List.mem_map.mp hn
    have hne : r ≠ .unknown := fun he => h (he ▸ hr)
    simpa using DHCPParameterRequest.code_ne_zero hne
  have hlt : ∀ n ∈ items.map DHCPParameterRequest.code, n < 256 := by
    intro n hn
    obtain ⟨r, -, rfl⟩ := List.mem_map.mp hn
    exact r.code_lt
  refine ⟨_, by rw [hall]; exact bytesOf_of_lt hlt, by simp, ?_⟩
  rw [List.map_map, List.map_map]
  conv_rhs => rw [← List.map_id items]
  apply List.map_congr_left
  intro r _
  simp [toNat_ofNat_of_lt r.code_lt]

theorem seconds_codec {key : DHCPOptionKey} {n : Int} (h : 0 ≤ n ∧ n < 2 ^ 32)
    (hkey : key ∈ [.ipAddressLeaseTime, .renewalTime, DHCPOptionKey.rebindingTime]) :
    ∃ data, dhcpOptionValue2bytes key (.int n) = .ok data ∧ data.length < 256 ∧
      bytes2dhcpOptionValue key data = .ok (.int n) := by
  obtain ⟨data, hdata, hlen, hback⟩ := seconds_written h
  have hn : (n.toNat : Int) = n := Int.toNat_of_nonneg h.1
  simp only [List.mem_cons, List.not_mem_nil, or_false] at hkey
  rcases hkey with rfl | rfl | rfl
  all_goals exact ⟨data, hdata, by omega, by simp [bytes2dhcpOptionValue, hback, hn]⟩

theorem address_codec {key : DHCPOptionKey} {text : Str} (h : DottedQuad text)
    (hkey : key ∈ [.requestedIPAddress, .subnetMask, .router, .dhcpServer, .domainNameServer,
      DHCPOptionKey.broadcastAddress]) :
    ∃ data, dhcpOptionValue2bytes key (.str text) = .ok data ∧ data.length < 256 ∧
      bytes2dhcpOptionValue key data = .ok (.str text) := by
  obtain ⟨data, hdata, hlen, hback⟩ := address_written h
  simp only [List.mem_cons, List.not_mem_nil, or_false] at hkey
  rcases hkey with rfl | rfl | rfl | rfl | rfl | rfl
  all_goals exact ⟨data, hdata, by omega, by simp [bytes2dhcpOptionValue, hback]⟩

theorem messageType_codec (t : MessageType) :
    ∃ data, dhcpOptionValue2bytes .messageType (.messageType t) = .ok data ∧
      data.length < 256 ∧ bytes2dhcpOptionValue .messageType data = .ok (.messageType t) := by
  have hfits : Code.B.Fits t.code := t.code_lt
  obtain ⟨data, hdata⟩ := pack_of_fits .native (.cons hfits .nil)
  have hlen : data.length = 1 := pack_length hdata
  exact ⟨data, hdata, by omega, by
    simp [bytes2dhcpOptionValue, unpack_pack hdata, norms, Code.norm]⟩

/-- The codec of one option. -/
theorem read_written {key : DHCPOptionKey} {value : DHCPOptionValue} (hkind : OfKind key value)
    (hshort : Short value) :
    (key ≠ .endKey ∧ key ≠ .padding) ∧
    ∃ data, dhcpOptionValue2bytes key value = .ok data ∧ data.length < 256 ∧
      bytes2dhcpOptionValue key data = .ok (asRead value) := by
  unfold OfKind at hkind
  split at hkind
  case h_1 t => exact ⟨by decide, messageType_codec t⟩
  case h_11 items =>
      obtain ⟨data, hdata, hlen, hback⟩ := parameters_written hkind
      have hle : items.length ≤ 255 := hshort
      exact ⟨by decide, data, hdata, by omega, by
        simp only [bytes2dhcpOptionValue, hback, asRead]⟩
  case h_12 => exact hkind.elim
  all_goals first
    | exact ⟨by decide, seconds_codec hkind (by decide)⟩
    | exact ⟨by decide, address_codec hkind (by decide)⟩

-- ============================================================================
-- All options
-- ============================================================================

theorem toNat_code (key : DHCPOptionKey) : (UInt8.ofNat key.code).toNat = key.code :=
  toNat_ofNat_of_lt key.code_lt

/-- A key and a length as they stand before the value. -/
theorem option_head (key : DHCPOptionKey) {data : Bytes} (h : data.length < 256) :
    pack .native [.B, .B] [key.code, data.length] =
      .ok [UInt8.ofNat key.code, UInt8.ofNat data.length] := by
  have hkey : Code.B.norm key.code < 256 ^ Code.B.size := key.code_lt
  have hlen : Code.B.norm data.length < 256 ^ Code.B.size := h
  rw [pack, packFrom, if_pos hkey, packFrom, if_pos hlen, packFrom]
  simp [Code.norm, Order.pad, Code.size, Order.toBytes, toLittle, Nat.mod_eq_of_lt key.code_lt,
    Nat.mod_eq_of_lt h]

/-- Reading an encoded option. -/
theorem readOptions_option {key : DHCPOptionKey} {data : Bytes} {value : DHCPOptionValue}
    (hkey : key ≠ .endKey) (hlen : data.length < 256)
    (hvalue : bytes2dhcpOptionValue key data = .ok value) (rest : Bytes) (options : Options) :
    readOptions (UInt8.ofNat key.code :: UInt8.ofNat data.length :: (data ++ rest)) options =
      readOptions rest (options.set key value) := by
  have hcode : key.code ≠ DHCPOptionKey.endKey.code := by
    intro h
    have := congrArg DHCPOptionKey.ofCode? h
    rw [DHCPOptionKey.ofCode?_code, DHCPOptionKey.ofCode?_code, Option.some_inj] at this
    exact hkey this
  rw [readOptions, toNat_code, if_neg hcode, DHCPOptionKey.ofCode?_code,
    toNat_ofNat_of_lt hlen, List.take_left, List.drop_left]
  simp only [hvalue]

/-- The end mark stops the loop. -/
theorem readOptions_end (length : UInt8) (rest : Bytes) (options : Options) :
    readOptions (UInt8.ofNat DHCPOptionKey.endKey.code :: length :: rest) options =
      .ok options := by
  rw [readOptions, toNat_code, if_pos rfl]

/-- Encoded options come back: what was there before stays unless it is stored again. -/
theorem readOptions_writeOptions {entries : List (DHCPOptionKey × DHCPOptionValue)}
    (hnodup : (entries.map Prod.fst).Nodup)
    (hkind : ∀ entry ∈ entries, OfKind entry.1 entry.2)
    (hshort : ∀ entry ∈ entries, Short entry.2) (length : UInt8) (options : Options) :
    ∃ data options', writeOptions entries = .ok data ∧
      readOptions (data ++ [UInt8.ofNat DHCPOptionKey.endKey.code, length]) options
        = .ok options' ∧
      ∀ key, options'.get? key = ((entries.lookup key).map asRead).or (options.get? key) := by
  induction entries generalizing options with
  | nil => exact ⟨[], options, rfl, readOptions_end length [] options, fun key => rfl⟩
  | cons entry entries ih =>
      obtain ⟨key, value⟩ := entry
      rw [List.map_cons, List.nodup_cons] at hnodup
      obtain ⟨hmark, data, hdata, hlen, hback⟩ :=
        read_written (hkind _ List.mem_cons_self) (hshort _ List.mem_cons_self)
      obtain ⟨rest, options', hrest, hread, hget⟩ :=
        ih hnodup.2 (fun e he => hkind e (List.mem_cons_of_mem _ he))
          (fun e he => hshort e (List.mem_cons_of_mem _ he)) (options.set key (asRead value))
      refine ⟨_, options', by
        rw [writeOptions, if_pos hmark, hdata, except_ok_bind, option_head key hlen,
          except_ok_bind, hrest, except_ok_bind, except_pure], ?_, ?_⟩
      · simp only [List.append_assoc, List.cons_append, List.nil_append]
        rw [readOptions_option hmark.1 hlen hback, hread]
      · intro k
        rw [hget k, Dict.lookup_cons_ite, Dict.get?_set]
        by_cases hk : k = key
        · subst hk
          simp [Dict.lookup_eq_none_of_notMem hnodup.1]
        · simp [hk]

-- ============================================================================
-- The packet
-- ============================================================================

/-- The packets the round trip is about. -/
structure DHCPPacket.WellFormed (p : DHCPPacket) : Prop where
  op : p.op < 256
  htype : p.htype < 256
  hlen : p.hlen < 256
  hops : p.hops < 256
  xid : p.xid < 2 ^ 32
  secs : p.secs < 2 ^ 16
  flags : p.flags < 2 ^ 16
  client : DottedQuad p.clientIPAddress
  your : DottedQuad p.yourIPAddress
  server : DottedQuad p.serverIPAddress
  gateway : DottedQuad p.gatewayIPAddress
  ethernet : p.clientEthernetAddress.length = 16
  cookie : p.magicCookie < 2 ^ 32
  options : ∀ key value, p.options.get? key = some value → OfKind key value

/-- The same options map, parameter lists compared as sets. -/
def SameOptions (options options' : Options) : Prop :=
  ∀ key, Option.Rel SameValue (options.get? key) (options'.get? key)

/-- The packet encodes, and decodes to the same header and the same options. -/
def DHCPPacket.RoundTrips (p : DHCPPacket) : Prop :=
  ∃ data options, p.toBytes = .ok data ∧ DHCPPacket.fromBytes data = .ok { p with options } ∧
    SameOptions p.options options

/-- The bytes of a packet, part by part. -/
structure DHCPPacket.Parts (p : DHCPPacket) where
  ids : Bytes
  client : Bytes
  your : Bytes
  server : Bytes
  gateway : Bytes
  magic : Bytes
  ids_eq : pack .native [.I, .H, .H] [p.xid, p.secs, p.flags] = .ok ids
  client_eq : inetNtoa client = .ok p.clientIPAddress
  your_eq : inetNtoa your = .ok p.yourIPAddress
  server_eq : inetNtoa server = .ok p.serverIPAddress
  gateway_eq : inetNtoa gateway = .ok p.gatewayIPAddress
  magic_eq : pack .native [.I] [p.magicCookie] = .ok magic

namespace DHCPPacket

variable {p : DHCPPacket}

/-- The four bytes before the transaction id. -/
def head (p : DHCPPacket) : Bytes :=
  [UInt8.ofNat p.op, UInt8.ofNat p.htype, UInt8.ofNat p.hlen, UInt8.ofNat p.hops]

theorem WellFormed.parts (h : p.WellFormed) : Nonempty p.Parts := by
  have hids : List.Forall₂ Code.Fits [.I, .H, .H] [p.xid, p.secs, p.flags] :=
    .cons h.xid (.cons h.secs (.cons h.flags .nil))
  have hcookie : List.Forall₂ Code.Fits [.I] [p.magicCookie] := .cons h.cookie .nil
  obtain ⟨ids, ids_eq⟩ := pack_of_fits .native hids
  obtain ⟨magic, magic_eq⟩ := pack_of_fits .native hcookie
  obtain ⟨client, client_eq⟩ := h.client
  obtain ⟨your, your_eq⟩ := h.your
  obtain ⟨server, server_eq⟩ := h.server
  obtain ⟨gateway, gateway_eq⟩ := h.gateway
  exact ⟨{ ids, client, your, server, gateway, magic, ids_eq, client_eq, your_eq, server_eq,
           gateway_eq, magic_eq }⟩

/-- What stands before the options. -/
def Parts.header (b : p.Parts) : Bytes :=
  p.head ++ b.ids ++ b.client ++ b.your ++ b.server ++ b.gateway ++ p.clientEthernetAddress
    ++ List.replicate 192 0 ++ b.magic

theorem Parts.toBytes_eq (b : p.Parts) (h : p.WellFormed) {options : Bytes}
    (hoptions : writeOptions p.options.entries = .ok options) :
    p.toBytes =
      .ok (b.header ++ (options ++ [UInt8.ofNat DHCPOptionKey.endKey.code, UInt8.ofNat 0])) := by
  have hhead : bytesOf [p.op, p.htype, p.hlen, p.hops] = .ok p.head := by
    apply bytesOf_of_lt
    simp [h.op, h.htype, h.hlen, h.hops]
  have hmark := @option_head .endKey [] (by decide)
  rw [List.length_nil] at hmark
  simp only [toBytes, hhead, b.ids_eq, inetAton_inetNtoa b.client_eq, inetAton_inetNtoa b.your_eq,
    inetAton_inetNtoa b.server_eq, inetAton_inetNtoa b.gateway_eq, b.magic_eq, hoptions, hmark,
    except_ok_bind, except_pure, header, List.append_assoc]

theorem Parts.fromBytes_eq (b : p.Parts) (h : p.WellFormed) {rest : Bytes} {options : Options}
    (hoptions : readOptions rest Dict.empty = .ok options) :
    fromBytes (b.header ++ rest) = .ok { p with options } := by
  have hids : b.ids.length = 8 := pack_length b.ids_eq
  have hclient := length_of_inetNtoa b.client_eq
  have hyour := length_of_inetNtoa b.your_eq
  have hserver := length_of_inetNtoa b.server_eq
  have hgateway := length_of_inetNtoa b.gateway_eq
  have hethernet := h.ethernet
  have hmagic : b.magic.length = 4 := pack_length b.magic_eq
  have hhead : p.head.length = 4 := rfl
  have hzeros : (List.replicate 192 (0 : UInt8)).length = 192 := List.length_replicate
  have hdrop : (b.header ++ rest).drop 240 = rest := by
    apply List.drop_left'
    simp only [header, List.length_append]
    omega
  -- each part stands at its offset
  simp only [fromBytes, hdrop, hoptions, except_ok_bind]
  simp (disch := omega) only [header, List.append_assoc, slice_append_of_le, slice_append_zero,
    unpackFrom_append_of_le, unpackFrom_pack_zero b.ids_eq, unpackFrom_pack_zero b.magic_eq,
    hids, hclient, hyour, hserver, hgateway, hethernet, hhead, hzeros, Nat.reduceSub, Nat.sub_self,
    except_ok_bind, b.client_eq, b.your_eq, b.server_eq, b.gateway_eq]
  simp only [head, norms, Code.norm, except_pure, toNat_ofNat_of_lt h.op, toNat_ofNat_of_lt h.htype,
    toNat_ofNat_of_lt h.hlen, toNat_ofNat_of_lt h.hops]

end DHCPPacket

/-- Every well-formed packet with a parameter list of at most 255 entries survives the wire. -/
theorem packet_roundTrip (p : DHCPPacket) (h : p.WellFormed)
    (hshort : ∀ items, p.options.get? .paramterRequestList = some (.parameters items) →
      items.length ≤ 255) : p.RoundTrips := by
  obtain ⟨b⟩ := h.parts
  have hkind : ∀ entry ∈ p.options.entries, OfKind entry.1 entry.2 := fun entry hentry =>
    h.options entry.1 entry.2 ((Dict.mem_entries_iff _ _ _).mp hentry)
  have hlists : ∀ entry ∈ p.options.entries, Short entry.2 := by
    rintro ⟨key, value⟩ hentry
    have hget := (Dict.mem_entries_iff _ _ _).mp hentry
    have hof := hkind _ hentry
    cases value with
    | parameters items =>
        cases key
        case paramterRequestList => exact hshort items hget
        all_goals exact hof.elim
    | _ => trivial
  obtain ⟨data, options, hdata, hread, hget⟩ :=
    readOptions_writeOptions p.options.nodup hkind hlists (UInt8.ofNat 0) Dict.empty
  refine ⟨_, options, b.toBytes_eq h hdata, b.fromBytes_eq h hread, fun key => ?_⟩
  rw [hget key, Dict.get?_empty, Option.or_none]
  show Option.Rel SameValue (p.options.get? key) ((p.options.get? key).map asRead)
  cases p.options.get? key with
  | none => exact .none
  | some value => exact .some (sameValue_asRead value)

/-- A Discover that asks for the given parameters. -/
def discoverAsking (items : List DHCPParameterRequest) : DHCPPacket where
  op := 1
  htype := 1
  hlen := 6
  hops := 0
  xid := 7
  secs := 0
  flags := 0
  clientIPAddress := "0.0.0.0".toList
  yourIPAddress := "0.0.0.0".toList
  serverIPAddress := "0.0.0.0".toList
  gatewayIPAddress := "0.0.0.0".toList
  clientEthernetAddress := List.replicate 16 0
  magicCookie := 0x63538263
  options := (Dict.empty.set .messageType (.messageType .discover)).set .paramterRequestList
    (.parameters items)

theorem wellFormed_discoverAsking {items : List DHCPParameterRequest}
    (h : DHCPParameterRequest.unknown ∉ items) : (discoverAsking items).WellFormed where
  op := show 1 < 256 by decide
  htype := show 1 < 256 by decide
  hlen := show 6 < 256 by decide
  hops := show 0 < 256 by decide
  xid := show 7 < 2 ^ 32 by decide
  secs := show 0 < 2 ^ 16 by decide
  flags := show 0 < 2 ^ 16 by decide
  client := ⟨[0, 0, 0, 0], rfl⟩
  your := ⟨[0, 0, 0, 0], rfl⟩
  server := ⟨[0, 0, 0, 0], rfl⟩
  gateway := ⟨[0, 0, 0, 0], rfl⟩
  ethernet := List.length_replicate
  cookie := show 0x63538263 < 2 ^ 32 by decide
  options := by
    intro key value hget
    simp only [discoverAsking, Dict.get?_set, Dict.get?_empty] at hget
    by_cases hlist : key = .paramterRequestList
    · subst hlist
      rw [if_pos rfl, Option.some_inj] at hget
      subst hget
      exact h
    · rw [if_neg hlist] at hget
      by_cases htype : key = .messageType
      · subst htype
        rw [if_pos rfl, Option.some_inj] at hget
        subst hget
        trivial
      · rw [if_neg htype] at hget
        cases hget

theorem packet_roundTrip_discover :
    (discoverAsking [.router, .domainNameServer]).RoundTrips :=
  packet_roundTrip _ (wellFormed_discoverAsking (by decide)) (by
    intro items hitems
    rw [discoverAsking, Dict.get?_set_self, Option.some_inj] at hitems
    cases hitems
    decide)

/-- The length of a list of 256 parameters does not fit into the length byte. -/
theorem not_roundTrip_longList :
    (discoverAsking (List.replicate 256 .router)).WellFormed ∧
      (discoverAsking (List.replicate 256 .router)).toBytes = .error .structError ∧
      ¬ (discoverAsking (List.replicate 256 .router)).RoundTrips := by
  have hbytes : (discoverAsking (List.replicate 256 .router)).toBytes = .error .structError := by
    decide +kernel
  have hknown : DHCPParameterRequest.unknown ∉ List.replicate 256 DHCPParameterRequest.router := by
    intro h
    cases List.eq_of_mem_replicate h
  refine ⟨wellFormed_discoverAsking hknown, hbytes, ?_⟩
  rintro ⟨data, options, hdata, -⟩
  rw [hbytes] at hdata
  cases hdata

end Dhcp
end NetworkingFinal

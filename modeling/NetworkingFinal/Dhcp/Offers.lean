/-
  NetworkingFinal.Dhcp.Offers

  A client that takes up an offer.  An address that was offered is available, and the
  Request for it comes with the client address 0.0.0.0, which is no lease as long as it
  lies outside the server's network; so `handle_request` gets the Request, accepts it and
  leases the address.

  The ACK may carry addresses that the Offer did not: those of the DNS server and of the
  broadcast, when the Request asks for them.  They come from the configuration, which
  nothing checks, and an ACK that does not encode is not sent.

  - `keysInNetwork_of_exec`: the leased addresses are in the server's network.
  - `offer_honoured`: what becomes of the Request.
-/
import NetworkingFinal.Dhcp.Encoding
import NetworkingFinal.Dhcp.Leases
import NetworkingFinal.Dhcp.Requests

namespace NetworkingFinal
namespace Dhcp

open Py Py.Prog Lib Database

-- ============================================================================
-- The network of the leased addresses
-- ============================================================================

/-- The database has the configuration `d`, and its leased addresses have the server's
    prefix. -/
structure KeysInNetwork (d d' : Database) : Prop where
  config : ∃ leases, d' = d.withLeases leases
  keys : ∀ ip ∈ d'.ipAddressLeases.keys, ∃ pre, d.getPrefix = .ok pre ∧ pre.isPrefixOf ip = true

variable {d d' : Database} {now : Int} {q : DHCPPacket} {ip : Str}

theorem KeysInNetwork.getPrefix_eq (h : KeysInNetwork d d') : d'.getPrefix = d.getPrefix := by
  obtain ⟨leases, rfl⟩ := h.config
  rfl

theorem KeysInNetwork.effect {s u : State} (h : KeysInNetwork d s.database)
    (heffect : Effect now q s u) : KeysInNetwork d u.database := by
  constructor
  · obtain ⟨leases, hleases⟩ := h.config
    obtain ⟨leases', hleases'⟩ := withLeases_of_effect heffect
    exact ⟨leases', by rw [hleases', hleases]; rfl⟩
  · intro ip hip
    obtain ⟨lease, hget⟩ := (Dict.mem_keys_iff _ _).mp hip
    rcases origin_of_effect heffect hget with hold | ⟨-, hold | havailable⟩
    · exact h.keys ip ((Dict.mem_keys_iff _ _).mpr ⟨lease, hold⟩)
    · exact h.keys ip hold
    · rw [← h.getPrefix_eq]
      exact havailable.hasPrefix

theorem KeysInNetwork.step {s u : Server} {e : Event} (h : KeysInNetwork d s.state.database)
    (hu : step s e = some u) : KeysInNetwork d u.state.database := by
  cases e with
  | datagram data now =>
      rcases effect_of_step hu with hsame | ⟨q, -, heffect⟩
      · rw [hsame]
        exact h
      · exact h.effect heffect
  | timeout => rwa [eq_of_timeout hu]

theorem keysInNetwork_of_exec {es : List Event} {s : Server}
    (hempty : d.ipAddressLeases = Dict.empty) (h : exec step (Server.init d) es = some s) :
    KeysInNetwork d s.state.database := by
  apply exec_invariant (fun s => KeysInNetwork d s.state.database) _ _ h
  · refine ⟨⟨d.ipAddressLeases, rfl⟩, fun ip hip => ?_⟩
    have hnone : ip ∈ d.ipAddressLeases.keys := hip
    rw [hempty] at hnone
    cases hnone
  · intro t e u ht hu
    exact ht.step hu

theorem not_dot_of_mem_decimal {n : Nat} : '.' ∉ decimal n := fun h =>
  absurd (isDigit_of_mem_decimal h) (by decide)

/-- The prefix of a dotted quad holds three dots, the last one at its end. -/
theorem getPrefix_of_dottedQuad (h : DottedQuad d.serverAddress) :
    ∃ first, d.getPrefix = .ok (first ++ ['.']) ∧ first.count '.' = 2 := by
  obtain ⟨packed, hpacked⟩ := h
  match packed, hpacked with
  | [a, b, c, e], hpacked =>
      rw [inetNtoa, Except.ok.injEq] at hpacked
      have hcount : ∀ n : Nat, (decimal n).count '.' = 0 := fun n =>
        List.count_eq_zero.mpr not_dot_of_mem_decimal
      have hlast : ∀ x ∈ (decimal e.toNat).reverse, decide (x ≠ '.') = true := by
        intro x hx
        rw [decide_eq_true_eq]
        rintro rfl
        exact not_dot_of_mem_decimal (List.mem_reverse.mp hx)
      refine ⟨decimal a.toNat ++ '.' :: (decimal b.toNat ++ '.' :: decimal c.toNat), ?_, ?_⟩
      · rw [getPrefix, ← hpacked]
        simp only [List.reverse_append, List.reverse_cons, List.append_assoc,
          List.dropWhile_append_of_pos hlast, List.cons_append, List.nil_append]
        rw [List.dropWhile_cons_of_neg (by decide)]
        simp
      · simp only [List.count_append, List.count_cons, hcount]
        decide

/-- For a server address that `inet_ntoa` would write, only the prefix 0.0.0. holds the
    address 0.0.0.0. -/
theorem outside_of_dottedQuad (h : DottedQuad d.serverAddress)
    (hne : d.getPrefix ≠ .ok "0.0.0.".toList) (pre : Str) (hpre : d.getPrefix = .ok pre) :
    pre.isPrefixOf "0.0.0.0".toList = false := by
  obtain ⟨first, hfirst, hcount⟩ := getPrefix_of_dottedQuad h
  rw [hpre, Except.ok.injEq] at hfirst
  subst hfirst
  rw [Bool.eq_false_iff]
  intro hbegins
  rw [List.isPrefixOf_iff_prefix, List.prefix_iff_eq_take] at hbegins
  generalize (first ++ ['.']).length = n at hbegins
  have hdots : ("0.0.0.0".toList.take n).count '.' = 3 := by
    rw [← hbegins, List.count_append, hcount]
    rfl
  have hends : ("0.0.0.0".toList.take n).getLast? = some '.' := by
    rw [← hbegins, List.getLast?_concat]
  -- of the beginnings of the address, only one has three dots and ends with a dot
  have honly : ∀ m ≤ 7, ("0.0.0.0".toList.take m).count '.' = 3 →
      ("0.0.0.0".toList.take m).getLast? = some '.' → m = 6 := by decide
  have htake : ("0.0.0.0".toList.take n) = "0.0.0.0".toList.take (min n 7) := by
    rw [List.take_eq_take_iff]
    have hseven : "0.0.0.0".toList.length = 7 := by decide
    omega
  rw [htake] at hbegins hdots hends
  rw [honly _ (Nat.min_le_right n 7) hdots hends] at hbegins
  exact hne (hpre.trans (congrArg Except.ok hbegins))
-- ============================================================================
-- What the replies carry
-- ============================================================================

/-- The client asks for the parameter. -/
def Asks (q : DHCPPacket) (r : DHCPParameterRequest) : Prop :=
  ∃ items, q.options.get? .paramterRequestList = some (.parameters items) ∧ r ∈ items

/-- The configured address is left out of the replies, or `inet_aton` reads it. -/
def Sendable (address : Option Str) : Prop :=
  ∀ text, address = some text → text ≠ [] → ReadableAddress text

/-- The configured addresses that the client asks for can be sent. -/
structure AsksSendable (d : Database) (q : DHCPPacket) : Prop where
  dns : Asks q .domainNameServer → Sendable d.dns
  broadcastAddress : Asks q .broadcastAddress → Sendable d.broadcastAddress

theorem of_get?_addAsked {asked : Bool} {key key' : DHCPOptionKey} {address : Option Str}
    {options : Options} {value : DHCPOptionValue}
    (h : (addAsked asked key address options).get? key' = some value) :
    options.get? key' = some value ∨
      (key' = key ∧ asked = true ∧
        ∃ text, address = some text ∧ text ≠ [] ∧ value = .str text) := by
  unfold addAsked at h
  split at h
  · next c cs =>
      rw [Dict.get?_set] at h
      split at h
      · next heq => exact Or.inr ⟨heq, rfl, c :: cs, rfl, nofun, (Option.some.inj h).symm⟩
      · exact Or.inl h
  · exact Or.inl h

/-- An additional option is one that every reply has, or an address that was asked for. -/
theorem of_get?_createAdditionalOptions {p : DHCPPacket}
    (hp : p.options.get? .paramterRequestList = none) {key : DHCPOptionKey}
    {value : DHCPOptionValue} (h : (createAdditionalOptions d q).get? key = some value) :
    (createAdditionalOptions d p).get? key = some value ∨
      (key = .domainNameServer ∧ Asks q .domainNameServer ∧
        ∃ text, d.dns = some text ∧ text ≠ [] ∧ value = .str text) ∨
      (key = .broadcastAddress ∧ Asks q .broadcastAddress ∧
        ∃ text, d.broadcastAddress = some text ∧ text ≠ [] ∧ value = .str text) := by
  simp only [createAdditionalOptions, hp]
  simp only [createAdditionalOptions] at h
  split at h
  · next items hitems =>
      rcases of_get?_addAsked h with h | ⟨hkey, hasked, htext⟩
      · rcases of_get?_addAsked h with h | ⟨hkey, hasked, htext⟩
        · exact Or.inl h
        · exact Or.inr (Or.inl ⟨hkey, ⟨items, hitems, of_decide_eq_true hasked⟩, htext⟩)
      · exact Or.inr (Or.inr ⟨hkey, ⟨items, hitems, of_decide_eq_true hasked⟩, htext⟩)
  · exact Or.inl h

theorem writable_messageType (t : MessageType) : Writable .messageType (.messageType t) :=
  writable_of_ofKind trivial trivial

theorem readable_zeros : ReadableAddress "0.0.0.0".toList := ⟨[0, 0, 0, 0], by decide +kernel⟩

/-- Where an Offer of the address encodes, so does the ACK, if the Request asks for nothing
    that cannot be sent. -/
theorem encodable_ackPacket {p : DHCPPacket} (hq : q.Encodable)
    (hoffer : (offerPacket d p ip).Encodable) (hasked : AsksSendable d q) :
    (ackPacket d q "0.0.0.0".toList ip).Encodable := by
  have hhead : ∀ n ∈ [2, q.htype, q.hlen, q.hops], n < 256 := by
    have hall := hq.head
    simp only [List.forall_mem_cons] at hall ⊢
    exact ⟨by decide, hall.2⟩
  refine ⟨hhead, hq.ids, readable_zeros, hoffer.your, hoffer.server, readable_zeros, hq.magic, ?_⟩
  intro key value hget
  rw [ackPacket, DHCPPacket.addOptions, Dict.get?_update, Option.or_eq_some_iff] at hget
  rcases hget with hnew | ⟨-, hold⟩
  · -- the Offer has the option too, or the Request asked for it
    let offer : DHCPPacket := { p.reply d "0.0.0.0".toList ip with
      options := Dict.empty.set .messageType (.messageType .offer) }
    have hplain : ∀ v, (createAdditionalOptions d offer).get? key = some v → Writable key v := by
      intro v hv
      apply hoffer.options key v
      rw [offerPacket, DHCPPacket.addOptions, Dict.get?_update, hv, Option.some_or]
    have hnone : offer.options.get? .paramterRequestList = none := rfl
    have hlist : ∀ r, Asks { q.reply d "0.0.0.0".toList ip with
        options := q.options.set .messageType (.messageType .ack) } r → Asks q r := by
      rintro r ⟨items, hitems, hr⟩
      refine ⟨items, ?_, hr⟩
      rw [← hitems]
      exact (Dict.get?_set_of_ne (by decide)).symm
    rcases of_get?_createAdditionalOptions hnone hnew with
      h | ⟨rfl, hasks, text, hd, hne, rfl⟩ | ⟨rfl, hasks, text, hd, hne, rfl⟩
    · exact hplain value h
    · exact (writable_address_iff (by decide)).mpr (hasked.dns (hlist _ hasks) text hd hne)
    · exact (writable_address_iff (by decide)).mpr
        (hasked.broadcastAddress (hlist _ hasks) text hd hne)
  · rw [Dict.get?_set] at hold
    split at hold
    · next heq =>
        cases hold
        exact heq ▸ writable_messageType .ack
    · exact hq.options key value hold

/-- An address that is configured and asked for is among the additional options. -/
theorem get?_addAsked_self {key : DHCPOptionKey} {address : Option Str} {text : Str}
    (haddress : address = some text) (hne : text ≠ []) (options : Options) :
    (addAsked true key address options).get? key = some (.str text) := by
  cases text with
  | nil => exact absurd rfl hne
  | cons c cs =>
      rw [haddress, addAsked]
      exact Dict.get?_set_self _ _ _

/-- If the ACK encodes, then the Request asks for nothing that cannot be sent. -/
theorem asksSendable_of_ackPacket {client your : Str}
    (h : (ackPacket d q client your).Encodable) : AsksSendable d q := by
  have hoptions : ∀ key value, (createAdditionalOptions d { q.reply d client your with
      options := q.options.set .messageType (.messageType .ack) }).get? key = some value →
      Writable key value := by
    intro key value hget
    apply h.options key value
    rw [ackPacket, DHCPPacket.addOptions, Dict.get?_update, hget, Option.some_or]
  have hlist : ∀ items, q.options.get? .paramterRequestList = some (.parameters items) →
      (q.options.set .messageType (.messageType .ack)).get? .paramterRequestList =
        some (.parameters items) :=
    fun items hitems => (Dict.get?_set_of_ne (by decide)).trans hitems
  constructor
  · rintro ⟨items, hitems, hmem⟩ text htext hne
    rw [← @writable_address_iff .domainNameServer _ (by decide)]
    apply hoptions
    simp only [createAdditionalOptions, hlist items hitems]
    rw [get?_addAsked_of_ne (by decide), decide_eq_true hmem]
    exact get?_addAsked_self htext hne _
  · rintro ⟨items, hitems, hmem⟩ text htext hne
    rw [← @writable_address_iff .broadcastAddress _ (by decide)]
    apply hoptions
    simp only [createAdditionalOptions, hlist items hitems]
    rw [decide_eq_true hmem]
    exact get?_addAsked_self htext hne _

-- ============================================================================
-- The Offer
-- ============================================================================

/-- The step broadcasts an Offer of the address. -/
def Offers (s u : Server) (ip : Str) : Prop :=
  ∃ p, u.state.sent = s.state.sent ++ [p] ∧ p.HasType .offer ∧ p.yourIPAddress = ip

theorem effect_of_offers {s u : Server} {data : Bytes}
    (hu : step s (.datagram data now) = some u) (hq : recvfrom data = .ok (some q))
    (h : Offers s u ip) : Effect now q s.state u.state := by
  rcases effect_of_step hu with hsame | ⟨q', hq', heffect⟩
  · obtain ⟨p, hp, -⟩ := h
    rw [hsame] at hp
    exact absurd (List.self_eq_append_right.mp hp) (List.cons_ne_nil _ _)
  · rw [hq, Except.ok.injEq, Option.some_inj] at hq'
    rwa [hq']

/-- An offered address is available, and the Offer of it encodes. -/
theorem of_offers {s u : Server} (heffect : Effect now q s.state u.state) (h : Offers s u ip) :
    q.HasType .discover ∧ u.state.database.Available ip ∧
      (offerPacket u.state.database q ip).Encodable := by
  obtain ⟨sent, houtcome, hsent⟩ := heffect
  obtain ⟨p, hp, htype, rfl⟩ := h
  rw [hp, List.append_cancel_left_eq] at hsent
  have hmem : p ∈ sent := by
    rw [← hsent]
    exact List.mem_singleton.mpr rfl
  generalize u.state.database = d at houtcome ⊢
  cases houtcome with
  | silent => cases hmem
  | cleaned _ _ => cases hmem
  | @offered _ ip hdiscover _ hip =>
      have hencodes := (encodes_iff _).mp (toBytes_of_mem_broadcasted hmem)
      rw [mem_broadcasted hmem]
      refine ⟨hdiscover, ?_, hencodes⟩
      rcases hip with ⟨-, rfl, havailable⟩ | hpool
      · exact havailable
      · exact hpool.1
  | refused _ =>
      rw [mem_broadcasted hmem] at htype
      cases htype.unique (hasType_nakPacket _ _)
  | leased _ _ _ =>
      rw [mem_broadcasted hmem] at htype
      cases htype.unique (hasType_ackPacket _ _ _ _)
  | renewed _ _ =>
      rw [mem_broadcasted hmem] at htype
      cases htype.unique (hasType_ackPacket _ _ _ _)
  | released _ _ => cases hmem

/-- An exception that ends the handling of a Discover comes before its Offer. -/
theorem wp_handleDiscover_raises {s : State} :
    wp (handleDiscover now q) (fun _ _ => True) (fun _ t => t.sent = s.sent) s := by
  rw [handleDiscover, wp_bind, wp_lift]
  refine ⟨fun requested _ => ?_, fun _ _ => rfl⟩
  rw [wp_bind]
  refine wp_mono wp_getIp (fun r t ht => ?_) fun _ t ht => ht.2
  split
  · trivial
  · trivial
  · next ip _ =>
      rw [wp_bind, wp_get, wp, broadcast_apply]
      cases (offerPacket t.database q ip).toBytes with
      | ok bs => trivial
      | error e => exact ht.1.2

theorem dispatch_discover (htype : q.HasType .discover) :
    dispatch now q = handleDiscover now q := by
  have hmatch : q.options.get? .messageType = some (.messageType .discover) := htype
  rw [dispatch, hmatch]

/-- The loop goes on after an Offer. -/
theorem running_of_offers {s u : Server} {data : Bytes} (hq : recvfrom data = .ok (some q))
    (htype : q.HasType .discover) (hu : step s (.datagram data now) = some u)
    (h : Offers s u ip) : u.stopped = none := by
  rw [step_packet (running_of_step hu) hq, dispatch_discover htype, Option.some_inj] at hu
  have hraises := @wp_handleDiscover_raises now q s.state
  rw [wp] at hraises
  cases hrun : handleDiscover now q s.state with
  | ok a t =>
      rw [hrun] at hu
      rw [← hu]
      rfl
  | error e t =>
      rw [hrun] at hu hraises
      obtain ⟨p, hp, -⟩ := h
      have hsent : u.state.sent = s.state.sent := by
        rw [← hu]
        exact hraises
      rw [hsent] at hp
      exact absurd (List.self_eq_append_right.mp hp) (List.cons_ne_nil _ _)

-- ============================================================================
-- The Request
-- ============================================================================

/-- After the events `es` and a Discover the server offers the address, and the packet is a
    Request for it, to this server or to any. -/
structure TakesOffer (s₀ : Server) (es : List Event) (t : Server) (q : DHCPPacket) (ip : Str) :
    Prop where
  offered : ∃ s data now p, exec step s₀ es = some s ∧ recvfrom data = .ok (some p) ∧
    p.HasType .discover ∧ step s (.datagram data now) = some t ∧ Offers s t ip
  request : q.HasType .request
  client : q.clientIPAddress = "0.0.0.0".toList
  requested : requestedIPAddress q = .ok (some ip)
  server : q.options.get? .dhcpServer ∈ [none, some (.str s₀.state.database.serverAddress)]

/-- `handle_request` gets the packet; the step acknowledges it with the address, leases the
    address from the second `now` on, and leaves the other leases as they were. -/
structure Honoured (t u : Server) (q : DHCPPacket) (now : Int) (ip : Str) : Prop where
  routed : dispatch now q t.state = handleRequest now q t.state
  acknowledged : Acknowledges t u q.clientEthernetAddress ip
  leased : u.state.database.ipAddressLeases.get? ip = some ⟨now + t.state.database.leaseTime⟩
  others : ∀ ip', ip' ≠ ip → u.state.database.ipAddressLeases.get? ip' =
    t.state.database.ipAddressLeases.get? ip'

/-- A Request for an available address is accepted, when 0.0.0.0 is not leased. -/
theorem judged_of_available (hrequest : q.HasType .request)
    (hclient : q.clientIPAddress ∉ d.ipAddressLeases.keys)
    (hserver : q.options.get? .dhcpServer ∈ [none, some (.str d.serverAddress)])
    (hrequested : requestedIPAddress q = .ok (some ip)) (h : d.Available ip) :
    Judged d q (some ip) := by
  refine ⟨hrequest, hclient, ?_⟩
  rw [handleRequestValidation, if_neg (not_not.mpr hserver), hrequested, except_ok_bind]
  simp only [isAvailable_of_available h, except_ok_bind, if_true, except_pure]

/-- An accepted Request is honoured exactly when its ACK encodes. -/
theorem honoured_iff_of_judged {t u : Server} {data : Bytes} (hq : recvfrom data = .ok (some q))
    (hjudged : Judged t.state.database q (some ip))
    (hu : step t (.datagram data now) = some u) :
    Honoured t u q now ip ↔ (ackPacket t.state.database q "0.0.0.0".toList ip).Encodable := by
  have hstate := state_of_accepted hq hjudged hu
  rw [← encodes_iff]
  constructor
  · intro h
    obtain ⟨p, hp, -⟩ := h.acknowledged
    rw [hstate, State.sending, State.leased, List.append_cancel_left_eq] at hp
    exact toBytes_of_mem_broadcasted (hp ▸ List.mem_singleton.mpr rfl)
  · rintro ⟨bs, hbs⟩
    constructor
    · exact dispatch_request hjudged.request hjudged.client
    · refine ⟨ackPacket t.state.database q "0.0.0.0".toList ip, ?_, hasType_ackPacket _ _ _ _,
        rfl, rfl⟩
      rw [hstate, State.sending, State.leased, broadcasted, hbs]
    · rw [hstate]
      exact Dict.get?_set_self _ _ _
    · intro ip' hne
      rw [hstate]
      exact Dict.get?_set_of_ne hne

/-- An offer that a client takes up is honoured, in every run from an empty table, when
    0.0.0.0 does not have the server's prefix: exactly if the configured addresses that the
    Request asks for can be sent. -/
theorem offer_honoured (d : Database) (hempty : d.ipAddressLeases = Dict.empty)
    (houtside : ∀ pre, d.getPrefix = .ok pre → pre.isPrefixOf "0.0.0.0".toList = false)
    (es : List Event) (t : Server) (q : DHCPPacket) (ip : Str)
    (h : TakesOffer (Server.init d) es t q ip) (data : Bytes) (now : Int)
    (hq : recvfrom data = .ok (some q)) :
    (∃ u, step t (.datagram data now) = some u ∧ Honoured t u q now ip) ↔ AsksSendable d q := by
  obtain ⟨s, data', now', p, hs, hp, hdiscover, ht, hoffers⟩ := h.offered
  have hnet := keysInNetwork_of_exec hempty (exec_concat_iff.mpr ⟨s, hs, ht⟩)
  obtain ⟨leases, hconfig⟩ := hnet.config
  obtain ⟨-, havailable, hencodable⟩ := of_offers (effect_of_offers ht hp hoffers) hoffers
  have hclient : q.clientIPAddress ∉ t.state.database.ipAddressLeases.keys := by
    intro hmem
    rw [h.client] at hmem
    obtain ⟨pre, hpre, hbegins⟩ := hnet.keys _ hmem
    rw [houtside pre hpre] at hbegins
    cases hbegins
  have hserver : q.options.get? .dhcpServer ∈
      [none, some (.str t.state.database.serverAddress)] := by
    rw [hconfig]
    exact h.server
  have hsendable : AsksSendable t.state.database q ↔ AsksSendable d q := by
    rw [hconfig]
    exact ⟨fun h => ⟨h.dns, h.broadcastAddress⟩, fun h => ⟨h.dns, h.broadcastAddress⟩⟩
  have hjudged := judged_of_available h.request hclient hserver h.requested havailable
  have hstep := @step_packet now q t data (running_of_offers hp hdiscover ht hoffers) hq
  have hiff := honoured_iff_of_judged hq hjudged hstep
  rw [← hsendable]
  constructor
  · rintro ⟨u, hu, hhonoured⟩
    rw [hstep, Option.some_inj] at hu
    rw [← hu, hiff] at hhonoured
    exact asksSendable_of_ackPacket hhonoured
  · intro hasked
    have hdecoded := encodable_of_fromBytes (fromBytes_of_recvfrom hq)
    exact ⟨_, hstep, hiff.mpr (encodable_ackPacket hdecoded hencodable hasked)⟩

/-- A Discover without a wish. -/
def discoverNew : DHCPPacket := clientPacket .discover 1 "0.0.0.0".toList none

/-- A Request for the first address of the default pool, which asks for the DNS server. -/
def requestTen : DHCPPacket :=
  let request := clientPacket .request 1 "0.0.0.0".toList (some "192.168.100.10".toList)
  { request with
    options := request.options.set .paramterRequestList (.parameters [.domainNameServer]) }

/-- The datagram with the packet. -/
def datagramOf (packet : DHCPPacket) : Bytes := packet.toBytes.toOption.getD []

/-- The server of the configuration offers the address to the Discover. -/
theorem takesOffer_of_run {es : List Event} {s t : Server} {p : DHCPPacket}
    (hs : exec step (Server.init d) es = some s)
    (hp : recvfrom (datagramOf p) = .ok (some p)) (hdiscover : p.HasType .discover)
    (ht : step s (.datagram (datagramOf p) now) = some t) (hoffers : Offers s t ip)
    (hrequest : q.HasType .request) (hclient : q.clientIPAddress = "0.0.0.0".toList)
    (hrequested : requestedIPAddress q = .ok (some ip))
    (hserver : q.options.get? .dhcpServer = none) : TakesOffer (Server.init d) es t q ip where
  offered := ⟨s, _, now, p, hs, hp, hdiscover, ht, hoffers⟩
  request := hrequest
  client := hclient
  requested := hrequested
  server := by
    rw [hserver]
    exact List.mem_cons_self

theorem offer_honoured_requestTen :
    ∃ t u, step (Server.init {}) (.datagram (datagramOf discoverNew) 0) = some t ∧
      step t (.datagram (datagramOf requestTen) 1) = some u ∧
      Honoured t u requestTen 1 "192.168.100.10".toList := by
  have hrun : (step (Server.init {}) (.datagram (datagramOf discoverNew) 0)).map
      (fun s => s.state.sent) = some [offerPacket {} discoverNew "192.168.100.10".toList] := by
    decide +kernel
  obtain ⟨t, ht, hsent⟩ := Option.map_eq_some_iff.mp hrun
  have htakes : TakesOffer (Server.init {}) [] t requestTen "192.168.100.10".toList :=
    takesOffer_of_run rfl (by decide +kernel) (by decide) ht
      ⟨_, hsent, hasType_offerPacket _ _ _, rfl⟩ (by decide) rfl (by decide) (by decide)
  have hnetwork := @outside_of_dottedQuad {} ⟨[192, 168, 100, 1], by decide +kernel⟩ (by decide)
  have hasked : AsksSendable {} requestTen := by
    constructor
    · intro _ text htext _
      cases htext
      exact ⟨[8, 8, 8, 8], by decide +kernel⟩
    · intro _ text htext _
      cases htext
  obtain ⟨u, hu, hhonoured⟩ := (offer_honoured {} rfl hnetwork [] t requestTen _ htakes
    (datagramOf requestTen) 1 (by decide +kernel)).mpr hasked
  exact ⟨t, u, ht, hu, hhonoured⟩

/-- Every offer that a client takes up is honoured. -/
def OfferHonoured (d : Database) : Prop :=
  ∀ es t q ip, TakesOffer (Server.init d) es t q ip → ∀ data now,
    recvfrom data = .ok (some q) →
    ∃ u, step t (.datagram data now) = some u ∧ Honoured t u q now ip

/-- The addresses of the pool can be sent. -/
def PoolReadable (d : Database) : Prop :=
  ∀ pre, d.getPrefix = .ok pre → ∀ i ∈ d.pool, ReadableAddress (pre ++ str i)

/-- The DNS server is configured by its name. -/
def dnsByName : Database := { dns := some "dns.google".toList }

/-- The server address is written in two parts, so that its prefix is `0.` -/
def shortServer : Database := { serverAddress := "0.1".toList }

def requestOf (ip : String) : DHCPPacket :=
  clientPacket .request 1 "0.0.0.0".toList (some ip.toList)

def discoverFive : DHCPPacket := clientPacket .discover 1 "0.0.0.0".toList (some "0.0.0.5".toList)

theorem poolReadable_of_all {pre : Str} (hpre : d.getPrefix = .ok pre)
    (h : ∀ i ∈ d.pool, (inetAton (pre ++ str i)).toOption.isSome = true) : PoolReadable d := by
  intro pre' hpre' i hi
  rw [hpre, Except.ok.injEq] at hpre'
  subst hpre'
  have hsome := h i hi
  cases haddress : inetAton (pre ++ str i) with
  | ok packed => exact ⟨packed, haddress⟩
  | error e =>
      rw [haddress] at hsome
      cases hsome

/-- The ACK with the name of the DNS server does not encode, and ends the loop. -/
theorem not_offerHonoured_dnsByName : ¬ OfferHonoured dnsByName := by
  have hrun : ((step (Server.init dnsByName) (.datagram (datagramOf discoverNew) 0)).map fun t =>
      (t.state.sent, (step t (.datagram (datagramOf requestTen) 1)).map fun u => u.state.sent)) =
      some ([offerPacket dnsByName discoverNew "192.168.100.10".toList],
        some [offerPacket dnsByName discoverNew "192.168.100.10".toList]) := by
    decide +kernel
  obtain ⟨t, ht, hfields⟩ := Option.map_eq_some_iff.mp hrun
  obtain ⟨hsent, hafter⟩ := Prod.mk.inj hfields
  intro hall
  have htakes : TakesOffer (Server.init dnsByName) [] t requestTen "192.168.100.10".toList :=
    takesOffer_of_run rfl (by decide +kernel) (by decide) ht
      ⟨_, hsent, hasType_offerPacket _ _ _, rfl⟩ (by decide) rfl (by decide) (by decide)
  obtain ⟨u, hu, hhonoured⟩ := hall [] t requestTen _ htakes (datagramOf requestTen) 1
    (by decide +kernel)
  obtain ⟨p, hp, -⟩ := hhonoured.acknowledged
  rw [hu, Option.map_some, Option.some_inj] at hafter
  rw [hafter, hsent] at hp
  exact absurd (List.self_eq_append_right.mp hp) (List.cons_ne_nil _ _)

/-- The address 0.0.0.0 is leased, so that a Request without a client address renews it. -/
theorem not_offerHonoured_shortServer : ¬ OfferHonoured shortServer := by
  let zeros : Event := .datagram (datagramOf (requestOf "0.0.0.0")) 0
  let five : Event := .datagram (datagramOf discoverFive) 1
  let take : Event := .datagram (datagramOf (requestOf "0.0.0.5")) 2
  let ack := ackPacket shortServer (requestOf "0.0.0.0") "0.0.0.0".toList "0.0.0.0".toList
  let offer := offerPacket shortServer discoverFive "0.0.0.5".toList
  have hfirst : (step (Server.init shortServer) zeros).map (fun s => s.state.sent) =
      some [ack] := by
    decide +kernel
  have hsecond : ((step (Server.init shortServer) zeros).bind (step · five)).map
      (fun s => s.state.sent) = some [ack, offer] := by
    decide +kernel
  have hrun : (exec step (Server.init shortServer) [zeros, five, take]).map
      (fun s => s.state.database.ipAddressLeases.keys) = some ["0.0.0.0".toList] := by
    decide +kernel
  obtain ⟨u, hu, hkeys⟩ := Option.map_eq_some_iff.mp hrun
  obtain ⟨s, hs, hsu⟩ := exec_cons_iff.mp hu
  obtain ⟨t, ht, htu⟩ := exec_cons_iff.mp hsu
  obtain ⟨v, hv, hvu⟩ := exec_cons_iff.mp htu
  rw [exec_nil, Option.some_inj] at hvu
  subst hvu
  rw [hs, Option.map_some, Option.some_inj] at hfirst
  rw [hs, Option.bind_some, ht, Option.map_some, Option.some_inj] at hsecond
  have hoffers : Offers s t "0.0.0.5".toList :=
    ⟨offer, by rw [hsecond, hfirst]; rfl, hasType_offerPacket _ _ _, rfl⟩
  have htakes : TakesOffer (Server.init shortServer) [zeros] t (requestOf "0.0.0.5")
      "0.0.0.5".toList :=
    takesOffer_of_run (exec_cons_iff.mpr ⟨s, hs, rfl⟩) (by decide +kernel) (by decide) ht hoffers
      (by decide) rfl (by decide) (by decide)
  intro hall
  obtain ⟨u, hu, hhonoured⟩ := hall [zeros] t _ _ htakes (datagramOf (requestOf "0.0.0.5")) 2
    (by decide +kernel)
  rw [hv, Option.some_inj] at hu
  have hleased := (Dict.mem_keys_iff _ _).mpr ⟨_, hhonoured.leased⟩
  rw [← hu, hkeys] at hleased
  exact absurd hleased (by decide)

/-- Neither an unreadable DNS server nor a server address in two parts is excluded by the
    prefix and the pool. -/
theorem not_offer_honoured :
    (dnsByName.ipAddressLeases = Dict.empty ∧ dnsByName.getPrefix ≠ .ok "0.0.0.".toList ∧
      PoolReadable dnsByName ∧ ¬ OfferHonoured dnsByName) ∧
    (shortServer.ipAddressLeases = Dict.empty ∧ shortServer.getPrefix ≠ .ok "0.0.0.".toList ∧
      PoolReadable shortServer ∧ ¬ OfferHonoured shortServer) := by
  have hdns : dnsByName.getPrefix = .ok "192.168.100.".toList := by decide
  have hshort : shortServer.getPrefix = .ok "0.".toList := by decide
  have hdnsPool := poolReadable_of_all hdns (by decide +kernel)
  have hshortPool := poolReadable_of_all hshort (by decide +kernel)
  exact ⟨⟨rfl, by decide, hdnsPool, not_offerHonoured_dnsByName⟩,
    ⟨rfl, by decide, hshortPool, not_offerHonoured_shortServer⟩⟩

end Dhcp
end NetworkingFinal

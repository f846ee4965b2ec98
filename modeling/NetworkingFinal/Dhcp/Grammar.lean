/-
  NetworkingFinal.Dhcp.Grammar

  The options area as the grammar of DHCP has it: Pad bytes and options of a code, a
  length and a value, up to the End mark, with anything after it.  The decoder knows no
  Pad: it takes the byte for the code of an option, the next byte for its length, and
  loses the boundaries from there on.

  - `fromBytes_of_header`: the header decides nothing about the options.
  - `grammar_followed_iff`: the areas that are read as the grammar says.
-/
import NetworkingFinal.Dhcp.Receive
import NetworkingFinal.Dhcp.Wire

namespace NetworkingFinal
namespace Dhcp

open Py Py.Struct

-- ============================================================================
-- The grammar
-- ============================================================================

inductive Item where
  | pad
  | option (code : UInt8) (value : Bytes)
  deriving DecidableEq

namespace Item

def toBytes : Item → Bytes
  | pad => [0]
  | option code value => code :: UInt8.ofNat value.length :: value

/-- The recognised code of an option. -/
def key? : Item → Option DHCPOptionKey
  | pad => none
  | option code _ => DHCPOptionKey.ofCode? code.toNat

/-- A recognised option with its decoded value. -/
def decoded? : Item → Option (DHCPOptionKey × DHCPOptionValue)
  | pad => none
  | option code value => do
      let key ← DHCPOptionKey.ofCode? code.toNat
      let value ← (bytes2dhcpOptionValue key value).toOption
      return (key, value)

end Item

/-- The options area: its items, the End mark and what follows it. -/
def optionsArea (items : List Item) (trailing : Bytes) : Bytes :=
  items.flatMap Item.toBytes ++ UInt8.ofNat DHCPOptionKey.endKey.code :: trailing

/-- The codes are no marks, the lengths fit a byte, the decoder of a recognised code accepts the
    value, and no recognised code comes twice. -/
structure Grammatical (items : List Item) : Prop where
  marks : ∀ code value, .option code value ∈ items → 1 ≤ code.toNat ∧ code.toNat ≤ 254
  short : ∀ code value, .option code value ∈ items → value.length < 256
  accepted : ∀ code value, .option code value ∈ items →
    ∀ key, DHCPOptionKey.ofCode? code.toNat = some key →
      ∃ v, bytes2dhcpOptionValue key value = .ok v
  once : (items.filterMap Item.key?).Nodup

/-- The packet has the recognised options with their values and no others, and it is the one
    that is read without the Pad bytes and what follows the End mark. -/
def FollowsGrammar (header : Bytes) (items : List Item) (trailing : Bytes) : Prop :=
  (∃ p, DHCPPacket.fromBytes (header ++ optionsArea items trailing) = .ok p ∧
    p.options.entries = items.filterMap Item.decoded?) ∧
  DHCPPacket.fromBytes (header ++ optionsArea items trailing) =
    DHCPPacket.fromBytes (header ++ optionsArea (items.filter (· ≠ .pad)) [])

-- ============================================================================
-- The header
-- ============================================================================

/-- What is read of the header. -/
theorem fromBytes_of_header {header : Bytes} (h : header.length = 240) :
    ∃ p : DHCPPacket, ∀ rest, DHCPPacket.fromBytes (header ++ rest) =
      (readOptions rest Dict.empty).map fun options => { p with options } := by
  obtain ⟨op, htype, hlen, hops, hfour⟩ := List.length_eq_four.mp
    (show (slice header 0 4).length = 4 by rw [length_slice]; omega)
  have haddress : ∀ i, i + 4 ≤ 240 → ∃ text, inetNtoa (slice header i (i + 4)) = .ok text := by
    intro i hi
    apply inetNtoa_of_length
    rw [length_slice]
    omega
  obtain ⟨client, hclient⟩ := haddress 12 (by decide)
  obtain ⟨your, hyour⟩ := haddress 16 (by decide)
  obtain ⟨server, hserver⟩ := haddress 20 (by decide)
  obtain ⟨gateway, hgateway⟩ := haddress 24 (by decide)
  have hslice : ∀ rest i j, j ≤ 240 → slice (header ++ rest) i j = slice header i j :=
    fun rest i j hj => slice_append_left (hj.trans h.ge)
  refine ⟨⟨op.toNat, htype.toNat, hlen.toNat, hops.toNat, numberAt header 4 4, numberAt header 8 2,
    numberAt header 10 2, client, your, server, gateway, slice header 28 44,
    numberAt header 236 4, Dict.empty⟩, fun rest => ?_⟩
  have hlong : 240 ≤ (header ++ rest).length := by
    rw [List.length_append]
    omega
  have hdrop : (header ++ rest).drop 240 = rest := List.drop_left' h
  simp (disch := omega) only [DHCPPacket.fromBytes, hslice, hfour, unpack_header, unpack_cookie,
    if_pos, except_ok_bind, hclient, hyour, hserver, hgateway, hdrop, numberAt]
  cases readOptions rest Dict.empty <;> rfl

-- ============================================================================
-- The loop over the options
-- ============================================================================

theorem optionsArea_option (code : UInt8) (value : Bytes) (items : List Item) (trailing : Bytes) :
    optionsArea (.option code value :: items) trailing =
      code :: UInt8.ofNat value.length :: (value ++ optionsArea items trailing) := by
  simp [optionsArea, Item.toBytes]

theorem Grammatical.tail {item : Item} {items : List Item} (h : Grammatical (item :: items)) :
    Grammatical items where
  marks code value hmem := h.marks code value (List.mem_cons_of_mem _ hmem)
  short code value hmem := h.short code value (List.mem_cons_of_mem _ hmem)
  accepted code value hmem := h.accepted code value (List.mem_cons_of_mem _ hmem)
  once := by
    have honce := h.once
    cases hkey : item.key? with
    | none => rwa [List.filterMap_cons_none hkey] at honce
    | some key =>
        rw [List.filterMap_cons_some hkey] at honce
        exact honce.of_cons

/-- The loop passes over an option whose code it does not know. -/
theorem readOptions_unknown {code : UInt8} {value : Bytes} (hmark : code.toNat ≤ 254)
    (hshort : value.length < 256) (hkey : DHCPOptionKey.ofCode? code.toNat = none) (rest : Bytes)
    (options : Options) :
    readOptions (code :: UInt8.ofNat value.length :: (value ++ rest)) options =
      readOptions rest options := by
  have hend : code.toNat ≠ DHCPOptionKey.endKey.code := by
    show code.toNat ≠ 255
    omega
  rw [readOptions, if_neg hend, toNat_ofNat_of_lt hshort, List.drop_left]
  simp only [hkey]

/-- The loop stores an option whose code it knows. -/
theorem readOptions_known {code : UInt8} {value : Bytes} {key : DHCPOptionKey}
    {v : DHCPOptionValue} (hmark : code.toNat ≤ 254) (hshort : value.length < 256)
    (hkey : DHCPOptionKey.ofCode? code.toNat = some key)
    (hv : bytes2dhcpOptionValue key value = .ok v) (rest : Bytes) (options : Options) :
    readOptions (code :: UInt8.ofNat value.length :: (value ++ rest)) options =
      readOptions rest (options.set key v) := by
  have hcode := code_of_ofCode? hkey
  have hend : key ≠ .endKey := by
    rintro rfl
    rw [← hcode] at hmark
    exact absurd hmark (by decide)
  rw [← readOptions_option hend hshort hv rest options, hcode, UInt8.ofNat_toNat]

/-- Without Pad bytes the recognised options are stored in their order. -/
theorem readOptions_area {items : List Item} (h : Grammatical items) (hpad : .pad ∉ items)
    {options : Options} (hfresh : ∀ key ∈ items.filterMap Item.key?, key ∉ options.keys)
    (trailing : Bytes) :
    ∃ options', readOptions (optionsArea items trailing) options = .ok options' ∧
      options'.entries = options.entries ++ items.filterMap Item.decoded? := by
  induction items generalizing options with
  | nil =>
      refine ⟨options, ?_, (List.append_nil _).symm⟩
      cases trailing with
      | nil => rw [optionsArea, List.flatMap_nil, List.nil_append, readOptions]; simp
      | cons length rest => exact readOptions_end length rest options
  | cons item items ih =>
      rw [List.mem_cons, not_or] at hpad
      cases item with
      | pad => exact absurd rfl hpad.1
      | option code value =>
          have hmark := (h.marks code value List.mem_cons_self).2
          have hshort := h.short code value List.mem_cons_self
          rw [optionsArea_option]
          cases hkey : DHCPOptionKey.ofCode? code.toNat with
          | none =>
              have hnone : Item.decoded? (.option code value) = none := by
                rw [Item.decoded?, hkey]
                rfl
              have hnokey : Item.key? (.option code value) = none := hkey
              rw [List.filterMap_cons_none hnokey] at hfresh
              rw [List.filterMap_cons_none hnone, readOptions_unknown hmark hshort hkey]
              exact ih h.tail hpad.2 hfresh
          | some key =>
              obtain ⟨v, hv⟩ := h.accepted code value List.mem_cons_self key hkey
              have hsome : Item.decoded? (.option code value) = some (key, v) := by
                rw [Item.decoded?, hkey, Option.bind_eq_bind, Option.bind_some, hv]
                rfl
              have hiskey : Item.key? (.option code value) = some key := hkey
              have honce := h.once
              rw [List.filterMap_cons_some hiskey] at hfresh honce
              rw [List.filterMap_cons_some hsome, readOptions_known hmark hshort hkey hv]
              have hfresh' : ∀ key' ∈ items.filterMap Item.key?,
                  key' ∉ (options.set key v).keys := by
                intro key' hkey' hmem
                rcases (Dict.mem_keys_set _ _ _ _).mp hmem with rfl | hmem
                · exact (List.nodup_cons.mp honce).1 hkey'
                · exact hfresh key' (List.mem_cons_of_mem _ hkey') hmem
              obtain ⟨options', hread, hentries⟩ := ih h.tail hpad.2 hfresh'
              refine ⟨options', hread, ?_⟩
              rw [hentries, Dict.entries_set_of_notMem (hfresh key List.mem_cons_self),
                List.append_assoc]
              rfl

/-- An option that was stored is overwritten at most. -/
theorem mem_keys_of_readOptions {data : Bytes} {options options' : Options} {key : DHCPOptionKey}
    (h : readOptions data options = .ok options') (hkey : key ∈ options.keys) :
    key ∈ options'.keys := by
  induction data, options using readOptions.induct with
  | case1 code length rest options hend =>
      rw [readOptions, if_pos hend, Except.ok.injEq] at h
      exact h ▸ hkey
  | case2 code length rest options hend optionKey hcode value hvalue ih =>
      rw [readOptions, if_neg hend] at h
      simp only [hcode, hvalue] at h
      exact ih h ((Dict.mem_keys_set _ _ _ _).mpr (Or.inr hkey))
  | case3 code length rest options hend optionKey hcode e he =>
      rw [readOptions, if_neg hend] at h
      simp only [hcode, he, reduceCtorEq] at h
  | case4 code length rest options hend hcode ih =>
      rw [readOptions, if_neg hend] at h
      simp only [hcode] at h
      exact ih h hkey
  | case5 data options hshort =>
      rw [readOptions.eq_2 data options hshort, Except.ok.injEq] at h
      exact h ▸ hkey

/-- A Pad byte is stored as an option. -/
theorem padding_of_pad {items : List Item} (h : Grammatical items) (hpad : .pad ∈ items)
    {options options' : Options} {trailing : Bytes}
    (hread : readOptions (optionsArea items trailing) options = .ok options') :
    .padding ∈ options'.keys := by
  induction items generalizing options with
  | nil => cases hpad
  | cons item items ih =>
      cases item with
      | pad =>
          have hcons : optionsArea (.pad :: items) trailing = 0 :: optionsArea items trailing := rfl
          rw [hcons] at hread
          -- the End mark at least follows
          cases harea : optionsArea items trailing with
          | nil => exact absurd (List.append_eq_nil_iff.mp harea).2 (List.cons_ne_nil _ _)
          | cons length rest =>
              rw [harea, readOptions, if_neg (by decide)] at hread
              exact mem_keys_of_readOptions hread ((Dict.mem_keys_set _ _ _ _).mpr (Or.inl rfl))
      | option code value =>
          have hmark := (h.marks code value List.mem_cons_self).2
          have hshort := h.short code value List.mem_cons_self
          have hrest : .pad ∈ items := (List.mem_cons.mp hpad).resolve_left fun h => by cases h
          rw [optionsArea_option] at hread
          cases hkey : DHCPOptionKey.ofCode? code.toNat with
          | none =>
              rw [readOptions_unknown hmark hshort hkey] at hread
              exact ih h.tail hrest hread
          | some key =>
              obtain ⟨v, hv⟩ := h.accepted code value List.mem_cons_self key hkey
              rw [readOptions_known hmark hshort hkey hv] at hread
              exact ih h.tail hrest hread

/-- No item is recognised as Padding. -/
theorem Grammatical.padding_notMem {items : List Item} (h : Grammatical items) :
    .padding ∉ (items.filterMap Item.decoded?).map Prod.fst := by
  intro hmem
  obtain ⟨entry, hentry, hfst⟩ := List.mem_map.mp hmem
  obtain ⟨item, hitem, hdecoded⟩ := List.mem_filterMap.mp hentry
  cases item with
  | pad => cases hdecoded
  | option code value =>
      obtain ⟨key, hkey, hdecoded⟩ := Option.bind_eq_some_iff.mp hdecoded
      obtain ⟨v, -, hentry⟩ := Option.bind_eq_some_iff.mp hdecoded
      cases hentry
      have hcode := code_of_ofCode? hkey
      have hmark := (h.marks code value hitem).1
      rw [← hcode, show key = .padding from hfst] at hmark
      exact absurd hmark (by decide)

-- ============================================================================
-- The packet
-- ============================================================================

/-- The options area is read as the grammar says exactly if it has no Pad byte. -/
theorem grammar_followed_iff {header : Bytes} (hheader : header.length = 240) {items : List Item}
    (h : Grammatical items) (trailing : Bytes) :
    FollowsGrammar header items trailing ↔ .pad ∉ items := by
  obtain ⟨packet, hpacket⟩ := fromBytes_of_header hheader
  have hfresh : ∀ key ∈ items.filterMap Item.key?, key ∉ (Dict.empty : Options).keys :=
    fun _ _ => List.not_mem_nil
  constructor
  · rintro ⟨⟨p, hp, hentries⟩, -⟩ hpad
    rw [hpacket] at hp
    cases hread : readOptions (optionsArea items trailing) Dict.empty with
    | error e =>
        rw [hread] at hp
        cases hp
    | ok options =>
        rw [hread] at hp
        cases hp
        have hmem : .padding ∈ options.keys := padding_of_pad h hpad hread
        rw [Dict.keys, hentries] at hmem
        exact h.padding_notMem hmem
  · intro hpad
    obtain ⟨options, hread, hentries⟩ := readOptions_area h hpad hfresh trailing
    obtain ⟨options', hread', hentries'⟩ := readOptions_area h hpad hfresh []
    have hsame : options' = options := by
      cases options
      cases options'
      exact Dict.mk.injEq .. ▸ hentries'.trans hentries.symm
    have hfilter : items.filter (· ≠ .pad) = items := by
      rw [List.filter_eq_self]
      intro item hitem
      rw [decide_eq_true_iff]
      rintro rfl
      exact hpad hitem
    constructor
    · exact ⟨{ packet with options }, by rw [hpacket, hread]; rfl, hentries⟩
    · rw [hfilter, hpacket, hpacket, hread, hread', hsame]

def zeroHeader : Bytes := List.replicate 240 0

/-- A Discover with a host name, which is no recognised option, and an empty parameter request
    list. -/
def discoverItems : List Item :=
  [.option 53 [1], .option 12 [104, 111, 115, 116], .option 55 []]

theorem grammatical_discoverItems : Grammatical discoverItems where
  marks := by
    intro code value hmem
    simp only [discoverItems, List.mem_cons, Item.option.injEq, List.not_mem_nil, or_false] at hmem
    rcases hmem with ⟨rfl, rfl⟩ | ⟨rfl, rfl⟩ | ⟨rfl, rfl⟩ <;> decide
  short := by
    intro code value hmem
    simp only [discoverItems, List.mem_cons, Item.option.injEq, List.not_mem_nil, or_false] at hmem
    rcases hmem with ⟨rfl, rfl⟩ | ⟨rfl, rfl⟩ | ⟨rfl, rfl⟩ <;> decide
  accepted := by
    intro code value hmem key hkey
    simp only [discoverItems, List.mem_cons, Item.option.injEq, List.not_mem_nil, or_false] at hmem
    rcases hmem with ⟨rfl, rfl⟩ | ⟨rfl, rfl⟩ | ⟨rfl, rfl⟩ <;> cases hkey <;> exact ⟨_, rfl⟩
  once := by decide

theorem grammar_followed_iff_discover :
    FollowsGrammar zeroHeader discoverItems [1, 2, 3] :=
  (grammar_followed_iff List.length_replicate grammatical_discoverItems [1, 2, 3]).mpr (by decide)

/-- A Pad byte before the message type: 53 is taken for the length of an option, and the packet
    has no message type. -/
theorem not_grammar_followed :
    ¬ ∀ (header : Bytes) (items : List Item) (trailing : Bytes), header.length = 240 →
      Grammatical items → FollowsGrammar header items trailing := by
  intro hall
  have hitems : Grammatical [.pad, .option 53 [1]] := by
    refine ⟨?_, ?_, ?_, by decide⟩
    · intro code value hmem
      cases hmem with
      | tail _ hmem => cases List.mem_singleton.mp hmem; decide
    · intro code value hmem
      cases hmem with
      | tail _ hmem => cases List.mem_singleton.mp hmem; decide
    · intro code value hmem key hkey
      cases hmem with
      | tail _ hmem =>
          cases List.mem_singleton.mp hmem
          cases hkey
          exact ⟨_, rfl⟩
  obtain ⟨⟨p, hp, hentries⟩, -⟩ := hall zeroHeader _ [] List.length_replicate hitems
  have hcheck : (DHCPPacket.fromBytes (zeroHeader ++ optionsArea [.pad, .option 53 [1]] [])).map
      (fun p => p.options.get? .messageType) = .ok none := by
    decide +kernel
  rw [hp] at hcheck
  have hnone : p.options.get? .messageType = none := Except.ok.inj hcheck
  rw [Dict.get?, hentries] at hnone
  exact absurd hnone (by decide +kernel)

end Dhcp
end NetworkingFinal

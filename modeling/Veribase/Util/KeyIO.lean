import Veribase.Util.Base58
import Veribase.Util.Bech32
import Veribase.Util.ConvertBits

/-!
# Addresses

`EncodeDestination` (`key_io.cpp`) writes a destination as an address, and
`DecodeDestination` reads one back.  A public-key-hash or script-hash
destination is a Base58Check string: a one-byte prefix of the chain, then the
20-byte hash.  A witness destination is a bech32 string with the chain's
human-readable part, whose values are the witness version and then the
program regrouped into five-bit values by `ConvertBits<8, 5, true>`; version 0
uses Bech32 and the others Bech32m.  The decoder tries Base58Check first, for
a payload of at most 21 bytes, and falls back to bech32: it checks the
encoding against the version, regroups the program with
`ConvertBits<5, 8, false>` and dispatches on the version and the program's
length (`witnessDestination`).

Both chains of `chainparams.cpp` use the prefixes 70 and 132 and the
human-readable part "vry"; `CChainParams.Valid` is what the proofs need of
them.  `Hash` is the double SHA-256 of `src/crypto`, a parameter.

The round trip holds both ways, with two reservations.

* A witness address has more characters than a Base58Check payload of 21
  bytes can take (`base58_none_of_long`), except for some programs of
  `WitnessUnknown`: for those the round trip assumes that the address does
  not pass Base58Check (`decodeDestination_encodeDestination`).
* Decoding forgives white space around a Base58Check address and the letter
  case of a bech32 one; otherwise it is canonical
  (`encodeDestination_decodeDestination`).  So a space in front of an
  address decodes to a destination whose address lacks it
  (`decodeDestination_leading_space`).
-/

namespace Veribase

open Bech32 ByteStream

/-! ## Destinations and chain parameters -/

/-- `WitnessUnknown`: the version, and the `length` bytes of `program` that
`operator==` compares, as a list. -/
structure WitnessUnknown where
  version : Nat
  /-- `program[0 .. length)`. -/
  program : List UInt8
deriving DecidableEq

/-- `CTxDestination`. -/
inductive CTxDestination
  | CNoDestination
  | PKHash (hash : uint160)
  | ScriptHash (hash : uint160)
  | WitnessV0ScriptHash (hash : uint256)
  | WitnessV0KeyHash (hash : uint160)
  | WitnessUnknown (id : WitnessUnknown)
deriving DecidableEq

/-- The address fields of `CChainParams`: `Base58Prefix(PUBKEY_ADDRESS)`,
`Base58Prefix(SCRIPT_ADDRESS)` and `Bech32HRP()`. -/
structure CChainParams where
  PUBKEY_ADDRESS : List UInt8
  SCRIPT_ADDRESS : List UInt8
  bech32_hrp : List Char

/-- The chains `CreateChainParams` knows. -/
inductive Network
  | VERICOIN
  | VERIUM
deriving DecidableEq

/-- `CreateChainParams(chain)`: `CVericoinParams` and `CVeriumParams`. -/
def createChainParams : Network → CChainParams
  | .VERICOIN => ⟨[70], [132], ['v', 'r', 'y']⟩
  | .VERIUM => ⟨[70], [132], ['v', 'r', 'y']⟩

/-! ## `EncodeDestination` -/

/-- The bech32 address of a witness program: the version, then the program
regrouped by `ConvertBits<8, 5, true>`. -/
def encodeWitness (encoding : Encoding) (hrp : List Char) (version : UInt8)
    (program : List UInt8) : Faulty (List Char) :=
  Bech32.encode encoding hrp
    (version :: (convertBits 8 5 true (program.map UInt8.toNat)).1.map Nat.toUInt8)

/-- `DestinationEncoder`, the visitor of `EncodeDestination`; `{}` is the
empty string. -/
def encodeDestination (Hash : List UInt8 → uint256) (params : CChainParams) :
    CTxDestination → Faulty (List Char)
  | .PKHash id => encodeBase58Check Hash (params.PUBKEY_ADDRESS ++ id.data)
  | .ScriptHash id => encodeBase58Check Hash (params.SCRIPT_ADDRESS ++ id.data)
  | .WitnessV0KeyHash id => encodeWitness .BECH32 params.bech32_hrp 0 id.data
  | .WitnessV0ScriptHash id => encodeWitness .BECH32 params.bech32_hrp 0 id.data
  | .WitnessUnknown id =>
    if id.version < 1 ∨ id.version > 16 ∨ id.program.length < 2 ∨ id.program.length > 40 then
      .ok []
    else encodeWitness .BECH32M params.bech32_hrp id.version.toUInt8 id.program
  | .CNoDestination => .ok []

/-! ## `DecodeDestination` -/

/-- The hash after `pfx` in a Base58Check payload: the payload is
`hash.size() + pfx.size()` bytes and starts with `pfx`. -/
def prefixedHash (pfx data : List UInt8) : Option uint160 :=
  if h : data.length = 20 + pfx.length ∧ data.take pfx.length = pfx then
    some ⟨data.drop pfx.length, by rw [List.length_drop, h.1]; omega⟩
  else none

/-- The Base58Check branch of `DecodeDestination`. -/
def decodeBase58Destination (params : CChainParams) (data : List UInt8) :
    Option CTxDestination :=
  match prefixedHash params.PUBKEY_ADDRESS data with
  | some hash => some (.PKHash hash)
  | none => (prefixedHash params.SCRIPT_ADDRESS data).map .ScriptHash

/-- The end of the bech32 branch: the destination of a witness version and
the program bytes. -/
def witnessDestination (version : UInt8) (data : List UInt8) : CTxDestination :=
  if version = 0 then
    if h : data.length = 20 then .WitnessV0KeyHash ⟨data, h⟩
    else if h : data.length = 32 then .WitnessV0ScriptHash ⟨data, h⟩
    else .CNoDestination
  else if version.toNat > 16 ∨ data.length < 2 ∨ data.length > 40 then .CNoDestination
  else .WitnessUnknown ⟨version.toNat, data⟩

/-- The bech32 branch of `DecodeDestination`. -/
def decodeBech32Destination (params : CChainParams) (dec : DecodeResult) : CTxDestination :=
  match dec.data with
  | [] => .CNoDestination
  | version :: values =>
    if ¬((dec.encoding = .BECH32 ∨ dec.encoding = .BECH32M) ∧ dec.hrp = params.bech32_hrp) then
      .CNoDestination
    else if version = 0 ∧ dec.encoding ≠ .BECH32 then .CNoDestination
    else if version ≠ 0 ∧ dec.encoding ≠ .BECH32M then .CNoDestination
    else
      -- The rest of the symbols are converted witness program bytes.
      match convertBits 5 8 false (values.map UInt8.toNat) with
      | (_, false) => .CNoDestination
      | (data, true) => witnessDestination version (data.map Nat.toUInt8)

/-- `DecodeDestination(str, params)`. -/
def decodeDestination (Hash : List UInt8 → uint256) (str : List Char) (params : CChainParams) :
    Faulty CTxDestination :=
  decodeBase58Check Hash str 21 >>= fun data =>
  match data.bind (decodeBase58Destination params) with
  | some dest => .ok dest
  | none => Bech32.decode str >>= fun dec => .ok (decodeBech32Destination params dec)

example : decodeBech32Destination (createChainParams .VERICOIN)
    ⟨.BECH32M, ['v', 'r', 'y'], [2, 0, 4, 0, 16]⟩ = .WitnessUnknown ⟨2, [1, 1]⟩ := by
  decide

/-! ## What the proofs need of the chain -/

/-- What the address code needs of a chain's parameters: two one-byte
prefixes that differ, and a human-readable part that `Encode` accepts and that
leaves room for a program of 40 bytes. -/
structure CChainParams.Valid (params : CChainParams) : Prop where
  length_PUBKEY_ADDRESS : params.PUBKEY_ADDRESS.length = 1
  length_SCRIPT_ADDRESS : params.SCRIPT_ADDRESS.length = 1
  prefixes_ne : params.PUBKEY_ADDRESS ≠ params.SCRIPT_ADDRESS
  hrp_ne_nil : params.bech32_hrp ≠ []
  hrpChar : ∀ c ∈ params.bech32_hrp, HrpChar c
  length_hrp : params.bech32_hrp.length ≤ 18

theorem hrpChar_vry : ∀ c ∈ ['v', 'r', 'y'], HrpChar c := by
  intro c hc
  simp only [List.mem_cons, List.not_mem_nil, or_false] at hc
  rcases hc with rfl | rfl | rfl <;> decide

theorem createChainParams_valid (chain : Network) : (createChainParams chain).Valid := by
  cases chain <;> exact ⟨rfl, rfl, by decide, by decide, hrpChar_vry, by decide⟩

/-- The destinations `DestinationEncoder` writes an address for. -/
def CTxDestination.HasAddress : CTxDestination → Prop
  | .CNoDestination => False
  | .WitnessUnknown id =>
    1 ≤ id.version ∧ id.version ≤ 16 ∧ 2 ≤ id.program.length ∧ id.program.length ≤ 40
  | _ => True

def CTxDestination.isWitnessUnknown : CTxDestination → Bool
  | .WitnessUnknown _ => true
  | _ => false

/-! ## The Base58Check branch -/

section Base58Branch

theorem prefixedHash_append (pfx : List UInt8) (id : uint160) :
    prefixedHash pfx (pfx ++ id.data) = some id := by
  have h : (pfx ++ id.data).length = 20 + pfx.length ∧ (pfx ++ id.data).take pfx.length = pfx :=
    ⟨by rw [List.length_append, id.length_data, Nat.add_comm], List.take_left' rfl⟩
  rw [prefixedHash, dif_pos h]
  exact congrArg some (uint160.ext_data (List.drop_left' rfl))

theorem prefixedHash_eq_some {pfx data : List UInt8} {id : uint160}
    (h : prefixedHash pfx data = some id) : data = pfx ++ id.data := by
  rw [prefixedHash] at h
  split_ifs at h with hd
  obtain rfl := (Option.some.inj h).symm
  conv_lhs => rw [← List.take_append_drop pfx.length data, hd.2]

/-- Under another prefix of the same length a payload has no hash. -/
theorem prefixedHash_of_ne {pfx pfx' : List UInt8} (hlen : pfx.length = pfx'.length)
    (hne : pfx ≠ pfx') (x : List UInt8) : prefixedHash pfx (pfx' ++ x) = none := by
  rw [prefixedHash, dif_neg]
  rintro ⟨-, htake⟩
  rw [hlen, List.take_left' rfl] at htake
  exact hne htake.symm

variable {params : CChainParams}

theorem decodeBase58Destination_PKHash (id : uint160) :
    decodeBase58Destination params (params.PUBKEY_ADDRESS ++ id.data) = some (.PKHash id) := by
  rw [decodeBase58Destination, prefixedHash_append]

theorem decodeBase58Destination_ScriptHash (hP : params.Valid) (id : uint160) :
    decodeBase58Destination params (params.SCRIPT_ADDRESS ++ id.data) = some (.ScriptHash id) := by
  rw [decodeBase58Destination, prefixedHash_of_ne
    (hP.length_PUBKEY_ADDRESS.trans hP.length_SCRIPT_ADDRESS.symm) hP.prefixes_ne, prefixedHash_append]
  rfl

/-- What the Base58Check branch reads: a prefix and a hash, which
`EncodeDestination` writes back as the same payload. -/
theorem decodeBase58Destination_eq_some (Hash : List UInt8 → uint256) (hP : params.Valid)
    {data : List UInt8} {d : CTxDestination} (h : decodeBase58Destination params data = some d) :
    data.length = 21 ∧ d.HasAddress ∧ encodeDestination Hash params d = encodeBase58Check Hash data := by
  rw [decodeBase58Destination] at h
  split at h
  · rename_i hash hhash
    obtain rfl := (Option.some.inj h).symm
    rw [prefixedHash_eq_some hhash]
    refine ⟨?_, trivial, rfl⟩
    rw [List.length_append, hP.length_PUBKEY_ADDRESS, hash.length_data]
  · obtain ⟨hash, hhash, rfl⟩ := Option.map_eq_some_iff.mp h
    rw [prefixedHash_eq_some hhash]
    refine ⟨?_, trivial, rfl⟩
    rw [List.length_append, hP.length_SCRIPT_ADDRESS, hash.length_data]

variable (Hash : List UInt8 → uint256)

/-- A destination the Base58Check branch reads round-trips through the
Base58Check string of its payload. -/
theorem decodeDestination_base58 (hP : params.Valid) {data : List UInt8} {d : CTxDestination}
    (h : decodeBase58Destination params data = some d) :
    ∃ s, encodeBase58Check Hash data = .ok s ∧ decodeDestination Hash s params = .ok d := by
  have hdata := (decodeBase58Destination_eq_some Hash hP h).1
  obtain ⟨s, hs, hdec⟩ :=
    decodeBase58Check_encodeBase58Check Hash data (show (21 : Int) ≤ 2147483647 - 4 by norm_num)
      (by rw [hdata]; rfl)
  refine ⟨s, hs, ?_⟩
  rw [decodeDestination, hdec, Fault.ok_bind]
  simp only [Option.bind_some, h]

/-- A string with no white space and more than 35 characters is no address
of the Base58Check branch: a payload of 21 bytes and its check take at most
35 characters. -/
theorem base58_none_of_long (hP : params.Valid) {s : List Char} (hs : ∀ c ∈ s, isSpace c = false)
    (hlong : 35 < s.length) :
    ∀ r, decodeBase58Check Hash s 21 = .ok r → r.bind (decodeBase58Destination params) = none := by
  rintro (_ | data) hr
  · rfl
  rw [Option.bind_some]
  cases hd : decodeBase58Destination params data with
  | none => rfl
  | some d =>
    have hlen := length_le_of_decodeBase58Check Hash (by norm_num) hs hr
    rw [(decodeBase58Destination_eq_some Hash hP hd).1] at hlen
    omega

/-- Where the Base58Check branch reads nothing, `DecodeDestination` is its
bech32 branch. -/
theorem decodeDestination_of_base58_none {s : List Char}
    (hb58 : ∀ r, decodeBase58Check Hash s 21 = .ok r → r.bind (decodeBase58Destination params) = none)
    {dec : DecodeResult} (hdec : Bech32.decode s = .ok dec) :
    decodeDestination Hash s params = .ok (decodeBech32Destination params dec) := by
  obtain ⟨r, hr⟩ := decodeBase58Check_ok Hash s 21
  rw [decodeDestination, hr, Fault.ok_bind]
  simp only [hb58 r hr, hdec, Fault.ok_bind]

end Base58Branch

/-! ## The bech32 branch -/

section Bech32Branch

/-- The five-bit values `encodeWitness` writes for a program. -/
def witnessValues (program : List UInt8) : List UInt8 :=
  (convertBits 8 5 true (program.map UInt8.toNat)).1.map Nat.toUInt8

/-- The values of a program are of five bits, `(8 n + 4) / 5` of them, and
regroup back into it. -/
theorem witnessValues_spec (program : List UInt8) :
    (∀ v ∈ witnessValues program, v.toNat < 32) ∧
    (witnessValues program).length = (program.length * 8 + 4) / 5 ∧
    convertBits 5 8 false ((witnessValues program).map UInt8.toNat) =
      (program.map UInt8.toNat, true) := by
  have hbytes : ∀ b ∈ program.map UInt8.toNat, b < 256 := fun b hb => by
    obtain ⟨x, -, rfl⟩ := List.mem_map.mp hb
    exact x.toNat_lt
  obtain ⟨values, hpad, hlt, hlen, hback⟩ := convertBits_roundtrip hbytes
  have hvals : witnessValues program = values.map Nat.toUInt8 := by rw [witnessValues, hpad]
  have hround : (values.map Nat.toUInt8).map UInt8.toNat = values :=
    map_toNat_toUInt8 fun v hv => by have := hlt v hv; omega
  refine ⟨?_, ?_, ?_⟩
  · intro v hv
    rw [hvals] at hv
    obtain ⟨x, hx, rfl⟩ := List.mem_map.mp hv
    have := hlt x hx
    simp only [Nat.toUInt8_eq, UInt8.toNat_ofNat']
    omega
  · rw [hvals, List.length_map, hlen, List.length_map]
  · rw [hvals, hround, hback]

/-- Five-bit values that regroup into bytes are the values of those bytes. -/
theorem witnessValues_of_convertBits {values : List UInt8} {data : List Nat}
    (hvalues : ∀ v ∈ values, v.toNat < 32)
    (h : convertBits 5 8 false (values.map UInt8.toNat) = (data, true)) :
    witnessValues (data.map Nat.toUInt8) = values := by
  obtain ⟨hdata, hpad⟩ := convertBits_values_roundtrip (fun v hv => by
    obtain ⟨x, hx, rfl⟩ := List.mem_map.mp hv
    exact hvalues x hx) h
  rw [witnessValues, map_toNat_toUInt8 hdata, hpad, map_toUInt8_toNat]

theorem witnessDestination_keyHash (id : uint160) :
    witnessDestination 0 id.data = .WitnessV0KeyHash id := by
  simp [witnessDestination, id.length_data]

theorem witnessDestination_scriptHash (id : uint256) :
    witnessDestination 0 id.data = .WitnessV0ScriptHash id := by
  simp [witnessDestination, id.length_data]

/-- A version from 1 to 16 is the byte `(unsigned char)version`, which is not
zero. -/
theorem toUInt8_version {v : Nat} (h1 : 1 ≤ v) (h16 : v ≤ 16) :
    v.toUInt8.toNat = v ∧ v.toUInt8 ≠ 0 := by
  have hv : v.toUInt8.toNat = v := by
    simp only [Nat.toUInt8_eq, UInt8.toNat_ofNat']
    omega
  refine ⟨hv, fun h0 => ?_⟩
  rw [h0] at hv
  simp at hv
  omega

theorem witnessDestination_unknown {id : WitnessUnknown}
    (hd : (CTxDestination.WitnessUnknown id).HasAddress) :
    witnessDestination id.version.toUInt8 id.program = .WitnessUnknown id := by
  obtain ⟨h1, h16, h2, h40⟩ := hd
  obtain ⟨hv, hne⟩ := toUInt8_version h1 h16
  rw [witnessDestination, if_neg hne, if_neg (by omega), hv]

/-- The destination of a version and a program, when there is one, has an
address, which `encodeWitness` writes in the version's encoding. -/
theorem encodeDestination_witnessDestination (Hash : List UInt8 → uint256) (params : CChainParams)
    {version : UInt8} {program : List UInt8}
    (hd : witnessDestination version program ≠ .CNoDestination) :
    (witnessDestination version program).HasAddress ∧
    encodeDestination Hash params (witnessDestination version program) =
      encodeWitness (if version = 0 then .BECH32 else .BECH32M) params.bech32_hrp version program := by
  rw [witnessDestination] at hd ⊢
  split_ifs at hd ⊢ with h0 h20 h32 hbad
  · subst h0
    exact ⟨trivial, rfl⟩
  · subst h0
    exact ⟨trivial, rfl⟩
  · exact absurd rfl hd
  · exact absurd rfl hd
  · -- a version from 1 to 16 and a program of 2 to 40 bytes
    have hv : 1 ≤ version.toNat := by
      rcases Nat.eq_zero_or_pos version.toNat with hz | hpos
      · exact absurd (UInt8.toNat_inj.mp hz) h0
      · exact hpos
    refine ⟨⟨hv, by dsimp only; omega, by dsimp only; omega, by dsimp only; omega⟩, ?_⟩
    rw [encodeDestination, if_neg (by dsimp only; omega)]
    dsimp only
    rw [show version.toNat.toUInt8 = version by simp]

/-- The bech32 branch reads the values of a program back as the destination
of its version and bytes, when the encoding is the version's. -/
theorem decodeBech32Destination_witness {params : CChainParams} {e : Encoding} {version : UInt8}
    (he : (version = 0 ∧ e = .BECH32) ∨ (version ≠ 0 ∧ e = .BECH32M)) (program : List UInt8) :
    decodeBech32Destination params ⟨e, params.bech32_hrp, version :: witnessValues program⟩ =
      witnessDestination version program := by
  have hconv := (witnessValues_spec program).2.2
  have hchecks : ¬(version = 0 ∧ e ≠ .BECH32) ∧ ¬(version ≠ 0 ∧ e ≠ .BECH32M) := by
    rcases he with ⟨hv, rfl⟩ | ⟨hv, rfl⟩ <;> simp [hv]
  have henc : e = .BECH32 ∨ e = .BECH32M := by
    rcases he with ⟨-, rfl⟩ | ⟨-, rfl⟩
    exacts [.inl rfl, .inr rfl]
  dsimp only [decodeBech32Destination]
  rw [if_neg (not_not.mpr ⟨henc, rfl⟩), if_neg hchecks.1, if_neg hchecks.2, hconv]
  dsimp only
  rw [map_toUInt8_toNat]

/-- What the bech32 branch reads: a decoding in the encoding of its version,
under the chain's human-readable part, whose other values regroup into the
bytes of a program, and the destination of that version and program. -/
theorem decodeBech32Destination_eq {params : CChainParams} {dec : DecodeResult}
    (hd : decodeBech32Destination params dec ≠ .CNoDestination) :
    ∃ version values data, dec.data = version :: values ∧
      ((version = 0 ∧ dec.encoding = .BECH32) ∨ (version ≠ 0 ∧ dec.encoding = .BECH32M)) ∧
      dec.hrp = params.bech32_hrp ∧
      convertBits 5 8 false (values.map UInt8.toNat) = (data, true) ∧
      decodeBech32Destination params dec = witnessDestination version (data.map Nat.toUInt8) := by
  rcases dec with ⟨e, hrp, _ | ⟨version, values⟩⟩
  · exact absurd rfl hd
  dsimp only [decodeBech32Destination] at hd ⊢
  -- each check that fails gives `CNoDestination`
  by_cases h1 : (e = .BECH32 ∨ e = .BECH32M) ∧ hrp = params.bech32_hrp
  swap
  · rw [if_pos h1] at hd
    exact absurd rfl hd
  rw [if_neg (not_not.mpr h1)] at hd ⊢
  by_cases h2 : version = 0 ∧ e ≠ .BECH32
  · rw [if_pos h2] at hd
    exact absurd rfl hd
  rw [if_neg h2] at hd ⊢
  by_cases h3 : version ≠ 0 ∧ e ≠ .BECH32M
  · rw [if_pos h3] at hd
    exact absurd rfl hd
  rw [if_neg h3] at hd ⊢
  have henc : (version = 0 ∧ e = .BECH32) ∨ (version ≠ 0 ∧ e = .BECH32M) := by
    by_cases hv : version = 0
    · exact .inl ⟨hv, not_not.mp fun hne => h2 ⟨hv, hne⟩⟩
    · exact .inr ⟨hv, not_not.mp fun hne => h3 ⟨hv, hne⟩⟩
  split at hd
  · exact absurd rfl hd
  · rename_i data hconv
    exact ⟨version, values, data, rfl, henc, h1.2, hconv, rfl⟩

/-- A printable character other than the space is not white space. -/
theorem isSpace_of_printable {c : Char} (hc : 33 ≤ c.toNat) : isSpace c = false := by
  by_contra hsp
  simp only [isSpace, Bool.not_eq_false, Bool.or_eq_true, beq_iff_eq] at hsp
  rcases hsp with ((((rfl | rfl) | rfl) | rfl) | rfl) | rfl <;> exact absurd hc (by decide)

variable (Hash : List UInt8 → uint256) {params : CChainParams}

/-- A program of a version up to 16, in the version's encoding, round-trips
through its bech32 address whenever the Base58Check branch reads nothing
from the address; the address has no white space, and the length of the
human-readable part, eight, and that of the program's values. -/
theorem decodeDestination_encodeWitness (hP : params.Valid) {e : Encoding} {version : UInt8}
    {program : List UInt8} (he : (version = 0 ∧ e = .BECH32) ∨ (version ≠ 0 ∧ e = .BECH32M))
    (hv : version.toNat ≤ 16) (hprog : program.length ≤ 40) :
    ∃ s, encodeWitness e params.bech32_hrp version program = .ok s ∧
      (∀ c ∈ s, isSpace c = false) ∧
      s.length = params.bech32_hrp.length + 8 + (program.length * 8 + 4) / 5 ∧
      ((∀ r, decodeBase58Check Hash s 21 = .ok r → r.bind (decodeBase58Destination params) = none) →
        decodeDestination Hash s params = .ok (witnessDestination version program)) := by
  obtain ⟨hlt, hlen, -⟩ := witnessValues_spec program
  have henc : e = .BECH32 ∨ e = .BECH32M := by
    rcases he with ⟨-, rfl⟩ | ⟨-, rfl⟩
    exacts [.inl rfl, .inr rfl]
  have hvalues : ∀ v ∈ version :: witnessValues program, v.toNat < 32 := by
    intro v hv'
    rcases List.mem_cons.mp hv' with rfl | hv'
    · omega
    · exact hlt v hv'
  have hfit : params.bech32_hrp.length + 1 + (version :: witnessValues program).length + 6 ≤ 90 := by
    have := hP.length_hrp
    rw [List.length_cons, hlen]
    omega
  obtain ⟨s, hs, hdec, hslen, hprint⟩ := decode_encode henc hP.hrp_ne_nil hP.hrpChar hvalues hfit
  refine ⟨s, hs, fun c hc => isSpace_of_printable (hprint c hc).1, ?_, fun hb58 => ?_⟩
  · rw [hslen, List.length_cons, hlen]
    omega
  · rw [decodeDestination_of_base58_none Hash hb58 hdec, decodeBech32Destination_witness he]

/-- A version 0 program of 20 bytes or more round-trips through its address,
which is too long for the Base58Check branch. -/
theorem decodeDestination_encodeWitness_v0 (hP : params.Valid) {program : List UInt8}
    (hlen : 20 ≤ program.length) (hprog : program.length ≤ 40) :
    ∃ s, encodeWitness .BECH32 params.bech32_hrp 0 program = .ok s ∧
      decodeDestination Hash s params = .ok (witnessDestination 0 program) := by
  obtain ⟨s, hs, hspace, hslen, hdec⟩ :=
    decodeDestination_encodeWitness Hash hP (.inl ⟨rfl, rfl⟩) (by decide) hprog
  -- 20 bytes take 40 characters and more, beyond the 35 of a Base58Check payload
  exact ⟨s, hs, hdec (base58_none_of_long Hash hP hspace (by rw [hslen]; omega))⟩

end Bech32Branch

/-! ## The round trips -/

section RoundTrip

variable (Hash : List UInt8 → uint256) {params : CChainParams}

/-- Every destination with an address round-trips through it; a
`WitnessUnknown` whenever its address does not pass Base58Check. -/
theorem decodeDestination_encodeDestination (hP : params.Valid) {d : CTxDestination}
    (hd : d.HasAddress) :
    ∃ s, encodeDestination Hash params d = .ok s ∧
      (d.isWitnessUnknown = false ∨ decodeBase58Check Hash s 21 = .ok none →
        decodeDestination Hash s params = .ok d) := by
  cases d with
  | CNoDestination => exact absurd hd id
  | PKHash id =>
    obtain ⟨s, hs, hdec⟩ := decodeDestination_base58 Hash hP (decodeBase58Destination_PKHash id)
    exact ⟨s, hs, fun _ => hdec⟩
  | ScriptHash id =>
    obtain ⟨s, hs, hdec⟩ :=
      decodeDestination_base58 Hash hP (decodeBase58Destination_ScriptHash hP id)
    exact ⟨s, hs, fun _ => hdec⟩
  | WitnessV0KeyHash id =>
    obtain ⟨s, hs, hdec⟩ := decodeDestination_encodeWitness_v0 Hash hP
      (show 20 ≤ id.data.length by rw [id.length_data]) (by rw [id.length_data]; decide)
    exact ⟨s, hs, fun _ => by rw [hdec, witnessDestination_keyHash]⟩
  | WitnessV0ScriptHash id =>
    obtain ⟨s, hs, hdec⟩ := decodeDestination_encodeWitness_v0 Hash hP
      (show 20 ≤ id.data.length by rw [id.length_data]; decide) (by rw [id.length_data]; decide)
    exact ⟨s, hs, fun _ => by rw [hdec, witnessDestination_scriptHash]⟩
  | WitnessUnknown id =>
    obtain ⟨h1, h16, h2, h40⟩ := hd
    obtain ⟨hv, hne⟩ := toUInt8_version h1 h16
    obtain ⟨s, hs, -, -, hdec⟩ := decodeDestination_encodeWitness Hash hP (e := .BECH32M)
      (.inr ⟨hne, rfl⟩) (by omega) h40
    refine ⟨s, by rw [encodeDestination, if_neg (by omega)]; exact hs, fun hnone => ?_⟩
    -- the address is assumed not to pass Base58Check
    have hb58 : ∀ r, decodeBase58Check Hash s 21 = .ok r →
        r.bind (decodeBase58Destination params) = none := by
      intro r hr
      rcases hnone with hfalse | hnone
      · cases hfalse
      · rw [hnone] at hr
        cases hr
        rfl
    rw [hdec hb58, witnessDestination_unknown ⟨h1, h16, h2, h40⟩]

/-- Decoding forgives white space around a Base58Check address and the
letter case of a bech32 one, and nothing else: what a string decodes to has an
address, and that address is the string trimmed, or in lower case. -/
theorem encodeDestination_decodeDestination (hP : params.Valid) {s : List Char}
    {d : CTxDestination} (h : decodeDestination Hash s params = .ok d)
    (hd : d ≠ .CNoDestination) :
    d.HasAddress ∧ ∃ e, encodeDestination Hash params d = .ok e ∧
      ((∃ l r, s = l ++ e ++ r ∧ ∀ c ∈ l ++ r, isSpace c = true) ∨ e = s.map lowerCase) := by
  rw [decodeDestination] at h
  obtain ⟨r, hr, h⟩ := Fault.bind_eq_ok.mp h
  split at h
  · -- the Base58Check branch: the payload's string, with white space around it
    rename_i dest hdest
    obtain rfl := Except.ok.inj h
    obtain ⟨data, rfl, hdata⟩ := Option.bind_eq_some_iff.mp hdest
    obtain ⟨-, haddr, henc⟩ := decodeBase58Destination_eq_some Hash hP hdata
    obtain ⟨l, t, r', hs, hspace, ht⟩ := encodeBase58Check_decodeBase58Check Hash (by norm_num) hr
    exact ⟨haddr, t, henc.trans ht, .inl ⟨l, r', hs, hspace⟩⟩
  · -- the bech32 branch: the decoding, which `Encode` writes in lower case
    obtain ⟨dec, hdec, h⟩ := Fault.bind_eq_ok.mp h
    obtain rfl := Except.ok.inj h
    obtain ⟨version, values, data, hdata, he, hhrp, hconv, hwit⟩ := decodeBech32Destination_eq hd
    have hvalid : dec.encoding ≠ .INVALID := by
      rcases he with ⟨-, he⟩ | ⟨-, he⟩ <;> rw [he] <;> decide
    obtain ⟨hlt, hcanon⟩ := encode_decode hdec hvalid
    rw [hdata] at hlt
    have hvalues := witnessValues_of_convertBits (fun v hv => hlt v (List.mem_cons_of_mem _ hv)) hconv
    rw [hwit] at hd ⊢
    obtain ⟨haddr, henc⟩ := encodeDestination_witnessDestination Hash params hd
    refine ⟨haddr, s.map lowerCase, ?_, .inr rfl⟩
    have hencoding : (if version = 0 then Encoding.BECH32 else .BECH32M) = dec.encoding := by
      rcases he with ⟨hv, he⟩ | ⟨hv, he⟩
      · rw [if_pos hv, he]
      · rw [if_neg hv, he]
    rw [henc, ← hcanon, hencoding, hhrp, hdata]
    show Bech32.encode _ _ (version :: witnessValues _) = _
    rw [hvalues]

/-- Address strings round-trip on both chains.  Every destination with an
address (a hash, or a witness program of a version from 1 to 16 and of 2 to 40
bytes) decodes back from it, a `WitnessUnknown` whenever its address does not
pass Base58Check.  Every string that decodes to a destination other than
`CNoDestination` is that destination's address up to white space around a
Base58Check address and the letter case of a bech32 one, and that address
decodes back to it, with the same proviso for a `WitnessUnknown`. -/
theorem destination_roundtrip (chain : Network) :
    (∀ d : CTxDestination, d.HasAddress →
      ∃ s, encodeDestination Hash (createChainParams chain) d = .ok s ∧
        (d.isWitnessUnknown = false ∨ decodeBase58Check Hash s 21 = .ok none →
          decodeDestination Hash s (createChainParams chain) = .ok d)) ∧
    (∀ (s : List Char) (d : CTxDestination),
      decodeDestination Hash s (createChainParams chain) = .ok d → d ≠ .CNoDestination →
      ∃ e, encodeDestination Hash (createChainParams chain) d = .ok e ∧
        ((∃ l r, s = l ++ e ++ r ∧ ∀ c ∈ l ++ r, isSpace c = true) ∨ e = s.map lowerCase) ∧
        (d.isWitnessUnknown = false ∨ decodeBase58Check Hash e 21 = .ok none →
          decodeDestination Hash e (createChainParams chain) = .ok d)) := by
  have hP := createChainParams_valid chain
  refine ⟨fun d hd => decodeDestination_encodeDestination Hash hP hd, fun s d h hd => ?_⟩
  obtain ⟨haddr, e, he, hform⟩ := encodeDestination_decodeDestination Hash hP h hd
  obtain ⟨e', he', hround⟩ := decodeDestination_encodeDestination Hash hP haddr
  rw [he] at he'
  obtain rfl := Except.ok.inj he'
  exact ⟨e, he, hform, hround⟩

end RoundTrip

/-- White space in front of a Base58Check address is skipped: the string
decodes to the same destination. -/
theorem decodeDestination_cons_space (Hash : List UInt8 → uint256) {params : CChainParams}
    {c : Char} (hc : isSpace c = true) {s : List Char} {data : List UInt8} {d : CTxDestination}
    (hs : decodeBase58Check Hash s 21 = .ok (some data))
    (hd : decodeBase58Destination params data = some d) :
    decodeDestination Hash (c :: s) params = .ok d := by
  rw [decodeDestination, decodeBase58Check_cons_space Hash hc, hs, Fault.ok_bind]
  simp only [Option.bind_some, hd]

/-- A space in front of an address decodes to its destination, whose address
is the string without the space.  The hash here is all zeros; the argument
holds for every hash (`decodeDestination_cons_space`). -/
theorem decodeDestination_leading_space :
    ∃ e, encodeDestination (fun _ => uint256.zero) (createChainParams .VERICOIN)
        (.PKHash ⟨List.replicate 20 0, rfl⟩) = .ok e ∧
      decodeDestination (fun _ => uint256.zero) (' ' :: e) (createChainParams .VERICOIN) =
        .ok (.PKHash ⟨List.replicate 20 0, rfl⟩) ∧
      e.map lowerCase ≠ (' ' :: e).map lowerCase := by
  obtain ⟨e, he, hdec⟩ := decodeBase58Check_encodeBase58Check (fun _ => uint256.zero)
    ((createChainParams .VERICOIN).PUBKEY_ADDRESS ++ List.replicate 20 0)
    (show (21 : Int) ≤ 2147483647 - 4 by norm_num) (by decide)
  exact ⟨e, he, decodeDestination_cons_space _ rfl hdec
    (decodeBase58Destination_PKHash ⟨List.replicate 20 0, rfl⟩),
    fun h => by simpa using congrArg List.length h⟩

end Veribase

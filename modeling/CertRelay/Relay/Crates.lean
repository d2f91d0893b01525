import Mathlib.Data.Prod.Lex
import Mathlib.Data.List.Basic

/-!
# What the relay takes from other crates

Certificates, zones and record sets belong to `libveritas` and
`spaces_protocol`, their wire form to `borsh`, hashing to `sha2`.  None of these
crates is part of the repository.  The data is modelled with the fields the
relay reads; the functions the relay calls are the fields of `Crates`, and what
the relay relies on is `Crates.Lawful` and, for comparisons of zones,
`Crates.ComparesLex`.
-/

namespace CertRelay

/-- A `Vec<u8>`. -/
abbrev Bytes := List UInt8

/-- A canonical name such as `alice@bitcoin` or `@bitcoin`, by its text. -/
@[ext] structure SName where
  text : String
deriving DecidableEq, Repr

/-- Witness of a certificate.  The relay looks only at root witnesses. -/
inductive Witness
  | root (receipt : Option Bytes)
  | other (proof : Bytes)
deriving DecidableEq, Repr

structure Certificate where
  version : Nat
  subject : SName
  witness : Witness
deriving DecidableEq, Repr

/-- The certificate carries a ZK receipt. -/
def Certificate.hasReceipt (cert : Certificate) : Bool :=
  match cert.witness with
  | .root (some _) => true
  | _ => false

/-- A sip7 record set in wire form. -/
structure RecordSet where
  slice : Bytes
deriving DecidableEq, Repr

namespace RecordSet

/-- The default record set. -/
def empty : RecordSet := ⟨[]⟩

def isEmpty (records : RecordSet) : Bool :=
  records.slice.isEmpty

end RecordSet

/-- The fields of a Sig record that the relay reads. -/
structure Sig where
  handle : SName
  flags : Nat
deriving DecidableEq, Repr

/-- A parsed record.  The relay reads only address records. -/
inductive ParsedRecord
  | addr (key : String) (value : List String)
  | other
deriving DecidableEq, Repr

/-- A value whose absence is itself provable. -/
inductive ProvableOption (α : Type)
  | exist (value : α)
  | empty
  | unknown
deriving DecidableEq, Repr

inductive SovereigntyState
  | sovereign
  | pending
  | dependent
deriving DecidableEq, Repr

structure Onchain where
  stateRoot : Bytes
  blockHeight : Nat
deriving DecidableEq, Repr

structure CommitmentInfo where
  onchain : Onchain
deriving DecidableEq, Repr

structure Delegate where
  scriptPubkey : Bytes
  records : RecordSet
deriving DecidableEq, Repr

/-- A verified zone. -/
structure Zone where
  canonical : SName
  anchor : Nat
  sovereignty : SovereigntyState
  scriptPubkey : Bytes
  records : RecordSet
  delegate : ProvableOption Delegate
  commitment : ProvableOption CommitmentInfo
  numId : Option String
deriving DecidableEq, Repr

/-- The functions of other crates that the relay calls. -/
structure Crates where
  /-- `SName::space`, as text. -/
  space : SName → Option String
  /-- `RecordSet::seq`. -/
  recordsSeq : RecordSet → Option Nat
  /-- `RecordSet::sig`. -/
  recordsSig : RecordSet → Option Sig
  /-- `RecordSet::iter`, collected. -/
  recordsIter : RecordSet → Except String (List ParsedRecord)
  /-- `sip7::SIG_PRIMARY_ZONE`. -/
  sigPrimaryZone : Nat
  /-- `Zone::is_better_than`. -/
  isBetterThan : Zone → Zone → Except String Bool
  /-- `borsh::to_vec` and `borsh::from_slice` at certificates. -/
  certToVec : Certificate → Except String Bytes
  certFromSlice : Bytes → Except String Certificate
  /-- `borsh::to_vec` and `borsh::from_slice` at zones. -/
  zoneToVec : Zone → Except String Bytes
  zoneFromSlice : Bytes → Except String Zone
  /-- `Sha256::digest`. -/
  sha256 : Bytes → Bytes

namespace Crates

variable (V : Crates)

/-- `records.seq().unwrap_or(0)`. -/
def seqOr0 (records : RecordSet) : Nat :=
  (V.recordsSeq records).getD 0

/-- `a.is_better_than(b).unwrap_or(false)`. -/
def better (a b : Zone) : Bool :=
  match V.isBetterThan a b with
  | .ok answer => answer
  | .error _ => false

/-- Sequence of the delegate records of a zone, 0 where there are none. -/
def delegateSeqOr0 (z : Zone) : Nat :=
  match z.delegate with
  | .exist d => V.seqOr0 d.records
  | _ => 0

/--
What the relay relies on: decoding inverts encoding, a zone assembled from the
fields of two encodable zones is encodable, and an empty record set carries no
sequence number.
-/
structure Lawful : Prop where
  cert_decode : ∀ {c b}, V.certToVec c = .ok b → V.certFromSlice b = .ok c
  zone_decode : ∀ {z b}, V.zoneToVec z = .ok b → V.zoneFromSlice b = .ok z
  zone_withRecords : ∀ {z e bz be},
    V.zoneToVec z = .ok bz → V.zoneToVec e = .ok be →
      ∃ b, V.zoneToVec { z with records := e.records } = .ok b
  seq_empty : ∀ {records}, records.isEmpty = true → V.recordsSeq records = none

/-- Rank of the owner records: an empty set is below every sequence number. -/
def recordsRank (z : Zone) : Nat :=
  if z.records.isEmpty then 0 else V.seqOr0 z.records + 1

theorem recordsRank_congr
    {z e : Zone}
    (h : z.records = e.records) :
    V.recordsRank z = V.recordsRank e := by
  unfold recordsRank
  rw [h]

theorem recordsRank_pos_iff
    (z : Zone) :
    0 < V.recordsRank z ↔ z.records.isEmpty = false := by
  unfold recordsRank
  cases z.records.isEmpty <;> simp

/-- The record rank refines the sequence number. -/
theorem seqOr0_le_of_recordsRank_le
    (hV : V.Lawful)
    {z e : Zone}
    (h : V.recordsRank z ≤ V.recordsRank e) :
    V.seqOr0 z.records ≤ V.seqOr0 e.records := by
  unfold recordsRank at h
  cases hz : z.records.isEmpty with
  | true =>
      unfold seqOr0
      rw [hV.seq_empty hz]
      simp
  | false =>
      cases he : e.records.isEmpty with
      | true =>
          simp [hz, he] at h
      | false =>
          simpa [hz, he] using h

section Comparison

variable {κ : Type} [LinearOrder κ]
variable (commitmentRank : ProvableOption CommitmentInfo → κ)

/-- Commitment first, then owner records, then anchor. -/
def zoneRank (z : Zone) : κ ×ₗ (ℕ ×ₗ ℕ) :=
  toLex (commitmentRank z.commitment, toLex (V.recordsRank z, z.anchor))

/--
What is assumed of `is_better_than` where a result depends on it: it is the strict
lexicographic comparison of commitment, then records by sequence (empty loses), then
anchor.  The `libveritas` in use also ranks the delegate records, which this leaves out.
-/
def ComparesLex : Prop :=
  ∀ a b, V.better a b = true ↔
    V.zoneRank commitmentRank b < V.zoneRank commitmentRank a

theorem zoneRank_lt_iff
    {a b : Zone} :
    V.zoneRank commitmentRank b < V.zoneRank commitmentRank a ↔
      commitmentRank b.commitment < commitmentRank a.commitment ∨
      commitmentRank b.commitment = commitmentRank a.commitment ∧
        (V.recordsRank b < V.recordsRank a ∨
          V.recordsRank b = V.recordsRank a ∧ b.anchor < a.anchor) := by
  simp [zoneRank, Prod.Lex.toLex_lt_toLex]

end Comparison

end Crates

section TableCodec

/-- Position of a value in a table, as a one-byte blob. -/
def encodeAt {α : Type} [DecidableEq α] (table : List α) (a : α) :
    Except String Bytes :=
  if a ∈ table then .ok [UInt8.ofNat (table.idxOf a)] else .error "not in table"

/-- The value at the position a blob names. -/
def decodeAt {α : Type} (table : List α) : Bytes → Except String α
  | [i] =>
      match table[i.toNat]? with
      | some a => .ok a
      | none => .error "not in table"
  | _ => .error "not in table"

theorem decodeAt_encodeAt
    {α : Type}
    [DecidableEq α]
    {table : List α}
    (hlen : table.length ≤ 256)
    {a : α}
    {b : Bytes}
    (h : encodeAt table a = .ok b) :
    decodeAt table b = .ok a := by
  unfold encodeAt at h
  split_ifs at h with ha
  cases h
  have hidx : table.idxOf a < table.length := List.idxOf_lt_length_of_mem ha
  have hbyte : (UInt8.ofNat (table.idxOf a)).toNat = table.idxOf a := by
    simp
    omega
  simp only [decodeAt, hbyte, List.getElem?_eq_getElem hidx,
    List.getElem_idxOf]

/-- Commitments ranked by height; unproven and absent ones come first. -/
def heightRank : ProvableOption CommitmentInfo → Nat
  | .exist c => c.onchain.blockHeight + 1
  | _ => 0

/-- The zones, each with its own records and with those of every other. -/
def withRecordsOf (zones : List Zone) : List Zone :=
  zones.flatMap (fun z => zones.map (fun e => { z with records := e.records }))

theorem withRecordsOf_closed
    {zones : List Zone}
    {z e : Zone}
    (hz : z ∈ withRecordsOf zones)
    (he : e ∈ withRecordsOf zones) :
    { z with records := e.records } ∈ withRecordsOf zones := by
  obtain ⟨z₀, hz₀, hz⟩ := List.mem_flatMap.1 hz
  obtain ⟨_, _, rfl⟩ := List.mem_map.1 hz
  obtain ⟨_, _, he⟩ := List.mem_flatMap.1 he
  obtain ⟨e₁, he₁, rfl⟩ := List.mem_map.1 he
  exact List.mem_flatMap.2 ⟨z₀, hz₀, List.mem_map.2 ⟨e₁, he₁, rfl⟩⟩

theorem length_withRecordsOf
    (zones : List Zone) :
    (withRecordsOf zones).length = zones.length * zones.length := by
  simp [withRecordsOf, List.length_flatMap]

/--
A concrete instance of the crates: blobs are positions in a table of
certificates and a table of zones, the first byte of a record set is its
sequence number, and zones compare by `zoneRank heightRank`.
-/
def Crates.ofTables (certs : List Certificate) (zones : List Zone) : Crates where
  space n := some (String.ofList (n.text.toList.dropWhile (fun c => c ≠ '@' ∧ c ≠ '#')))
  recordsSeq r := r.slice.head?.map UInt8.toNat
  recordsSig _ := none
  recordsIter _ := .ok []
  sigPrimaryZone := 1
  isBetterThan a b :=
    let rank (z : Zone) :=
      if z.records.isEmpty then 0 else (z.records.slice.head?.map UInt8.toNat).getD 0 + 1
    .ok (decide (heightRank b.commitment < heightRank a.commitment ∨
      heightRank b.commitment = heightRank a.commitment ∧
        (rank b < rank a ∨ rank b = rank a ∧ b.anchor < a.anchor)))
  certToVec := encodeAt certs
  certFromSlice := decodeAt certs
  zoneToVec := encodeAt (withRecordsOf zones)
  zoneFromSlice := decodeAt (withRecordsOf zones)
  sha256 := id

theorem Crates.ofTables_comparesLex
    (certs : List Certificate)
    (zones : List Zone) :
    (Crates.ofTables certs zones).ComparesLex heightRank := by
  intro a b
  rw [Crates.zoneRank_lt_iff]
  simp [Crates.better, Crates.ofTables, Crates.recordsRank, Crates.seqOr0]

theorem Crates.ofTables_lawful
    {certs : List Certificate}
    {zones : List Zone}
    (hcerts : certs.length ≤ 256)
    (hzones : zones.length ≤ 16) :
    (Crates.ofTables certs zones).Lawful where
  cert_decode := decodeAt_encodeAt hcerts
  zone_decode := by
    apply decodeAt_encodeAt
    rw [length_withRecordsOf]
    exact Nat.mul_le_mul hzones hzones
  zone_withRecords := by
    intro z e bz be hz he
    have hmem : ∀ {z : Zone} {b : Bytes},
        encodeAt (withRecordsOf zones) z = .ok b → z ∈ withRecordsOf zones := by
      intro z b h
      by_contra hne
      simp [encodeAt, hne] at h
    exact ⟨_, if_pos (withRecordsOf_closed (hmem hz) (hmem he))⟩
  seq_empty := by
    intro records h
    have hs : records.slice = [] := by
      simpa [RecordSet.isEmpty] using h
    simp [Crates.ofTables, hs]

/-- A name, a certificate and zones to evaluate the model on. -/
def sampleName : SName := ⟨"alice@bitcoin"⟩

def sampleCert : Certificate := ⟨0, sampleName, .other []⟩

/-- A zone with an owner sequence, an anchor, a commitment at a height (0 where the
proof says nothing about it) and a delegate sequence. -/
def sampleZone (seq : UInt8) (anchor height : Nat) (delegateSeq : UInt8) : Zone where
  canonical := sampleName
  anchor := anchor
  sovereignty := .sovereign
  scriptPubkey := [1]
  records := ⟨[seq]⟩
  delegate := .exist ⟨[2], ⟨[delegateSeq]⟩⟩
  commitment :=
    match height with
    | 0 => .unknown
    | h + 1 => .exist ⟨⟨[UInt8.ofNat (h + 1)], h + 1⟩⟩
  numId := none

end TableCodec

end CertRelay

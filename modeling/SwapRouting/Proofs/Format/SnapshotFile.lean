import SwapRouting.Format.SnapshotFile
import SwapRouting.Proofs.Format.Records

/-! Snapshot files that are written and read back.

Every record of a file is read back from what is written for it, as long as its counts fit their words: 64
bits for heights, identifiers and codes, 128 bits for balances and 32 bits for precisions. Whatever a
reader accepts fits, so a file that was read once is written and read again without a change. -/
namespace SwapRouting
set_option autoImplicit false

open Format Json

variable {V : Type} [Source V]

/-! ## Coins -/

namespace Coin

/-- Whether the amount fits 128 bits. -/
def InRange (c : Coin) : Prop := c.amount < 2 ^ 128

@[simp] theorem written_toJson (c : Coin) : c.toJson.Written := by simp [toJson]

theorem read?_toJson {c : Coin} (h : c.InRange) : read? c.toJson = some c := by
  have hrecord : record? fieldNames c.toJson = some [some (.ofString c.denom), some (.ofNat c.amount)] :=
    record?_record [("denom", _), ("amount", _)] (by simp)
  rw [read?, hrecord]
  simp only [required, Option.bind_eq_bind, Option.bind_some, text?_ofString, amount?_ofNat h]

theorem inRange_of_read? [Bounded V] (v : V) (c : Coin) (h : read? v = some c) : c.InRange := by
  obtain ⟨values, -, hvalues⟩ := Option.bind_eq_some_iff.1 h
  split at hvalues
  · obtain ⟨denom, -, hdenom⟩ := Option.bind_eq_some_iff.1 hvalues
    obtain ⟨amount, hamount, hcoin⟩ := Option.bind_eq_some_iff.1 hdenom
    cases hcoin
    exact amount?_lt hamount
  · cases hvalues

end Coin

/-! ## Kinds of pools -/

theorem ContractRole.ofName?_name (r : ContractRole) : ofName? r.name = some r := by
  cases r with
  | _ => decide

namespace PoolKind

/-- Whether the code of a contract fits 64 bits. -/
def InRange (k : PoolKind) : Prop := ∀ codeId ∈ k.codeId?, codeId < 2 ^ 64

@[simp] theorem written_toJson (k : PoolKind) : k.toJson.Written := by
  cases k with
  | _ => simp [toJson]

theorem isSound_toJson {k : PoolKind} (h : k.InRange) {around : Nat} (haround : around < 127) :
    Source.isSound around k.toJson = true := by
  have hsound : k.toJson.sound = true := by
    cases k with
    | contract codeId role =>
      have hcode : (Number.ofNat codeId).double?.isSome = true := Number.isSome_double?_ofNat (h codeId rfl)
      simp [toJson, Value.record, Value.ofString, Value.ofNat, Value.sound, soundFields, hcode]
    | _ => rfl
  have hdepth : k.toJson.depth = 1 := by
    cases k with
    | _ => rfl
  have hdeep : around + k.toJson.depth ≤ 127 := by omega
  show (k.toJson.sound && decide (around + k.toJson.depth ≤ 127)) = true
  rw [hsound, decide_eq_true hdeep]
  rfl

theorem role?_ofString (r : ContractRole) : role? (Value.ofString r.name) = some r := by
  rw [role?, text?_ofString]
  exact r.ofName?_name

theorem read?_toJson {k : PoolKind} (h : k.InRange) {around : Nat} (haround : around < 127) :
    read? around k.toJson = some k := by
  rw [read?, isSound_toJson h haround]
  cases k with
  | contract codeId role =>
    let fields := [("kind", Value.ofString "cosm_wasm"), ("code_id", .ofNat codeId),
      ("class", .ofString role.name)]
    have hkind : fieldNamed? fields "kind" = some (some (.ofString "cosm_wasm")) := by
      simp [fields, fieldNamed?]
    have hcode : fieldNamed? fields "code_id" = some (some (.ofNat codeId)) := by
      simp [fields, fieldNamed?]
    have hrole : fieldNamed? fields "class" = some (some (.ofString role.name)) := by
      simp [fields, fieldNamed?]
    have hfields : Source.fields? (contract codeId role).toJson = some fields := fields?_record fields
    have hword : word64? (Value.ofNat codeId) = some codeId := word64?_ofNat (h codeId rfl)
    rw [hfields]
    simp [hkind, hcode, hrole, tagged?, required, hword, role?_ofString]
  | _ => rfl

theorem inRange_of_plain? {s : String} {k : PoolKind} (h : plain? s = some k) : k.InRange := by
  have hmem := List.mem_of_find?_eq_some h
  simp only [List.mem_cons, List.not_mem_nil, or_false] at hmem
  rcases hmem with rfl | rfl | rfl
  all_goals exact nofun

theorem inRange_of_tagged? [Bounded V] {s : String} {codeId role : Option (Option V)} {k : PoolKind}
    (h : tagged? s codeId role = some k) : k.InRange := by
  rw [tagged?] at h
  split at h
  · obtain ⟨code, -, hcode⟩ := Option.bind_eq_some_iff.1 h
    obtain ⟨n, hn, hn'⟩ := Option.bind_eq_some_iff.1 hcode
    obtain ⟨name, -, hname⟩ := Option.bind_eq_some_iff.1 hn'
    obtain ⟨r, -, hkind⟩ := Option.bind_eq_some_iff.1 hname
    cases hkind
    rintro m ⟨⟩
    exact word64?_lt hn
  · exact inRange_of_plain? h

theorem inRange_of_read? [Bounded V] {around : Nat} (v : V) (k : PoolKind)
    (h : read? around v = some k) : k.InRange := by
  rw [read?] at h
  split at h
  · cases h
  · -- a kind is written in fields, as a tag alone, or as the list of a tag and its fields
    split at h
    · obtain ⟨kind, -, hkind⟩ := Option.bind_eq_some_iff.1 h
      obtain ⟨s, -, hs⟩ := Option.bind_eq_some_iff.1 hkind
      exact inRange_of_tagged? hs
    · split at h
      · obtain ⟨s, -, hs⟩ := Option.bind_eq_some_iff.1 h
        exact inRange_of_plain? hs
      · obtain ⟨s, -, hs⟩ := Option.bind_eq_some_iff.1 h
        split at hs
        · exact inRange_of_tagged? hs
        · cases hs
      · cases h

end PoolKind

/-! ## Pools -/

namespace PoolRecord

/-- Whether all counts of a pool fit their words. -/
structure InRange (p : PoolRecord) : Prop where
  id : p.id < 2 ^ 64
  kind : p.kind.InRange
  balances : ∀ c ∈ p.balances, c.InRange
  liquidityCap : p.liquidityCap < 2 ^ 64

@[simp] theorem written_toJson (p : PoolRecord) : p.toJson.Written := by simp [toJson]

theorem read?_toJson {p : PoolRecord} (h : p.InRange) {around : Nat} (haround : around < 126) :
    read? around p.toJson = some p := by
  have hrecord : record? fieldNames p.toJson
      = some [some (.ofNat p.id), some p.kind.toJson, some (.ofList Value.ofString p.denoms),
          some (.ofList Coin.toJson p.balances), some (.ofDecimal p.spread),
          some (.ofNat p.liquidityCap)] :=
    record?_record [("id", _), ("pool_type", _), ("denoms", _), ("balances", _), ("spread_factor", _),
      ("liquidity_cap", _)] (by simp)
  have hkind : PoolKind.read? (around + 1) p.kind.toJson = some p.kind :=
    PoolKind.read?_toJson h.kind (by omega)
  have hdenoms : list? Source.text? (Value.ofList Value.ofString p.denoms) = some p.denoms :=
    list?_ofList fun s _ => text?_ofString s
  have hbalances : list? Coin.read? (Value.ofList Coin.toJson p.balances) = some p.balances :=
    list?_ofList fun c hc => Coin.read?_toJson (h.balances c hc)
  rw [read?, hrecord]
  simp only [required, Format.optional, Option.bind_eq_bind, Option.bind_some, word64?_ofNat h.id, hkind,
    hdenoms, hbalances, decimal?_ofDecimal, word64?_ofNat h.liquidityCap]

theorem inRange_of_read? [Bounded V] {around : Nat} (v : V) (p : PoolRecord)
    (h : read? around v = some p) : p.InRange := by
  obtain ⟨values, -, hvalues⟩ := Option.bind_eq_some_iff.1 h
  split at hvalues
  · obtain ⟨id, hid, h⟩ := Option.bind_eq_some_iff.1 hvalues
    obtain ⟨kind, hkind, h⟩ := Option.bind_eq_some_iff.1 h
    obtain ⟨denoms, -, h⟩ := Option.bind_eq_some_iff.1 h
    obtain ⟨balances, hbalances, h⟩ := Option.bind_eq_some_iff.1 h
    obtain ⟨spread, -, h⟩ := Option.bind_eq_some_iff.1 h
    obtain ⟨cap, hcap, hpool⟩ := Option.bind_eq_some_iff.1 h
    cases hpool
    exact {
      id := word64?_lt hid
      kind := required_of_forall PoolKind.inRange_of_read? hkind
      balances := optional_list?_of_forall Coin.inRange_of_read? hbalances
      liquidityCap := word64?_lt hcap }
  · cases hvalues

end PoolRecord

/-! ## Fees and tokens -/

namespace TakerFee

@[simp] theorem written_toJson (f : TakerFee) : f.toJson.Written := by simp [toJson]

theorem read?_toJson (f : TakerFee) : read? f.toJson = some f := by
  have hrecord : record? fieldNames f.toJson
      = some [some (.ofString f.first), some (.ofString f.second), some (.ofDecimal f.fee)] :=
    record?_record [("denom0", _), ("denom1", _), ("fee", _)] (by simp)
  rw [read?, hrecord]
  simp only [required, Option.bind_eq_bind, Option.bind_some, text?_ofString, decimal?_ofDecimal]

end TakerFee

namespace Token

/-- Whether the precision fits 32 bits. -/
def InRange (t : Token) : Prop := t.precision < 2 ^ 32

@[simp] theorem written_toJson (t : Token) : t.toJson.Written := by simp [toJson]

theorem read?_toJson {t : Token} (h : t.InRange) : read? t.toJson = some t := by
  have hrecord : record? fieldNames t.toJson
      = some [some (.ofString t.denom), some (.ofNat t.precision)] :=
    record?_record [("denom", _), ("precision", _)] (by simp)
  rw [read?, hrecord]
  simp only [required, Option.bind_eq_bind, Option.bind_some, text?_ofString, word32?_ofNat h]

theorem inRange_of_read? [Bounded V] (v : V) (t : Token) (h : read? v = some t) : t.InRange := by
  obtain ⟨values, -, hvalues⟩ := Option.bind_eq_some_iff.1 h
  split at hvalues
  · obtain ⟨denom, -, h⟩ := Option.bind_eq_some_iff.1 hvalues
    obtain ⟨precision, hprecision, htoken⟩ := Option.bind_eq_some_iff.1 h
    cases htoken
    exact word32?_lt hprecision
  · cases hvalues

end Token

/-! ## Files -/

namespace SnapshotFile

/-- Whether all counts of a file fit their words. -/
structure InRange (f : SnapshotFile) : Prop where
  height : f.height < 2 ^ 64
  pools : ∀ p ∈ f.pools, p.InRange
  tokens : ∀ t ∈ f.tokens, t.InRange

/-- The text of a file, without blanks. -/
def text (f : SnapshotFile) : String := f.toJson.compact

theorem written_toJson (f : SnapshotFile) : f.toJson.Written := by simp [toJson]

theorem read?_toJson {f : SnapshotFile} (h : f.InRange) : read? f.toJson = some f := by
  have hrecord : record? fieldNames f.toJson
      = some [some (.ofNat f.height), some (.ofList PoolRecord.toJson f.pools),
          some (.ofList TakerFee.toJson f.fees), some (.ofList Token.toJson f.tokens)] :=
    record?_record [("height", _), ("pools", _), ("taker_fees", _), ("tokens", _)] (by simp)
  -- pools lie inside two containers and their kinds inside three, far from the deepest place allowed
  have hpools : list? (PoolRecord.read? 2) (Value.ofList PoolRecord.toJson f.pools) = some f.pools :=
    list?_ofList fun p hp => PoolRecord.read?_toJson (h.pools p hp) (by decide)
  have hfees : list? TakerFee.read? (Value.ofList TakerFee.toJson f.fees) = some f.fees :=
    list?_ofList fun t _ => t.read?_toJson
  have htokens : list? Token.read? (Value.ofList Token.toJson f.tokens) = some f.tokens :=
    list?_ofList fun t ht => Token.read?_toJson (h.tokens t ht)
  rw [read?, hrecord]
  simp only [required, Format.optional, Option.bind_eq_bind, Option.bind_some, word64?_ofNat h.height, hpools,
    hfees, htokens]

theorem inRange_of_read? [Bounded V] (v : V) (f : SnapshotFile) (h : read? v = some f) : f.InRange := by
  obtain ⟨values, -, hvalues⟩ := Option.bind_eq_some_iff.1 h
  split at hvalues
  · obtain ⟨height, hheight, h⟩ := Option.bind_eq_some_iff.1 hvalues
    obtain ⟨pools, hpools, h⟩ := Option.bind_eq_some_iff.1 h
    obtain ⟨fees, -, h⟩ := Option.bind_eq_some_iff.1 h
    obtain ⟨tokens, htokens, hfile⟩ := Option.bind_eq_some_iff.1 h
    cases hfile
    exact {
      height := word64?_lt hheight
      pools := optional_list?_of_forall PoolRecord.inRange_of_read? hpools
      tokens := optional_list?_of_forall Token.inRange_of_read? htokens }
  · cases hvalues

theorem ofText?_text {f : SnapshotFile} (h : f.InRange) : ofText? .json f.text = some f := by
  rw [ofText?, text, parse?_compact f.written_toJson]
  exact read?_toJson h

/-- Whatever is decoded fits, in either notation. -/
theorem inRange_of_ofText? {written : Notation} {s : String} {f : SnapshotFile}
    (h : ofText? written s = some f) : f.InRange := by
  cases written with
  | json =>
    obtain ⟨v, -, hv⟩ := Option.bind_eq_some_iff.1 h
    exact inRange_of_read? v f hv
  | yaml =>
    obtain ⟨v, -, hv⟩ := Option.bind_eq_some_iff.1 h
    exact inRange_of_read? v f hv

/-- A file is decoded from its own text exactly if its counts fit their words. Whatever text it was decoded
from, decoding its own gives the same file again, and so the same text. -/
theorem roundTrip (f : SnapshotFile) :
    (ofText? .json f.text = some f ↔ f.InRange)
      ∧ ∀ written s, ofText? written s = some f →
        ofText? .json f.text = some f ∧ (ofText? .json f.text).map text = some f.text := by
  refine ⟨⟨inRange_of_ofText?, ofText?_text⟩, fun written s h => ?_⟩
  have hagain : ofText? .json f.text = some f := ofText?_text (inRange_of_ofText? h)
  exact ⟨hagain, congrArg (Option.map text) hagain⟩

/-- One hundredth with all places written. -/
def paddedHundredth : Decimal where
  coefficient := 100000000000000000000000000
  scale := Decimal.maxScale
  coefficient_lt := Nat.le_of_ble_eq_true rfl
  scale_le := Nat.le_refl _

/-- A file at the upper ends of all words, whose denoms need escapes and whose decimals end in zeros. -/
def borderFile : SnapshotFile where
  height := 18446744073709551615
  pools := [{
    id := 18446744073709551615
    kind := .contract 18446744073709551615 .alloyedTransmuter
    denoms := ["ibc/é€😀", "a\"b\\c\n\x01"]
    balances := [⟨"ibc/é€😀", 340282366920938463463374607431768211455⟩, ⟨"a\"b\\c\n\x01", 0⟩]
    spread := paddedHundredth
    liquidityCap := 18446744073709551615 }]
  fees := [⟨"b", "a", paddedHundredth.neg⟩]
  tokens := [⟨"ibc/é€😀", 4294967295⟩]

/-- A document that leaves out most of a file and holds something else instead. -/
def partialDocument : Value :=
  .record [("tokens", .ofList Token.toJson []), ("note", .ofString "later"), ("height", .ofNat 7)]

theorem roundTrip_borderFile :
    ofText? .json borderFile.text = some borderFile
      ∧ ofText? .json partialDocument.pretty = some ⟨7, [], [], []⟩
      ∧ ofText? .json (text ⟨7, [], [], []⟩) = some ⟨7, [], [], []⟩ := by
  have hfits : borderFile.InRange := by
    refine ⟨by decide, fun p hp => ?_, by simp [borderFile, Token.InRange]⟩
    rw [List.mem_singleton.1 hp]
    exact ⟨by decide, by simp [PoolKind.InRange, PoolKind.codeId?], by simp [Coin.InRange], by decide⟩
  have hwritten : partialDocument.Written := by simp [partialDocument]
  have hpartial : ofText? .json partialDocument.pretty = some ⟨7, [], [], []⟩ := by
    rw [ofText?, parse?_pretty hwritten]
    rfl
  exact ⟨(roundTrip borderFile).1.2 hfits, hpartial, ((roundTrip ⟨7, [], [], []⟩).2 .json _ hpartial).1⟩

end SnapshotFile

end SwapRouting

import SwapRouting.Overwrite.Store
import SwapRouting.Proofs.Format.Records

/-! The record of pinned routes, written and read back.

It is read back whole, as long as its pools have identifiers of 64 bits. -/
namespace SwapRouting
set_option autoImplicit false

open Format Json

@[simp] theorem Hop.written_toJson (h : Hop) : h.toJson.Written := by simp [toJson]

@[simp] theorem CandidateRoute.written_toJson (r : CandidateRoute) : r.toJson.Written := by
  simp [toJson]

theorem OverwriteRecord.written_toJson (r : OverwriteRecord) : r.toJson.Written := by simp [toJson]

theorem Hop.read?_toJson {h : Hop} (hid : h.pool < 2 ^ 64) : Hop.read? h.toJson = some h := by
  have hrecord : record? Hop.fieldNames h.toJson
      = some [some (.ofNat h.pool), some (.ofString h.denomOut)] :=
    record?_record [("id", .ofNat h.pool), ("token_out_denom", .ofString h.denomOut)] (by simp)
  rw [Hop.read?, hrecord]
  simp only [required, Option.bind_eq_bind, Option.bind_some, word64?_ofNat hid]
  rfl

theorem CandidateRoute.read?_toJson {r : CandidateRoute} (h : ∀ id ∈ r.poolIds, id < 2 ^ 64) :
    CandidateRoute.read? r.toJson = some r := by
  have hrecord : record? ["pools"] r.toJson = some [some (.ofList Hop.toJson r.hops)] :=
    record?_record [("pools", .ofList Hop.toJson r.hops)] (by simp)
  have hhops : list? Hop.read? (Value.ofList Hop.toJson r.hops) = some r.hops :=
    list?_ofList fun x hx => Hop.read?_toJson (h x.pool (List.mem_map_of_mem hx))
  rw [CandidateRoute.read?, hrecord]
  simp only [required, Option.bind_eq_bind, Option.bind_some, hhops]

namespace OverwriteRecord

theorem read?_toJson {r : OverwriteRecord} (h : ∀ c ∈ r.routes, ∀ id ∈ c.poolIds, id < 2 ^ 64) :
    read? r.toJson = some r := by
  have hrecord : record? ["token_in_denom", "routes"] r.toJson
      = some [some (.ofString r.denomIn), some (.ofList CandidateRoute.toJson r.routes)] :=
    record?_record [("token_in_denom", .ofString r.denomIn),
      ("routes", .ofList CandidateRoute.toJson r.routes)] (by simp)
  have hroutes : list? CandidateRoute.read? (Value.ofList CandidateRoute.toJson r.routes) = some r.routes :=
    list?_ofList fun c hc => CandidateRoute.read?_toJson (h c hc)
  rw [read?, hrecord]
  simp only [required, Option.bind_eq_bind, Option.bind_some, hroutes]
  rfl

/-- What is written to a file of pinned routes is read back from it. -/
theorem ofText?_text {r : OverwriteRecord} (h : ∀ c ∈ r.routes, ∀ id ∈ c.poolIds, id < 2 ^ 64) :
    ofText? r.text = some r := by
  rw [ofText?, text, parse?_pretty r.written_toJson]
  exact read?_toJson h

end OverwriteRecord

end SwapRouting

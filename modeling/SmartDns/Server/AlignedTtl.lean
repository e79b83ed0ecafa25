/-
# The TTL of both families

The dual-stack selection gives all records of both answers one TTL, the least that any of
them came with. So no record lives longer than it came, and the forged SOA record of a
family that is withheld no longer than the addresses that won. Where neither answer has a
record there is no least TTL, and the SOA records that are made get the configured minimum
(`forged_without_records`).

Key definitions: `Forges`, `Aligned`.
Key theorem: `alignment_never_prolongs`.
-/
import SmartDns.Cache.Store
import SmartDns.Server.ProvenWinner

namespace SmartDns
namespace Server

open Dns Cache

/-- The records of both answers, as they came. -/
def bothRecords (aaaa a : DnsResponse) : List Record := aaaa.message.records ++ a.message.records

/-- The answer has no SOA record but among the answers that are withheld: one is forged. -/
def Forges (r : DnsResponse) : Prop := ∀ x ∈ r.message.authorities ++ r.message.additionals, x.recordType ≠ .SOA

/-! ### The least TTL -/

section

variable {aaaa a : DnsResponse} {cfgMinTtl : ℕ}

theorem minTtl_eq_none {r : DnsResponse} : minTtl r = none ↔ r.message.records = [] := by
  rw [minTtl, List.min?_eq_none_iff, List.map_eq_nil_iff]

theorem minTtl_eq_some {r : DnsResponse} {t : ℕ} (h : minTtl r = some t) :
    (∃ x ∈ r.message.records, x.ttl = t) ∧ ∀ x ∈ r.message.records, t ≤ x.ttl := by
  obtain ⟨hmem, hle⟩ := List.min?_eq_some_iff.mp h
  refine ⟨List.mem_map.mp hmem, fun x hx => ?_⟩
  exact hle _ (List.mem_map_of_mem hx)

/-- No record has a lesser one, -/
theorem alignedTtlFor_le {x : Record} (hx : x ∈ bothRecords aaaa a) : alignedTtlFor aaaa a cfgMinTtl ≤ x.ttl := by
  unfold alignedTtlFor
  have hfrom {r : DnsResponse} {t : ℕ} (h : minTtl r = some t) (hr : x ∈ r.message.records) : t ≤ x.ttl :=
    (minTtl_eq_some h).2 x hr
  have hnone {r : DnsResponse} (h : minTtl r = none) (hr : x ∈ r.message.records) : False := by
    rw [minTtl_eq_none.mp h] at hr
    cases hr
  rcases List.mem_append.mp hx with hx | hx
  · cases hs : minTtl aaaa with
    | none => exact absurd hx (hnone hs)
    | some s =>
      cases ht : minTtl a with
      | none => exact hfrom hs hx
      | some t => exact (Nat.min_le_left s t).trans (hfrom hs hx)
  · cases ht : minTtl a with
    | none => exact absurd hx (hnone ht)
    | some t =>
      cases hs : minTtl aaaa with
      | none => exact hfrom ht hx
      | some s => exact (Nat.min_le_right s t).trans (hfrom ht hx)

/-- and some record has it. -/
theorem exists_ttl_eq_alignedTtlFor (h : bothRecords aaaa a ≠ []) :
    ∃ x ∈ bothRecords aaaa a, x.ttl = alignedTtlFor aaaa a cfgMinTtl := by
  have hleft {s : ℕ} (hs : minTtl aaaa = some s) : ∃ x ∈ bothRecords aaaa a, x.ttl = s := by
    obtain ⟨x, hx, hxs⟩ := (minTtl_eq_some hs).1
    exact ⟨x, List.mem_append_left _ hx, hxs⟩
  have hright {t : ℕ} (ht : minTtl a = some t) : ∃ x ∈ bothRecords aaaa a, x.ttl = t := by
    obtain ⟨x, hx, hxt⟩ := (minTtl_eq_some ht).1
    exact ⟨x, List.mem_append_right _ hx, hxt⟩
  unfold alignedTtlFor
  cases hs : minTtl aaaa with
  | none =>
    cases ht : minTtl a with
    | none =>
      refine absurd ?_ h
      rw [bothRecords, minTtl_eq_none.mp hs, minTtl_eq_none.mp ht]
      rfl
    | some t => exact hright ht
  | some s =>
    cases ht : minTtl a with
    | none => exact hleft hs
    | some t =>
      rcases Nat.le_total s t with hle | hle
      · obtain ⟨x, hx, hxs⟩ := hleft hs
        exact ⟨x, hx, hxs.trans (Nat.min_eq_left hle).symm⟩
      · obtain ⟨x, hx, hxt⟩ := hright ht
        exact ⟨x, hx, hxt.trans (Nat.min_eq_right hle).symm⟩

theorem alignedTtlFor_of_nil (h : bothRecords aaaa a = []) : alignedTtlFor aaaa a cfgMinTtl = cfgMinTtl := by
  obtain ⟨haaaa, ha⟩ := List.append_eq_nil_iff.mp h
  rw [alignedTtlFor, minTtl_eq_none.mpr haaaa, minTtl_eq_none.mpr ha]

end

/-! ### What `process_resp` makes -/

section

variable {serial ttl : ℕ} {r : DnsResponse}

theorem mem_of_mem_ensureSoa {blocked : Bool} {x : Record}
    (h : x ∈ (ensureSoa serial blocked ttl r).message.records) : x ∈ r.message.records ∨ x.ttl = ttl := by
  unfold ensureSoa at h
  split at h
  · simp only [Message.records, takeAnswers, DnsResponse.addAuthority, List.nil_append, List.mem_append,
      List.mem_singleton] at h
    rcases h with (h | rfl) | h
    · exact .inl (List.mem_append_left _ (List.mem_append_right _ h))
    · exact .inr rfl
    · exact .inl (List.mem_append_right _ h)
  · exact .inl h

/-- Every record has the TTL, the SOA record that is made too. -/
theorem ttl_of_mem_processResp {blocked : Bool} {x : Record}
    (h : x ∈ (processResp serial blocked ttl r).message.records) : x.ttl = ttl := by
  rcases mem_of_mem_ensureSoa h with h | h
  · exact DnsResponse.ttl_of_mem_setNewTtl h
  · exact h

theorem recordType_setTtl (x : Record) : (x.setTtl ttl).recordType = x.recordType := rfl

/-- The records of a withheld answer, and behind them the forged one. -/
theorem processResp_of_forges (h : Forges r) : (processResp serial true ttl r).message =
    { r.message with
      answers := []
      authorities := r.message.authorities.map (·.setTtl ttl) ++ [(forgeSoaRecord serial r.query.name ttl).toRecord]
      additionals := r.message.additionals.map (·.setTtl ttl) } := by
  have hnone : ((takeAnswers r).setNewTtl ttl).message.records.any (·.recordType = .SOA) = false := by
    rw [List.any_eq_false]
    intro x hx
    simp only [Message.records, DnsResponse.setNewTtl, takeAnswers, List.map_nil, List.nil_append] at hx
    rw [← List.map_append] at hx
    obtain ⟨y, hy, rfl⟩ := List.mem_map.mp hx
    rw [recordType_setTtl, decide_eq_true_eq]
    exact h y hy
  unfold processResp ensureSoa
  rw [if_pos rfl, hnone]
  rfl

/-- A forged negative answer is stored for the TTL, -/
theorem insertionTtl_of_forges (h : Forges r) :
    insertionTtl (processResp serial true ttl r) = min ttl MAX_TTL := by
  have hfind : (r.message.authorities.map (·.setTtl ttl) ++
      [(forgeSoaRecord serial r.query.name ttl).toRecord]).find? (·.recordType = .SOA) =
      some (forgeSoaRecord serial r.query.name ttl).toRecord := by
    rw [List.find?_append, List.find?_eq_none.mpr, Option.none_or]
    · rfl
    · intro x hx
      obtain ⟨y, hy, rfl⟩ := List.mem_map.mp hx
      rw [recordType_setTtl, decide_eq_true_eq]
      exact h y (List.mem_append_left _ hy)
  unfold insertionTtl
  rw [processResp_of_forges h]
  dsimp only
  rw [hfind]
  simp [SoaRecord.toRecord, forgeSoaRecord, Nat.min_comm]

/-- and an answer whose records all have the TTL no less. -/
theorem le_insertionTtl {x : Record} (hx : x ∈ r.message.answers) (h : ∀ x ∈ r.message.answers, x.ttl = ttl) :
    min ttl MAX_TTL ≤ insertionTtl r := by
  have hne : r.message.answers.isEmpty = false := List.isEmpty_eq_false_iff.mpr (List.ne_nil_of_mem hx)
  have hmin : (r.message.answers.map (·.ttl)).min? = some ttl := by
    refine List.min?_eq_some_iff.mpr ⟨?_, fun t ht => ?_⟩
    · rw [← h x hx]
      exact List.mem_map_of_mem hx
    · obtain ⟨y, hy, rfl⟩ := List.mem_map.mp ht
      exact Nat.le_of_eq (h y hy).symm
  unfold insertionTtl
  dsimp only
  rw [hne, hmin]
  simp only [Bool.not_false, if_true, Option.getD_some]
  omega

end

/-! ### The selection -/

/-- What holds of the two answers that are made of `aaaa` and `a`, and of the TTL of their records. -/
structure Aligned (cfg : RuntimeConfig) (serial : ℕ) (ctx : ChainContext) (aaaa a : DnsResponse)
    (won : Option Bool) : Prop where
  same : ∀ isAaaa, ∀ x ∈ (answerFor cfg serial ctx won aaaa a isAaaa).message.records,
    x.ttl = alignedTtlFor aaaa a (cfgMinTtl cfg ctx)
  /-- The TTL is the least of both, where they have a record. -/
  least : ∀ x ∈ bothRecords aaaa a, alignedTtlFor aaaa a (cfgMinTtl cfg ctx) ≤ x.ttl
  attained : bothRecords aaaa a ≠ [] → ∃ x ∈ bothRecords aaaa a, x.ttl = alignedTtlFor aaaa a (cfgMinTtl cfg ctx)
  configured : bothRecords aaaa a = [] → alignedTtlFor aaaa a (cfgMinTtl cfg ctx) = cfgMinTtl cfg ctx
  /-- The forged negative answer of a family that is withheld lives no longer than the answer of the other, in the
  cache either. -/
  forged : ∀ isAaaa, blocks cfg ctx won isAaaa = true → Forges (if isAaaa then aaaa else a) →
    (answerFor cfg serial ctx won aaaa a isAaaa).message.answers = [] ∧
    (∃ soa : SoaRecord, soa.toRecord ∈ (answerFor cfg serial ctx won aaaa a isAaaa).message.authorities ∧
      ∀ x ∈ (answerFor cfg serial ctx won aaaa a !isAaaa).message.records, soa.ttl ≤ x.ttl ∧ soa.minimum ≤ x.ttl) ∧
    insertionTtl (answerFor cfg serial ctx won aaaa a isAaaa) ≤
      insertionTtl (answerFor cfg serial ctx won aaaa a !isAaaa)

section

variable {cfg : RuntimeConfig} {now : ℤ} {serial : ℕ} {ctx : ChainContext} {won : Option Bool}
  {rounds : ℕ → Round} {aaaa a : DnsResponse}

theorem ttl_of_mem_answerFor {isAaaa : Bool} {x : Record}
    (h : x ∈ (answerFor cfg serial ctx won aaaa a isAaaa).message.records) :
    x.ttl = alignedTtlFor aaaa a (cfgMinTtl cfg ctx) := by
  rw [answerFor_message] at h
  exact ttl_of_mem_processResp h

theorem insertionTtl_congr {r r' : DnsResponse} (h : r.message = r'.message) : insertionTtl r = insertionTtl r' := by
  unfold insertionTtl
  rw [h]

/-- The family that won has an address, and so an answer. -/
theorem RaceEnds.exists_mem {winner : Bool} (h : RaceEnds cfg ctx (some winner) rounds aaaa a) :
    ∃ x, x ∈ (if winner then aaaa else a).message.answers := by
  obtain ⟨k, mode, -, ip, hip, -⟩ := h.proven
  have hip : ip ∈ (if winner then aaaa else a).ipAddrs := by
    cases winner <;> exact hip
  obtain ⟨x, hx, -⟩ := List.mem_filterMap.mp hip
  exact ⟨x, hx⟩

theorem aligned_of_raceEnds (h : RaceEnds cfg ctx won rounds aaaa a) : Aligned cfg serial ctx aaaa a won := by
  refine ⟨fun isAaaa x hx => ttl_of_mem_answerFor hx, fun x hx => alignedTtlFor_le hx, exists_ttl_eq_alignedTtlFor,
    alignedTtlFor_of_nil, ?_⟩
  intro isAaaa hblocks hforges
  obtain rfl := won_of_blocks hblocks
  -- the other family has won: it is not withheld, and has an answer
  have hnot : blocks cfg ctx (some !isAaaa) (!isAaaa) = false := by
    cases isAaaa <;> rfl
  obtain ⟨x, hx⟩ := h.exists_mem
  have hkeeps : KeepsRecords _ _ (answerFor cfg serial ctx (some !isAaaa) aaaa a !isAaaa) := keepsRecords_answerFor hnot
  have hmessage : (answerFor cfg serial ctx (some !isAaaa) aaaa a isAaaa).message = _ := answerFor_message aaaa a isAaaa
  rw [hblocks] at hmessage
  refine ⟨?_, ?_, ?_⟩
  · rw [hmessage, processResp_of_forges hforges]
  · refine ⟨forgeSoaRecord serial (if isAaaa then aaaa else a).query.name
      (alignedTtlFor aaaa a (cfgMinTtl cfg ctx)), ?_, fun y hy => ?_⟩
    · rw [hmessage, processResp_of_forges hforges]
      exact List.mem_append_right _ List.mem_cons_self
    · rw [ttl_of_mem_answerFor hy]
      exact ⟨Nat.le_refl _, Nat.le_refl _⟩
  · rw [insertionTtl_congr hmessage, insertionTtl_of_forges hforges]
    refine le_insertionTtl (x := x.setTtl (alignedTtlFor aaaa a (cfgMinTtl cfg ctx))) ?_ fun y hy => ?_
    · rw [hkeeps.answers]
      exact List.mem_map_of_mem hx
    · exact ttl_of_mem_answerFor (List.mem_append_left _ (List.mem_append_left _ hy))

/-- **Alignment never prolongs an answer**: in every run that gives an answer, what the upstream answered is handed on
as it is, or the answer and the one handed to the cache are `Aligned`. -/
theorem alignment_never_prolongs {S : Type} {next : Next S} {req : DnsRequest} {s s' : S}
    {lookup : DnsResponse} {extra : List (Query × DnsResponse)}
    (h : DualstackRun cfg now serial ctx rounds next req s (.ok lookup, extra, s')) :
    ((next ctx req s).1 = .ok lookup ∧ extra = []) ∨
    ∃ this that won, bothAnswers now req (req.setQueryType (otherFamily req.query.queryType)) (next ctx req s).1
        (next ctx (req.setQueryType (otherFamily req.query.queryType)) (next ctx req s).2).1 = .ok (this, that) ∧
      (lookup, extra) = answersFor cfg serial ctx won (req.query.queryType = .AAAA) this that ∧
      Aligned cfg serial ctx (if req.query.queryType = .AAAA then this else that)
        (if req.query.queryType = .AAAA then that else this) won := by
  rcases h.answers with hon | ⟨this, that, won, hboth, hrace, hout⟩
  · exact .inl hon
  · exact .inr ⟨this, that, won, hboth, hout, aligned_of_raceEnds hrace⟩

end

/-! ### Without a record -/

/-- No records, and not even an SOA record. -/
def noData (queryType : RecordType) : DnsResponse := .newWithDeadline (wwwQuery queryType) [] 0

/-- Both families have nothing, in either mode. -/
theorem raceEnds_noData (rounds : ℕ → Round) :
    RaceEnds dns64Config wwwContext none rounds (noData .AAAA) (noData .A) := by
  have hneither (round : Round) (mode : Rule.SpeedCheckMode) (threshold : ℕ) :
      round.Ends threshold [] [] mode none := by
    have hnone : probed mode [] = [] := by
      unfold probed
      split <;> rfl
    exact @Round.Ends.neither threshold [] [] round mode true 0 0 (.noAddress hnone) (.noAddress hnone) (Nat.le_refl 0)
  have hrun : (dualstackEnabled dns64Config wwwContext && !shouldSkipSpeedRace dns64Config wwwContext) = true := by
    decide +kernel
  rw [RaceEnds, if_pos hrun]
  exact .next (hneither _ _ _) (.next (hneither _ _ _) .undecided)

/-- Both answers get an SOA record, for the configured minimum; it is the TTL of no record. -/
theorem forged_without_records : ¬ ∀ (cfg : RuntimeConfig) (serial : ℕ) (ctx : ChainContext) (won : Option Bool)
    (rounds : ℕ → Round) (aaaa a : DnsResponse), RaceEnds cfg ctx won rounds aaaa a →
    ∀ isAaaa, ∀ x ∈ (answerFor cfg serial ctx won aaaa a isAaaa).message.records,
      (∃ y ∈ bothRecords aaaa a, y.ttl = x.ttl) ∧ ∀ y ∈ bothRecords aaaa a, x.ttl ≤ y.ttl := by
  intro h
  obtain ⟨⟨y, hy, -⟩, -⟩ := h dns64Config 0 wwwContext none (fun _ => ⟨fun _ => 0, fun _ _ => .pending⟩) (noData .AAAA)
    (noData .A) (raceEnds_noData _) true (forgeSoaRecord 0 (wwwQuery .AAAA).name 60).toRecord List.mem_cons_self
  cases hy

/-- The addresses of `www.example.com`, of which the IPv4 address answers first. -/
theorem alignment_never_prolongs_www :
    ((bothFamilies wwwContext wwwAaaaRequest ()).1 = .ok withheldAaaa ∧
      [(wwwQuery .A, { wwwAnswer (wwwQuery .A) with aaaaSuppressed := true })] = ([] : List (Query × DnsResponse))) ∨
    ∃ this that won, bothAnswers 0 wwwAaaaRequest (wwwAaaaRequest.setQueryType .A)
        (bothFamilies wwwContext wwwAaaaRequest ()).1
        (bothFamilies wwwContext (wwwAaaaRequest.setQueryType .A) ()).1 = .ok (this, that) ∧
      (withheldAaaa, [(wwwQuery .A, { wwwAnswer (wwwQuery .A) with aaaaSuppressed := true })]) =
        answersFor dns64Config 0 wwwContext won true this that ∧
      Aligned dns64Config 0 wwwContext this that won := by
  obtain ⟨rounds, hrun⟩ := dualstackMiddleware_run dns64Config ipv4Wins 0 0 wwwContext bothFamilies wwwAaaaRequest ()
  have hrun : DualstackRun dns64Config 0 0 wwwContext rounds bothFamilies wwwAaaaRequest ()
      (.ok withheldAaaa, [(wwwQuery .A, { wwwAnswer (wwwQuery .A) with aaaaSuppressed := true })], ()) := hrun
  exact alignment_never_prolongs hrun

end Server
end SmartDns

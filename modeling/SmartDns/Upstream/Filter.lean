/-
# The address filters of an upstream server

`per_nameserver_lookup_ip` puts what an upstream server answered through its filters:
a negative that the resolver library reports as an error becomes a response again,
addresses on the server's lists or on the ignore list are dropped, and the rest are
replaced by their aliases. Records without an address stay.

Key definitions: `ipFilter`, `filterAnswers`, `perNameserverLookupIp`.
Key theorem: `passed_of_mem_filterAnswers`.
-/
import SmartDns.Dns.Address
import SmartDns.Dns.Error
import SmartDns.Upstream.Options

namespace SmartDns
namespace Upstream

open Dns

/-- The addresses that stand in for those of an alias rule, shared by its networks; `ptr` says which
rule's they are. -/
structure AliasIps where
  ptr : ℕ
  ips : List IpAddr
deriving DecidableEq

structure LookupIpOptions extends SpeedOptions where
  recordType : RecordType
  ignoreIp : IpSet := []
  whitelistIp : IpSet := []
  blacklistIp : IpSet := []
  ipAlias : IpMap AliasIps := []

/-- The addresses that pass; the whitelist is asked first. -/
def ipFilter (ns : NameServerOpts) (o : LookupIpOptions) (ip : IpAddr) : Bool :=
  if ns.whitelistIp && o.whitelistIp.contains ip then true
  else if ns.blacklistIp && o.blacklistIp.contains ip then false
  else !o.ignoreIp.contains ip

/-- A record for each address of an alias rule. -/
def aliasRecords (record : Record) (aliasIps : AliasIps) : List Record :=
  aliasIps.ips.map fun ip => { record with data := .ofIpAddr ip }

/-- The answers that stay, and those of aliases of the other family; `aliasSet` has the alias rules
that were used. -/
def filterAnswers (ns : NameServerOpts) (o : LookupIpOptions) : List Record → List ℕ → List Record × List Record
  | [], _ => ([], [])
  | record :: rest, aliasSet =>
    match record.data.ipAddr with
    | none => ((filterAnswers ns o rest aliasSet).map (record :: ·) id)
    | some ip =>
      if !ipFilter ns o ip then filterAnswers ns o rest aliasSet
      else
        match o.ipAlias.get ip with
        | none => ((filterAnswers ns o rest aliasSet).map (record :: ·) id)
        | some aliasIps =>
          if aliasSet.contains aliasIps.ptr then filterAnswers ns o rest aliasSet
          else
            let (own, others) := (aliasRecords record aliasIps).partition fun r => r.recordType = o.recordType
            ((filterAnswers ns o rest (aliasSet ++ [aliasIps.ptr])).map (own ++ ·) (others ++ ·))

/-- The response after the filters; `res` is what the server's lookup gave. -/
def perNameserverLookupIp (now : ℤ) (name : Name) (o : LookupIpOptions) (ns : NameServerOpts) (res : LookupResult) :
    LookupResult :=
  if !o.recordType.isIpAddr then .error (.proto .noConnections)
  else
    let res :=
      match res with
      | .ok r => .ok r
      | .error e =>
        match e.asSoa now { name, queryType := o.recordType, queryClass := .IN } with
        | some r => .ok r
        | none => .error e
    if !ns.whitelistIp && !ns.blacklistIp && o.ignoreIp.isEmpty && o.ipAlias.isEmpty then res
    else
      match res with
      | .error e => .error e
      | .ok r =>
        let (answers, others) := filterAnswers ns o r.message.answers []
        .ok
          { r with
            message := { r.message with answers, additionals := r.message.additionals ++ others }
            validUntil := now + fromSecs MAX_TTL }

/-- One of the records has an address that passes, and `ip` is it or stands in for it. -/
def Passed (ns : NameServerOpts) (o : LookupIpOptions) (ip : IpAddr) (records : List Record) : Prop :=
  ∃ r ∈ records, ∃ ip', r.data.ipAddr = some ip' ∧ ipFilter ns o ip' = true ∧
    (ip = ip' ∨ ∃ aliasIps, o.ipAlias.get ip' = some aliasIps ∧ ip ∈ aliasIps.ips)

theorem Passed.cons {ns : NameServerOpts} {o : LookupIpOptions} {ip : IpAddr} {records : List Record} (record : Record)
    (h : Passed ns o ip records) : Passed ns o ip (record :: records) := by
  obtain ⟨r, hr, hrest⟩ := h
  exact ⟨r, List.mem_cons_of_mem _ hr, hrest⟩

/-- **An address that comes through the filters was answered and passed**, or stands in for one that did. -/
theorem passed_of_mem_filterAnswers (ns : NameServerOpts) (o : LookupIpOptions) {x : Record} {ip : IpAddr}
    (hip : x.data.ipAddr = some ip) : ∀ {records : List Record} {aliasSet : List ℕ},
    x ∈ (filterAnswers ns o records aliasSet).1 → Passed ns o ip records
  | [], _, h => by cases h
  | record :: rest, aliasSet, h => by
    have later {aliasSet : List ℕ} (h : x ∈ (filterAnswers ns o rest aliasSet).1) : Passed ns o ip (record :: rest) :=
      (passed_of_mem_filterAnswers ns o hip h).cons record
    unfold filterAnswers at h
    split at h
    · rename_i hnone
      rcases List.mem_cons.mp h with rfl | h
      · rw [hip] at hnone
        cases hnone
      · exact later h
    · rename_i ip' hip'
      split at h
      · exact later h
      · rename_i hpass
        have hpass : ipFilter ns o ip' = true := by simpa using hpass
        split at h
        · rcases List.mem_cons.mp h with rfl | h
          · rw [hip] at hip'
            obtain rfl := Option.some.inj hip'
            exact ⟨x, List.mem_cons_self, ip, hip, hpass, .inl rfl⟩
          · exact later h
        · rename_i aliasIps halias
          split at h
          · exact later h
          · rw [List.partition_eq_filter_filter] at h
            rcases List.mem_append.mp h with h | h
            · -- its record was made from one of the rule's addresses
              obtain ⟨ip'', hmem, rfl⟩ := List.mem_map.mp (List.mem_filter.mp h).1
              rw [RData.ipAddr_ofIpAddr] at hip
              obtain rfl := Option.some.inj hip
              exact ⟨record, List.mem_cons_self, ip', hip', hpass, .inr ⟨aliasIps, halias, hmem⟩⟩
            · exact later h

end Upstream
end SmartDns

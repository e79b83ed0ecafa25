/-
# Which definition stands

A setting with one value, defined more than once in a group: a parameter of the group, or for
a domain the name-server group, `cname`, `srv-record` or `https-record`. The last line that
sets it does not always stand (`last_definition_wins_iff`).

- Of a parameter the block of the group that is closed first and has it stands: a later block
  only fills in what is not there.
- The rules of the blocks are put together in the order the blocks are closed, each block's
  with those it has taken over first. A block within a block of the same group, or in the
  group `default` at top level, comes before the lines above it.
- A line of the setting's own kind stands over any `domain-rules` line.
- Of neighbouring `cname` lines on the same domain the first stands (`adjacent_cname`).
- If any rule on the domain is written with the root dot, the lines without it do not count.

Key definitions: `ParamField`, `DomainSetting`, `ParamField.LastWins`, `DomainSetting.LastWins`,
`ParamField.inBlocks`, `DomainSetting.inBlocks`.
Key theorems: `ParamField.lastWins_of_one_block`, `last_definition_wins_iff`.
-/
import SmartDns.Config.Blocks
import SmartDns.Rule.Sound
import SmartDns.Rule.Standing

namespace SmartDns
namespace Config

open Dns Lib Rule Server

variable {S G : Type} {α : Type}

/-! ### Neighbours on the same domain -/

theorem sameDomain_symm {a b : Domain} (h : sameDomain a b = true) : sameDomain b a = true := by
  cases a <;> cases b <;> simp_all [sameDomain, BEq.comm]

theorem sameDomain_trans {a b c : Domain} (h : sameDomain a b = true) (h' : sameDomain b c = true) :
    sameDomain a c = true := by
  match a, b, c, h, h' with
  | .name _, .name _, .name _, h, h' => exact BEq.trans h h'
  | .set _, .set _, .set _, h, h' => exact BEq.trans h h'

/-- `dedup_by` on the domain. -/
abbrev dedupLines (l : List (ConfigForDomain α)) : List (ConfigForDomain α) :=
  dedupBy (fun a b => sameDomain a.domain b.domain) l

/-- The value of the first of the neighbours that the first line of the list ends; the lines come latest first. -/
def firstOfRun : List (ConfigForDomain α) → Option α
  | [] => none
  | c :: cs => some (go c cs)
where
  go (c : ConfigForDomain α) : List (ConfigForDomain α) → α
    | [] => c.config
    | b :: bs => if sameDomain c.domain b.domain then go b bs else c.config

/-- Of the last line that covers a pattern and its neighbours before it on the same domain, the first. -/
def standingFirst (covers : Domain → Bool) (l : List (ConfigForDomain α)) : Option α :=
  firstOfRun (l.reverse.dropWhile fun c => !covers c.domain)

theorem sameDomain_congr {a b : Domain} (h : sameDomain a b = true) (c : Domain) : sameDomain c a = sameDomain c b := by
  rw [Bool.eq_iff_iff]
  exact ⟨fun hc => sameDomain_trans hc h, fun hc => sameDomain_trans hc (sameDomain_symm h)⟩

theorem dedupBy_go_concat (b c : ConfigForDomain α) (l : List (ConfigForDomain α)) : ∀ last : ConfigForDomain α,
    dedupBy.go (fun a b => sameDomain a.domain b.domain) last (l ++ [b] ++ [c]) =
      dedupBy.go (fun a b => sameDomain a.domain b.domain) last (l ++ [b]) ++
        if sameDomain c.domain b.domain then [] else [c] := by
  induction l with
  | nil =>
    intro last
    simp only [List.nil_append, List.cons_append, dedupBy.go]
    by_cases hb : sameDomain b.domain last.domain = true
    · rw [if_pos hb, if_pos hb, sameDomain_congr hb]
      rfl
    · rw [if_neg hb, if_neg hb]
      rfl
  | cons a l ih =>
    intro last
    simp only [List.cons_append, dedupBy.go]
    split
    · exact ih last
    · exact congrArg (a :: ·) (ih a)

/-- A line stays unless the one before it is on the same domain. -/
theorem dedupLines_concat (l : List (ConfigForDomain α)) (b c : ConfigForDomain α) :
    dedupLines (l ++ [b] ++ [c]) =
      dedupLines (l ++ [b]) ++ if sameDomain c.domain b.domain then [] else [c] := by
  cases l with
  | nil =>
    show b :: (if sameDomain c.domain b.domain then [] else [c]) = b :: ([] ++ _)
    rw [List.nil_append]
  | cons a l => exact congrArg (a :: ·) (dedupBy_go_concat b c l a)

/-- **Of the lines that are left, the first of the neighbours stands.** -/
theorem standing_dedupLines {covers : Domain → Bool} (hcovers : ∀ a b, sameDomain a b = true → covers a = covers b)
    (l : List (ConfigForDomain α)) : standing covers (dedupLines l) = standingFirst covers l := by
  induction l using List.reverseRecOn with
  | nil => rfl
  | append_singleton l c ih =>
    have hdrop : (l ++ [c]).reverse = c :: l.reverse := List.reverse_concat
    cases l using List.reverseRecOn with
    | nil =>
      cases hc : covers c.domain with
      | true => simp [standing, standingFirst, dedupBy, dedupBy.go, firstOfRun, firstOfRun.go, hc]
      | false => simp [standing, standingFirst, dedupBy, dedupBy.go, firstOfRun, hc]
    | append_singleton l b =>
      rw [dedupLines_concat]
      cases hc : covers c.domain with
      | false =>
        have hskip : standingFirst covers (l ++ [b] ++ [c]) = standingFirst covers (l ++ [b]) := by
          unfold standingFirst
          rw [hdrop, List.dropWhile_cons_of_pos (by simp [hc])]
        rw [hskip, ← ih]
        split
        · rw [List.append_nil]
        · exact standing_concat_of_not_covers _ hc
      | true =>
        have hstop : standingFirst covers (l ++ [b] ++ [c]) = some (firstOfRun.go c (b :: l.reverse)) := by
          unfold standingFirst
          rw [hdrop, List.dropWhile_cons_of_neg (by simp [hc]), List.reverse_concat]
          rfl
        rw [hstop, firstOfRun.go]
        by_cases hsame : sameDomain c.domain b.domain = true
        · have hb : covers b.domain = true := (hcovers _ _ hsame).symm.trans hc
          rw [if_pos hsame, if_pos hsame, List.append_nil, ih, standingFirst, List.reverse_concat,
            List.dropWhile_cons_of_neg (by simp [hb])]
          rfl
        · rw [if_neg hsame, if_neg hsame]
          exact standing_concat_of_covers _ hc

/-! ### The settings -/

/-- A parameter of a group: how a line sets it and how blocks are put together. -/
structure ParamField (α : Type) where
  get : GroupParams → Option α
  sets : ParamItem → Option (Option α)
  get_default : get {} = none
  get_set : ∀ p item, get (item.set p) = (sets item).getD (get p)
  get_inheritFrom : ∀ p q, get (inheritFrom p q) = (get p).or (get q)

/-- A setting of a domain: the lines of its own kind, besides `domain-rules` lines. -/
structure DomainSetting (α : Type) where
  setting : Setting α
  overwrites : ∀ l r, setting.combine l r = r
  line : RuleItem → Option (ConfigForDomain α)
  lines : RuleGroup → List (ConfigForDomain α)
  /-- Of neighbouring lines on the same domain the first stays. -/
  dedups : Bool
  line_domainRule : ∀ v, line (.domainRule v) = none
  lines_default : lines {} = []
  lines_write : ∀ g e, lines (g.write e) = lines g ++ match e with
    | .rule r => (line r).toList
    | .param _ => []
  lines_merge : ∀ g g', lines (g.merge g') = lines g ++ lines g'
  written : ∀ (rt : RuleTrees) (g : RuleGroup),
    (rt.ruleSetOf g).written.filterMap (fun e => (setting.get e.2).map (e.1, ·)) =
      (rt.ruleSetOf g).expandRules (RuleSet.giving setting g.domainRules) ++
        (rt.ruleSetOf g).expandRules (if dedups then dedupLines (lines g) else lines g)

namespace ParamField

def forceNoCname : ParamField Bool :=
  ⟨(·.forceNoCname), fun | .forceNoCname v => some (some v) | _ => none, rfl, fun _ item => by cases item <;> rfl, fun _ _ => rfl⟩

def forceAaaaSoa : ParamField Bool :=
  ⟨(·.forceAaaaSoa), fun | .forceAaaaSoa v => some (some v) | _ => none, rfl, fun _ item => by cases item <;> rfl, fun _ _ => rfl⟩

def ipsetTimeout : ParamField Bool :=
  ⟨(·.ipsetTimeout), fun | .ipSetTimeout v => some (some v) | _ => none, rfl, fun _ item => by cases item <;> rfl, fun _ _ => rfl⟩

def nftsetTimeout : ParamField Bool :=
  ⟨(·.nftsetTimeout), fun | .nftSetTimeout v => some (some v) | _ => none, rfl, fun _ item => by cases item <;> rfl, fun _ _ => rfl⟩

def rrTtl : ParamField UInt64 :=
  ⟨(·.rrTtl), fun | .rrTtl v => some (some v) | _ => none, rfl, fun _ item => by cases item <;> rfl, fun _ _ => rfl⟩

def rrTtlMin : ParamField UInt64 :=
  ⟨(·.rrTtlMin), fun | .rrTtlMin v => some (some v) | _ => none, rfl, fun _ item => by cases item <;> rfl, fun _ _ => rfl⟩

def rrTtlMax : ParamField UInt64 :=
  ⟨(·.rrTtlMax), fun | .rrTtlMax v => some (some v) | _ => none, rfl, fun _ item => by cases item <;> rfl, fun _ _ => rfl⟩

def rrTtlReplyMax : ParamField UInt64 :=
  ⟨(·.rrTtlReplyMax), fun | .rrTtlReplyMax v => some (some v) | _ => none, rfl, fun _ item => by cases item <;> rfl, fun _ _ => rfl⟩

def localTtl : ParamField UInt64 :=
  ⟨(·.localTtl), fun | .localTtl v => some (some v) | _ => none, rfl, fun _ item => by cases item <;> rfl, fun _ _ => rfl⟩

def maxReplyIpNum : ParamField UInt8 :=
  ⟨(·.maxReplyIpNum), fun | .maxReplyIpNum v => some (some v) | _ => none, rfl, fun _ item => by cases item <;> rfl, fun _ _ => rfl⟩

def speedCheckMode : ParamField SpeedCheckModeList :=
  ⟨(·.speedCheckMode), fun | .speedMode v => some v | _ => none, rfl, fun _ item => by cases item <;> rfl, fun _ _ => rfl⟩

def responseMode : ParamField Rule.ResponseMode :=
  ⟨(·.responseMode), fun | .responseMode v => some (some v) | _ => none, rfl, fun _ item => by cases item <;> rfl, fun _ _ => rfl⟩

def dualstackIpSelection : ParamField Bool :=
  ⟨(·.dualstackIpSelection), fun | .dualstackIpSelection v => some (some v) | _ => none, rfl, fun _ item => by cases item <;> rfl, fun _ _ => rfl⟩

def dualstackIpAllowForceAaaa : ParamField Bool :=
  ⟨(·.dualstackIpAllowForceAaaa), fun | .dualstackIpAllowForceAaaa v => some (some v) | _ => none, rfl, fun _ item => by cases item <;> rfl, fun _ _ => rfl⟩

def dualstackIpSelectionThreshold : ParamField UInt64 :=
  ⟨(·.dualstackIpSelectionThreshold), fun | .dualstackIpSelectionThreshold v => some (some v) | _ => none, rfl, fun _ item => by cases item <;> rfl, fun _ _ => rfl⟩

def dns64Prefix : ParamField Ipv6Net :=
  ⟨(·.dns64Prefix), fun | .dns64 v => some (some v) | _ => none, rfl, fun _ item => by cases item <;> rfl, fun _ _ => rfl⟩

def serveExpired : ParamField Bool :=
  ⟨(·.serveExpired), fun | .serveExpired v => some (some v) | _ => none, rfl, fun _ item => by cases item <;> rfl, fun _ _ => rfl⟩

def serveExpiredReplyTtl : ParamField UInt64 :=
  ⟨(·.serveExpiredReplyTtl), fun | .serveExpiredReplyTtl v => some (some v) | _ => none, rfl, fun _ item => by cases item <;> rfl, fun _ _ => rfl⟩

def prefetchDomain : ParamField Bool :=
  ⟨(·.prefetchDomain), fun | .prefetchDomain v => some (some v) | _ => none, rfl, fun _ item => by cases item <;> rfl, fun _ _ => rfl⟩

def ednsClientSubnet : ParamField IpNet :=
  ⟨(·.ednsClientSubnet), fun | .ednsClientSubnet v => some (some v) | _ => none, rfl, fun _ item => by cases item <;> rfl, fun _ _ => rfl⟩

end ParamField

section

variable {s : Setting α} {β : Type} {contribution : β → DomainRule} (rs : RuleSet)

theorem filterMap_writtenOf_none (h : ∀ c, s.get (contribution c) = none) (rules : List (ConfigForDomain β)) :
    (rs.writtenOf contribution rules).filterMap (fun e => (s.get e.2).map (e.1, ·)) = [] := by
  rw [List.filterMap_eq_nil_iff]
  intro e he
  obtain ⟨e', -, rfl⟩ := List.mem_map.mp he
  show (s.get (contribution e'.2)).map _ = none
  rw [h]
  rfl

theorem filterMap_writtenOf_some {contribution : α → DomainRule} (h : ∀ c, s.get (contribution c) = some c)
    (rules : List (ConfigForDomain α)) :
    (rs.writtenOf contribution rules).filterMap (fun e => (s.get e.2).map (e.1, ·)) = rs.expandRules rules := by
  unfold RuleSet.writtenOf
  rw [List.filterMap_map]
  have hsome : ((fun e : WildcardName × DomainRule => (s.get e.2).map (e.1, ·)) ∘ Prod.map id contribution) = some := by
    funext e
    show (s.get (contribution e.2)).map _ = _
    rw [h]
    rfl
  rw [hsome, List.filterMap_some]

theorem filterMap_writtenOf_id (rules : List (ConfigForDomain DomainRule)) :
    (rs.writtenOf id rules).filterMap (fun e => (s.get e.2).map (e.1, ·)) =
      rs.expandRules (RuleSet.giving s rules) := by
  unfold RuleSet.writtenOf
  rw [Prod.map_id, List.map_id, rs.filterMap_expandRules]

end

namespace DomainSetting

def nameserver : DomainSetting String where
  setting := Setting.nameserver
  overwrites _ _ := rfl
  line | .forwardRule v => some v | _ => none
  lines := (·.forwardRules)
  dedups := false
  line_domainRule _ := rfl
  lines_default := rfl
  lines_write g e := by
    rcases e with r | p
    · cases r <;> first | rfl | exact (List.append_nil _).symm
    · exact (List.append_nil _).symm
  lines_merge _ _ := rfl
  written rt g := by
    unfold RuleSet.written
    simp only [List.filterMap_append]
    rw [filterMap_writtenOf_id, filterMap_writtenOf_none _ fun _ => rfl, filterMap_writtenOf_some _ fun _ => rfl,
      filterMap_writtenOf_none _ fun _ => rfl, filterMap_writtenOf_none _ fun _ => rfl,
      filterMap_writtenOf_none _ fun _ => rfl, filterMap_writtenOf_none _ fun _ => rfl,
      filterMap_writtenOf_none _ fun _ => rfl]
    simp only [List.append_nil]
    rfl

def cname : DomainSetting CNameRule where
  setting := Setting.cname
  overwrites _ _ := rfl
  line | .cname v => some v | _ => none
  lines := (·.cnames)
  dedups := true
  line_domainRule _ := rfl
  lines_default := rfl
  lines_write g e := by
    rcases e with r | p
    · cases r <;> first | rfl | exact (List.append_nil _).symm
    · exact (List.append_nil _).symm
  lines_merge _ _ := rfl
  written rt g := by
    unfold RuleSet.written
    simp only [List.filterMap_append]
    rw [filterMap_writtenOf_id, filterMap_writtenOf_none _ fun _ => rfl, filterMap_writtenOf_none _ fun _ => rfl,
      filterMap_writtenOf_some _ fun _ => rfl, filterMap_writtenOf_none _ fun _ => rfl,
      filterMap_writtenOf_none _ fun _ => rfl, filterMap_writtenOf_none _ fun _ => rfl,
      filterMap_writtenOf_none _ fun _ => rfl]
    simp only [List.append_nil]
    rfl

def srv : DomainSetting Srv where
  setting := Setting.srv
  overwrites _ _ := rfl
  line | .srvRecord v => some v | _ => none
  lines := (·.srvRecords)
  dedups := false
  line_domainRule _ := rfl
  lines_default := rfl
  lines_write g e := by
    rcases e with r | p
    · cases r <;> first | rfl | exact (List.append_nil _).symm
    · exact (List.append_nil _).symm
  lines_merge _ _ := rfl
  written rt g := by
    unfold RuleSet.written
    simp only [List.filterMap_append]
    rw [filterMap_writtenOf_id, filterMap_writtenOf_none _ fun _ => rfl, filterMap_writtenOf_none _ fun _ => rfl,
      filterMap_writtenOf_none _ fun _ => rfl, filterMap_writtenOf_some _ fun _ => rfl,
      filterMap_writtenOf_none _ fun _ => rfl, filterMap_writtenOf_none _ fun _ => rfl,
      filterMap_writtenOf_none _ fun _ => rfl]
    simp only [List.append_nil]
    rfl

def https : DomainSetting HttpsRecordRule where
  setting := Setting.https
  overwrites _ _ := rfl
  line | .httpsRecord v => some v | _ => none
  lines := (·.httpsRecords)
  dedups := false
  line_domainRule _ := rfl
  lines_default := rfl
  lines_write g e := by
    rcases e with r | p
    · cases r <;> first | rfl | exact (List.append_nil _).symm
    · exact (List.append_nil _).symm
  lines_merge _ _ := rfl
  written rt g := by
    unfold RuleSet.written
    simp only [List.filterMap_append]
    rw [filterMap_writtenOf_id, filterMap_writtenOf_none _ fun _ => rfl, filterMap_writtenOf_none _ fun _ => rfl,
      filterMap_writtenOf_none _ fun _ => rfl, filterMap_writtenOf_none _ fun _ => rfl,
      filterMap_writtenOf_some _ fun _ => rfl, filterMap_writtenOf_none _ fun _ => rfl,
      filterMap_writtenOf_none _ fun _ => rfl]
    simp only [List.append_nil]
    rfl

end DomainSetting

/-! ### What the blocks of a group give -/

/-- What the last of the entries that count gives. -/
def lastOf {β : Type} (f : Entry → Option β) (es : List Entry) : Option β := (es.filterMap f).getLast?

theorem lastOf_concat {β : Type} (f : Entry → Option β) (es : List Entry) (e : Entry) :
    lastOf f (es ++ [e]) = (f e).or (lastOf f es) := by
  unfold lastOf
  rw [List.filterMap_append, List.getLast?_append]
  cases he : f e with
  | none => rw [List.filterMap_cons_none he]; rfl
  | some v => rw [List.filterMap_cons_some he]; rfl

namespace ParamField

variable (f : ParamField α)

/-- What an entry sets the parameter to. -/
def entry : Entry → Option (Option α)
  | .rule _ => none
  | .param p => f.sets p

/-- What a block has for the parameter: what the last of its lines sets, or else what was taken over. -/
def inBlock (b : Block) : Option α := (lastOf f.entry b.entries).getD (f.get b.taken.params)

/-- The first of the blocks that have it. -/
def inBlocks (bs : List Block) : Option α := bs.findSome? f.inBlock

theorem get_content (b : Block) : f.get b.content.params = f.inBlock b := by
  obtain ⟨name, taken, entries⟩ := b
  induction entries using List.reverseRecOn with
  | nil => rfl
  | append_singleton es e ih =>
    have hcontent : (Block.mk name taken (es ++ [e])).content = (Block.mk name taken es).content.write e :=
      Block.content_add ⟨name, taken, es⟩ e
    have hblock : f.inBlock ⟨name, taken, es ++ [e]⟩ = (f.entry e).getD (f.inBlock ⟨name, taken, es⟩) := by
      unfold inBlock
      rw [lastOf_concat]
      cases f.entry e <;> rfl
    rw [hcontent, hblock, ← ih]
    cases e with
    | rule r => cases r <;> rfl
    | param item => exact f.get_set _ item

theorem get_together (bs : List Block) :
    f.get (((together bs).map (·.params)).getD {}) = f.inBlocks bs := by
  induction bs using List.reverseRecOn with
  | nil => exact f.get_default
  | append_singleton bs b ih =>
    have hparams : (((together bs).getD {}).merge b.content).params =
        inheritFrom (((together bs).map (·.params)).getD {}) b.content.params := by
      cases together bs <;> rfl
    rw [together_concat, Option.map_some, Option.getD_some, hparams, f.get_inheritFrom, ih, f.get_content]
    unfold inBlocks
    rw [List.findSome?_append]
    congr 1
    cases hb : f.inBlock b <;> simp [hb]

end ParamField

namespace DomainSetting

variable (s : DomainSetting α)

/-- The lines of the setting's own kind that a block has. -/
def own (b : Block) : List (ConfigForDomain α) :=
  s.lines b.taken ++ b.entries.filterMap fun
    | .rule r => s.line r
    | .param _ => none

/-- The `domain-rules` lines of a block that give the setting. -/
def loose (b : Block) : List (ConfigForDomain α) :=
  RuleSet.giving s.setting (b.taken.domainRules ++ b.entries.filterMap fun
    | .rule (.domainRule v) => some v
    | _ => none)

/-- What the lines of the blocks come to for the patterns that are covered. -/
def inBlocks (covers : Domain → Bool) (bs : List Block) : Option α :=
  (if s.dedups then standingFirst covers (bs.flatMap s.own) else standing covers (bs.flatMap s.own)).or
    (standing covers (bs.flatMap s.loose))

theorem lines_content (b : Block) : s.lines b.content = s.own b := by
  obtain ⟨name, taken, entries⟩ := b
  induction entries using List.reverseRecOn with
  | nil => exact (List.append_nil _).symm
  | append_singleton es e ih =>
    have hcontent : (Block.mk name taken (es ++ [e])).content = (Block.mk name taken es).content.write e :=
      Block.content_add ⟨name, taken, es⟩ e
    rw [hcontent, s.lines_write, ih]
    unfold own
    rw [List.filterMap_append, List.append_assoc]
    congr 2
    cases e with
    | rule r => cases hr : s.line r <;> simp [hr]
    | param p => rfl

theorem domainRules_content (b : Block) : RuleSet.giving s.setting b.content.domainRules = s.loose b := by
  unfold loose
  congr 1
  obtain ⟨name, taken, entries⟩ := b
  induction entries using List.reverseRecOn with
  | nil => exact (List.append_nil _).symm
  | append_singleton es e ih =>
    have hcontent : (Block.mk name taken (es ++ [e])).content = (Block.mk name taken es).content.write e :=
      Block.content_add ⟨name, taken, es⟩ e
    rw [hcontent, List.filterMap_append, ← List.append_assoc, ← ih]
    cases e with
    | rule r => cases r <;> first | rfl | exact (List.append_nil _).symm
    | param p => exact (List.append_nil _).symm

theorem lines_together (bs : List Block) : s.lines ((together bs).getD {}) = bs.flatMap s.own := by
  induction bs using List.reverseRecOn with
  | nil => exact s.lines_default
  | append_singleton bs b ih =>
    rw [together_concat, Option.getD_some, s.lines_merge, ih, s.lines_content, List.flatMap_append,
      List.flatMap_singleton]

theorem domainRules_together (bs : List Block) :
    RuleSet.giving s.setting ((together bs).getD {}).domainRules = bs.flatMap s.loose := by
  induction bs using List.reverseRecOn with
  | nil => rfl
  | append_singleton bs b ih =>
    have hmerge : (((together bs).getD {}).merge b.content).domainRules =
        ((together bs).getD {}).domainRules ++ b.content.domainRules := rfl
    rw [together_concat, Option.getD_some, hmerge, RuleSet.giving, List.filterMap_append, List.flatMap_append,
      List.flatMap_singleton, ← ih, ← s.domainRules_content]
    rfl

end DomainSetting

/-! ### What is in force -/

/-- The domain names the pattern as it is spelled, or a set with it. -/
def names (sets : KeyMap String (List WildcardName)) (p : WildcardName) (domain : Domain) : Bool :=
  ({ domainSets := sets } : RuleSet).covers p domain

theorem names_congr (sets : KeyMap String (List WildcardName)) (p : WildcardName) {a b : Domain}
    (h : sameDomain a b = true) : names sets p a = names sets p b := by
  unfold names RuleSet.covers RuleSet.expandDomain
  match a, b, h with
  | .name _, .name _, h =>
    simp only [List.any_cons, List.any_nil, Bool.or_false]
    exact BEq.congr_left h
  | .set _, .set _, h => rw [eq_of_beq (show (_ == _) = true from h)]

/-! ### The domains of the lines -/

def RuleItem.domain : RuleItem → Domain
  | .cname v => v.domain
  | .httpsRecord v => v.domain
  | .srvRecord v => v.domain
  | .domainRule v => v.domain
  | .forwardRule v => v.domain
  | .address v => v.domain

def Entry.domain : Entry → Option Domain
  | .rule r => some r.domain
  | .param _ => none

def RuleGroup.domains (g : RuleGroup) : List Domain :=
  g.domainRules.map (·.domain) ++ g.addressRules.map (·.domain) ++ g.forwardRules.map (·.domain) ++
    g.cnames.map (·.domain) ++ g.srvRecords.map (·.domain) ++ g.httpsRecords.map (·.domain)

/-- The domains of the rules a block took over and of its lines. -/
def Block.domains (b : Block) : List Domain := b.taken.domains ++ b.entries.filterMap Entry.domain

section

variable (P : Domain → Bool)

theorem any_domains_merge (g g' : RuleGroup) :
    (g.merge g').domains.any P = (g.domains.any P || g'.domains.any P) := by
  unfold RuleGroup.domains RuleGroup.merge
  simp only [List.map_append, List.any_append]
  ac_rfl

theorem any_domains_write (g : RuleGroup) (e : Entry) :
    (g.write e).domains.any P = (g.domains.any P || e.domain.any P) := by
  cases e with
  | param p => exact (Bool.or_false _).symm
  | rule r =>
    cases r <;>
    · simp only [RuleGroup.write, RuleGroup.push, RuleGroup.domains, List.map_append, List.any_append, List.map_cons,
        List.map_nil, List.any_cons, List.any_nil, Bool.or_false, Entry.domain, RuleItem.domain, Option.any_some]
      ac_rfl

theorem any_domains_content (b : Block) : b.content.domains.any P = b.domains.any P := by
  obtain ⟨name, taken, entries⟩ := b
  induction entries using List.reverseRecOn with
  | nil => simp [Block.content, Block.domains]
  | append_singleton es e ih =>
    have hcontent : (Block.mk name taken (es ++ [e])).content = (Block.mk name taken es).content.write e :=
      Block.content_add ⟨name, taken, es⟩ e
    rw [hcontent, any_domains_write, ih]
    unfold Block.domains
    rw [List.filterMap_append, List.any_append, List.any_append, List.any_append, ← Bool.or_assoc]
    cases hdomain : e.domain <;> simp [hdomain]

theorem any_domains_together (bs : List Block) :
    ((together bs).getD {}).domains.any P = (bs.flatMap Block.domains).any P := by
  induction bs using List.reverseRecOn with
  | nil => rfl
  | append_singleton bs b ih =>
    rw [together_concat, Option.getD_some, any_domains_merge, ih, any_domains_content, List.flatMap_append,
      List.any_append, List.flatMap_singleton]

theorem any_dedupLines {P : Domain → Bool} (hP : ∀ a b, sameDomain a b = true → P a = P b)
    (l : List (ConfigForDomain α)) : ((dedupLines l).any fun r => P r.domain) = l.any fun r => P r.domain := by
  induction l using List.reverseRecOn with
  | nil => rfl
  | append_singleton l c ih =>
    cases l using List.reverseRecOn with
    | nil => rfl
    | append_singleton l b =>
      rw [dedupLines_concat, List.any_append, ih]
      simp only [List.any_append, List.any_cons, List.any_nil, Bool.or_false]
      split
      · rename_i hsame
        rw [hP _ _ hsame]
        simp
      · simp

end

theorem any_writtenOf {β : Type} (rs : RuleSet) (contribution : β → DomainRule) (rules : List (ConfigForDomain β))
    (q : WildcardName) :
    ((rs.writtenOf contribution rules).any fun e => e.1 == q) = rules.any fun r => names rs.domainSets q r.domain := by
  unfold RuleSet.writtenOf RuleSet.expandRules
  rw [List.any_map, List.any_flatMap]
  simp only [List.any_map]
  rfl

/-- The trees that are made of a configuration, its domain sets being these. -/
def treesOf (d : Draft G) (sets : KeyMap String (List WildcardName)) : RuleTrees where
  groups := d.ruleGroups.get?
  domainSets := sets
  nftsets := d.nftsets
  ipsets := d.ipsets

section

variable (gr : Grammar S G) (fs : FileSystem) (settings : G) (t : List FlatLine)
variable (sets : KeyMap String (List WildcardName)) (crateMatch : List UInt8 → List UInt8 → Bool) (group : String)

/-- The rules of the group in the configuration built of the text. -/
def ruleSetBuilt : RuleSet := (treesOf (built gr fs settings t) sets).ruleSet group

def paramsBuilt : GroupParams := (((built gr fs settings t).ruleGroups.get? group).map (·.params)).getD {}

theorem get_paramsBuilt (f : ParamField α) : f.get (paramsBuilt gr fs settings t group) = f.inBlocks (blocksOf gr t group) := by
  unfold paramsBuilt
  rw [get?_built, f.get_together]

/-- The domains of all the rules that come to the group's tree: those of its blocks, and of the set rules. -/
def writtenDomains : List Domain :=
  (blocksOf gr t group).flatMap Block.domains ++ (readBlocks gr t).nftsets ++ (readBlocks gr t).ipsets

/-- The lines that count for a pattern: those of the spelling with the root dot, if any line is written so, and
else those without. -/
def counts (p : WildcardName) : Domain → Bool :=
  names sets (p.setFqdn ((writtenDomains gr t group).any (names sets (p.setFqdn true))))

theorem counts_congr (p : WildcardName) {a b : Domain} (h : sameDomain a b = true) :
    counts gr t sets group p a = counts gr t sets group p b := names_congr _ _ h

/-- The rules of the tree are on the domains that the lines of the blocks are on. -/
theorem any_written {g : RuleGroup} (h : together (blocksOf gr t group) = some g) (q : WildcardName) :
    (((treesOf (built gr fs settings t) sets).ruleSetOf g).written.any fun e => e.1 == q) =
      (writtenDomains gr t group).any (names sets q) := by
  have hdomains := any_domains_together (names sets q) (blocksOf gr t group)
  rw [h, Option.getD_some] at hdomains
  have hshows := shows_built gr fs settings t
  have hnft : (built gr fs settings t).nftsets.any (fun r => names sets q r.domain) =
      (readBlocks gr t).nftsets.any (names sets q) := by
    rw [← show _ = (readBlocks gr t).nftsets from hshows.nftsets, List.any_map]
    rfl
  have hip : (built gr fs settings t).ipsets.any (fun r => names sets q r.domain) =
      (readBlocks gr t).ipsets.any (names sets q) := by
    rw [← show _ = (readBlocks gr t).ipsets from hshows.ipsets, List.any_map]
    rfl
  have hcname : (dedupLines g.cnames).any (fun r => names sets q r.domain) =
      g.cnames.any fun r => names sets q r.domain := any_dedupLines (fun _ _ h => names_congr sets q h) g.cnames
  unfold writtenDomains
  rw [List.any_append, List.any_append, ← hdomains, ← hnft, ← hip]
  unfold RuleSet.written RuleGroup.domains
  simp only [List.any_append, any_writtenOf, List.any_map]
  -- Of the group's lists the tree has all but that of the `cname` rules as they are.
  have hcnames : ((treesOf (built gr fs settings t) sets).ruleSetOf g).cnames.any
      (fun r => names sets q r.domain) = g.cnames.any (names sets q ∘ (·.domain)) := hcname
  have hsets : ((treesOf (built gr fs settings t) sets).ruleSetOf g).domainSets = sets := rfl
  rw [hsets, hcnames]
  rfl

theorem valueAt_ruleSetBuilt (s : DomainSetting α) (p : WildcardName) :
    (ruleSetBuilt gr fs settings t sets group).valueAt crateMatch s.setting p =
      s.inBlocks (counts gr t sets group p) (blocksOf gr t group) := by
  generalize hrs : ruleSetBuilt gr fs settings t sets group = rs
  have hgroup : (treesOf (built gr fs settings t) sets).groups group = together (blocksOf gr t group) := get?_built ..
  unfold ruleSetBuilt RuleTrees.ruleSet at hrs
  rw [hgroup] at hrs
  rw [rs.valueAt_eq_getLast? crateMatch s.overwrites]
  unfold DomainSetting.inBlocks
  rw [← s.lines_together, ← s.domainRules_together]
  cases htogether : together (blocksOf gr t group) with
  | none =>
    have hnothing : rs.written = [] := by
      rw [← hrs, htogether]
      rfl
    rw [hnothing, Option.getD_none, s.lines_default]
    cases s.dedups with
    | false => rfl
    | true => rfl
  | some g =>
    rw [htogether] at hrs
    obtain rfl : (treesOf (built gr fs settings t) sets).ruleSetOf g = rs := hrs
    have hcounts : (((treesOf (built gr fs settings t) sets).ruleSetOf g).covers
        (((treesOf (built gr fs settings t) sets).ruleSetOf g).spelling p)) = counts gr t sets group p := by
      unfold counts RuleSet.spelling
      rw [any_written gr fs settings t sets group htogether]
      rfl
    rw [s.written, List.filter_append, List.map_append, List.getLast?_append, RuleSet.getLast?_expandRules,
      RuleSet.getLast?_expandRules, Option.getD_some, hcounts]
    cases s.dedups with
    | false => rfl
    | true =>
      simp only [if_true]
      rw [standing_dedupLines fun _ _ h => counts_congr gr t sets group p h]

/-! ### When the last definition wins -/

/-- What the last line that sets the parameter in the group sets it to is in force. -/
def ParamField.LastWins (f : ParamField α) : Prop :=
  ∀ v, lastOf f.entry (writtenIn gr t group) = some v → f.get (paramsBuilt gr fs settings t group) = v

/-- The domain names the pattern, up to case and the root dot, or a set with it. -/
def concerns (p : WildcardName) (domain : Domain) : Bool :=
  (({ domainSets := sets } : RuleSet).expandDomain domain).any (·.sameRule p)

/-- What an entry gives a domain it concerns. -/
def DomainSetting.entry (s : DomainSetting α) (concerns : Domain → Bool) : Entry → Option α
  | .rule (.domainRule v) => if concerns v.domain then s.setting.get v.config else none
  | .rule r => (s.line r).bind fun c => if concerns c.domain then some c.config else none
  | .param _ => none

/-- What the last line that sets it for the domain in the group gives is in force under the pattern. -/
def DomainSetting.LastWins (s : DomainSetting α) (p : WildcardName) : Prop :=
  ∀ v, lastOf (s.entry (concerns sets p)) (writtenIn gr t group) = some v →
    (ruleSetBuilt gr fs settings t sets group).valueAt crateMatch s.setting p = some v

variable {gr fs settings t group} in
/-- A parameter that one block sets is what its last line sets it to. -/
theorem ParamField.lastWins_of_one_block (f : ParamField α) {b : Block} (h : blocksOf gr t group = [b]) :
    f.LastWins gr fs settings t group := by
  intro v hv
  rw [get_paramsBuilt, h, ParamField.inBlocks, List.findSome?_singleton, ParamField.inBlock, entries_of_one_block h, hv]
  rfl

/-- **Which definition stands.** The last line's value of a parameter is in force if and only if the
first of the group's blocks, in the order they are closed, that has the parameter has this
value; and of a domain's setting if and only if it is the value of the line that the order of
the blocks, the kinds of lines, the neighbours of a `cname` line and the root dot put first. -/
theorem last_definition_wins_iff :
    (∀ {α : Type} (f : ParamField α), f.LastWins gr fs settings t group ↔
      ∀ v, lastOf f.entry (writtenIn gr t group) = some v → f.inBlocks (blocksOf gr t group) = v) ∧
    (∀ {α : Type} (s : DomainSetting α) (p : WildcardName), s.LastWins gr fs settings t sets crateMatch group p ↔
      ∀ v, lastOf (s.entry (concerns sets p)) (writtenIn gr t group) = some v →
        s.inBlocks (counts gr t sets group p) (blocksOf gr t group) = some v) := by
  refine ⟨fun f => ?_, fun s p => ?_⟩
  · unfold ParamField.LastWins
    rw [get_paramsBuilt]
  · unfold DomainSetting.LastWins
    rw [valueAt_ruleSetBuilt]

end

/-! ### Two neighbouring lines -/

/-- Lines of one letter: `a` keeps `www.example.com` out of the `cname` rules, `b` gives it the root as `cname`. -/
def cnameLines : Grammar Unit Unit where
  parseConfig line :=
    if line = [97] then some (.rule (.cname ⟨.name (.default wwwExampleCom), .ignore⟩))
    else if line = [98] then some (.rule (.cname ⟨.name (.default wwwExampleCom), .value ⟨true, []⟩⟩))
    else none
  detectBrokenProxyCredential _ := none
  assign _ _ g := g

/-- The lines `a` and `b`, one after the other. -/
def twoCnames : List FlatLine := [.read [97] (some 1) none {}, .read [98] (some 2) none {}]

/-- **Of two neighbouring `cname` lines the first stands.** -/
theorem adjacent_cname : ¬ DomainSetting.cname.LastWins cnameLines (twoFiles [] []) () twoCnames KeyMap.empty
    (fun _ _ => false) "default" (.default wwwExampleCom) := by
  intro h
  have hvalue := h (.value ⟨true, []⟩) rfl
  rw [valueAt_ruleSetBuilt] at hvalue
  have hfirst : some Ignorable.ignore = some (Ignorable.value (⟨true, []⟩ : Name)) := hvalue
  cases hfirst

end Config
end SmartDns

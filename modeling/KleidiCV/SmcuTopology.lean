/-
Which CPUs share a streaming mode unit.

`SmcuTopology::from_registers` decodes the identification registers of every
online CPU.  One pass over the records numbers the domains: a CPU that shares
its unit joins the domain with its affinity, if a record before it had that
affinity, and every other CPU opens a domain.  A policy then says which CPUs may
use their unit at all.

The arrays are indexed by CPU id, so when two records have the same id the last
one counts (`lastRecord`).  Allocations are assumed to succeed.

* `populateStep_spec` — one record, either keeps `Populated` or is rejected;
* `populateDomains_spec` — the pass over all records;
* `fromRegisters_spec` — what the topology says about each CPU, by its record;
* `fromRegisters_exact` — who is rejected, who shares a domain, and that the order
  of the records does not matter when the records of a CPU agree.
-/
import KleidiCV.SmeThreadLimiter

namespace KleidiCV

/-- `CpuInfo`; the id is a `size_t`. -/
structure CpuInfo where
  id : Fin sizeMod
  midr : BitVec 64
  smidr : BitVec 64
  deriving DecidableEq

instance : NeZero unsignedMod := ⟨by decide⟩

def kArmImplementer : BitVec 64 := 0x41
def kC1NanoPart : BitVec 64 := 0xD8A
def kC1ProPart : BitVec 64 := 0xD8B
def kC1PremiumPart : BitVec 64 := 0xD90

def midrImplementer (midr : BitVec 64) : BitVec 64 := (midr >>> 24) &&& 0xFF

def midrPart (midr : BitVec 64) : BitVec 64 := (midr >>> 4) &&& 0xFFF

def smidrAffinity (smidr : BitVec 64) : ℕ :=
  let affinity := smidr &&& 0xFFF
  let affinity2 := (smidr >>> 32) &&& 0xFFFFF
  ((affinity2 <<< 12) ||| affinity).toNat

inductive SmcuSharing
  | unshared
  | shared
  | reserved
  deriving DecidableEq

def smidrSharing (smidr : BitVec 64) : SmcuSharing :=
  let sharing := (smidr >>> 13) &&& 0x3
  if sharing = 0x3 then .shared
  else if sharing = 0x2 then .unshared
  else if sharing = 0x0 then
    -- the legacy encoding, told by the low affinity bits alone
    if smidr &&& 0xFFF = 0 then .unshared else .shared
  else .reserved

def smidrSmcuCount (smidr : BitVec 64) : Option (Fin unsignedMod) :=
  let encodedCount := ((smidr >>> 56) &&& 0xF).toNat
  if encodedCount = 0xF then none else some (Fin.ofNat _ (encodedCount + 1))

namespace SmcuTopology

variable {count capacity : ℕ} {infos done : List CpuInfo} {domains : List SmcuDomainInfo}
  {cpuToDomain : List ℕ} {info : CpuInfo}

/-- `find_shared_domain`. -/
def findSharedDomain (domains : List SmcuDomainInfo) (affinity : ℕ) : Option ℕ :=
  domains.findIdx? fun domain => domain.shared && domain.affinity == affinity

def isThereSharedDomainWithNonzeroAffinity (domains : List SmcuDomainInfo) : Bool :=
  domains.any fun domain => domain.shared && domain.affinity != 0

/-- One iteration of the loop of `populate_domains`. -/
def populateStep (capacity : ℕ) (s : List SmcuDomainInfo × List ℕ) (info : CpuInfo) :
    Option (List SmcuDomainInfo × List ℕ) :=
  if smidrSharing info.smidr = .reserved then none else
  let affinity := smidrAffinity info.smidr
  let isShared := decide (smidrSharing info.smidr = .shared)
  match smidrSmcuCount info.smidr with
  | none => none
  | some smcuCount =>
    let slotCount := if isShared then smcuCount else 1
    match if isShared then findSharedDomain s.1 affinity else none with
    | none =>
      if capacity ≤ s.1.length then none
      else some (s.1 ++ [⟨affinity, slotCount, isShared⟩], s.2.set info.id s.1.length)
    | some domainIdx =>
      if (s.1[domainIdx]?).map (·.slotCount) = some slotCount then
        some (s.1, s.2.set info.id domainIdx)
      else none

/-- `populate_domains`, with the filled map beside the domains. -/
def populateDomains (infos : List CpuInfo) (cpuToDomain : List ℕ) :
    Option (List SmcuDomainInfo × List ℕ) :=
  infos.foldlM (populateStep infos.length) ([], cpuToDomain)

/-- The parts that may use their unit are listed; `kC1UltraPart` and all others may not. -/
def applyCpuPolicyForArmCores (infos : List CpuInfo) (cpuAllowed : List Bool) : List Bool :=
  infos.foldl (fun cpuAllowed info => cpuAllowed.set info.id
    (midrPart info.midr == kC1NanoPart || midrPart info.midr == kC1ProPart ||
      midrPart info.midr == kC1PremiumPart)) cpuAllowed

def enableCoresForSharedZeroAffinityDomain (domains : List SmcuDomainInfo)
    (cpuToDomain : List ℕ) (cpuAllowed : List Bool) : List Bool :=
  match findSharedDomain domains 0 with
  | none => cpuAllowed
  | some domain =>
    List.zipWith (fun d allowed => if d = domain then true else allowed) cpuToDomain cpuAllowed

def fromRegisters (infos : List CpuInfo) : Option SmcuTopology :=
  match infos with
  | [] => none
  | first :: _ =>
    let largestCpuId := infos.foldl (fun largest info => max largest info.id.val) 0
    if largestCpuId = sizeMod - 1 then none else
    -- gaps for offline or absent CPUs are included
    let topologyCpuCount := largestCpuId + 1
    let implementer := midrImplementer first.midr
    if infos.any fun info => midrImplementer info.midr != implementer then none else
    match populateDomains infos (List.replicate topologyCpuCount kNoSmcuDomain) with
    | none => none
    | some (domains, cpuToDomain) =>
      let cpuAllowed := List.replicate topologyCpuCount false
      let cpuAllowed :=
        if implementer = kArmImplementer then applyCpuPolicyForArmCores infos cpuAllowed
        else if isThereSharedDomainWithNonzeroAffinity domains then
          enableCoresForSharedZeroAffinityDomain domains cpuToDomain cpuAllowed
        else cpuAllowed
      some ⟨cpuToDomain, cpuAllowed, domains⟩

/-! ### What the records say -/

/-- The unit is shared. -/
def Shared (info : CpuInfo) : Prop := smidrSharing info.smidr = .shared

instance : Decidable (Shared info) := inferInstanceAs (Decidable (_ = _))

/-- The system-wide identifier of the units of a CPU: `Affinity2` and `Affinity`. -/
def smcuIdentifier (smidr : BitVec 64) : BitVec 20 × BitVec 12 :=
  (smidr.extractLsb' 32 20, smidr.extractLsb' 0 12)

/-- The record of a CPU that counts. -/
def lastRecord (infos : List CpuInfo) (cpu : ℕ) : Option CpuInfo :=
  (infos.filter fun info => info.id.val = cpu).getLast?

/-- The domain that a record asks for. -/
def domainOf (info : CpuInfo) : Option SmcuDomainInfo :=
  (smidrSmcuCount info.smidr).map fun smcuCount =>
    ⟨smidrAffinity info.smidr, if Shared info then smcuCount else 1, decide (Shared info)⟩

/-- The records that `populate_domains` accepts. -/
structure Consistent (infos : List CpuInfo) : Prop where
  sharing : ∀ info ∈ infos, smidrSharing info.smidr ≠ .reserved
  smcuCount : ∀ info ∈ infos, smidrSmcuCount info.smidr ≠ none
  agree : ∀ a ∈ infos, ∀ b ∈ infos, Shared a → Shared b →
    smidrAffinity a.smidr = smidrAffinity b.smidr →
    smidrSmcuCount a.smidr = smidrSmcuCount b.smidr

theorem smidrAffinity_eq (smidr : BitVec 64) :
    smidrAffinity smidr = (smcuIdentifier smidr).1.toNat * 2 ^ 12
      + (smcuIdentifier smidr).2.toNat := by
  have hlow : (smidr &&& 0xFFF).toNat = smidr.toNat % 2 ^ 12 := by
    rw [BitVec.toNat_and]
    exact Nat.and_two_pow_sub_one_eq_mod _ 12
  have hhigh : ((smidr >>> 32) &&& 0xFFFFF).toNat = smidr.toNat / 2 ^ 32 % 2 ^ 20 := by
    rw [BitVec.toNat_and, BitVec.toNat_ushiftRight, Nat.shiftRight_eq_div_pow]
    exact Nat.and_two_pow_sub_one_eq_mod _ 20
  have hlt : smidr.toNat % 2 ^ 12 < 2 ^ 12 := Nat.mod_lt _ (by decide)
  have hfit : smidr.toNat / 2 ^ 32 % 2 ^ 20 * 2 ^ 12 < 2 ^ 64 := by
    have := Nat.mod_lt (smidr.toNat / 2 ^ 32) (show 0 < 2 ^ 20 by decide)
    omega
  simp only [smidrAffinity, smcuIdentifier, BitVec.toNat_or, BitVec.toNat_shiftLeft,
    BitVec.extractLsb'_toNat, hlow, hhigh, Nat.shiftLeft_eq, Nat.shiftRight_eq_div_pow,
    Nat.mod_eq_of_lt hfit, pow_zero, Nat.div_one]
  rw [Nat.mul_comm, ← Nat.two_pow_add_eq_or_of_lt hlt]

/-- The affinity number is the identifier. -/
theorem smidrAffinity_eq_iff (a b : BitVec 64) :
    smidrAffinity a = smidrAffinity b ↔ smcuIdentifier a = smcuIdentifier b := by
  constructor
  · intro h
    rw [smidrAffinity_eq, smidrAffinity_eq] at h
    have ha := (smcuIdentifier a).2.isLt
    have hb := (smcuIdentifier b).2.isLt
    exact Prod.ext (BitVec.eq_of_toNat_eq (by omega)) (BitVec.eq_of_toNat_eq (by omega))
  · intro h
    rw [smidrAffinity_eq, smidrAffinity_eq, h]

/-! ### The last record of a CPU -/

theorem lastRecord_append (infos : List CpuInfo) (info : CpuInfo) (cpu : ℕ) :
    lastRecord (infos ++ [info]) cpu
      = if info.id.val = cpu then some info else lastRecord infos cpu := by
  unfold lastRecord
  by_cases h : info.id.val = cpu
  · simp [List.filter_append, h]
  · simp [List.filter_append, h]

theorem lastRecord_mem {cpu : ℕ} (h : lastRecord infos cpu = some info) :
    info ∈ infos ∧ info.id.val = cpu := by
  have := List.mem_of_getLast? h
  simpa using this

theorem exists_lastRecord (h : info ∈ infos) : ∃ last, lastRecord infos info.id.val = some last := by
  have hne : infos.filter (fun i => i.id.val = info.id.val) ≠ [] := by
    intro hnil
    have := List.filter_eq_nil_iff.mp hnil info h
    simp at this
  exact ⟨_, List.getLast?_eq_getLast_of_ne_nil hne⟩

/-! ### One pass over the records -/

/-- What the table and the map say about the records done so far. -/
structure Populated (count : ℕ) (done : List CpuInfo) (domains : List SmcuDomainInfo)
    (cpuToDomain : List ℕ) : Prop where
  length : cpuToDomain.length = count
  few : domains.length ≤ done.length
  -- a shared domain is in the table once
  unique : ∀ i j : ℕ, ∀ d e : SmcuDomainInfo, domains[i]? = some d → domains[j]? = some e →
    d.shared → e.shared → d.affinity = e.affinity → i = j
  known : ∀ i : ℕ, ∀ d, domains[i]? = some d → ∃ info ∈ done, domainOf info = some d
  listed : ∀ info ∈ done, ∃ i : ℕ, i < domains.length ∧ domains[i]? = domainOf info
  assigned : ∀ cpu info, lastRecord done cpu = some info →
    ∃ i : ℕ, i < domains.length ∧ cpuToDomain[cpu]? = some i ∧ domains[i]? = domainOf info
  alone : ∀ a b ra rb, a ≠ b → lastRecord done a = some ra → lastRecord done b = some rb →
    ¬ Shared ra → cpuToDomain[a]? ≠ cpuToDomain[b]?
  absent : ∀ cpu < count, lastRecord done cpu = none → cpuToDomain[cpu]? = some kNoSmcuDomain

theorem populated_nil (count : ℕ) :
    Populated count [] [] (List.replicate count kNoSmcuDomain) where
  length := List.length_replicate
  few := le_rfl
  unique := fun i j d e h => by simp at h
  known := fun i d h => by simp at h
  listed := fun info h => by simp at h
  assigned := fun cpu info h => by simp [lastRecord] at h
  alone := fun a b ra rb _ h => by simp [lastRecord] at h
  absent := fun cpu h _ => by simp [h]

theorem findSharedDomain_eq_some {affinity i : ℕ}
    (h : findSharedDomain domains affinity = some i) :
    ∃ d, domains[i]? = some d ∧ d.shared = true ∧ d.affinity = affinity := by
  obtain ⟨hlt, hp, -⟩ := List.findIdx?_eq_some_iff_getElem.mp h
  refine ⟨domains[i], List.getElem?_eq_getElem hlt, ?_⟩
  simpa using hp

theorem findSharedDomain_eq_none {affinity : ℕ} (h : findSharedDomain domains affinity = none)
    {i : ℕ} {d : SmcuDomainInfo} (hd : domains[i]? = some d) (hs : d.shared = true) :
    d.affinity ≠ affinity := by
  have := List.findIdx?_eq_none_iff.mp h d (List.mem_of_getElem? hd)
  simpa [hs] using this

theorem Consistent.append_iff :
    Consistent (done ++ [info]) ↔ Consistent done ∧ smidrSharing info.smidr ≠ .reserved ∧
      smidrSmcuCount info.smidr ≠ none ∧
      ∀ a ∈ done, Shared a → Shared info → smidrAffinity a.smidr = smidrAffinity info.smidr →
        smidrSmcuCount a.smidr = smidrSmcuCount info.smidr := by
  constructor
  · intro h
    refine ⟨⟨fun i hi => h.sharing i (by simp [hi]), fun i hi => h.smcuCount i (by simp [hi]),
      fun a ha b hb => h.agree a (by simp [ha]) b (by simp [hb])⟩,
      h.sharing info (by simp), h.smcuCount info (by simp),
      fun a ha => h.agree a (by simp [ha]) info (by simp)⟩
  · rintro ⟨h, hsharing, hcount, hagree⟩
    refine ⟨fun i hi => ?_, fun i hi => ?_, fun a ha b hb hsa hsb heq => ?_⟩
    · rcases List.mem_append.mp hi with hi | hi
      · exact h.sharing i hi
      · rw [List.mem_singleton.mp hi]
        exact hsharing
    · rcases List.mem_append.mp hi with hi | hi
      · exact h.smcuCount i hi
      · rw [List.mem_singleton.mp hi]
        exact hcount
    · rcases List.mem_append.mp ha with ha' | ha' <;> rcases List.mem_append.mp hb with hb' | hb'
      · exact h.agree a ha' b hb' hsa hsb heq
      · obtain rfl := List.mem_singleton.mp hb'
        exact hagree a ha' hsa hsb heq
      · obtain rfl := List.mem_singleton.mp ha'
        exact (hagree b hb' hsb hsa heq.symm).symm
      · rw [List.mem_singleton.mp ha', List.mem_singleton.mp hb']

theorem getElem?_assign {i cpu : ℕ} (hid : info.id.val < cpuToDomain.length) :
    (cpuToDomain.set info.id.val i)[cpu]?
      = if info.id.val = cpu then some i else cpuToDomain[cpu]? := by
  rw [List.getElem?_set]
  by_cases h : info.id.val = cpu
  · rw [if_pos h, if_pos h, if_pos hid]
  · rw [if_neg h, if_neg h]

theorem domainOf_eq_some {d : SmcuDomainInfo} : domainOf info = some d ↔
    ∃ smcuCount, smidrSmcuCount info.smidr = some smcuCount ∧
      d = ⟨smidrAffinity info.smidr, if Shared info then smcuCount else 1,
        decide (Shared info)⟩ := by
  rw [domainOf, Option.map_eq_some_iff]
  exact exists_congr fun c => and_congr_right fun _ => eq_comm

theorem domainOf_shared {d : SmcuDomainInfo} (h : domainOf info = some d) :
    d.shared = true ↔ Shared info := by
  obtain ⟨c, -, rfl⟩ := domainOf_eq_some.mp h
  exact decide_eq_true_iff

theorem domainOf_affinity {d : SmcuDomainInfo} (h : domainOf info = some d) :
    d.affinity = smidrAffinity info.smidr := by
  obtain ⟨c, -, rfl⟩ := domainOf_eq_some.mp h
  rfl

theorem domainOf_slotCount {d : SmcuDomainInfo} (h : domainOf info = some d)
    (hshared : Shared info) : smidrSmcuCount info.smidr = some d.slotCount := by
  obtain ⟨c, hc, rfl⟩ := domainOf_eq_some.mp h
  rw [hc, if_pos hshared]

/-- A record whose shared domain is in the table. -/
theorem Populated.join (h : Populated count done domains cpuToDomain) (hid : info.id.val < count)
    (hshared : Shared info) {i : ℕ} (hi : i < domains.length) (hd : domains[i]? = domainOf info) :
    Populated count (done ++ [info]) domains (cpuToDomain.set info.id.val i) := by
  rw [← h.length] at hid
  exact {
    length := by rw [List.length_set, h.length]
    few := le_trans h.few (by simp)
    unique := h.unique
    known := fun j d hj => by
      obtain ⟨r, hr, hrd⟩ := h.known j d hj
      exact ⟨r, by simp [hr], hrd⟩
    listed := fun r hr => by
      rcases List.mem_append.mp hr with hr | hr
      · exact h.listed r hr
      · rw [List.mem_singleton.mp hr]
        exact ⟨i, hi, hd⟩
    assigned := fun cpu r hr => by
      rw [lastRecord_append] at hr
      rw [getElem?_assign hid]
      by_cases hc : info.id.val = cpu
      · rw [if_pos hc] at hr ⊢
        obtain rfl := Option.some.inj hr
        exact ⟨i, hi, rfl, hd⟩
      · rw [if_neg hc] at hr ⊢
        exact h.assigned cpu r hr
    alone := fun a b ra rb hne hra hrb hunshared => by
      rw [lastRecord_append] at hra hrb
      rw [getElem?_assign hid, getElem?_assign hid]
      by_cases ha : info.id.val = a
      · -- the new record is shared
        rw [if_pos ha] at hra
        exact absurd (Option.some.inj hra ▸ hshared) hunshared
      · rw [if_neg ha] at hra ⊢
        by_cases hb : info.id.val = b
        · -- the domain of `a` is not shared, the one that is joined is
          rw [if_pos hb]
          intro he
          obtain ⟨j, -, hj, hjd⟩ := h.assigned a ra hra
          rw [he] at hj
          obtain rfl := Option.some.inj hj
          rw [List.getElem?_eq_getElem hi] at hd hjd
          exact hunshared ((domainOf_shared hjd.symm).mp ((domainOf_shared hd.symm).mpr hshared))
        · rw [if_neg hb] at hrb ⊢
          exact h.alone a b ra rb hne hra hrb hunshared
    absent := fun cpu hcpu hnone => by
      rw [lastRecord_append] at hnone
      rw [getElem?_assign hid]
      by_cases hc : info.id.val = cpu
      · rw [if_pos hc] at hnone
        cases hnone
      · rw [if_neg hc] at hnone ⊢
        exact h.absent cpu hcpu hnone }

/-- A record that opens a domain. -/
theorem Populated.openDomain (h : Populated count done domains cpuToDomain)
    (hid : info.id.val < count) {d : SmcuDomainInfo} (hd : domainOf info = some d)
    (hfresh : d.shared = true → ∀ (i : ℕ) (e : SmcuDomainInfo), domains[i]? = some e →
      e.shared = true → e.affinity ≠ d.affinity) :
    Populated count (done ++ [info]) (domains ++ [d])
      (cpuToDomain.set info.id.val domains.length) := by
  have hold : ∀ {i : ℕ}, i < domains.length → (domains ++ [d])[i]? = domains[i]? :=
    fun hi => List.getElem?_append_left hi
  have hnew : (domains ++ [d])[domains.length]? = some d := by simp
  have hcase : ∀ {i : ℕ} {e : SmcuDomainInfo}, (domains ++ [d])[i]? = some e →
      domains[i]? = some e ∧ i < domains.length ∨ i = domains.length ∧ e = d := by
    intro i e he
    have hlt := (List.getElem?_eq_some_iff.mp he).1
    rw [List.length_append, List.length_singleton] at hlt
    by_cases hi : i < domains.length
    · exact .inl ⟨(hold hi).symm.trans he, hi⟩
    · obtain rfl : i = domains.length := by omega
      exact .inr ⟨rfl, (Option.some.inj (hnew.symm.trans he)).symm⟩
  rw [← h.length] at hid
  exact {
    length := by rw [List.length_set, h.length]
    few := by simpa using h.few
    unique := fun i j e f he hf hes hfs hef => by
      rcases hcase he with ⟨he', -⟩ | ⟨rfl, rfl⟩ <;> rcases hcase hf with ⟨hf', -⟩ | ⟨rfl, rfl⟩
      · exact h.unique i j e f he' hf' hes hfs hef
      · exact absurd hef (hfresh hfs i e he' hes)
      · exact absurd hef.symm (hfresh hes j f hf' hfs)
      · rfl
    known := fun i e he => by
      rcases hcase he with ⟨he, -⟩ | ⟨rfl, rfl⟩
      · obtain ⟨r, hr, hrd⟩ := h.known i e he
        exact ⟨r, by simp [hr], hrd⟩
      · exact ⟨info, by simp, hd⟩
    listed := fun r hr => by
      rcases List.mem_append.mp hr with hr | hr
      · obtain ⟨i, hi, hir⟩ := h.listed r hr
        exact ⟨i, by simp; omega, (hold hi).trans hir⟩
      · rw [List.mem_singleton.mp hr]
        exact ⟨domains.length, by simp, hnew.trans hd.symm⟩
    assigned := fun cpu r hr => by
      rw [lastRecord_append] at hr
      rw [getElem?_assign hid]
      by_cases hc : info.id.val = cpu
      · rw [if_pos hc] at hr ⊢
        obtain rfl := Option.some.inj hr
        exact ⟨domains.length, by simp, rfl, hnew.trans hd.symm⟩
      · rw [if_neg hc] at hr ⊢
        obtain ⟨i, hi, hm, hir⟩ := h.assigned cpu r hr
        exact ⟨i, by simp; omega, hm, (hold hi).trans hir⟩
    alone := fun a b ra rb hne hra hrb hunshared => by
      rw [lastRecord_append] at hra hrb
      rw [getElem?_assign hid, getElem?_assign hid]
      by_cases ha : info.id.val = a <;> by_cases hb : info.id.val = b
      · exact absurd (ha.symm.trans hb) hne
      · -- the domains of the earlier records have smaller numbers
        rw [if_neg hb] at hrb
        rw [if_pos ha, if_neg hb]
        obtain ⟨i, hi, hm, -⟩ := h.assigned b rb hrb
        rw [hm]
        intro he
        have := Option.some.inj he
        omega
      · rw [if_neg ha] at hra
        rw [if_neg ha, if_pos hb]
        obtain ⟨i, hi, hm, -⟩ := h.assigned a ra hra
        rw [hm]
        intro he
        have := Option.some.inj he
        omega
      · rw [if_neg ha] at hra
        rw [if_neg hb] at hrb
        rw [if_neg ha, if_neg hb]
        exact h.alone a b ra rb hne hra hrb hunshared
    absent := fun cpu hcpu hnone => by
      rw [lastRecord_append] at hnone
      rw [getElem?_assign hid]
      by_cases hc : info.id.val = cpu
      · rw [if_pos hc] at hnone
        cases hnone
      · rw [if_neg hc] at hnone ⊢
        exact h.absent cpu hcpu hnone }

/-- One record: it is added, or it does not agree with the records before it. -/
theorem populateStep_spec (h : Populated count done domains cpuToDomain)
    (hdone : Consistent done) (hid : info.id.val < count) (hroom : done.length < capacity) :
    (∃ s, populateStep capacity (domains, cpuToDomain) info = some s ∧
        Populated count (done ++ [info]) s.1 s.2 ∧ Consistent (done ++ [info])) ∨
      populateStep capacity (domains, cpuToDomain) info = none ∧ ¬ Consistent (done ++ [info]) := by
  have hfits : ¬ capacity ≤ domains.length := by
    have := h.few
    omega
  by_cases hreserved : smidrSharing info.smidr = .reserved
  · refine .inr ⟨by rw [populateStep, if_pos hreserved], fun hc => ?_⟩
    exact (Consistent.append_iff.mp hc).2.1 hreserved
  cases hcount : smidrSmcuCount info.smidr with
  | none =>
      refine .inr ⟨by simp only [populateStep, if_neg hreserved, hcount], fun hc => ?_⟩
      exact (Consistent.append_iff.mp hc).2.2.1 hcount
  | some smcuCount =>
      have hdomain : domainOf info = some ⟨smidrAffinity info.smidr,
          if Shared info then smcuCount else 1, decide (Shared info)⟩ := by
        rw [domainOf, hcount, Option.map_some]
      have hsome : smidrSmcuCount info.smidr ≠ none := by
        rw [hcount]
        exact Option.some_ne_none _
      by_cases hshared : Shared info
      · cases hfind : findSharedDomain domains (smidrAffinity info.smidr) with
        | none =>
            -- the first record with this affinity
            have hfresh : ∀ (i : ℕ) (e : SmcuDomainInfo), domains[i]? = some e →
                e.shared = true → e.affinity ≠ smidrAffinity info.smidr :=
              fun i e he hs => findSharedDomain_eq_none hfind he hs
            refine .inl ⟨(_, _), ?_, h.openDomain hid hdomain fun _ => hfresh,
              Consistent.append_iff.mpr ⟨hdone, hreserved, hsome, ?_⟩⟩
            · simp only [populateStep, hcount, show smidrSharing info.smidr = .shared from hshared,
                reduceCtorEq, decide_true, if_true, if_false, hfind, if_neg hfits, if_pos hshared]
              rw [decide_eq_true hshared]
            · intro a ha hsa _ haff
              obtain ⟨i, hi, hd⟩ := h.listed a ha
              rw [List.getElem?_eq_getElem hi] at hd
              refine absurd ?_ (hfresh i _ (List.getElem?_eq_getElem hi)
                ((domainOf_shared hd.symm).mpr hsa))
              rw [domainOf_affinity hd.symm, haff]
        | some i =>
            obtain ⟨d, hd, hds, hda⟩ := findSharedDomain_eq_some hfind
            obtain ⟨r, hr, hrd⟩ := h.known i d hd
            have hsr : Shared r := (domainOf_shared hrd).mp hds
            have hrcount := domainOf_slotCount hrd hsr
            by_cases hslots : d.slotCount = smcuCount
            · refine .inl ⟨(domains, cpuToDomain.set info.id.val i), ?_, h.join hid hshared
                (List.getElem?_eq_some_iff.mp hd).1 ?_, Consistent.append_iff.mpr
                ⟨hdone, hreserved, hsome, ?_⟩⟩
              · simp only [populateStep, hcount, show smidrSharing info.smidr = .shared from hshared,
                  reduceCtorEq, decide_true, if_true, if_false, hfind, hd, Option.map_some, hslots]
              · rw [hd, hdomain, Option.some_inj, if_pos hshared, decide_eq_true hshared, ← hslots,
                  ← hda, ← hds]
              · intro a ha hsa _ haff
                rw [hcount, ← hslots, ← hrcount]
                refine hdone.agree a ha r hr hsa hsr ?_
                rw [haff, ← hda, domainOf_affinity hrd]
            · refine .inr ⟨?_, fun hc => ?_⟩
              · have hne : some d.slotCount ≠ some smcuCount := fun he => hslots (Option.some.inj he)
                simp only [populateStep, hcount, show smidrSharing info.smidr = .shared from hshared,
                  reduceCtorEq, decide_true, if_true, if_false, hfind, hd, Option.map_some,
                  if_neg hne]
              · have hagree := (Consistent.append_iff.mp hc).2.2.2 r hr hsr hshared
                  (by rw [← domainOf_affinity hrd, hda])
                rw [hrcount, hcount] at hagree
                exact hslots (Option.some.inj hagree)
      · refine .inl ⟨(_, _), ?_, h.openDomain hid hdomain fun hs => ?_,
          Consistent.append_iff.mpr ⟨hdone, hreserved, hsome, fun a ha _ hs => absurd hs hshared⟩⟩
        · have hnot : decide (smidrSharing info.smidr = .shared) = false := decide_eq_false hshared
          simp only [populateStep, if_neg hreserved, hcount, hnot, Bool.false_eq_true, if_false,
            if_neg hfits, if_neg hshared]
          rw [show decide (Shared info) = false from hnot]
        · exact absurd ((domainOf_shared hdomain).mp hs) hshared

/-- The pass over all records. -/
theorem populateLoop_spec (capacity count : ℕ) (rest : List CpuInfo) :
    ∀ {done : List CpuInfo} {domains : List SmcuDomainInfo} {cpuToDomain : List ℕ},
      Populated count done domains cpuToDomain → Consistent done →
      (∀ info ∈ rest, info.id.val < count) → done.length + rest.length ≤ capacity →
      (∃ s, rest.foldlM (populateStep capacity) (domains, cpuToDomain) = some s ∧
          Populated count (done ++ rest) s.1 s.2 ∧ Consistent (done ++ rest)) ∨
        rest.foldlM (populateStep capacity) (domains, cpuToDomain) = none ∧
          ¬ Consistent (done ++ rest) := by
  induction rest with
  | nil =>
      intro done domains cpuToDomain h hdone _ _
      exact .inl ⟨_, rfl, by simpa using h, by simpa using hdone⟩
  | cons info rest ih =>
      intro done domains cpuToDomain h hdone hid hroom
      rw [List.length_cons] at hroom
      have happend : done ++ info :: rest = (done ++ [info]) ++ rest := by simp
      rw [happend, List.foldlM_cons]
      obtain ⟨s, hs, hpop, hcons⟩ | ⟨hs, hnot⟩ :=
        populateStep_spec h hdone (hid info (by simp)) (by omega : done.length < capacity)
      · rw [hs]
        exact ih hpop hcons (fun i hi => hid i (by simp [hi])) (by simp; omega)
      · refine .inr ⟨by rw [hs]; rfl, fun hc => hnot ?_⟩
        exact ⟨fun i hi => hc.sharing i (List.mem_append_left _ hi),
          fun i hi => hc.smcuCount i (List.mem_append_left _ hi),
          fun a ha b hb => hc.agree a (List.mem_append_left _ ha) b (List.mem_append_left _ hb)⟩

theorem populateDomains_spec (hid : ∀ info ∈ infos, info.id.val < count) :
    (∃ s, populateDomains infos (List.replicate count kNoSmcuDomain) = some s ∧
        Populated count infos s.1 s.2 ∧ Consistent infos) ∨
      populateDomains infos (List.replicate count kNoSmcuDomain) = none ∧ ¬ Consistent infos := by
  have hnil : Consistent [] := ⟨by simp, by simp, by simp⟩
  exact populateLoop_spec infos.length count infos (populated_nil count) hnil hid (by simp)

/-! ### The topology of the records -/

/-- Why no topology is made. -/
inductive Rejected (infos : List CpuInfo) : Prop
  | implementers (a b : CpuInfo) : a ∈ infos → b ∈ infos →
      midrImplementer a.midr ≠ midrImplementer b.midr → Rejected infos
  | reserved (a : CpuInfo) : a ∈ infos → smidrSharing a.smidr = .reserved → Rejected infos
  | smcuCount (a : CpuInfo) : a ∈ infos → smidrSmcuCount a.smidr = none → Rejected infos
  | disagree (a b : CpuInfo) : a ∈ infos → b ∈ infos → Shared a → Shared b →
      smcuIdentifier a.smidr = smcuIdentifier b.smidr →
      smidrSmcuCount a.smidr ≠ smidrSmcuCount b.smidr → Rejected infos
  | largestId (a : CpuInfo) : a ∈ infos → a.id.val = sizeMod - 1 → Rejected infos

/-- Whether the policy lets a CPU with this record use its unit. -/
def AllowedBy (infos : List CpuInfo) (info : CpuInfo) : Prop :=
  if midrImplementer info.midr = kArmImplementer then
    midrPart info.midr = kC1NanoPart ∨ midrPart info.midr = kC1ProPart ∨
      midrPart info.midr = kC1PremiumPart
  else
    (∃ other ∈ infos, Shared other ∧ smidrAffinity other.smidr ≠ 0) ∧
      Shared info ∧ smidrAffinity info.smidr = 0

theorem le_largestCpuId (infos : List CpuInfo) (start : ℕ) :
    start ≤ infos.foldl (fun largest info => max largest info.id.val) start ∧
      (∀ info ∈ infos, info.id.val
        ≤ infos.foldl (fun largest info => max largest info.id.val) start) ∧
      (infos.foldl (fun largest info => max largest info.id.val) start = start ∨
        ∃ info ∈ infos, info.id.val
          = infos.foldl (fun largest info => max largest info.id.val) start) := by
  induction infos generalizing start with
  | nil => simp
  | cons first rest ih =>
      obtain ⟨hstart, hrest, hattained⟩ := ih (max start first.id.val)
      rw [List.foldl_cons]
      refine ⟨by omega, ?_, ?_⟩
      · intro info hi
        rcases List.mem_cons.mp hi with rfl | hi
        · omega
        · exact hrest info hi
      · rcases hattained with heq | ⟨info, hi, heq⟩
        · by_cases hmax : start ≤ first.id.val
          · exact .inr ⟨first, by simp, by rw [heq]; omega⟩
          · exact .inl (by rw [heq]; omega)
        · exact .inr ⟨info, by simp [hi], heq⟩

/-- The policy for Arm cores goes by the last record of each CPU. -/
theorem applyCpuPolicy_getElem? (infos : List CpuInfo) {cpuAllowed : List Bool}
    (hid : ∀ info ∈ infos, info.id.val < cpuAllowed.length) (cpu : ℕ) :
    (applyCpuPolicyForArmCores infos cpuAllowed).length = cpuAllowed.length ∧
    (applyCpuPolicyForArmCores infos cpuAllowed)[cpu]? = match lastRecord infos cpu with
      | some info => some (midrPart info.midr == kC1NanoPart || midrPart info.midr == kC1ProPart ||
          midrPart info.midr == kC1PremiumPart)
      | none => cpuAllowed[cpu]? := by
  induction infos using List.reverseRecOn with
  | nil => exact ⟨rfl, rfl⟩
  | append_singleton infos info ih =>
      obtain ⟨hlength, hget⟩ := ih fun i hi => hid i (List.mem_append_left _ hi)
      unfold applyCpuPolicyForArmCores at hlength hget ⊢
      rw [List.foldl_append, List.foldl_cons, List.foldl_nil, List.length_set,
        lastRecord_append, List.getElem?_set]
      refine ⟨hlength, ?_⟩
      have hlt := hid info (by simp)
      by_cases hc : info.id.val = cpu
      · rw [if_pos hc, if_pos hc, if_pos (by omega)]
      · rw [if_neg hc, if_neg hc, hget]

theorem domainForCpu_eq (topology : SmcuTopology) (cpu : ℕ) :
    topology.domainForCpu cpu = (topology.cpuToDomain[cpu]?).getD kNoSmcuDomain := by
  unfold domainForCpu
  split
  · rename_i h
    rw [List.getElem?_eq_getElem h, Option.getD_some]
  · rename_i h
    rw [List.getElem?_eq_none (by omega), Option.getD_none]

theorem isCpuAllowed_eq (topology : SmcuTopology) (cpu : ℕ) :
    topology.isCpuAllowed cpu = (topology.cpuAllowed[cpu]?).getD false := by
  unfold isCpuAllowed
  split
  · rename_i h
    rw [List.getElem?_eq_getElem h, Option.getD_some]
  · rename_i h
    rw [List.getElem?_eq_none (by omega), Option.getD_none]

theorem Populated.mem_domain (h : Populated count infos domains cpuToDomain) {cpu : ℕ}
    (hlast : lastRecord infos cpu = some info) :
    ∃ (i : ℕ) (d : SmcuDomainInfo), cpuToDomain[cpu]? = some i ∧ domains[i]? = some d ∧
      domainOf info = some d := by
  obtain ⟨i, hi, hm, hd⟩ := h.assigned cpu info hlast
  rw [List.getElem?_eq_getElem hi] at hd
  exact ⟨i, domains[i], hm, List.getElem?_eq_getElem hi, hd.symm⟩

/-- The policy for other cores. -/
theorem enableCores_getElem? (h : Populated count infos domains cpuToDomain)
    (hlen : infos.length < sizeMod) (cpu : ℕ) :
    (enableCoresForSharedZeroAffinityDomain domains cpuToDomain
        (List.replicate count false))[cpu]? = some true ↔
      ∃ info, lastRecord infos cpu = some info ∧ Shared info ∧ smidrAffinity info.smidr = 0 := by
  unfold enableCoresForSharedZeroAffinityDomain
  cases hfind : findSharedDomain domains 0 with
  | none =>
      constructor
      · intro hget
        have := List.mem_of_getElem? hget
        simp at this
      · rintro ⟨info, hlast, hshared, haff⟩
        obtain ⟨i, d, -, hd, hdom⟩ := h.mem_domain hlast
        exact absurd ((domainOf_affinity hdom).trans haff)
          (findSharedDomain_eq_none hfind hd ((domainOf_shared hdom).mpr hshared))
  | some domain =>
      obtain ⟨e, he, hes, hea⟩ := findSharedDomain_eq_some hfind
      have hlt := (List.getElem?_eq_some_iff.mp he).1
      have hno : kNoSmcuDomain ≠ domain := by
        have := h.few
        unfold kNoSmcuDomain
        omega
      simp only [List.getElem?_zipWith]
      cases hlast : lastRecord infos cpu with
      | none =>
          simp only [reduceCtorEq, false_and, exists_false, iff_false]
          intro hget
          by_cases hcpu : cpu < count
          · rw [h.absent cpu hcpu hlast, List.getElem?_replicate, if_pos hcpu] at hget
            simp [hno] at hget
          · rw [List.getElem?_eq_none (by rw [h.length]; omega)] at hget
            cases hget
      | some info =>
          obtain ⟨i, d, hm, hd, hdom⟩ := h.mem_domain hlast
          have hcpu : cpu < count := by
            rw [← h.length]
            exact (List.getElem?_eq_some_iff.mp hm).1
          have hiff : i = domain ↔ Shared info ∧ smidrAffinity info.smidr = 0 := by
            constructor
            · rintro rfl
              obtain rfl := Option.some.inj (hd.symm.trans he)
              exact ⟨(domainOf_shared hdom).mp hes, (domainOf_affinity hdom).symm.trans hea⟩
            · rintro ⟨hs, ha⟩
              exact h.unique i domain d e hd he ((domainOf_shared hdom).mpr hs) hes
                (by rw [domainOf_affinity hdom, ha, hea])
          rw [hm, List.getElem?_replicate, if_pos hcpu]
          simp [hiff]

theorem anySharedNonzero_iff (h : Populated count infos domains cpuToDomain) :
    isThereSharedDomainWithNonzeroAffinity domains = true ↔
      ∃ other ∈ infos, Shared other ∧ smidrAffinity other.smidr ≠ 0 := by
  simp only [isThereSharedDomainWithNonzeroAffinity, List.any_eq_true, Bool.and_eq_true, bne_iff_ne]
  constructor
  · rintro ⟨d, hd, hs, ha⟩
    obtain ⟨i, hi⟩ := List.getElem?_of_mem hd
    obtain ⟨r, hr, hdom⟩ := h.known i d hi
    exact ⟨r, hr, (domainOf_shared hdom).mp hs, by rwa [← domainOf_affinity hdom]⟩
  · rintro ⟨r, hr, hs, ha⟩
    obtain ⟨i, hi, hd⟩ := h.listed r hr
    rw [List.getElem?_eq_getElem hi] at hd
    exact ⟨domains[i], List.getElem_mem hi, (domainOf_shared hd.symm).mpr hs,
      by rwa [domainOf_affinity hd.symm]⟩

theorem rejected_iff (first : CpuInfo) (hfirst : first ∈ infos) : Rejected infos ↔
    (∃ a ∈ infos, a.id.val = sizeMod - 1) ∨
      (∃ a ∈ infos, midrImplementer a.midr ≠ midrImplementer first.midr) ∨ ¬ Consistent infos := by
  constructor
  · rintro (⟨a, b, ha, hb, hne⟩ | ⟨a, ha, hr⟩ | ⟨a, ha, hc⟩ | ⟨a, b, ha, hb, hsa, hsb, heq, hne⟩ |
      ⟨a, ha, hid⟩)
    · by_cases hfa : midrImplementer a.midr = midrImplementer first.midr
      · exact .inr (.inl ⟨b, hb, fun hfb => hne (hfa.trans hfb.symm)⟩)
      · exact .inr (.inl ⟨a, ha, hfa⟩)
    · exact .inr (.inr fun h => h.sharing a ha hr)
    · exact .inr (.inr fun h => h.smcuCount a ha hc)
    · exact .inr (.inr fun h =>
        hne (h.agree a ha b hb hsa hsb ((smidrAffinity_eq_iff _ _).mpr heq)))
    · exact .inl ⟨a, ha, hid⟩
  · rintro (⟨a, ha, hid⟩ | ⟨a, ha, hne⟩ | hnot)
    · exact .largestId a ha hid
    · exact .implementers a first ha hfirst hne
    · by_contra hno
      refine hnot ⟨fun a ha hr => hno (.reserved a ha hr), fun a ha hc => hno (.smcuCount a ha hc),
        fun a ha b hb hsa hsb heq => ?_⟩
      by_contra hne
      exact hno (.disagree a b ha hb hsa hsb ((smidrAffinity_eq_iff _ _).mp heq) hne)

theorem getD_eq_true (a : Option Bool) : a.getD false = true ↔ a = some true := by
  cases a with
  | none => simp
  | some b => simp

/-- Who is allowed, whichever policy applies. -/
theorem policy_spec (h : Populated count infos domains cpuToDomain)
    (hlen : infos.length < sizeMod) (hid : ∀ info ∈ infos, info.id.val < count)
    {implementer : BitVec 64} (hsame : ∀ info ∈ infos, midrImplementer info.midr = implementer)
    (cpu : ℕ) :
    (if implementer = kArmImplementer then
        applyCpuPolicyForArmCores infos (List.replicate count false)
      else if isThereSharedDomainWithNonzeroAffinity domains then
        enableCoresForSharedZeroAffinityDomain domains cpuToDomain (List.replicate count false)
      else List.replicate count false)[cpu]? = some true ↔
      ∃ info, lastRecord infos cpu = some info ∧ AllowedBy infos info := by
  by_cases harm : implementer = kArmImplementer
  · rw [if_pos harm, (applyCpuPolicy_getElem? infos (by simpa using hid) cpu).2]
    cases hlast : lastRecord infos cpu with
    | none =>
        simp only [List.getElem?_replicate, reduceCtorEq, false_and, exists_false, iff_false]
        split <;> simp
    | some info =>
        have hi : midrImplementer info.midr = kArmImplementer :=
          (hsame info (lastRecord_mem hlast).1).trans harm
        simp only [Option.some.injEq, exists_eq_left', AllowedBy, if_pos hi, Bool.or_eq_true,
          beq_iff_eq, or_assoc]
  · rw [if_neg harm]
    have hallowed : ∀ info, lastRecord infos cpu = some info → (AllowedBy infos info ↔
        (∃ other ∈ infos, Shared other ∧ smidrAffinity other.smidr ≠ 0) ∧ Shared info ∧
          smidrAffinity info.smidr = 0) := by
      intro info hlast
      rw [AllowedBy, if_neg (by rwa [hsame info (lastRecord_mem hlast).1])]
    by_cases hany : isThereSharedDomainWithNonzeroAffinity domains = true
    · have hother := (anySharedNonzero_iff h).mp hany
      rw [if_pos hany, enableCores_getElem? h hlen]
      exact exists_congr fun info => and_congr_right fun hlast => by
        rw [hallowed info hlast]
        exact (and_iff_right hother).symm
    · rw [if_neg hany]
      constructor
      · intro hget
        simp [List.getElem?_replicate] at hget
      · rintro ⟨info, hlast, hinfo⟩
        exact absurd ((anySharedNonzero_iff h).mpr ((hallowed info hlast).mp hinfo).1) hany

/-- What is made of the records, if anything. -/
theorem fromRegisters_spec (hne : infos ≠ []) (hlen : infos.length < sizeMod) :
    (∃ topology count, fromRegisters infos = some topology ∧ ¬ Rejected infos ∧
        Populated count infos topology.domains topology.cpuToDomain ∧
        ∀ cpu, topology.isCpuAllowed cpu = true ↔
          ∃ info, lastRecord infos cpu = some info ∧ AllowedBy infos info) ∨
      fromRegisters infos = none ∧ Rejected infos := by
  obtain ⟨first, rest, rfl⟩ := List.exists_cons_of_ne_nil hne
  have hiff := rejected_iff first (List.mem_cons_self : first ∈ first :: rest)
  obtain ⟨-, hle, hattained⟩ := le_largestCpuId (first :: rest) 0
  generalize hlargest : (first :: rest).foldl (fun largest info => max largest info.id.val) 0
    = largest at hle hattained
  by_cases hmax : largest = sizeMod - 1
  · refine .inr ⟨by simp only [fromRegisters, hlargest, if_pos hmax], hiff.mpr (.inl ?_)⟩
    rcases hattained with h0 | ⟨info, hi, heq⟩
    · rw [h0] at hmax
      exact absurd hmax (by decide)
    · exact ⟨info, hi, heq.trans hmax⟩
  by_cases himpl : (first :: rest).any
      (fun info => midrImplementer info.midr != midrImplementer first.midr) = true
  · refine .inr ⟨by simp only [fromRegisters, hlargest, if_neg hmax, if_pos himpl],
      hiff.mpr (.inr (.inl ?_))⟩
    obtain ⟨a, ha, hne'⟩ := List.any_eq_true.mp himpl
    exact ⟨a, ha, by simpa using hne'⟩
  have hsame : ∀ info ∈ first :: rest, midrImplementer info.midr = midrImplementer first.midr := by
    intro info hi
    by_contra hne'
    exact himpl (List.any_eq_true.mpr ⟨info, hi, by simpa using hne'⟩)
  have hid : ∀ info ∈ first :: rest, info.id.val < largest + 1 := fun info hi => by
    have := hle info hi
    omega
  rcases populateDomains_spec hid with ⟨⟨domains, cpuToDomain⟩, hpop, hpopulated, hcons⟩ | ⟨hpop, hnot⟩
  · have heq : fromRegisters (first :: rest) = some ⟨cpuToDomain,
        if midrImplementer first.midr = kArmImplementer then
          applyCpuPolicyForArmCores (first :: rest) (List.replicate (largest + 1) false)
        else if isThereSharedDomainWithNonzeroAffinity domains then
          enableCoresForSharedZeroAffinityDomain domains cpuToDomain
            (List.replicate (largest + 1) false)
        else List.replicate (largest + 1) false, domains⟩ := by
      simp only [fromRegisters, hlargest, if_neg hmax, if_neg himpl, hpop]
    refine .inl ⟨_, largest + 1, heq, ?_, hpopulated, fun cpu => ?_⟩
    · rw [hiff]
      rintro (⟨a, ha, hida⟩ | ⟨a, ha, hne'⟩ | hnot)
      · -- the largest id would be the largest `size_t`
        have hale := hle a ha
        rcases hattained with h0 | ⟨info, hi, hinfo⟩
        · unfold sizeMod at hida
          omega
        · have := info.id.isLt
          omega
      · exact hne' (hsame a ha)
      · exact hnot hcons
    · rw [isCpuAllowed_eq, getD_eq_true]
      exact policy_spec hpopulated hlen hid hsame cpu
  · exact .inr ⟨by simp only [fromRegisters, hlargest, if_neg hmax, if_neg himpl, hpop],
      hiff.mpr (.inr (.inr hnot))⟩

/-! ### Domains as classes of CPUs -/

/-- Two CPUs have the same domain, or none. -/
def SameDomain (infos : List CpuInfo) (a b : ℕ) : Prop :=
  match lastRecord infos a, lastRecord infos b with
  | some ra, some rb =>
      a = b ∨ Shared ra ∧ Shared rb ∧ smcuIdentifier ra.smidr = smcuIdentifier rb.smidr
  | none, none => True
  | _, _ => False

variable {topology : SmcuTopology}

theorem domainForCpu_of_absent
    (h : Populated count infos topology.domains topology.cpuToDomain) {cpu : ℕ}
    (hnone : lastRecord infos cpu = none) : topology.domainForCpu cpu = kNoSmcuDomain := by
  rw [domainForCpu_eq]
  by_cases hcpu : cpu < count
  · rw [h.absent cpu hcpu hnone, Option.getD_some]
  · rw [List.getElem?_eq_none (by rw [h.length]; omega), Option.getD_none]

theorem domainForCpu_of_record
    (h : Populated count infos topology.domains topology.cpuToDomain)
    (hlen : infos.length < sizeMod) {cpu : ℕ} (hlast : lastRecord infos cpu = some info) :
    ∃ d, topology.cpuToDomain[cpu]? = some (topology.domainForCpu cpu) ∧
      topology.domains[topology.domainForCpu cpu]? = some d ∧ domainOf info = some d ∧
      topology.slotCount (topology.domainForCpu cpu) = d.slotCount ∧
      topology.domainForCpu cpu ≠ kNoSmcuDomain := by
  obtain ⟨i, d, hm, hd, hdom⟩ := h.mem_domain hlast
  have hi : topology.domainForCpu cpu = i := by
    rw [domainForCpu_eq, hm, Option.getD_some]
  obtain ⟨hlt, hget⟩ := List.getElem?_eq_some_iff.mp hd
  refine ⟨d, by rw [hm, hi], by rw [hi, hd], hdom, ?_, ?_⟩
  · rw [hi, slotCount, dif_pos hlt, hget]
  · have := h.few
    rw [hi]
    unfold kNoSmcuDomain
    omega

/-- The map of the CPUs to domains has the classes that the records describe. -/
theorem domainForCpu_eq_iff
    (h : Populated count infos topology.domains topology.cpuToDomain)
    (hlen : infos.length < sizeMod) (a b : ℕ) :
    topology.domainForCpu a = topology.domainForCpu b ↔ SameDomain infos a b := by
  unfold SameDomain
  cases ha : lastRecord infos a with
  | none =>
      cases hb : lastRecord infos b with
      | none => simp [domainForCpu_of_absent h ha, domainForCpu_of_absent h hb]
      | some rb =>
          obtain ⟨-, -, -, -, -, hno⟩ := domainForCpu_of_record h hlen hb
          simp only [domainForCpu_of_absent h ha, iff_false]
          exact fun he => hno he.symm
  | some ra =>
      obtain ⟨d, hma, hd, hdom, -, hno⟩ := domainForCpu_of_record h hlen ha
      cases hb : lastRecord infos b with
      | none => simpa only [domainForCpu_of_absent h hb, iff_false] using hno
      | some rb =>
          obtain ⟨e, hmb, he, hdome, -, -⟩ := domainForCpu_of_record h hlen hb
          simp only
          constructor
          · intro heq
            by_cases hab : a = b
            · exact .inl hab
            · -- neither of the two is alone in its domain
              have hsa : Shared ra := by
                by_contra hns
                exact h.alone a b ra rb hab ha hb hns (by rw [hma, hmb, heq])
              have hde : d = e := by
                rw [heq] at hd
                exact Option.some.inj (hd.symm.trans he)
              subst hde
              refine .inr ⟨hsa, (domainOf_shared hdome).mp ((domainOf_shared hdom).mpr hsa), ?_⟩
              rw [← smidrAffinity_eq_iff, ← domainOf_affinity hdom, domainOf_affinity hdome]
          · rintro (rfl | ⟨hsa, hsb, hid⟩)
            · rfl
            · refine h.unique _ _ d e hd he ((domainOf_shared hdom).mpr hsa)
                ((domainOf_shared hdome).mpr hsb) ?_
              rw [domainOf_affinity hdom, domainOf_affinity hdome, (smidrAffinity_eq_iff _ _).mpr hid]

/-! ### The order of the records -/

theorem lastRecord_eq_none_iff {cpu : ℕ} :
    lastRecord infos cpu = none ↔ ∀ info ∈ infos, info.id.val ≠ cpu := by
  simp [lastRecord]

/-- Which record counts does not depend on the order when those of one CPU agree. -/
theorem lastRecord_perm {other : List CpuInfo} (hperm : other.Perm infos)
    (hagree : ∀ a ∈ infos, ∀ b ∈ infos, a.id = b.id → a = b) (cpu : ℕ) :
    lastRecord other cpu = lastRecord infos cpu := by
  cases hlast : lastRecord infos cpu with
  | none =>
      rw [lastRecord_eq_none_iff] at hlast ⊢
      exact fun info hi => hlast info (hperm.mem_iff.mp hi)
  | some info =>
      obtain ⟨hi, hid⟩ := lastRecord_mem hlast
      obtain ⟨last, hl⟩ := exists_lastRecord (hperm.mem_iff.mpr hi)
      obtain ⟨hm, hmid⟩ := lastRecord_mem hl
      rw [← hid, hl, hagree last (hperm.mem_iff.mp hm) info hi (Fin.ext hmid)]

theorem Rejected.perm {other : List CpuInfo} (hperm : other.Perm infos) (h : Rejected other) :
    Rejected infos := by
  cases h with
  | implementers a b ha hb hne => exact .implementers a b (hperm.mem_iff.mp ha) (hperm.mem_iff.mp hb) hne
  | reserved a ha hr => exact .reserved a (hperm.mem_iff.mp ha) hr
  | smcuCount a ha hc => exact .smcuCount a (hperm.mem_iff.mp ha) hc
  | disagree a b ha hb hsa hsb hid hne =>
      exact .disagree a b (hperm.mem_iff.mp ha) (hperm.mem_iff.mp hb) hsa hsb hid hne
  | largestId a ha hid => exact .largestId a (hperm.mem_iff.mp ha) hid

theorem allowedBy_perm {other : List CpuInfo} (hperm : other.Perm infos) :
    AllowedBy other info ↔ AllowedBy infos info := by
  simp only [AllowedBy, hperm.mem_iff]

/-- **The topology is the one the registers describe**, where the last record of a CPU counts:
CPUs share a domain just when their units are shared and have the same identifier, a domain has
the number of units its CPUs report, a CPU without a record has no domain and is not allowed,
and only inconsistent records are rejected.  Reordering records of which no two of one CPU
differ changes neither the domains nor the allowed CPUs. -/
theorem fromRegisters_exact (infos : List CpuInfo) (hne : infos ≠ []) (hlen : infos.length < sizeMod) :
    (fromRegisters infos = none ↔ Rejected infos) ∧
    ∀ topology, fromRegisters infos = some topology →
      (∀ a b ra rb, a ≠ b → lastRecord infos a = some ra → lastRecord infos b = some rb →
        (topology.domainForCpu a = topology.domainForCpu b ↔
          Shared ra ∧ Shared rb ∧ smcuIdentifier ra.smidr = smcuIdentifier rb.smidr)) ∧
      (∀ a ra, lastRecord infos a = some ra → ¬ Shared ra →
        topology.slotCount (topology.domainForCpu a) = 1 ∧
          ∀ b, b ≠ a → topology.domainForCpu b ≠ topology.domainForCpu a) ∧
      (∀ a ra, lastRecord infos a = some ra → Shared ra →
        (smidrSmcuCount ra.smidr).map Fin.val
          = some (topology.slotCount (topology.domainForCpu a))) ∧
      (∀ cpu, (∀ info ∈ infos, info.id.val ≠ cpu) →
        topology.domainForCpu cpu = kNoSmcuDomain ∧ topology.isCpuAllowed cpu = false) ∧
      ∀ other : List CpuInfo, other.Perm infos →
        (∀ a ∈ infos, ∀ b ∈ infos, a.id = b.id → a = b) →
        ∃ topology', fromRegisters other = some topology' ∧
          (∀ a b, topology'.domainForCpu a = topology'.domainForCpu b ↔
            topology.domainForCpu a = topology.domainForCpu b) ∧
          ∀ cpu, topology'.isCpuAllowed cpu = topology.isCpuAllowed cpu := by
  obtain ⟨topology, count, heq, hnot, hpop, hallowed⟩ | ⟨heq, hrej⟩ := fromRegisters_spec hne hlen
  · refine ⟨by simp [heq, hnot], fun t ht => ?_⟩
    obtain rfl : topology = t := Option.some.inj (heq.symm.trans ht)
    have hdomain := domainForCpu_eq_iff hpop hlen
    refine ⟨?_, ?_, ?_, ?_, ?_⟩
    · intro a b ra rb hab ha hb
      rw [hdomain, SameDomain, ha, hb]
      simp [hab]
    · intro a ra ha hns
      obtain ⟨d, -, -, hdom, hslots, -⟩ := domainForCpu_of_record hpop hlen ha
      refine ⟨?_, fun b hba => ?_⟩
      · obtain ⟨c, -, rfl⟩ := domainOf_eq_some.mp hdom
        rw [hslots, if_neg hns]
        rfl
      · rw [Ne, hdomain, SameDomain, ha]
        cases lastRecord infos b with
        | none => exact fun h => h
        | some rb => exact fun h => h.elim hba fun h => hns h.2.1
    · intro a ra ha hs
      obtain ⟨d, -, -, hdom, hslots, -⟩ := domainForCpu_of_record hpop hlen ha
      rw [hslots, domainOf_slotCount hdom hs, Option.map_some]
    · intro cpu hcpu
      have hnone := lastRecord_eq_none_iff.mpr hcpu
      refine ⟨domainForCpu_of_absent hpop hnone, ?_⟩
      rw [← Bool.not_eq_true, hallowed, hnone]
      simp
    · intro other hperm hagree
      have hlast := lastRecord_perm hperm hagree
      have hne' : other ≠ [] := fun h => hne (List.Perm.eq_nil (h ▸ hperm.symm))
      have hlen' : other.length < sizeMod := by rwa [hperm.length_eq]
      obtain ⟨topology', count', heq', -, hpop', hallowed'⟩ | ⟨-, hrej⟩ :=
        fromRegisters_spec hne' hlen'
      · refine ⟨topology', heq', fun a b => ?_, fun cpu => ?_⟩
        · rw [domainForCpu_eq_iff hpop' hlen', hdomain, SameDomain, SameDomain, hlast, hlast]
        · rw [Bool.eq_iff_iff, hallowed', hallowed]
          simp only [hlast, allowedBy_perm hperm]
      · exact absurd (hrej.perm hperm) hnot
  · refine ⟨by simp [heq, hrej], fun t ht => ?_⟩
    rw [heq] at ht
    cases ht

/-- Two CPUs that share a unit, one that does not, and no record of CPU 2. -/
theorem fromRegisters_exact_threeCpus :
    let infos : List CpuInfo := [⟨⟨0, by decide⟩, 0, 0x0100000000006005⟩,
      ⟨⟨1, by decide⟩, 0, 0x4000⟩, ⟨⟨3, by decide⟩, 0, 0x0100000000006005⟩]
    (fromRegisters infos = none ↔ Rejected infos) ∧
    ∀ topology, fromRegisters infos = some topology →
      topology.domainForCpu 0 = topology.domainForCpu 3 ∧
        topology.domainForCpu 2 = kNoSmcuDomain := by
  have h := fromRegisters_exact [⟨⟨0, by decide⟩, 0, 0x0100000000006005⟩,
    ⟨⟨1, by decide⟩, 0, 0x4000⟩, ⟨⟨3, by decide⟩, 0, 0x0100000000006005⟩] (by simp) (by decide)
  refine ⟨h.1, fun topology ht => ⟨?_, ((h.2 topology ht).2.2.2.1 2 (by decide)).1⟩⟩
  exact ((h.2 topology ht).1 0 3 _ _ (by decide) rfl rfl).mpr ⟨by decide, by decide, rfl⟩

/-- Two records of one CPU that differ: the later one counts, so that their order matters. -/
theorem fromRegisters_order_matters :
    ¬ ∀ (infos other : List CpuInfo) (topology topology' : SmcuTopology), infos ≠ [] →
      other.Perm infos → fromRegisters infos = some topology →
      fromRegisters other = some topology' → ∀ a b,
        (topology'.domainForCpu a = topology'.domainForCpu b ↔
          topology.domainForCpu a = topology.domainForCpu b) := by
  intro h
  have hiff := h [⟨⟨0, by decide⟩, 0, 0x6005⟩, ⟨⟨0, by decide⟩, 0, 0x4000⟩, ⟨⟨1, by decide⟩, 0, 0x6005⟩]
    [⟨⟨0, by decide⟩, 0, 0x4000⟩, ⟨⟨0, by decide⟩, 0, 0x6005⟩, ⟨⟨1, by decide⟩, 0, 0x6005⟩]
    _ _ (by simp) (List.Perm.swap _ _ _) rfl rfl 0 1
  exact absurd (hiff.mp (by decide)) (by decide)

end SmcuTopology

end KleidiCV
